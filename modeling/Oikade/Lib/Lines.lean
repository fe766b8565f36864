/-
  Lines out of a stream that arrives in chunks, with a limit on their length.

  `readLine` is the loop over a buffered reader: it looks at the chunk at hand, takes it up to and
  including the first newline, refuses a line that grows over the limit before it appends, and goes
  on with the next chunk. The stream ends, or reading it fails.

  `nextLine` says the same of the bytes alone. `readLine_eq` relates the two, so nothing that is
  made from lines depends on where the stream was cut (`results_congr`).

  `cut` splits bytes into their lines at once, and `cut_append` says how a loop that keeps the
  bytes after the last newline goes on.
-/
import Mathlib.Data.List.Basic

namespace Lines

variable {α β ε δ : Type} [DecidableEq α]

inductive Error (ε : Type) where
  | tooLarge
  | read (e : ε)
  deriving DecidableEq, Repr

/-! ## The loop -/

/-- How much of a chunk belongs to the line. -/
def taken (nl : α) (available : List α) : Nat :=
  match available.findIdx? (· = nl) with
  | some index => index + 1
  | none => available.length

/-- What is left of the chunk at hand stays at hand. -/
def leave (chunk : List α) (chunks : List (List α)) : List (List α) :=
  if chunk.isEmpty then chunks else chunk :: chunks

/-- The loop with the line so far; `failure` is what the read after the last chunk fails with. -/
def readLine (nl : α) (limit : Nat) (failure : Option ε) (line : List α) :
    List (List α) → Except (Error ε) (Option (List α)) × List (List α)
  | [] =>
    match failure with
    | some e => (.error (.read e), [])
    | none => (.ok (if line.isEmpty then none else some line), [])
  | available :: chunks =>
    let n := taken nl available
    if limit < line.length + n then (.error .tooLarge, available :: chunks)
    else
      let line := line ++ available.take n
      if line.getLast? = some nl then (.ok (some line), leave (available.drop n) chunks)
      else readLine nl limit failure line chunks

/-- A stream: the chunks to come, none of them empty, and how it ends. -/
structure Source (α ε : Type) where
  chunks : List (List α)
  failure : Option ε
  nonempty : ∀ c ∈ chunks, c ≠ []

def Source.bytes (s : Source α ε) : List α := s.chunks.flatten

theorem readLine_nonempty {nl : α} {limit : Nat} {failure : Option ε} {line : List α}
    {chunks : List (List α)} (h : ∀ c ∈ chunks, c ≠ []) :
    ∀ c ∈ (readLine nl limit failure line chunks).2, c ≠ [] := by
  induction chunks generalizing line with
  | nil =>
    cases failure <;> simp [readLine]
  | cons available chunks ih =>
    rw [List.forall_mem_cons] at h
    simp only [readLine]
    split
    · exact List.forall_mem_cons.mpr h
    · split
      · simp only [leave]
        split
        · exact h.2
        · rename_i hne
          exact List.forall_mem_cons.mpr ⟨by simpa using hne, h.2⟩
      · exact ih h.2

/-- A decoder: the next line, and what `parse` makes of it. -/
def decode (nl : α) (limit : Nat) (wrap : Error ε → δ) (parse : List α → Except δ β)
    (s : Source α ε) : Except δ (Option β) × Source α ε :=
  (match (readLine nl limit s.failure [] s.chunks).1 with
    | .error e => .error (wrap e)
    | .ok none => .ok none
    | .ok (some line) => (parse line).map some,
   ⟨(readLine nl limit s.failure [] s.chunks).2, s.failure, readLine_nonempty s.nonempty⟩)

/-- The results of at most `n` calls in a row, up to the first error. -/
def results (call : Source α ε → Except δ (Option β) × Source α ε) :
    Nat → Source α ε → List (Except δ (Option β))
  | 0, _ => []
  | n + 1, s =>
    match call s with
    | (.error e, _) => [.error e]
    | (.ok v, s) => .ok v :: results call n s

/-! ## The bytes alone -/

/-- The bytes up to and including the first newline, and the rest. -/
def splitLine (nl : α) : List α → List α × List α
  | [] => ([], [])
  | b :: bs =>
    if b = nl then ([b], bs)
    else (b :: (splitLine nl bs).1, (splitLine nl bs).2)

/-- The line that continues `line`. -/
def nextLine (nl : α) (limit : Nat) (failure : Option ε) (line bytes : List α) :
    Except (Error ε) (Option (List α)) :=
  let l := (splitLine nl bytes).1
  if limit < line.length + l.length then .error .tooLarge
  else if l.getLast? = some nl then .ok (some (line ++ l))
  else match failure with
    | some e => .error (.read e)
    | none => .ok (if (line ++ l).isEmpty then none else some (line ++ l))

theorem splitLine_append_of_mem {nl : α} {a : List α} (h : nl ∈ a) (b : List α) :
    splitLine nl (a ++ b) = ((splitLine nl a).1, (splitLine nl a).2 ++ b) := by
  induction a with
  | nil => cases h
  | cons x a ih =>
    by_cases hx : x = nl
    · simp [splitLine, hx]
    · have hmem : nl ∈ a := by
        obtain rfl | hmem := List.mem_cons.mp h
        · exact absurd rfl hx
        · exact hmem
      simp [splitLine, hx, ih hmem]

theorem splitLine_append_of_not_mem {nl : α} {a : List α} (h : nl ∉ a) (b : List α) :
    splitLine nl (a ++ b) = (a ++ (splitLine nl b).1, (splitLine nl b).2) := by
  induction a with
  | nil => simp
  | cons x a ih =>
    rw [List.mem_cons, not_or] at h
    simp [splitLine, Ne.symm h.1, ih h.2]

theorem splitLine_of_not_mem {nl : α} {a : List α} (h : nl ∉ a) : splitLine nl a = (a, []) := by
  have := splitLine_append_of_not_mem h []
  simpa [splitLine] using this

theorem getLast?_splitLine {nl : α} {a : List α} :
    (splitLine nl a).1.getLast? = some nl ↔ nl ∈ a := by
  induction a with
  | nil => simp [splitLine]
  | cons x a ih =>
    by_cases hx : x = nl
    · simp [splitLine, hx]
    · simp only [splitLine, if_neg hx, List.mem_cons, Ne.symm hx, false_or]
      rw [← ih]
      cases hs : (splitLine nl a).1 with
      | nil => simp [hx]
      | cons y l => rw [List.getLast?_cons_cons]

theorem taken_cons (nl x : α) (a : List α) :
    taken nl (x :: a) = if x = nl then 1 else taken nl a + 1 := by
  unfold taken
  rw [List.findIdx?_cons]
  by_cases hx : x = nl
  · simp [hx]
  · simp only [hx, decide_false, Bool.false_eq_true, if_false]
    cases List.findIdx? (fun b => decide (b = nl)) a <;> simp

theorem splitLine_eq_taken (nl : α) (a : List α) :
    splitLine nl a = (a.take (taken nl a), a.drop (taken nl a)) := by
  induction a with
  | nil => simp [splitLine]
  | cons x a ih =>
    rw [splitLine, taken_cons]
    by_cases hx : x = nl
    · simp [hx]
    · simp [hx, ih]

omit [DecidableEq α] in
theorem flatten_leave (c : List α) (chunks : List (List α)) :
    (leave c chunks).flatten = c ++ chunks.flatten := by
  unfold leave
  split
  · rename_i h
    rw [List.isEmpty_iff.mp h, List.nil_append]
  · rfl

theorem taken_le (nl : α) (a : List α) : taken nl a ≤ a.length := by
  induction a with
  | nil => simp [taken]
  | cons x a ih =>
    rw [taken_cons, List.length_cons]
    split <;> omega

theorem taken_of_not_mem {nl : α} {a : List α} (h : nl ∉ a) : taken nl a = a.length := by
  have hnone : a.findIdx? (· = nl) = none := by
    rw [List.findIdx?_eq_none_iff]
    intro x hx
    exact decide_eq_false fun heq => h (heq ▸ hx)
  rw [taken, hnone]

/-- Bytes without a newline may as well have been read before. -/
theorem nextLine_append {nl : α} {limit : Nat} {failure : Option ε} {line a b : List α}
    (h : nl ∉ a) :
    nextLine nl limit failure line (a ++ b) = nextLine nl limit failure (line ++ a) b := by
  have hlast : (a ++ (splitLine nl b).1).getLast? = some nl ↔
      (splitLine nl b).1.getLast? = some nl := by
    cases hb : (splitLine nl b).1 with
    | nil =>
      simp only [List.append_nil, List.getLast?_nil, reduceCtorEq, iff_false]
      exact fun hl => h (List.mem_of_getLast? hl)
    | cons x l => rw [List.getLast?_append_of_ne_nil _ (by simp)]
  simp only [nextLine, splitLine_append_of_not_mem h, List.length_append, hlast, List.append_assoc,
    Nat.add_assoc]

/-- The loop reads the next line of the bytes, and leaves the bytes after it. -/
theorem readLine_eq {nl : α} {limit : Nat} {failure : Option ε} {line : List α}
    {chunks : List (List α)} (hline : nl ∉ line) (hlen : line.length ≤ limit) :
    (readLine nl limit failure line chunks).1 = nextLine nl limit failure line chunks.flatten ∧
      ∀ l, (readLine nl limit failure line chunks).1 = .ok l →
        (readLine nl limit failure line chunks).2.flatten = (splitLine nl chunks.flatten).2 := by
  induction chunks generalizing line with
  | nil =>
    have hle : ¬ limit < line.length := by omega
    cases failure <;> simp [readLine, nextLine, splitLine, hle]
  | cons available chunks ih =>
    simp only [readLine, List.flatten_cons]
    have htake : available.take (taken nl available) = (splitLine nl available).1 := by
      rw [splitLine_eq_taken]
    have hdrop : available.drop (taken nl available) = (splitLine nl available).2 := by
      rw [splitLine_eq_taken]
    have hlength : taken nl available = (splitLine nl available).1.length := by
      rw [← htake, List.length_take, Nat.min_eq_left (taken_le nl available)]
    rw [htake, hdrop, hlength]
    by_cases hmem : nl ∈ available
    · -- The line ends in this chunk.
      have hlast := getLast?_splitLine.mpr hmem
      have hlast' : (line ++ (splitLine nl available).1).getLast? = some nl := by
        rw [List.getLast?_append, hlast]
        rfl
      have hsplit := splitLine_append_of_mem hmem chunks.flatten
      by_cases hlim : limit < line.length + (splitLine nl available).1.length
      · simp [nextLine, hsplit, hlim]
      · simp [nextLine, hsplit, hlim, hlast, hlast', flatten_leave]
    · -- The whole chunk belongs to the line.
      have hself := splitLine_of_not_mem hmem
      have hline' : nl ∉ line ++ available := by
        rw [List.mem_append, not_or]
        exact ⟨hline, hmem⟩
      have hlast : (line ++ available).getLast? ≠ some nl := fun h =>
        hline' (List.mem_of_getLast? h)
      have hsplit := splitLine_append_of_not_mem hmem chunks.flatten
      simp only [hself, hsplit]
      by_cases hlim : limit < line.length + available.length
      · have hbig : limit < line.length + (available ++ (splitLine nl chunks.flatten).1).length := by
          rw [List.length_append]
          omega
        simp only [nextLine, hsplit, if_pos hlim, if_pos hbig, true_and]
        intro l hl
        cases hl
      · rw [if_neg hlim, if_neg hlast]
        obtain ⟨h₁, h₂⟩ := ih hline' (by rw [List.length_append]; omega)
        refine ⟨?_, h₂⟩
        rw [h₁, nextLine_append hmem]

/-! ## Calls in a row -/

/-- What a call returns is made from the bytes of the stream, and it leaves the bytes after the
    line. -/
theorem decode_eq (nl : α) (limit : Nat) (wrap : Error ε → δ) (parse : List α → Except δ β)
    (s : Source α ε) :
    (decode nl limit wrap parse s).1 =
        (match nextLine nl limit s.failure [] s.bytes with
          | .error e => .error (wrap e)
          | .ok none => .ok none
          | .ok (some line) => (parse line).map some) ∧
      (decode nl limit wrap parse s).2.failure = s.failure ∧
      ∀ v, (decode nl limit wrap parse s).1 = .ok v →
        (decode nl limit wrap parse s).2.bytes = (splitLine nl s.bytes).2 := by
  obtain ⟨h₁, h₂⟩ :=
    @readLine_eq α ε _ nl limit s.failure [] s.chunks (by simp) (Nat.zero_le _)
  refine ⟨?_, rfl, fun v hv => ?_⟩
  · unfold decode Source.bytes
    rw [h₁]
  · cases hr : (readLine nl limit s.failure [] s.chunks).1 with
    | error e => simp [decode, hr] at hv
    | ok l => exact h₂ l hr

variable {nl : α} {limit : Nat} {wrap : Error ε → δ} {parse : List α → Except δ β}

/-- Results depend on the bytes and on how the stream ends, not on the chunks. -/
theorem results_congr {s t : Source α ε} (hb : s.bytes = t.bytes) (hf : s.failure = t.failure)
    (n : Nat) : results (decode nl limit wrap parse) n s = results (decode nl limit wrap parse) n t := by
  induction n generalizing s t with
  | zero => rfl
  | succ n ih =>
    obtain ⟨hs, hsf, hsr⟩ := decode_eq nl limit wrap parse s
    obtain ⟨ht, htf, htr⟩ := decode_eq nl limit wrap parse t
    have hfst : (decode nl limit wrap parse s).1 = (decode nl limit wrap parse t).1 := by
      rw [hs, ht, hb, hf]
    simp only [results]
    cases hds : decode nl limit wrap parse s with
    | mk r s' =>
      cases hdt : decode nl limit wrap parse t with
      | mk r' t' =>
        simp only [hds, hdt] at hfst hsf htf hsr htr
        subst hfst
        cases r with
        | error e => rfl
        | ok v =>
          have hbytes : s'.bytes = t'.bytes := by rw [hsr v rfl, htr v rfl, hb]
          simp only [ih hbytes (by rw [hsf, htf, hf])]

theorem nextLine_line {failure : Option ε} {body rest : List α} (hbody : nl ∉ body) :
    nextLine nl limit failure [] (body ++ nl :: rest) =
        (if limit < body.length + 1 then .error .tooLarge else .ok (some (body ++ [nl]))) ∧
      (splitLine nl (body ++ nl :: rest)).2 = rest := by
  have hsplit : splitLine nl (body ++ nl :: rest) = (body ++ [nl], rest) := by
    rw [splitLine_append_of_not_mem hbody]
    simp [splitLine]
  simp only [nextLine, hsplit, List.length_nil, Nat.zero_add, List.length_append,
    List.length_singleton, List.nil_append]
  split <;> simp

/-- A stream of whole lines is read back line by line; then it has ended. -/
theorem results_lines {s : Source α ε} (hf : s.failure = none) {lines : List (List α)} {vs : List β}
    (hb : s.bytes = (lines.map (· ++ [nl])).flatten)
    (hlines : ∀ l ∈ lines, nl ∉ l ∧ l.length + 1 ≤ limit)
    (hparse : List.Forall₂ (fun l v => parse (l ++ [nl]) = .ok v) lines vs) (n : Nat) :
    results (decode nl limit wrap parse) (lines.length + n) s =
      vs.map (fun v => .ok (some v)) ++ List.replicate n (.ok none) := by
  induction hparse generalizing s with
  | nil =>
    have hdone : ∀ t : Source α ε, t.failure = none → t.bytes = [] →
        results (decode nl limit wrap parse) n t = List.replicate n (.ok none) := by
      induction n with
      | zero => intro t _ _; rfl
      | succ n ih =>
        intro t htf htb
        obtain ⟨ht, hfail, hrest⟩ :=
          decode_eq nl limit wrap parse t
        rw [htb, htf] at ht
        simp only [nextLine, splitLine, List.length_nil, Nat.add_zero, Nat.not_lt_zero, if_false,
          List.getLast?_nil, List.append_nil, List.isEmpty_nil, if_true, reduceCtorEq] at ht
        cases hd : decode nl limit wrap parse t with
        | mk r t' =>
          simp only [hd] at ht hfail hrest
          subst ht
          simp only [results, hd, List.replicate_succ, List.cons.injEq, true_and]
          refine ih t' (hfail.trans htf) ?_
          rw [hrest none rfl, htb]
          rfl
    simpa using hdone s hf (by simpa using hb)
  | @cons l v lines vs hl _ ih =>
    rw [List.forall_mem_cons] at hlines
    obtain ⟨hs, hfail, hrest⟩ :=
      decode_eq nl limit wrap parse s
    have hbytes : s.bytes = l ++ nl :: (lines.map (· ++ [nl])).flatten := by
      rw [hb]
      simp
    obtain ⟨hnext, hsplit⟩ :=
      @nextLine_line α ε _ nl limit s.failure l (lines.map (· ++ [nl])).flatten hlines.1.1
    rw [hbytes, hnext, if_neg (by omega)] at hs
    simp only [hl, Except.map] at hs
    cases hd : decode nl limit wrap parse s with
    | mk r s' =>
      simp only [hd] at hs hfail hrest
      subst hs
      have hs' := ih (s := s') (hfail.trans hf) (by rw [hrest _ rfl, hbytes, hsplit]) hlines.2
      rw [List.length_cons, Nat.succ_add]
      simp only [results, hd, List.map_cons, List.cons_append, hs']

/-! ## All lines at once -/

/-- The lines that are ended, without their newlines, and what follows the last newline. -/
def cut (nl : α) : List α → List (List α) × List α
  | [] => ([], [])
  | b :: bs =>
    if b = nl then ([] :: (cut nl bs).1, (cut nl bs).2)
    else match (cut nl bs).1 with
      | [] => ([], b :: (cut nl bs).2)
      | l :: ls => ((b :: l) :: ls, (cut nl bs).2)

/-- What follows the last newline. -/
def pending (nl : α) (bytes : List α) : List α := (cut nl bytes).2

theorem cut_of_not_mem {a : List α} (h : nl ∉ a) : cut nl a = ([], a) := by
  induction a with
  | nil => rfl
  | cons x a ih =>
    rw [List.mem_cons, not_or] at h
    simp [cut, Ne.symm h.1, ih h.2]

theorem not_mem_pending (nl : α) (a : List α) : nl ∉ pending nl a := by
  induction a with
  | nil => simp [pending, cut]
  | cons x a ih =>
    unfold pending at ih ⊢
    by_cases hx : x = nl
    · simpa [cut, hx] using ih
    · cases hl : (cut nl a).1 with
      | nil => simp [cut, hx, hl, Ne.symm hx, ih]
      | cons l ls => simpa [cut, hx, hl] using ih

theorem length_pending_le (nl : α) (a : List α) : (pending nl a).length ≤ a.length := by
  induction a with
  | nil => exact Nat.le_refl _
  | cons x a ih =>
    unfold pending at ih ⊢
    by_cases hx : x = nl
    · simp only [cut, if_pos hx, List.length_cons]
      omega
    · cases hl : (cut nl a).1 with
      | nil => simpa [cut, hx, hl] using ih
      | cons l ls =>
        simp only [cut, if_neg hx, hl, List.length_cons]
        omega

/-- The lines of the first part, and those of what it leaves with the second part. -/
theorem cut_append (nl : α) (a b : List α) : cut nl (a ++ b) =
    ((cut nl a).1 ++ (cut nl (pending nl a ++ b)).1, (cut nl (pending nl a ++ b)).2) := by
  induction a with
  | nil => simp [cut, pending]
  | cons x a ih =>
    unfold pending at ih ⊢
    by_cases hx : x = nl
    · simp [cut, hx, ih]
    · cases hl : (cut nl a).1 with
      | nil =>
        rw [hl, List.nil_append] at ih
        simp [cut, hx, hl, ih]
      | cons l ls =>
        rw [hl] at ih
        simp [cut, hx, hl, ih]

theorem pending_append (nl : α) (a b : List α) :
    pending nl (a ++ b) = pending nl (pending nl a ++ b) := by
  rw [pending, cut_append]
  rfl

/-- A line that is ended is the first one. -/
theorem cut_line {l : List α} (h : nl ∉ l) (rest : List α) :
    cut nl (l ++ nl :: rest) = (l :: (cut nl rest).1, (cut nl rest).2) := by
  induction l with
  | nil => simp [cut]
  | cons x l ih =>
    rw [List.mem_cons, not_or] at h
    rw [List.cons_append, cut, if_neg (Ne.symm h.1), ih h.2]

/-- The first line, where a search for the newline finds its end. -/
theorem cut_of_findIdx? {a : List α} {i : Nat} (h : a.findIdx? (· = nl) = some i) :
    cut nl a = (a.take i :: (cut nl (a.drop (i + 1))).1, (cut nl (a.drop (i + 1))).2) := by
  induction a generalizing i with
  | nil => cases h
  | cons x a ih =>
    rw [List.findIdx?_cons] at h
    by_cases hx : x = nl
    · simp only [hx, decide_true, if_true, Option.some.injEq] at h
      subst h
      simp [cut, hx]
    · simp only [hx, decide_false, Bool.false_eq_true, if_false, Option.map_eq_some_iff] at h
      obtain ⟨j, hj, rfl⟩ := h
      rw [cut, if_neg hx, ih hj]
      rfl

/-- Lines that are all ended. -/
theorem cut_lines {lines : List (List α)} (h : ∀ l ∈ lines, nl ∉ l) :
    cut nl (lines.flatMap (· ++ [nl])) = (lines, []) := by
  induction lines with
  | nil => rfl
  | cons l lines ih =>
    rw [List.forall_mem_cons] at h
    rw [List.flatMap_cons, List.append_assoc, List.singleton_append, cut_line h.1, ih h.2]

/-- An ended line has its newline besides. -/
theorem length_lt_of_mem_cut {a l : List α} (h : l ∈ (cut nl a).1) : l.length < a.length := by
  induction a generalizing l with
  | nil => cases h
  | cons x a ih =>
    rw [cut] at h
    split at h
    · obtain rfl | h := List.mem_cons.mp h
      · exact Nat.succ_pos _
      · exact Nat.lt_succ_of_lt (ih h)
    · split at h
      · cases h
      · rename_i l' ls hl
        obtain rfl | h := List.mem_cons.mp h
        · exact Nat.succ_lt_succ (ih (hl ▸ List.mem_cons_self))
        · exact Nat.lt_succ_of_lt (ih (hl ▸ List.mem_cons_of_mem _ h))

/-- Bytes without an ended line are pending. -/
theorem pending_of_cut_nil {a : List α} (h : (cut nl a).1 = []) : pending nl a = a := by
  induction a with
  | nil => rfl
  | cons x a ih =>
    unfold pending at ih ⊢
    by_cases hx : x = nl
    · simp [cut, hx] at h
    · cases hl : (cut nl a).1 with
      | nil => simp [cut, hx, hl, ih hl]
      | cons l ls => simp [cut, hx, hl] at h

/-- The lines with their newlines; the last one may have none. -/
def lines (nl : α) (bytes : List α) : List (List α) :=
  (cut nl bytes).1.map (· ++ [nl]) ++
    if (pending nl bytes).isEmpty then [] else [pending nl bytes]

theorem lines_line {l : List α} (h : nl ∉ l) (rest : List α) :
    lines nl (l ++ nl :: rest) = (l ++ [nl]) :: lines nl rest := by
  rw [lines, pending, cut_line h]
  rfl

theorem lines_of_not_mem {l : List α} (h : nl ∉ l) :
    lines nl l = if l.isEmpty then [] else [l] := by
  rw [lines, pending, cut_of_not_mem h]
  rfl

/-- Lines that are all ended. -/
theorem lines_flatMap {ls : List (List α)} (h : ∀ l ∈ ls, nl ∉ l) :
    lines nl (ls.flatMap (· ++ [nl])) = ls.map (· ++ [nl]) := by
  rw [lines, pending, cut_lines h]
  exact List.append_nil _

theorem eq_nil_of_lines {a : List α} (h : lines nl a = []) : a = [] := by
  rw [lines, List.append_eq_nil_iff, List.map_eq_nil_iff] at h
  obtain ⟨hcut, hpending⟩ := h
  rw [pending_of_cut_nil hcut] at hpending
  by_contra hne
  simp [hne] at hpending

/-- The line that a chunk ends, and the rest. -/
theorem lines_of_mem {l c : List α} (hl : nl ∉ l) (hc : nl ∈ c) (rest : List α) :
    lines nl (l ++ (c ++ rest)) =
      (l ++ c.take (taken nl c)) :: lines nl (c.drop (taken nl c) ++ rest) := by
  induction c generalizing l with
  | nil => cases hc
  | cons x c ih =>
    rw [taken_cons]
    by_cases hx : x = nl
    · subst hx
      rw [if_pos rfl, List.cons_append, lines_line hl]
      rfl
    · have hmem : nl ∈ c := by
        obtain rfl | hmem := List.mem_cons.mp hc
        · exact absurd rfl hx
        · exact hmem
      have hl' : nl ∉ l ++ [x] := by
        rw [List.mem_append, List.mem_singleton, not_or]
        exact ⟨hl, Ne.symm hx⟩
      have := ih hl' hmem
      rw [if_neg hx]
      simpa using this

/-- Bytes without a newline begin the first line. -/
theorem length_le_of_lines {l : List α} (hl : nl ∉ l) (hne : l ≠ []) (rest : List α) :
    ∃ line ∈ lines nl (l ++ rest), l.length ≤ line.length := by
  by_cases hmem : nl ∈ rest
  · have := lines_of_mem hl hmem []
    rw [List.append_nil] at this
    refine ⟨_, this ▸ List.mem_cons_self, ?_⟩
    rw [List.length_append]
    omega
  · have hnot : nl ∉ l ++ rest := by
      rw [List.mem_append, not_or]
      exact ⟨hl, hmem⟩
    refine ⟨l ++ rest, ?_, by rw [List.length_append]; omega⟩
    rw [lines_of_not_mem hnot, if_neg (by simp [hne])]
    exact List.mem_singleton_self _

end Lines
