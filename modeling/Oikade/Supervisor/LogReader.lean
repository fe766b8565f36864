/-
  The reader of a child's output (`spawn_log_reader` in `oikade-supervisor/src/process.rs`).

  A `Reader` is the task between two changes of its line buffer: `read_until` appends what a read
  has brought, up to a newline, and returns when it has found one or the stream has ended; then the
  line is cut, its terminators go, and it is passed to the sink. So the buffer holds every line as a
  whole before it is cut (`bounded_iff`). A read brings at most the capacity of the `BufReader`.
-/
import Oikade.Lib.Lines
import Oikade.Lib.Utf8
import Mathlib.Data.List.DropRight
import Mathlib.Logic.Function.Iterate

namespace Oikade.Supervisor.LogReader

open Lines (lines taken leave)
open Utf8 (fromUtf8Lossy)

abbrev Bytes := List UInt8

def newline : UInt8 := 10
def carriageReturn : UInt8 := 13

def maxLogLine : Nat := 2 ^ 14
/-- The capacity of a `BufReader`. -/
def readBuffer : Nat := 2 ^ 13

inductive LogStream where
  | stdout
  | stderr
  deriving DecidableEq, Repr

/-! ## The task -/

structure Reader where
  /-- the line buffer -/
  line : Bytes
  /-- `read_until` has returned a line -/
  complete : Bool
  /-- what the next reads bring -/
  chunks : List Bytes
  /-- the error of the read after them, if it is not the end of the stream -/
  failure : Option String
  /-- what the sink was given -/
  passed : List (LogStream × String)
  returned : Bool
  deriving DecidableEq

/-- The loop that pops line terminators. -/
def popTerminators (line : Bytes) : Bytes :=
  line.rdropWhile fun byte => byte = newline || byte = carriageReturn

/-- The text of a line. -/
def logText (line : Bytes) : String :=
  let truncated := maxLogLine < line.length
  let text := fromUtf8Lossy (popTerminators (line.take maxLogLine))
  if truncated then text ++ " [truncated]" else text

variable (stream : LogStream) (sink : Bool)

/-- One change of the line buffer. -/
def Reader.step (r : Reader) : Reader :=
  if r.returned then r
  else if r.complete then
    { r with
      line := []
      complete := false
      passed := if sink then r.passed ++ [(stream, logText r.line)] else r.passed }
  else match r.chunks with
    | [] =>
      if r.failure.isSome || r.line.isEmpty then { r with returned := true }
      else { r with complete := true }
    | available :: chunks =>
      let n := taken newline available
      { r with
        line := r.line ++ available.take n
        complete := newline ∈ available
        chunks := leave (available.drop n) chunks }

/-- The task after some steps. -/
def Reader.after (n : Nat) (r : Reader) : Reader := (step stream sink)^[n] r

/-- Reads, each with at least a byte, and then the end of the stream. -/
structure Reads where
  chunks : List Bytes
  sized : ∀ c ∈ chunks, 0 < c.length ∧ c.length ≤ readBuffer

def Reads.bytes (reads : Reads) : Bytes := reads.chunks.flatten

def Reader.start (reads : Reads) : Reader := ⟨[], false, reads.chunks, none, [], false⟩

variable {stream sink} {line : Bytes} {chunks : List Bytes} {failure : Option String}
  {passed : List (LogStream × String)}

/-- A chunk with a newline ends the line. -/
theorem step_mem {available : Bytes} (h : newline ∈ available) :
    Reader.step stream sink ⟨line, false, available :: chunks, failure, passed, false⟩ =
      ⟨line ++ available.take (taken newline available), true,
        leave (available.drop (taken newline available)) chunks, failure, passed, false⟩ := by
  simp [Reader.step, h]

/-- A chunk without one belongs to it. -/
theorem step_not_mem {available : Bytes} (h : newline ∉ available) :
    Reader.step stream sink ⟨line, false, available :: chunks, failure, passed, false⟩ =
      ⟨line ++ available, false, chunks, failure, passed, false⟩ := by
  simp [Reader.step, h, Lines.taken_of_not_mem h, leave]

/-- At the end of the stream, what was read is the last line. -/
theorem step_nil :
    Reader.step stream sink ⟨line, false, [], failure, passed, false⟩ =
      if failure.isSome || line.isEmpty then ⟨line, false, [], failure, passed, true⟩
      else ⟨line, true, [], failure, passed, false⟩ := rfl

/-! ## What the buffer holds -/

/-- The line in the buffer and the lines to come are among `all`. -/
structure Within (all : List Bytes) (r : Reader) : Prop where
  whole : r.complete = true → r.line ∈ all
  part : r.complete = false → newline ∉ r.line
  rest : ∀ l ∈ lines newline ((if r.complete then [] else r.line) ++ r.chunks.flatten), l ∈ all

theorem within_step {all : List Bytes} {r : Reader} (h : Within all r) :
    Within all (r.step stream sink) := by
  obtain ⟨line, complete, chunks, failure, passed, returned⟩ := r
  obtain ⟨hwhole, hpart, hrest⟩ := h
  dsimp only at hwhole hpart hrest
  cases returned with
  | true => exact ⟨hwhole, hpart, hrest⟩
  | false =>
    cases complete with
    | true => exact ⟨fun hc => (by cases hc), fun _ => List.not_mem_nil, hrest⟩
    | false =>
      simp only [Bool.false_eq_true, if_false] at hrest
      have hline := hpart rfl
      cases chunks with
      | nil =>
        rw [step_nil]
        split
        · exact ⟨hwhole, hpart, hrest⟩
        · rename_i hne
          rw [List.flatten_nil, List.append_nil, Lines.lines_of_not_mem hline,
            if_neg (fun he => hne (by simp [he]))] at hrest
          exact ⟨fun _ => hrest line (List.mem_singleton_self _), fun hc => (by cases hc),
            fun l hl => (by cases hl)⟩
      | cons available chunks =>
        rw [List.flatten_cons] at hrest
        by_cases hmem : newline ∈ available
        · rw [Lines.lines_of_mem hline hmem, List.forall_mem_cons] at hrest
          rw [step_mem hmem]
          refine ⟨fun _ => hrest.1, fun hc => (by cases hc), ?_⟩
          simpa [Lines.flatten_leave] using hrest.2
        · rw [step_not_mem hmem]
          refine ⟨fun hc => (by cases hc), fun _ => ?_, ?_⟩
          · rw [List.mem_append, not_or]
            exact ⟨hline, hmem⟩
          · simpa using hrest

theorem within_after {all : List Bytes} {r : Reader} (h : Within all r) (n : Nat) :
    Within all (r.after stream sink n) := by
  induction n generalizing r with
  | zero => exact h
  | succ n ih => exact ih (within_step h)

/-- The buffer never holds more than the longest line. -/
theorem length_le_of_within {all : List Bytes} {r : Reader} (h : Within all r) {limit : Nat}
    (hall : ∀ l ∈ all, l.length ≤ limit) : r.line.length ≤ limit := by
  cases hc : r.complete with
  | true => exact hall _ (h.whole hc)
  | false =>
    by_cases hne : r.line = []
    · rw [hne]
      exact Nat.zero_le _
    · have hrest := h.rest
      rw [hc] at hrest
      obtain ⟨l, hl, hle⟩ := Lines.length_le_of_lines (h.part hc) hne r.chunks.flatten
      exact le_trans hle (hall l (hrest l hl))

/-! ## Whole runs -/

theorem after_one (r : Reader) : r.after stream sink 1 = r.step stream sink := rfl

theorem after_add (m n : Nat) (r : Reader) :
    r.after stream sink (m + n) = (r.after stream sink n).after stream sink m :=
  Function.iterate_add_apply _ m n r

/-- The task comes to hold the next line as a whole. -/
theorem exists_line {l : Bytes} {ls : List Bytes} (hline : newline ∉ line)
    (hchunks : ∀ c ∈ chunks, c ≠ [])
    (hlines : lines newline (line ++ chunks.flatten) = l :: ls) :
    ∃ n chunks', Reader.after stream sink n ⟨line, false, chunks, none, passed, false⟩ =
        ⟨l, true, chunks', none, passed, false⟩ ∧
      (∀ c ∈ chunks', c ≠ []) ∧ lines newline chunks'.flatten = ls := by
  induction chunks generalizing line with
  | nil =>
    rw [List.flatten_nil, List.append_nil, Lines.lines_of_not_mem hline] at hlines
    split at hlines
    · cases hlines
    · rename_i hne
      rw [List.cons.injEq] at hlines
      obtain ⟨rfl, rfl⟩ := hlines
      refine ⟨1, [], ?_, by simp, rfl⟩
      rw [after_one, step_nil, if_neg (by simpa using hne)]
  | cons available chunks ih =>
    rw [List.forall_mem_cons] at hchunks
    rw [List.flatten_cons] at hlines
    by_cases hmem : newline ∈ available
    · rw [Lines.lines_of_mem hline hmem, List.cons.injEq] at hlines
      obtain ⟨rfl, rfl⟩ := hlines
      refine ⟨1, leave (available.drop (taken newline available)) chunks, ?_, ?_, ?_⟩
      · rw [after_one, step_mem hmem]
      · unfold leave
        split
        · exact hchunks.2
        · rename_i hne
          exact List.forall_mem_cons.mpr ⟨by simpa using hne, hchunks.2⟩
      · rw [Lines.flatten_leave]
    · have hline' : newline ∉ line ++ available := by
        rw [List.mem_append, not_or]
        exact ⟨hline, hmem⟩
      obtain ⟨n, chunks', hrun, hrest⟩ := ih hline' hchunks.2 (by rw [List.append_assoc, hlines])
      refine ⟨n + 1, chunks', ?_, hrest⟩
      rw [after_add, after_one, step_not_mem hmem, hrun]

/-- Every line is held as a whole, and then its text is passed on; then the task ends. -/
theorem exists_run {ls : List Bytes} (hchunks : ∀ c ∈ chunks, c ≠ [])
    (hlines : lines newline chunks.flatten = ls) :
    (∀ l ∈ ls, ∃ n, (Reader.after stream true n ⟨[], false, chunks, none, passed, false⟩).line = l) ∧
      ∃ n, Reader.after stream true n ⟨[], false, chunks, none, passed, false⟩ =
        ⟨[], false, [], none, passed ++ ls.map fun l => (stream, logText l), true⟩ := by
  induction ls generalizing chunks passed with
  | nil =>
    have hnil : chunks = [] := by
      cases chunks with
      | nil => rfl
      | cons c chunks =>
        rw [List.forall_mem_cons] at hchunks
        exact absurd (List.append_eq_nil_iff.mp (Lines.eq_nil_of_lines hlines)).1 hchunks.1
    subst hnil
    exact ⟨by simp, 1, by simp [Reader.after, Reader.step]⟩
  | cons l ls ih =>
    obtain ⟨n, chunks', hrun, hchunks', hrest⟩ :=
      @exists_line stream true [] chunks passed l ls List.not_mem_nil hchunks hlines
    obtain ⟨hheld, m, hend⟩ :=
      @ih chunks' (passed ++ [(stream, logText l)]) hchunks' hrest
    have hnext : Reader.after stream true (n + 1) ⟨[], false, chunks, none, passed, false⟩ =
        ⟨[], false, chunks', none, passed ++ [(stream, logText l)], false⟩ := by
      rw [Nat.add_comm, after_add, hrun]
      rfl
    refine ⟨List.forall_mem_cons.mpr ⟨⟨n, by rw [hrun]⟩, fun l' hl' => ?_⟩, m + (n + 1), ?_⟩
    · obtain ⟨k, hk⟩ := hheld l' hl'
      exact ⟨k + (n + 1), by rw [after_add, hnext, hk]⟩
    · rw [after_add, hnext, hend, List.append_assoc]
      rfl

/-! ## The limit -/

/-- At no moment does the buffer hold more than a line may have and one read. -/
def Bounded (stream : LogStream) (reads : Reads) : Prop :=
  ∀ sink n, ((Reader.start reads).after stream sink n).line.length ≤ maxLogLine + readBuffer

/-- The first bytes of a line, without line terminators at their end. -/
def firstText (line : Bytes) : String := fromUtf8Lossy (popTerminators (line.take maxLogLine))

/-- The task ends and has passed on the first bytes of each line. -/
def Passes (stream : LogStream) (reads : Reads) : Prop :=
  ∃ n, ((Reader.start reads).after stream true n).returned = true ∧
    ((Reader.start reads).after stream true n).passed =
      (lines newline reads.bytes).map fun line => (stream, firstText line)

variable {reads : Reads}

theorem Reads.nonempty (reads : Reads) : ∀ c ∈ reads.chunks, c ≠ [] := fun c hc =>
  List.ne_nil_of_length_pos (reads.sized c hc).1

theorem within_start (reads : Reads) :
    Within (lines newline reads.bytes) (Reader.start reads) :=
  ⟨fun hc => (by cases hc), fun _ => List.not_mem_nil, fun _ hl => hl⟩

/-- The buffer is bounded exactly when the lines are. -/
theorem bounded_iff : Bounded stream reads ↔
    ∀ line ∈ lines newline reads.bytes, line.length ≤ maxLogLine + readBuffer := by
  constructor
  · intro h line hline
    obtain ⟨n, hn⟩ := (@exists_run stream reads.chunks [] _ reads.nonempty rfl).1 line hline
    rw [← hn]
    exact h true n
  · intro h sink n
    exact length_le_of_within (within_after (within_start reads) n) h

theorem after_returned {r : Reader} (h : r.returned = true) (n : Nat) :
    r.after stream sink n = r := by
  have hfix : r.step stream sink = r := by rw [Reader.step, if_pos h]
  exact Function.iterate_fixed hfix n

/-- What the task has passed on when it ends. -/
theorem passed_eq {n : Nat} (h : ((Reader.start reads).after stream true n).returned = true) :
    ((Reader.start reads).after stream true n).passed =
      (lines newline reads.bytes).map fun line => (stream, logText line) := by
  obtain ⟨-, m, hm⟩ := @exists_run stream reads.chunks [] _ reads.nonempty rfl
  have hboth : (Reader.start reads).after stream true n = (Reader.start reads).after stream true m := by
    have hn := @after_returned stream true _ h m
    have hm' := @after_returned stream true _ (congrArg Reader.returned hm) n
    rw [← after_add] at hn hm'
    rw [← hn, Nat.add_comm]
    exact hm'
  rw [hboth]
  exact congrArg Reader.passed hm

theorem exists_returned (stream : LogStream) (reads : Reads) :
    ∃ n, ((Reader.start reads).after stream true n).returned = true := by
  obtain ⟨-, n, hn⟩ := @exists_run stream reads.chunks [] _ reads.nonempty rfl
  exact ⟨n, congrArg Reader.returned hn⟩

theorem logText_eq_firstText {line : Bytes} :
    logText line = firstText line ↔ line.length ≤ maxLogLine := by
  simp only [logText, firstText]
  split
  · rename_i h
    refine iff_of_false (fun heq => ?_) (by omega)
    have := congrArg String.length heq
    rw [String.length_append] at this
    have hpos : " [truncated]".length = 12 := rfl
    omega
  · rename_i h
    exact iff_of_true rfl (by omega)

/-- The texts are the first bytes of the lines exactly when no line is cut. -/
theorem passes_iff : Passes stream reads ↔
    ∀ line ∈ lines newline reads.bytes, line.length ≤ maxLogLine := by
  constructor
  · rintro ⟨n, hreturned, hpassed⟩ line hline
    rw [passed_eq hreturned] at hpassed
    have := List.map_inj_left.mp hpassed line hline
    exact logText_eq_firstText.mp (Prod.ext_iff.mp this).2
  · intro h
    obtain ⟨n, hreturned⟩ := exists_returned stream reads
    refine ⟨n, hreturned, ?_⟩
    rw [passed_eq hreturned]
    refine List.map_congr_left fun line hline => ?_
    rw [logText_eq_firstText.mpr (h line hline)]

/-- For every stream and every way it is split into reads: the buffer is bounded at every moment
    exactly when no line is longer than what a line may have and one read. That the buffer is bounded
    and the texts are the first bytes of the lines holds exactly when no line, with its terminator,
    is longer than the limit. -/
theorem reader_iff (stream : LogStream) (reads : Reads) :
    (Bounded stream reads ↔
        ∀ line ∈ lines newline reads.bytes, line.length ≤ maxLogLine + readBuffer) ∧
      (Bounded stream reads ∧ Passes stream reads ↔
        ∀ line ∈ lines newline reads.bytes, line.length ≤ maxLogLine) := by
  refine ⟨bounded_iff, ?_⟩
  rw [bounded_iff, passes_iff]
  refine and_iff_right_of_imp fun h line hline => ?_
  exact le_trans (h line hline) (Nat.le_add_right _ _)

/-- Four full reads without a newline. -/
def longReads : Reads where
  chunks := List.replicate 4 (List.replicate readBuffer 97)
  sized := by
    intro c hc
    rw [List.eq_of_mem_replicate hc, List.length_replicate]
    decide

/-- They are in the buffer at once. -/
theorem not_bounded_longReads : ¬ Bounded .stdout longReads := by
  intro h
  have hbytes : longReads.bytes = List.replicate (4 * readBuffer) 97 := by
    rw [Reads.bytes, longReads, List.flatten_replicate_replicate]
  have hmem : newline ∉ longReads.bytes := by
    rw [hbytes, List.mem_replicate]
    exact fun hc => absurd hc.2 (by decide)
  have hne : longReads.bytes ≠ [] := by
    rw [hbytes]
    exact List.ne_nil_of_length_pos (by rw [List.length_replicate]; decide)
  have hline : longReads.bytes ∈ lines newline longReads.bytes := by
    rw [Lines.lines_of_not_mem hmem, if_neg (by simpa using hne)]
    exact List.mem_singleton_self _
  have hle := bounded_iff.mp h _ hline
  rw [hbytes, List.length_replicate] at hle
  exact absurd hle (by decide)

end Oikade.Supervisor.LogReader
