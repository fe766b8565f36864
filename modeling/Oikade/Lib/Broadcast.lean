/-
  A broadcast hub over bounded channels, for any payload and error type.

  A hub holds the sending ends (`live`) of numbered channels. `dispatch` offers one payload to
  every live channel without waiting: a full channel is given the terminal error and is cut off, a
  channel whose receiver closed is cut off silently. `closeAll` cuts every channel off with an
  error. Receivers read at their own speed, close, or go away; a receiver that goes away is removed
  from `live` by a later clean-up, keyed by its number, that may come at any time.

  Every operation returns the log entries it adds. `Ok h log` ties a hub to the log of its whole
  past, channel by channel (`ChannelOk`): what a receiver took, followed by what its channel still
  holds, is what was dispatched since it subscribed (`ChannelOk.stream`), or a prefix of it once the
  channel was closed, dropped or given a terminal error (`ChannelOk.isPrefix`); a terminal error is
  given at most once (`ChannelOk.once`), and an overflow only to a channel that holds as many unread
  payloads as it has room for (`ChannelOk.overflow`). `step_ok` is the step lemma, for every
  operation in any order.
-/
import Mathlib.Data.List.Basic
import Mathlib.Logic.Function.Basic

namespace Broadcast

/-- A bounded channel, with the terminal error its receiver can read. -/
structure Channel (α ε : Type) where
  capacity : Nat
  queue : List α
  closed : Bool
  dropped : Bool
  terminal : Option ε

/-- The sending ends still held (`live`), the last number given out and the channels. -/
structure Hub (α ε : Type) where
  live : List Nat
  next : Nat
  chan : Nat → Channel α ε

inductive Op (α ε : Type) where
  | subscribe (buffer : Nat)
  | dispatch (slow : ε) (x : α)
  | closeAll (e : ε)
  | cancel (id : Nat)
  | drop (id : Nat)
  | remove (id : Nat)
  | recv (id : Nat)

inductive Entry (α ε : Type) where
  | subscribed (id : Nat)
  | dispatched (x : α)
  | received (id : Nat) (x : α)
  | overflowed (id : Nat) (e : ε)
  | terminated (id : Nat) (e : ε)
  | cancelled (id : Nat)
  | dropped (id : Nat)
  deriving DecidableEq, Repr

variable {α ε : Type}

def Channel.fresh (buffer : Nat) : Channel α ε := ⟨buffer, [], false, false, none⟩

/-- A number that was never given out has no receiver. -/
def Channel.absent : Channel α ε := ⟨0, [], true, true, none⟩

/-- Open, with no room for another payload. -/
def Channel.full (c : Channel α ε) : Bool := !c.closed && c.capacity ≤ c.queue.length

/-- The offer of one payload, without waiting. -/
def Channel.offer (slow : ε) (x : α) (c : Channel α ε) : Channel α ε :=
  if c.closed then c
  else if c.full then { c with terminal := some slow }
  else { c with queue := c.queue ++ [x] }

def empty : Hub α ε := ⟨[], 0, fun _ => .absent⟩

def subscribe (h : Hub α ε) (buffer : Nat) : Hub α ε :=
  { live := h.live ++ [h.next + 1]
    next := h.next + 1
    chan := Function.update h.chan (h.next + 1) (.fresh buffer) }

/-- Offer `x` to every live channel; the full and the closed ones are cut off. -/
def dispatch (h : Hub α ε) (slow : ε) (x : α) : Hub α ε :=
  { h with
    live := h.live.filter fun id => !(h.chan id).closed && !(h.chan id).full
    chan := fun id => if id ∈ h.live then (h.chan id).offer slow x else h.chan id }

def dispatchLog (h : Hub α ε) (slow : ε) (x : α) : List (Entry α ε) :=
  .dispatched x :: (h.live.filter fun id => (h.chan id).full).map fun id => .overflowed id slow

def closeAll (h : Hub α ε) (e : ε) : Hub α ε :=
  { h with
    live := []
    chan := fun id => if id ∈ h.live then { h.chan id with terminal := some e } else h.chan id }

def closeAllLog (h : Hub α ε) (e : ε) : List (Entry α ε) := h.live.map fun id => .terminated id e

def remove (h : Hub α ε) (id : Nat) : Hub α ε := { h with live := h.live.erase id }

/-- Removal from `live`, then the receiver closes its end; it may still drain the queue. -/
def cancel (h : Hub α ε) (id : Nat) : Hub α ε :=
  { live := h.live.erase id
    next := h.next
    chan := Function.update h.chan id { h.chan id with closed := true } }

/-- The receiver goes away with what it had not read. -/
def drop (h : Hub α ε) (id : Nat) : Hub α ε :=
  { h with
    chan := Function.update h.chan id
      { h.chan id with queue := [], closed := true, dropped := true } }

def pop (h : Hub α ε) (id : Nat) (rest : List α) : Hub α ε :=
  { h with chan := Function.update h.chan id { h.chan id with queue := rest } }

/-- One operation, with the log entries it adds. A receiver that is gone does nothing more, a
    clean-up is only for a receiver that is gone, and a receiver of an empty, connected channel
    waits. -/
def step (h : Hub α ε) : Op α ε → Option (Hub α ε × List (Entry α ε))
  | .subscribe buffer => some (subscribe h buffer, [.subscribed (h.next + 1)])
  | .dispatch slow x => some (dispatch h slow x, dispatchLog h slow x)
  | .closeAll e => some (closeAll h e, closeAllLog h e)
  | .cancel id => if (h.chan id).dropped then none else some (cancel h id, [.cancelled id])
  | .drop id => if (h.chan id).dropped then none else some (drop h id, [.dropped id])
  | .remove id => if (h.chan id).dropped then some (remove h id, []) else none
  | .recv id =>
    if (h.chan id).dropped then none
    else match (h.chan id).queue with
      | x :: rest => some (pop h id rest, [.received id x])
      | [] => if id ∈ h.live ∧ (h.chan id).closed = false then none else some (h, [])

/-! ## Reading a log -/

/-- What channel `id` delivered. -/
@[simp] def receivedBy (id : Nat) : List (Entry α ε) → List α
  | [] => []
  | .received j x :: log => if j = id then x :: receivedBy id log else receivedBy id log
  | _ :: log => receivedBy id log

@[simp] def dispatchedIn : List (Entry α ε) → List α
  | [] => []
  | .dispatched x :: log => x :: dispatchedIn log
  | _ :: log => dispatchedIn log

/-- The log after the entry in which `id` subscribed. -/
@[simp] def since (id : Nat) : List (Entry α ε) → List (Entry α ε)
  | [] => []
  | .subscribed j :: log => if j = id then log else since id log
  | _ :: log => since id log

/-- What was dispatched after `id` subscribed. -/
def dispatchedSince (id : Nat) (log : List (Entry α ε)) : List α := dispatchedIn (since id log)

/-- The terminal errors given to `id`. -/
@[simp] def terminals (id : Nat) : List (Entry α ε) → List ε
  | [] => []
  | .overflowed j e :: log => if j = id then e :: terminals id log else terminals id log
  | .terminated j e :: log => if j = id then e :: terminals id log else terminals id log
  | _ :: log => terminals id log

/-- `id` was cancelled, dropped or given a terminal error. -/
def Ended (id : Nat) (log : List (Entry α ε)) : Prop :=
  .cancelled id ∈ log ∨ .dropped id ∈ log ∨ terminals id log ≠ []

@[simp] theorem receivedBy_append (id : Nat) (l m : List (Entry α ε)) :
    receivedBy id (l ++ m) = receivedBy id l ++ receivedBy id m := by
  induction l with
  | nil => rfl
  | cons e l ih =>
    cases e <;> simp [ih]
    split <;> simp

@[simp] theorem dispatchedIn_append (l m : List (Entry α ε)) :
    dispatchedIn (l ++ m) = dispatchedIn l ++ dispatchedIn m := by
  induction l with
  | nil => rfl
  | cons e l ih => cases e <;> simp [ih]

@[simp] theorem terminals_append (id : Nat) (l m : List (Entry α ε)) :
    terminals id (l ++ m) = terminals id l ++ terminals id m := by
  induction l with
  | nil => rfl
  | cons e l ih => cases e <;> simp [ih] <;> split <;> simp

theorem since_append_of_mem {id : Nat} {l : List (Entry α ε)} (h : .subscribed id ∈ l)
    (m : List (Entry α ε)) : since id (l ++ m) = since id l ++ m := by
  induction l with
  | nil => simp at h
  | cons a l ih =>
    cases a with
    | subscribed j =>
      by_cases hj : j = id
      · simp [since, hj]
      · have h' : .subscribed id ∈ l := by
          rcases List.mem_cons.mp h with h | h
          · exact absurd (Entry.subscribed.inj h).symm hj
          · exact h
        simpa [since, hj] using ih h'
    | _ =>
      have h' : .subscribed id ∈ l := by simpa using h
      simpa [since] using ih h'

theorem since_append_of_not_mem {id : Nat} {l : List (Entry α ε)} (h : .subscribed id ∉ l)
    (m : List (Entry α ε)) : since id (l ++ m) = since id m := by
  induction l with
  | nil => rfl
  | cons a l ih =>
    rw [List.mem_cons, not_or] at h
    cases a with
    | subscribed j =>
      have hj : j ≠ id := fun e => h.1 (by rw [e])
      simpa [since, hj] using ih h.2
    | _ => simpa [since] using ih h.2

theorem dispatchedSince_append {id : Nat} {l : List (Entry α ε)} (h : .subscribed id ∈ l)
    (m : List (Entry α ε)) :
    dispatchedSince id (l ++ m) = dispatchedSince id l ++ dispatchedIn m := by
  rw [dispatchedSince, since_append_of_mem h, dispatchedIn_append, dispatchedSince]

theorem ended_append {id : Nat} {l : List (Entry α ε)} (h : Ended id l) (m : List (Entry α ε)) :
    Ended id (l ++ m) := by
  rcases h with h | h | h
  · exact .inl (List.mem_append_left m h)
  · exact .inr (.inl (List.mem_append_left m h))
  · exact .inr (.inr (by simp [h]))

/-- The entry says something about channel `id`. -/
def Entry.about (id : Nat) : Entry α ε → Bool
  | .dispatched _ => true
  | .subscribed j => j = id
  | .received j _ => j = id
  | .overflowed j _ => j = id
  | .terminated j _ => j = id
  | .cancelled j => j = id
  | .dropped j => j = id

/-- Entries about other channels are not seen by channel `id`. -/
theorem eq_nil_of_not_about {id : Nat} {m : List (Entry α ε)} (h : ∀ e ∈ m, e.about id = false) :
    receivedBy id m = [] ∧ terminals id m = [] ∧ dispatchedIn m = [] := by
  induction m with
  | nil => simp
  | cons e m ih =>
    have he := h e (by simp)
    have hm := ih fun e he => h e (by simp [he])
    cases e <;> simp_all [Entry.about]

/-! ## The invariant -/

/-- A subscribed channel and the log of its past. -/
structure ChannelOk (id : Nat) (live : Prop) (c : Channel α ε) (log : List (Entry α ε)) :
    Prop where
  isPrefix : receivedBy id log ++ c.queue <+: dispatchedSince id log
  stream : live → c.closed = false → receivedBy id log ++ c.queue = dispatchedSince id log
  ended : ¬ live ∨ c.closed = true → Ended id log
  once : (terminals id log).length ≤ 1
  quiet : live → terminals id log = []
  terminal : c.terminal = (terminals id log).head?
  overflow : ∀ l e m, log = l ++ .overflowed id e :: m →
    (receivedBy id l).length + c.capacity < (dispatchedSince id l).length

/-- The hub and the log of its whole past. -/
structure Ok (h : Hub α ε) (log : List (Entry α ε)) : Prop where
  given : ∀ id, .subscribed id ∈ log → id ≤ h.next
  known : ∀ id ∈ h.live, .subscribed id ∈ log
  nodup : h.live.Nodup
  present : ∀ id, (h.chan id).dropped = false → .subscribed id ∈ log
  gone : ∀ id, (h.chan id).dropped = true → (h.chan id).closed = true
  silent : ∀ id, .subscribed id ∉ log → receivedBy id log = [] ∧ terminals id log = []
  channel : ∀ id, .subscribed id ∈ log → ChannelOk id (id ∈ h.live) (h.chan id) log

theorem ok_empty : Ok (empty : Hub α ε) [] where
  given := by simp
  known := by simp [empty]
  nodup := by simp [empty]
  present := by simp [empty, Channel.absent]
  gone := by simp [empty, Channel.absent]
  silent := by simp [receivedBy, terminals]
  channel := by simp

/-- A split of an extended log at an entry lies in the old part or in the extension. -/
theorem split_append {γ : Type} {log m l r : List γ} {x : γ} (h : log ++ m = l ++ x :: r) :
    (∃ r', log = l ++ x :: r') ∨ ∃ t, l = log ++ t ∧ m = t ++ x :: r := by
  rw [List.append_eq_append_iff] at h
  rcases h with ⟨t, hl, hm⟩ | ⟨t, hlog, ht⟩
  · exact .inr ⟨t, hl, hm⟩
  · cases t with
    | nil => exact .inr ⟨[], by simpa using hlog.symm, by simpa using ht.symm⟩
    | cons y t =>
      rw [List.cons_append, List.cons.injEq] at ht
      exact .inl ⟨t, by rw [hlog, ht.1]⟩

theorem split_of_not_mem {γ : Type} {log m l r : List γ} {x : γ} (hx : x ∉ m)
    (h : log ++ m = l ++ x :: r) : ∃ r', log = l ++ x :: r' := by
  rcases split_append h with hold | ⟨t, -, rfl⟩
  · exact hold
  · exact absurd (by simp) hx

/-- Entries about other channels change nothing for channel `id`. -/
theorem ChannelOk.frame {id : Nat} {live : Prop} {c : Channel α ε} {log m : List (Entry α ε)}
    (h : ChannelOk id live c log) (hs : .subscribed id ∈ log)
    (hm : ∀ e ∈ m, e.about id = false) : ChannelOk id live c (log ++ m) where
  isPrefix := by
    simpa [eq_nil_of_not_about hm, dispatchedSince_append hs] using h.isPrefix
  stream := by
    simpa [eq_nil_of_not_about hm, dispatchedSince_append hs] using h.stream
  ended := fun hl => ended_append (h.ended hl) m
  once := by simpa [eq_nil_of_not_about hm] using h.once
  quiet := by simpa [eq_nil_of_not_about hm] using h.quiet
  terminal := by simpa [eq_nil_of_not_about hm] using h.terminal
  overflow := by
    intro l e r heq
    obtain ⟨r', hr⟩ := split_of_not_mem (fun he => by simpa [Entry.about] using hm _ he) heq
    exact h.overflow l e r' hr

/-! ## One operation keeps the invariant -/

theorem ok_subscribe {h : Hub α ε} {log : List (Entry α ε)} (hok : Ok h log) (buffer : Nat) :
    Ok (subscribe h buffer) (log ++ [.subscribed (h.next + 1)]) := by
  have hnew : .subscribed (h.next + 1) ∉ log := fun hm => by
    have := hok.given _ hm
    omega
  have hlive : h.next + 1 ∉ h.live := fun hm => hnew (hok.known _ hm)
  refine ⟨?_, ?_, ?_, ?_, ?_, ?_, ?_⟩
  · intro id hid
    rcases List.mem_append.mp hid with hid | hid
    · have := hok.given id hid
      simp only [subscribe]
      omega
    · simp only [List.mem_singleton, Entry.subscribed.injEq] at hid
      simp [subscribe, hid]
  · intro id hid
    simp only [subscribe, List.mem_append, List.mem_singleton] at hid
    rcases hid with hid | rfl
    · exact List.mem_append_left _ (hok.known id hid)
    · simp
  · simp only [subscribe]
    rw [List.nodup_append]
    exact ⟨hok.nodup, by simp, by
      intro a ha b hb
      rw [List.mem_singleton] at hb
      exact fun e => hlive (by rw [← hb, ← e]; exact ha)⟩
  · intro id hid
    by_cases hn : id = h.next + 1
    · simp [hn]
    · refine List.mem_append_left _ (hok.present id ?_)
      simpa [subscribe, Function.update_of_ne hn] using hid
  · intro id
    by_cases hn : id = h.next + 1
    · simp [subscribe, hn, Channel.fresh]
    · simpa [subscribe, Function.update_of_ne hn] using hok.gone id
  · intro id hid
    obtain ⟨h1, h2⟩ := hok.silent id fun hm => hid (List.mem_append_left _ hm)
    simp [h1, h2]
  · intro id hid
    by_cases hn : id = h.next + 1
    · subst hn
      obtain ⟨h1, h2⟩ := hok.silent (h.next + 1) hnew
      have hr : receivedBy (h.next + 1) (log ++ [.subscribed (h.next + 1)]) = [] := by
        simp [h1]
      have hd : dispatchedSince (h.next + 1) (log ++ [.subscribed (h.next + 1)]) = [] := by
        rw [dispatchedSince, since_append_of_not_mem hnew]
        simp
      have ht : terminals (h.next + 1) (log ++ [.subscribed (h.next + 1)]) = [] := by
        simp [h2]
      refine ⟨?_, ?_, ?_, ?_, ?_, ?_, ?_⟩
      · simp [hr, hd, subscribe, Channel.fresh]
      · simp [hr, hd, subscribe, Channel.fresh]
      · simp [subscribe, Channel.fresh]
      · simp [ht]
      · simp [ht]
      · simp [ht, subscribe, Channel.fresh]
      · -- no terminal error was logged for a number not yet given out
        intro l e m heq
        rw [heq, terminals_append] at ht
        simp at ht
    · have hs : .subscribed id ∈ log := by
        rcases List.mem_append.mp hid with hid | hid
        · exact hid
        · simp only [List.mem_singleton, Entry.subscribed.injEq] at hid
          exact absurd hid hn
      have hc : (subscribe h buffer).chan id = h.chan id := Function.update_of_ne hn _ _
      have hl : (id ∈ (subscribe h buffer).live) = (id ∈ h.live) := by simp [subscribe, hn]
      rw [hc, hl]
      exact (hok.channel id hs).frame hs (by simpa [Entry.about] using Ne.symm hn)

/-- The terminal errors that one mark per number of a list gives to `id`. -/
theorem terminals_marks (f : Nat → Entry α ε) (e : ε) (hf : ∀ j, f j = .overflowed j e ∨
    f j = .terminated j e) {l : List Nat} (hl : l.Nodup) (id : Nat) :
    terminals id (l.map f) = if id ∈ l then [e] else [] := by
  induction l with
  | nil => simp [terminals]
  | cons a l ih =>
    rw [List.nodup_cons] at hl
    have hcons : terminals id ((a :: l).map f) = (if a = id then [e] else []) ++
        terminals id (l.map f) := by
      rw [List.map_cons]
      rcases hf a with h | h <;> rw [h] <;> by_cases ha : a = id <;> simp [ha]
    rw [hcons, ih hl.2]
    by_cases ha : a = id
    · subst ha
      simp [hl.1]
    · simp [ha, Ne.symm ha]

theorem receivedBy_marks (f : Nat → Entry α ε) (e : ε) (hf : ∀ j, f j = .overflowed j e ∨
    f j = .terminated j e) (l : List Nat) (id : Nat) :
    receivedBy id (l.map f) = [] ∧ dispatchedIn (l.map f) = [] := by
  induction l with
  | nil => simp
  | cons a l ih => rcases hf a with h | h <;> simp [h, ih]

section Dispatch

variable (h : Hub α ε) (slow : ε) (x : α)

theorem receivedBy_dispatchLog (id : Nat) : receivedBy id (dispatchLog h slow x) = [] := by
  simpa [dispatchLog] using (receivedBy_marks (.overflowed · slow) slow (fun _ => .inl rfl) _ id).1

theorem dispatchedIn_dispatchLog : dispatchedIn (dispatchLog h slow x) = [x] := by
  simpa [dispatchLog] using (receivedBy_marks (.overflowed · slow) slow (fun _ => .inl rfl) _ 0).2

theorem terminals_dispatchLog (hn : h.live.Nodup) (id : Nat) :
    terminals id (dispatchLog h slow x) =
      if id ∈ h.live ∧ (h.chan id).full = true then [slow] else [] := by
  have := terminals_marks (α := α) (.overflowed · slow) slow (fun _ => .inl rfl)
    (hn.filter fun id => (h.chan id).full) id
  simpa [dispatchLog] using this

end Dispatch

theorem dispatchedIn_closeAllLog (h : Hub α ε) (e : ε) : dispatchedIn (closeAllLog h e) = [] :=
  (receivedBy_marks (.terminated · e) e (fun _ => .inr rfl) h.live 0).2

/-- Entries that neither dispatch nor deliver, and a longer past: the stream clauses of a channel
    whose queue is unchanged. -/
theorem isPrefix_append {id : Nat} {q : List α} {log m : List (Entry α ε)}
    (hs : .subscribed id ∈ log) (hr : receivedBy id m = [])
    (h : receivedBy id log ++ q <+: dispatchedSince id log) :
    receivedBy id (log ++ m) ++ q <+: dispatchedSince id (log ++ m) := by
  rw [receivedBy_append, hr, List.append_nil, dispatchedSince_append hs]
  exact h.trans (List.prefix_append _ _)

/-- The overflow clause for entries that report no overflow of `id`. -/
theorem overflow_append {id : Nat} {log m : List (Entry α ε)} {n : Nat}
    (hm : ∀ e, .overflowed id e ∉ m)
    (h : ∀ l e r, log = l ++ .overflowed id e :: r →
      (receivedBy id l).length + n < (dispatchedSince id l).length) :
    ∀ l e r, log ++ m = l ++ .overflowed id e :: r →
      (receivedBy id l).length + n < (dispatchedSince id l).length := by
  intro l e r heq
  obtain ⟨r', hr⟩ := split_of_not_mem (hm e) heq
  exact h l e r' hr

section Dispatched

variable {h : Hub α ε} {log : List (Entry α ε)} {id : Nat} {slow : ε} {x : α}

/-- An overflow is reported only of a channel that is live and full. -/
theorem full_of_overflowed {e : ε} (he : .overflowed id e ∈ dispatchLog h slow x) :
    id ∈ h.live ∧ (h.chan id).full = true := by
  simp only [dispatchLog, List.mem_cons, List.mem_map, List.mem_filter, reduceCtorEq,
    false_or] at he
  obtain ⟨j, hj, hje⟩ := he
  rw [Entry.overflowed.injEq] at hje
  exact hje.1 ▸ hj

/-- A channel that is not live, or whose receiver has closed its end, is cut off silently. -/
theorem channelOk_skipped (hn : h.live.Nodup) (hs : .subscribed id ∈ log)
    (hch : ChannelOk id (id ∈ h.live) (h.chan id) log)
    (hout : id ∉ h.live ∨ (h.chan id).closed = true) :
    ChannelOk id (id ∈ (dispatch h slow x).live) ((dispatch h slow x).chan id)
      (log ++ dispatchLog h slow x) := by
  have hnot : ¬(id ∈ h.live ∧ (h.chan id).full = true) := by
    rintro ⟨hl, hf⟩
    rcases hout with hl' | hc
    · exact hl' hl
    · simp [Channel.full, hc] at hf
  have hlive : id ∉ (dispatch h slow x).live := by
    rcases hout with hl | hc
    · simp [dispatch, hl]
    · simp [dispatch, hc]
  have hchan : (dispatch h slow x).chan id = h.chan id := by
    rcases hout with hl | hc
    · simp [dispatch, hl]
    · simp [dispatch, Channel.offer, hc]
  have ht : terminals id (log ++ dispatchLog h slow x) = terminals id log := by
    rw [terminals_append, terminals_dispatchLog h slow x hn, if_neg hnot, List.append_nil]
  rw [hchan]
  refine ⟨isPrefix_append hs (receivedBy_dispatchLog h slow x id) hch.isPrefix,
    fun hl => absurd hl hlive, ?_, ht ▸ hch.once, fun hl => absurd hl hlive, ht ▸ hch.terminal, ?_⟩
  · exact fun _ => ended_append (hch.ended hout) _
  · exact overflow_append (fun e he => hnot (full_of_overflowed he)) hch.overflow

/-- A channel without room is cut off with the terminal error. -/
theorem channelOk_overflowed (hn : h.live.Nodup) (hs : .subscribed id ∈ log)
    (hch : ChannelOk id (id ∈ h.live) (h.chan id) log) (hl : id ∈ h.live)
    (hc : (h.chan id).closed = false) (hf : (h.chan id).full = true) :
    ChannelOk id (id ∈ (dispatch h slow x).live) ((dispatch h slow x).chan id)
      (log ++ dispatchLog h slow x) := by
  have hr := receivedBy_dispatchLog h slow x id
  have hchan : (dispatch h slow x).chan id = { h.chan id with terminal := some slow } := by
    simp [dispatch, hl, Channel.offer, hc, hf]
  have hlive : id ∉ (dispatch h slow x).live := by simp [dispatch, hf]
  have ht : terminals id (log ++ dispatchLog h slow x) = [slow] := by
    rw [terminals_append, hch.quiet hl, terminals_dispatchLog h slow x hn, if_pos ⟨hl, hf⟩,
      List.nil_append]
  rw [hchan]
  refine ⟨isPrefix_append hs hr hch.isPrefix, fun hl' => absurd hl' hlive, ?_, ?_,
    fun hl' => absurd hl' hlive, ?_, ?_⟩
  · exact fun _ => .inr (.inr (by simp [ht]))
  · simp [ht]
  · simp [ht]
  · intro l e r heq
    rcases split_append heq with ⟨r', hr'⟩ | ⟨t, htl, hlog⟩
    · exact hch.overflow l e r' hr'
    · -- the split lies in the new entries, after the dispatch itself
      have hrt : receivedBy id t = [] := by
        rw [hlog, receivedBy_append] at hr
        exact (List.append_eq_nil_iff.mp hr).1
      have hdt : 1 ≤ (dispatchedIn t).length := by
        cases t with
        | nil =>
          rw [dispatchLog, List.nil_append, List.cons.injEq] at hlog
          exact absurd hlog.1 (by simp)
        | cons y t =>
          rw [dispatchLog, List.cons_append, List.cons.injEq] at hlog
          simp [← hlog.1]
      have hlen : (receivedBy id log).length + (h.chan id).queue.length =
          (dispatchedSince id log).length := by
        rw [← List.length_append, hch.stream hl hc]
      have hcap : (h.chan id).capacity ≤ (h.chan id).queue.length := by
        simpa [Channel.full, hc] using hf
      rw [htl, receivedBy_append, hrt, List.append_nil, dispatchedSince_append hs,
        List.length_append]
      show (receivedBy id log).length + (h.chan id).capacity < _
      omega

/-- Any other channel has the item in its queue. -/
theorem channelOk_delivered (hn : h.live.Nodup) (hs : .subscribed id ∈ log)
    (hch : ChannelOk id (id ∈ h.live) (h.chan id) log) (hl : id ∈ h.live)
    (hc : (h.chan id).closed = false) (hf : (h.chan id).full = false) :
    ChannelOk id (id ∈ (dispatch h slow x).live) ((dispatch h slow x).chan id)
      (log ++ dispatchLog h slow x) := by
  have hchan : (dispatch h slow x).chan id =
      { h.chan id with queue := (h.chan id).queue ++ [x] } := by
    simp [dispatch, hl, Channel.offer, hc, hf]
  have hlive : id ∈ (dispatch h slow x).live := by simp [dispatch, hl, hc, hf]
  have ht : terminals id (log ++ dispatchLog h slow x) = terminals id log := by
    rw [terminals_append, terminals_dispatchLog h slow x hn, if_neg (by simp [hf]),
      List.append_nil]
  have heq : receivedBy id (log ++ dispatchLog h slow x) ++ ((h.chan id).queue ++ [x]) =
      dispatchedSince id (log ++ dispatchLog h slow x) := by
    rw [receivedBy_append, receivedBy_dispatchLog, List.append_nil, dispatchedSince_append hs,
      dispatchedIn_dispatchLog, ← hch.stream hl hc, List.append_assoc]
  rw [hchan]
  refine ⟨heq ▸ List.prefix_rfl, fun _ _ => heq, ?_, ht ▸ hch.once, fun _ => ht ▸ hch.quiet hl,
    ht ▸ hch.terminal, ?_⟩
  · rintro (h1 | h1)
    · exact absurd hlive h1
    · simp [hc] at h1
  · exact overflow_append (fun e he => by simpa [hf] using full_of_overflowed he) hch.overflow

end Dispatched

theorem ok_dispatch {h : Hub α ε} {log : List (Entry α ε)} (hok : Ok h log) (slow : ε) (x : α) :
    Ok (dispatch h slow x) (log ++ dispatchLog h slow x) := by
  have hsub : ∀ id, .subscribed id ∈ log ++ dispatchLog h slow x → .subscribed id ∈ log := by
    intro id hid
    simpa [dispatchLog] using hid
  refine ⟨?_, ?_, ?_, ?_, ?_, ?_, ?_⟩
  · exact fun id hid => hok.given id (hsub id hid)
  · intro id hid
    exact List.mem_append_left _ (hok.known id (List.mem_filter.mp hid).1)
  · exact hok.nodup.filter _
  · intro id hid
    refine List.mem_append_left _ (hok.present id ?_)
    simp only [dispatch] at hid
    split at hid
    · simp only [Channel.offer] at hid
      split at hid
      · exact hid
      · split at hid <;> exact hid
    · exact hid
  · intro id
    simp only [dispatch]
    split
    · simp only [Channel.offer]
      split
      · exact hok.gone id
      · split <;> exact hok.gone id
    · exact hok.gone id
  · intro id hid
    have hn : .subscribed id ∉ log := fun hm => hid (List.mem_append_left _ hm)
    obtain ⟨h1, h2⟩ := hok.silent id hn
    have hl : id ∉ h.live := fun hm => hn (hok.known id hm)
    simp [h1, h2, receivedBy_dispatchLog, terminals_dispatchLog h slow x hok.nodup, hl]
  · intro id hid
    have hs := hsub id hid
    have hch := hok.channel id hs
    by_cases hl : id ∈ h.live
    · cases hc : (h.chan id).closed with
      | true => exact channelOk_skipped hok.nodup hs hch (.inr hc)
      | false =>
        cases hf : (h.chan id).full with
        | true => exact channelOk_overflowed hok.nodup hs hch hl hc hf
        | false => exact channelOk_delivered hok.nodup hs hch hl hc hf
    · exact channelOk_skipped hok.nodup hs hch (.inl hl)

theorem ok_closeAll {h : Hub α ε} {log : List (Entry α ε)} (hok : Ok h log) (e : ε) :
    Ok (closeAll h e) (log ++ closeAllLog h e) := by
  have hmarks := receivedBy_marks (α := α) (.terminated · e) e (fun _ => .inr rfl) h.live
  have hterm : ∀ id, terminals id (closeAllLog h e) = if id ∈ h.live then [e] else [] :=
    terminals_marks (.terminated · e) e (fun _ => .inr rfl) hok.nodup
  refine ⟨?_, by simp [closeAll], by simp [closeAll], ?_, ?_, ?_, ?_⟩
  · intro id hid
    exact hok.given id (by simpa [closeAllLog] using hid)
  · intro id hid
    refine List.mem_append_left _ (hok.present id ?_)
    simp only [closeAll] at hid
    split at hid <;> exact hid
  · intro id
    simp only [closeAll]
    split <;> exact hok.gone id
  · intro id hid
    have hn : .subscribed id ∉ log := fun hm => hid (List.mem_append_left _ hm)
    obtain ⟨h1, h2⟩ := hok.silent id hn
    have hl : id ∉ h.live := fun hm => hn (hok.known id hm)
    exact ⟨by simp [h1, closeAllLog, (hmarks id).1], by simp [h2, hterm, hl]⟩
  · intro id hid
    have hs : .subscribed id ∈ log := by simpa [closeAllLog] using hid
    have hch := hok.channel id hs
    have hlive : id ∉ (closeAll h e).live := by simp [closeAll]
    have hover : ∀ e', .overflowed id e' ∉ closeAllLog h e := by simp [closeAllLog]
    by_cases hl : id ∈ h.live
    · have hchan : (closeAll h e).chan id = { h.chan id with terminal := some e } := by
        simp [closeAll, hl]
      have htn : terminals id (log ++ closeAllLog h e) = [e] := by
        rw [terminals_append, hch.quiet hl, hterm, if_pos hl, List.nil_append]
      rw [hchan]
      exact ⟨isPrefix_append hs (hmarks id).1 hch.isPrefix, fun hl' => absurd hl' hlive,
        fun _ => .inr (.inr (by simp [htn])), by simp [htn], fun hl' => absurd hl' hlive,
        by simp [htn], overflow_append hover hch.overflow⟩
    · have hchan : (closeAll h e).chan id = h.chan id := by simp [closeAll, hl]
      have htn : terminals id (closeAllLog h e) = [] := by rw [hterm, if_neg hl]
      rw [hchan]
      exact ⟨isPrefix_append hs (hmarks id).1 hch.isPrefix, fun hl' => absurd hl' hlive,
        fun _ => ended_append (hch.ended (.inl hl)) _, by simpa [htn] using hch.once,
        fun hl' => absurd hl' hlive, by simpa [htn] using hch.terminal,
        overflow_append hover hch.overflow⟩

/-- An operation on one channel `id` whose receiver is there: the rest of the hub is untouched, and
    what is left to show is the invariant of `id` itself. -/
theorem ok_of_channel {h h' : Hub α ε} {log : List (Entry α ε)} (hok : Ok h log) {id : Nat}
    {x : Entry α ε} (hx : ∀ j, j ≠ id → x.about j = false) (hnx : ∀ j, x ≠ .subscribed j)
    (hdr : (h.chan id).dropped = false) (hnext : h'.next = h.next)
    (hchan : ∀ j, j ≠ id → h'.chan j = h.chan j)
    (hlive : ∀ j, j ≠ id → (j ∈ h'.live ↔ j ∈ h.live)) (hsub : ∀ j ∈ h'.live, j ∈ h.live)
    (hnd : h'.live.Nodup) (hgone : (h'.chan id).dropped = true → (h'.chan id).closed = true)
    (hid : .subscribed id ∈ log → ChannelOk id (id ∈ h'.live) (h'.chan id) (log ++ [x])) :
    Ok h' (log ++ [x]) := by
  have hmem : ∀ j, .subscribed j ∈ log ++ [x] → .subscribed j ∈ log := by
    intro j hj
    rcases List.mem_append.mp hj with hj | hj
    · exact hj
    · exact absurd (List.mem_singleton.mp hj).symm (hnx j)
  have hpres := hok.present id hdr
  have hone : ∀ j, j ≠ id → ∀ e ∈ [x], e.about j = false := fun j hj e he =>
    List.mem_singleton.mp he ▸ hx j hj
  refine ⟨?_, ?_, hnd, ?_, ?_, ?_, ?_⟩
  · exact fun j hj => hnext ▸ hok.given j (hmem j hj)
  · exact fun j hj => List.mem_append_left _ (hok.known j (hsub j hj))
  · intro j hj
    by_cases hji : j = id
    · exact List.mem_append_left _ (hji ▸ hpres)
    · rw [hchan j hji] at hj
      exact List.mem_append_left _ (hok.present j hj)
  · intro j
    by_cases hji : j = id
    · exact hji ▸ hgone
    · rw [hchan j hji]
      exact hok.gone j
  · intro j hj
    have hn : .subscribed j ∉ log := fun hm => hj (List.mem_append_left _ hm)
    obtain ⟨h1, h2⟩ := hok.silent j hn
    obtain ⟨h3, h4, _⟩ := eq_nil_of_not_about (hone j fun e => hn (e ▸ hpres))
    exact ⟨by rw [receivedBy_append, h1, h3]; rfl, by rw [terminals_append, h2, h4]; rfl⟩
  · intro j hj
    have hs := hmem j hj
    by_cases hji : j = id
    · exact hji ▸ hid (hji ▸ hs)
    · rw [hchan j hji, propext (hlive j hji)]
      exact (hok.channel j hs).frame hs (hone j hji)

theorem ok_cancel {h : Hub α ε} {log : List (Entry α ε)} (hok : Ok h log) {id : Nat}
    (hdr : (h.chan id).dropped = false) : Ok (cancel h id) (log ++ [.cancelled id]) := by
  refine ok_of_channel hok (fun j hj => by simp [Entry.about, Ne.symm hj]) (by simp) hdr rfl
    (fun j hj => Function.update_of_ne hj _ _) (fun j hj => List.mem_erase_of_ne hj)
    (fun j hj => List.mem_of_mem_erase hj) (hok.nodup.erase id) (by simp [cancel]) ?_
  intro hs
  have hch := hok.channel id hs
  have hlive : id ∉ (cancel h id).live := fun hm => (hok.nodup.mem_erase_iff.mp hm).1 rfl
  have hchan : (cancel h id).chan id = { h.chan id with closed := true } := by simp [cancel]
  rw [hchan]
  exact ⟨isPrefix_append hs (by simp) hch.isPrefix, fun hl => absurd hl hlive,
    fun _ => .inl (by simp), by simpa using hch.once, fun hl => absurd hl hlive,
    by simpa using hch.terminal, overflow_append (by simp) hch.overflow⟩

theorem ok_drop {h : Hub α ε} {log : List (Entry α ε)} (hok : Ok h log) {id : Nat}
    (hdr : (h.chan id).dropped = false) : Ok (drop h id) (log ++ [.dropped id]) := by
  refine ok_of_channel hok (fun j hj => by simp [Entry.about, Ne.symm hj]) (by simp) hdr rfl
    (fun j hj => Function.update_of_ne hj _ _) (fun j _ => Iff.rfl) (fun j hj => hj) hok.nodup
    (by simp [drop]) ?_
  intro hs
  have hch := hok.channel id hs
  have hchan : (drop h id).chan id =
      { h.chan id with queue := [], closed := true, dropped := true } := by simp [drop]
  rw [hchan]
  refine ⟨isPrefix_append hs (by simp) ?_, fun _ hc => Bool.noConfusion hc,
    fun _ => .inr (.inl (by simp)), by simpa using hch.once, fun hl => by simpa using hch.quiet hl,
    by simpa using hch.terminal, overflow_append (by simp) hch.overflow⟩
  rw [List.append_nil]
  exact (List.prefix_append _ _).trans hch.isPrefix

theorem ok_pop {h : Hub α ε} {log : List (Entry α ε)} (hok : Ok h log) {id : Nat}
    (hdr : (h.chan id).dropped = false) {x : α} {rest : List α}
    (hq : (h.chan id).queue = x :: rest) : Ok (pop h id rest) (log ++ [.received id x]) := by
  refine ok_of_channel hok (fun j hj => by simp [Entry.about, Ne.symm hj]) (by simp) hdr rfl
    (fun j hj => Function.update_of_ne hj _ _) (fun j _ => Iff.rfl) (fun j hj => hj) hok.nodup
    (by simpa [pop] using hok.gone id) ?_
  intro hs
  have hch := hok.channel id hs
  have hchan : (pop h id rest).chan id = { h.chan id with queue := rest } := by simp [pop]
  have hmove : receivedBy id (log ++ [.received id x]) ++ rest =
      receivedBy id log ++ (h.chan id).queue := by simp [hq]
  have hdisp : dispatchedSince id (log ++ [.received id x]) = dispatchedSince id log := by
    simp [dispatchedSince_append hs]
  rw [hchan]
  refine ⟨?_, ?_, fun hl => ended_append (hch.ended hl) _, by simpa using hch.once,
    fun hl => by simpa using hch.quiet hl, by simpa using hch.terminal,
    overflow_append (by simp) hch.overflow⟩
  · rw [hmove, hdisp]
    exact hch.isPrefix
  · intro hl hc
    rw [hmove, hdisp]
    exact hch.stream hl hc

theorem ok_remove {h : Hub α ε} {log : List (Entry α ε)} (hok : Ok h log) {id : Nat}
    (hdr : (h.chan id).dropped = true) : Ok (remove h id) log := by
  refine ⟨hok.given, fun j hj => hok.known j (List.mem_of_mem_erase hj), hok.nodup.erase id,
    hok.present, hok.gone, hok.silent, ?_⟩
  intro j hs
  have hch := hok.channel j hs
  by_cases hj : j = id
  · subst hj
    have hlive : j ∉ (remove h j).live := fun hm => (hok.nodup.mem_erase_iff.mp hm).1 rfl
    exact ⟨hch.isPrefix, fun hl => absurd hl hlive, fun _ => hch.ended (.inr (hok.gone j hdr)),
      hch.once, fun hl => absurd hl hlive, hch.terminal, hch.overflow⟩
  · have hl : (j ∈ (remove h id).live) = (j ∈ h.live) := propext (List.mem_erase_of_ne hj)
    rw [hl]
    exact hch

/-- Every operation keeps the invariant, whatever the receivers and the publisher do. -/
theorem step_ok {h h' : Hub α ε} {log m : List (Entry α ε)} {op : Op α ε} (hok : Ok h log)
    (hstep : step h op = some (h', m)) : Ok h' (log ++ m) := by
  cases op with
  | subscribe buffer =>
    simp only [step, Option.some.injEq, Prod.mk.injEq] at hstep
    obtain ⟨rfl, rfl⟩ := hstep
    exact ok_subscribe hok buffer
  | dispatch slow x =>
    simp only [step, Option.some.injEq, Prod.mk.injEq] at hstep
    obtain ⟨rfl, rfl⟩ := hstep
    exact ok_dispatch hok slow x
  | closeAll e =>
    simp only [step, Option.some.injEq, Prod.mk.injEq] at hstep
    obtain ⟨rfl, rfl⟩ := hstep
    exact ok_closeAll hok e
  | cancel id =>
    simp only [step, Option.ite_none_left_eq_some, Option.some.injEq, Prod.mk.injEq] at hstep
    obtain ⟨hdr, rfl, rfl⟩ := hstep
    exact ok_cancel hok (by simpa using hdr)
  | drop id =>
    simp only [step, Option.ite_none_left_eq_some, Option.some.injEq, Prod.mk.injEq] at hstep
    obtain ⟨hdr, rfl, rfl⟩ := hstep
    exact ok_drop hok (by simpa using hdr)
  | remove id =>
    simp only [step, Option.ite_none_right_eq_some, Option.some.injEq, Prod.mk.injEq] at hstep
    obtain ⟨hdr, rfl, rfl⟩ := hstep
    rw [List.append_nil]
    exact ok_remove hok hdr
  | recv id =>
    simp only [step, Option.ite_none_left_eq_some] at hstep
    obtain ⟨hdr, hstep⟩ := hstep
    cases hq : (h.chan id).queue with
    | nil =>
      simp only [hq, Option.ite_none_left_eq_some, Option.some.injEq, Prod.mk.injEq] at hstep
      obtain ⟨_, rfl, rfl⟩ := hstep
      rw [List.append_nil]
      exact hok
    | cons x rest =>
      simp only [hq, Option.some.injEq, Prod.mk.injEq] at hstep
      obtain ⟨rfl, rfl⟩ := hstep
      exact ok_pop hok (by simpa using hdr) hq

theorem mem_receivedBy {id : Nat} {x : α} {log : List (Entry α ε)} :
    x ∈ receivedBy id log ↔ .received id x ∈ log := by
  induction log with
  | nil => simp
  | cons e log ih =>
    cases e with
    | received j y =>
      by_cases hj : j = id
      · simp [hj, ih]
      · simp [hj, ih, Ne.symm hj]
    | _ => simp [ih]

/-- What was received had been dispatched. -/
theorem Ok.dispatched_of_received {h : Hub α ε} {log : List (Entry α ε)} (hok : Ok h log) {id : Nat}
    {x : α} (hx : .received id x ∈ log) : .subscribed id ∈ log ∧ x ∈ dispatchedSince id log := by
  have hmem := mem_receivedBy.mpr hx
  have hs : .subscribed id ∈ log := by
    by_contra hn
    simp [(hok.silent id hn).1] at hmem
  exact ⟨hs, (hok.channel id hs).isPrefix.subset (List.mem_append_left _ hmem)⟩

theorem step_subscribed {h h' : Hub α ε} {m : List (Entry α ε)} {op : Op α ε} {id : Nat}
    (hstep : step h op = some (h', m)) (hm : .subscribed id ∈ m) : m = [.subscribed id] := by
  cases op with
  | subscribe buffer =>
    simp only [step, Option.some.injEq, Prod.mk.injEq] at hstep
    obtain ⟨-, rfl⟩ := hstep
    rw [List.mem_singleton] at hm
    rw [hm]
  | dispatch slow x =>
    simp only [step, Option.some.injEq, Prod.mk.injEq] at hstep
    obtain ⟨-, rfl⟩ := hstep
    simp [dispatchLog] at hm
  | closeAll e =>
    simp only [step, Option.some.injEq, Prod.mk.injEq] at hstep
    obtain ⟨-, rfl⟩ := hstep
    simp [closeAllLog] at hm
  | cancel id' | drop id' =>
    simp only [step, Option.ite_none_left_eq_some, Option.some.injEq, Prod.mk.injEq] at hstep
    obtain ⟨-, -, rfl⟩ := hstep
    simp at hm
  | remove id' =>
    simp only [step, Option.ite_none_right_eq_some, Option.some.injEq, Prod.mk.injEq] at hstep
    obtain ⟨-, -, rfl⟩ := hstep
    simp at hm
  | recv id' =>
    simp only [step, Option.ite_none_left_eq_some] at hstep
    obtain ⟨-, hstep⟩ := hstep
    split at hstep
    · simp only [Option.some.injEq, Prod.mk.injEq] at hstep
      obtain ⟨-, rfl⟩ := hstep
      simp at hm
    · simp only [Option.ite_none_left_eq_some, Option.some.injEq, Prod.mk.injEq] at hstep
      obtain ⟨-, -, rfl⟩ := hstep
      simp at hm

end Broadcast
