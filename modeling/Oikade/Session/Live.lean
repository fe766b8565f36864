/-
  The pending map and the calls that are alive, for both hosts.

  An entry of `pending` is made by a call (at `insert`) and taken out by that call or by the read
  loop. It stays behind when the caller drops the call while the entry is there, and, on the adapter
  host, when the request does not encode: the entry is made before. `keepsPending` excludes these two
  steps; in a run without them every entry belongs to a call that waits
  (`pending_of_keepsPending`), and `leaks_of_not_keepsPending` is what each of them does.

  `Moves` is what a step may do to the entries, `Live` the invariant that follows from it.
-/
import Oikade.Session.Known
import Mathlib.Data.List.Perm.Subperm

namespace Oikade.Session

/-! ## Calls that wait -/

/-- The identifier with which a call is about to enter `pending`. -/
def Thread.entering : Thread → Option Nat
  | .running _ (.insert id) => some id
  | _ => none

/-- The identifier with which a call is in `pending`, unless it has been taken out. -/
def Thread.waiting : Thread → Option Nat
  | .running _ (.send id) | .running _ (.unsend id) | .running _ (.wait id)
  | .running _ (.abandon id) => some id
  | _ => none

def Sys.entering (s : Sys) (k : CallId) : Option Nat := s.calls[k]?.bind Thread.entering

def Sys.waiting (s : Sys) (k : CallId) : Option Nat := s.calls[k]?.bind Thread.waiting

/-- The calls that wait for a response, or are about to send or to give up. -/
def Sys.waitingCalls (s : Sys) : List Nat := s.calls.toList.filterMap fun p => p.2.waiting

/-- Every entry of `pending` is that of a call which still waits. -/
def Sys.PendingLive (s : Sys) : Prop := ∀ id ∈ s.pending, ∃ k, s.waiting k = some id

theorem mem_waitingCalls {s : Sys} {k : CallId} {id : Nat} (h : s.waiting k = some id) :
    id ∈ s.waitingCalls := by
  unfold Sys.waiting at h
  cases hk : s.calls[k]? with
  | none => simp [hk] at h
  | some t =>
    simp only [hk, Option.bind_some] at h
    exact List.mem_filterMap.mpr ⟨(k, t), Std.ExtTreeMap.mem_toList_iff_getElem?_eq_some.mpr hk, h⟩

/-- Entries of calls that wait are at most as many as these calls. -/
theorem pending_size_le {s : Sys} (h : s.PendingLive) : s.pending.size ≤ s.waitingCalls.length := by
  have hsub : s.pending.toList ⊆ s.waitingCalls := by
    intro id hid
    obtain ⟨k, hk⟩ := h id (Std.ExtTreeSet.mem_toList.mp hid)
    exact mem_waitingCalls hk
  have hnd : s.pending.toList.Nodup := by
    refine (Std.ExtTreeSet.distinct_toList (t := s.pending)).imp fun hne he => hne ?_
    subst he
    exact Std.compare_self
  have hle := (List.subperm_of_subset hnd hsub).length_le
  rwa [Std.ExtTreeSet.length_toList] at hle

/-! ## What a step does to the entries -/

/-- A step in which at most call `k` moves. -/
structure Moves (s : Sys) (k : CallId) (s' : Sys) : Prop where
  nextId : s.nextId ≤ s'.nextId
  others : ∀ j, j ≠ k → s'.calls[j]? = s.calls[j]?
  slots : ∀ id, s'.slots id = s.slots id ∨ (id ∈ s.pending ∧ id ∉ s'.pending)
  pending : ∀ id ∈ s'.pending, id ∈ s.pending ∨ (s.entering k = some id ∧ s'.entering k = none)
  entering : ∀ id, s'.entering k = some id →
    s.entering k = some id ∨ (s.nextId < id ∧ id ≤ s'.nextId)
  waiting : ∀ id, s'.waiting k = some id → s.waiting k = some id ∨ s.entering k = some id

/-- No call leaves its entry behind. -/
def Keeps (s : Sys) (k : CallId) (s' : Sys) : Prop :=
  ∀ id, s.entering k = some id ∨ s.waiting k = some id → id ∈ s'.pending → s'.waiting k = some id

/-- Identifiers are used once, and a request whose receiver has been sent something is out of
    `pending`. -/
structure Entries (s : Sys) : Prop where
  bounded : ∀ id, s.nextId < id → id ∉ s.pending ∧ s.slots id = none
  unanswered : ∀ id ∈ s.pending, s.slots id = none
  own : ∀ k id, s.entering k = some id ∨ s.waiting k = some id → id ≤ s.nextId
  distinct : ∀ j k id, s.entering j = some id ∨ s.waiting j = some id →
    s.entering k = some id ∨ s.waiting k = some id → j = k
  entering : ∀ k id, s.entering k = some id → id ∉ s.pending ∧ s.slots id = none

theorem Moves.entering_eq {s s' : Sys} {k j : CallId} (h : Moves s k s') (hj : j ≠ k) :
    s'.entering j = s.entering j := by
  unfold Sys.entering
  rw [h.others j hj]

theorem Moves.waiting_eq {s s' : Sys} {k j : CallId} (h : Moves s k s') (hj : j ≠ k) :
    s'.waiting j = s.waiting j := by
  unfold Sys.waiting
  rw [h.others j hj]

/-- The identifier of a call is its own of before, or new. -/
theorem Moves.own {s s' : Sys} {k j : CallId} {id : Nat} (h : Moves s k s')
    (hj : s'.entering j = some id ∨ s'.waiting j = some id) :
    (s.entering j = some id ∨ s.waiting j = some id) ∨ (j = k ∧ s.nextId < id ∧ id ≤ s'.nextId) := by
  by_cases hjk : j = k
  · subst hjk
    obtain hj | hj := hj
    · obtain he | hn := h.entering id hj
      · exact .inl (.inl he)
      · exact .inr ⟨rfl, hn⟩
    · exact .inl (h.waiting id hj).symm
  · rw [h.entering_eq hjk, h.waiting_eq hjk] at hj
    exact .inl hj

theorem entries_moves {s s' : Sys} {k : CallId} (hs : Entries s) (h : Moves s k s') : Entries s' where
  bounded id hid := by
    have hlt : s.nextId < id := Nat.lt_of_le_of_lt h.nextId hid
    obtain ⟨hp, hsl⟩ := hs.bounded id hlt
    constructor
    · intro hp'
      obtain hp' | ⟨he, -⟩ := h.pending id hp'
      · exact hp hp'
      · have := hs.own k id (.inl he)
        omega
    · obtain heq | ⟨hp', -⟩ := h.slots id
      · rw [heq, hsl]
      · exact absurd hp' hp
  unanswered id hid := by
    obtain heq | ⟨-, hno⟩ := h.slots id
    · rw [heq]
      obtain hp | ⟨he, -⟩ := h.pending id hid
      · exact hs.unanswered id hp
      · exact (hs.entering k id he).2
    · exact absurd hid hno
  own j id hj := by
    obtain hj | ⟨-, -, hle⟩ := h.own hj
    · exact Nat.le_trans (hs.own j id hj) h.nextId
    · exact hle
  distinct i j id hi hj := by
    obtain hi | ⟨rfl, hlt, -⟩ := h.own hi
    · obtain hj | ⟨rfl, hlt, -⟩ := h.own hj
      · exact hs.distinct i j id hi hj
      · have := hs.own i id hi
        omega
    · obtain hj | ⟨rfl, -⟩ := h.own hj
      · have := hs.own j id hj
        omega
      · rfl
  entering j id hj := by
    -- An identifier that is about to enter is the call's of before, or new.
    have hfree : id ∉ s.pending ∧ s.slots id = none := by
      by_cases hjk : j = k
      · subst hjk
        obtain he | ⟨hlt, -⟩ := h.entering id hj
        · exact hs.entering j id he
        · exact hs.bounded id hlt
      · rw [h.entering_eq hjk] at hj
        exact hs.entering j id hj
    constructor
    · intro hp
      obtain hp | ⟨he, hno⟩ := h.pending id hp
      · exact hfree.1 hp
      · by_cases hjk : j = k
        · subst hjk
          rw [hj] at hno
          cases hno
        · rw [h.entering_eq hjk] at hj
          exact hjk (hs.distinct j k id (.inl hj) (.inl he))
    · obtain heq | ⟨hp, -⟩ := h.slots id
      · rw [heq, hfree.2]
      · exact absurd hp hfree.1

theorem pendingLive_moves {s s' : Sys} {k : CallId} (hs : s.PendingLive) (h : Moves s k s')
    (hk : Keeps s k s') : s'.PendingLive := by
  intro id hid
  obtain hp | ⟨he, -⟩ := h.pending id hid
  · obtain ⟨j, hj⟩ := hs id hp
    by_cases hjk : j = k
    · subst hjk
      exact ⟨j, hk id (.inr hj) hid⟩
    · exact ⟨j, by rw [h.waiting_eq hjk, hj]⟩
  · exact ⟨k, hk id (.inl he) hid⟩

/-! ## Steps of a call -/

/-- The end of a step of call `k`: it does not wait and is not about to. -/
structure Ends (s : Sys) (k : CallId) (s' : Sys) : Prop where
  nextId : s.nextId ≤ s'.nextId
  pending : s'.pending = s.pending
  slots : s'.slots = s.slots
  calls : ∃ t : Thread, s'.calls = s.calls.insert k t ∧ t.entering = none ∧ t.waiting = none

theorem ends_ret (s : Sys) (k : CallId) (request : Request) (outcome : Outcome) :
    Ends s k (s.ret k request outcome) :=
  ⟨Nat.le_refl _, rfl, rfl, _, rfl, rfl, rfl⟩

theorem ends_abandoned (s : Sys) (k : CallId) (request : Request) :
    Ends s k (s.abandoned k request) := by
  unfold Sys.abandoned
  cases s.host with
  | plugin => exact ⟨Nat.le_succ _, rfl, rfl, _, rfl, rfl, rfl⟩
  | adapter => exact ends_ret s k request _

theorem ends_resume (s : Sys) (k : CallId) (request : Request) (r : Resume) :
    Ends s k (s.resume k request r) := by
  cases r with
  | abandoned => exact ends_abandoned s k request
  | ret outcome => exact ends_ret s k request outcome

theorem ends_failCall (s : Sys) (k : CallId) (request : Request) (f : Failure) (r : Resume) :
    Ends s k (s.failCall k request f r) := by
  unfold Sys.failCall Sys.fail
  cases s.failure with
  | some f' => exact ends_resume s k request r
  | none => exact ⟨Nat.le_refl _, rfl, rfl, _, rfl, rfl, rfl⟩

theorem ends_respond (s : Sys) (k : CallId) (request : Request) (e : Envelope) :
    Ends s k (s.respond k request e) := by
  unfold Sys.respond
  by_cases hm : e.method ≠ request.method
  · rw [if_pos hm]
    exact ends_failCall s k request _ _
  · rw [if_neg hm]
    cases e.error with
    | some error => exact ends_ret s k request _
    | none =>
      cases e.body with
      | none => exact ends_ret s k request _
      | some body => exact ends_ret s k request _

section Call

variable {s s₁ s' : Sys} {k : CallId} {request : Request} {pc : Pc} {t : Thread}

theorem entering_insert (h : s'.calls = s.calls.insert k t) : s'.entering k = t.entering := by
  unfold Sys.entering
  rw [h, getElem?_calls_insert, if_pos rfl]
  rfl

theorem waiting_insert (h : s'.calls = s.calls.insert k t) : s'.waiting k = t.waiting := by
  unfold Sys.waiting
  rw [h, getElem?_calls_insert, if_pos rfl]
  rfl

theorem waiting_goto (s : Sys) (k : CallId) (request : Request) (pc : Pc) :
    (s.goto k request pc).waiting k = (Thread.running request pc).waiting :=
  waiting_insert (s := s) rfl

theorem others_insert (h : s'.calls = s.calls.insert k t) (j : CallId) (hj : j ≠ k) :
    s'.calls[j]? = s.calls[j]? := by
  rw [h, getElem?_calls_insert, if_neg (Ne.symm hj)]

theorem entering_running (hk : s.calls[k]? = some (.running request pc)) :
    s.entering k = (Thread.running request pc).entering := by
  unfold Sys.entering
  rw [hk]
  rfl

theorem waiting_running (hk : s.calls[k]? = some (.running request pc)) :
    s.waiting k = (Thread.running request pc).waiting := by
  unfold Sys.waiting
  rw [hk]
  rfl

/-- A call that ends, after a change to `pending`. -/
theorem moves_of_ends (h : Ends s₁ k s') (hcalls : s₁.calls = s.calls) (hnext : s₁.nextId = s.nextId)
    (hslots : ∀ id, s₁.slots id = s.slots id ∨ (id ∈ s.pending ∧ id ∉ s₁.pending))
    (hpending : ∀ id ∈ s₁.pending, id ∈ s.pending ∨ s.entering k = some id) : Moves s k s' := by
  obtain ⟨t, ht, hent, hwait⟩ := h.calls
  rw [hcalls] at ht
  refine ⟨hnext ▸ h.nextId, others_insert ht, ?_, ?_, ?_, ?_⟩
  · intro id
    rw [h.slots, h.pending]
    exact hslots id
  · intro id hid
    rw [h.pending] at hid
    rw [entering_insert ht]
    exact (hpending id hid).imp_right fun he => ⟨he, hent⟩
  · intro id hid
    rw [entering_insert ht, hent] at hid
    cases hid
  · intro id hid
    rw [waiting_insert ht, hwait] at hid
    cases hid

theorem moves_ends (h : Ends s k s') : Moves s k s' :=
  moves_of_ends h rfl rfl (fun _ => .inl rfl) (fun _ => .inl)

/-- A call that goes on from one await point to the next. -/
theorem moves_goto {pc' : Pc} (hnext : s₁.nextId = s.nextId) (hcalls : s₁.calls = s.calls)
    (hslots : s₁.slots = s.slots)
    (hpending : ∀ id ∈ s₁.pending, id ∈ s.pending ∨ s.entering k = some id)
    (hent : (Thread.running request pc').entering = none)
    (hwait : ∀ id, (Thread.running request pc').waiting = some id →
      s.waiting k = some id ∨ s.entering k = some id) :
    Moves s k (s₁.goto k request pc') := by
  have ht : (s₁.goto k request pc').calls = s.calls.insert k (.running request pc') := by
    rw [← hcalls]
    rfl
  refine ⟨Nat.le_of_eq hnext.symm, others_insert ht, fun id => .inl (congrFun hslots id), ?_, ?_, ?_⟩
  · intro id hid
    rw [entering_insert ht]
    exact (hpending id hid).imp_right fun he => ⟨he, hent⟩
  · intro id hid
    rw [entering_insert ht, hent] at hid
    cases hid
  · intro id hid
    rw [waiting_insert ht] at hid
    exact hwait id hid

theorem mem_of_mem_erase {m : Std.ExtTreeSet Nat} {a id : Nat} (h : id ∈ m.erase a) : id ∈ m :=
  (mem_set_erase.mp h).2

theorem not_mem_drain (s : Sys) (f : Failure) (id : Nat) : id ∉ (s.drain f).pending :=
  Std.ExtTreeSet.not_mem_empty

theorem slots_drain (s : Sys) (f : Failure) (id : Nat) :
    (s.drain f).slots id = s.slots id ∨ (id ∈ s.pending ∧ id ∉ (s.drain f).pending) := by
  by_cases hid : id ∈ s.pending
  · exact .inr ⟨hid, not_mem_drain s f id⟩
  · exact .inl (if_neg hid)

theorem moves_call {refuse : Bool} (hk : s.calls[k]? = some (.running request pc))
    (hs : s.callStep k request refuse pc = some s') : Moves s k s' := by
  have hent := entering_running hk
  have hwait := waiting_running hk
  cases pc with
  | insert id =>
    simp only [Sys.callStep, Option.some.injEq] at hs
    subst hs
    by_cases hlim : maxPendingCalls ≤ s.pending.size
    · rw [if_pos hlim]
      exact moves_ends (ends_ret s k request _)
    · rw [if_neg hlim]
      have hpending : ∀ id' ∈ s.pending.insert id, id' ∈ s.pending ∨ s.entering k = some id' := by
        intro id' hid'
        obtain rfl | hid' := mem_set_insert.mp hid'
        · exact .inr hent
        · exact .inl hid'
      have hgoto : Moves s k ({ s with pending := s.pending.insert id }.goto k request (.send id)) :=
        moves_goto rfl rfl rfl hpending rfl fun id' hid' => .inr (hent.trans hid')
      cases hh : s.host with
      | plugin => simpa only [hh] using hgoto
      | adapter =>
        cases he : request.encoded with
        | ok _ => simpa only [hh, he] using hgoto
        | error message =>
          simp only
          exact moves_of_ends (ends_ret _ k request _) rfl rfl (fun _ => .inl rfl) hpending
  | send id =>
    simp only [Sys.callStep, Option.some.injEq] at hs
    subst hs
    cases refuse with
    | true => exact moves_goto rfl rfl rfl (fun _ => .inl) rfl fun id' hid' => .inl (hwait.trans hid')
    | false => exact moves_goto rfl rfl rfl (fun _ => .inl) rfl fun id' hid' => .inl (hwait.trans hid')
  | unsend id =>
    simp only [Sys.callStep, Option.some.injEq] at hs
    subst hs
    exact moves_of_ends (ends_ret _ k request _) rfl rfl (fun _ => .inl rfl)
      fun _ hid => .inl (mem_of_mem_erase hid)
  | wait id =>
    simp only [Sys.callStep] at hs
    cases hslot : s.slots id with
    | none =>
      cases refuse with
      | false => simp [hslot] at hs
      | true =>
        simp only [hslot, if_true, Option.some.injEq] at hs
        subst hs
        exact moves_goto rfl rfl rfl (fun _ => .inl) rfl fun id' hid' => .inl (hwait.trans hid')
    | some result =>
      cases result with
      | ok e =>
        cases refuse with
        | true => simp [hslot] at hs
        | false =>
          simp only [hslot, Bool.false_eq_true, if_false, Option.some.injEq] at hs
          subst hs
          exact moves_ends (ends_respond s k request e)
      | error f =>
        cases refuse with
        | true => simp [hslot] at hs
        | false =>
          simp only [hslot, Bool.false_eq_true, if_false, Option.some.injEq] at hs
          subst hs
          exact moves_ends (ends_ret s k request _)
  | abandon id =>
    simp only [Sys.callStep, Option.some.injEq] at hs
    subst hs
    by_cases hp : id ∈ s.pending
    · rw [if_pos hp]
      exact moves_goto rfl rfl rfl (fun _ hid => .inl (mem_of_mem_erase hid)) rfl
        fun id' hid' => by cases hid'
    · rw [if_neg hp]
      exact moves_ends (ends_abandoned s k request)
  | ignore id =>
    simp only [Sys.callStep, Option.some.injEq] at hs
    subst hs
    by_cases hlim : maxIgnoredResponses ≤ s.ignored.size
    · rw [if_pos hlim]
      exact moves_ends (ends_failCall s k request _ _)
    · rw [if_neg hlim]
      exact moves_of_ends (ends_abandoned _ k request) rfl rfl (fun _ => .inl rfl) fun _ => .inl
  | cancel id =>
    simp only [Sys.callStep, Option.some.injEq] at hs
    subst hs
    by_cases hlim : maxIgnoredResponses ≤ s.ignored.size
    · rw [if_pos hlim]
      exact moves_ends (ends_failCall s k request _ _)
    · rw [if_neg hlim]
      exact moves_goto rfl rfl rfl (fun _ => .inl) rfl fun id' hid' => by cases hid'
  | cancelSend id =>
    simp only [Sys.callStep, Option.some.injEq] at hs
    subst hs
    cases refuse with
    | true => exact moves_goto rfl rfl rfl (fun _ => .inl) rfl fun id' hid' => by cases hid'
    | false =>
      exact moves_of_ends (ends_ret (s.observe (.issued id)) k request _) rfl rfl
        (fun _ => .inl rfl) fun _ => .inl
  | cancelUndo id =>
    simp only [Sys.callStep, Option.some.injEq] at hs
    subst hs
    exact moves_of_ends (ends_ret _ k request _) rfl rfl (fun _ => .inl rfl) fun _ => .inl
  | drain r =>
    simp only [Sys.callStep, Option.map_eq_some_iff] at hs
    obtain ⟨f, -, rfl⟩ := hs
    exact moves_of_ends (ends_resume (s.drain f) k request r) rfl rfl (slots_drain s f)
      fun id hid => absurd hid (not_mem_drain s f id)

/-- A call that is not in `pending` and is not about to enter leaves nothing there. -/
theorem keeps_of_none (hent : s.entering k = none) (hwait : s.waiting k = none) : Keeps s k s' := by
  rintro id (h | h)
  · rw [hent] at h
    cases h
  · rw [hwait] at h
    cases h

theorem keeps_of_out {id : Nat} (hown : ∀ id', s.entering k = some id' ∨ s.waiting k = some id' →
    id' = id) (hout : id ∉ s'.pending) : Keeps s k s' := by
  intro id' h hp
  rw [hown id' h] at hp
  exact absurd hp hout

theorem keeps_of_waiting {id : Nat} (hown : ∀ id', s.entering k = some id' ∨ s.waiting k = some id' →
    id' = id) (hwait : s'.waiting k = some id) : Keeps s k s' := by
  intro id' h _
  rw [hown id' h]
  exact hwait

/-- The request encodes, or the plugin host has encoded it before, or there is no room. -/
def encodes (s : Sys) (request : Request) : Bool :=
  match s.host, request.encoded with
  | .adapter, .error _ => maxPendingCalls ≤ s.pending.size
  | _, _ => true

theorem keeps_insert {id : Nat} {refuse : Bool} (he : Entries s)
    (hk : s.calls[k]? = some (.running request (.insert id))) (hok : encodes s request = true)
    (hs : s.callStep k request refuse (.insert id) = some s') : Keeps s k s' := by
  have hent : s.entering k = some id := entering_running hk
  have hwait : s.waiting k = none := waiting_running hk
  have hown : ∀ id', s.entering k = some id' ∨ s.waiting k = some id' → id' = id := by
    rintro id' (h | h)
    · exact Option.some.inj (h.symm.trans hent)
    · rw [hwait] at h
      cases h
  simp only [Sys.callStep, Option.some.injEq] at hs
  subst hs
  by_cases hlim : maxPendingCalls ≤ s.pending.size
  · rw [if_pos hlim]
    exact keeps_of_out hown (he.entering k id hent).1
  · rw [if_neg hlim]
    have hgoto : Keeps s k ({ s with pending := s.pending.insert id }.goto k request (.send id)) :=
      keeps_of_waiting hown (waiting_goto _ k request (.send id))
    unfold encodes at hok
    cases hh : s.host with
    | plugin => simpa only [hh] using hgoto
    | adapter =>
      cases henc : request.encoded with
      | ok _ => simpa only [hh, henc] using hgoto
      | error message =>
        simp only [hh, henc, decide_eq_true_eq] at hok
        exact absurd hok hlim

theorem keeps_call {refuse : Bool} (he : Entries s) (hk : s.calls[k]? = some (.running request pc))
    (hok : ∀ id, pc = .insert id → encodes s request = true)
    (hs : s.callStep k request refuse pc = some s') : Keeps s k s' := by
  have hent := entering_running hk
  have hwait := waiting_running hk
  have hown : ∀ id, s.entering k = none → s.waiting k = some id →
      ∀ id', s.entering k = some id' ∨ s.waiting k = some id' → id' = id := by
    rintro id h₁ h₂ id' (h | h)
    · rw [h₁] at h
      cases h
    · exact Option.some.inj (h.symm.trans h₂)
  cases pc with
  | insert id => exact keeps_insert he hk (hok id rfl) hs
  | send id =>
    simp only [Sys.callStep, Option.some.injEq] at hs
    subst hs
    cases refuse with
    | true => exact keeps_of_waiting (hown id hent hwait) (waiting_goto s k request (.unsend id))
    | false => exact keeps_of_waiting (hown id hent hwait) (waiting_goto _ k request (.wait id))
  | unsend id =>
    simp only [Sys.callStep, Option.some.injEq] at hs
    subst hs
    exact keeps_of_out (hown id hent hwait) fun hp => (mem_set_erase.mp hp).1 rfl
  | wait id =>
    have hanswered : s.slots id ≠ none → id ∉ s.pending := fun hslot hp =>
      hslot (he.unanswered id hp)
    simp only [Sys.callStep] at hs
    cases hslot : s.slots id with
    | none =>
      cases refuse with
      | false => simp [hslot] at hs
      | true =>
        simp only [hslot, if_true, Option.some.injEq] at hs
        subst hs
        exact keeps_of_waiting (hown id hent hwait) (waiting_goto s k request (.abandon id))
    | some result =>
      have hout := hanswered (by simp [hslot])
      cases refuse with
      | true => cases result <;> simp [hslot] at hs
      | false =>
        cases result with
        | ok e =>
          simp only [hslot, Bool.false_eq_true, if_false, Option.some.injEq] at hs
          subst hs
          refine keeps_of_out (hown id hent hwait) ?_
          rw [(ends_respond s k request e).pending]
          exact hout
        | error f =>
          simp only [hslot, Bool.false_eq_true, if_false, Option.some.injEq] at hs
          subst hs
          exact keeps_of_out (hown id hent hwait) hout
  | abandon id =>
    simp only [Sys.callStep, Option.some.injEq] at hs
    subst hs
    refine keeps_of_out (hown id hent hwait) ?_
    by_cases hp : id ∈ s.pending
    · rw [if_pos hp]
      exact fun hp' => (mem_set_erase.mp hp').1 rfl
    · rw [if_neg hp, (ends_abandoned s k request).pending]
      exact hp
  | ignore id | cancel id | cancelSend id | cancelUndo id | drain r => exact keeps_of_none hent hwait

end Call

/-! ## The other steps -/

/-- A step that moves no call and at most takes entries out. -/
theorem moves_quiet {s s' : Sys} (k : CallId) (hcalls : s'.calls = s.calls)
    (hnext : s'.nextId = s.nextId)
    (hslots : ∀ id, s'.slots id = s.slots id ∨ (id ∈ s.pending ∧ id ∉ s'.pending))
    (hpending : ∀ id ∈ s'.pending, id ∈ s.pending) :
    Moves s k s' ∧ (Entries s → Keeps s k s') := by
  have hent : s'.entering k = s.entering k := by simp only [Sys.entering, hcalls]
  have hwait : s'.waiting k = s.waiting k := by simp only [Sys.waiting, hcalls]
  refine ⟨⟨Nat.le_of_eq hnext.symm, fun j _ => by rw [hcalls], hslots,
    fun id hid => .inl (hpending id hid), fun id hid => .inl (hent ▸ hid),
    fun id hid => .inl (hwait ▸ hid)⟩, ?_⟩
  rintro he id (hid | hid) hp
  · exact absurd (hpending id hp) (he.entering k id hid).1
  · rw [hwait, hid]

theorem moves_start {s : Sys} {k : CallId} (hk : k ∉ s.calls) (request : Request) :
    Moves s k (s.start k request) ∧ Keeps s k (s.start k request) := by
  have hnone : s.calls[k]? = none := Std.ExtTreeMap.getElem?_eq_none hk
  have hent : s.entering k = none := by simp [Sys.entering, hnone]
  have hwait : s.waiting k = none := by simp [Sys.waiting, hnone]
  refine ⟨?_, keeps_of_none hent hwait⟩
  have hgoto : Moves s k ({ s with nextId := s.nextId + 1 }.goto k request (.insert (s.nextId + 1))) := by
    refine ⟨Nat.le_succ _, others_insert (t := .running request (.insert (s.nextId + 1))) rfl,
      fun _ => .inl rfl, fun _ => .inl, ?_, ?_⟩
    · intro id hid
      rw [entering_insert (s := s) rfl] at hid
      cases hid
      exact .inr ⟨Nat.lt_succ_self _, Nat.le_refl _⟩
    · intro id hid
      rw [waiting_insert (s := s) rfl] at hid
      cases hid
  unfold Sys.start
  split
  · exact moves_ends (ends_ret s k request _)
  · exact hgoto

/-- `fail` touches neither the entries nor the calls. -/
theorem moves_failReader {s s₁ : Sys} (k : CallId) (f : Failure) (hcalls : s₁.calls = s.calls)
    (hnext : s₁.nextId = s.nextId) (hslots : s₁.slots = s.slots) (hpending : s₁.pending = s.pending) :
    Moves s k (s₁.failReader f) ∧ (Entries s → Keeps s k (s₁.failReader f)) := by
  unfold Sys.failReader Sys.fail
  cases s₁.failure with
  | none =>
    exact moves_quiet k hcalls hnext (fun id => .inl (congrFun hslots id)) fun _ hid => hpending ▸ hid
  | some f' =>
    exact moves_quiet k hcalls hnext (fun id => .inl (congrFun hslots id)) fun _ hid => hpending ▸ hid

theorem moves_receive {s s' : Sys} (k : CallId) {frame : Frame} (hs : s.receive frame = some s') :
    Moves s k s' ∧ (Entries s → Keeps s k s') := by
  have hsame : ∀ s₁ : Sys, s₁.calls = s.calls → s₁.nextId = s.nextId → s₁.slots = s.slots →
      s₁.pending = s.pending → Moves s k s₁ ∧ (Entries s → Keeps s k s₁) :=
    fun s₁ h₁ h₂ h₃ h₄ =>
      moves_quiet k h₁ h₂ (fun id => .inl (congrFun h₃ id)) fun _ hid => h₄ ▸ hid
  cases frame with
  | notification n =>
    simp only [Sys.receive, Option.some.injEq] at hs
    subst hs
    cases handleNotification s.host s.hello n with
    | ok hello => exact hsame _ rfl rfl rfl rfl
    | error f => exact moves_failReader k f rfl rfl rfl rfl
  | response e =>
    simp only [Sys.receive, Option.some.injEq] at hs
    subst hs
    split
    · exact moves_failReader k _ rfl rfl rfl rfl
    · exact hsame _ rfl rfl rfl rfl
  | request id command =>
    simp only [Sys.receive] at hs
    cases hh : s.host with
    | plugin => simp [hh] at hs
    | adapter =>
      simp only [hh, Option.some.injEq] at hs
      subst hs
      by_cases hc : (s.hello && command) = true
      · rw [if_pos hc]
        exact hsame s rfl rfl rfl rfl
      · rw [if_neg hc]
        exact moves_failReader k _ rfl rfl rfl rfl
  | closed | invalid message =>
    simp only [Sys.receive, Option.some.injEq] at hs
    subst hs
    exact moves_failReader k _ rfl rfl rfl rfl

theorem moves_read {s s' : Sys} (k : CallId) (hs : s.readStep = some s') :
    Moves s k s' ∧ (Entries s → Keeps s k s') := by
  unfold Sys.readStep at hs
  cases hr : s.reader with
  | decoding => simp [hr] at hs
  | stopped => simp [hr] at hs
  | ignored e =>
    simp only [hr, Option.some.injEq] at hs
    subst hs
    by_cases hi : e.id ∈ s.ignored
    · rw [if_pos hi]
      exact moves_quiet k rfl rfl (fun _ => .inl rfl) fun _ hid => hid
    · rw [if_neg hi]
      exact moves_quiet k rfl rfl (fun _ => .inl rfl) fun _ hid => hid
  | pending e =>
    simp only [hr, Option.some.injEq] at hs
    subst hs
    by_cases hp : e.id ∈ s.pending
    · rw [if_pos hp]
      refine moves_quiet k rfl rfl (fun id => ?_) fun _ => mem_of_mem_erase
      by_cases hid : id = e.id
      · subst hid
        exact .inr ⟨hp, fun h => (mem_set_erase.mp h).1 rfl⟩
      · exact .inl (Function.update_of_ne hid _ _)
    · rw [if_neg hp]
      exact @moves_failReader s (s.observe (.unknown e.id)) k _ rfl rfl rfl rfl
  | draining =>
    simp only [hr, Option.map_eq_some_iff] at hs
    obtain ⟨f, -, rfl⟩ := hs
    exact moves_quiet k rfl rfl (slots_drain s f) fun id hid => absurd hid (not_mem_drain s f id)

/-! ## Runs -/

/-- The steps that leave no entry behind: a caller drops a call only when its entry is out, and a
    request of the adapter host that gets an entry encodes. -/
def keepsPending (s : Sys) : Action → Bool
  | .drop k => match s.waiting k with
    | some id => id ∉ s.pending
    | none => true
  | .advance k => match s.calls[k]? with
    | some (.running request (.insert _)) => encodes s request
    | _ => true
  | _ => true

theorem moves_step {s s' : Sys} {a : Action} (hs : step s a = some s') :
    ∃ k, Moves s k s' ∧ (Entries s → keepsPending s a = true → Keeps s k s') := by
  have hweaken : ∀ {k}, Moves s k s' ∧ (Entries s → Keeps s k s') →
      ∃ k, Moves s k s' ∧ (Entries s → keepsPending s a = true → Keeps s k s') :=
    fun h => ⟨_, h.1, fun he _ => h.2 he⟩
  cases a with
  | start k request =>
    simp only [step, Option.ite_none_left_eq_some, Option.some.injEq] at hs
    obtain ⟨hk, rfl⟩ := hs
    exact ⟨k, (moves_start hk request).1, fun _ _ => (moves_start hk request).2⟩
  | advance k =>
    simp only [step] at hs
    cases hk : s.calls[k]? with
    | none => simp [hk] at hs
    | some t =>
      cases t with
      | running request pc =>
        simp only [hk] at hs
        refine ⟨k, moves_call hk hs, fun he hok => keeps_call he hk ?_ hs⟩
        rintro id rfl
        simpa only [keepsPending, hk] using hok
      | returned request outcome => simp [hk] at hs
      | dropped request => simp [hk] at hs
  | refuse k =>
    simp only [step] at hs
    cases hk : s.calls[k]? with
    | none => simp [hk] at hs
    | some t =>
      cases t with
      | running request pc =>
        simp only [hk] at hs
        cases pc with
        | send id | wait id | cancelSend id =>
          exact ⟨k, moves_call hk hs, fun he _ => keeps_call he hk (fun _ h => by cases h) hs⟩
        | insert id | unsend id | abandon id | ignore id | cancel id | cancelUndo id | drain r =>
          simp at hs
      | returned request outcome => simp [hk] at hs
      | dropped request => simp [hk] at hs
  | drop k =>
    simp only [step] at hs
    cases hk : s.calls[k]? with
    | none => simp [hk] at hs
    | some t =>
      cases t with
      | running request pc =>
        simp only [hk, Option.some.injEq] at hs
        subst hs
        refine ⟨k, moves_ends ⟨Nat.le_refl _, rfl, rfl, .dropped request, rfl, rfl, rfl⟩, ?_⟩
        rintro he hok id (hid | hid) hp
        · exact absurd hp (he.entering k id hid).1
        · simp only [keepsPending, hid, decide_eq_true_eq] at hok
          exact absurd hp hok
      | returned request outcome => simp [hk] at hs
      | dropped request => simp [hk] at hs
  | receive frame =>
    simp only [step] at hs
    cases hr : s.reader with
    | decoding =>
      simp only [hr] at hs
      exact hweaken (moves_receive 0 hs)
    | ignored e | pending e | draining | stopped => simp [hr] at hs
  | read => exact hweaken (moves_read 0 hs)
  | fail message =>
    simp only [step, Option.some.injEq, Sys.fail] at hs
    subst hs
    refine hweaken (k := 0) ?_
    cases hf : s.failure with
    | some f => exact moves_quiet 0 rfl rfl (fun _ => .inl rfl) fun _ hid => hid
    | none => exact moves_quiet 0 rfl rfl (fun _ => .inl rfl) fun _ hid => hid
  | drain =>
    simp only [step] at hs
    cases hf : s.failure with
    | none => simp [hf] at hs
    | some f =>
      cases hn : s.failing with
      | zero => simp [hf, hn] at hs
      | succ n =>
        simp only [hf, hn, Option.some.injEq] at hs
        subst hs
        exact hweaken (moves_quiet 0 rfl rfl (slots_drain s f)
          fun id hid => absurd hid (not_mem_drain s f id))
  | setPid pid =>
    simp only [step, Option.some.injEq] at hs
    subst hs
    exact hweaken (moves_quiet 0 rfl rfl (fun _ => .inl rfl) fun _ hid => hid)

theorem entries_spawn (host : Host) : Entries (Sys.spawn host) := by
  refine ⟨?_, ?_, ?_, ?_, ?_⟩ <;> simp [Sys.spawn, Sys.entering, Sys.waiting]

/-- A step that is excluded leaves an entry of a call that has ended. -/
theorem leaks_of_not_keepsPending {s s' : Sys} {a : Action} (he : Entries s)
    (hno : keepsPending s a = false) (hs : step s a = some s') : ¬ s'.PendingLive := by
  -- The identifier is that of call `k` alone, and `k` does not wait any more.
  have hlost : ∀ k id t, (s.entering k = some id ∨ s.waiting k = some id) →
      s'.calls = s.calls.insert k t → t.waiting = none → id ∈ s'.pending → ¬ s'.PendingLive := by
    intro k id t hown hcalls ht hid hlive
    obtain ⟨j, hj⟩ := hlive id hid
    by_cases hjk : j = k
    · subst hjk
      rw [waiting_insert hcalls, ht] at hj
      cases hj
    · have hj' : s.waiting j = some id := by
        unfold Sys.waiting at hj ⊢
        rwa [others_insert hcalls j hjk] at hj
      exact hjk (he.distinct j k id (.inr hj') hown)
  cases a with
  | drop k =>
    simp only [keepsPending] at hno
    cases hw : s.waiting k with
    | none => simp [hw] at hno
    | some id =>
      simp only [hw, decide_eq_false_iff_not, not_not] at hno
      simp only [step] at hs
      cases hk : s.calls[k]? with
      | none => simp [hk] at hs
      | some t =>
        cases t with
        | running request pc =>
          simp only [hk, Option.some.injEq] at hs
          subst hs
          exact hlost k id (.dropped request) (.inr hw) rfl rfl hno
        | returned request outcome => simp [hk] at hs
        | dropped request => simp [hk] at hs
  | advance k =>
    simp only [keepsPending] at hno
    cases hk : s.calls[k]? with
    | none => simp [hk] at hno
    | some t =>
      cases t with
      | returned request outcome => simp [hk] at hno
      | dropped request => simp [hk] at hno
      | running request pc =>
        cases pc with
        | insert id =>
          simp only [hk, encodes] at hno
          cases hh : s.host with
          | plugin => simp [hh] at hno
          | adapter =>
            cases henc : request.encoded with
            | ok _ => simp [hh, henc] at hno
            | error message =>
              simp only [hh, henc, decide_eq_false_iff_not] at hno
              simp only [step, hk, Sys.callStep, Option.some.injEq, if_neg hno, hh, henc] at hs
              subst hs
              exact hlost k id (.returned request (.error (.invalid message)))
                (.inl (entering_running hk)) rfl rfl (mem_set_insert.mpr (.inl rfl))
        | send id | unsend id | wait id | abandon id | ignore id | cancel id | cancelSend id
        | cancelUndo id | drain r => simp [hk] at hno
  | start k request | refuse k | receive frame | read | fail message | drain | setPid pid =>
    simp [keepsPending] at hno

/-- Where every entry is that of a call which waits, a call is refused only when 1024 calls do. -/
theorem not_refused {s : Sys} (hlive : s.PendingLive) (hlt : s.waitingCalls.length < maxPendingCalls)
    {k : CallId} {request : Request} {id : Nat}
    (hk : s.calls[k]? = some (.running request (.insert id))) :
    ∃ s', step s (.advance k) = some s' ∧
      s'.calls[k]? ≠ some (.returned request (.error .pendingLimit)) := by
  have hsize := pending_size_le hlive
  have hroom : ¬ maxPendingCalls ≤ s.pending.size := by omega
  refine ⟨_, by simp only [step, hk, Sys.callStep]; rfl, ?_⟩
  rw [if_neg hroom]
  split
  · simp [Sys.ret]
  · simp [Sys.goto]

/-- In every state of a run in which no step leaves an entry behind, the entries are those of calls
    that wait, and no call is refused while fewer than 1024 calls wait. -/
theorem pending_of_keepsPending {host : Host} {as : List Action} {s : Sys}
    (hrun : run (Sys.spawn host) as = some s)
    (hok : Machine.Meets step (fun s a => keepsPending s a = true) (Sys.spawn host) as) :
    s.PendingLive ∧ s.pending.size ≤ s.waitingCalls.length ∧
      (s.waitingCalls.length < maxPendingCalls → ∀ k request id,
        s.calls[k]? = some (.running request (.insert id)) → ∃ s', step s (.advance k) = some s' ∧
          s'.calls[k]? ≠ some (.returned request (.error .pendingLimit))) := by
  have hinv : Entries s ∧ s.PendingLive := by
    refine Machine.run_inv_of_meets (P := fun s => Entries s ∧ s.PendingLive) ?_
      ⟨entries_spawn host, ?_⟩ hok hrun
    · rintro t a t' ⟨he, hlive⟩ hk hs
      obtain ⟨k, hm, hkeep⟩ := moves_step hs
      exact ⟨entries_moves he hm, pendingLive_moves hlive hm (hkeep he hk)⟩
    · simp [Sys.PendingLive, Sys.spawn]
  exact ⟨hinv.2, pending_size_le hinv.2, fun hlt k request id hk => not_refused hinv.2 hlt hk⟩

theorem pending_of_keepsPending_overdue :
    ∃ s, run (Sys.spawn .adapter) (overdue ++ [.start 1 health, .advance 1, .start 2 health]) =
        some s ∧ s.pending.size = 2 ∧ s.waitingCalls = [1, 2] ∧ s.PendingLive ∧
      ∃ s', step s (.advance 2) = some s' ∧
        s'.calls[2]? ≠ some (.returned health (.error .pendingLimit)) := by
  have hrun : run (Sys.spawn .adapter) (overdue ++ [.start 1 health, .advance 1, .start 2 health]) =
      some ((run (Sys.spawn .adapter)
        (overdue ++ [.start 1 health, .advance 1, .start 2 health])).get (by decide)) :=
    (Option.some_get _).symm
  have h := pending_of_keepsPending hrun (Machine.meets_of_allows (by decide))
  exact ⟨_, hrun, by decide, by decide, h.1, h.2.2 (by decide) 2 health 3 rfl⟩

/-- A request that does not encode. -/
def unencodable : Request := ⟨"health", .error "key must be a string", .ok⟩

/-- A dropped call leaves its entry on both hosts, and so does a request of the adapter host that
    does not encode. -/
theorem not_pendingLive_of_dropped :
    (∃ s, run (Sys.spawn .plugin) [.start 0 health, .advance 0, .advance 0, .drop 0] = some s ∧
      ¬ s.PendingLive) ∧
    (∃ s, run (Sys.spawn .adapter) [.start 0 health, .advance 0, .advance 0, .drop 0] = some s ∧
      ¬ s.PendingLive) ∧
    ∃ s, run (Sys.spawn .adapter) [.start 0 unencodable, .advance 0] = some s ∧ ¬ s.PendingLive :=
  ⟨⟨_, rfl, fun h => absurd (pending_size_le h) (by decide)⟩,
    ⟨_, rfl, fun h => absurd (pending_size_le h) (by decide)⟩,
    _, rfl, fun h => absurd (pending_size_le h) (by decide)⟩

/-! ## Entries left behind add up -/

/-- Calls `0 .. n - 1`, each dropped by its caller before its request is sent. -/
def dropCalls : Nat → List Action
  | 0 => []
  | n + 1 => dropCalls n ++ [.start n health, .advance n, .drop n]

/-- `n` dropped calls and the entries they have left. -/
structure Dropped (host : Host) (n : Nat) (s : Sys) : Prop where
  host : s.host = host
  nextId : s.nextId = n
  size : s.pending.size = n
  bounded : ∀ id ∈ s.pending, id ≤ n
  calls : ∀ k, s.calls[k]? = if k < n then some (.dropped health) else none

theorem dropped_succ {host : Host} {n : Nat} {s : Sys} (h : Dropped host n s)
    (hn : n < maxPendingCalls) :
    ∃ s', run s [.start n health, .advance n, .drop n] = some s' ∧ Dropped host (n + 1) s' := by
  have hnot : n ∉ s.calls := by
    rw [← Std.ExtTreeMap.isSome_getElem?_iff_mem, h.calls n, if_neg (Nat.lt_irrefl n)]
    simp
  have hid : n + 1 ∉ s.pending := fun hm => by
    have := h.bounded _ hm
    omega
  have hroom : ¬ maxPendingCalls ≤ s.pending.size := by
    rw [h.size]
    omega
  have hsize : (s.pending.insert (n + 1)).size = n + 1 := by
    rw [Std.ExtTreeSet.size_insert, if_neg (by simpa using hid), h.size]
  have hbounded : ∀ id ∈ s.pending.insert (n + 1), id ≤ n + 1 := by
    intro id hm
    obtain rfl | hm := mem_set_insert.mp hm
    · exact Nat.le_refl _
    · exact Nat.le_succ_of_le (h.bounded id hm)
  let s₁ : Sys := { s with nextId := n + 1 }.goto n health (.insert (n + 1))
  let s₂ : Sys := { s₁ with pending := s.pending.insert (n + 1) }.goto n health (.send (n + 1))
  have h₁ : step s (.start n health) = some s₁ := by
    simp only [step, if_neg hnot, Sys.start, h.nextId, s₁]
    cases s.host <;> rfl
  have h₂ : step s₁ (.advance n) = some s₂ := by
    have hget : s₁.calls[n]? = some (.running health (.insert (n + 1))) := by
      simp [s₁, Sys.goto]
    have hroom₁ : ¬ maxPendingCalls ≤ s₁.pending.size := hroom
    simp only [step, hget, Sys.callStep, if_neg hroom₁, Option.some.injEq]
    split
    · rename_i henc
      cases henc
    · rfl
  have hget : s₂.calls[n]? = some (.running health (.send (n + 1))) := by
    simp [s₂, Sys.goto]
  refine ⟨{ s₂ with calls := s₂.calls.insert n (.dropped health) }, ?_, h.host, rfl, hsize, hbounded, ?_⟩
  · have h₃ : step s₂ (.drop n) =
        some { s₂ with calls := s₂.calls.insert n (.dropped health) } := by
      simp only [step, hget]
    exact Machine.run_cons_eq_some.mpr ⟨s₁, h₁, Machine.run_cons_eq_some.mpr ⟨s₂, h₂,
      Machine.run_cons_eq_some.mpr ⟨_, h₃, rfl⟩⟩⟩
  · intro k
    have hk := h.calls k
    simp only [s₂, s₁, Sys.goto, getElem?_calls_insert, hk]
    by_cases hkn : n = k
    · subst hkn
      simp
    · by_cases hlt : k < n
      · simp [hkn, hlt, Nat.lt_succ_of_lt hlt]
      · have : ¬ k < n + 1 := by omega
        simp [hkn, hlt, this]

theorem dropped_run (host : Host) (n : Nat) (hn : n ≤ maxPendingCalls) :
    ∃ s, run (Sys.spawn host) (dropCalls n) = some s ∧ Dropped host n s := by
  induction n with
  | zero => exact ⟨_, rfl, rfl, rfl, rfl, by simp [Sys.spawn], by simp [Sys.spawn]⟩
  | succ n ih =>
    obtain ⟨s, hrun, hs⟩ := ih (Nat.le_of_succ_le hn)
    obtain ⟨s', hrun', hs'⟩ := dropped_succ hs hn
    exact ⟨s', Machine.run_append_eq_some.mpr ⟨s, hrun, hrun'⟩, hs'⟩

/-- After 1024 dropped calls the session refuses every call, although no call is running. -/
theorem refused_after_dropped_calls (host : Host) :
    ∃ s, run (Sys.spawn host) (dropCalls maxPendingCalls) = some s ∧
      (∀ (k : CallId) request pc, s.calls[k]? ≠ some (.running request pc)) ∧
      ∃ s', run s [.start maxPendingCalls health, .advance maxPendingCalls] = some s' ∧
        s'.calls[maxPendingCalls]? = some (.returned health (.error .pendingLimit)) := by
  obtain ⟨s, hrun, hs⟩ := dropped_run host maxPendingCalls (Nat.le_refl _)
  refine ⟨s, hrun, ?_, ?_⟩
  · intro k request pc hk
    rw [hs.calls k] at hk
    by_cases hlt : k < maxPendingCalls
    · rw [if_pos hlt] at hk
      cases hk
    · rw [if_neg hlt] at hk
      cases hk
  · have hnot : maxPendingCalls ∉ s.calls := by
      rw [← Std.ExtTreeMap.isSome_getElem?_iff_mem, hs.calls, if_neg (Nat.lt_irrefl _)]
      simp
    let s₁ : Sys := { s with nextId := s.nextId + 1 }.goto maxPendingCalls health (.insert (s.nextId + 1))
    have h₁ : step s (.start maxPendingCalls health) = some s₁ := by
      simp only [step, if_neg hnot, Sys.start, s₁]
      cases s.host <;> rfl
    have hget : s₁.calls[maxPendingCalls]? = some (.running health (.insert (s.nextId + 1))) := by
      simp [s₁, Sys.goto]
    have hfull : maxPendingCalls ≤ s₁.pending.size := Nat.le_of_eq hs.size.symm
    have h₂ : step s₁ (.advance maxPendingCalls) =
        some (s₁.ret maxPendingCalls health (.error .pendingLimit)) := by
      simp only [step, hget, Sys.callStep, if_pos hfull]
    refine ⟨_, Machine.run_cons_eq_some.mpr ⟨s₁, h₁, Machine.run_cons_eq_some.mpr ⟨_, h₂, rfl⟩⟩, ?_⟩
    simp [Sys.ret]

end Oikade.Session
