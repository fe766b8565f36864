/-
  What a step of a session does to its calls, with or without a failure: `Stepped` is what a step of
  a call can do, `Others` what every other step can do. A call that returns a body returns that of
  the response its receiver was sent (`After.returned`).
-/
import Oikade.Session.Known

namespace Oikade.Session

/-! ## What a step does to the calls -/

/-- The identifier of a request that a call is about to send. -/
def Thread.unsent : Thread → Option Nat
  | .running _ (.insert id) | .running _ (.send id) => some id
  | _ => none

/-- The identifier of the request whose response a call awaits. -/
def Thread.awaits : Thread → Option Nat
  | .running _ (.wait id) => some id
  | _ => none

/-- A call in `fail` does not return a body afterwards. -/
def Thread.Sound (t : Thread) : Prop :=
  ∀ request body, t ≠ .running request (.drain (.ret (.ok body)))

/-- `call` returns `body` for the response `e`. -/
def Accepts (request : Request) (e : Envelope) (body : String) : Prop :=
  e.method = request.method ∧ e.error = none ∧
    ∃ text, e.body = some text ∧ request.decode text = .ok body

/-- A call that was at `t` before a step is at `t'` after it. -/
structure After (s s' : Sys) (t : Option Thread) (t' : Thread) : Prop where
  unsent : ∀ id, t'.unsent = some id →
    t.bind Thread.unsent = some id ∨ (t = none ∧ s.nextId < id ∧ id ≤ s'.nextId)
  awaits : ∀ id, t'.awaits = some id → ∃ request, t = some (.running request (.send id))
  returned : ∀ request body, t' = .returned request (.ok body) →
    ∃ id e, t = some (.running request (.wait id)) ∧ s.slots id = some (.ok e) ∧
      Accepts request e body
  sound : t'.Sound

/-- What a step leaves as it is, or makes only more of. -/
structure Kept (s s' : Sys) : Prop where
  nextId : s.nextId ≤ s'.nextId
  slots : ∀ id e, s'.slots id = some (.ok e) → s.slots id = some (.ok e)
  hello : s.hello = true → s'.hello = true
  failure : s.failure.isSome = true → s'.failure.isSome = true

/-- A step of call `k`. -/
structure Stepped (s : Sys) (k : CallId) (s' : Sys) : Prop extends Kept s s' where
  reader : s'.reader = s.reader
  thread : ∃ t', s'.calls = s.calls.insert k t' ∧ After s s' s.calls[k]? t'

/-- A step of something else, which leaves the calls alone. -/
structure Others (s s' : Sys) : Prop extends Kept s s' where
  calls : s'.calls = s.calls

/-! ## Steps of a call -/

section Call

variable {s s₁ s' : Sys} {k : CallId} {request : Request} {pc : Pc}

/-- The end of a step of a call that sends nothing, awaits nothing and returns no body. -/
structure Quits (s : Sys) (k : CallId) (s' : Sys) : Prop extends Kept s s' where
  reader : s'.reader = s.reader
  thread : ∃ t', s'.calls = s.calls.insert k t' ∧ t'.unsent = none ∧ t'.awaits = none ∧
    (∀ request body, t' ≠ .returned request (.ok body)) ∧ t'.Sound

theorem kept_refl (s : Sys) : Kept s s := ⟨Nat.le_refl _, fun _ _ h => h, fun h => h, fun h => h⟩

theorem quits_error (s : Sys) (k : CallId) (request : Request) (e : SessionError) :
    Quits s k (s.ret k request (.error e)) where
  toKept := ⟨Nat.le_refl _, fun _ _ h => h, fun h => h, fun h => h⟩
  reader := rfl
  thread := ⟨_, rfl, rfl, rfl, by simp, by simp [Thread.Sound]⟩

theorem quits_abandoned (s : Sys) (k : CallId) (request : Request) :
    Quits s k (s.abandoned k request) := by
  unfold Sys.abandoned
  cases s.host with
  | plugin =>
    exact ⟨⟨Nat.le_succ _, fun _ _ h => h, fun h => h, fun h => h⟩, rfl, _, rfl, rfl, rfl, by simp,
      by simp [Thread.Sound]⟩
  | adapter => exact quits_error s k request _

/-- `fail` in a call, which then gives up. -/
theorem quits_failCall (s : Sys) (k : CallId) (request : Request) (f : Failure) {r : Resume}
    (hr : ∀ body, r ≠ .ret (.ok body)) : Quits s k (s.failCall k request f r) := by
  unfold Sys.failCall Sys.fail
  cases hf : s.failure with
  | some f' =>
    cases r with
    | abandoned => exact quits_abandoned s k request
    | ret outcome =>
      cases outcome with
      | error e => exact quits_error s k request e
      | ok body => exact absurd rfl (hr body)
  | none =>
    refine ⟨⟨Nat.le_refl _, fun _ _ h => h, fun h => h, fun _ => rfl⟩, rfl, _, rfl, rfl, rfl, by simp, ?_⟩
    intro request' body h
    simp only [Thread.running.injEq, Pc.drain.injEq] at h
    exact hr body h.2

theorem stepped_of_quits (h : Quits s₁ k s') (hkept : Kept s s₁) (hreader : s₁.reader = s.reader)
    (hcalls : s₁.calls = s.calls) : Stepped s k s' := by
  obtain ⟨t', hcalls', hunsent, hawaits, hret, hsound⟩ := h.thread
  refine ⟨⟨Nat.le_trans hkept.nextId h.nextId, fun id e he => hkept.slots id e (h.slots id e he),
    fun hh => h.hello (hkept.hello hh), fun hf => h.failure (hkept.failure hf)⟩, h.reader.trans hreader, t',
    by rw [hcalls', hcalls], ?_, ?_, ?_, hsound⟩
  · intro id hid
    rw [hunsent] at hid
    cases hid
  · intro id hid
    rw [hawaits] at hid
    cases hid
  · intro request body hb
    exact absurd hb (hret request body)

/-- A call goes on to another await point. -/
theorem stepped_goto {pc' : Pc} (hkept : Kept s s₁) (hreader : s₁.reader = s.reader)
    (hcalls : s₁.calls = s.calls)
    (hunsent : ∀ id, (Thread.running request pc').unsent = some id →
      s.calls[k]?.bind Thread.unsent = some id)
    (hawaits : ∀ id, (Thread.running request pc').awaits = some id →
      ∃ request, s.calls[k]? = some (.running request (.send id)))
    (hsound : (Thread.running request pc').Sound) : Stepped s k (s₁.goto k request pc') where
  toKept := ⟨hkept.nextId, hkept.slots, hkept.hello, hkept.failure⟩
  reader := hreader
  thread := ⟨_, by rw [← hcalls]; rfl, fun id hid => .inl (hunsent id hid), hawaits, by simp, hsound⟩

theorem kept_drain (s : Sys) (f : Failure) : Kept s (s.drain f) where
  nextId := Nat.le_refl _
  slots id e h := by
    simp only [Sys.drain] at h
    by_cases hid : id ∈ s.pending
    · simp [hid] at h
    · rwa [if_neg hid] at h
  hello h := h
  failure h := h

/-- `call` with its response. -/
theorem stepped_respond {id : Nat} {e : Envelope} (hk : s.calls[k]? = some (.running request (.wait id)))
    (hslot : s.slots id = some (.ok e)) : Stepped s k (s.respond k request e) := by
  unfold Sys.respond
  by_cases hm : e.method ≠ request.method
  · rw [if_pos hm]
    exact stepped_of_quits (quits_failCall s k request _ (by simp)) (kept_refl s) rfl rfl
  · rw [if_neg hm]
    cases he : e.error with
    | some error => exact stepped_of_quits (quits_error s k request _) (kept_refl s) rfl rfl
    | none =>
      cases hb : e.body with
      | none => exact stepped_of_quits (quits_error s k request _) (kept_refl s) rfl rfl
      | some text =>
        cases hd : request.decode text with
        | error message =>
          simp only [hd, Except.mapError]
          exact stepped_of_quits (quits_error s k request _) (kept_refl s) rfl rfl
        | ok body =>
          simp only [hd, Except.mapError]
          refine ⟨⟨Nat.le_refl _, fun _ _ h => h, fun h => h, fun h => h⟩, rfl, _, rfl, ?_, ?_, ?_, ?_⟩
          · intro id' h
            cases h
          · intro id' h
            cases h
          · intro request' body' h
            simp only [Thread.returned.injEq, Except.ok.injEq] at h
            obtain ⟨rfl, rfl⟩ := h
            exact ⟨id, e, hk, hslot, not_not.mp hm, he, text, hb, hd⟩
          · simp [Thread.Sound]

theorem stepped_call {refuse : Bool} (hk : s.calls[k]? = some (.running request pc))
    (hsound : (Thread.running request pc).Sound)
    (hs : s.callStep k request refuse pc = some s') : Stepped s k s' := by
  cases pc with
  | insert id =>
    simp only [Sys.callStep, Option.some.injEq] at hs
    subst hs
    by_cases hlim : maxPendingCalls ≤ s.pending.size
    · rw [if_pos hlim]
      exact stepped_of_quits (quits_error s k request _) (kept_refl s) rfl rfl
    · rw [if_neg hlim]
      have hkept : Kept s { s with pending := s.pending.insert id } :=
        ⟨Nat.le_refl _, fun _ _ h => h, fun h => h, fun h => h⟩
      have hgoto : Stepped s k ({ s with pending := s.pending.insert id }.goto k request (.send id)) :=
        stepped_goto hkept rfl rfl (fun id' h => by rw [hk]; exact h) (fun id' h => by cases h)
          (by simp [Thread.Sound])
      cases hh : s.host with
      | plugin => simpa only [hh] using hgoto
      | adapter =>
        cases he : request.encoded with
        | ok _ => simpa only [hh, he] using hgoto
        | error message =>
          exact stepped_of_quits (quits_error _ k request _)
            ⟨Nat.le_refl _, fun _ _ h => h, fun h => h, fun h => h⟩ rfl rfl
  | send id =>
    simp only [Sys.callStep, Option.some.injEq] at hs
    subst hs
    cases refuse with
    | true =>
      exact stepped_goto (kept_refl s) rfl rfl (fun id' h => by cases h) (fun id' h => by cases h)
        (by simp [Thread.Sound])
    | false =>
      refine stepped_goto ⟨Nat.le_refl _, fun _ _ h => h, fun h => h, fun h => h⟩ rfl rfl
        (fun id' h => by cases h) (fun id' h => ?_) (by simp [Thread.Sound])
      simp only [Thread.awaits, Option.some.injEq] at h
      subst h
      exact ⟨request, hk⟩
  | unsend id =>
    simp only [Sys.callStep, Option.some.injEq] at hs
    subst hs
    exact stepped_of_quits (quits_error _ k request _) ⟨Nat.le_refl _, fun _ _ h => h, fun h => h, fun h => h⟩
      rfl rfl
  | wait id =>
    simp only [Sys.callStep] at hs
    cases hslot : s.slots id with
    | none =>
      cases refuse with
      | false => simp [hslot] at hs
      | true =>
        simp only [hslot, if_true, Option.some.injEq] at hs
        subst hs
        exact stepped_goto (kept_refl s) rfl rfl (fun id' h => by cases h) (fun id' h => by cases h)
          (by simp [Thread.Sound])
    | some result =>
      cases refuse with
      | true => cases result <;> simp [hslot] at hs
      | false =>
        cases result with
        | ok e =>
          simp only [hslot, Bool.false_eq_true, if_false, Option.some.injEq] at hs
          subst hs
          exact stepped_respond hk hslot
        | error f =>
          simp only [hslot, Bool.false_eq_true, if_false, Option.some.injEq] at hs
          subst hs
          exact stepped_of_quits (quits_error s k request _) (kept_refl s) rfl rfl
  | abandon id =>
    simp only [Sys.callStep, Option.some.injEq] at hs
    subst hs
    by_cases hid : id ∈ s.pending
    · rw [if_pos hid]
      exact stepped_goto ⟨Nat.le_refl _, fun _ _ h => h, fun h => h, fun h => h⟩ rfl rfl
        (fun id' h => by cases h) (fun id' h => by cases h) (by simp [Thread.Sound])
    · rw [if_neg hid]
      exact stepped_of_quits (quits_abandoned s k request) (kept_refl s) rfl rfl
  | ignore id =>
    simp only [Sys.callStep, Option.some.injEq] at hs
    subst hs
    by_cases hlim : maxIgnoredResponses ≤ s.ignored.size
    · rw [if_pos hlim]
      exact stepped_of_quits (quits_failCall s k request _ (by simp)) (kept_refl s) rfl rfl
    · rw [if_neg hlim]
      exact stepped_of_quits (quits_abandoned _ k request)
        ⟨Nat.le_refl _, fun _ _ h => h, fun h => h, fun h => h⟩ rfl rfl
  | cancel id =>
    simp only [Sys.callStep, Option.some.injEq] at hs
    subst hs
    by_cases hlim : maxIgnoredResponses ≤ s.ignored.size
    · rw [if_pos hlim]
      exact stepped_of_quits (quits_failCall s k request _ (by simp)) (kept_refl s) rfl rfl
    · rw [if_neg hlim]
      exact stepped_goto ⟨Nat.le_refl _, fun _ _ h => h, fun h => h, fun h => h⟩ rfl rfl
        (fun id' h => by cases h) (fun id' h => by cases h) (by simp [Thread.Sound])
  | cancelSend id =>
    simp only [Sys.callStep, Option.some.injEq] at hs
    subst hs
    cases refuse with
    | true =>
      exact stepped_goto (kept_refl s) rfl rfl (fun id' h => by cases h) (fun id' h => by cases h)
        (by simp [Thread.Sound])
    | false =>
      exact stepped_of_quits (quits_error _ k request _)
        ⟨Nat.le_refl _, fun _ _ h => h, fun h => h, fun h => h⟩ rfl rfl
  | cancelUndo id =>
    simp only [Sys.callStep, Option.some.injEq] at hs
    subst hs
    exact stepped_of_quits (quits_error _ k request _) ⟨Nat.le_refl _, fun _ _ h => h, fun h => h, fun h => h⟩
      rfl rfl
  | drain r =>
    simp only [Sys.callStep, Option.map_eq_some_iff] at hs
    obtain ⟨f, hf, rfl⟩ := hs
    cases r with
    | abandoned => exact stepped_of_quits (quits_abandoned _ k request) (kept_drain s f) rfl rfl
    | ret outcome =>
      cases outcome with
      | error e => exact stepped_of_quits (quits_error _ k request e) (kept_drain s f) rfl rfl
      | ok body => exact absurd rfl (hsound request body)

theorem stepped_start (hk : k ∉ s.calls) : Stepped s k (s.start k request) := by
  have hnone : s.calls[k]? = none := Std.ExtTreeMap.getElem?_eq_none hk
  have hnew : Stepped s k
      ({ s with nextId := s.nextId + 1 }.goto k request (.insert (s.nextId + 1))) := by
    refine ⟨⟨Nat.le_succ _, fun _ _ h => h, fun h => h, fun h => h⟩, rfl, _, rfl, ?_, ?_, by simp,
      by simp [Thread.Sound]⟩
    · intro id h
      simp only [Thread.unsent, Option.some.injEq] at h
      subst h
      exact .inr ⟨hnone, Nat.lt_succ_self _, Nat.le_refl _⟩
    · intro id h
      cases h
  unfold Sys.start
  split
  · exact stepped_of_quits (quits_error s k request _) (kept_refl s) rfl rfl
  · exact hnew

theorem stepped_drop (s : Sys) (k : CallId) (request : Request) :
    Stepped s k { s with calls := s.calls.insert k (.dropped request) } where
  toKept := ⟨Nat.le_refl _, fun _ _ h => h, fun h => h, fun h => h⟩
  reader := rfl
  thread := ⟨_, rfl, by simp [Thread.unsent], by simp [Thread.awaits], by simp, by simp [Thread.Sound]⟩

end Call

/-! ## The other steps -/

section Other

variable {s s' : Sys}

theorem others_fail (s : Sys) (f : Failure) : Others s (s.fail f).1 := by
  unfold Sys.fail
  cases hf : s.failure with
  | some f' => exact ⟨kept_refl s, rfl⟩
  | none => exact ⟨⟨Nat.le_refl _, fun _ _ h => h, fun h => h, fun _ => rfl⟩, rfl⟩

theorem isSome_fail (s : Sys) (f : Failure) : (s.fail f).1.failure.isSome = true := by
  unfold Sys.fail
  cases hf : s.failure with
  | some f' => simp [hf]
  | none => rfl

theorem failReader_eq (s : Sys) (f : Failure) :
    s.failReader f = { (s.fail f).1 with
      reader := if (s.fail f).2 then .draining else .stopped } := by
  unfold Sys.failReader
  obtain ⟨s', first⟩ := s.fail f
  cases first <;> rfl

theorem others_failReader (s : Sys) (f : Failure) : Others s (s.failReader f) := by
  rw [failReader_eq]
  obtain ⟨⟨h1, h2, h3, h4⟩, h5⟩ := others_fail s f
  exact ⟨⟨h1, h2, h3, h4⟩, h5⟩

theorem reader_failReader (s : Sys) (f : Failure) :
    (s.failReader f).reader = .draining ∨ (s.failReader f).reader = .stopped := by
  rw [failReader_eq]
  cases (s.fail f).2
  · exact .inr rfl
  · exact .inl rfl

theorem isSome_failReader (s : Sys) (f : Failure) : (s.failReader f).failure.isSome = true := by
  rw [failReader_eq]
  exact isSome_fail s f

/-- The steps that are not those of a call or of the read loop. -/
theorem others_step {a : Action} (ha : (∃ message, a = .fail message) ∨ a = .drain ∨ ∃ pid, a = .setPid pid)
    (hs : step s a = some s') : Others s s' ∧ s'.reader = s.reader := by
  rcases ha with ⟨message, rfl⟩ | rfl | ⟨pid, rfl⟩
  · simp only [step, Option.some.injEq, Sys.fail] at hs
    subst hs
    cases hf : s.failure with
    | some f => exact ⟨⟨kept_refl s, rfl⟩, rfl⟩
    | none => exact ⟨⟨⟨Nat.le_refl _, fun _ _ h => h, fun h => h, fun _ => rfl⟩, rfl⟩, rfl⟩
  · simp only [step] at hs
    cases hf : s.failure with
    | none => simp [hf] at hs
    | some f =>
      cases hn : s.failing with
      | zero => simp [hf, hn] at hs
      | succ n =>
        simp only [hf, hn, Option.some.injEq] at hs
        subst hs
        obtain ⟨h1, h2, h3, h4⟩ := kept_drain s f
        exact ⟨⟨⟨h1, h2, h3, h4⟩, rfl⟩, rfl⟩
  · simp only [step, Option.some.injEq] at hs
    subst hs
    exact ⟨⟨⟨Nat.le_refl _, fun _ _ h => h, fun h => h, fun h => h⟩, rfl⟩, rfl⟩

/-! ## The read loop -/

theorem step_receive (s : Sys) (frame : Frame) (hr : s.reader = .decoding) :
    step s (.receive frame) = s.receive frame := by
  simp only [step, hr]

/-- The frame `hello` is noted, or it is the second one. -/
theorem receive_hello
    (hs : s.receive (.notification ⟨.hello, some (.ok ()), true⟩) = some s') :
    s' = { s with hello := true } ∨ (s.hello = true ∧ ∃ f, s' = s.failReader f) := by
  simp only [Sys.receive, Option.some.injEq] at hs
  subst hs
  cases hh : s.hello with
  | false =>
    have hn : handleNotification s.host false ⟨.hello, some (.ok ()), true⟩ = .ok true := by
      cases s.host <;> rfl
    rw [hn]
    exact .inl rfl
  | true =>
    have hn : ∃ f, handleNotification s.host true ⟨.hello, some (.ok ()), true⟩ = .error f := by
      cases s.host <;> exact ⟨_, rfl⟩
    obtain ⟨f, hn⟩ := hn
    rw [hn]
    exact .inr ⟨rfl, f, rfl⟩

theorem receive_response {e : Envelope} (hhello : s.hello = true)
    (hs : s.receive (.response e) = some s') :
    s' = { s.observe (.response e.id) with reader := .ignored e } := by
  simp only [Sys.receive, Option.some.injEq] at hs
  subst hs
  split
  · rename_i hno
    rw [show (s.observe (.response e.id)).hello = true from hhello] at hno
    cases hno
  · rfl

theorem receive_request {id : Nat} {command : Bool}
    (hs : s.receive (.request id command) = some s') :
    (s.hello = true ∧ command = true ∧ s' = s) ∨
      (¬ (s.hello = true ∧ command = true) ∧ ∃ f, s' = s.failReader f) := by
  simp only [Sys.receive] at hs
  cases hhost : s.host with
  | plugin => simp [hhost] at hs
  | adapter =>
    simp only [hhost, Option.some.injEq] at hs
    subst hs
    by_cases hc : (s.hello && command) = true
    · rw [if_pos hc]
      rw [Bool.and_eq_true] at hc
      exact .inl ⟨hc.1, hc.2, rfl⟩
    · rw [if_neg hc]
      rw [Bool.and_eq_true] at hc
      exact .inr ⟨hc, _, rfl⟩

/-- What the read loop does at a mutex. -/
inductive Reads (s s' : Sys) : Prop where
  /-- the response is not ignored -/
  | passed (e : Envelope) (h : s.reader = .ignored e) (h' : s'.reader = .pending e) (ho : Others s s')
  | ignored (e : Envelope) (h : s.reader = .ignored e) (h' : s'.reader = .decoding) (ho : Others s s')
  | handed (e : Envelope) (h : s.reader = .pending e) (hid : e.id ∈ s.pending)
      (hs : s' = { s with
        pending := s.pending.erase e.id
        slots := Function.update s.slots e.id (some (.ok e))
        reader := .decoding })
  | unknown (e : Envelope) (h : s.reader = .pending e) (hid : e.id ∉ s.pending)
      (h' : s'.reader = .draining ∨ s'.reader = .stopped) (ho : Others s s')
      (hf : s'.failure.isSome = true)
  | drained (h : s.reader = .draining) (h' : s'.reader = .stopped) (ho : Others s s')

theorem reads_step (hs : step s .read = some s') : Reads s s' := by
  simp only [step, Sys.readStep] at hs
  cases hr : s.reader with
  | decoding => simp [hr] at hs
  | stopped => simp [hr] at hs
  | ignored e =>
    simp only [hr, Option.some.injEq] at hs
    subst hs
    by_cases hid : e.id ∈ s.ignored
    · rw [if_pos hid]
      exact .ignored e hr rfl ⟨⟨Nat.le_refl _, fun _ _ h => h, fun h => h, fun h => h⟩, rfl⟩
    · rw [if_neg hid]
      exact .passed e hr rfl ⟨⟨Nat.le_refl _, fun _ _ h => h, fun h => h, fun h => h⟩, rfl⟩
  | pending e =>
    simp only [hr, Option.some.injEq] at hs
    subst hs
    by_cases hid : e.id ∈ s.pending
    · rw [if_pos hid]
      exact .handed e hr hid rfl
    · rw [if_neg hid]
      obtain ⟨⟨h1, h2, h3, h4⟩, h5⟩ := others_failReader (s.observe (.unknown e.id)) (.unknownRequest e.id)
      exact .unknown e hr hid (reader_failReader _ _) ⟨⟨h1, h2, h3, h4⟩, h5⟩ (isSome_failReader _ _)
  | draining =>
    simp only [hr, Option.map_eq_some_iff] at hs
    obtain ⟨f, -, rfl⟩ := hs
    obtain ⟨h1, h2, h3, h4⟩ := kept_drain s f
    exact .drained hr rfl ⟨⟨h1, h2, h3, h4⟩, rfl⟩

/-- The action is one of call `k`. -/
def Action.OfCall (a : Action) (k : CallId) : Prop :=
  (∃ request, a = .start k request) ∨ a = .advance k ∨ a = .refuse k ∨ a = .drop k

theorem stepped_step {a : Action} {k : CallId} (ha : a.OfCall k)
    (hsound : ∀ t, s.calls[k]? = some t → t.Sound) (hs : step s a = some s') : Stepped s k s' := by
  obtain ⟨request, rfl⟩ | ha := ha
  · simp only [step] at hs
    by_cases hk : k ∈ s.calls
    · simp [hk] at hs
    · rw [if_neg hk, Option.some.injEq] at hs
      subst hs
      exact stepped_start hk
  cases hk : s.calls[k]? with
  | none => rcases ha with rfl | rfl | rfl <;> simp [step, hk] at hs
  | some t =>
    cases t with
    | returned request outcome => rcases ha with rfl | rfl | rfl <;> simp [step, hk] at hs
    | dropped request => rcases ha with rfl | rfl | rfl <;> simp [step, hk] at hs
    | running request pc =>
      rcases ha with rfl | rfl | rfl
      · simp only [step, hk] at hs
        exact stepped_call hk (hsound _ hk) hs
      · simp only [step, hk] at hs
        cases pc with
        | send id | wait id | cancelSend id => exact stepped_call hk (hsound _ hk) hs
        | insert id | unsend id | abandon id | ignore id | cancel id | cancelUndo id | drain r =>
          simp at hs
      · simp only [step, hk, Option.some.injEq] at hs
        subst hs
        exact stepped_drop s k request

theorem failure_receive {frame : Frame} (hs : s.receive frame = some s')
    (hf : s.failure.isSome = true) : s'.failure.isSome = true := by
  cases frame with
  | notification n =>
    simp only [Sys.receive, Option.some.injEq] at hs
    subst hs
    cases handleNotification s.host s.hello n with
    | ok hello => exact hf
    | error f => exact isSome_failReader s f
  | response e =>
    simp only [Sys.receive, Option.some.injEq] at hs
    subst hs
    split
    · exact isSome_failReader _ _
    · exact hf
  | request id command =>
    obtain ⟨-, -, rfl⟩ | ⟨-, f, rfl⟩ := receive_request hs
    · exact hf
    · exact isSome_failReader s f
  | closed =>
    simp only [Sys.receive, Option.some.injEq] at hs
    exact hs ▸ isSome_failReader s _
  | invalid message =>
    simp only [Sys.receive, Option.some.injEq] at hs
    exact hs ▸ isSome_failReader s _

/-- A session that has failed stays so. -/
theorem failure_step {a : Action} (hsound : ∀ (k : CallId) t, s.calls[k]? = some t → t.Sound)
    (hs : step s a = some s') (hf : s.failure.isSome = true) : s'.failure.isSome = true := by
  cases a with
  | start k request => exact (stepped_step (.inl ⟨request, rfl⟩) (hsound k) hs).failure hf
  | advance k => exact (stepped_step (.inr (.inl rfl)) (hsound k) hs).failure hf
  | refuse k => exact (stepped_step (.inr (.inr (.inl rfl))) (hsound k) hs).failure hf
  | drop k => exact (stepped_step (.inr (.inr (.inr rfl))) (hsound k) hs).failure hf
  | receive frame =>
    cases hr : s.reader with
    | decoding => exact failure_receive (step_receive s frame hr ▸ hs) hf
    | ignored e | pending e | draining | stopped => simp [step, hr] at hs
  | read =>
    cases reads_step hs with
    | passed e h h' ho => exact ho.failure hf
    | ignored e h h' ho => exact ho.failure hf
    | handed e h hid heq =>
      subst heq
      exact hf
    | unknown e h hid h' ho hf' => exact hf'
    | drained h h' ho => exact ho.failure hf
  | fail message => exact (others_step (.inl ⟨message, rfl⟩) hs).1.failure hf
  | drain => exact (others_step (.inr (.inl rfl)) hs).1.failure hf
  | setPid pid => exact (others_step (.inr (.inr ⟨pid, rfl⟩)) hs).1.failure hf

/-! ## Whose session it is -/

theorem host_fail (s : Sys) (f : Failure) : (s.fail f).1.host = s.host := by
  unfold Sys.fail
  split <;> rfl

theorem host_abandoned (s : Sys) (k : CallId) (request : Request) :
    (s.abandoned k request).host = s.host := by
  unfold Sys.abandoned
  split <;> rfl

theorem host_resume (s : Sys) (k : CallId) (request : Request) (r : Resume) :
    (s.resume k request r).host = s.host := by
  cases r with
  | abandoned => exact host_abandoned s k request
  | ret outcome => rfl

theorem host_failCall (s : Sys) (k : CallId) (request : Request) (f : Failure) (r : Resume) :
    (s.failCall k request f r).host = s.host := by
  have hf := host_fail s f
  unfold Sys.failCall
  split
  · rename_i s₁ heq
    rw [heq] at hf
    exact hf
  · rename_i s₁ heq
    rw [heq] at hf
    rw [host_resume, hf]

theorem host_failReader (s : Sys) (f : Failure) : (s.failReader f).host = s.host := by
  rw [failReader_eq]
  exact host_fail s f

theorem host_respond (s : Sys) (k : CallId) (request : Request) (e : Envelope) :
    (s.respond k request e).host = s.host := by
  unfold Sys.respond
  split
  · exact host_failCall s k request _ _
  · split <;> rfl

theorem host_callStep {k : CallId} {request : Request} {refuse : Bool} {pc : Pc}
    (hs : s.callStep k request refuse pc = some s') : s'.host = s.host := by
  cases pc with
  | insert id =>
    simp only [Sys.callStep, Option.some.injEq] at hs
    subst hs
    split
    · rfl
    · split <;> rfl
  | send id | cancelSend id =>
    simp only [Sys.callStep, Option.some.injEq] at hs
    subst hs
    split <;> rfl
  | unsend id | cancelUndo id =>
    simp only [Sys.callStep, Option.some.injEq] at hs
    subst hs
    rfl
  | wait id =>
    simp only [Sys.callStep] at hs
    cases hslot : s.slots id with
    | none =>
      cases refuse with
      | false => simp [hslot] at hs
      | true =>
        simp only [hslot, if_true, Option.some.injEq] at hs
        subst hs
        rfl
    | some result =>
      cases refuse with
      | true => cases result <;> simp [hslot] at hs
      | false =>
        cases result with
        | ok e =>
          simp only [hslot, Bool.false_eq_true, if_false, Option.some.injEq] at hs
          exact hs ▸ host_respond s k request e
        | error f =>
          simp only [hslot, Bool.false_eq_true, if_false, Option.some.injEq] at hs
          subst hs
          rfl
  | abandon id =>
    simp only [Sys.callStep, Option.some.injEq] at hs
    subst hs
    split
    · rfl
    · exact host_abandoned s k request
  | ignore id =>
    simp only [Sys.callStep, Option.some.injEq] at hs
    subst hs
    split
    · exact host_failCall s k request _ _
    · exact host_abandoned _ k request
  | cancel id =>
    simp only [Sys.callStep, Option.some.injEq] at hs
    subst hs
    split
    · exact host_failCall s k request _ _
    · rfl
  | drain r =>
    simp only [Sys.callStep, Option.map_eq_some_iff] at hs
    obtain ⟨f, -, rfl⟩ := hs
    exact host_resume _ k request r

theorem host_receive {frame : Frame} (hs : s.receive frame = some s') : s'.host = s.host := by
  cases frame with
  | notification n =>
    simp only [Sys.receive, Option.some.injEq] at hs
    subst hs
    split
    · rfl
    · exact host_failReader s _
  | response e =>
    simp only [Sys.receive, Option.some.injEq] at hs
    subst hs
    split
    · exact host_failReader _ _
    · rfl
  | request id command =>
    obtain ⟨-, -, rfl⟩ | ⟨-, f, rfl⟩ := receive_request hs
    · rfl
    · exact host_failReader s f
  | closed =>
    simp only [Sys.receive, Option.some.injEq] at hs
    exact hs ▸ host_failReader s _
  | invalid message =>
    simp only [Sys.receive, Option.some.injEq] at hs
    exact hs ▸ host_failReader s _

theorem host_read (hs : step s .read = some s') : s'.host = s.host := by
  simp only [step, Sys.readStep] at hs
  split at hs
  · cases hs
    split <;> rfl
  · cases hs
    split
    · rfl
    · exact host_failReader _ _
  · obtain ⟨f, -, rfl⟩ := Option.map_eq_some_iff.mp hs
    rfl
  · cases hs
  · cases hs

/-- A session stays one with an adapter, or one with a plugin. -/
theorem host_step {a : Action} (hs : step s a = some s') : s'.host = s.host := by
  cases a with
  | start k request =>
    simp only [step] at hs
    split at hs
    · cases hs
    · cases hs
      unfold Sys.start
      split <;> rfl
  | advance k =>
    simp only [step] at hs
    split at hs
    · exact host_callStep hs
    · cases hs
  | refuse k =>
    simp only [step] at hs
    split at hs
    · split at hs
      · exact host_callStep hs
      · exact host_callStep hs
      · exact host_callStep hs
      · cases hs
    · cases hs
  | drop k =>
    simp only [step] at hs
    split at hs
    · cases hs
      rfl
    · cases hs
  | receive frame =>
    cases hr : s.reader with
    | decoding => exact host_receive (step_receive s frame hr ▸ hs)
    | ignored e | pending e | draining | stopped => simp [step, hr] at hs
  | read => exact host_read hs
  | fail message =>
    have hf := host_fail s (.other message)
    simp only [step, Option.some.injEq] at hs
    subst hs
    split
    · rename_i s₁ heq
      rw [heq] at hf
      exact hf
    · rename_i s₁ heq
      rw [heq] at hf
      exact hf
  | drain =>
    simp only [step] at hs
    split at hs
    · cases hs
      rfl
    · cases hs
  | setPid pid =>
    cases hs
    rfl

theorem isSome_failure_fail {message : String} (hs : step s (.fail message) = some s') :
    s'.failure.isSome = true := by
  simp only [step, Option.some.injEq, Sys.fail] at hs
  subst hs
  cases hf : s.failure with
  | some f => simp [hf]
  | none => rfl

end Other

end Oikade.Session
