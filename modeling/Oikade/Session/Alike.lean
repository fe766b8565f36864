/-
  Two sessions that receive the same frames but for the message texts of error responses.

  `Sys.Alike low` relates their states: whatever a call has returned is the same, but for the
  message of a protocol error. The failure of the session is the same where `low` holds; otherwise
  it may have another text (the supervising instance puts the text of a protocol error into it).
  `alike_step`: steps keep them alike.
-/
import Oikade.Session.Model

namespace Oikade.Session

/-! ## The relation -/

/-- The same frame, or two error responses with the same code. -/
inductive Envelope.Alike : Envelope → Envelope → Prop
  | refl (e : Envelope) : Alike e e
  | error (id : Nat) (method : String) (body : Option String) (code message message' : String) :
    Alike ⟨id, method, body, some (code, message)⟩ ⟨id, method, body, some (code, message')⟩

inductive Frame.Alike : Frame → Frame → Prop
  | refl (f : Frame) : Alike f f
  | response {e e' : Envelope} (h : e.Alike e') : Alike (.response e) (.response e')

def Failure.Alike (low : Bool) (f g : Failure) : Prop := low = true → f = g

/-- What a call may have returned in the two sessions. -/
inductive OutcomeAlike (low : Bool) : Outcome → Outcome → Prop
  | refl (o : Outcome) : OutcomeAlike low o o
  | protocol (code message message' : String) :
    OutcomeAlike low (.error (.protocol code message)) (.error (.protocol code message'))
  | closed (f g : Failure) (h : low = false) :
    OutcomeAlike low (.error (.closed (some f))) (.error (.closed (some g)))

inductive SlotAlike (low : Bool) : Except Failure Envelope → Except Failure Envelope → Prop
  | ok {e e' : Envelope} (h : e.Alike e') : SlotAlike low (.ok e) (.ok e')
  | error {f g : Failure} (h : f.Alike low g) : SlotAlike low (.error f) (.error g)

inductive Thread.Alike (low : Bool) : Thread → Thread → Prop
  | refl (t : Thread) : Alike low t t
  | returned (request : Request) {o o' : Outcome} (h : OutcomeAlike low o o') :
    Alike low (.returned request o) (.returned request o')

inductive Reader.Alike : Reader → Reader → Prop
  | refl (r : Reader) : Alike r r
  | ignored {e e' : Envelope} (h : e.Alike e') : Alike (.ignored e) (.ignored e')
  | pending {e e' : Envelope} (h : e.Alike e') : Alike (.pending e) (.pending e')

structure Sys.Alike (low : Bool) (s t : Sys) : Prop where
  host : s.host = t.host
  pending : s.pending = t.pending
  ignored : s.ignored = t.ignored
  slots : ∀ id, Option.Rel (SlotAlike low) (s.slots id) (t.slots id)
  nextId : s.nextId = t.nextId
  hello : s.hello = t.hello
  failure : Option.Rel (Failure.Alike low) s.failure t.failure
  pid : s.pid = t.pid
  killed : s.killed = t.killed
  calls : ∀ k : CallId, Option.Rel (Thread.Alike low) s.calls[k]? t.calls[k]?
  reader : s.reader.Alike t.reader
  failing : s.failing = t.failing
  history : s.history = t.history

/-- The same action, but for the messages of error responses and, unless `low` holds, for the text
    with which another task fails the session. -/
inductive Action.Alike (low : Bool) : Action → Action → Prop
  | refl (a : Action) : Alike low a a
  | receive {f f' : Frame} (h : f.Alike f') : Alike low (.receive f) (.receive f')
  | fail (message message' : String) (h : low = false) : Alike low (.fail message) (.fail message')

variable {low : Bool} {s t : Sys} {k : CallId} {request : Request}

theorem Failure.Alike.refl (f : Failure) : f.Alike low f := fun _ => rfl

theorem Envelope.Alike.id_eq {e e' : Envelope} (h : e.Alike e') : e.id = e'.id := by
  cases h <;> rfl

theorem outcomeAlike_closed {f g : Option Failure} (h : Option.Rel (Failure.Alike low) f g) :
    OutcomeAlike low (.error (.closed f)) (.error (.closed g)) := by
  cases h with
  | none => exact .refl _
  | @some f g h =>
    cases low with
    | true =>
      rw [h rfl]
      exact .refl _
    | false => exact .closed f g rfl

theorem Sys.Alike.refl (s : Sys) : s.Alike low s where
  host := rfl
  pending := rfl
  ignored := rfl
  slots id := by
    cases s.slots id with
    | none => exact .none
    | some slot =>
      cases slot with
      | ok e => exact .some (.ok (.refl e))
      | error f => exact .some (.error (.refl f))
  nextId := rfl
  hello := rfl
  failure := by
    cases s.failure with
    | none => exact .none
    | some f => exact .some (.refl f)
  pid := rfl
  killed := rfl
  calls k := by
    cases s.calls[k]? with
    | none => exact .none
    | some t => exact .some (.refl t)
  reader := .refl _
  failing := rfl
  history := rfl

/-- What a call has returned. -/
def Sys.outcome (s : Sys) (k : CallId) : Option Outcome :=
  match s.calls[k]? with
  | some (.returned _ outcome) => some outcome
  | _ => none

theorem Sys.Alike.outcome (h : s.Alike low t) (k : CallId) :
    Option.Rel (OutcomeAlike low) (s.outcome k) (t.outcome k) := by
  unfold Sys.outcome
  have hk := h.calls k
  generalize s.calls[k]? = x at hk
  generalize t.calls[k]? = y at hk
  cases hk with
  | none => exact .none
  | @some thread _ hxy =>
    cases hxy with
    | returned request ho => exact .some ho
    | refl =>
      cases thread with
      | running request pc => exact .none
      | returned request outcome => exact .some (.refl outcome)
      | dropped request => exact .none

/-- Sessions with the same failure are alike where its text does not count. -/
theorem Sys.Alike.weaken (h : s.Alike true t) : s.Alike false t where
  __ := h
  failure := Machine.rel_imp (fun _ _ h _ => h rfl) h.failure
  slots id := by
    refine Machine.rel_imp (fun _ _ h => ?_) (h.slots id)
    cases h with
    | ok he => exact .ok he
    | error hfg => exact .error fun _ => hfg rfl
  calls k := by
    refine Machine.rel_imp (fun _ _ h => ?_) (h.calls k)
    cases h with
    | refl => exact .refl _
    | returned request ho =>
      refine .returned request ?_
      cases ho with
      | refl => exact .refl _
      | protocol => exact .protocol _ _ _
      | closed f g hlow => cases hlow

theorem Sys.Alike.failure_eq (h : s.Alike true t) : s.failure = t.failure := by
  have hf := h.failure
  generalize s.failure = x at hf
  generalize t.failure = y at hf
  cases hf with
  | none => rfl
  | some hfg => rw [hfg rfl]

theorem Sys.Alike.failure_isSome (h : s.Alike low t) : s.failure.isSome = t.failure.isSome := by
  have hf := h.failure
  generalize s.failure = x at hf
  generalize t.failure = y at hf
  cases hf <;> rfl

theorem Reader.Alike.stopped_iff {r r' : Reader} (h : r.Alike r') :
    r = .stopped ↔ r' = .stopped := by
  cases h with
  | refl => rfl
  | ignored _ => exact ⟨nofun, nofun⟩
  | pending _ => exact ⟨nofun, nofun⟩

/-! ## Steps -/

theorem Sys.Alike.insert (h : s.Alike low t) {x y : Thread} (hxy : x.Alike low y) :
    Sys.Alike low { s with calls := s.calls.insert k x } { t with calls := t.calls.insert k y } where
  __ := h
  calls j := by
    simp only [Std.ExtTreeMap.getElem?_insert]
    split
    · exact .some hxy
    · exact h.calls j

theorem Sys.Alike.goto (h : s.Alike low t) (pc : Pc) :
    (s.goto k request pc).Alike low (t.goto k request pc) := h.insert (.refl _)

theorem Sys.Alike.ret (h : s.Alike low t) {o o' : Outcome} (ho : OutcomeAlike low o o') :
    (s.ret k request o).Alike low (t.ret k request o') := h.insert (.returned request ho)

theorem Sys.Alike.setPending (h : s.Alike low t) (ids : Std.ExtTreeSet Nat) :
    Sys.Alike low { s with pending := ids } { t with pending := ids } where
  __ := h
  pending := rfl

theorem Sys.Alike.setIgnored (h : s.Alike low t) (ids : Std.ExtTreeSet Nat) :
    Sys.Alike low { s with ignored := ids } { t with ignored := ids } where
  __ := h
  ignored := rfl

theorem Sys.Alike.setReader (h : s.Alike low t) {r r' : Reader} (hr : r.Alike r') :
    Sys.Alike low { s with reader := r } { t with reader := r' } where
  __ := h
  reader := hr

theorem Sys.Alike.observe (h : s.Alike low t) (o : Obs) :
    (s.observe o).Alike low (t.observe o) where
  __ := h
  history := by
    show s.history ++ [o] = t.history ++ [o]
    rw [h.history]

theorem Sys.Alike.fail (h : s.Alike low t) {f g : Failure} (hfg : f.Alike low g) :
    (s.fail f).1.Alike low (t.fail g).1 ∧ (s.fail f).2 = (t.fail g).2 := by
  unfold Sys.fail
  have hfailure := h.failure
  generalize hs : s.failure = x at hfailure
  generalize ht : t.failure = y at hfailure
  cases hfailure with
  | none => exact ⟨{ h with failure := .some hfg }, rfl⟩
  | some hxy => exact ⟨h, rfl⟩

theorem Sys.Alike.drain (h : s.Alike low t) {f g : Failure} (hfg : f.Alike low g) :
    (s.drain f).Alike low (t.drain g) where
  __ := h
  pending := rfl
  slots id := by
    show Option.Rel (SlotAlike low) (if id ∈ s.pending then some (.error f) else s.slots id)
      (if id ∈ t.pending then some (.error g) else t.slots id)
    rw [h.pending]
    split
    · exact .some (.error hfg)
    · exact h.slots id
  killed := by
    show (s.killed || s.pid != 0) = (t.killed || t.pid != 0)
    rw [h.killed, h.pid]

theorem Sys.Alike.bumpId (h : s.Alike low t) :
    Sys.Alike low { s with nextId := s.nextId + 1 } { t with nextId := t.nextId + 1 } where
  __ := h
  nextId := by
    show s.nextId + 1 = t.nextId + 1
    rw [h.nextId]

theorem Sys.Alike.abandoned (h : s.Alike low t) :
    (s.abandoned k request).Alike low (t.abandoned k request) := by
  unfold Sys.abandoned
  rw [h.host, h.nextId]
  split
  · have hbump := h.bumpId
    rw [h.nextId, h.host] at hbump
    exact hbump.goto _
  · exact h.ret (.refl _)

theorem Sys.Alike.resume (h : s.Alike low t) (r : Resume) :
    (s.resume k request r).Alike low (t.resume k request r) := by
  cases r with
  | abandoned => exact h.abandoned
  | ret outcome => exact h.ret (.refl outcome)

theorem Sys.Alike.failCall (h : s.Alike low t) (f : Failure) (r : Resume) :
    (s.failCall k request f r).Alike low (t.failCall k request f r) := by
  obtain ⟨hfail, hfirst⟩ := h.fail (.refl f)
  unfold Sys.failCall
  generalize s.fail f = x at hfail hfirst
  generalize t.fail f = y at hfail hfirst
  obtain ⟨s', first⟩ := x
  obtain ⟨t', first'⟩ := y
  obtain rfl : first = first' := hfirst
  cases first with
  | true => exact hfail.goto _
  | false => exact hfail.resume r

theorem Sys.Alike.respond (h : s.Alike low t) {e e' : Envelope} (he : e.Alike e') :
    (s.respond k request e).Alike low (t.respond k request e') := by
  cases he with
  | refl =>
    unfold Sys.respond
    split
    · exact h.failCall _ _
    · split
      · exact h.ret (.refl _)
      · exact h.ret (.refl _)
      · exact h.ret (.refl _)
  | error id method body code message message' =>
    unfold Sys.respond
    split
    · exact h.failCall _ _
    · exact h.ret (.protocol _ _ _)

theorem Sys.Alike.callStep (h : s.Alike low t) (refuse : Bool) (pc : Pc) :
    Option.Rel (Sys.Alike low) (s.callStep k request refuse pc) (t.callStep k request refuse pc) := by
  cases pc with
  | insert id =>
    simp only [Sys.callStep, h.pending]
    split
    · exact .some (h.ret (.refl _))
    · have hp := h.setPending (t.pending.insert id)
      rw [h.host] at hp ⊢
      split
      · exact .some (hp.ret (.refl _))
      · exact .some (hp.goto _)
  | send id =>
    simp only [Sys.callStep]
    split
    · exact .some (h.goto _)
    · exact .some ((h.observe _).goto _)
  | unsend id =>
    simp only [Sys.callStep, h.pending]
    exact .some ((h.setPending _).ret (outcomeAlike_closed h.failure))
  | wait id =>
    simp only [Sys.callStep]
    have hslot := h.slots id
    generalize s.slots id = x at hslot
    generalize t.slots id = y at hslot
    cases hslot with
    | none =>
      cases refuse with
      | true => exact .some (h.goto _)
      | false => exact .none
    | some hxy =>
      cases refuse with
      | true => cases hxy <;> exact .none
      | false =>
        cases hxy with
        | ok he => exact .some (h.respond he)
        | error hfg => exact .some (h.ret (outcomeAlike_closed (.some hfg)))
  | abandon id =>
    simp only [Sys.callStep, h.pending]
    split
    · exact .some ((h.setPending _).goto _)
    · exact .some h.abandoned
  | ignore id =>
    simp only [Sys.callStep, h.ignored]
    split
    · exact .some (h.failCall _ _)
    · exact .some (h.setIgnored _).abandoned
  | cancel id =>
    simp only [Sys.callStep, h.ignored]
    split
    · exact .some (h.failCall _ _)
    · exact .some ((h.setIgnored _).goto _)
  | cancelSend id =>
    simp only [Sys.callStep]
    split
    · exact .some (h.goto _)
    · exact .some ((h.observe _).ret (.refl _))
  | cancelUndo id =>
    simp only [Sys.callStep, h.ignored]
    exact .some ((h.setIgnored _).ret (.refl _))
  | drain r =>
    simp only [Sys.callStep]
    have hfailure := h.failure
    generalize s.failure = x at hfailure
    generalize t.failure = y at hfailure
    cases hfailure with
    | none => exact .none
    | some hfg => exact .some ((h.drain hfg).resume r)

theorem Sys.Alike.start (h : s.Alike low t) :
    (s.start k request).Alike low (t.start k request) := by
  unfold Sys.start
  rw [h.host, h.nextId]
  have hbump := h.bumpId
  rw [h.nextId, h.host] at hbump
  split
  · exact h.ret (.refl _)
  · exact hbump.goto _

theorem Sys.Alike.failReader (h : s.Alike low t) (f : Failure) :
    (s.failReader f).Alike low (t.failReader f) := by
  obtain ⟨hfail, hfirst⟩ := h.fail (.refl f)
  unfold Sys.failReader
  generalize s.fail f = x at hfail hfirst
  generalize t.fail f = y at hfail hfirst
  obtain ⟨s', first⟩ := x
  obtain ⟨t', first'⟩ := y
  obtain rfl : first = first' := hfirst
  cases first with
  | true => exact hfail.setReader (.refl _)
  | false => exact hfail.setReader (.refl _)

theorem Sys.receive_response (s : Sys) (e : Envelope) :
    s.receive (.response e) = some
      (if s.host = .adapter ∧ s.hello = false then
        (s.observe (.response e.id)).failReader .unsupportedTraffic
      else { s.observe (.response e.id) with reader := .ignored e }) := by
  unfold Sys.receive Sys.observe
  cases s.host <;> cases s.hello <;> rfl

theorem Sys.Alike.receive_response (h : s.Alike low t) {e e' : Envelope} (he : e.Alike e') :
    Option.Rel (Sys.Alike low) (s.receive (.response e)) (t.receive (.response e')) := by
  have hc : (s.host = .adapter ∧ s.hello = false) ↔ (t.host = .adapter ∧ t.hello = false) := by
    rw [h.host, h.hello]
  rw [Sys.receive_response, Sys.receive_response, ← he.id_eq]
  by_cases ht : t.host = .adapter ∧ t.hello = false
  · rw [if_pos ht, if_pos (hc.mpr ht)]
    exact .some ((h.observe _).failReader _)
  · rw [if_neg ht, if_neg (mt hc.mp ht)]
    exact .some ((h.observe _).setReader (.ignored he))

theorem Sys.Alike.receive (h : s.Alike low t) {f f' : Frame} (hf : f.Alike f') :
    Option.Rel (Sys.Alike low) (s.receive f) (t.receive f') := by
  cases hf with
  | response he => exact h.receive_response he
  | refl =>
    cases f with
    | notification n =>
      have hn : handleNotification s.host s.hello n = handleNotification t.host t.hello n := by
        rw [h.host, h.hello]
      simp only [Sys.receive, hn]
      split
      · exact .some { h with hello := rfl }
      · exact .some (h.failReader _)
    | response e => exact h.receive_response (.refl e)
    | request id command =>
      simp only [Sys.receive]
      rw [h.host, h.hello]
      split
      · exact .none
      · split
        · exact .some h
        · exact .some (h.failReader _)
    | closed => exact .some (h.failReader _)
    | invalid message => exact .some (h.failReader _)

theorem Sys.Alike.readIgnored (h : s.Alike low t) {e e' : Envelope} (he : e.Alike e') :
    Sys.Alike low
      (if e.id ∈ s.ignored then { s with ignored := s.ignored.erase e.id, reader := .decoding }
        else { s with reader := .pending e })
      (if e'.id ∈ t.ignored then { t with ignored := t.ignored.erase e'.id, reader := .decoding }
        else { t with reader := .pending e' }) := by
  have hc : e.id ∈ s.ignored ↔ e'.id ∈ t.ignored := by rw [he.id_eq, h.ignored]
  have herase : s.ignored.erase e.id = t.ignored.erase e'.id := by rw [he.id_eq, h.ignored]
  by_cases ht : e'.id ∈ t.ignored
  · rw [if_pos ht, if_pos (hc.mpr ht)]
    exact { h with ignored := herase, reader := .refl _ }
  · rw [if_neg ht, if_neg (mt hc.mp ht)]
    exact h.setReader (.pending he)

theorem Sys.Alike.readPending (h : s.Alike low t) {e e' : Envelope} (he : e.Alike e') :
    Sys.Alike low
      (if e.id ∈ s.pending then
        { s with
          pending := s.pending.erase e.id
          slots := Function.update s.slots e.id (some (.ok e))
          reader := .decoding }
        else (s.observe (.unknown e.id)).failReader (.unknownRequest e.id))
      (if e'.id ∈ t.pending then
        { t with
          pending := t.pending.erase e'.id
          slots := Function.update t.slots e'.id (some (.ok e'))
          reader := .decoding }
        else (t.observe (.unknown e'.id)).failReader (.unknownRequest e'.id)) := by
  have hc : e.id ∈ s.pending ↔ e'.id ∈ t.pending := by rw [he.id_eq, h.pending]
  have herase : s.pending.erase e.id = t.pending.erase e'.id := by rw [he.id_eq, h.pending]
  by_cases ht : e'.id ∈ t.pending
  · rw [if_pos ht, if_pos (hc.mpr ht)]
    refine { h with pending := herase, reader := .refl _, slots := fun id => ?_ }
    simp only [Function.update_apply, he.id_eq]
    split
    · exact .some (.ok he)
    · exact h.slots id
  · rw [if_neg ht, if_neg (mt hc.mp ht), he.id_eq]
    exact (h.observe _).failReader _

theorem Sys.Alike.readStep (h : s.Alike low t) :
    Option.Rel (Sys.Alike low) s.readStep t.readStep := by
  unfold Sys.readStep
  have hr := h.reader
  generalize hx : s.reader = x at hr
  generalize hy : t.reader = y at hr
  cases hr with
  | ignored he => exact .some (h.readIgnored he)
  | pending he => exact .some (h.readPending he)
  | refl =>
    cases x with
    | decoding => exact .none
    | ignored e => exact .some (h.readIgnored (.refl e))
    | pending e => exact .some (h.readPending (.refl e))
    | draining =>
      have hfailure := h.failure
      generalize s.failure = f at hfailure
      generalize t.failure = g at hfailure
      cases hfailure with
      | none => exact .none
      | some hfg => exact .some ((h.drain hfg).setReader (.refl _))
    | stopped => exact .none

/-- Another task fails the session, with the same text or, where `low` does not hold, with any. -/
theorem Sys.Alike.failBy (h : s.Alike low t) {message message' : String}
    (hm : low = true → message = message') :
    Option.Rel (Sys.Alike low) (step s (.fail message)) (step t (.fail message')) := by
  have hfg : (Failure.other message).Alike low (.other message') := fun hl => by rw [hm hl]
  obtain ⟨hfail, hfirst⟩ := h.fail hfg
  simp only [step]
  generalize s.fail (.other message) = x at hfail hfirst
  generalize t.fail (.other message') = y at hfail hfirst
  obtain ⟨s', first⟩ := x
  obtain ⟨t', first'⟩ := y
  obtain rfl : first = first' := hfirst
  cases first with
  | true =>
    refine .some { hfail with failing := ?_ }
    show s'.failing + 1 = t'.failing + 1
    rw [hfail.failing]
  | false => exact .some hfail

theorem Sys.Alike.mem_calls (h : s.Alike low t) : k ∈ s.calls ↔ k ∈ t.calls := by
  rw [Std.ExtTreeMap.mem_iff_isSome_getElem?, Std.ExtTreeMap.mem_iff_isSome_getElem?]
  have hk := h.calls k
  generalize s.calls[k]? = x at hk
  generalize t.calls[k]? = y at hk
  cases hk <;> simp

/-- A step of a running call. -/
theorem Sys.Alike.atCall (h : s.Alike low t) {f g : Request → Pc → Option Sys}
    (hfg : ∀ request pc, Option.Rel (Sys.Alike low) (f request pc) (g request pc)) :
    Option.Rel (Sys.Alike low)
      (match s.calls[k]? with | some (.running request pc) => f request pc | _ => none)
      (match t.calls[k]? with | some (.running request pc) => g request pc | _ => none) := by
  have hk := h.calls k
  generalize s.calls[k]? = x at hk
  generalize t.calls[k]? = y at hk
  cases hk with
  | none => exact .none
  | @some thread _ hxy =>
    cases hxy with
    | returned request ho => exact .none
    | refl =>
      cases thread with
      | running request pc => exact hfg request pc
      | returned request outcome => exact .none
      | dropped request => exact .none

theorem Sys.Alike.receiveBy (h : s.Alike low t) {f f' : Frame} (hf : f.Alike f') :
    Option.Rel (Sys.Alike low) (step s (.receive f)) (step t (.receive f')) := by
  simp only [step]
  have hr := h.reader
  generalize s.reader = x at hr
  generalize t.reader = y at hr
  cases hr with
  | refl =>
    cases x with
    | decoding => exact h.receive hf
    | _ => exact .none
  | ignored _ => exact .none
  | pending _ => exact .none

/-- Alike sessions stay alike. -/
theorem alike_step (h : s.Alike low t) {a b : Action} (hab : a.Alike low b) :
    Option.Rel (Sys.Alike low) (step s a) (step t b) := by
  cases hab with
  | receive hf => exact h.receiveBy hf
  | fail message message' hlow => exact h.failBy fun hl => by rw [hlow] at hl; cases hl
  | refl =>
    cases a with
    | start k request =>
      simp only [step, h.mem_calls]
      split
      · exact .none
      · exact .some h.start
    | advance k => exact h.atCall fun request pc => h.callStep false pc
    | refuse k =>
      refine h.atCall fun request pc => ?_
      cases pc with
      | send id => exact h.callStep true _
      | wait id => exact h.callStep true _
      | cancelSend id => exact h.callStep true _
      | _ => exact .none
    | drop k => exact h.atCall fun request pc => .some (h.insert (.refl _))
    | receive f => exact h.receiveBy (.refl f)
    | read => exact h.readStep
    | fail message => exact h.failBy fun _ => rfl
    | drain =>
      simp only [step, h.failing]
      have hfailure := h.failure
      generalize s.failure = f at hfailure
      generalize t.failure = g at hfailure
      cases hfailure with
      | none => exact .none
      | some hfg =>
        cases t.failing with
        | zero => exact .none
        | succ n => exact .some { h.drain hfg with failing := rfl }
    | setPid pid => exact .some { h with pid := rfl }

end Oikade.Session
