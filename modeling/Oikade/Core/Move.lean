/-
  What a step of the runtime machine can do, said once.

  `Move sh call pc effect next` lists the ways a call runs from one await point to the next without
  an error, with everything the code has checked on the way; `move_iff` says that the list is
  exact. `Step s a s'` does the same for the steps of the machine. The invariants of the later
  modules are proved by cases on these two, never by unfolding `body` or `step`.
-/
import Oikade.Core.Step
import Oikade.Lib.Fallible

namespace Oikade.Core

open Fallible (bind_ok)

/-! ## The checks of the source -/

theorem ensureStarted_ok {s : RuntimeState} {u : Unit} :
    ensureStarted s = .ok u ↔ s.started = true := by
  unfold ensureStarted
  split <;> simp_all

theorem lookup_ok {s : RuntimeState} {d : DeviceId} {cid : CapabilityId} {r : RegisteredDevice}
    {c : Capability} :
    lookup s d cid = .ok (r, c) ↔
      s.started = true ∧ s.devices[d]? = some r ∧ r.capabilities[cid]? = some c := by
  unfold lookup
  simp only [bind_ok, ensureStarted_ok, exists_const]
  constructor
  · rintro ⟨hs, h⟩
    split at h
    · simp at h
    · rename_i r' hr
      split at h
      · simp at h
      · rename_i c' hc
        rw [Except.ok.injEq, Prod.mk.injEq] at h
        obtain ⟨rfl, rfl⟩ := h
        exact ⟨hs, hr, hc⟩
  · rintro ⟨hs, hr, hc⟩
    simp [hs, hr, hc]

/-- `r` is the registration of `d`. -/
def Registered (s : RuntimeState) (d : DeviceId) (r : RegisteredDevice) : Prop :=
  s.started = true ∧ ∃ r', s.devices[d]? = some r' ∧ r'.ref = r.ref

theorem confirmRegistration_ok {s : RuntimeState} {d : DeviceId} {r : RegisteredDevice}
    {u : Unit} : confirmRegistration s d r = .ok u ↔ Registered s d r := by
  unfold confirmRegistration Registered
  simp only [bind_ok, ensureStarted_ok, exists_const]
  cases hd : s.devices[d]? with
  | none => simp
  | some r' => by_cases hr : r'.ref = r.ref <;> simp [hr]

/-- What `write_value` and `publish` have checked before they wait for the command serial. -/
def Entered (sh : Shared) (op : Op) (r : RegisteredDevice) (c : Capability) : Prop :=
  match op with
  | .writeValue command => lookup sh.state command.deviceId command.capabilityId = .ok (r, c) ∧
      c.permissions.write = true ∧ validateCapabilityValue c command.value = .ok ()
  | .publish d cid v => lookup sh.state d cid = .ok (r, c) ∧ validateCapabilityValue c v = .ok ()
  | _ => False

/-- What `register` has restored. -/
def Restores (d : Device) (loaded : Option Record) (restored : Restored) : Prop :=
  restoreValues ⟨∅, loaded.getD ∅, loaded.isNone⟩ d.capabilities = .ok restored

/-- The await point of `register` after it has restored the values. -/
def Restored.next (restored : Restored) (sh : Shared) : Pc :=
  if restored.dirty && sh.persistent then .savingInitial ⟨restored.current, restored.persisted⟩
  else .insert ⟨restored.current, restored.persisted⟩

/-! ## Moves of a call -/

/-- Every way to run from an await point to the next one without an error. -/
inductive Move (sh : Shared) (call : Call) : Pc → Effect → Next → Prop where
  | lifecycle : Move sh call .lifecycle .none (.goto .enter)
  | start (hop : call.op = .start) (hs : sh.state.started = false) :
    Move sh call .enter .start (.ret .done)
  | stop (hop : call.op = .stop) (hs : sh.state.started = true) :
    Move sh call .enter .stop (.ret .done)
  | stopped (hop : call.op = .stop) (hs : sh.state.started = false) :
    Move sh call .enter .none (.ret .done)
  | enterRegister {d : Device} {handler : Bool} (hop : call.op = .register d handler)
    (hs : sh.state.started = true) (hd : d.id ∉ sh.state.devices) (hp : sh.persistent = true) :
    Move sh call .enter .none (.goto .loading)
  | restoreNew {d : Device} {handler : Bool} {restored : Restored}
    (hop : call.op = .register d handler) (hs : sh.state.started = true)
    (hd : d.id ∉ sh.state.devices) (hp : sh.persistent = false)
    (hr : Restores d none restored) :
    Move sh call .enter .none (.goto (restored.next sh))
  | restore {d : Device} {handler : Bool} {restored : Restored}
    (hop : call.op = .register d handler) (hl : call.loaded = .ok ())
    (hr : Restores d (sh.store d.id) restored) :
    Move sh call .loading .none (.goto (restored.next sh))
  | saveInitial {d : Device} {handler : Bool} {values : DeviceValues}
    (hop : call.op = .register d handler) (hs : call.saved = .ok ()) :
    Move sh call (.savingInitial values) (.save d.id values.persisted) (.goto (.insert values))
  | insert {d : Device} {handler : Bool} {values : DeviceValues}
    (hop : call.op = .register d handler) (hs : sh.state.started = true)
    (hd : d.id ∉ sh.state.devices) :
    Move sh call (.insert values)
      (.insert ⟨sh.nextRef, d, capabilityMap d.capabilities, handler⟩ values) (.ret .done)
  | enterUnregister {d : DeviceId} {r : RegisteredDevice} (hop : call.op = .unregister d)
    (hs : sh.state.started = true) (hd : sh.state.devices[d]? = some r) :
    Move sh call .enter .none (.goto (.unregisterSerial r))
  | unregisterSerial {r : RegisteredDevice} :
    Move sh call (.unregisterSerial r) .none (.goto (.remove r))
  | remove {d : DeviceId} {r r' : RegisteredDevice} (hop : call.op = .unregister d)
    (hd : sh.state.devices[d]? = some r') (hr : r'.ref = r.ref) :
    Move sh call (.remove r) (.remove d r) (.ret .done)
  | enterRead {d : DeviceId} {cid : CapabilityId} {r : RegisteredDevice} {c : Capability}
    (hop : call.op = .read d cid) (hl : lookup sh.state d cid = .ok (r, c))
    (hp : c.permissions.read = true) :
    Move sh call .enter .none (.goto (.readValues r))
  | read {d : DeviceId} {cid : CapabilityId} {r : RegisteredDevice} {v : Value}
    (hop : call.op = .read d cid) (hv : (sh.values r.ref).current[cid]? = some v) :
    Move sh call (.readValues r) .none (.ret (.value v))
  | enterCommand {r : RegisteredDevice} {c : Capability} (he : Entered sh call.op r c) :
    Move sh call .enter .none (.goto (.commandSerial r c))
  | commandSerial {r : RegisteredDevice} {c : Capability} :
    Move sh call (.commandSerial r c) .none (.goto (.confirm r c))
  | confirmCommand {command : Command} {r : RegisteredDevice} {c : Capability}
    (hop : call.op = .writeValue command) (hr : Registered sh.state command.deviceId r)
    (hh : r.handler = true) :
    Move sh call (.confirm r c) .none (.goto (.handling r c))
  | confirmPublish {d : DeviceId} {cid : CapabilityId} {v : Value} {r : RegisteredDevice}
    {c : Capability} (hop : call.op = .publish d cid v) (hr : Registered sh.state d r) :
    Move sh call (.confirm r c) .none (.goto (.commit r c v))
  | handle {command : Command} {r : RegisteredDevice} {c : Capability} {v : Value}
    (hop : call.op = .writeValue command) (hh : call.handled = .ok v)
    (hv : validateCapabilityValue c v = .ok ()) :
    Move sh call (.handling r c) .none (.goto (.commit r c v))
  | unchanged {r : RegisteredDevice} {c : Capability} {v : Value}
    (hv : ((sh.values r.ref).current[c.id]?).any (Value.partialEq v) = true) :
    Move sh call (.commit r c v) .none (.ret (call.op.committed v))
  | save {r : RegisteredDevice} {c : Capability} {v : Value}
    (hv : ((sh.values r.ref).current[c.id]?).any (Value.partialEq v) = false)
    (hp : sh.persistent = true) :
    Move sh call (.commit r c v) .none
      (.goto (.saving r c v ((sh.values r.ref).persisted.insert c.id v)))
  | noStore {r : RegisteredDevice} {c : Capability} {v : Value}
    (hv : ((sh.values r.ref).current[c.id]?).any (Value.partialEq v) = false)
    (hp : sh.persistent = false) :
    Move sh call (.commit r c v) .none
      (.goto (.confirmSaved r c v ((sh.values r.ref).persisted.insert c.id v)))
  | saved {d : DeviceId} {cid : CapabilityId} {r : RegisteredDevice} {c : Capability} {v : Value}
    {next : Record} (hop : call.op.target = some (d, cid)) (hs : call.saved = .ok ()) :
    Move sh call (.saving r c v next) (.save d next) (.goto (.confirmSaved r c v next))
  | update {d : DeviceId} {cid : CapabilityId} {r : RegisteredDevice} {c : Capability} {v : Value}
    {next : Record} (hop : call.op.target = some (d, cid)) (hr : Registered sh.state d r) :
    Move sh call (.confirmSaved r c v next)
      (.update r.ref ⟨(sh.values r.ref).current.insert c.id v, next⟩) (.goto (.advance r c v))
  | commit {d : DeviceId} {cid : CapabilityId} {r : RegisteredDevice} {c : Capability} {v : Value}
    (hop : call.op.target = some (d, cid)) :
    Move sh call (.advance r c v) (.commit d r c v call.now) (.ret (call.op.committed v))
  | subscribe {buffer : Nat} (hop : call.op = .subscribe buffer)
    (hs : sh.state.started = true) :
    Move sh call .enter (.subscribe .states buffer)
      (.ret (.subscription (sh.state.subscriptions.next + 1)))
  | subscribeTopology {buffer : Nat} (hop : call.op = .subscribeTopology buffer)
    (hs : sh.state.started = true) :
    Move sh call .enter (.subscribe .topology buffer)
      (.ret (.subscription (sh.state.topologySubscriptions.next + 1)))
  | snapshotState :
    Move sh call .snapshotState .none (snapshotNext
      ⟨sh.state.started, sh.state.revision, [], sh.state.subscriptions.live.length⟩
      (sh.state.devices.toList.map Prod.snd))
  | snapshotValues {s : Snapshot} {r : RegisteredDevice} {todo : List RegisteredDevice} :
    Move sh call (.snapshotValues s r todo) .none (snapshotNext
      { s with devices := s.devices ++ [⟨r.definition, (sh.values r.ref).current⟩] } todo)
  | cancel {topic : Topic} {id : Nat} (hop : call.op = .cancel topic id)
    (hd : sh.state.dropped topic id = false) :
    Move sh call .cancelState (.cancel topic id) (.ret .done)

theorem registerLoaded_ok {sh : Shared} {d : Device} {loaded : Option Record} {e : Effect}
    {n : Next} : registerLoaded sh d loaded = .ok (e, n) ↔
      ∃ restored, Restores d loaded restored ∧ e = .none ∧ n = .goto (restored.next sh) := by
  unfold registerLoaded Restores
  cases restoreValues ⟨∅, loaded.getD ∅, loaded.isNone⟩ d.capabilities with
  | error reason => simp
  | ok restored =>
    simp only [Except.ok.injEq, Prod.mk.injEq, exists_eq_left']
    exact and_congr eq_comm eq_comm

theorem enterRead_ok {sh : Shared} {d : DeviceId} {cid : CapabilityId} {e : Effect} {n : Next} :
    enterRead sh d cid = .ok (e, n) ↔ ∃ r c, lookup sh.state d cid = .ok (r, c) ∧
      c.permissions.read = true ∧ e = .none ∧ n = .goto (.readValues r) := by
  unfold enterRead
  simp only [bind_ok, Prod.exists]
  refine exists₂_congr fun r c => and_congr_right fun _ => ?_
  by_cases hp : c.permissions.read = true
  · simp only [hp, if_true, Except.ok.injEq, Prod.mk.injEq, true_and]
    exact and_congr eq_comm eq_comm
  · simp [hp]

theorem enterWriteValue_ok {sh : Shared} {command : Command} {e : Effect} {n : Next} :
    enterWriteValue sh command = .ok (e, n) ↔
      ∃ r c, Entered sh (.writeValue command) r c ∧ e = .none ∧
        n = .goto (.commandSerial r c) := by
  unfold enterWriteValue
  simp only [bind_ok, Prod.exists, Entered, and_assoc]
  refine exists₂_congr fun r c => and_congr_right fun _ => ?_
  by_cases hp : c.permissions.write = true
  · cases validateCapabilityValue c command.value with
    | error reason => simp [hp]
    | ok u =>
      simp only [hp, if_true, Except.ok.injEq, Prod.mk.injEq, true_and]
      exact and_congr eq_comm eq_comm
  · simp [hp]

theorem enterPublish_ok {sh : Shared} {d : DeviceId} {cid : CapabilityId} {v : Value}
    {e : Effect} {n : Next} : enterPublish sh d cid v = .ok (e, n) ↔
      ∃ r c, Entered sh (.publish d cid v) r c ∧ e = .none ∧
        n = .goto (.commandSerial r c) := by
  unfold enterPublish
  simp only [bind_ok, Prod.exists, Entered, and_assoc]
  refine exists₂_congr fun r c => and_congr_right fun _ => ?_
  cases validateCapabilityValue c v with
  | error reason => simp
  | ok u =>
    simp only [Except.ok.injEq, Prod.mk.injEq, true_and]
    exact and_congr eq_comm eq_comm

theorem enterRegister_ok {sh : Shared} {d : Device} {e : Effect} {n : Next} :
    enterRegister sh d = .ok (e, n) ↔ sh.state.started = true ∧ d.id ∉ sh.state.devices ∧
      e = .none ∧ (sh.persistent = true ∧ n = .goto .loading ∨ sh.persistent = false ∧
        ∃ restored, Restores d none restored ∧ n = .goto (restored.next sh)) := by
  unfold enterRegister
  simp only [bind_ok, ensureStarted_ok, exists_const]
  refine and_congr_right fun _ => ?_
  by_cases hd : d.id ∈ sh.state.devices
  · simp [hd]
  · cases hp : sh.persistent with
    | true =>
      simp only [hd, if_true, if_false, Except.ok.injEq, Prod.mk.injEq, not_false_eq_true,
        true_and, reduceCtorEq, false_and, or_false]
      exact and_congr eq_comm eq_comm
    | false =>
      simp only [hd, Bool.false_eq_true, if_false, registerLoaded_ok, not_false_eq_true, true_and,
        false_and, false_or]
      exact ⟨fun ⟨x, h1, h2, h3⟩ => ⟨h2, x, h1, h3⟩, fun ⟨h2, x, h1, h3⟩ => ⟨x, h1, h2, h3⟩⟩

theorem enterUnregister_ok {sh : Shared} {d : DeviceId} {e : Effect} {n : Next} :
    enterUnregister sh d = .ok (e, n) ↔ sh.state.started = true ∧
      ∃ r, sh.state.devices[d]? = some r ∧ e = .none ∧ n = .goto (.unregisterSerial r) := by
  unfold enterUnregister
  simp only [bind_ok, ensureStarted_ok, exists_const]
  refine and_congr_right fun _ => ?_
  cases sh.state.devices[d]? with
  | none => simp
  | some r =>
    simp only [Except.ok.injEq, Prod.mk.injEq, Option.some.injEq, exists_eq_left']
    exact and_congr eq_comm eq_comm

/-! ## The list of moves is exact -/

theorem body_of_move {sh : Shared} {call : Call} {pc : Pc} {e : Effect} {n : Next}
    (h : Move sh call pc e n) : body sh call pc = some (.ok (e, n)) := by
  cases h with
  | lifecycle | commandSerial | unregisterSerial | snapshotState | snapshotValues => rfl
  | commit hop => simp [body, hop]
  | start hop hs | stop hop hs | stopped hop hs => simp [body, hop, hs]
  | subscribe hop hs | subscribeTopology hop hs =>
    simp only [body, hop, Option.some.injEq, bind_ok]
    exact ⟨(), ensureStarted_ok.mpr hs, trivial⟩
  | enterRegister hop hs hd hp =>
    simp only [body, hop, Option.some.injEq]
    exact enterRegister_ok.mpr ⟨hs, hd, rfl, .inl ⟨hp, rfl⟩⟩
  | restoreNew hop hs hd hp hr =>
    simp only [body, hop, Option.some.injEq]
    exact enterRegister_ok.mpr ⟨hs, hd, rfl, .inr ⟨hp, _, hr, rfl⟩⟩
  | restore hop hl hr =>
    simp only [body, hop, hl, Option.some.injEq]
    exact registerLoaded_ok.mpr ⟨_, hr, rfl, rfl⟩
  | saveInitial hop hs => simp [body, hop, hs]
  | insert hop hs hd =>
    simp only [body, hop, Option.some.injEq, bind_ok]
    exact ⟨(), ensureStarted_ok.mpr hs, by simp [hd]⟩
  | enterUnregister hop hs hd =>
    simp only [body, hop, Option.some.injEq]
    exact enterUnregister_ok.mpr ⟨hs, _, hd, rfl, rfl⟩
  | remove hop hd hr => simp [body, hop, hd, hr]
  | enterRead hop hl hp =>
    simp only [body, hop, Option.some.injEq]
    exact enterRead_ok.mpr ⟨_, _, hl, hp, rfl, rfl⟩
  | read hop hv => simp [body, hop, hv]
  | enterCommand he =>
    cases hop : call.op with
    | writeValue command =>
      rw [hop] at he
      simp only [body, hop, Option.some.injEq]
      exact enterWriteValue_ok.mpr ⟨_, _, he, rfl, rfl⟩
    | publish d cid v =>
      rw [hop] at he
      simp only [body, hop, Option.some.injEq]
      exact enterPublish_ok.mpr ⟨_, _, he, rfl, rfl⟩
    | _ =>
      rw [hop] at he
      exact he.elim
  | confirmCommand hop hr hh =>
    simp only [body, hop, Option.some.injEq, bind_ok]
    exact ⟨(), confirmRegistration_ok.mpr hr, by simp [hh]⟩
  | confirmPublish hop hr =>
    simp only [body, hop, Option.some.injEq, bind_ok]
    exact ⟨(), confirmRegistration_ok.mpr hr, trivial⟩
  | handle hop hh hv => simp [body, hop, hh, hv]
  | unchanged hv => simp [body, hv]
  | save hv hp | noStore hv hp => simp [body, hv, hp]
  | saved hop hs => simp [body, hop, hs]
  | update hop hr =>
    simp only [body, hop, Option.some.injEq, bind_ok]
    exact ⟨(), confirmRegistration_ok.mpr hr, trivial⟩
  | cancel hop hd => simp [body, hop, hd]

theorem move_of_enter {sh : Shared} {call : Call} {e : Effect} {n : Next}
    (h : body sh call .enter = some (.ok (e, n))) : Move sh call .enter e n := by
  cases hop : call.op with
  | start =>
    simp only [body, hop, Option.some.injEq] at h
    split at h
    · simp at h
    · rename_i hs
      rw [Except.ok.injEq, Prod.mk.injEq] at h
      obtain ⟨rfl, rfl⟩ := h
      exact .start hop (by simpa using hs)
  | stop =>
    simp only [body, hop, Option.some.injEq, Except.ok.injEq, Prod.mk.injEq] at h
    obtain ⟨rfl, rfl⟩ := h
    cases hs : sh.state.started with
    | true => exact .stop hop hs
    | false => exact .stopped hop hs
  | register d handler =>
    simp only [body, hop, Option.some.injEq] at h
    obtain ⟨hs, hd, rfl, ⟨hp, rfl⟩ | ⟨hp, restored, hr, rfl⟩⟩ := enterRegister_ok.mp h
    · exact .enterRegister hop hs hd hp
    · exact .restoreNew hop hs hd hp hr
  | unregister d =>
    simp only [body, hop, Option.some.injEq] at h
    obtain ⟨hs, r, hr, rfl, rfl⟩ := enterUnregister_ok.mp h
    exact .enterUnregister hop hs hr
  | read d cid =>
    simp only [body, hop, Option.some.injEq] at h
    obtain ⟨r, c, hl, hp, rfl, rfl⟩ := enterRead_ok.mp h
    exact .enterRead hop hl hp
  | writeValue command =>
    simp only [body, hop, Option.some.injEq] at h
    obtain ⟨r, c, he, rfl, rfl⟩ := enterWriteValue_ok.mp h
    exact .enterCommand (hop ▸ he)
  | publish d cid v =>
    simp only [body, hop, Option.some.injEq] at h
    obtain ⟨r, c, he, rfl, rfl⟩ := enterPublish_ok.mp h
    exact .enterCommand (hop ▸ he)
  | subscribe buffer =>
    simp only [body, hop, Option.some.injEq, bind_ok, Except.ok.injEq, Prod.mk.injEq] at h
    obtain ⟨u, hs, rfl, rfl⟩ := h
    exact .subscribe hop (ensureStarted_ok.mp hs)
  | subscribeTopology buffer =>
    simp only [body, hop, Option.some.injEq, bind_ok, Except.ok.injEq, Prod.mk.injEq] at h
    obtain ⟨u, hs, rfl, rfl⟩ := h
    exact .subscribeTopology hop (ensureStarted_ok.mp hs)
  | snapshot | cancel topic id => simp [body, hop] at h

theorem move_of_body {sh : Shared} {call : Call} {pc : Pc} {e : Effect} {n : Next}
    (h : body sh call pc = some (.ok (e, n))) : Move sh call pc e n := by
  cases pc with
  | lifecycle =>
    simp only [body, Option.some.injEq, Except.ok.injEq, Prod.mk.injEq] at h
    obtain ⟨rfl, rfl⟩ := h
    exact .lifecycle
  | enter => exact move_of_enter h
  | readValues r =>
    cases hop : call.op with
    | read d cid =>
      simp only [body, hop, Option.some.injEq] at h
      split at h
      · rename_i v hv
        rw [Except.ok.injEq, Prod.mk.injEq] at h
        obtain ⟨rfl, rfl⟩ := h
        exact .read hop hv
      · simp at h
    | _ => simp [body, hop] at h
  | commandSerial r c =>
    simp only [body, Option.some.injEq, Except.ok.injEq, Prod.mk.injEq] at h
    obtain ⟨rfl, rfl⟩ := h
    exact .commandSerial
  | confirm r c =>
    cases hop : call.op with
    | writeValue command =>
      simp only [body, hop, Option.some.injEq, bind_ok] at h
      obtain ⟨u, hr, h⟩ := h
      split at h
      · rename_i hh
        rw [Except.ok.injEq, Prod.mk.injEq] at h
        obtain ⟨rfl, rfl⟩ := h
        exact .confirmCommand hop (confirmRegistration_ok.mp hr) hh
      · simp at h
    | publish d cid v =>
      simp only [body, hop, Option.some.injEq, bind_ok, Except.ok.injEq, Prod.mk.injEq] at h
      obtain ⟨u, hr, rfl, rfl⟩ := h
      exact .confirmPublish hop (confirmRegistration_ok.mp hr)
    | _ => simp [body, hop] at h
  | handling r c =>
    cases hop : call.op with
    | writeValue command =>
      simp only [body, hop, Option.some.injEq] at h
      split at h
      · simp at h
      · rename_i v hh
        split at h
        · simp at h
        · rename_i hv
          rw [Except.ok.injEq, Prod.mk.injEq] at h
          obtain ⟨rfl, rfl⟩ := h
          exact .handle hop hh hv
    | _ => simp [body, hop] at h
  | commit r c v =>
    simp only [body, Option.some.injEq, Except.ok.injEq] at h
    split at h
    · rename_i hv
      rw [Prod.mk.injEq] at h
      obtain ⟨rfl, rfl⟩ := h
      exact .unchanged hv
    · rename_i hv
      rw [Bool.not_eq_true] at hv
      rw [Prod.mk.injEq] at h
      obtain ⟨rfl, rfl⟩ := h
      cases hp : sh.persistent with
      | true => exact .save hv hp
      | false => exact .noStore hv hp
  | saving r c v next =>
    simp only [body] at h
    split at h
    · rename_i d cid hop
      simp only [Option.some.injEq] at h
      split at h
      · simp at h
      · rename_i hs
        rw [Except.ok.injEq, Prod.mk.injEq] at h
        obtain ⟨rfl, rfl⟩ := h
        exact .saved hop hs
    · simp at h
  | confirmSaved r c v next =>
    simp only [body] at h
    split at h
    · rename_i d cid hop
      simp only [Option.some.injEq, bind_ok, Except.ok.injEq, Prod.mk.injEq] at h
      obtain ⟨u, hr, rfl, rfl⟩ := h
      exact .update hop (confirmRegistration_ok.mp hr)
    · simp at h
  | advance r c v =>
    simp only [body] at h
    split at h
    · rename_i d cid hop
      simp only [Option.some.injEq, Except.ok.injEq, Prod.mk.injEq] at h
      obtain ⟨rfl, rfl⟩ := h
      exact .commit hop
    · simp at h
  | loading =>
    cases hop : call.op with
    | register d handler =>
      simp only [body, hop, Option.some.injEq] at h
      split at h
      · simp at h
      · rename_i hl
        obtain ⟨restored, hr, rfl, rfl⟩ := registerLoaded_ok.mp h
        exact .restore hop hl hr
    | _ => simp [body, hop] at h
  | savingInitial values =>
    cases hop : call.op with
    | register d handler =>
      simp only [body, hop, Option.some.injEq] at h
      split at h
      · simp at h
      · rename_i hs
        rw [Except.ok.injEq, Prod.mk.injEq] at h
        obtain ⟨rfl, rfl⟩ := h
        exact .saveInitial hop hs
    | _ => simp [body, hop] at h
  | insert values =>
    cases hop : call.op with
    | register d handler =>
      simp only [body, hop, Option.some.injEq, bind_ok] at h
      obtain ⟨u, hs, h⟩ := h
      split at h
      · simp at h
      · rename_i hd
        rw [Except.ok.injEq, Prod.mk.injEq] at h
        obtain ⟨rfl, rfl⟩ := h
        exact .insert hop (ensureStarted_ok.mp hs) hd
    | _ => simp [body, hop] at h
  | unregisterSerial r =>
    simp only [body, Option.some.injEq, Except.ok.injEq, Prod.mk.injEq] at h
    obtain ⟨rfl, rfl⟩ := h
    exact .unregisterSerial
  | remove r =>
    cases hop : call.op with
    | unregister d =>
      simp only [body, hop, Option.some.injEq] at h
      split at h
      · rename_i hd
        rw [Option.any_eq_true] at hd
        obtain ⟨r', hr', href⟩ := hd
        rw [Except.ok.injEq, Prod.mk.injEq] at h
        obtain ⟨rfl, rfl⟩ := h
        exact .remove hop hr' (by simpa using href)
      · simp at h
    | _ => simp [body, hop] at h
  | snapshotState =>
    simp only [body, Option.some.injEq, Except.ok.injEq, Prod.mk.injEq] at h
    obtain ⟨rfl, rfl⟩ := h
    exact .snapshotState
  | snapshotValues s r todo =>
    simp only [body, Option.some.injEq, Except.ok.injEq, Prod.mk.injEq] at h
    obtain ⟨rfl, rfl⟩ := h
    exact .snapshotValues
  | cancelState =>
    cases hop : call.op with
    | cancel topic id =>
      simp only [body, hop] at h
      split at h
      · simp at h
      · rename_i hd
        simp only [Option.some.injEq, Except.ok.injEq, Prod.mk.injEq] at h
        obtain ⟨rfl, rfl⟩ := h
        exact .cancel hop (by simpa using hd)
    | _ => simp [body, hop] at h

theorem move_iff {sh : Shared} {call : Call} {pc : Pc} {e : Effect} {n : Next} :
    Move sh call pc e n ↔ body sh call pc = some (.ok (e, n)) :=
  ⟨body_of_move, move_of_body⟩

/-! ## Steps of the machine -/

/-- The future of a call after one of its moves. -/
def Next.thread (call : Call) : Next → Thread
  | .goto pc => .running call pc
  | .ret reply => .returned call (.ok reply)

/-- The last thing a move adds to the history. -/
def Next.observe (k : CallId) (op : Op) (pc : Pc) : Next → List Obs
  | .goto _ => turnOf k op pc
  | .ret reply => [.returned k (.ok reply)]

/-- A save that the blocking task of an abandoned call makes. -/
def Orphan.apply (sh : Shared) (o : Orphan) : Shared :=
  match o.saved with
  | .ok () => (Effect.save o.device o.record).apply sh
  | .error _ => sh

/-- The steps of the machine. -/
inductive Step (s : Sys) : Action → Sys → Prop where
  | reject {k : CallId} {call : Call} {e : RuntimeError} (hk : k ∉ s.calls)
    (hb : begin call = .error e) :
    Step s (.invoke k call)
      { s with
        calls := s.calls.insert k (.returned call (.error e))
        history := s.history ++ [.invoked k call, .returned k (.error e)] }
  | invoke {k : CallId} {call : Call} {pc : Pc} (hk : k ∉ s.calls) (hb : begin call = .ok pc) :
    Step s (.invoke k call)
      { s with
        calls := s.calls.insert k (.running call pc)
        history := s.history ++ [.invoked k call] }
  | fail {k : CallId} {call : Call} {pc : Pc} {e : RuntimeError}
    (hk : s.calls[k]? = some (.running call pc)) (hr : s.ready call pc = true)
    (hb : body s.shared call pc = some (.error e)) :
    Step s (.advance k)
      { s with
        calls := s.calls.insert k (.returned call (.error e))
        history := s.history ++ [.returned k (.error e)] }
  | move {k : CallId} {call : Call} {pc : Pc} {e : Effect} {n : Next}
    (hk : s.calls[k]? = some (.running call pc)) (hr : s.ready call pc = true)
    (hm : Move s.shared call pc e n) :
    Step s (.advance k)
      { s with
        shared := e.apply s.shared
        calls := s.calls.insert k (n.thread call)
        history := s.history ++ (e.observe s.shared ++ n.observe k call.op pc) }
  | abandon {k : CallId} {call : Call} {pc : Pc} (hk : s.calls[k]? = some (.running call pc)) :
    Step s (.abandon k)
      { s with
        calls := s.calls.insert k (.abandoned call)
        orphans := s.orphans ++ orphaned call pc
        history := s.history ++ [.abandoned k] }
  | orphan {i : Nat} {o : Orphan} (ho : s.orphans[i]? = some o) :
    Step s (.orphan i)
      { s with
        shared := o.apply s.shared
        orphans := s.orphans.eraseIdx i }
  | states {a : Action} {op : Broadcast.Op Event RuntimeError}
    {hub : Broadcast.Hub Event RuntimeError} {log : List (Broadcast.Entry Event RuntimeError)}
    (hs : Broadcast.step s.shared.state.subscriptions op = some (hub, log))
    (hop : (∃ id, a = .recv .states id ∧ op = .recv id) ∨
      (∃ id, a = .drop .states id ∧ op = .drop id) ∨
      ∃ id, a = .cleanup .states id ∧ op = .remove id) :
    Step s a
      { s with
        shared := { s.shared with state := { s.shared.state with subscriptions := hub } }
        history := s.history ++ log.map .states }
  | topology {a : Action} {op : Broadcast.Op TopologyEvent RuntimeError}
    {hub : Broadcast.Hub TopologyEvent RuntimeError}
    {log : List (Broadcast.Entry TopologyEvent RuntimeError)}
    (hs : Broadcast.step s.shared.state.topologySubscriptions op = some (hub, log))
    (hop : (∃ id, a = .recv .topology id ∧ op = .recv id) ∨
      (∃ id, a = .drop .topology id ∧ op = .drop id) ∨
      ∃ id, a = .cleanup .topology id ∧ op = .remove id) :
    Step s a
      { s with
        shared := { s.shared with state := { s.shared.state with topologySubscriptions := hub } }
        history := s.history ++ log.map .topology }

theorem step_subscriber {s s' : Sys} {a : Action} {topic : Topic}
    {eventOp : Broadcast.Op Event RuntimeError} {topologyOp : Broadcast.Op TopologyEvent RuntimeError}
    (h : s.subscriber topic eventOp topologyOp = some s')
    (he : topic = .states → (∃ id, a = .recv .states id ∧ eventOp = .recv id) ∨
      (∃ id, a = .drop .states id ∧ eventOp = .drop id) ∨
      ∃ id, a = .cleanup .states id ∧ eventOp = .remove id)
    (ht : topic = .topology → (∃ id, a = .recv .topology id ∧ topologyOp = .recv id) ∨
      (∃ id, a = .drop .topology id ∧ topologyOp = .drop id) ∨
      ∃ id, a = .cleanup .topology id ∧ topologyOp = .remove id) : Step s a s' := by
  cases topic with
  | states =>
    simp only [Sys.subscriber, Option.map_eq_some_iff, Prod.exists] at h
    obtain ⟨hub, log, hs, rfl⟩ := h
    exact .states hs (he rfl)
  | topology =>
    simp only [Sys.subscriber, Option.map_eq_some_iff, Prod.exists] at h
    obtain ⟨hub, log, hs, rfl⟩ := h
    exact .topology hs (ht rfl)

theorem step_cases {s s' : Sys} {a : Action} (h : step s a = some s') : Step s a s' := by
  cases a with
  | invoke k call =>
    simp only [step, Option.ite_none_left_eq_some, Option.some.injEq] at h
    obtain ⟨hk, h⟩ := h
    cases hb : begin call with
    | error e =>
      simp only [hb, Sys.fail, List.append_assoc] at h
      subst h
      exact .reject hk hb
    | ok pc =>
      simp only [hb] at h
      subst h
      exact .invoke hk hb
  | advance k =>
    simp only [step] at h
    split at h
    · rename_i call pc hk
      simp only [Option.ite_none_right_eq_some, Option.map_eq_some_iff] at h
      obtain ⟨hr, r, hb, h⟩ := h
      split at h
      · rename_i e
        subst h
        exact .fail hk hr hb
      · rename_i e n
        subst h
        have hm := Step.move hk hr (move_of_body hb)
        cases n <;> simpa [Sys.settle, Next.thread, Next.observe, List.append_assoc] using hm
    · simp at h
  | abandon k =>
    simp only [step] at h
    split at h
    · rename_i call pc hk
      rw [Option.some.injEq] at h
      subst h
      exact .abandon hk
    · simp at h
  | orphan i =>
    simp only [step] at h
    split at h
    · rename_i o ho
      rw [Option.some.injEq] at h
      subst h
      exact .orphan ho
    · simp at h
  | recv topic id =>
    exact step_subscriber h (fun ht => .inl ⟨id, ht ▸ rfl, rfl⟩) (fun ht => .inl ⟨id, ht ▸ rfl, rfl⟩)
  | drop topic id =>
    exact step_subscriber h (fun ht => .inr (.inl ⟨id, ht ▸ rfl, rfl⟩))
      (fun ht => .inr (.inl ⟨id, ht ▸ rfl, rfl⟩))
  | cleanup topic id =>
    exact step_subscriber h (fun ht => .inr (.inr ⟨id, ht ▸ rfl, rfl⟩))
      (fun ht => .inr (.inr ⟨id, ht ▸ rfl, rfl⟩))

end Oikade.Core
