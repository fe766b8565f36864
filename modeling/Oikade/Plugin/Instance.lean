/-
  The devices of a plugin instance (`oikade-plugin-host/src/instance.rs`: `activate`,
  `install_locked`, `deactivate_locked`, `deactivate`, `reconcile`), as a machine whose steps are the
  stretches between two await points.

  Every transition holds the `transition` lock from its first to its last step, so there is one at a
  time. The lock of `active` is never held across an await point: a section under it is one step. A
  call of the core's `register` or `unregister` is one step too: the core changes its device table in
  the step in which the call returns, and a call that is dropped before has no effect on it
  (`devices_of_register`, `devices_of_unregister`). `core` has the devices that this instance has
  registered; it is the only one to unregister them, and the core is started as long as its plugins
  are. What the core answers to a registration is part of the action.

  Which session has a monitor is not modelled: any session may reconcile or end at any time, so every
  run of the source is a run here. An activation runs inside a readiness attempt, which the
  supervisor may drop at any await point (`Action.abort`). `install_locked` keeps what it has
  registered in a local variable until its end, and `deactivate_locked` what it has to unregister, so
  an attempt dropped in between leaves devices behind that no list names (`gardenLeaked`).

  * `registered_listed`: in a run that drops no attempt there, what is registered is what the active
    session lists.
-/
import Oikade.Plugin.Convert
import Oikade.Core.Invariant
import Oikade.Lib.Machine
import Mathlib.Data.List.Nodup
import Std.Data.ExtTreeSet

namespace Oikade.Plugin

open Oikade.Core (DeviceId RuntimeError)

/-! ## The calls of the core -/

section Core

open Oikade.Core (Call CallId Effect Next Sys)

/-- The step of a call of the core: it returns `Ok` and the device table is changed, or it does not
    and the table is as it was. -/
inductive TableStep (s s' : Sys) (k : CallId) (call : Call) (changed : DeviceId → Prop) : Prop where
  | done (hk : s'.calls[k]? = some (.returned call (.ok .done)))
    (hd : ∀ d, d ∈ s'.shared.state.devices ↔ changed d)
  | none (hk : ∀ reply, s'.calls[k]? ≠ some (.returned call (.ok reply)))
    (hd : s'.shared.state.devices = s.shared.state.devices)

variable {s s' : Sys} {k : CallId} {call : Call} {pc : Core.Pc} {a : Core.Action}

/-- A step of a call other than a return without an error. -/
theorem tableStep_of_step {changed : DeviceId → Prop}
    (hk : s.calls[k]? = some (.running call pc)) (ha : a = .advance k ∨ a = .abandon k)
    (hs : Core.step s a = some s')
    (hret : ∀ e reply, Core.Move s.shared call pc e (.ret reply) → reply = .done ∧
      ∀ d, d ∈ (e.apply s.shared).state.devices ↔ changed d) :
    TableStep s s' k call changed := by
  cases Core.step_cases hs with
  | @fail j call' pc' e hj hr hb =>
    obtain rfl : j = k := by simpa using ha
    exact .none (by simp) rfl
  | @abandon j call' pc' hj =>
    obtain rfl : j = k := by simpa using ha
    exact .none (by simp) rfl
  | @move j call' pc' e n hj hr hm =>
    obtain rfl : j = k := by simpa using ha
    obtain ⟨rfl, rfl⟩ := Core.running_inj hk hj
    cases n with
    | goto pc' =>
      exact .none (by simp [Next.thread]) (Core.apply_state (Core.lifecycle_of_goto hm)).2.1
    | ret reply =>
      obtain ⟨rfl, hd⟩ := hret e reply hm
      exact .done (by simp [Next.thread]) hd
  | reject | invoke | orphan => simp at ha
  | states hs hop | topology hs hop =>
    obtain ⟨id, rfl, -⟩ | ⟨id, rfl, -⟩ | ⟨id, rfl, -⟩ := hop <;> simp at ha

theorem devices_of_register (hok : s.Ok) {device : Core.Device} {handler : Bool}
    (hop : call.op = .register device handler) (hk : s.calls[k]? = some (.running call pc))
    (ha : a = .advance k ∨ a = .abandon k) (hs : Core.step s a = some s') :
    TableStep s s' k call fun d =>
      device.id ∉ s.shared.state.devices ∧ (d = device.id ∨ d ∈ s.shared.state.devices) := by
  refine tableStep_of_step hk ha hs fun e reply hm => ?_
  obtain ⟨hd, rfl, values, rfl, rfl⟩ := Core.insert_of_ret (hok.pc k call pc hk) hop hm
  refine ⟨rfl, fun d => ?_⟩
  simp only [Effect.apply, Core.dispatchTopology, Std.ExtTreeMap.mem_insert,
    Std.compare_eq_iff_eq, hd, not_false_eq_true, true_and, @eq_comm _ d]

theorem devices_of_unregister (hok : s.Ok) {id : DeviceId} (hop : call.op = .unregister id)
    (hk : s.calls[k]? = some (.running call pc)) (ha : a = .advance k ∨ a = .abandon k)
    (hs : Core.step s a = some s') :
    TableStep s s' k call fun d => d ≠ id ∧ d ∈ s.shared.state.devices := by
  refine tableStep_of_step hk ha hs fun e reply hm => ?_
  obtain ⟨rfl, r, rfl, rfl⟩ := Core.remove_of_ret (hok.pc k call pc hk) hop hm
  refine ⟨rfl, fun d => ?_⟩
  simp only [Effect.apply, Core.dispatchTopology, Std.ExtTreeMap.mem_erase,
    Std.compare_ne_eq_iff_ne, Core.RuntimeState.bump]
  rw [ne_comm]

end Core

/-! ## The state -/

/-- The identity of an `Arc<Session>`. -/
abbrev SessionId := Nat

structure Active where
  session : SessionId
  definitions : Definitions
  registered : List DeviceId

/-- "register plugin device ..: .." -/
structure InstallError where
  device : DeviceId
  error : RuntimeError
  deriving DecidableEq

inductive ReconcileError where
  /-- "plugin is not active" -/
  | notActive
  /-- "reconciliation came from an inactive plugin session" -/
  | inactiveSession
  | install (error : InstallError)
  /-- "reconcile plugin devices: ..; restore previous devices: .." -/
  | restore (error rollback : InstallError)
  deriving DecidableEq

/-- What a transition has returned. -/
inductive Ended where
  | activated (result : Except InstallError Unit)
  | reconciled (result : Except ReconcileError Unit)
  | deactivated
  deriving DecidableEq

/-- Whom `install_locked` returns to. -/
inductive Caller where
  | activate
  /-- `reconcile`, with the definitions to go back to -/
  | reconcile (previous : Definitions)
  /-- `reconcile`, which goes back after the error -/
  | rollback (error : InstallError)

/-- A call of `install_locked`. -/
structure Plan where
  session : SessionId
  definitions : Definitions
  caller : Caller

/-- The await point at which a transition is suspended. `next` is the installation that follows a
    deactivation. -/
inductive Pc where
  /-- `reconcile`: the first `active.lock()` -/
  | checking (session : SessionId) (definitions : Definitions)
  /-- `reconcile`: the second `active.lock()` -/
  | previous (session : SessionId) (definitions : Definitions)
  /-- `deactivate_locked`: `active.lock()` -/
  | taking (expected : Option SessionId) (next : Option Plan)
  /-- `deactivate_locked`: `runtime.unregister(..)` of the first identifier -/
  | unregistering (ids : List DeviceId) (next : Option Plan)
  /-- `install_locked`: the first `active.lock()` -/
  | setting (plan : Plan)
  /-- `install_locked`: `runtime.register(..)` of the first device in `todo` -/
  | registering (plan : Plan) (todo : List Core.Device) (registered : List DeviceId)
  /-- `install_locked` after an error: `runtime.unregister(..)` of the first identifier -/
  | undoing (plan : Plan) (error : InstallError) (ids : List DeviceId)
  /-- `install_locked` after an error: `active.lock()` -/
  | clearing (plan : Plan) (error : InstallError)
  /-- `install_locked`: the last `active.lock()` -/
  | storing (plan : Plan) (registered : List DeviceId)

/-- Whether a transition runs inside a readiness attempt. -/
inductive Task where
  | readiness
  | background
  deriving DecidableEq

structure Instance where
  id : String
  core : Std.ExtTreeSet DeviceId
  active : Option Active
  transition : Option (Task × Pc)
  history : List Ended

def Instance.new (id : String) : Instance := ⟨id, ∅, none, none, []⟩

inductive Action where
  /-- `wait_ready` calls `activate` with the devices of the initialize response -/
  | activate (session : SessionId) (devices : List Api.Device)
  /-- a monitor calls `reconcile` -/
  | reconcile (session : SessionId) (devices : List Api.Device)
  /-- a monitor or `stop` calls `deactivate` -/
  | deactivate (expected : Option SessionId)
  /-- the transition runs to its next await point; `answer` is what the core says to a
      registration -/
  | advance (answer : Except RuntimeError Unit)
  /-- the supervisor drops the readiness attempt -/
  | abort

/-! ## The functions of the source -/

section

variable (s : Instance) (task : Task)

def Instance.goto (pc : Pc) : Instance := { s with transition := some (task, pc) }

def Instance.finish (ended : Ended) : Instance :=
  { s with transition := none, history := s.history ++ [ended] }

/-- `deactivate_locked` from its loop on, and what follows it. -/
def Instance.unregisterNext (next : Option Plan) : List DeviceId → Instance
  | [] => match next with
    | some plan => s.goto task (.setting plan)
    | none => s.finish .deactivated
  | ids => s.goto task (.unregistering ids next)

def Instance.registerNext (plan : Plan) (registered : List DeviceId) : List Core.Device → Instance
  | [] => s.goto task (.storing plan registered)
  | todo => s.goto task (.registering plan todo registered)

def Instance.undoNext (plan : Plan) (error : InstallError) : List DeviceId → Instance
  | [] => s.goto task (.clearing plan error)
  | ids => s.goto task (.undoing plan error ids)

/-- What the caller of `install_locked` does with its result. -/
def Instance.installed (plan : Plan) (result : Except InstallError Unit) : Instance :=
  match plan.caller, result with
  | .activate, result => s.finish (.activated result)
  | .reconcile _, .ok () => s.finish (.reconciled (.ok ()))
  | .reconcile previous, .error error =>
    s.goto task (.setting ⟨plan.session, previous, .rollback error⟩)
  | .rollback error, .ok () => s.finish (.reconciled (.error (.install error)))
  | .rollback error, .error rollback =>
    s.finish (.reconciled (.error (.restore error rollback)))

/-- The core's answer to a registration: a device that it has is refused. -/
def Instance.register (device : Core.Device) (answer : Except RuntimeError Unit) :
    Except RuntimeError Unit :=
  if device.id ∈ s.core then .error (.alreadyExists device.id.asStr) else answer

/-- The identity of the definitions, by their derived `PartialEq`. -/
def sameDefinitions (a b : Definitions) : Bool :=
  a.toList.isEqv b.toList fun x y => x.1 = y.1 && x.2.partialEq y.2

/-- The code from an await point to the next one. -/
def Instance.resume (answer : Except RuntimeError Unit) : Pc → Instance
  | .checking session definitions => match s.active with
    | none => s.finish (.reconciled (.error .notActive))
    | some active =>
      if active.session ≠ session then s.finish (.reconciled (.error .inactiveSession))
      else if sameDefinitions active.definitions definitions then s.finish (.reconciled (.ok ()))
      else s.goto task (.previous session definitions)
  | .previous session definitions => match s.active with
    | none => s.finish (.reconciled (.error .notActive))
    | some active => s.goto task
      (.taking (some session) (some ⟨session, definitions, .reconcile active.definitions⟩))
  | .taking expected next =>
    if expected.any fun session => s.active.all (·.session ≠ session) then
      s.unregisterNext task next []
    else
      let registered := (s.active.map Active.registered).getD []
      Instance.unregisterNext { s with active := none } task next registered.reverse
  | .unregistering [] next => s.unregisterNext task next []
  | .unregistering (id :: ids) next =>
    Instance.unregisterNext { s with core := s.core.erase id } task next ids
  | .setting plan =>
    Instance.registerNext
      { s with active := some ⟨plan.session, plan.definitions, []⟩ } task plan []
      plan.definitions.values
  | .registering plan [] registered => s.registerNext task plan registered []
  | .registering plan (device :: todo) registered => match s.register device answer with
    | .ok () => Instance.registerNext { s with core := s.core.insert device.id } task plan
        (registered ++ [device.id]) todo
    | .error error => s.undoNext task plan ⟨device.id, error⟩ registered.reverse
  | .undoing plan error [] => s.undoNext task plan error []
  | .undoing plan error (id :: ids) =>
    Instance.undoNext { s with core := s.core.erase id } task plan error ids
  | .clearing plan error =>
    Instance.installed { s with active := none } task plan (.error error)
  | .storing plan registered =>
    Instance.installed
      { s with
        active := s.active.map fun active =>
          if active.session = plan.session then { active with registered } else active }
      task plan (.ok ())

end

def Instance.step (s : Instance) : Action → Option Instance
  | .activate session devices => match s.transition, convertDevices s.id devices with
    | none, .ok definitions => some
      (s.goto .readiness (.taking none (some ⟨session, definitions, .activate⟩)))
    | _, _ => none
  | .reconcile session devices => match s.transition, convertDevices s.id devices with
    | none, .ok definitions => some (s.goto .background (.checking session definitions))
    | _, _ => none
  | .deactivate expected => match s.transition with
    | none => some (s.goto .background (.taking expected none))
    | some _ => none
  | .advance answer => s.transition.map fun (task, pc) => s.resume task answer pc
  | .abort => match s.transition with
    | some (.readiness, _) => some { s with transition := none }
    | _ => none

/-! ## What is registered and what is listed -/

/-- The devices that the active session lists. -/
def Instance.listed (s : Instance) : List DeviceId := (s.active.map Active.registered).getD []

/-- The devices that only the transition knows of. -/
def Pc.owed : Pc → List DeviceId
  | .unregistering ids _ | .undoing _ _ ids => ids
  | .registering _ _ registered | .storing _ registered => registered
  | _ => []

def Instance.owed (s : Instance) : List DeviceId := (s.transition.map fun p => p.2.owed).getD []

/-- No readiness attempt is dropped while only it knows of a device. -/
def accounted (s : Instance) : Action → Bool
  | .abort => s.owed.isEmpty
  | _ => true

/-- What a transition knows of the active session at its await point. -/
def PcOk (active : Option Active) : Pc → Prop
  | .checking .. => True
  | .previous session _ => ∃ a, active = some a ∧ a.session = session
  | .taking expected next => ∀ session plan, expected = some session → next = some plan →
    ∃ a, active = some a ∧ a.session = session
  | .unregistering .. | .setting _ => active = none
  | .registering plan .. | .undoing plan .. | .clearing plan _ | .storing plan _ =>
    ∃ a, active = some a ∧ a.session = plan.session ∧ a.registered = []

structure Instance.Ok (s : Instance) : Prop where
  core : ∀ d, d ∈ s.core ↔ d ∈ s.listed ∨ d ∈ s.owed
  listed : s.listed.Nodup
  owed : s.owed.Nodup
  pc : ∀ task pc, s.transition = some (task, pc) → PcOk s.active pc

section Functions

variable {s : Instance} {task : Task}

theorem goto_ok {pc : Pc} (hcore : ∀ d, d ∈ s.core ↔ d ∈ s.listed ∨ d ∈ pc.owed)
    (hl : s.listed.Nodup) (ho : pc.owed.Nodup) (hpc : PcOk s.active pc) :
    (s.goto task pc).Ok := by
  refine ⟨hcore, hl, ho, ?_⟩
  rintro _ _ ⟨⟩
  exact hpc

theorem finish_ok {ended : Ended} (hcore : ∀ d, d ∈ s.core ↔ d ∈ s.listed)
    (hl : s.listed.Nodup) : (s.finish ended).Ok := by
  refine ⟨fun d => ?_, hl, List.nodup_nil, by simp [Instance.finish]⟩
  exact (hcore d).trans (or_iff_left List.not_mem_nil).symm

theorem listed_of_none (h : s.active = none) : s.listed = [] := by
  simp [Instance.listed, h]

/-- A new active session lists nothing yet. -/
theorem listed_of_new {plan : Plan}
    (h : ∃ a, s.active = some a ∧ a.session = plan.session ∧ a.registered = []) :
    s.listed = [] := by
  obtain ⟨a, ha, -, hr⟩ := h
  simp [Instance.listed, ha, hr]

theorem unregisterNext_ok {next : Option Plan} {ids : List DeviceId} (ha : s.active = none)
    (hcore : ∀ d, d ∈ s.core ↔ d ∈ ids) (ho : ids.Nodup) :
    (s.unregisterNext task next ids).Ok := by
  have hl := listed_of_none ha
  cases ids with
  | nil =>
    cases next with
    | none => exact finish_ok (by simpa [hl] using hcore) (by simp [hl])
    | some plan => exact goto_ok (by simpa [hl, Pc.owed] using hcore) (by simp [hl]) ho ha
  | cons id ids => exact goto_ok (by simpa [hl, Pc.owed] using hcore) (by simp [hl]) ho ha

theorem registerNext_ok {plan : Plan} {todo : List Core.Device} {registered : List DeviceId}
    (ha : ∃ a, s.active = some a ∧ a.session = plan.session ∧ a.registered = [])
    (hcore : ∀ d, d ∈ s.core ↔ d ∈ registered) (ho : registered.Nodup) :
    (s.registerNext task plan registered todo).Ok := by
  have hl := listed_of_new ha
  cases todo <;> exact goto_ok (by simpa [hl, Pc.owed] using hcore) (by simp [hl]) ho ha

theorem undoNext_ok {plan : Plan} {error : InstallError} {ids : List DeviceId}
    (ha : ∃ a, s.active = some a ∧ a.session = plan.session ∧ a.registered = [])
    (hcore : ∀ d, d ∈ s.core ↔ d ∈ ids) (ho : ids.Nodup) :
    (s.undoNext task plan error ids).Ok := by
  have hl := listed_of_new ha
  cases ids <;> exact goto_ok (by simpa [hl, Pc.owed] using hcore) (by simp [hl]) ho ha

/-- A failed installation leaves nothing active. -/
theorem installed_ok {plan : Plan} {result : Except InstallError Unit}
    (hcore : ∀ d, d ∈ s.core ↔ d ∈ s.listed) (hl : s.listed.Nodup)
    (hfail : ∀ error, result = .error error → s.active = none) :
    (s.installed task plan result).Ok := by
  unfold Instance.installed
  split
  · exact finish_ok hcore hl
  · exact finish_ok hcore hl
  · refine goto_ok (fun d => ?_) hl List.nodup_nil (hfail _ rfl)
    exact (hcore d).trans (or_iff_left List.not_mem_nil).symm
  · exact finish_ok hcore hl
  · exact finish_ok hcore hl

end Functions

/-! ## One step -/

/-- The core without a device that is unregistered. -/
theorem mem_core_erase {s : Instance} {id : DeviceId} {ids : List DeviceId}
    (hcore : ∀ d, d ∈ s.core ↔ d ∈ id :: ids) (ho : (id :: ids).Nodup) (d : DeviceId) :
    d ∈ s.core.erase id ↔ d ∈ ids := by
  rw [Std.ExtTreeSet.mem_erase, hcore, List.mem_cons, Std.compare_ne_eq_iff_ne]
  rw [List.nodup_cons] at ho
  constructor
  · rintro ⟨hne, rfl | hd⟩
    · exact absurd rfl hne
    · exact hd
  · intro hd
    exact ⟨fun he => ho.1 (he ▸ hd), .inr hd⟩

theorem resume_ok {s : Instance} (h : s.Ok) {task : Task} {pc : Pc}
    (hpc : s.transition = some (task, pc)) (answer : Except RuntimeError Unit) :
    (s.resume task answer pc).Ok := by
  have hknown := h.pc task pc hpc
  have howed : s.owed = pc.owed := by simp [Instance.owed, hpc]
  have hcore := h.core
  rw [howed] at hcore
  have ho := howed ▸ h.owed
  -- where the transition owes nothing, the list is right already
  have hsame : pc.owed = [] → ∀ d, d ∈ s.core ↔ d ∈ s.listed := by
    intro hnil d
    rw [hcore, hnil]
    exact or_iff_left List.not_mem_nil
  cases pc with
  | checking session definitions =>
    simp only [Instance.resume]
    split
    · exact finish_ok (hsame rfl) h.listed
    · rename_i active ha
      split
      · exact finish_ok (hsame rfl) h.listed
      · rename_i hsession
        split
        · exact finish_ok (hsame rfl) h.listed
        · exact goto_ok hcore h.listed ho ⟨active, ha, not_not.mp hsession⟩
  | previous session definitions =>
    obtain ⟨active, ha, hs⟩ := hknown
    simp only [Instance.resume, ha]
    refine goto_ok hcore h.listed ho ?_
    rintro _ _ ⟨⟩ -
    exact ⟨active, ha, hs⟩
  | taking expected next =>
    simp only [Instance.resume]
    split
    · rename_i hmiss
      cases next with
      | none => exact finish_ok (hsame rfl) h.listed
      | some plan =>
        cases expected with
        | none => simp at hmiss
        | some session =>
          obtain ⟨a, ha, hs⟩ := hknown session plan rfl rfl
          simp [ha, hs] at hmiss
    · refine unregisterNext_ok rfl (fun d => ?_) (List.nodup_reverse.mpr h.listed)
      rw [List.mem_reverse]
      exact hsame rfl d
  | unregistering ids next =>
    have hmine : ∀ d, d ∈ s.core ↔ d ∈ ids := by simpa [listed_of_none hknown, Pc.owed] using hcore
    cases ids with
    | nil => exact unregisterNext_ok hknown hmine ho
    | cons id ids =>
      exact unregisterNext_ok hknown (mem_core_erase hmine ho) (List.nodup_cons.mp ho).2
  | setting plan =>
    refine registerNext_ok ⟨_, rfl, rfl, rfl⟩ (fun d => ?_) List.nodup_nil
    rw [hsame rfl d, listed_of_none hknown]
  | registering plan todo registered =>
    have hmine : ∀ d, d ∈ s.core ↔ d ∈ registered := by
      simpa [listed_of_new hknown, Pc.owed] using hcore
    cases todo with
    | nil =>
      show (s.registerNext task plan registered []).Ok
      exact registerNext_ok hknown hmine ho
    | cons device todo =>
      simp only [Instance.resume]
      split
      · rename_i hreg
        have hnew : device.id ∉ registered := by
          intro hm
          simp [Instance.register, hmine, hm] at hreg
        refine registerNext_ok hknown (fun d => ?_) ?_
        · rw [Std.ExtTreeSet.mem_insert, Std.compare_eq_iff_eq, hmine, List.mem_append,
            List.mem_singleton, or_comm, eq_comm]
        · refine List.nodup_append.mpr ⟨ho, by simp, ?_⟩
          rintro d hd d' hd' rfl
          exact hnew (List.mem_singleton.mp hd' ▸ hd)
      · refine undoNext_ok hknown (fun d => ?_) (List.nodup_reverse.mpr ho)
        rw [List.mem_reverse]
        exact hmine d
  | undoing plan error ids =>
    have hmine : ∀ d, d ∈ s.core ↔ d ∈ ids := by
      simpa [listed_of_new hknown, Pc.owed] using hcore
    cases ids with
    | nil => exact undoNext_ok hknown hmine ho
    | cons id ids =>
      exact undoNext_ok hknown (mem_core_erase hmine ho) (List.nodup_cons.mp ho).2
  | clearing plan error =>
    refine installed_ok (fun d => ?_) List.nodup_nil fun _ _ => rfl
    rw [hsame rfl d, listed_of_new hknown]
    rfl
  | storing plan registered =>
    obtain ⟨active, ha, hs, hr⟩ := id hknown
    have hlisted : Instance.listed
        { s with
          active := s.active.map fun active =>
            if active.session = plan.session then { active with registered } else active } =
        registered := by simp [Instance.listed, ha, hs]
    refine installed_ok (fun d => ?_) (by rw [hlisted]; exact ho) (by simp)
    rw [hlisted]
    exact (hcore d).trans (by simp [listed_of_new hknown, Pc.owed])

theorem step_instance {s s' : Instance} {a : Action} (h : s.Ok) (ha : accounted s a = true)
    (hs : s.step a = some s') : s'.Ok := by
  have hidle : s.transition = none → ∀ task pc, pc.owed = [] → PcOk s.active pc →
      (s.goto task pc).Ok := by
    intro hnone task pc howed hpc
    have hcore := h.core
    simp only [Instance.owed, hnone] at hcore
    exact goto_ok (howed ▸ hcore) h.listed (howed ▸ List.nodup_nil) hpc
  cases a with
  | activate session devices =>
    simp only [Instance.step] at hs
    split at hs
    · rename_i hnone _
      cases Option.some.inj hs
      refine hidle hnone _ _ rfl ?_
      rintro _ _ ⟨⟩
    · simp at hs
  | reconcile session devices =>
    simp only [Instance.step] at hs
    split at hs
    · rename_i hnone _
      cases Option.some.inj hs
      exact hidle hnone _ _ rfl trivial
    · simp at hs
  | deactivate expected =>
    simp only [Instance.step] at hs
    split at hs
    · rename_i hnone
      cases Option.some.inj hs
      refine hidle hnone _ _ rfl ?_
      rintro _ _ - ⟨⟩
    · simp at hs
  | advance answer =>
    simp only [Instance.step, Option.map_eq_some_iff, Prod.exists] at hs
    obtain ⟨task, pc, hpc, rfl⟩ := hs
    exact resume_ok h hpc answer
  | abort =>
    simp only [Instance.step] at hs
    split at hs
    · cases Option.some.inj hs
      have hcore := h.core
      rw [List.isEmpty_iff.mp ha] at hcore
      exact ⟨hcore, h.listed, List.nodup_nil, by simp⟩
    · simp at hs

theorem new_instance (id : String) : (Instance.new id).Ok :=
  ⟨by simp [Instance.new, Instance.listed, Instance.owed], List.nodup_nil, List.nodup_nil,
    by simp [Instance.new]⟩

/-- In a run in which no readiness attempt is dropped while only it knows of a device, whenever no
    transition is in progress the devices that are registered are those that the active session
    lists. -/
theorem registered_listed {id : String} {as : List Action} {s : Instance}
    (hrun : Machine.run Instance.step (Instance.new id) as = some s)
    (hmeets : Machine.Meets Instance.step (fun s a => accounted s a = true) (Instance.new id) as)
    (hidle : s.transition = none) : ∀ d, d ∈ s.core ↔ d ∈ s.listed := by
  have hok : s.Ok := Machine.run_inv_of_meets (fun _ _ _ h ha hs => step_instance h ha hs)
    (new_instance id) hmeets hrun
  intro d
  rw [hok.core, Instance.owed, hidle]
  exact or_iff_left List.not_mem_nil

/-- The condition is needed: an attempt that is dropped while only it knows of a device leaves one
    behind. -/
theorem leaked_of_abort {s s' : Instance} (h : s.Ok) (ha : accounted s .abort = false)
    (hs : s.step .abort = some s') :
    s'.transition = none ∧ ∃ d, d ∈ s'.core ∧ d ∉ s'.listed := by
  simp only [Instance.step] at hs
  split at hs
  · rename_i pc hpc
    cases Option.some.inj hs
    refine ⟨rfl, ?_⟩
    have hknown := h.pc _ _ hpc
    have howed : s.owed = pc.owed := by simp [Instance.owed, hpc]
    have hne : pc.owed ≠ [] := by simpa [accounted, howed] using ha
    obtain ⟨d, hd⟩ := List.exists_mem_of_ne_nil _ hne
    refine ⟨d, (h.core d).mpr (.inr (howed ▸ hd)), ?_⟩
    -- at every await point at which it owes something, nothing is listed
    have hl : s.listed = [] := by
      cases pc with
      | unregistering ids next => exact listed_of_none hknown
      | registering plan todo registered => exact listed_of_new hknown
      | undoing plan error ids => exact listed_of_new hknown
      | storing plan registered => exact listed_of_new hknown
      | _ => exact absurd rfl hne
    exact fun hm => List.not_mem_nil (hl ▸ hm)
  · simp at hs

/-- The first attempt of the garden's plugin is ready, and then its session fails. -/
def gardenReady : List Action :=
  .activate 0 [probe "shed", probe "pond"] :: List.replicate 5 (.advance (.ok ())) ++
    [.deactivate (some 0), .advance (.ok ()), .advance (.ok ()), .advance (.ok ())] ++
    .activate 1 [probe "shed"] :: List.replicate 4 (.advance (.ok ()))

theorem registered_gardenReady :
    let s := (Machine.run Instance.step (Instance.new "garden") gardenReady).get (by decide +kernel)
    s.listed = [⟨"plugin.garden.shed", by decide⟩] ∧ ∀ d, d ∈ s.core ↔ d ∈ s.listed :=
  ⟨by decide +kernel, registered_listed (Option.some_get _).symm
    (Machine.meets_of_allows (by decide +kernel)) (by decide +kernel)⟩

/-- The attempt times out while the core saves the second device. -/
def gardenLeaked : List Action :=
  [.activate 0 [probe "shed", probe "pond"], .advance (.ok ()), .advance (.ok ()),
    .advance (.ok ()), .abort]

theorem not_listed_gardenLeaked :
    ¬∀ as s, Machine.run Instance.step (Instance.new "garden") as = some s →
      s.transition = none → ∀ d, d ∈ s.core ↔ d ∈ s.listed := by
  intro hall
  have hcore := hall gardenLeaked _ (Option.some_get (by decide +kernel)).symm (by decide +kernel)
    ⟨"plugin.garden.pond", by decide⟩
  exact absurd hcore (by decide +kernel)

end Oikade.Plugin
