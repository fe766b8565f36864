/-
  Two instances of an adapter that meet the same things but for the message texts of the adapter's
  error responses.

  `Instance.Alike`: everything but the sessions is the same. A session's failure may have another
  text once the run is monitored; before that, while `wait_ready` reads it, it is the same. So a
  readiness attempt returns the same unless it is ended by an error response (`quiet`).
-/
import Oikade.Adapter.Instance

namespace Oikade.AdapterHost

open Adapter Session

/-! ## The relation -/

/-- The run that a readiness attempt prepares. -/
def Readiness.run? : Readiness → Option Nat
  | .begin run | .hello run | .initializing run _ | .subscribe run | .snapshot run | .sync run _ _
  | .health run _ | .activate run => some run
  | .returned _ => none

structure Instance.Alike (i j : Instance) : Prop where
  spec : i.spec = j.spec
  loop : i.loop = j.loop
  launched : i.launched = j.launched
  readiness : i.readiness = j.readiness
  active : i.active = j.active
  monitors : i.monitors = j.monitors
  reportedVersion : i.reportedVersion = j.reportedVersion
  operation : i.operation = j.operation
  states : ∀ run, (i.runs run).state = (j.runs run).state
  sessions : ∀ run, (i.runs run).session.Alike (i.monitors run).isNone (j.runs run).session
  /-- a run is not monitored while it is prepared -/
  prepared : ∀ run, i.readiness.bind Readiness.run? = some run → i.monitors run = none

inductive Action.Alike : Action → Action → Prop
  | refl (a : Action) : Alike a a
  | receive (run : Nat) {f f' : Frame} (h : f.Alike f') :
    Alike (.session run (.receive f)) (.session run (.receive f'))

/-- The call that a readiness attempt is in. -/
def Readiness.call? : Readiness → Option (Nat × CallId)
  | .initializing run k | .sync run k _ | .health run k => some (run, k)
  | _ => none

/-- The call of the readiness attempt has returned an error response of the adapter. -/
def Instance.protocolError (inst : Instance) : Bool :=
  match inst.readiness.bind Readiness.call? with
  | some (run, k) => match (inst.runs run).session.outcome k with
    | some (.error (.protocol _ _)) => true
    | _ => false
  | none => false

/-- The step does not end a readiness attempt by an error response. -/
def Instance.quiet (inst : Instance) : Action → Bool
  | .readiness (.take _) => !inst.protocolError
  | _ => true

variable {F : Formats} {i j : Instance} {run : Nat}

/-! ## Small steps -/

theorem Sys.alike_unlow {low : Bool} {s t : Sys} (h : s.Alike low t) : s.Alike false t := by
  cases low with
  | true => exact h.weaken
  | false => exact h

theorem Instance.Alike.setReadiness (h : i.Alike j) {r : Option Readiness}
    (hr : ∀ run, r.bind Readiness.run? = some run → i.monitors run = none) :
    Instance.Alike { i with readiness := r } { j with readiness := r } where
  __ := h
  readiness := rfl
  prepared := hr

theorem Instance.Alike.setLoop (h : i.Alike j) (loop : Supervisor.Loop) :
    Instance.Alike { i with loop } { j with loop } where
  __ := h
  loop := rfl

/-- A step of a session touches no monitor. -/
theorem Instance.Alike.onSession (h : i.Alike j) {a b : Session.Action}
    (hab : a.Alike (i.monitors run).isNone b) :
    Option.Rel (fun i' j' => i'.Alike j' ∧ i'.monitors = i.monitors)
      (i.onSession run a) (j.onSession run b) := by
  unfold Instance.onSession
  refine Machine.rel_map (fun s t hst => ⟨?_, rfl⟩) (Session.alike_step (h.sessions run) hab)
  exact { h with
    states := fun other => by
      by_cases ho : other = run
      · subst ho
        simpa using h.states other
      · simpa [ho] using h.states other
    sessions := fun other => by
      by_cases ho : other = run
      · subst ho
        simpa using hst
      · simpa [ho] using h.sessions other }

theorem Instance.Alike.call (h : i.Alike j) {α : Type} {k : CallId} {method : String}
    {decode : String → Except String α} :
    Option.Rel (fun i' j' => i'.Alike j' ∧ i'.monitors = i.monitors)
      (i.call F run k method decode) (j.call F run k method decode) :=
  h.onSession (.refl _)

/-- The step of a session, where it is taken at all. -/
theorem Instance.Alike.getD_onSession (h : i.Alike j) {a b : Session.Action}
    (hab : a.Alike (i.monitors run).isNone b) :
    ((i.onSession run a).getD i).Alike ((j.onSession run b).getD j) ∧
      ((i.onSession run a).getD i).monitors = i.monitors := by
  have hrel := h.onSession hab
  generalize i.onSession run a = x at hrel
  generalize j.onSession run b = y at hrel
  cases hrel with
  | none => exact ⟨h, rfl⟩
  | some h => exact h

theorem Instance.Alike.failSession (h : i.Alike j) (message message' : String)
    (hm : i.monitors run = none → message = message') :
    (i.failSession run message).Alike (j.failSession run message') ∧
      (i.failSession run message).monitors = i.monitors := by
  refine h.getD_onSession ?_
  cases hrun : i.monitors run with
  | none =>
    rw [hm hrun]
    exact .refl _
  | some _ => exact .fail _ _ rfl

theorem Instance.Alike.setRun (h : i.Alike j) {state : RunState} :
    (i.setRun run state).Alike (j.setRun run state) where
  __ := h
  states other := by
    by_cases ho : other = run
    · subst ho
      simp [Instance.setRun]
    · simpa [Instance.setRun, ho] using h.states other
  sessions other := by
    by_cases ho : other = run
    · subst ho
      simpa [Instance.setRun] using h.sessions other
    · simpa [Instance.setRun, ho] using h.sessions other

theorem Instance.Alike.setMonitor (h : i.Alike j) (hrun : i.monitors run ≠ none)
    {monitor : Monitor} : (i.setMonitor run monitor).Alike (j.setMonitor run monitor) where
  __ := h
  monitors := by
    show Function.update i.monitors run _ = Function.update j.monitors run _
    rw [h.monitors]
  sessions other := by
    by_cases ho : other = run
    · subst ho
      have hs := Sys.alike_unlow (h.sessions other)
      simpa [Instance.setMonitor] using hs
    · simpa [Instance.setMonitor, ho] using h.sessions other
  prepared other hother := by
    have hnone := h.prepared other hother
    have ho : other ≠ run := by
      rintro rfl
      exact hrun hnone
    simpa [Instance.setMonitor, ho] using hnone

theorem Instance.Alike.giveUp (h : i.Alike j) (hrun : i.monitors run ≠ none)
    (message message' : String) : (i.giveUp run message).Alike (j.giveUp run message') := by
  obtain ⟨hfail, hmonitors⟩ := h.failSession message message' fun hnone => absurd hnone hrun
  exact hfail.setMonitor (by rw [hmonitors]; exact hrun)

theorem Instance.Alike.endReadiness (h : i.Alike j) (result : Except String Unit) :
    (i.endReadiness result).Alike (j.endReadiness result) :=
  h.setReadiness fun _ hr => by cases hr

/-! ## Outcomes of calls -/

theorem eq_of_no_protocolError {o o' : Outcome} (h : OutcomeAlike true o o')
    (hq : ∀ code message, o ≠ .error (.protocol code message)) : o = o' := by
  cases h with
  | refl => rfl
  | protocol code message message' => exact absurd rfl (hq code message)
  | closed f g hlow => cases hlow

/-- The same response, or two errors that are alike. -/
theorem taken_cases {α : Type} {low : Bool} (decode : String → Except String α) {o o' : Outcome}
    (h : OutcomeAlike low o o') :
    (∃ x, taken decode o = .ok x ∧ taken decode o' = .ok x) ∨
      ∃ e e', taken decode o = .error e ∧ taken decode o' = .error e' ∧
        OutcomeAlike low (.error e) (.error e') := by
  cases h with
  | refl =>
    cases hx : taken decode o with
    | ok x => exact .inl ⟨x, rfl, rfl⟩
    | error e => exact .inr ⟨e, e, rfl, rfl, .refl _⟩
  | protocol code message message' => exact .inr ⟨_, _, rfl, rfl, .protocol _ _ _⟩
  | closed f g hlow => exact .inr ⟨_, _, rfl, rfl, .closed _ _ hlow⟩

/-! ## Readiness -/

/-- The next stage of a readiness attempt, after a call of the session. -/
theorem alike_nextStage {x y : Option Instance} {r : Readiness} (hrun : i.monitors run = none)
    (hr : r.run? = some run)
    (hxy : Option.Rel (fun i' j' => i'.Alike j' ∧ i'.monitors = i.monitors) x y) :
    Option.Rel Instance.Alike (x.map fun inst => { inst with readiness := some r })
      (y.map fun inst => { inst with readiness := some r }) := by
  refine Machine.rel_map (fun i' j' hij => hij.1.setReadiness fun other hother => ?_) hxy
  rw [Option.bind_some, hr, Option.some.injEq] at hother
  rw [hij.2, ← hother]
  exact hrun

section Ready

variable (h : i.Alike j) (hrun : i.monitors run = none)

include h hrun

theorem Instance.Alike.greeted (hello : Hello) (k : CallId) :
    Option.Rel Instance.Alike (i.greeted F run hello k) (j.greeted F run hello k) := by
  have hvalid : validateHello i.spec hello = validateHello j.spec hello := by rw [h.spec]
  unfold Instance.greeted
  rw [hvalid]
  split
  · exact .some (h.endReadiness _)
  · have hversion : Instance.Alike { i with reportedVersion := some hello.adapterVersion }
        { j with reportedVersion := some hello.adapterVersion } := { h with reportedVersion := rfl }
    exact alike_nextStage hrun rfl hversion.call

theorem Instance.Alike.initialized (outcome : Outcome) :
    (i.initialized F run outcome).Alike (j.initialized F run outcome) := by
  unfold Instance.initialized
  split
  · exact h.endReadiness _
  · split
    · exact h.setReadiness fun other hother => by cases hother; exact hrun
    · exact h.endReadiness _

theorem Instance.Alike.readySnapshot (snapshot : Core.Snapshot) (k : CallId) :
    Option.Rel Instance.Alike (i.readySnapshot F run snapshot k)
      (j.readySnapshot F run snapshot k) := by
  unfold Instance.readySnapshot
  rw [h.states run]
  split
  · exact .some (h.endReadiness _)
  · exact alike_nextStage hrun rfl h.call

theorem Instance.Alike.readySynced (request : SyncRequest) (k : CallId) (outcome : Outcome) :
    Option.Rel Instance.Alike (i.readySynced F run request k outcome)
      (j.readySynced F run request k outcome) := by
  unfold Instance.readySynced
  rw [h.states run]
  split
  · exact .some (h.endReadiness _)
  · split
    · exact .some (h.endReadiness _)
    · exact alike_nextStage hrun rfl h.setRun.call

theorem Instance.Alike.readyRefreshed (outcome : Outcome) :
    (i.readyRefreshed F run outcome).Alike (j.readyRefreshed F run outcome) := by
  unfold Instance.readyRefreshed
  rw [h.states run]
  split
  · exact h.endReadiness _
  · split
    · exact h.endReadiness _
    · exact h.setRun.setReadiness fun other hother => by cases hother; exact hrun

omit hrun in
/-- The run is monitored from now on. -/
theorem Instance.Alike.monitored :
    Instance.Alike
      { i with
        active := some run
        monitors := Function.update i.monitors run (some .idle)
        readiness := some (.returned (.ok ())) }
      { j with
        active := some run
        monitors := Function.update j.monitors run (some .idle)
        readiness := some (.returned (.ok ())) } where
  __ := h
  active := rfl
  monitors := by rw [h.monitors]
  readiness := rfl
  sessions other := by
    by_cases ho : other = run
    · subst ho
      have hs := Sys.alike_unlow (h.sessions other)
      simpa using hs
    · simpa [ho] using h.sessions other
  prepared other hother := by cases hother

omit hrun in
theorem Instance.Alike.activate : (i.activate run).Alike (j.activate run) := by
  unfold Instance.activate
  rw [h.active]
  split
  · exact (h.failSession _ _ fun _ => rfl).1.monitored
  · exact h.monitored

end Ready

/-- A readiness attempt goes on with a call that has returned no error response. -/
theorem Instance.Alike.outcome_eq (h : i.Alike j) {r : Readiness} {k : CallId}
    (hi : i.readiness = some r) (hcall : r.call? = some (run, k)) (hrun : i.monitors run = none)
    (hq : i.protocolError = false) :
    (i.runs run).session.outcome k = (j.runs run).session.outcome k := by
  have hs := h.sessions run
  rw [hrun] at hs
  have ho := hs.outcome k
  unfold Instance.protocolError at hq
  rw [hi, Option.bind_some, hcall] at hq
  simp only at hq
  generalize (i.runs run).session.outcome k = x at ho hq
  generalize (j.runs run).session.outcome k = y at ho
  cases ho with
  | none => rfl
  | some ho =>
    rw [eq_of_no_protocolError ho]
    rintro code message rfl
    cases hq

/-- `wait_ready` goes on alike, unless it takes an error response. -/
theorem Instance.Alike.readyStep (h : i.Alike j) {input : ReadyInput}
    (hq : i.quiet (.readiness input) = true) :
    Option.Rel Instance.Alike (i.readyStep F input) (j.readyStep F input) := by
  have hprepared := h.prepared
  have hquiet : ∀ k, input = .take k → i.protocolError = false := by
    rintro k rfl
    simpa [Instance.quiet] using hq
  have hj := h.readiness
  cases hi : i.readiness with
  | none =>
    rw [hi] at hj
    simp only [Instance.readyStep, hi, ← hj]
    exact .none
  | some r =>
    rw [hi] at hj hprepared
    cases r with
    | begin run =>
      have hrun := hprepared run rfl
      cases input with
      | begin =>
        simp only [Instance.readyStep, hi, ← hj, h.loop]
        split
        · exact alike_nextStage hrun rfl (h.onSession (.refl _))
        · exact .none
      | _ =>
        simp only [Instance.readyStep, hi, ← hj]
        exact .none
    | hello run =>
      have hrun := hprepared run rfl
      have hsession := h.sessions run
      rw [hrun] at hsession
      cases input with
      | hello hello k =>
        simp only [Instance.readyStep, hi, ← hj, hsession.hello]
        split
        · exact h.greeted hrun hello k
        · exact .none
      | closed =>
        have hc : ((i.runs run).session.hello = false ∧ (i.runs run).session.reader = .stopped) ↔
            ((j.runs run).session.hello = false ∧ (j.runs run).session.reader = .stopped) := by
          rw [hsession.hello, hsession.reader.stopped_iff]
        simp only [Instance.readyStep, hi, ← hj, hc, hsession.failure_eq]
        split
        · exact .some (h.endReadiness _)
        · exact .none
      | timeout =>
        simp only [Instance.readyStep, hi, ← hj, hsession.hello]
        split
        · exact .none
        · exact .some (h.endReadiness _)
      | _ =>
        simp only [Instance.readyStep, hi, ← hj]
        exact .none
    | initializing run k =>
      have hrun := hprepared run rfl
      cases input with
      | take k' =>
        simp only [Instance.readyStep, hi, ← hj, h.outcome_eq hi rfl hrun (hquiet k' rfl)]
        cases (j.runs run).session.outcome k with
        | none => exact .none
        | some outcome => exact .some (h.initialized hrun outcome)
      | _ =>
        simp only [Instance.readyStep, hi, ← hj]
        exact .none
    | subscribe run =>
      have hrun := hprepared run rfl
      cases input with
      | subscribed result =>
        simp only [Instance.readyStep, hi, ← hj]
        split
        · exact .some (h.endReadiness _)
        · exact .some (h.setRun.setReadiness fun other hother => by cases hother; exact hrun)
      | _ =>
        simp only [Instance.readyStep, hi, ← hj]
        exact .none
    | snapshot run =>
      have hrun := hprepared run rfl
      cases input with
      | snapshot snapshot k =>
        simp only [Instance.readyStep, hi, ← hj]
        exact h.readySnapshot hrun snapshot k
      | _ =>
        simp only [Instance.readyStep, hi, ← hj]
        exact .none
    | sync run k request =>
      have hrun := hprepared run rfl
      cases input with
      | take k' =>
        simp only [Instance.readyStep, hi, ← hj, h.outcome_eq hi rfl hrun (hquiet k' rfl)]
        cases (j.runs run).session.outcome k with
        | none => exact .none
        | some outcome => exact h.readySynced hrun request k' outcome
      | _ =>
        simp only [Instance.readyStep, hi, ← hj]
        exact .none
    | health run k =>
      have hrun := hprepared run rfl
      cases input with
      | take k' =>
        simp only [Instance.readyStep, hi, ← hj, h.outcome_eq hi rfl hrun (hquiet k' rfl)]
        cases (j.runs run).session.outcome k with
        | none => exact .none
        | some outcome => exact .some (h.readyRefreshed hrun outcome)
      | _ =>
        simp only [Instance.readyStep, hi, ← hj]
        exact .none
    | activate run =>
      cases input with
      | activate =>
        simp only [Instance.readyStep, hi, ← hj]
        exact .some h.activate
      | _ =>
        simp only [Instance.readyStep, hi, ← hj]
        exact .none
    | returned result =>
      simp only [Instance.readyStep, hi, ← hj]
      exact .none

theorem Instance.Alike.dropReadiness (h : i.Alike j) : i.dropReadiness.Alike j.dropReadiness := by
  have hdrop : ∀ run k, Instance.Alike
      { (i.onSession run (.drop k)).getD i with readiness := none }
      { (j.onSession run (.drop k)).getD j with readiness := none } := by
    intro run k
    exact (h.getD_onSession (.refl _)).1.setReadiness fun _ hother => by cases hother
  unfold Instance.dropReadiness
  rw [← h.readiness]
  split
  · exact hdrop _ _
  · exact hdrop _ _
  · exact hdrop _ _
  · exact h.setReadiness fun _ hother => by cases hother

/-! ## The monitor -/

section Monitors

variable (h : i.Alike j) (hrun : i.monitors run ≠ none)

include h hrun

/-- The next stage of a monitor, after a call of the session. -/
theorem Instance.Alike.nextMonitor {α : Type} {k : CallId} {method : String}
    {decode : String → Except String α} {monitor : Monitor} :
    Option.Rel Instance.Alike
      ((i.call F run k method decode).map fun inst => inst.setMonitor run monitor)
      ((j.call F run k method decode).map fun inst => inst.setMonitor run monitor) := by
  refine Machine.rel_map (fun i' j' hij => hij.1.setMonitor ?_) h.call
  rw [hij.2]
  exact hrun

theorem Instance.Alike.stateEvent (event : Core.Event) (k : CallId) :
    Option.Rel Instance.Alike (i.stateEvent F run event k) (j.stateEvent F run event k) := by
  unfold Instance.stateEvent
  simp only [h.states run]
  split
  · exact .some h
  · split
    · exact .some (h.setMonitor hrun)
    · split
      · exact h.nextMonitor hrun
      · exact .some h

theorem Instance.Alike.monitorSnapshot (what : String) (snapshot : Core.Snapshot) (k : CallId) :
    Option.Rel Instance.Alike (i.monitorSnapshot F run what snapshot k)
      (j.monitorSnapshot F run what snapshot k) := by
  unfold Instance.monitorSnapshot
  rw [h.states run]
  split
  · exact .some (h.giveUp hrun _ _)
  · exact h.nextMonitor hrun

theorem Instance.Alike.monitorSynced {low : Bool} (request : SyncRequest) (what : String)
    {o o' : Outcome} (ho : OutcomeAlike low o o') :
    (i.monitorSynced F run request what o).Alike (j.monitorSynced F run request what o') := by
  unfold Instance.monitorSynced
  rw [h.states run]
  obtain ⟨response, hx, hy⟩ | ⟨e, e', hx, hy, -⟩ := taken_cases F.syncResponse ho
  · rw [hx, hy]
    dsimp only
    split
    · exact h.giveUp hrun _ _
    · exact h.setRun.setMonitor hrun
  · rw [hx, hy]
    exact h.giveUp hrun _ _

theorem Instance.Alike.monitorForwarded {low : Bool} {o o' : Outcome}
    (ho : OutcomeAlike low o o') :
    (i.monitorForwarded F run o).Alike (j.monitorForwarded F run o') := by
  unfold Instance.monitorForwarded
  obtain ⟨response, hx, hy⟩ | ⟨e, e', hx, hy, -⟩ := taken_cases F.eventResponse ho
  · rw [hx, hy]
    exact h.setMonitor hrun
  · rw [hx, hy]
    exact h.giveUp hrun _ _

theorem Instance.Alike.monitorRefreshed {low : Bool} {o o' : Outcome}
    (ho : OutcomeAlike low o o') :
    (i.monitorRefreshed F run o).Alike (j.monitorRefreshed F run o') := by
  unfold Instance.monitorRefreshed
  rw [h.states run]
  obtain ⟨response, hx, hy⟩ | ⟨e, e', hx, hy, -⟩ := taken_cases F.healthResponse ho
  · rw [hx, hy]
    dsimp only
    split
    · exact h.giveUp hrun _ _
    · exact h.setRun.setMonitor hrun
  · rw [hx, hy]
    exact h.giveUp hrun _ _

omit hrun in
theorem Instance.Alike.deactivate (run : Nat) : (i.deactivate run).Alike (j.deactivate run) ∧
    (i.deactivate run).monitors = i.monitors := by
  have hnone : Instance.Alike { i with active := none } { j with active := none } :=
    { h with active := rfl }
  have hc : i.active = some run ↔ j.active = some run := by rw [h.active]
  unfold Instance.deactivate
  by_cases hj : j.active = some run
  · rw [if_pos hj, if_pos (hc.mpr hj)]
    exact hnone.failSession _ _ fun _ => rfl
  · rw [if_neg hj, if_neg (mt hc.mp hj)]
    exact ⟨h, rfl⟩

end Monitors

theorem Instance.Alike.monitorStep (h : i.Alike j) (run : Nat) (input : MonitorInput) :
    Option.Rel Instance.Alike (i.monitorStep F run input) (j.monitorStep F run input) := by
  have hj := congrFun h.monitors run
  have houtcome := fun k => (h.sessions run).outcome k
  cases hi : i.monitors run with
  | none =>
    rw [hi] at hj
    simp only [Instance.monitorStep, hi, ← hj]
    exact .none
  | some monitor =>
    rw [hi] at hj
    have hrun : i.monitors run ≠ none := by rw [hi]; nofun
    cases monitor with
    | idle =>
      cases input with
      | state event k =>
        simp only [Instance.monitorStep, hi, ← hj]
        exact h.stateEvent hrun event k
      | topology revision =>
        simp only [Instance.monitorStep, hi, ← hj, h.states run]
        split
        · exact .some (h.setMonitor hrun)
        · exact .some h
      | closed =>
        simp only [Instance.monitorStep, hi, ← hj]
        exact .some (h.setMonitor hrun)
      | tick k =>
        simp only [Instance.monitorStep, hi, ← hj]
        exact h.nextMonitor hrun
      | failed =>
        simp only [Instance.monitorStep, hi, ← hj, (h.sessions run).failure_isSome]
        split
        · exact .some (h.setMonitor hrun)
        · exact .none
      | _ =>
        simp only [Instance.monitorStep, hi, ← hj]
        exact .none
    | snapshot what =>
      cases input with
      | snapshot snapshot k =>
        simp only [Instance.monitorStep, hi, ← hj]
        exact h.monitorSnapshot hrun what snapshot k
      | _ =>
        simp only [Instance.monitorStep, hi, ← hj]
        exact .none
    | sync k request what =>
      cases input with
      | take =>
        simp only [Instance.monitorStep, hi, ← hj]
        exact Machine.rel_map (fun _ _ ho => h.monitorSynced hrun request what ho) (houtcome k)
      | _ =>
        simp only [Instance.monitorStep, hi, ← hj]
        exact .none
    | event k =>
      cases input with
      | take =>
        simp only [Instance.monitorStep, hi, ← hj]
        exact Machine.rel_map (fun _ _ ho => h.monitorForwarded hrun ho) (houtcome k)
      | _ =>
        simp only [Instance.monitorStep, hi, ← hj]
        exact .none
    | health k =>
      cases input with
      | take =>
        simp only [Instance.monitorStep, hi, ← hj]
        exact Machine.rel_map (fun _ _ ho => h.monitorRefreshed hrun ho) (houtcome k)
      | _ =>
        simp only [Instance.monitorStep, hi, ← hj]
        exact .none
    | leaving =>
      cases input with
      | deactivate =>
        obtain ⟨hd, hm⟩ := h.deactivate run
        simp only [Instance.monitorStep, hi, ← hj]
        exact .some (hd.setMonitor (by rw [hm]; exact hrun))
      | _ =>
        simp only [Instance.monitorStep, hi, ← hj]
        exact .none
    | ended =>
      simp only [Instance.monitorStep, hi, ← hj]
      exact .none

/-! ## The machine -/

theorem Instance.Alike.prepare (h : i.Alike j) {loop : Supervisor.Loop} {r : Option Readiness}
    (hr : ∀ run, r.bind Readiness.run? = some run → run = i.launched) :
    Instance.Alike { i.prepare with loop, readiness := r } { j.prepare with loop, readiness := r } where
  __ := h
  loop := rfl
  launched := by
    show i.launched + 1 = j.launched + 1
    rw [h.launched]
  readiness := rfl
  monitors := by
    show Function.update i.monitors i.launched none = Function.update j.monitors j.launched none
    rw [h.monitors, h.launched]
  states run := by
    show (Function.update i.runs i.launched _ run).state = (Function.update j.runs j.launched _ run).state
    rw [h.launched]
    by_cases hr : run = j.launched
    · simp [hr]
    · simpa [hr] using h.states run
  sessions run := by
    show (Function.update i.runs i.launched _ run).session.Alike
      (Function.update i.monitors i.launched none run).isNone
      (Function.update j.runs j.launched _ run).session
    rw [h.launched]
    by_cases hr : run = j.launched
    · subst hr
      simpa using Sys.Alike.refl _
    · simpa [hr] using h.sessions run
  prepared run hrun := by
    show Function.update i.monitors i.launched none run = none
    rw [hr run hrun]
    simp

theorem Instance.Alike.ownSession (h : i.Alike j) {a b : Session.Action}
    (hown : ownStep a = ownStep b) (hab : a.Alike (i.monitors run).isNone b) :
    Option.Rel Instance.Alike (i.step F (.session run a)) (j.step F (.session run b)) := by
  simp only [Instance.step]
  rw [hown, h.launched]
  split
  · exact Machine.rel_imp (fun _ _ h => h.1) (h.onSession hab)
  · exact .none

theorem Instance.Alike.superviseStep_eq (h : i.Alike j) (a : Supervisor.Action) :
    Supervisor.step i.spec.process i.loop a = Supervisor.step j.spec.process j.loop a := by
  rw [h.spec, h.loop]

/-- The supervisor takes the same step in both. -/
theorem Instance.Alike.supervised (h : i.Alike j) {i' j' : Instance} (h' : i'.Alike j')
    (a : Supervisor.Action) :
    Option.Rel Instance.Alike
      ((Supervisor.step i.spec.process i.loop a).map fun loop => { i' with loop })
      ((Supervisor.step j.spec.process j.loop a).map fun loop => { j' with loop }) := by
  rw [h.superviseStep_eq]
  cases Supervisor.step j.spec.process j.loop a with
  | none => exact .none
  | some loop => exact .some (h'.setLoop loop)

theorem Instance.Alike.launch (h : i.Alike j) (prepared : Bool)
    (result : Except String (Option Nat)) :
    Option.Rel Instance.Alike (i.step F (.launch prepared result))
      (j.step F (.launch prepared result)) := by
  simp only [Instance.step]
  rw [h.superviseStep_eq]
  cases Supervisor.step j.spec.process j.loop (.launch result) with
  | none => exact .none
  | some loop =>
    cases prepared with
    | false =>
      cases result with
      | error e => exact .some (h.setLoop loop)
      | ok pid => exact .none
    | true =>
      cases result with
      | error e => exact .some (h.prepare fun run hrun => by cases hrun)
      | ok pid =>
        simp only [Option.bind_some]
        rw [← h.launched]
        exact .some (h.prepare fun run hrun => by cases hrun; rfl)

theorem Instance.Alike.ready (h : i.Alike j) (startedAt : Nat) :
    Option.Rel Instance.Alike (i.step F (.ready startedAt)) (j.step F (.ready startedAt)) := by
  simp only [Instance.step]
  rw [← h.readiness]
  split
  · have hnone : Instance.Alike { i with readiness := none } { j with readiness := none } :=
      h.setReadiness fun _ hother => by cases hother
    exact h.supervised hnone _
  · exact .none

/-- Alike instances stay alike under the same actions, but for the messages of error responses. -/
theorem Instance.Alike.step (h : i.Alike j) {a b : Action} (hab : a.Alike b)
    (hq : i.quiet a = true) : Option.Rel Instance.Alike (i.step F a) (j.step F b) := by
  cases hab with
  | receive run hf => exact h.ownSession rfl (.receive hf)
  | refl =>
    cases a with
    | session run a => exact h.ownSession rfl (.refl a)
    | launch prepared result => exact h.launch prepared result
    | supervise a =>
      simp only [Instance.step]
      split
      · exact h.supervised h a
      · split
        · exact h.supervised h.dropReadiness a
        · exact .none
    | ready startedAt => exact h.ready startedAt
    | readiness input => exact h.readyStep hq
    | monitor run input => exact h.monitorStep run input

end Oikade.AdapterHost
