/-
  The texts of the adapters' error responses and the answers of the admin endpoints.

  Two runs of the daemon get the same things but for those texts. On the paths of the operations the
  text is dropped (`mapSessionError`, `adapterFailure`), and what the monitor puts into the failure
  of a session comes back as the failure of an operation. But `wait_ready` returns the text, the
  supervisor keeps it as its last error, and the statuses show that. So the answers are the same in
  runs in which no readiness attempt is ended by an error response (`responses_eq_of_quiet`), and
  `responses_differ` shows two runs whose answers differ after a restart.
-/
import Oikade.Adapter.Alike
import Oikade.Admin.Server

namespace Oikade.Admin

open AdapterHost Session

structure Daemon.Alike (d e : Daemon) : Prop where
  count : d.count = e.count
  serving : d.serving = e.serving
  tasks : d.tasks = e.tasks
  responses : d.responses = e.responses
  adapters : ∀ i, (d.adapters i).Alike (e.adapters i)

/-- The same action, but for the messages of the adapters' error responses. -/
inductive Action.Alike : Action → Action → Prop
  | refl (a : Action) : Alike a a
  | adapter (i : Nat) {a b : AdapterHost.Action} (h : a.Alike b) : Alike (.adapter i a) (.adapter i b)

/-- The step does not end a readiness attempt by an error response. -/
def Daemon.quiet (d : Daemon) : Action → Bool
  | .adapter i a => (d.adapters i).quiet a
  | _ => true

variable {F : Formats} {d e : Daemon}

/-! ## Small steps -/

theorem Daemon.Alike.setAdapter (h : d.Alike e) (i : Nat) {a b : Instance} (hab : a.Alike b) :
    (d.setAdapter i a).Alike (e.setAdapter i b) where
  __ := h
  adapters j := by
    by_cases hj : j = i
    · subst hj
      simpa [Daemon.setAdapter] using hab
    · simpa [Daemon.setAdapter, hj] using h.adapters j

theorem Daemon.Alike.setTask (h : d.Alike e) (q : Nat) (task : Option Task) :
    (d.setTask q task).Alike (e.setTask q task) where
  __ := h
  tasks := by
    show Function.update d.tasks q task = Function.update e.tasks q task
    rw [h.tasks]

theorem Daemon.Alike.respond (h : d.Alike e) (q : Nat) (response : Response) :
    (d.respond q response).Alike (e.respond q response) where
  __ := h.setTask q none
  responses := by
    show d.responses ++ _ = e.responses ++ _
    rw [h.responses]

theorem Daemon.Alike.release (h : d.Alike e) (q i : Nat) : (d.release q i).Alike (e.release q i) := by
  have hi := h.adapters i
  have hc : (d.adapters i).operation = some q ↔ (e.adapters i).operation = some q := by
    rw [hi.operation]
  unfold Daemon.release
  by_cases he : (e.adapters i).operation = some q
  · rw [if_pos he, if_pos (hc.mpr he)]
    exact h.setAdapter i { hi with operation := rfl }
  · rw [if_neg he, if_neg (mt hc.mp he)]
    exact h

theorem Daemon.Alike.refuse (h : d.Alike e) (q i : Nat) {x y : InstanceError}
    (hxy : adapterFailure x = adapterFailure y) : (d.refuse q i x).Alike (e.refuse q i y) := by
  unfold Daemon.refuse
  rw [hxy]
  exact (h.release q i).respond q _

theorem Daemon.Alike.find_eq (h : d.Alike e) (instanceId : String) :
    d.find instanceId = e.find instanceId := by
  unfold Daemon.find
  simp only [h.count, (h.adapters _).spec]

/-! ## Statuses -/

theorem adapterRecord_eq {i j : Instance} (h : i.Alike j) (status : Supervisor.Status)
    (version : String) (run : Option Nat) :
    adapterRecord i status version run = adapterRecord j status version run := by
  unfold adapterRecord
  simp only [h.states, h.spec]

theorem Daemon.Alike.statusStep (h : d.Alike e) (q : Nat) (wanted : Option String)
    (done : List Adapter) (reading : Reading) :
    (d.statusStep q wanted done reading).Alike (e.statusStep q wanted done reading) := by
  have hi := h.adapters done.length
  unfold Daemon.statusStep
  simp only [h.count]
  split
  · exact h.respond q _
  · cases reading with
    | nothing =>
      simp only [hi.loop]
      exact h.setTask q _
    | process status =>
      simp only [hi.reportedVersion, hi.spec]
      exact h.setTask q _
    | version status version =>
      simp only [hi.active]
      exact h.setTask q _
    | active status version run =>
      simp only [adapterRecord_eq hi]
      exact h.setTask q _

/-! ## Operations -/

/-- An operation fails alike: of a protocol error only the code counts. -/
theorem adapterFailure_eq {low : Bool} {x y : SessionError}
    (h : OutcomeAlike low (.error x) (.error y)) :
    adapterFailure (mapSessionError F x) = adapterFailure (mapSessionError F y) := by
  cases h with
  | refl => rfl
  | protocol code message message' => rfl
  | closed f g hlow => rfl

/-- The same result, or two errors that are answered alike. -/
theorem result_cases {low : Bool} (operation : Operation) {o o' : Outcome}
    (h : OutcomeAlike low o o') :
    operation.result F o = operation.result F o' ∨
      ∃ x y, operation.result F o = .error x ∧ operation.result F o' = .error y ∧
        adapterFailure x = adapterFailure y := by
  cases operation with
  | openWindow seconds =>
    unfold Operation.result
    obtain ⟨response, hx, hy⟩ | ⟨x, y, hx, hy, hxy⟩ :=
      taken_cases F.openCommissioningWindowResponse h
    · rw [hx, hy]
      exact .inl rfl
    · rw [hx, hy]
      exact .inr ⟨_, _, rfl, rfl, adapterFailure_eq hxy⟩
  | info =>
    unfold Operation.result
    obtain ⟨response, hx, hy⟩ | ⟨x, y, hx, hy, hxy⟩ := taken_cases F.commissioningInfoResponse h
    · rw [hx, hy]
      exact .inl rfl
    · rw [hx, hy]
      exact .inr ⟨_, _, rfl, rfl, adapterFailure_eq hxy⟩
  | remove resourceType id =>
    unfold Operation.result
    obtain ⟨response, hx, hy⟩ | ⟨x, y, hx, hy, hxy⟩ := taken_cases F.removeResourceResponse h
    · rw [hx, hy]
      exact .inl rfl
    · rw [hx, hy]
      exact .inr ⟨_, _, rfl, rfl, adapterFailure_eq hxy⟩

theorem Operation.call_alike (operation : Operation) {i j : Instance} (h : i.Alike j) (run : Nat)
    (k : CallId) :
    Option.Rel Instance.Alike (operation.call F i run k) (operation.call F j run k) := by
  cases operation with
  | openWindow seconds => exact Machine.rel_imp (fun _ _ h => h.1) h.call
  | info => exact Machine.rel_imp (fun _ _ h => h.1) h.call
  | remove resourceType id => exact Machine.rel_imp (fun _ _ h => h.1) h.call

theorem alike_lock {i j : Instance} (h : i.Alike j) (q : Nat) :
    Instance.Alike { i with operation := some q } { j with operation := some q } :=
  { h with operation := rfl }

theorem Daemon.Alike.begin (h : d.Alike e) (q i : Nat) (operation : Operation) (k : CallId) :
    Option.Rel Daemon.Alike (d.begin F q i operation k) (e.begin F q i operation k) := by
  have hi := h.adapters i
  unfold Daemon.begin
  simp only [hi.operation, hi.active]
  split
  · exact .none
  · split
    · exact .some (h.refuse q i rfl)
    · split
      · exact .some (h.refuse q i rfl)
      · refine Machine.rel_map (fun a b hab => ?_) (operation.call_alike hi _ k)
        cases operation.locks with
        | true => exact (h.setAdapter i (alike_lock hab q)).setTask q _
        | false => exact (h.setAdapter i hab).setTask q _

theorem Daemon.Alike.finish (h : d.Alike e) (q i : Nat) (operation : Operation) (run : Nat)
    {low : Bool} {o o' : Outcome} (ho : OutcomeAlike low o o') :
    (d.finish F q i operation run o).Alike (e.finish F q i operation run o') := by
  have hi := h.adapters i
  unfold Daemon.finish
  obtain heq | ⟨x, y, hx, hy, hxy⟩ := result_cases (F := F) operation ho
  · rw [heq]
    split
    · exact h.refuse q i rfl
    · dsimp only
      split
      · simp only [hi.states]
        exact ((h.setAdapter i hi.setRun).release q i).respond q _
      · exact (h.release q i).respond q _
  · rw [hx, hy]
    exact h.refuse q i hxy

/-! ## The reset -/

theorem Daemon.Alike.beginReset (h : d.Alike e) (q i : Nat) :
    Option.Rel Daemon.Alike (d.beginReset q i) (e.beginReset q i) := by
  have hi := h.adapters i
  have hactive : (d.adapters i).active.isNone = (e.adapters i).active.isNone := by rw [hi.active]
  unfold Daemon.beginReset
  simp only [hi.operation, hactive]
  split
  · exact .none
  · split
    · exact .some (h.refuse q i rfl)
    · exact .some ((h.setAdapter i (alike_lock hi q)).setTask q _)

theorem Daemon.Alike.stopped (h : d.Alike e) (q i : Nat) : (d.stopped q i).Alike (e.stopped q i) := by
  have hi := h.adapters i
  unfold Daemon.stopped
  simp only [hi.active]
  split
  · exact (h.setAdapter i (hi.deactivate _).1).setTask q _
  · exact (h.setAdapter i hi).setTask q _

theorem Daemon.Alike.stopLoop (h : d.Alike e) (q i : Nat) :
    (d.stopLoop q i).Alike (e.stopLoop q i) := by
  have hi := h.adapters i
  unfold Daemon.stopLoop
  dsimp only
  rw [hi.superviseStep_eq, hi.loop]
  split
  · split
    · exact (h.setAdapter i (hi.setLoop _)).setTask q _
    · exact h
  · exact h.stopped q i

theorem Daemon.Alike.beginStop (h : d.Alike e) (q i : Nat) (k : CallId) :
    Option.Rel Daemon.Alike (d.beginStop F q i k) (e.beginStop F q i k) := by
  have hi := h.adapters i
  unfold Daemon.beginStop
  simp only [hi.active]
  split
  · exact .some (h.stopLoop q i)
  · exact Machine.rel_map (fun _ _ hab => (h.setAdapter i hab.1).setTask q _) hi.call

theorem Daemon.Alike.endReset (h : d.Alike e) (q i : Nat) (cause : Option String)
    (start : Except String Unit) : (d.endReset q i cause start).Alike (e.endReset q i cause start) := by
  unfold Daemon.endReset
  rw [(h.adapters i).spec]
  split
  · exact h.refuse q i rfl
  · exact (h.release q i).respond q _

/-- `Supervisor::start` does the same in both. -/
theorem startLoop_cases {i j : Instance} (h : i.Alike j) :
    (∃ e, i.startLoop = .error e ∧ j.startLoop = .error e) ∨
      ∃ i' j', i.startLoop = .ok i' ∧ j.startLoop = .ok j' ∧ i'.Alike j' := by
  have hc : i.loop.running = true ↔ j.loop.running = true := by rw [h.loop]
  unfold Instance.startLoop
  by_cases hj : j.loop.running = true
  · rw [if_pos hj, if_pos (hc.mpr hj)]
    exact .inl ⟨_, rfl, rfl⟩
  · rw [if_neg hj, if_neg (mt hc.mp hj)]
    refine .inr ⟨_, _, rfl, rfl, ?_⟩
    rw [h.loop]
    have hstart := h.setLoop { Supervisor.Loop.init j.spec.process with
      status := j.loop.status, clock := j.loop.clock, history := j.loop.history }
    simpa only [h.spec] using hstart

theorem Daemon.Alike.resetStep (h : d.Alike e) (q i : Nat) (reset : Reset) (input : ResetInput) :
    Option.Rel Daemon.Alike (d.resetStep F q i reset input) (e.resetStep F q i reset input) := by
  have hi := h.adapters i
  cases reset with
  | lock =>
    cases input with
    | lock => exact h.beginReset q i
    | _ => exact .none
  | active =>
    cases input with
    | active k => exact h.beginStop q i k
    | _ => exact .none
  | shutdown run k =>
    cases input with
    | next => exact Machine.rel_map (fun _ _ _ => h.stopLoop q i) ((hi.sessions run).outcome k)
    | _ => exact .none
  | stopping =>
    cases input with
    | next =>
      simp only [Daemon.resetStep, hi.loop]
      split
      · exact .none
      · exact .some (h.stopped q i)
    | timeout =>
      simp only [Daemon.resetStep, hi.spec]
      exact .some (h.refuse q i rfl)
    | _ => exact .none
  | directory =>
    cases input with
    | directory result =>
      simp only [Daemon.resetStep]
      obtain ⟨x, hx, hy⟩ | ⟨i', j', hx, hy, hij⟩ := startLoop_cases hi
      · rw [hx, hy]
        exact .some (h.endReset q i _ _)
      · rw [hx, hy]
        exact .some ((h.setAdapter i hij).setTask q _)
    | _ => exact .none
  | starting cause =>
    cases input with
    | next =>
      simp only [Daemon.resetStep, hi.loop, initialFailureText, hi.spec]
      split
      · exact .some (h.endReset q i _ _)
      · split
        · exact .none
        · exact .some (h.endReset q i _ _)
      · exact .none
    | _ => exact .none

/-! ## The machine -/

theorem Daemon.Alike.receive (h : d.Alike e) (q : Nat) (request : Request) :
    (d.receive q request).Alike (e.receive q request) := by
  cases request with
  | list => exact h.setTask q _
  | inspect id => exact h.setTask q _
  | operate id operation =>
    simp only [Daemon.receive, h.find_eq]
    split
    · exact h.respond q _
    · exact h.setTask q _
  | reset id confirmation =>
    simp only [Daemon.receive, h.find_eq]
    split
    · exact h.respond q _
    · split
      · exact h.respond q _
      · exact h.setTask q _

theorem Daemon.Alike.dropTask (h : d.Alike e) (q : Nat) (task : Task) :
    (d.dropTask q task).Alike (e.dropTask q task) := by
  have hcall : ∀ i run k, Daemon.Alike
      (((d.setAdapter i (((d.adapters i).onSession run (.drop k)).getD (d.adapters i))).release q
        i).setTask q none)
      (((e.setAdapter i (((e.adapters i).onSession run (.drop k)).getD (e.adapters i))).release q
        i).setTask q none) := by
    intro i run k
    have hi := (@Instance.Alike.getD_onSession _ _ run (h.adapters i) _ _ (.refl (.drop k))).1
    exact ((h.setAdapter i hi).release q i).setTask q none
  cases task with
  | statuses wanted done reading => exact h.setTask q _
  | operate i operation => exact h.setTask q _
  | calling i operation run k => exact hcall i run k
  | resetting i reset =>
    cases reset with
    | shutdown run k => exact hcall i run k
    | _ => exact (h.release q i).setTask q _

theorem Daemon.Alike.advance (h : d.Alike e) (q : Nat) (k : CallId) :
    Option.Rel Daemon.Alike (d.step F (.advance q k)) (e.step F (.advance q k)) := by
  simp only [Daemon.step, ← h.tasks]
  split
  · exact .some (h.statusStep q _ _ _)
  · exact h.begin q _ _ k
  · exact Machine.rel_map (fun _ _ ho => h.finish q _ _ _ ho) (((h.adapters _).sessions _).outcome _)
  · exact .none

/-- Alike daemons stay alike under the same actions, but for the messages of error responses. -/
theorem Daemon.Alike.step (h : d.Alike e) {a b : Action} (hab : a.Alike b)
    (hq : d.quiet a = true) : Option.Rel Daemon.Alike (d.step F a) (e.step F b) := by
  have hadapter : ∀ i {a b : AdapterHost.Action}, a.Alike b → (d.adapters i).quiet a = true →
      Option.Rel Daemon.Alike (d.step F (.adapter i a)) (e.step F (.adapter i b)) := by
    intro i a b hab hq
    simp only [Daemon.step, h.count]
    split
    · exact Machine.rel_map (fun _ _ hi => h.setAdapter i hi) ((h.adapters i).step hab hq)
    · exact .none
  cases hab with
  | adapter i hab => exact hadapter i hab hq
  | refl =>
    cases a with
    | adapter i a => exact hadapter i (.refl a) hq
    | start i =>
      simp only [Daemon.step, h.count]
      split
      · obtain ⟨x, hx, hy⟩ | ⟨i', j', hx, hy, hij⟩ := startLoop_cases (h.adapters i)
        · rw [hx, hy]
          exact .none
        · rw [hx, hy]
          exact .some (h.setAdapter i hij)
      · exact .none
    | serve =>
      simp only [Daemon.step, h.count, (h.adapters _).loop]
      split
      · exact .some { h with serving := rfl, count := rfl }
      · exact .none
    | request q request =>
      simp only [Daemon.step, h.serving, h.tasks]
      split
      · exact .some (h.receive q request)
      · exact .none
    | advance q k => exact h.advance q k
    | reset q input =>
      simp only [Daemon.step, ← h.tasks]
      split
      · exact h.resetStep q _ _ input
      · exact .none
    | drop q =>
      simp only [Daemon.step, ← h.tasks]
      cases d.tasks q with
      | none => exact .none
      | some task => exact .some (h.dropTask q task)

theorem Daemon.alike_new (specs : List Spec) : (Daemon.new specs).Alike (Daemon.new specs) where
  count := rfl
  serving := rfl
  tasks := rfl
  responses := rfl
  adapters i :=
    { spec := rfl
      loop := rfl
      launched := rfl
      readiness := rfl
      active := rfl
      monitors := rfl
      reportedVersion := rfl
      operation := rfl
      states := fun _ => rfl
      sessions := fun _ => .refl _
      prepared := fun _ h => by cases h }

/-- The answers do not depend on the messages of the adapters' error responses, in runs in which no
    readiness attempt is ended by one. -/
theorem responses_eq_of_quiet (F : Formats) (specs : List Spec) {as bs : List Action} {d : Daemon}
    (hab : List.Forall₂ Action.Alike as bs)
    (hquiet : Machine.Meets (Daemon.step F) (fun d a => d.quiet a = true) (Daemon.new specs) as)
    (hd : Machine.run (Daemon.step F) (Daemon.new specs) as = some d) :
    ∃ e, Machine.run (Daemon.step F) (Daemon.new specs) bs = some e ∧ e.responses = d.responses := by
  obtain ⟨e, he, hde⟩ := Machine.run_rel_of_meets (R := Daemon.Alike) (A := Action.Alike)
    (fun _ _ _ _ h hab hq => h.step hab hq) (Daemon.alike_new specs) hab hquiet hd
  exact ⟨e, he, hde.responses.symm⟩

/-! ## Where the text gets through -/

/-- A readiness attempt that takes an error response returns its text. -/
theorem readyStep_of_protocolError {inst : Instance} {r : Readiness} {run : Nat} {k : CallId}
    {code message : String} (hr : inst.readiness = some r) (hcall : r.call? = some (run, k))
    (ho : (inst.runs run).session.outcome k = some (.error (.protocol code message))) (k' : CallId) :
    inst.readyStep F (.take k') =
      some (inst.endReadiness (.error ("adapter protocol error " ++ code ++ ": " ++ message))) := by
  cases r with
  | initializing run' k₀ | sync run' k₀ request | health run' k₀ =>
    obtain ⟨rfl, rfl⟩ : run' = run ∧ k₀ = k := by simpa [Readiness.call?] using hcall
    simp only [Instance.readyStep, hr, ho]
    rfl
  | _ => cases hcall

/-- The supervisor keeps the text of a readiness attempt that has failed. -/
theorem lastError_of_readiness {inst : Instance} {pid : Nat} {message : String}
    (hprobe : inst.spec.process.readiness = true)
    (hphase : inst.loop.phase = .waiting (some pid))
    (hr : inst.readiness = some (.returned (.error message)))
    (startedAt : Nat) (result : Except String Unit) :
    ∃ inst', Machine.run (Instance.step F) inst
        [.ready startedAt, .supervise (.terminated result)] = some inst' ∧
      inst'.loop.status.lastError = some ("readiness probe: " ++ message) := by
  have hready : Supervisor.step inst.spec.process inst.loop
      (.ready (.probed (.error message)) startedAt) =
        some { inst.loop.fail with phase := .terminating ("readiness probe: " ++ message) } := by
    simp only [Supervisor.step, hphase, Supervisor.waitReady, hprobe, Option.bind_some]
  refine ⟨_, Machine.run_cons_eq_some.mpr ⟨{ inst with
    loop := { inst.loop.fail with phase := .terminating ("readiness probe: " ++ message) }
    readiness := none }, ?_, Machine.run_cons_eq_some.mpr ⟨_, rfl, rfl⟩⟩, rfl⟩
  simp only [Instance.step, hr, hready, Option.map_some]

/-- The steps that `quiet` excludes are those that bring the text into the status. -/
theorem lastError_of_protocolError {inst : Instance} {r : Readiness} {run pid : Nat} {k : CallId}
    {code message : String} (hprobe : inst.spec.process.readiness = true)
    (hphase : inst.loop.phase = .waiting (some pid)) (hr : inst.readiness = some r)
    (hcall : r.call? = some (run, k))
    (ho : (inst.runs run).session.outcome k = some (.error (.protocol code message)))
    (k' startedAt : Nat) (result : Except String Unit) :
    ∃ inst', Machine.run (Instance.step F) inst
        [.readiness (.take k'), .ready startedAt, .supervise (.terminated result)] = some inst' ∧
      inst'.loop.status.lastError =
        some ("readiness probe: " ++ ("adapter protocol error " ++ code ++ ": " ++ message)) := by
  obtain ⟨inst', hrun, hlast⟩ := @lastError_of_readiness F
    (inst.endReadiness (.error ("adapter protocol error " ++ code ++ ": " ++ message))) pid _ hprobe
    hphase rfl startedAt result
  exact ⟨inst', Machine.run_cons_eq_some.mpr
    ⟨_, readyStep_of_protocolError hr hcall ho k', hrun⟩, hlast⟩

/-! ## Two runs -/

/-- The bodies that the adapter sends below, and no others. -/
def plainFormats : Formats where
  initializeResponse body :=
    if body = "\x7b\"ready\":true\x7d" then .ok ⟨true, ""⟩ else .error "expected value"
  syncResponse body :=
    if body = "\x7b\"generation\":1,\"devices\":0\x7d" then .ok ⟨1, 0, none, []⟩
    else .error "expected value"
  eventResponse _ := .error "expected value"
  healthResponse body :=
    if body = "\x7b\"healthy\":true\x7d" then .ok ⟨true, "", []⟩ else .error "expected value"
  openCommissioningWindowResponse _ := .error "expected value"
  commissioningInfoResponse _ := .error "expected value"
  removeResourceResponse _ := .error "expected value"
  shutdownResponse _ := .error "expected value"
  encoded _ := .ok ()
  debug s := "\"" ++ s ++ "\""

def matterSpec : Spec := ⟨"matter", "oikade.matter", none, "matter", ⟨"adapter.matter", true, {}⟩⟩

def matterHello : Hello := ⟨"oikade.matter", "1.0.0", 1, 1, ["matter"]⟩

/-- Call `k` of the run sends its request and takes the response. -/
def answered (run k : Nat) (response : Envelope) : List AdapterHost.Action :=
  [.session run (.advance k), .session run (.advance k),
    .session run (.receive (.response response)), .session run .read, .session run .read,
    .session run (.advance k)]

/-- The process of the run is launched and says hello. -/
def launched (run pid : Nat) : List AdapterHost.Action :=
  [.supervise .head, .launch true (.ok (some pid)), .readiness .begin,
    .session run (.receive (.notification ⟨.hello, some (.ok ()), true⟩)),
    .readiness (.hello matterHello 0)]

/-- The first process of the adapter becomes ready. -/
def becomesReady : List AdapterHost.Action :=
  launched 0 7 ++ answered 0 0 ⟨1, "initialize", some "\x7b\"ready\":true\x7d", none⟩ ++
  [.readiness (.take 0), .readiness (.subscribed (.ok ())),
    .readiness (.snapshot ⟨true, 0, [], 0⟩ 1)] ++
  answered 0 1 ⟨2, "sync", some "\x7b\"generation\":1,\"devices\":0\x7d", none⟩ ++
  [.readiness (.take 2)] ++
  answered 0 2 ⟨3, "health", some "\x7b\"healthy\":true\x7d", none⟩ ++
  [.readiness (.take 0), .readiness .activate, .ready 0]

/-- The adapter is ready and the server up. -/
def served : List Action := [.start 0] ++ becomesReady.map (.adapter 0) ++ [.serve]

/-- The process exits and the next one is launched. -/
def relaunched : List AdapterHost.Action :=
  [.supervise (.exit (.exited false "exit status: 1") 1 1), .supervise .slept] ++ launched 1 8

/-- The readiness attempt returns, and the supervisor gives up. -/
def notReady : List AdapterHost.Action :=
  [.readiness (.take 0), .ready 2, .supervise (.terminated (.ok ()))]

/-- The first process exits, the second one answers `initialize` with an error, and the adapters are
    listed. -/
def listedAfterRestart (message : String) : List Action :=
  served ++ relaunched.map (.adapter 0) ++
  (answered 1 0 ⟨1, "initialize", none, some ("internal_error", message)⟩).map (.adapter 0) ++
  (notReady.map (.adapter 0) ++
    .request 0 .list :: List.replicate 5 (.advance 0 0))

/-- The commissioning information is asked for, and the adapter answers with an error. -/
def askedInfo (message : String) : List Action :=
  served ++ [.request 0 (.operate "matter" .info), .advance 0 3] ++
  (answered 0 3 ⟨4, "commissioning_info", none, some ("internal_error", message)⟩).map (.adapter 0) ++
  [.advance 0 0]

theorem alike_same (as : List Action) : List.Forall₂ Action.Alike as as :=
  List.forall₂_same.mpr fun a _ => .refl a

theorem alike_answered (run k id : Nat) (method code message message' : String) :
    List.Forall₂ Action.Alike
      ((answered run k ⟨id, method, none, some (code, message)⟩).map (.adapter 0))
      ((answered run k ⟨id, method, none, some (code, message')⟩).map (.adapter 0)) :=
  .cons (.refl _) (.cons (.refl _) (.cons
    (.adapter 0 (.receive run (.response (.error id method none code message message'))))
    (alike_same _)))

theorem alike_askedInfo (message message' : String) :
    List.Forall₂ Action.Alike (askedInfo message) (askedInfo message') :=
  List.rel_append (List.rel_append (alike_same _) (alike_answered _ _ _ _ _ _ _)) (alike_same _)

/-- An operation that is refused by the adapter is answered the same, whatever the text. -/
theorem responses_eq_of_quiet_info :
    ∃ d e, Machine.run (Daemon.step plainFormats) (Daemon.new [matterSpec])
        (askedInfo "setup passcode is 12345678") = some d ∧
      Machine.run (Daemon.step plainFormats) (Daemon.new [matterSpec]) (askedInfo "") = some e ∧
      e.responses = d.responses := by
  have hsome : (Machine.run (Daemon.step plainFormats) (Daemon.new [matterSpec])
      (askedInfo "setup passcode is 12345678")).isSome = true := by decide +kernel
  obtain ⟨d, hd⟩ := Option.isSome_iff_exists.mp hsome
  have hquiet := @Machine.meets_of_allows _ _ (Daemon.step plainFormats) Daemon.quiet
    (Daemon.new [matterSpec]) (askedInfo "setup passcode is 12345678") (by decide +kernel)
  obtain ⟨e, he, heq⟩ := responses_eq_of_quiet plainFormats [matterSpec]
    (alike_askedInfo "setup passcode is 12345678" "") hquiet hd
  exact ⟨d, e, hd, he, heq⟩

/-- The last errors that the answers show. -/
def shown (d : Daemon) : List (Option String) :=
  d.responses.flatMap fun p => match p.2 with
    | .adapters adapters => adapters.map (·.lastError)
    | _ => []

/-- After a restart that fails by an error response, the list of the adapters shows its text. -/
theorem responses_differ :
    ¬ ∀ (F : Formats) (specs : List Spec) (as bs : List Action) (d e : Daemon),
      List.Forall₂ Action.Alike as bs →
      Machine.run (Daemon.step F) (Daemon.new specs) as = some d →
      Machine.run (Daemon.step F) (Daemon.new specs) bs = some e → e.responses = d.responses := by
  intro h
  have hshown : (Machine.run (Daemon.step plainFormats) (Daemon.new [matterSpec])
      (listedAfterRestart "setup passcode is 12345678")).map shown =
        some [some ("readiness probe: adapter protocol error internal_error: " ++
          "setup passcode is 12345678")] := by decide +kernel
  have hshown' : (Machine.run (Daemon.step plainFormats) (Daemon.new [matterSpec])
      (listedAfterRestart "")).map shown =
        some [some "readiness probe: adapter protocol error internal_error: "] := by decide +kernel
  obtain ⟨d, hd, hshown⟩ := Option.map_eq_some_iff.mp hshown
  obtain ⟨e, he, hshown'⟩ := Option.map_eq_some_iff.mp hshown'
  have halike : List.Forall₂ Action.Alike (listedAfterRestart "setup passcode is 12345678")
      (listedAfterRestart "") :=
    List.rel_append (List.rel_append (alike_same _) (alike_answered _ _ _ _ _ _ _)) (alike_same _)
  have hsame : shown e = shown d := by
    unfold shown
    rw [h plainFormats [matterSpec] _ _ d e halike hd he]
  rw [hshown, hshown'] at hsame
  simp at hsame

end Oikade.Admin
