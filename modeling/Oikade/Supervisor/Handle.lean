/-
  The handle of a supervised process (`Supervisor` in `oikade-supervisor/src/lib.rs`): callers of
  `start` and `stop`, the tasks that `start` spawns, each with the loop of `Model`, and the child
  process that a task has at hand, as one machine.

  A step is what a party does under one acquisition of the `shared` mutex, or between two of them:
  `transition`, `send_initial`, `finish` and the send on `done` are steps of their own, so a caller
  may look between any two. `ret` is the return of `run`, which drops the child (`kill_on_drop`),
  and the send on `done` that follows it. `die` is a child that exits by itself.

  `Ok` is the invariant. At most one task is between its claim and its `finish`, and it is the last
  one (`Ok.last`); a supervisor that is not running shows a status without a process (`Ok.idle`).
  `finish` comes before the child is dropped. So a child that `terminate` could not end may outlive
  the claim of its task, and only then (`one_child`).

  The broadcast of the statuses and the time of a `stop` are left out: a deadline may pass at any
  moment before `done` is sent.
-/
import Oikade.Supervisor.Lifecycle
import Oikade.Supervisor.Backoff
import Oikade.Lib.Progress

namespace Oikade.Supervisor.Handle

/-! ## The child process -/

/-- The variable `child` of `run`. -/
structure Child where
  pid : Option Nat
  /-- the process has not exited and has not been killed -/
  alive : Bool
  deriving DecidableEq, Repr

/-- What the system answers to `terminate`, call by call. -/
structure Termination where
  /-- `child.try_wait()`: whether the child has exited -/
  tryWait : Except String Bool := .ok false
  /-- `kill` of the process group, where the group's absence is no error -/
  sigterm : Except String Unit := .ok ()
  /-- `child.wait()` within the grace period, `none` when that has passed -/
  graceful : Option (Except String Unit) := some (.ok ())
  sigkill : Except String Unit := .ok ()
  /-- `child.kill()`, for a child without a PID -/
  killed : Except String Unit := .ok ()
  waited : Except String Unit := .ok ()
  deriving DecidableEq, Repr

/-- `i32::try_from(pid)` fails. -/
def einval : String := "EINVAL: Invalid argument"

/-- `signal_group`; `answer` is what `kill` says. -/
def signalGroup (pid : Nat) (answer : Except String Unit) : Except String Unit :=
  if pid < 2 ^ 31 then answer else .error einval

/-- `terminate`. -/
def terminate (pid : Option Nat) (os : Termination) : Except String Unit := do
  if ← os.tryWait then return
  match pid with
  | some pid => signalGroup pid os.sigterm
  | none => pure ()
  match os.graceful with
  | some _ => return
  | none =>
    match pid with
    | some pid => signalGroup pid os.sigkill
    | none => os.killed
    os.waited

/-- `terminate` has seen the child exit. The result of the wait within the grace period is not
    looked at, so `terminate` may succeed without that. -/
def reaps (pid : Option Nat) (os : Termination) : Bool :=
  match os.tryWait with
  | .error _ => false
  | .ok true => true
  | .ok false =>
    match os.graceful with
    | some (.ok ()) => (terminate pid os).toBool
    | some (.error _) => false
    | none => (terminate pid os).toBool

/-! ## The parties -/

inductive SupervisorError where
  | missingName
  | missingExecutable
  | alreadyStarted
  | invalidPolicy (message : String)
  | initialFailure (name message : String)
  | stopTimeout (name : String)
  deriving DecidableEq, Repr

/-- A task that `start` has spawned: `run`, then `done_tx.send(true)`. -/
structure Task where
  loop : Loop
  /-- what the channel of `initial_ready` holds -/
  ready : Option (Except String Unit)
  child : Option Child
  /-- `finish` has run -/
  finished : Bool
  /-- `done_tx` has sent -/
  done : Bool

def Task.new (spec : ProcessSpec) : Task := ⟨Loop.init spec, none, none, false, false⟩

/-- `Shared`. `cancel` and `done` name the task that has the other end. -/
structure Shared where
  status : Status
  running : Bool
  cancel : Option Nat
  done : Option Nat

/-- A call of `start` or of `stop`, at an await point or returned. -/
inductive Caller where
  /-- `start` at `ready_rx.await` -/
  | readying (task : Nat)
  /-- `start` in `wait_done` -/
  | failing (task : Nat) (message : String)
  | started (task : Nat)
  | refused
  | failed (task : Nat) (message : String)
  /-- `stop` in `wait_done`; `claims` tasks had been spawned when it looked -/
  | stopping (task claims : Nat)
  | stopped (task : Option Nat) (claims : Nat)
  | timedOut (task : Nat)
  deriving DecidableEq, Repr

/-- What a call returns. -/
def Caller.result (spec : ProcessSpec) : Caller → Option (Except SupervisorError Unit)
  | .readying _ | .failing .. | .stopping .. => none
  | .started _ | .stopped .. => some (.ok ())
  | .refused => some (.error .alreadyStarted)
  | .failed _ message => some (.error (.initialFailure spec.name message))
  | .timedOut _ => some (.error (.stopTimeout spec.name))

structure Sys where
  spec : ProcessSpec
  shared : Shared
  tasks : List Task
  callers : Nat → Option Caller

/-- The fields of a `ProcessSpec` that `Supervisor::new` looks at, in the types of the source. -/
structure Spec where
  name : String
  executable : String
  readiness : Bool
  policy : Backoff.RestartPolicy

def Spec.process (spec : Spec) : ProcessSpec := ⟨spec.name, spec.readiness, spec.policy.inNanos⟩

def Sys.ofProcess (spec : ProcessSpec) : Sys where
  spec
  shared := ⟨⟨spec.name, .stopped, none, 0, none⟩, false, none, none⟩
  tasks := []
  callers := fun _ => none

/-- `Supervisor::new` -/
def Sys.new (spec : Spec) : Except SupervisorError Sys :=
  if spec.name.isEmpty then .error .missingName
  else if spec.executable.isEmpty then .error .missingExecutable
  else match spec.policy.validate with
    | .error e => .error (.invalidPolicy e.message)
    | .ok () => .ok (.ofProcess spec.process)

/-! ## The machine -/

inductive Action where
  /-- a caller calls `start` or `stop` and looks at `shared` -/
  | start (k : Nat)
  | stop (k : Nat)
  /-- `ready_rx` answers a caller -/
  | ready (k : Nat)
  /-- `wait_done` returns -/
  | waited (k : Nat)
  /-- the deadline of a `stop` passes -/
  | timeout (k : Nat)
  /-- a caller drops its call -/
  | drop (k : Nat)
  /-- the loop of a task runs to its next await point, up to `send_initial` -/
  | loop (i : Nat) (a : Supervisor.Action)
  /-- the loop of a task comes back from `terminate` -/
  | terminate (i : Nat) (os : Termination)
  | sendInitial (i : Nat)
  | finish (i : Nat)
  | ret (i : Nat)
  | die (i : Nat)

def Child.reaped (child : Child) : Child := { child with alive := false }

/-- The variable `child` after a stretch of the loop: it is dropped at the end of an iteration. -/
def childAfter (child : Option Child) : Supervisor.Action → Option Child
  | .launch (.ok pid) => some ⟨pid, true⟩
  | .exit (.exited ..) .. | .ready (.exited (.exited ..)) _ | .ready (.inspected (.ok (some _))) _ =>
    child.map Child.reaped
  | .slept => none
  | _ => child

namespace Sys

def setCaller (s : Sys) (k : Nat) (caller : Option Caller) : Sys :=
  { s with callers := Function.update s.callers k caller }

def setTask (s : Sys) (i : Nat) (t : Task) : Sys := { s with tasks := s.tasks.set i t }

/-- The part of `start` under the lock. -/
def claim (s : Sys) (k : Nat) : Sys :=
  if s.shared.running then s.setCaller k (some .refused)
  else
    { s with
      shared := { s.shared with
        running := true
        cancel := some s.tasks.length
        done := some s.tasks.length }
      tasks := s.tasks ++ [Task.new s.spec] }.setCaller k (some (.readying s.tasks.length))

/-- `cancel.send(true)` -/
def request (s : Sys) (i : Nat) : Sys :=
  match s.tasks[i]? with
  | none => s
  | some t => s.setTask i { t with loop := (Supervisor.step s.spec t.loop .stop).getD t.loop }

/-- The part of `stop` under the lock. -/
def ask (s : Sys) (k : Nat) : Sys :=
  if s.shared.running then
    let s' := match s.shared.cancel with
      | some i => s.request i
      | none => s
    s'.setCaller k (some (match s.shared.done with
      | some i => .stopping i s.tasks.length
      | none => .stopped none s.tasks.length))
  else s.setCaller k (some (.stopped none s.tasks.length))

/-- A stretch of the loop: what it reports becomes the status. -/
def stretch (s : Sys) (i : Nat) (t : Task) (a : Supervisor.Action)
    (child : Option Child) : Option Sys :=
  (Supervisor.step s.spec t.loop a).map fun loop =>
    { s.setTask i { t with loop, child } with
      shared := { s.shared with
        status := (reports (loop.history.drop t.loop.history.length)).getLast?.getD
          s.shared.status } }

end Sys

/-- The actions of the loop that the machine takes as they are. -/
def isStretch : Supervisor.Action → Bool
  | .stop | .terminated _ => false
  | _ => true

/-- `send_initial` has been called where it is due. -/
def Task.delivered (t : Task) : Bool := t.ready.isSome = t.loop.initialReady.isSome

/-- `ready_rx.await` -/
def Task.answer (t : Task) (i : Nat) : Option Caller :=
  match t.ready with
  | some (.ok ()) => some (.started i)
  | some (.error message) => some (.failing i message)
  | none => if t.done then some (.failing i "supervisor ended before readiness") else none

def step (s : Sys) : Action → Option Sys
  | .start k => if (s.callers k).isSome then none else some (s.claim k)
  | .stop k => if (s.callers k).isSome then none else some (s.ask k)
  | .ready k =>
    match s.callers k with
    | some (.readying i) =>
      (s.tasks[i]?.bind fun t => t.answer i).map fun caller => s.setCaller k (some caller)
    | _ => none
  | .waited k =>
    match s.callers k with
    | some (.failing i message) =>
      if (s.tasks[i]?).any Task.done then some (s.setCaller k (some (.failed i message))) else none
    | some (.stopping i claims) =>
      if (s.tasks[i]?).any Task.done then some (s.setCaller k (some (.stopped (some i) claims)))
      else none
    | _ => none
  | .timeout k =>
    match s.callers k with
    | some (.stopping i _) =>
      if (s.tasks[i]?).any Task.done then none else some (s.setCaller k (some (.timedOut i)))
    | _ => none
  | .drop k =>
    match s.callers k with
    | some caller => if (caller.result s.spec).isNone then some (s.setCaller k none) else none
    | none => none
  | .loop i a =>
    match s.tasks[i]? with
    | some t =>
      if isStretch a ∧ t.delivered then s.stretch i t a (childAfter t.child a) else none
    | none => none
  | .terminate i os =>
    match s.tasks[i]? with
    | some t =>
      let pid := t.child.bind Child.pid
      let child := if reaps pid os then t.child.map Child.reaped else t.child
      s.stretch i t (.terminated (Handle.terminate pid os)) child
    | none => none
  | .sendInitial i =>
    match s.tasks[i]? with
    | some t =>
      if t.delivered then none else some (s.setTask i { t with ready := t.loop.initialReady })
    | none => none
  | .finish i =>
    match s.tasks[i]? with
    | some t =>
      if t.loop.phase = .finished ∧ t.delivered ∧ t.finished = false then
        some { s.setTask i { t with finished := true } with
          shared := { s.shared with running := false, cancel := none } }
      else none
    | none => none
  | .ret i =>
    match s.tasks[i]? with
    | some t =>
      if t.finished ∧ t.done = false then
        some (s.setTask i { t with child := none, done := true })
      else none
    | none => none
  | .die i =>
    match s.tasks[i]? with
    | some t => some (s.setTask i { t with child := t.child.map Child.reaped })
    | none => none

abbrev run : Sys → List Action → Option Sys := Machine.run step

/-! ## A stretch of the loop -/

/-- A status without a process. -/
def Idle (status : Status) : Prop :=
  status.pid = none ∧ (status.state = .stopped ∨ status.state = .quarantined)

/-- The report of a stretch, if it makes one. -/
def reported (l l' : Loop) : Option Status :=
  (reports (l'.history.drop l.history.length)).getLast?

/-- From these places on, `initial_ready` has been answered. -/
def Sent (l : Loop) : Prop :=
  match l.phase with
  | .running .. | .stopping | .backoff _ | .finished => l.initialReady.isSome = true
  | _ => True

/-- How far the loop is from its end once it has been cancelled. -/
def rank : Phase → Nat
  | .finished => 0
  | .stopping | .terminating _ => 1
  | .head => 2
  | .backoff _ => 3
  | .running .. => 4
  | .waiting _ => 5
  | .launching => 6

/-- What the handle uses of a stretch of the loop. -/
structure Stretch (l l' : Loop) : Prop where
  going : l.phase ≠ .finished
  kept : ∀ r, l.initialReady = some r → l'.initialReady = some r
  cancelled : l'.cancelled = l.cancelled
  idle : l'.phase = .finished → ∃ status, reported l l' = some status ∧ Idle status
  sent : Sent l → Sent l'
  running : l'.phase ≠ .finished → l'.running = l.running
  rank : l.cancelled = true → rank l'.phase < rank l.phase

theorem reported_snoc {l l' : Loop} {status : Status}
    (h : l'.history = l.history ++ [.reported status]) : reported l l' = some status := by
  simp [reported, h, reports]

theorem reported_failed {l l' : Loop} {status : Status}
    (h : l'.history = l.history ++ [.failed] ++ [.reported status]) :
    reported l l' = some status := by
  simp [reported, h, reports]

theorem isSome_sendInitial (l : Loop) (result : Except String Unit) :
    (l.sendInitial result).initialReady.isSome = true := by
  cases h : l.initialReady <;> simp [Loop.sendInitial, h]

theorem kept_sendInitial {l : Loop} {r : Except String Unit} {result : Except String Unit}
    (h : l.initialReady = some r) : (l.sendInitial result).initialReady = some r := by
  simp [Loop.sendInitial, h]

section Stretch

variable {spec : ProcessSpec} {l l' : Loop}

theorem exited_shows (spec : ProcessSpec) (l : Loop) (startedAt : Nat) (result : WaitResult) (elapsedAt now : Nat) :
    (l.exited spec startedAt result elapsedAt now).initialReady = l.initialReady ∧
      (l.exited spec startedAt result elapsedAt now).status.pid = none := by
  unfold Loop.exited
  by_cases hlimit : spec.policy.maxRestarts <
      (l.queueAfter spec.policy startedAt elapsedAt now).length
  · rw [Loop.queueAfter] at hlimit
    simp only [if_pos hlimit]
    exact ⟨rfl, rfl⟩
  · rw [Loop.queueAfter] at hlimit
    simp only [if_neg hlimit]
    exact ⟨rfl, rfl⟩

theorem stretch_exit {result : WaitResult} {elapsedAt now : Nat}
    (h : Supervisor.step spec l (.exit result elapsedAt now) = some l') : Stretch l l' := by
  obtain ⟨pid, startedAt, hp, -, -, rfl⟩ := step_exit h
  have he := exited_spec l spec startedAt result elapsedAt now
  obtain ⟨hready, hpid⟩ := exited_shows spec l startedAt result elapsedAt now
  refine ⟨by simp [hp], fun r hr => hready.trans hr, he.cancelled, fun hfin => ?_, fun hs => ?_,
    fun hne => ?_, fun _ => ?_⟩
  · refine ⟨_, reported_failed he.history, hpid, ?_⟩
    rcases he.outcome with ⟨-, hstate, -⟩ | ⟨-, -, hback⟩
    · exact .inr hstate
    · rw [hback] at hfin
      exact Phase.noConfusion hfin
  · simp only [Sent, hp] at hs
    rcases he.outcome with ⟨-, -, hphase⟩ | ⟨-, -, hphase⟩ <;> simpa [Sent, hphase, hready] using hs
  · rcases he.outcome with ⟨-, -, hphase⟩ | ⟨hlimit, -, -⟩
    · exact absurd hphase hne
    · rw [Loop.queueAfter] at hlimit
      unfold Loop.exited
      simp only [if_neg hlimit]
      rfl
  · rcases he.outcome with ⟨-, -, hphase⟩ | ⟨-, -, hphase⟩ <;> simp [hphase, hp, rank]

theorem stretch_of_step {a : Supervisor.Action} (ha : a ≠ .stop)
    (h : Supervisor.step spec l a = some l') : Stretch l l' := by
  cases a with
  | stop => exact absurd rfl ha
  | exit result elapsedAt now => exact stretch_exit h
  | head =>
    cases hp : l.phase with
    | head =>
      simp only [Supervisor.step, hp] at h
      split at h
      · cases h
        exact ⟨by simp [hp], fun r hr => kept_sendInitial hr, rfl,
          fun _ => ⟨_, reported_snoc rfl, rfl, .inl rfl⟩, fun _ => isSome_sendInitial _ _,
          fun hne => absurd rfl hne, fun _ => by simp [hp, rank, Loop.finish]⟩
      · rename_i hc
        cases h
        exact ⟨by simp [hp], fun r hr => hr, rfl, fun hf => Phase.noConfusion hf,
          fun _ => trivial, fun _ => rfl, fun hc' => absurd hc' hc⟩
    | _ => simp [Supervisor.step, hp] at h
  | launch result =>
    cases hp : l.phase with
    | launching =>
      cases result with
      | error error =>
        simp only [Supervisor.step, hp] at h
        cases h
        exact ⟨by simp [hp], fun r hr => kept_sendInitial hr, rfl,
          fun _ => ⟨_, reported_failed rfl, rfl, .inl rfl⟩, fun _ => isSome_sendInitial _ _,
          fun hne => absurd rfl hne, fun _ => by simp [hp, rank, Loop.finish]⟩
      | ok pid =>
        simp only [Supervisor.step, hp] at h
        cases h
        exact ⟨by simp [hp], fun r hr => hr, rfl, fun hf => Phase.noConfusion hf,
          fun _ => trivial, fun _ => rfl, fun _ => by simp [hp, rank]⟩
    | _ => cases result <;> simp [Supervisor.step, hp] at h
  | ready outcome startedAt =>
    cases hp : l.phase with
    | waiting pid =>
      simp only [Supervisor.step, hp] at h
      obtain ⟨result, -, h⟩ := Option.bind_eq_some_iff.mp h
      cases result with
      | error failure =>
        cases h
        exact ⟨by simp [hp], fun r hr => hr, rfl, fun hf => Phase.noConfusion hf,
          fun _ => trivial, fun _ => rfl, fun _ => by simp [hp, rank]⟩
      | ok u =>
        simp only at h
        split at h
        · cases h
          exact ⟨by simp [hp], fun r hr => kept_sendInitial hr, rfl,
            fun hf => Phase.noConfusion hf, fun _ => isSome_sendInitial _ _,
            fun _ => rfl, fun _ => by simp [hp, rank]⟩
        · cases h
    | _ => simp [Supervisor.step, hp] at h
  | terminated result =>
    cases hp : l.phase with
    | terminating failure =>
      simp only [Supervisor.step, hp] at h
      cases h
      exact ⟨by simp [hp], fun r hr => kept_sendInitial hr, rfl,
        fun _ => ⟨_, reported_snoc rfl, rfl, .inl rfl⟩, fun _ => isSome_sendInitial _ _,
        fun hne => absurd rfl hne, fun _ => by simp [hp, rank, Loop.finish]⟩
    | stopping =>
      simp only [Supervisor.step, hp] at h
      cases h
      exact ⟨by simp [hp], fun r hr => hr, rfl, fun _ => ⟨_, reported_snoc rfl, rfl, .inl rfl⟩,
        fun hs => by simpa [Sent, hp, Loop.finish, Loop.transition] using hs,
        fun hne => absurd rfl hne, fun _ => by simp [hp, rank, Loop.finish]⟩
    | _ => simp [Supervisor.step, hp] at h
  | cancel =>
    cases hp : l.phase with
    | running pid startedAt =>
      simp only [Supervisor.step, hp] at h
      split at h
      · cases h
        exact ⟨by simp [hp], fun r hr => hr, rfl, fun hf => Phase.noConfusion hf,
          fun hs => by simpa [Sent, hp] using hs, fun _ => rfl, fun _ => by simp [hp, rank]⟩
      · cases h
    | backoff delay =>
      simp only [Supervisor.step, hp] at h
      split at h
      · cases h
        exact ⟨by simp [hp], fun r hr => hr, rfl, fun _ => ⟨_, reported_snoc rfl, rfl, .inl rfl⟩,
          fun hs => by simpa [Sent, hp, Loop.finish, Loop.transition] using hs,
          fun hne => absurd rfl hne, fun _ => by simp [hp, rank, Loop.finish]⟩
      · cases h
    | _ => simp [Supervisor.step, hp] at h
  | slept =>
    cases hp : l.phase with
    | backoff delay =>
      simp only [Supervisor.step, hp] at h
      cases h
      exact ⟨by simp [hp], fun r hr => hr, rfl, fun hf => Phase.noConfusion hf, fun _ => trivial,
        fun _ => rfl, fun _ => by simp [hp, rank]⟩
    | _ => simp [Supervisor.step, hp] at h

end Stretch

end Oikade.Supervisor.Handle
