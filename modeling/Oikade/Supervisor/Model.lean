/-
  The supervisor of a child process (`oikade-supervisor/src/lib.rs` and `process.rs`): one run of
  the loop `run`, as a state machine whose steps are the stretches between two await points.

  An action says what the loop meets there: the result of the launch, how the readiness attempt
  ends, the exit of the child with the readings of the clock, the end of the back-off sleep. A stop
  request may come between any two of them; the loop sees it at its head and in its three `select!`
  blocks. `history` keeps what has happened: the statuses that `transition` reported, the failures
  and the stop requests.

  `exited_spec` says what an exit does; the proofs about runs use nothing else of `exited`.

  Durations and instants are numbers of nanoseconds (`Backoff` has the types of the source). Log
  readers and the arguments of the command are left out. The count of restarts has no upper bound
  here: `usize` would overflow after 2^64 restarts, each after a back-off of at least a nanosecond.
-/
import Oikade.Lib.Machine
import Mathlib.Algebra.Ring.Nat

namespace Oikade.Supervisor

/-! ## Policies and statuses -/

inductive State where
  | stopped
  | starting
  | running
  | backoff
  | quarantined
  deriving DecidableEq, Repr

structure Status where
  name : String
  state : State
  pid : Option Nat
  restarts : Nat
  lastError : Option String
  deriving DecidableEq, Repr

def second : Nat := 1000000000
def millisecond : Nat := 1000000

structure RestartPolicy where
  initialBackoff : Nat := 250 * millisecond
  maxBackoff : Nat := 30 * second
  maxRestarts : Nat := 5
  restartWindow : Nat := 60 * second
  stableAfter : Nat := 60 * second
  readyTimeout : Nat := 10 * second
  stopTimeout : Nat := 5 * second
  deriving DecidableEq, Repr

/-- `Duration::MAX`. -/
def maxDuration : Nat := (2 ^ 64 - 1) * second + 999999999

def maxU32 : Nat := 2 ^ 32 - 1

def restartBackoff (policy : RestartPolicy) (consecutiveFailures : Nat) : Nat :=
  let exponent := min (consecutiveFailures - 1) 31
  let delay := policy.initialBackoff * 2 ^ exponent
  min (if delay ≤ maxDuration then delay else policy.maxBackoff) policy.maxBackoff

/-- What the loop reads of a `ProcessSpec`; of the probe, whether there is one. -/
structure ProcessSpec where
  name : String
  readiness : Bool
  policy : RestartPolicy

/-! ## What the loop waits for -/

/-- The result of `child.wait()`: an exit status, as it is displayed, or an error. -/
inductive WaitResult where
  | exited (success : Bool) (status : String)
  | failed (error : String)
  deriving DecidableEq, Repr

def unexpectedExit : WaitResult → String
  | .exited true _ => "process exited unexpectedly with success status"
  | .exited false status => "process exited unexpectedly: " ++ status
  | .failed error => "wait for process: " ++ error

/-- How a readiness attempt ends. -/
inductive ReadyOutcome where
  /-- `child.try_wait()`, without a probe. -/
  | inspected (result : Except String (Option String))
  | probed (result : Except String Unit)
  | timedOut
  | exited (result : WaitResult)
  /-- The stop request was seen. -/
  | cancelled
  deriving DecidableEq, Repr

/-- `wait_ready`, `none` for an outcome that its branch cannot have. -/
def waitReady (spec : ProcessSpec) (pid : Option Nat) (cancelled : Bool) (outcome : ReadyOutcome) :
    Option (Except String Unit) :=
  match pid, spec.readiness, outcome with
  | none, _, _ => some (.error "child process has no PID")
  | some _, false, .inspected (.ok none) => some (.ok ())
  | some _, false, .inspected (.ok (some status)) =>
    some (.error ("process exited before readiness: " ++ status))
  | some _, false, .inspected (.error error) =>
    some (.error ("inspect child before readiness: " ++ error))
  | some _, true, .probed (.ok ()) => some (.ok ())
  | some _, true, .probed (.error error) => some (.error ("readiness probe: " ++ error))
  | some _, true, .timedOut => some (.error "readiness probe timed out")
  | some _, true, .exited result => some (.error (unexpectedExit result))
  | some _, true, .cancelled =>
    if cancelled then some (.error "cancelled during readiness") else none
  | _, _, _ => none

/-! ## The loop -/

/-- What the history of a run is made of. -/
inductive Happening where
  /-- `Supervisor::stop` asked the running loop to stop. -/
  | requested
  /-- A launch or a readiness attempt failed, or the child exited. -/
  | failed
  | reported (status : Status)
  deriving DecidableEq, Repr

/-- Where the loop stands. -/
inductive Phase where
  | head
  | launching
  | waiting (pid : Option Nat)
  /-- `terminate` after a readiness failure. -/
  | terminating (failure : String)
  | running (pid : Option Nat) (startedAt : Nat)
  /-- `terminate` after a stop request. -/
  | stopping
  | backoff (delay : Nat)
  | finished
  deriving DecidableEq, Repr

structure Loop where
  phase : Phase
  restarts : Nat
  consecutiveFailures : Nat
  failures : List Nat
  status : Status
  /-- `Shared::running`. -/
  running : Bool
  /-- The value of the `cancelled` watch. -/
  cancelled : Bool
  /-- The result that `initial_ready` was sent. -/
  initialReady : Option (Except String Unit)
  clock : Nat
  history : List Happening

def Loop.init (spec : ProcessSpec) : Loop where
  phase := .head
  restarts := 0
  consecutiveFailures := 0
  failures := []
  status := ⟨spec.name, .stopped, none, 0, none⟩
  running := true
  cancelled := false
  initialReady := none
  clock := 0
  history := []

inductive Action where
  | stop
  | head
  | launch (result : Except String (Option Nat))
  | ready (outcome : ReadyOutcome) (startedAt : Nat)
  | terminated (result : Except String Unit)
  /-- The child exits: the clock is read for the run's length, then for the window. -/
  | exit (result : WaitResult) (elapsedAt now : Nat)
  /-- `cancelled.changed()` while running or backing off. -/
  | cancel
  | slept
  deriving DecidableEq, Repr

def Loop.transition (s : Loop) (state : State) (pid : Option Nat) (restarts : Nat)
    (error : Option String) : Loop :=
  let status : Status := ⟨s.status.name, state, pid, restarts, error⟩
  { s with status, history := s.history ++ [.reported status] }

def Loop.fail (s : Loop) : Loop := { s with history := s.history ++ [.failed] }

def Loop.sendInitial (s : Loop) (result : Except String Unit) : Loop :=
  { s with initialReady := s.initialReady <|> some result }

def Loop.finish (s : Loop) : Loop := { s with phase := .finished, running := false }

def Loop.initialFailure (s : Loop) (spec : ProcessSpec) (message : String) : Loop :=
  (s.transition .stopped none 0 (some message)).sendInitial
    (.error ("process \"" ++ spec.name ++ "\": " ++ message))

/-- The failures that the policy still counts after one more. -/
def countFailures (policy : RestartPolicy) (failures : List Nat) (now : Nat) : List Nat :=
  (failures ++ [now]).dropWhile fun failure => policy.restartWindow < now - failure

/-- The child exited: quarantine or back-off. -/
def Loop.exited (s : Loop) (spec : ProcessSpec) (startedAt : Nat) (result : WaitResult)
    (elapsedAt now : Nat) : Loop :=
  let failure := unexpectedExit result
  let stable := spec.policy.stableAfter ≤ elapsedAt - startedAt
  let consecutiveFailures := min ((if stable then 0 else s.consecutiveFailures) + 1) maxU32
  let failures := countFailures spec.policy (if stable then [] else s.failures) now
  let s := { s.fail with consecutiveFailures, failures, clock := now }
  if spec.policy.maxRestarts < failures.length then
    (s.transition .quarantined none s.restarts (some failure)).finish
  else
    { s.transition .backoff none s.restarts (some failure) with
      phase := .backoff (restartBackoff spec.policy consecutiveFailures) }

def step (spec : ProcessSpec) (s : Loop) (a : Action) : Option Loop :=
  match a, s.phase with
  | .stop, _ =>
    some (if s.running then { s with cancelled := true, history := s.history ++ [.requested] } else s)
  | .head, .head =>
    if s.cancelled then
      some ((s.transition .stopped none s.restarts none).sendInitial
        (.error "cancelled before readiness")).finish
    else some { s.transition .starting none s.restarts none with phase := .launching }
  | .launch (.error error), .launching => some (s.fail.initialFailure spec error).finish
  | .launch (.ok pid), .launching =>
    some { s.transition .starting pid s.restarts none with phase := .waiting pid }
  | .ready outcome startedAt, .waiting pid =>
    (waitReady spec pid s.cancelled outcome).bind fun
      | .error failure => some { s.fail with phase := .terminating failure }
      | .ok () =>
        if s.clock ≤ startedAt then
          some { (s.transition .running pid s.restarts none).sendInitial (.ok ()) with
            phase := .running pid startedAt, clock := startedAt }
        else none
  | .terminated _, .terminating failure => some (s.initialFailure spec failure).finish
  | .exit result elapsedAt now, .running _ startedAt =>
    if s.clock ≤ elapsedAt ∧ elapsedAt ≤ now then some (s.exited spec startedAt result elapsedAt now)
    else none
  | .cancel, .running _ _ => if s.cancelled then some { s with phase := .stopping } else none
  | .terminated result, .stopping =>
    some (s.transition .stopped none s.restarts
      (match result with | .ok () => none | .error error => some error)).finish
  | .slept, .backoff _ => some { s with phase := .head, restarts := s.restarts + 1 }
  | .cancel, .backoff _ =>
    if s.cancelled then some (s.transition .stopped none s.restarts none).finish else none
  | _, _ => none

/-! ## An exit of the child -/

/-- The counter after an exit. -/
def Loop.countAfter (s : Loop) (policy : RestartPolicy) (startedAt elapsedAt : Nat) : Nat :=
  min ((if policy.stableAfter ≤ elapsedAt - startedAt then 0 else s.consecutiveFailures) + 1) maxU32

/-- The queue after an exit. -/
def Loop.queueAfter (s : Loop) (policy : RestartPolicy) (startedAt elapsedAt now : Nat) : List Nat :=
  countFailures policy (if policy.stableAfter ≤ elapsedAt - startedAt then [] else s.failures) now

/-- What the loop is after an exit, with its counter at `count` and its queue at `queue`. -/
structure Exited (spec : ProcessSpec) (s : Loop) (count : Nat) (queue : List Nat) (now : Nat)
    (t : Loop) : Prop where
  restarts : t.restarts = s.restarts
  cancelled : t.cancelled = s.cancelled
  clock : t.clock = now
  counted : t.consecutiveFailures = count
  queued : t.failures = queue
  history : t.history = s.fail.history ++ [.reported t.status]
  reported : t.status.restarts = s.restarts
  outcome : (spec.policy.maxRestarts < queue.length ∧ t.status.state = .quarantined ∧
      t.phase = .finished) ∨
    (¬ spec.policy.maxRestarts < queue.length ∧ t.status.state = .backoff ∧
      t.phase = .backoff (restartBackoff spec.policy count))

theorem exited_spec (s : Loop) (spec : ProcessSpec) (startedAt : Nat) (result : WaitResult)
    (elapsedAt now : Nat) :
    Exited spec s (s.countAfter spec.policy startedAt elapsedAt)
      (s.queueAfter spec.policy startedAt elapsedAt now) now
      (s.exited spec startedAt result elapsedAt now) := by
  unfold Loop.exited
  by_cases hlimit : spec.policy.maxRestarts <
      (s.queueAfter spec.policy startedAt elapsedAt now).length
  · rw [Loop.queueAfter] at hlimit
    simp only [if_pos hlimit]
    exact ⟨rfl, rfl, rfl, rfl, rfl, rfl, rfl, .inl ⟨hlimit, rfl, rfl⟩⟩
  · rw [Loop.queueAfter] at hlimit
    simp only [if_neg hlimit]
    exact ⟨rfl, rfl, rfl, rfl, rfl, rfl, rfl, .inr ⟨hlimit, rfl, rfl⟩⟩

theorem step_exit {spec : ProcessSpec} {s t : Loop} {result : WaitResult} {elapsedAt now : Nat}
    (h : step spec s (.exit result elapsedAt now) = some t) :
    ∃ pid startedAt, s.phase = .running pid startedAt ∧ s.clock ≤ elapsedAt ∧ elapsedAt ≤ now ∧
      t = s.exited spec startedAt result elapsedAt now := by
  cases hp : s.phase with
  | running pid startedAt =>
    simp only [step, hp] at h
    split at h
    · rename_i hclock
      exact ⟨pid, startedAt, rfl, hclock.1, hclock.2, (Option.some.inj h).symm⟩
    · cases h
  | _ => simp [step, hp] at h

end Oikade.Supervisor
