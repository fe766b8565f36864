/-
  The daemon (`oikade-runtime/src/daemon.rs`): it starts its components one after the other, waits
  for the shutdown, and stops them from the last to the first; a start that fails is rolled back.

  A component is a pair of functions on a world of any kind, which both may change and fail as they
  like. `watched` notes what every call of a component did, behind the back of the daemon.

  `follow` is the discipline: a component is started when exactly those before it run, and stopped
  when exactly it and those before it run. `runUntil_nested`: whatever the components do, a run
  follows it to the end, and the error that is returned is the one that the notes call for.
-/
import Oikade.Lib.Machine
import Mathlib.Data.List.Induction

namespace Oikade.Daemon

variable {ω : Type}

/-! ## `Daemon` -/

structure Component (ω : Type) where
  name : String
  start : ω → Except String Unit × ω
  stop : ω → Except String Unit × ω

inductive DaemonError where
  | start (component message : String)
  | stop (component message : String)
  | rollback (text : String)
  deriving DecidableEq, Repr

/-- The text of the error. -/
def DaemonError.text : DaemonError → String
  | .start component message => "start component " ++ component ++ ": " ++ message
  | .stop component message => "stop component " ++ component ++ ": " ++ message
  | .rollback text => "component startup failed and rollback also failed: " ++ text

/-- The body of the loop of `stop_reverse`. -/
def stopNext (s : Option DaemonError × ω) (component : Component ω) : Option DaemonError × ω :=
  match component.stop s.2 with
  | (.ok (), w) => (s.1, w)
  | (.error message, w) => (s.1.or (some (.stop component.name message)), w)

def stopReverse (components : List (Component ω)) (w : ω) : Except DaemonError Unit × ω :=
  match components.reverse.foldl stopNext (none, w) with
  | (none, w) => (.ok (), w)
  | (some error, w) => (.error error, w)

/-- The loop of `run_until` over the components that are left, and what comes after it. -/
def startAll (shutdown : ω → ω) (started : List (Component ω)) :
    List (Component ω) → ω → Except DaemonError Unit × ω
  | [], w => stopReverse started (shutdown w)
  | component :: components, w =>
    match component.start w with
    | (.ok (), w) => startAll shutdown (started ++ [component]) components w
    | (.error message, w) =>
      let original := .start component.name message
      match stopReverse started w with
      | (.ok (), w) => (.error original, w)
      | (.error rollback, w) =>
        (.error (.rollback (original.text ++ "; rollback: " ++ rollback.text)), w)

/-- `run_until`; `shutdown` is what happens until the shutdown is signalled. -/
def runUntil (components : List (Component ω)) (shutdown : ω → ω) (w : ω) :
    Except DaemonError Unit × ω :=
  startAll shutdown [] components w

/-! ## Notes -/

/-- What a call of the component with a number did, and that the daemon waited. -/
inductive Entry where
  | started (i : Nat)
  | failed (i : Nat) (error : DaemonError)
  | served
  | stopped (i : Nat) (error : Option DaemonError)
  deriving DecidableEq, Repr

def noteStart (i : Nat) (name : String) : Except String Unit → Entry
  | .ok () => .started i
  | .error message => .failed i (.start name message)

def noteStop (i : Nat) (name : String) : Except String Unit → Entry
  | .ok () => .stopped i none
  | .error message => .stopped i (some (.stop name message))

/-- The component with its calls noted. -/
def Component.watch (component : Component ω) (i : Nat) : Component (ω × List Entry) where
  name := component.name
  start := fun (w, log) =>
    ((component.start w).1, (component.start w).2, log ++ [noteStart i component.name
      (component.start w).1])
  stop := fun (w, log) =>
    ((component.stop w).1, (component.stop w).2, log ++ [noteStop i component.name
      (component.stop w).1])

/-- The components, numbered from `i` on. -/
def watched (i : Nat) (components : List (Component ω)) : List (Component (ω × List Entry)) :=
  (components.zipIdx i).map fun (component, i) => component.watch i

def watchShutdown (shutdown : ω → ω) : ω × List Entry → ω × List Entry :=
  fun (w, log) => (shutdown w, log ++ [.served])

/-! ## The discipline -/

/-- Components are started, or they are stopped. -/
inductive Phase where
  | up
  | down
  deriving DecidableEq, Repr

/-- With `n` components, of which the first `k` run. -/
def follow (n : Nat) : Phase × Nat → Entry → Option (Phase × Nat)
  | (.up, k), .started i => if i = k ∧ k < n then some (.up, k + 1) else none
  | (.up, k), .failed i _ => if i = k ∧ k < n then some (.down, k) else none
  | (.up, k), .served => if k = n then some (.down, k) else none
  | (.down, k + 1), .stopped i _ => if i = k then some (.down, k) else none
  | _, _ => none

def Entry.startError : Entry → Option DaemonError
  | .failed _ error => some error
  | _ => none

def Entry.stopError : Entry → Option DaemonError
  | .stopped _ error => error
  | _ => none

/-- What `run_until` has to return. -/
def verdict (log : List Entry) : Except DaemonError Unit :=
  match log.findSome? Entry.startError, log.findSome? Entry.stopError with
  | none, none => .ok ()
  | none, some error => .error error
  | some error, none => .error error
  | some error, some rollback =>
    .error (.rollback (error.text ++ "; rollback: " ++ rollback.text))

def Entry.starts (i : Nat) : Entry → Bool
  | .started j => j = i
  | _ => false

def Entry.stops (i : Nat) : Entry → Bool
  | .stopped j _ => j = i
  | _ => false

/-! ## What follows from the discipline -/

section Discipline

variable {n k : Nat} {phase : Phase} {log : List Entry}

theorem follow_cases {s t : Phase × Nat} {entry : Entry} (h : follow n s entry = some t) :
    (∃ k, s = (.up, k) ∧ k < n ∧ entry = .started k ∧ t = (.up, k + 1)) ∨
    (∃ k error, s = (.up, k) ∧ k < n ∧ entry = .failed k error ∧ t = (.down, k)) ∨
    (s = (.up, n) ∧ entry = .served ∧ t = (.down, n)) ∨
    ∃ k error, s = (.down, k + 1) ∧ entry = .stopped k error ∧ t = (.down, k) := by
  unfold follow at h
  split at h
  · split at h
    · rename_i hk
      obtain ⟨rfl, hlt⟩ := hk
      exact .inl ⟨_, rfl, hlt, rfl, (Option.some.inj h).symm⟩
    · cases h
  · split at h
    · rename_i hk
      obtain ⟨rfl, hlt⟩ := hk
      exact .inr (.inl ⟨_, _, rfl, hlt, rfl, (Option.some.inj h).symm⟩)
    · cases h
  · split at h
    · rename_i hk
      subst hk
      exact .inr (.inr (.inl ⟨rfl, rfl, (Option.some.inj h).symm⟩))
    · cases h
  · split at h
    · rename_i hk
      subst hk
      exact .inr (.inr (.inr ⟨_, _, rfl, rfl, (Option.some.inj h).symm⟩))
    · cases h
  · cases h

/-- A component has been stopped as often as it was started, unless it runs. -/
theorem counts_of_follow (h : Machine.run (follow n) (.up, 0) log = some (phase, k)) (i : Nat) :
    log.countP (Entry.starts i) = log.countP (Entry.stops i) + (if i < k then 1 else 0) ∧
      log.countP (Entry.starts i) ≤ 1 ∧ (phase = .up → log.countP (Entry.stops i) = 0) := by
  induction log using List.reverseRecOn generalizing phase k with
  | nil =>
    cases h
    simp
  | append_singleton log entry ih =>
    obtain ⟨s, hrun, hstep⟩ := Machine.run_snoc_eq_some.mp h
    rw [List.countP_append, List.countP_append, List.countP_singleton, List.countP_singleton]
    rcases follow_cases hstep with ⟨k, rfl, -, rfl, ht⟩ | ⟨k, _, rfl, -, rfl, ht⟩ | ⟨rfl, rfl, ht⟩ |
      ⟨k, _, rfl, rfl, ht⟩
    all_goals
      cases ht
      obtain ⟨hcount, hle, hup⟩ := ih hrun
      simp only [Entry.starts, Entry.stops, decide_eq_true_eq, reduceCtorEq, false_implies,
        if_false, Bool.false_eq_true]
    · have := hup rfl
      grind
    · simp
      omega
    · simp
      omega
    · grind

end Discipline

/-! ## A run follows it -/

section Run

variable {n : Nat} {shutdown : ω → ω} {w : ω} {log : List Entry}

theorem watched_snoc (components : List (Component ω)) (component : Component ω) :
    watched 0 (components ++ [component]) =
      watched 0 components ++ [component.watch components.length] := by
  simp [watched, List.zipIdx_append]

theorem watched_cons (i : Nat) (component : Component ω) (components : List (Component ω)) :
    watched i (component :: components) = component.watch i :: watched (i + 1) components := by
  simp [watched]

theorem stopNext_watch (error : Option DaemonError) (component : Component ω) (i : Nat) :
    stopNext (error, w, log) (component.watch i) =
      ((stopNext (error, w) component).1, (stopNext (error, w) component).2,
        log ++ [noteStop i component.name (component.stop w).1]) := by
  simp only [stopNext, Component.watch]
  cases component.stop w with
  | mk result w' => cases result <;> rfl

theorem stopNext_error (error : Option DaemonError) (component : Component ω) (i : Nat) :
    (stopNext (error, w) component).1 =
      error.or (noteStop i component.name (component.stop w).1).stopError := by
  simp only [stopNext]
  cases component.stop w with
  | mk result w' => cases result <;> simp [noteStop, Entry.stopError]

/-- What the notes say once the components that run have been stopped. -/
structure Stopped (n : Nat) (before after : List Entry) (error : Option DaemonError) : Prop where
  follows : Machine.run (follow n) (.up, 0) after = some (.down, 0)
  error : error = after.findSome? Entry.stopError
  start : after.findSome? Entry.startError = before.findSome? Entry.startError

/-- The loop of `stop_reverse`, from the last component that runs to the first. -/
theorem stop_follows (components : List (Component ω)) {error : Option DaemonError}
    (h : Machine.run (follow n) (.up, 0) log = some (.down, components.length))
    (herror : error = log.findSome? Entry.stopError) :
    ∃ log', (watched 0 components).reverse.foldl stopNext (error, w, log) =
        ((components.reverse.foldl stopNext (error, w)).1,
          (components.reverse.foldl stopNext (error, w)).2, log') ∧
      Stopped n log log' (components.reverse.foldl stopNext (error, w)).1 := by
  induction components using List.reverseRecOn generalizing error w log with
  | nil => exact ⟨log, rfl, h, herror, rfl⟩
  | append_singleton components component ih =>
    have hnote : ∃ stopped, noteStop components.length component.name (component.stop w).1 =
        .stopped components.length stopped := by
      cases (component.stop w).1 with
      | ok _ => exact ⟨_, rfl⟩
      | error message => exact ⟨_, rfl⟩
    obtain ⟨stopped, hnote⟩ := hnote
    rw [watched_snoc, List.reverse_concat, List.foldl_cons, List.reverse_concat, List.foldl_cons,
      stopNext_watch]
    have hnext : Machine.run (follow n) (.up, 0)
        (log ++ [noteStop components.length component.name (component.stop w).1]) =
          some (.down, components.length) := by
      refine Machine.run_snoc_eq_some.mpr ⟨_, h, ?_⟩
      rw [hnote, List.length_append, List.length_singleton]
      simp [follow]
    have herror' : (stopNext (error, w) component).1 =
        (log ++ [noteStop components.length component.name (component.stop w).1]).findSome?
          Entry.stopError := by
      rw [stopNext_error error component components.length, List.findSome?_append, ← herror,
        List.findSome?_singleton]
    obtain ⟨log', hfold, hstopped⟩ := ih hnext herror'
    refine ⟨log', hfold, hstopped.follows, hstopped.error, ?_⟩
    rw [hstopped.start, hnote, List.findSome?_append]
    simp [Entry.startError]

theorem stopReverse_follows (components : List (Component ω))
    (h : Machine.run (follow n) (.up, 0) log = some (.down, components.length))
    (hlog : log.findSome? Entry.stopError = none) :
    ∃ log' error, stopReverse (watched 0 components) (w, log) =
        ((stopReverse components w).1, (stopReverse components w).2, log') ∧
      (stopReverse components w).1 = (match error with | none => .ok () | some e => .error e) ∧
      Stopped n log log' error := by
  obtain ⟨log', hfold, hstopped⟩ := @stop_follows _ _ w _ components none h hlog.symm
  refine ⟨log', _, ?_, ?_, hstopped⟩
  · unfold stopReverse
    rw [hfold]
    cases components.reverse.foldl stopNext (none, w) with
    | mk error w' => cases error <;> rfl
  · unfold stopReverse
    cases components.reverse.foldl stopNext (none, w) with
    | mk error w' => cases error <;> rfl

theorem startAll_follows (started components : List (Component ω))
    (hn : started.length + components.length = n)
    (h : Machine.run (follow n) (.up, 0) log = some (.up, started.length))
    (hstart : log.findSome? Entry.startError = none)
    (hstop : log.findSome? Entry.stopError = none) :
    ∃ log', startAll (watchShutdown shutdown) (watched 0 started)
        (watched started.length components) (w, log) =
          ((startAll shutdown started components w).1,
            (startAll shutdown started components w).2, log') ∧
      Machine.run (follow n) (.up, 0) log' = some (.down, 0) ∧
      (startAll shutdown started components w).1 = verdict log' := by
  induction components generalizing started w log with
  | nil =>
    have hserved : Machine.run (follow n) (.up, 0) (log ++ [.served]) =
        some (.down, started.length) := by
      refine Machine.run_snoc_eq_some.mpr ⟨_, h, ?_⟩
      simp only [List.length_nil, Nat.add_zero] at hn
      simp [follow, hn]
    have hnone : (log ++ [Entry.served]).findSome? Entry.stopError = none := by
      simp [List.findSome?_append, hstop, Entry.stopError]
    obtain ⟨log', error, hreverse, hresult, hstopped⟩ :=
      @stopReverse_follows _ _ (shutdown w) _ started hserved hnone
    refine ⟨log', hreverse, hstopped.follows, ?_⟩
    have hnever : log'.findSome? Entry.startError = none := by
      rw [hstopped.start]
      simp [List.findSome?_append, hstart, Entry.startError]
    show (stopReverse started (shutdown w)).1 = _
    rw [hresult, verdict, hnever, ← hstopped.error]
    cases error <;> rfl
  | cons component components ih =>
    rw [List.length_cons] at hn
    have hlt : started.length < n := by omega
    rw [watched_cons]
    unfold startAll
    simp only [Component.watch]
    cases hresult : component.start w with
    | mk result w' =>
      cases result with
      | ok _ =>
        have hnext : Machine.run (follow n) (.up, 0) (log ++ [.started started.length]) =
            some (.up, (started ++ [component]).length) := by
          refine Machine.run_snoc_eq_some.mpr ⟨_, h, ?_⟩
          simp [follow, hlt]
        have hrest := @ih w' (log ++ [.started started.length]) (started ++ [component])
          (by rw [List.length_append, List.length_singleton]; omega) hnext
          (by simp [List.findSome?_append, hstart, Entry.startError])
          (by simp [List.findSome?_append, hstop, Entry.stopError])
        rw [watched_snoc, List.length_append, List.length_singleton] at hrest
        exact hrest
      | error message =>
        have hfailed : Machine.run (follow n) (.up, 0)
            (log ++ [.failed started.length (.start component.name message)]) =
              some (.down, started.length) := by
          refine Machine.run_snoc_eq_some.mpr ⟨_, h, ?_⟩
          simp [follow, hlt]
        obtain ⟨log', error, hreverse, hstopped', hstopped⟩ :=
          @stopReverse_follows _ _ w' _ started hfailed
            (by simp [List.findSome?_append, hstop, Entry.stopError])
        have hfirst : log'.findSome? Entry.startError = some (.start component.name message) := by
          rw [hstopped.start]
          simp [List.findSome?_append, hstart, Entry.startError]
        simp only [noteStart, hreverse]
        generalize stopReverse started w' = reversed at hstopped' ⊢
        obtain ⟨rolledBack, w''⟩ := reversed
        simp only at hstopped'
        subst hstopped'
        refine ⟨log', ?_, hstopped.follows, ?_⟩
        · cases error <;> rfl
        · rw [verdict, hfirst, ← hstopped.error]
          cases error <;> rfl

/-- Whatever the components do, they are started and stopped in order, each that was started is
    stopped once, and the error says what went wrong first on the way up and on the way down. -/
theorem runUntil_nested (components : List (Component ω)) (shutdown : ω → ω) (w : ω) :
    ∃ log, runUntil (watched 0 components) (watchShutdown shutdown) (w, []) =
        ((runUntil components shutdown w).1, (runUntil components shutdown w).2, log) ∧
      Machine.run (follow components.length) (.up, 0) log = some (.down, 0) ∧
      (∀ i, log.countP (Entry.starts i) = log.countP (Entry.stops i) ∧
        log.countP (Entry.starts i) ≤ 1) ∧
      (runUntil components shutdown w).1 = verdict log := by
  obtain ⟨log, hrun, hfollows, hverdict⟩ := @startAll_follows _ components.length shutdown w []
    [] components (Nat.zero_add _) rfl rfl rfl
  refine ⟨log, hrun, hfollows, fun i => ?_, hverdict⟩
  obtain ⟨hcount, hle, -⟩ := counts_of_follow hfollows i
  exact ⟨by simpa using hcount, hle⟩

end Run

end Oikade.Daemon
