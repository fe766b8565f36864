/-
  When a supervised process is quarantined, and how long it waits before a restart.

  `run` keeps a queue of exit times, which it clears after a stable run and prunes at its front, and a
  counter beside it. The rule it follows needs neither: `since` is the last exit after a stable run,
  `recent` counts the exits from there on that are within the window. `quarantine_rule` says that a
  process that keeps becoming ready and exiting is quarantined at the first exit where `recent`
  exceeds the limit, and backs off by the number of exits since `since` before that.
-/
import Oikade.Supervisor.Model
import Mathlib.Data.Nat.Find
import Mathlib.Order.Interval.Finset.Nat

namespace Oikade.Supervisor

/-! ## Child runs -/

/-- A run of the child that becomes ready and exits, with the readings of the clock. -/
structure ChildRun where
  pid : Option Nat
  outcome : ReadyOutcome
  startedAt : Nat
  result : WaitResult
  elapsedAt : Nat
  exitedAt : Nat

def ChildRun.Ready (spec : ProcessSpec) (r : ChildRun) : Prop :=
  waitReady spec r.pid false r.outcome = some (.ok ())

/-- The run lasted at least `stable_after`. -/
def ChildRun.Stable (policy : RestartPolicy) (r : ChildRun) : Prop :=
  policy.stableAfter ≤ r.elapsedAt - r.startedAt

instance (policy : RestartPolicy) (r : ChildRun) : Decidable (r.Stable policy) :=
  inferInstanceAs (Decidable (_ ≤ _))

/-- What the loop meets in a run, up to the exit. -/
def ChildRun.actions (r : ChildRun) : List Action :=
  [.head, .launch (.ok r.pid), .ready r.outcome r.startedAt, .exit r.result r.elapsedAt r.exitedAt]

/-- The runs before `i` with the back-off after each. -/
def restarts (runs : Nat → ChildRun) (i : Nat) : List Action :=
  (List.range i).flatMap fun j => (runs j).actions ++ [.slept]

/-- The same up to exit `i`. -/
def upTo (runs : Nat → ChildRun) (i : Nat) : List Action := restarts runs i ++ (runs i).actions

theorem restarts_succ (runs : Nat → ChildRun) (i : Nat) :
    restarts runs (i + 1) = upTo runs i ++ [.slept] := by
  rw [restarts, List.range_succ, List.flatMap_append, List.flatMap_singleton, upTo, restarts,
    List.append_assoc]

/-- The clock does not go back in the runs up to `i`. -/
structure Timely (runs : Nat → ChildRun) (i : Nat) : Prop where
  elapsed : ∀ j ≤ i, (runs j).startedAt ≤ (runs j).elapsedAt
  exited : ∀ j ≤ i, (runs j).elapsedAt ≤ (runs j).exitedAt
  started : ∀ j < i, (runs j).exitedAt ≤ (runs (j + 1)).startedAt

/-! ## The rule -/

section Rule

variable (policy : RestartPolicy) (runs : Nat → ChildRun)

/-- The last exit up to `i` after a stable run, or the first exit. -/
def since (i : Nat) : Nat := Nat.findGreatest (fun j => (runs j).Stable policy) i

/-- The exits from `since` on that are within the window at exit `i`. -/
def recent (i : Nat) : Nat :=
  ((Finset.Icc (since policy runs i) i).filter fun j =>
    (runs i).exitedAt - (runs j).exitedAt ≤ policy.restartWindow).card

def Exceeds (i : Nat) : Prop := policy.maxRestarts < recent policy runs i

instance (i : Nat) : Decidable (Exceeds policy runs i) := inferInstanceAs (Decidable (_ < _))

/-- The times of those exits, oldest first. -/
def recentTimes (i : Nat) : List Nat :=
  ((List.range' (since policy runs i) (i + 1 - since policy runs i)).map fun j => (runs j).exitedAt).filter
    fun t => (runs i).exitedAt - t ≤ policy.restartWindow

theorem length_recentTimes (i : Nat) : (recentTimes policy runs i).length = recent policy runs i := by
  rw [recentTimes, List.filter_map, List.length_map]
  rfl

end Rule

/-! ## The queue -/

/-- In a sorted list the old entries are in front. -/
theorem dropWhile_eq_filter {l : List Nat} (h : l.Pairwise (· ≤ ·)) (now window : Nat) :
    (l.dropWhile fun t => window < now - t) = l.filter fun t => now - t ≤ window := by
  induction l with
  | nil => rfl
  | cons t l ih =>
    obtain ⟨hle, htail⟩ := List.pairwise_cons.mp h
    by_cases ht : window < now - t
    · have hnot : ¬ now - t ≤ window := by omega
      simp only [List.dropWhile_cons, List.filter_cons, ht, hnot, decide_true, decide_false, if_true,
        Bool.false_eq_true, if_false, ih htail]
    · rw [List.dropWhile_cons_of_neg (by simpa using ht), eq_comm, List.filter_eq_self]
      intro t' ht'
      obtain rfl | ht' := List.mem_cons.mp ht'
      · simpa using ht
      · have := hle t' ht'
        simp only [decide_eq_true_eq]
        omega

section Times

variable {policy : RestartPolicy} {runs : Nat → ChildRun} {i : Nat}

theorem Timely.mono (h : Timely runs i) {j : Nat} (hj : j ≤ i) : Timely runs j where
  elapsed k hk := h.elapsed k (Nat.le_trans hk hj)
  exited k hk := h.exited k (Nat.le_trans hk hj)
  started k hk := h.started k (Nat.lt_of_lt_of_le hk hj)

/-- Exit times do not decrease. -/
theorem Timely.exitedAt_le (h : Timely runs i) {j k : Nat} (hjk : j ≤ k) (hk : k ≤ i) :
    (runs j).exitedAt ≤ (runs k).exitedAt := by
  induction k, hjk using Nat.le_induction with
  | base => exact Nat.le_refl _
  | succ k hjk ih =>
    have h1 := h.started k (by omega)
    have h2 := h.elapsed (k + 1) hk
    have h3 := h.exited (k + 1) hk
    have := ih (by omega)
    omega

theorem since_le (i : Nat) : since policy runs i ≤ i := Nat.findGreatest_le i

theorem since_of_stable (h : (runs i).Stable policy) : since policy runs i = i :=
  Nat.findGreatest_eq h

theorem since_succ (h : ¬ (runs (i + 1)).Stable policy) :
    since policy runs (i + 1) = since policy runs i :=
  Nat.findGreatest_of_not h

theorem since_zero : since policy runs 0 = 0 := rfl

/-- The queue after a stable run, and after the first one. -/
theorem recentTimes_of_since (h : since policy runs i = i) :
    recentTimes policy runs i = countFailures policy [] (runs i).exitedAt := by
  simp [recentTimes, h, countFailures]

/-- The queue after another exit. -/
theorem recentTimes_succ (ht : Timely runs (i + 1)) (h : ¬ (runs (i + 1)).Stable policy) :
    recentTimes policy runs (i + 1) =
      countFailures policy (recentTimes policy runs i) (runs (i + 1)).exitedAt := by
  have hle := @since_le policy runs i
  have htimes : ∀ j, j ≤ i → (runs j).exitedAt ≤ (runs (i + 1)).exitedAt := fun j hj =>
    ht.exitedAt_le (by omega) (Nat.le_refl _)
  have hsorted : (recentTimes policy runs i ++ [(runs (i + 1)).exitedAt]).Pairwise (· ≤ ·) := by
    refine List.pairwise_append.mpr ⟨?_, List.pairwise_singleton _ _, ?_⟩
    · refine List.Pairwise.filter _ (List.pairwise_map.mpr ?_)
      refine List.Pairwise.imp_of_mem ?_ List.pairwise_lt_range'
      intro j k hj hk hjk
      have hk := List.mem_range'_1.mp hk
      exact ht.exitedAt_le (Nat.le_of_lt hjk) (by omega)
    · intro t hmem t' ht'
      rw [List.mem_singleton.mp ht']
      obtain ⟨j, hj, rfl⟩ := List.mem_map.mp (List.mem_filter.mp hmem).1
      have hj := List.mem_range'_1.mp hj
      exact htimes j (by omega)
  rw [countFailures, dropWhile_eq_filter hsorted, List.filter_append]
  -- what was within the window at exit `i` still counts only if it is within it now
  have hold : (recentTimes policy runs i).filter
      (fun t => (runs (i + 1)).exitedAt - t ≤ policy.restartWindow) =
      ((List.range' (since policy runs i) (i + 1 - since policy runs i)).map
        fun j => (runs j).exitedAt).filter
          fun t => (runs (i + 1)).exitedAt - t ≤ policy.restartWindow := by
    rw [recentTimes, List.filter_filter]
    refine List.filter_congr fun t _ => ?_
    have := htimes i (Nat.le_refl i)
    simp only [Bool.and_eq_decide, decide_eq_true_eq, decide_eq_decide]
    omega
  have hrange : List.range' (since policy runs i) (i + 1 + 1 - since policy runs i) =
      List.range' (since policy runs i) (i + 1 - since policy runs i) ++ [i + 1] := by
    rw [show i + 1 + 1 - since policy runs i = (i + 1 - since policy runs i) + 1 by omega,
      List.range'_concat, Nat.one_mul, show since policy runs i + (i + 1 - since policy runs i) = i + 1 by omega]
  rw [hold, recentTimes, since_succ h, hrange, List.map_append, List.filter_append]
  rfl

end Times

/-! ## The loop -/

theorem restartBackoff_min (policy : RestartPolicy) (n : Nat) :
    restartBackoff policy (min n maxU32) = restartBackoff policy n := by
  have hexp : min (min n maxU32 - 1) 31 = min (n - 1) 31 := by
    simp only [maxU32]
    omega
  simp only [restartBackoff, hexp]

section Runs

variable {spec : ProcessSpec} {runs : Nat → ChildRun} {i : Nat} {s : Loop}

/-- The loop at its head, with no exit behind it or exit `i - 1` as the last one. -/
structure AtHead (spec : ProcessSpec) (runs : Nat → ChildRun) (i : Nat) (s : Loop) : Prop where
  phase : s.phase = .head
  cancelled : s.cancelled = false
  clock : s.clock ≤ (runs i).startedAt
  first : i = 0 → s.consecutiveFailures = 0 ∧ s.failures = []
  later : ∀ j, i = j + 1 → s.consecutiveFailures = min (j - since spec.policy runs j + 1) maxU32 ∧
    s.failures = recentTimes spec.policy runs j

/-- What the loop counts at exit `i`. -/
theorem AtHead.counts (h : AtHead spec runs i s) (ht : Timely runs i) :
    s.countAfter spec.policy (runs i).startedAt (runs i).elapsedAt =
        min (i - since spec.policy runs i + 1) maxU32 ∧
      s.queueAfter spec.policy (runs i).startedAt (runs i).elapsedAt (runs i).exitedAt =
        recentTimes spec.policy runs i := by
  show min ((if (runs i).Stable spec.policy then 0 else s.consecutiveFailures) + 1) maxU32 = _ ∧
    countFailures spec.policy (if (runs i).Stable spec.policy then [] else s.failures) _ = _
  by_cases hs : (runs i).Stable spec.policy
  · have hsince := since_of_stable hs
    rw [if_pos hs, if_pos hs, ← recentTimes_of_since hsince, hsince, Nat.sub_self]
    exact ⟨rfl, rfl⟩
  · rw [if_neg hs, if_neg hs]
    cases i with
    | zero =>
      obtain ⟨hc, hf⟩ := h.first rfl
      rw [hc, hf, ← recentTimes_of_since since_zero]
      exact ⟨rfl, rfl⟩
    | succ j =>
      obtain ⟨hc, hf⟩ := h.later j rfl
      have hle := @since_le spec.policy runs j
      rw [hc, hf, recentTimes_succ ht hs, since_succ hs]
      refine ⟨?_, rfl⟩
      simp only [maxU32]
      omega

/-- A run that becomes ready leads to its exit. -/
theorem run_actions {r : ChildRun} (hphase : s.phase = .head) (hcancelled : s.cancelled = false)
    (hready : r.Ready spec) (hclock : s.clock ≤ r.startedAt) (helapsed : r.startedAt ≤ r.elapsedAt)
    (hexited : r.elapsedAt ≤ r.exitedAt) :
    ∃ t : Loop, Machine.run (step spec) s r.actions =
        some (t.exited spec r.startedAt r.result r.elapsedAt r.exitedAt) ∧
      t.cancelled = false ∧ t.consecutiveFailures = s.consecutiveFailures ∧ t.failures = s.failures := by
  have hready : waitReady spec r.pid false r.outcome = some (.ok ()) := hready
  refine ⟨{ (((s.transition .starting none s.restarts none).transition .starting r.pid s.restarts
    none).transition .running r.pid s.restarts none).sendInitial (.ok ()) with
      phase := .running r.pid r.startedAt, clock := r.startedAt }, ?_, hcancelled, rfl, rfl⟩
  simp only [ChildRun.actions, Machine.run, step, hphase, hcancelled, Bool.false_eq_true, if_false,
    Option.bind_some, Loop.transition, hready, Loop.sendInitial, if_pos hclock, helapsed, hexited,
    and_self, if_true]

/-- A run that becomes ready and exits. -/
theorem AtHead.exit (h : AtHead spec runs i s) (hready : (runs i).Ready spec) (ht : Timely runs i) :
    ∃ t, Machine.run (step spec) s (runs i).actions = some t ∧ t.cancelled = false ∧
      t.clock = (runs i).exitedAt ∧
      t.consecutiveFailures = min (i - since spec.policy runs i + 1) maxU32 ∧
      t.failures = recentTimes spec.policy runs i ∧
      (Exceeds spec.policy runs i → t.status.state = .quarantined ∧ t.phase = .finished) ∧
      (¬ Exceeds spec.policy runs i → t.status.state = .backoff ∧
        t.phase = .backoff (restartBackoff spec.policy (i - since spec.policy runs i + 1))) := by
  obtain ⟨t, hrun, hcancelled, hc, hf⟩ := run_actions h.phase h.cancelled hready h.clock
    (ht.elapsed i (Nat.le_refl i)) (ht.exited i (Nat.le_refl i))
  have he := exited_spec t spec (runs i).startedAt (runs i).result (runs i).elapsedAt
    (runs i).exitedAt
  obtain ⟨hcount, hqueue⟩ := h.counts ht
  rw [Loop.countAfter, ← hc] at hcount
  rw [Loop.queueAfter, ← hf] at hqueue
  rw [Loop.countAfter, hcount, Loop.queueAfter, hqueue] at he
  have houtcome := he.outcome
  rw [length_recentTimes, restartBackoff_min] at houtcome
  refine ⟨_, hrun, he.cancelled.trans hcancelled, he.clock, he.counted, he.queued, fun hexceeds => ?_,
    fun hbelow => ?_⟩
  · rcases houtcome with ⟨-, hquarantined⟩ | ⟨hnot, -⟩
    · exact hquarantined
    · exact absurd hexceeds hnot
  · rcases houtcome with ⟨hexceeds, -⟩ | ⟨-, hbackoff⟩
    · exact absurd hexceeds hbelow
    · exact hbackoff

theorem atHead_init (spec : ProcessSpec) (runs : Nat → ChildRun) :
    AtHead spec runs 0 (Loop.init spec) where
  phase := rfl
  cancelled := rfl
  clock := Nat.zero_le _
  first _ := ⟨rfl, rfl⟩
  later j hj := by omega

/-- As long as no exit exceeds the limit, the loop restarts the child. -/
theorem atHead_restarts (hready : ∀ j < i, (runs j).Ready spec) (ht : Timely runs i)
    (hlimit : ∀ j < i, ¬ Exceeds spec.policy runs j) :
    ∃ s, Machine.run (step spec) (Loop.init spec) (restarts runs i) = some s ∧ AtHead spec runs i s := by
  induction i with
  | zero => exact ⟨_, rfl, atHead_init spec runs⟩
  | succ i ih =>
    obtain ⟨s, hs, hhead⟩ := ih (fun j hj => hready j (by omega)) (ht.mono (Nat.le_succ i))
      fun j hj => hlimit j (by omega)
    obtain ⟨t, hrun, hcancelled, hclock, hcount, hqueue, -, hbackoff⟩ :=
      hhead.exit (hready i (Nat.lt_succ_self i)) (ht.mono (Nat.le_succ i))
    obtain ⟨-, hphase⟩ := hbackoff (hlimit i (Nat.lt_succ_self i))
    refine ⟨{ t with phase := .head, restarts := t.restarts + 1 }, ?_, ?_⟩
    · rw [restarts_succ, Machine.run_snoc_eq_some]
      exact ⟨t, Machine.run_append_eq_some.mpr ⟨s, hs, hrun⟩, by simp [step, hphase]⟩
    · refine ⟨rfl, hcancelled, ?_, by omega, ?_⟩
      · exact hclock ▸ ht.started i (Nat.lt_succ_self i)
      · rintro j hj
        obtain rfl : i = j := by omega
        exact ⟨hcount, hqueue⟩

/-- The state after exit `i`, when no exit before it exceeds the limit. -/
theorem exit_of_below (hready : ∀ j ≤ i, (runs j).Ready spec) (ht : Timely runs i)
    (hlimit : ∀ j < i, ¬ Exceeds spec.policy runs j) :
    ∃ t, Machine.run (step spec) (Loop.init spec) (upTo runs i) = some t ∧
      (Exceeds spec.policy runs i → t.status.state = .quarantined ∧ t.phase = .finished) ∧
      (¬ Exceeds spec.policy runs i → t.status.state = .backoff ∧
        t.phase = .backoff (restartBackoff spec.policy (i - since spec.policy runs i + 1))) := by
  obtain ⟨s, hs, hhead⟩ := atHead_restarts (fun j hj => hready j (Nat.le_of_lt hj)) ht hlimit
  obtain ⟨t, hrun, -, -, -, -, hexceeds, hbackoff⟩ := hhead.exit (hready i (Nat.le_refl i)) ht
  exact ⟨t, Machine.run_append_eq_some.mpr ⟨s, hs, hrun⟩, hexceeds, hbackoff⟩

/-- A process that is in quarantine is not restarted. -/
theorem not_run_of_exceeds (hready : ∀ j ≤ i, (runs j).Ready spec) (ht : Timely runs i) {j : Nat}
    (hj : j < i) (hexceeds : Exceeds spec.policy runs j) {s : Loop} :
    Machine.run (step spec) (Loop.init spec) (upTo runs i) ≠ some s := by
  -- the first exit that exceeds the limit
  have hex : ∃ k, Exceeds spec.policy runs k := ⟨j, hexceeds⟩
  have hk : Nat.find hex < i := Nat.lt_of_le_of_lt (Nat.find_min' hex hexceeds) hj
  obtain ⟨t, ht', hquarantined, -⟩ := exit_of_below
    (fun l hl => hready l (Nat.le_trans hl (Nat.le_of_lt hk))) (ht.mono (Nat.le_of_lt hk))
    fun l hl => Nat.find_min hex hl
  obtain ⟨-, hphase⟩ := hquarantined (Nat.find_spec hex)
  intro hrun
  obtain ⟨n, rfl⟩ := Nat.exists_eq_add_of_lt hk
  obtain ⟨u, hu, -⟩ := Machine.run_append_eq_some.mp hrun
  rw [restarts, Nat.add_right_comm, List.range_add, List.flatMap_append] at hu
  obtain ⟨v, hv, -⟩ := Machine.run_append_eq_some.mp hu
  have hv : Machine.run (step spec) (Loop.init spec) (restarts runs (Nat.find hex + 1)) = some v := hv
  rw [restarts_succ] at hv
  obtain ⟨t', hrun', hslept⟩ := Machine.run_snoc_eq_some.mp hv
  rw [ht', Option.some.injEq] at hrun'
  subst hrun'
  simp [step, hphase] at hslept

end Runs

/-- A process whose runs become ready and exit is quarantined at the first exit at which the exits
    since the last stable run that are within the window exceed the limit. After every exit before
    that it waits for the back-off of their number. -/
theorem quarantine_rule (spec : ProcessSpec) (runs : Nat → ChildRun) (i : Nat)
    (hready : ∀ j ≤ i, (runs j).Ready spec) (ht : Timely runs i) :
    ((∃ s, Machine.run (step spec) (Loop.init spec) (upTo runs i) = some s ∧
        s.status.state = .quarantined) ↔
      Exceeds spec.policy runs i ∧ ∀ j < i, ¬ Exceeds spec.policy runs j) ∧
    ((∀ j ≤ i, ¬ Exceeds spec.policy runs j) →
      ∃ s, Machine.run (step spec) (Loop.init spec) (upTo runs i) = some s ∧
        s.status.state = .backoff ∧
        s.phase = .backoff (restartBackoff spec.policy (i - since spec.policy runs i + 1))) := by
  refine ⟨⟨?_, ?_⟩, ?_⟩
  · rintro ⟨s, hrun, hstate⟩
    have hbefore : ∀ j < i, ¬ Exceeds spec.policy runs j := fun j hj hex =>
      not_run_of_exceeds hready ht hj hex hrun
    refine ⟨?_, hbefore⟩
    by_contra hnot
    obtain ⟨t, ht', -, hbackoff⟩ := exit_of_below hready ht hbefore
    rw [hrun, Option.some.injEq] at ht'
    subst ht'
    simp [(hbackoff hnot).1] at hstate
  · rintro ⟨hexceeds, hbefore⟩
    obtain ⟨t, ht', hquarantined, -⟩ := exit_of_below hready ht hbefore
    exact ⟨t, ht', (hquarantined hexceeds).1⟩
  · intro hlimit
    obtain ⟨t, ht', -, hbackoff⟩ := exit_of_below hready ht fun j hj => hlimit j (Nat.le_of_lt hj)
    exact ⟨t, ht', hbackoff (hlimit i (Nat.le_refl i))⟩

/-- Runs of a second each, apart from the second one, which lasts exactly `stable_after`. -/
def crashLoop (j : Nat) : ChildRun where
  pid := some (100 + j)
  outcome := .probed (.ok ())
  startedAt := if j = 0 then 0 else if j = 1 then 2 * second else (62 + 2 * j) * second
  result := .exited false "signal: 9 (SIGKILL)"
  elapsedAt := if j = 0 then second else if j = 1 then 62 * second else (63 + 2 * j) * second
  exitedAt := if j = 0 then second else if j = 1 then 62 * second else (63 + 2 * j) * second

def crashing : ProcessSpec := ⟨"plugin.garden", true, {}⟩

theorem quarantine_rule_crashLoop :
    (∃ s, Machine.run (step crashing) (Loop.init crashing) (upTo crashLoop 3) = some s ∧
      s.status.state = .backoff ∧ s.phase = .backoff second) ∧
    ∃ s, Machine.run (step crashing) (Loop.init crashing) (upTo crashLoop 6) = some s ∧
      s.status.state = .quarantined := by
  have hready : ∀ j, (crashLoop j).Ready crashing := fun _ => rfl
  have ht : Timely crashLoop 6 := ⟨by decide, by decide, by decide⟩
  exact ⟨(quarantine_rule crashing crashLoop 3 (fun j _ => hready j) (ht.mono (by decide))).2 (by decide),
    (quarantine_rule crashing crashLoop 6 (fun j _ => hready j) ht).1.mpr ⟨by decide, by decide⟩⟩

end Oikade.Supervisor
