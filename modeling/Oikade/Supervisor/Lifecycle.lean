/-
  What a supervised process goes through once it has run.

  The law of a history (`Lawful`): after the state `running` was reported, the state `stopped` is
  reported only when a stop was requested, a failure is followed by `backoff` or `quarantined`, a
  back-off by another attempt, and the count of restarts never goes down. `run` shares
  `initial_failure` between the first attempt and the later ones, so a launch or a readiness attempt
  that fails after a restart breaks the law (`not_lawful_lostRestart`); `lawful_of_restarted` says
  that nothing else does.
-/
import Oikade.Supervisor.Model

namespace Oikade.Supervisor

open Machine (Each each_nil each_snoc)

/-! ## The law -/

def reports (h : List Happening) : List Status :=
  h.filterMap fun
    | .reported status => some status
    | _ => none

/-- The process has run. -/
def HasRun (h : List Happening) : Prop := ∃ status ∈ reports h, status.state = .running

/-- A failure that no report has answered yet. -/
def Pending (h : List Happening) : Prop :=
  (h.filter (· ≠ .requested)).getLast? = some .failed

/-- What may be reported after a history. -/
structure Allowed (h : List Happening) (status : Status) : Prop where
  stopped : HasRun h → status.state = .stopped → .requested ∈ h
  failure : HasRun h → Pending h →
    status.state = .backoff ∨ status.state = .quarantined ∨ .requested ∈ h
  attempt : ∀ last, (reports h).getLast? = some last → last.state = .backoff →
    status.state = .starting ∨ .requested ∈ h
  restarts : ∀ earlier ∈ reports h, earlier.restarts ≤ status.restarts

def Lawful (h : List Happening) : Prop :=
  Each (fun before e => ∀ status, e = .reported status → Allowed before status) h

section Snoc

variable {h : List Happening} {status : Status}

theorem reports_reported : reports (h ++ [.reported status]) = reports h ++ [status] := by
  simp [reports]

theorem reports_fail (s : Loop) : reports s.fail.history = reports s.history := by
  simp [reports, Loop.fail]

theorem hasRun_fail {s : Loop} : HasRun s.fail.history ↔ HasRun s.history := by
  rw [HasRun, reports_fail, HasRun]

theorem reports_requested : reports (h ++ [.requested]) = reports h := by simp [reports]

theorem last_reported {last : Status}
    (hlast : (reports (h ++ [.reported status])).getLast? = some last) : last = status := by
  rw [reports_reported, List.getLast?_concat, Option.some.injEq] at hlast
  exact hlast.symm

theorem hasRun_reported : HasRun (h ++ [.reported status]) ↔
    HasRun h ∨ status.state = .running := by
  simp only [HasRun, reports_reported, List.mem_append, List.mem_singleton]
  constructor
  · rintro ⟨r, hr | rfl, hs⟩
    · exact .inl ⟨r, hr, hs⟩
    · exact .inr hs
  · rintro (⟨r, hr, hs⟩ | hs)
    · exact ⟨r, .inl hr, hs⟩
    · exact ⟨status, .inr rfl, hs⟩

theorem not_pending_reported : ¬Pending (h ++ [.reported status]) := by simp [Pending]

theorem pending_requested : Pending (h ++ [.requested]) ↔ Pending h := by simp [Pending]

theorem lawful_reported :
    Lawful (h ++ [.reported status]) ↔ Lawful h ∧ Allowed h status := by
  rw [Lawful, each_snoc]
  refine and_congr_right fun _ => ⟨fun ha => ha status rfl, ?_⟩
  rintro ha _ ⟨⟩
  exact ha

theorem lawful_failed : Lawful (h ++ [.failed]) ↔ Lawful h := by
  rw [Lawful, each_snoc]
  exact and_iff_left fun _ he => Happening.noConfusion he

theorem lawful_requested : Lawful (h ++ [.requested]) ↔ Lawful h := by
  rw [Lawful, each_snoc]
  exact and_iff_left fun _ he => Happening.noConfusion he

end Snoc

/-! ## The invariant -/

/-- What each place of the loop knows of the history. -/
def Phase.Knows (phase : Phase) (restarts : Nat) (cancelled : Bool) (h : List Happening) : Prop :=
  match phase with
  | .head => HasRun h → 1 ≤ restarts
  | .launching | .waiting _ =>
    (HasRun h → 1 ≤ restarts) ∧ ∀ last, (reports h).getLast? = some last → last.state = .starting
  | .terminating _ =>
    ¬HasRun h ∧ restarts = 0 ∧ ∀ last, (reports h).getLast? = some last → last.state = .starting
  | .running _ _ => ∀ last, (reports h).getLast? = some last → last.state = .running
  | .stopping => cancelled = true
  | .backoff _ | .finished => True

structure Ok (s : Loop) : Prop where
  lawful : Lawful s.history
  restarts : ∀ r ∈ reports s.history, r.restarts ≤ s.restarts
  requested : s.cancelled = true → .requested ∈ s.history
  pending : Pending s.history → ∃ failure, s.phase = .terminating failure
  knows : s.phase.Knows s.restarts s.cancelled s.history

theorem ok_init (spec : ProcessSpec) : Ok (Loop.init spec) where
  lawful := each_nil
  restarts := by simp [Loop.init, reports]
  requested := by simp [Loop.init]
  pending := by simp [Loop.init, Pending]
  knows := by simp [Loop.init, Phase.Knows, HasRun, reports]

/-- A report that the law allows. -/
theorem ok_of_report {t : Loop} {h : List Happening} {status : Status}
    (hh : t.history = h ++ [.reported status]) (hl : Lawful h) (ha : Allowed h status)
    (hle : status.restarts ≤ t.restarts) (hreq : t.cancelled = true → .requested ∈ h)
    (hk : t.phase.Knows t.restarts t.cancelled t.history) : Ok t where
  lawful := hh ▸ lawful_reported.mpr ⟨hl, ha⟩
  restarts := by
    rw [hh, reports_reported]
    intro r hr
    rcases List.mem_append.mp hr with hr | hr
    · exact Nat.le_trans (ha.restarts r hr) hle
    · exact List.mem_singleton.mp hr ▸ hle
  requested hc := by
    rw [hh]
    exact List.mem_append_left _ (hreq hc)
  pending hp := absurd (hh ▸ hp) not_pending_reported
  knows := hk

/-- A failure is left without a report only while the child is being terminated. -/
theorem Ok.not_pending {s : Loop} (hs : Ok s) (hp : ∀ failure, s.phase ≠ .terminating failure) :
    ¬Pending s.history := by
  intro hpend
  obtain ⟨failure, hf⟩ := hs.pending hpend
  exact hp failure hf

/-- The condition: once the process was restarted, no launch and no readiness attempt fails. -/
def attemptFails (spec : ProcessSpec) (s : Loop) : Action → Bool
  | .launch (.error _) => true
  | .ready outcome _ =>
    match s.phase with
    | .waiting pid =>
      match waitReady spec pid s.cancelled outcome with
      | some (.error _) => true
      | _ => false
    | _ => false
  | _ => false

def Restarts (spec : ProcessSpec) (s : Loop) (a : Action) : Prop :=
  1 ≤ s.restarts → attemptFails spec s a = false

section Steps

variable {spec : ProcessSpec} {s t : Loop}

/-- A stop request is no report. -/
theorem ok_stop (hs : Ok s) (h : step spec s .stop = some t) : Ok t := by
  simp only [step, Option.some.injEq] at h
  subst h
  split
  · refine ⟨lawful_requested.mpr hs.lawful, ?_, fun _ => by simp, ?_, ?_⟩
    · simpa only [reports_requested] using hs.restarts
    · simpa only [pending_requested] using hs.pending
    · have hk := hs.knows
      revert hk
      cases s.phase <;> simp [Phase.Knows, HasRun, reports_requested]
  · exact hs

theorem ok_head (hs : Ok s) (h : step spec s .head = some t) : Ok t := by
  cases hp : s.phase with
  | head =>
    have hrun : HasRun s.history → 1 ≤ s.restarts := by simpa [hp, Phase.Knows] using hs.knows
    have hpend := hs.not_pending (by simp [hp])
    simp only [step, hp] at h
    split at h
    · rename_i hc
      cases h
      refine ok_of_report rfl hs.lawful ?_ (Nat.le_refl _) hs.requested trivial
      exact ⟨fun _ _ => hs.requested hc, fun _ hpend' => absurd hpend' hpend,
        fun _ _ _ => .inr (hs.requested hc), hs.restarts⟩
    · cases h
      refine ok_of_report rfl hs.lawful ?_ (Nat.le_refl _) hs.requested ?_
      · exact ⟨fun _ hst => State.noConfusion hst, fun _ hpend' => absurd hpend' hpend,
          fun _ _ _ => .inl rfl, hs.restarts⟩
      · refine ⟨fun hrun' => ?_, ?_⟩
        · rcases hasRun_reported.mp hrun' with hrun' | hrun'
          · exact hrun hrun'
          · cases hrun'
        · intro last hlast
          exact last_reported hlast ▸ rfl
  | _ => simp [step, hp] at h

/-- The attempt of the first iteration fails: nothing has run yet. -/
theorem allowed_initialFailure {h : List Happening} {status : Status} (hrun : ¬HasRun h)
    (hlast : ∀ last, (reports h).getLast? = some last → last.state = .starting)
    (hres : ∀ r ∈ reports h, r.restarts ≤ status.restarts) : Allowed h status where
  stopped hrun' := absurd hrun' hrun
  failure hrun' := absurd hrun' hrun
  attempt last hl hb := by
    rw [hlast last hl] at hb
    cases hb
  restarts := hres

theorem ok_launch {result : Except String (Option Nat)} (hs : Ok s)
    (hok : Restarts spec s (.launch result)) (h : step spec s (.launch result) = some t) : Ok t := by
  cases hp : s.phase with
  | launching =>
    obtain ⟨hrun, hlast⟩ : (HasRun s.history → 1 ≤ s.restarts) ∧
        ∀ last, (reports s.history).getLast? = some last → last.state = .starting := by
      simpa [hp, Phase.Knows] using hs.knows
    have hpend := hs.not_pending (by simp [hp])
    cases result with
    | error error =>
      have hzero : s.restarts = 0 := by
        by_contra hne
        exact Bool.noConfusion (hok (Nat.pos_of_ne_zero hne))
      simp only [step, hp, Option.some.injEq] at h
      subst h
      refine ok_of_report rfl (lawful_failed.mpr hs.lawful) ?_ (Nat.zero_le _) ?_ trivial
      · refine allowed_initialFailure ?_ ?_ ?_
        · intro hrun'
          have := hrun (hasRun_fail.mp hrun')
          omega
        · rwa [reports_fail]
        · simpa only [reports_fail, hzero] using hs.restarts
      · exact fun hc => List.mem_append_left _ (hs.requested hc)
    | ok pid =>
      simp only [step, hp, Option.some.injEq] at h
      subst h
      refine ok_of_report rfl hs.lawful ?_ (Nat.le_refl _) hs.requested ?_
      · exact ⟨fun _ hst => State.noConfusion hst, fun _ hpend' => absurd hpend' hpend,
          fun _ _ _ => .inl rfl, hs.restarts⟩
      · refine ⟨fun hrun' => ?_, fun last hl => last_reported hl ▸ rfl⟩
        rcases hasRun_reported.mp hrun' with hrun' | hrun'
        · exact hrun hrun'
        · cases hrun'
  | _ => cases result <;> simp [step, hp] at h

theorem ok_ready {outcome : ReadyOutcome} {startedAt : Nat} (hs : Ok s)
    (hok : Restarts spec s (.ready outcome startedAt))
    (h : step spec s (.ready outcome startedAt) = some t) : Ok t := by
  cases hp : s.phase with
  | waiting pid =>
    obtain ⟨hrun, hlast⟩ : (HasRun s.history → 1 ≤ s.restarts) ∧
        ∀ last, (reports s.history).getLast? = some last → last.state = .starting := by
      simpa [hp, Phase.Knows] using hs.knows
    have hpend := hs.not_pending (by simp [hp])
    simp only [step, hp] at h
    obtain ⟨result, hw, h⟩ := Option.bind_eq_some_iff.mp h
    cases result with
    | error failure =>
      have hzero : s.restarts = 0 := by
        by_contra hne
        have hf := hok (Nat.pos_of_ne_zero hne)
        simp [attemptFails, hp, hw] at hf
      simp only [Option.some.injEq] at h
      subst h
      refine ⟨lawful_failed.mpr hs.lawful, ?_, ?_, fun _ => ⟨failure, rfl⟩, ?_, hzero, ?_⟩
      · exact (reports_fail s).symm ▸ hs.restarts
      · exact fun hc => List.mem_append_left _ (hs.requested hc)
      · intro hrun'
        have := hrun (hasRun_fail.mp hrun')
        omega
      · exact (reports_fail s).symm ▸ hlast
    | ok _ =>
      simp only at h
      split at h
      · cases h
        refine ok_of_report rfl hs.lawful ?_ (Nat.le_refl _) hs.requested ?_
        · refine ⟨fun _ hst => State.noConfusion hst, fun _ hpend' => absurd hpend' hpend, ?_,
            hs.restarts⟩
          intro last hl hb
          rw [hlast last hl] at hb
          cases hb
        · exact fun last hl => last_reported hl ▸ rfl
      · cases h
  | _ => simp [step, hp] at h

theorem ok_terminated {result : Except String Unit} (hs : Ok s)
    (h : step spec s (.terminated result) = some t) : Ok t := by
  cases hp : s.phase with
  | terminating failure =>
    obtain ⟨hrun, hzero, hlast⟩ : ¬HasRun s.history ∧ s.restarts = 0 ∧
        ∀ last, (reports s.history).getLast? = some last → last.state = .starting := by
      simpa [hp, Phase.Knows] using hs.knows
    simp only [step, hp, Option.some.injEq] at h
    subst h
    refine ok_of_report rfl hs.lawful ?_ (Nat.zero_le _) hs.requested trivial
    exact allowed_initialFailure hrun hlast (hzero ▸ hs.restarts)
  | stopping =>
    have hc : s.cancelled = true := by simpa [hp, Phase.Knows] using hs.knows
    simp only [step, hp, Option.some.injEq] at h
    subst h
    refine ok_of_report rfl hs.lawful ?_ (Nat.le_refl _) hs.requested trivial
    exact ⟨fun _ _ => hs.requested hc, fun _ _ => .inr (.inr (hs.requested hc)),
      fun _ _ _ => .inr (hs.requested hc), hs.restarts⟩
  | _ => simp [step, hp] at h

theorem ok_exit {result : WaitResult} {elapsedAt now : Nat} (hs : Ok s)
    (h : step spec s (.exit result elapsedAt now) = some t) : Ok t := by
  obtain ⟨pid, startedAt, hp, -, -, rfl⟩ := step_exit h
  have hlast : ∀ last, (reports s.history).getLast? = some last → last.state = .running := by
    simpa [hp, Phase.Knows] using hs.knows
  have he := exited_spec s spec startedAt result elapsedAt now
  refine ok_of_report he.history (lawful_failed.mpr hs.lawful) ⟨?_, ?_, ?_, ?_⟩ ?_ ?_ ?_
  · intro _ hst
    rcases he.outcome with ⟨-, hq, -⟩ | ⟨-, hb, -⟩
    · rw [hq] at hst
      cases hst
    · rw [hb] at hst
      cases hst
  · intro _ _
    rcases he.outcome with ⟨-, hq, -⟩ | ⟨-, hb, -⟩
    · exact .inr (.inl hq)
    · exact .inl hb
  · intro last hl hb
    rw [reports_fail] at hl
    rw [hlast last hl] at hb
    cases hb
  · rw [reports_fail, he.reported]
    exact hs.restarts
  · exact Nat.le_of_eq (he.reported.trans he.restarts.symm)
  · exact fun hcan => List.mem_append_left _ (hs.requested (he.cancelled ▸ hcan))
  · rcases he.outcome with ⟨-, -, hphase⟩ | ⟨-, -, hphase⟩
    · rw [hphase]
      trivial
    · rw [hphase]
      trivial

theorem ok_cancel (hs : Ok s) (h : step spec s .cancel = some t) : Ok t := by
  cases hp : s.phase with
  | running pid startedAt =>
    simp only [step, hp] at h
    split at h
    · rename_i hc
      cases h
      exact ⟨hs.lawful, hs.restarts, hs.requested,
        fun hpend => absurd hpend (hs.not_pending (by simp [hp])), hc⟩
    · cases h
  | backoff delay =>
    simp only [step, hp] at h
    split at h
    · rename_i hc
      cases h
      refine ok_of_report rfl hs.lawful ?_ (Nat.le_refl _) hs.requested trivial
      exact ⟨fun _ _ => hs.requested hc, fun _ _ => .inr (.inr (hs.requested hc)),
        fun _ _ _ => .inr (hs.requested hc), hs.restarts⟩
    · cases h
  | _ => simp [step, hp] at h

theorem ok_slept (hs : Ok s) (h : step spec s .slept = some t) : Ok t := by
  cases hp : s.phase with
  | backoff delay =>
    simp only [step, hp, Option.some.injEq] at h
    subst h
    exact ⟨hs.lawful, fun r hr => Nat.le_succ_of_le (hs.restarts r hr), hs.requested,
      fun hpend => absurd hpend (hs.not_pending (by simp [hp])), fun _ => Nat.le_add_left 1 _⟩
  | _ => simp [step, hp] at h

theorem ok_step {a : Action} (hs : Ok s) (hok : Restarts spec s a) (h : step spec s a = some t) :
    Ok t := by
  cases a with
  | stop => exact ok_stop hs h
  | head => exact ok_head hs h
  | launch result => exact ok_launch hs hok h
  | ready outcome startedAt => exact ok_ready hs hok h
  | terminated result => exact ok_terminated hs h
  | exit result elapsedAt now => exact ok_exit hs h
  | cancel => exact ok_cancel hs h
  | slept => exact ok_slept hs h

end Steps

/-! ## Runs -/

/-- In every run in which, once the process was restarted, no launch and no readiness attempt
    fails, the history is lawful; and from a back-off the loop comes to another attempt, unless a
    stop was requested. -/
theorem lawful_of_restarted {spec : ProcessSpec} {as : List Action} {s : Loop}
    (hok : Machine.Meets (step spec) (Restarts spec) (Loop.init spec) as)
    (h : Machine.run (step spec) (Loop.init spec) as = some s) :
    Lawful s.history ∧ ∀ delay, s.phase = .backoff delay →
      ∃ t, Machine.run (step spec) s [.slept, .head] = some t ∧
        (t.status.state = .starting ∨ .requested ∈ s.history) := by
  have hs : Ok s := Machine.run_inv_of_meets (fun _ _ _ hs hok h => ok_step hs hok h)
    (ok_init spec) hok h
  refine ⟨hs.lawful, fun delay hp => ?_⟩
  cases hc : s.cancelled with
  | true =>
    simp only [Machine.run, step, hp, hc, Option.bind_some, if_true]
    exact ⟨_, rfl, .inr (hs.requested hc)⟩
  | false =>
    simp only [Machine.run, step, hp, hc, Option.bind_some, Bool.false_eq_true, if_false]
    exact ⟨_, rfl, .inl rfl⟩

instance (spec : ProcessSpec) (s : Loop) (a : Action) : Decidable (Restarts spec s a) :=
  inferInstanceAs (Decidable (1 ≤ s.restarts → attemptFails spec s a = false))

def probed : ProcessSpec := ⟨"plugin.garden", true, {}⟩

/-- The child becomes ready and exits; after the back-off it is launched again. -/
def relaunch : List Action :=
  [.head, .launch (.ok (some 7)), .ready (.probed (.ok ())) 0,
   .exit (.exited false "exit status: 1") 10 10, .slept, .head]

/-- The second child becomes ready; then a stop is requested. -/
def restarted : List Action :=
  relaunch ++ [.launch (.ok (some 8)), .ready (.probed (.ok ())) 20, .stop, .cancel,
    .terminated (.ok ())]

theorem lawful_restarted :
    Machine.Meets (step probed) (Restarts probed) (Loop.init probed) restarted ∧
      ∃ s, Machine.run (step probed) (Loop.init probed) restarted = some s ∧
        s.status = ⟨"plugin.garden", .stopped, none, 1, none⟩ ∧ Lawful s.history := by
  have hmeets : Machine.Meets (step probed) (Restarts probed) (Loop.init probed) restarted :=
    Machine.meets_mono (fun _ _ => of_decide_eq_true) (Machine.meets_of_allows (by decide))
  exact ⟨hmeets, _, rfl, rfl, (lawful_of_restarted hmeets rfl).1⟩

/-- The relaunch fails: the supervisor stops with no stop requested, and reports no restart. -/
def lostRestart : List Action := relaunch ++ [.launch (.error "no such file")]

theorem not_lawful_lostRestart :
    ¬∀ (spec : ProcessSpec) (as : List Action) (s : Loop),
      Machine.run (step spec) (Loop.init spec) as = some s → Lawful s.history := by
  intro hall
  have hl := hall probed lostRestart _ rfl
  have ha := (lawful_reported.mp hl).2
  refine absurd (ha.stopped ?_ rfl) (by decide)
  unfold HasRun
  decide

end Oikade.Supervisor
