/-
  The back-off before a restart in the types of the source: `RestartPolicy::validate`
  (`oikade-supervisor/src/lib.rs`) and `restart_backoff` (`process.rs`), with durations of seconds
  and nanoseconds and a counter of 32 bits.

  `restartBackoff_refines`: no operation overflows, and the duration is the one that the loop of
  `Model` waits for, where durations are numbers. So the bounds that hold of the numbers hold of the
  durations (`restartBackoff_exponential`), and of every back-off of the loop (`backoff_of_run`).
-/
import Oikade.Lib.Duration
import Oikade.Lib.Fallible
import Oikade.Supervisor.Model

namespace Oikade.Supervisor.Backoff

open Fixed

/-! ## Policies -/

structure RestartPolicy where
  initialBackoff : Duration := .fromMillis 250
  maxBackoff : Duration := .fromSecs 30
  maxRestarts : Nat := 5
  restartWindow : Duration := .fromSecs 60
  stableAfter : Duration := .fromSecs 60
  readyTimeout : Duration := .fromSecs 10
  stopTimeout : Duration := .fromSecs 5
  deriving DecidableEq, Repr

/-- `SupervisorError::InvalidPolicy` -/
structure InvalidPolicy where
  message : String
  deriving DecidableEq, Repr

def positive (duration : Duration) (message : String) : Except InvalidPolicy Unit :=
  if duration.isZero then .error ⟨message⟩ else .ok ()

def RestartPolicy.validate (policy : RestartPolicy) : Except InvalidPolicy Unit := do
  positive policy.initialBackoff "initial restart backoff must be positive"
  if policy.maxBackoff < policy.initialBackoff then
    throw ⟨"maximum restart backoff must not be less than the initial backoff"⟩
  positive policy.restartWindow "restart window must be positive"
  positive policy.stableAfter "stable duration must be positive"
  positive policy.readyTimeout "readiness timeout must be positive"
  positive policy.stopTimeout "stop timeout must be positive"

def restartBackoff (policy : RestartPolicy) (consecutiveFailures : UInt32) :
    Except Overflow Duration := do
  let exponent := min (saturatingSub consecutiveFailures 1) 31
  let factor ← shl 1 exponent
  let delay ← policy.initialBackoff.checkedMul factor
  return min (delay.getD policy.maxBackoff) policy.maxBackoff

/-- The policy that the loop of `Model` reads. -/
def RestartPolicy.inNanos (policy : RestartPolicy) : Supervisor.RestartPolicy where
  initialBackoff := policy.initialBackoff.asNanos
  maxBackoff := policy.maxBackoff.asNanos
  maxRestarts := policy.maxRestarts
  restartWindow := policy.restartWindow.asNanos
  stableAfter := policy.stableAfter.asNanos
  readyTimeout := policy.readyTimeout.asNanos
  stopTimeout := policy.stopTimeout.asNanos

/-- What `validate` accepts. -/
structure RestartPolicy.Valid (policy : RestartPolicy) : Prop where
  initialBackoff : 0 < policy.initialBackoff.asNanos
  ordered : policy.initialBackoff ≤ policy.maxBackoff
  restartWindow : 0 < policy.restartWindow.asNanos
  stableAfter : 0 < policy.stableAfter.asNanos
  readyTimeout : 0 < policy.readyTimeout.asNanos
  stopTimeout : 0 < policy.stopTimeout.asNanos

theorem positive_eq_ok {duration : Duration} {message : String} :
    positive duration message = .ok () ↔ 0 < duration.asNanos := by
  unfold positive
  split
  · rename_i h
    have := Duration.isZero_iff.mp h
    simp only [reduceCtorEq, false_iff]
    omega
  · rename_i h
    have : duration.asNanos ≠ 0 := fun hzero => h (Duration.isZero_iff.mpr hzero)
    simp only [true_iff]
    omega

theorem RestartPolicy.validate_eq_ok {policy : RestartPolicy} :
    policy.validate = .ok () ↔ policy.Valid := by
  unfold RestartPolicy.validate
  rw [Fallible.bind_ok]
  constructor
  · rintro ⟨_, hinitial, h⟩
    obtain ⟨hordered, h⟩ := Fallible.check_ok.mp h
    obtain ⟨_, hwindow, h⟩ := Fallible.bind_ok.mp h
    obtain ⟨_, hstable, h⟩ := Fallible.bind_ok.mp h
    obtain ⟨_, hready, hstop⟩ := Fallible.bind_ok.mp h
    exact ⟨positive_eq_ok.mp hinitial, Duration.not_lt.mp hordered, positive_eq_ok.mp hwindow,
      positive_eq_ok.mp hstable, positive_eq_ok.mp hready, positive_eq_ok.mp hstop⟩
  · intro hv
    refine ⟨(), positive_eq_ok.mpr hv.initialBackoff, Fallible.check_ok.mpr
      ⟨Duration.not_lt.mpr hv.ordered, ?_⟩⟩
    refine Fallible.bind_ok.mpr ⟨(), positive_eq_ok.mpr hv.restartWindow, ?_⟩
    refine Fallible.bind_ok.mpr ⟨(), positive_eq_ok.mpr hv.stableAfter, ?_⟩
    refine Fallible.bind_ok.mpr ⟨(), positive_eq_ok.mpr hv.readyTimeout, ?_⟩
    exact positive_eq_ok.mpr hv.stopTimeout

theorem validate_default : ({} : RestartPolicy).validate = .ok () := by decide

/-- The defaults of `Model` are those of the source. -/
theorem inNanos_default : ({} : RestartPolicy).inNanos = {} := by decide

/-! ## The back-off in numbers -/

section Numbers

variable {policy : Supervisor.RestartPolicy}

/-- A product over `Duration::MAX` is over the maximum as well, so falling back to the maximum is
    what the minimum does anyway. -/
theorem restartBackoff_eq (hmax : policy.maxBackoff ≤ maxDuration) (n : Nat) :
    Supervisor.restartBackoff policy n =
      min policy.maxBackoff (policy.initialBackoff * 2 ^ min (n - 1) 31) := by
  unfold Supervisor.restartBackoff
  dsimp only
  split
  · exact Nat.min_comm _ _
  · rename_i hover
    rw [Nat.min_self, Nat.min_eq_left]
    omega

theorem le_restartBackoff (hmax : policy.maxBackoff ≤ maxDuration)
    (hordered : policy.initialBackoff ≤ policy.maxBackoff) (n : Nat) :
    policy.initialBackoff ≤ Supervisor.restartBackoff policy n := by
  rw [restartBackoff_eq hmax]
  exact Nat.le_min.mpr ⟨hordered, Nat.le_mul_of_pos_right _ (Nat.two_pow_pos _)⟩

theorem restartBackoff_le (hmax : policy.maxBackoff ≤ maxDuration) (n : Nat) :
    Supervisor.restartBackoff policy n ≤ policy.maxBackoff := by
  rw [restartBackoff_eq hmax]
  exact Nat.min_le_left _ _

theorem restartBackoff_mono (hmax : policy.maxBackoff ≤ maxDuration) {m n : Nat} (h : m ≤ n) :
    Supervisor.restartBackoff policy m ≤ Supervisor.restartBackoff policy n := by
  have hexp : min (m - 1) 31 ≤ min (n - 1) 31 := by omega
  have hpow : 2 ^ min (m - 1) 31 ≤ 2 ^ min (n - 1) 31 := Nat.pow_le_pow_right (by decide) hexp
  have hprod := Nat.mul_le_mul_left policy.initialBackoff hpow
  rw [restartBackoff_eq hmax, restartBackoff_eq hmax]
  omega

theorem restartBackoff_of_le (hmax : policy.maxBackoff ≤ maxDuration) {n : Nat} (h : n ≤ 32) :
    Supervisor.restartBackoff policy n =
      min policy.maxBackoff (policy.initialBackoff * 2 ^ (n - 1)) := by
  have hexp : min (n - 1) 31 = n - 1 := by omega
  rw [restartBackoff_eq hmax, hexp]

end Numbers

/-! ## The back-off in durations -/

theorem maxBackoff_le (policy : RestartPolicy) : policy.inNanos.maxBackoff ≤ maxDuration :=
  policy.maxBackoff.asNanos_le

theorem toNat_exponent (n : UInt32) : (min (saturatingSub n 1) 31).toNat = min (n.toNat - 1) 31 := by
  show (if saturatingSub n 1 ≤ 31 then saturatingSub n 1 else 31).toNat = _
  have hsub : (saturatingSub n 1).toNat = n.toNat - 1 := toNat_saturatingSub n 1
  split
  · rename_i h
    have : (saturatingSub n 1).toNat ≤ 31 := UInt32.le_iff_toNat_le.mp h
    omega
  · rename_i h
    have : ¬ (saturatingSub n 1).toNat ≤ 31 := fun hle => h (UInt32.le_iff_toNat_le.mpr hle)
    show 31 = _
    omega

/-- The shift, the product and the minimum do not overflow; a product that does not fit is over the
    maximum. -/
theorem restartBackoff_refines (policy : RestartPolicy) (n : UInt32) :
    ∃ d, restartBackoff policy n = .ok d ∧
      d.asNanos = Supervisor.restartBackoff policy.inNanos n.toNat := by
  have hexponent := toNat_exponent n
  obtain ⟨factor, hshl, hfactor⟩ := exists_one_shl (n := min (saturatingSub n 1) 31) (by omega)
  rw [hexponent] at hfactor
  have hmax := policy.maxBackoff.asNanos_le
  have hresult : ∀ delay, policy.initialBackoff.checkedMul factor = .ok delay →
      restartBackoff policy n = .ok (min (delay.getD policy.maxBackoff) policy.maxBackoff) := by
    intro delay hmul
    unfold restartBackoff
    dsimp only
    rw [hshl, Fallible.bind_ok]
    exact ⟨factor, rfl, Fallible.bind_ok.mpr ⟨delay, hmul, rfl⟩⟩
  rw [restartBackoff_eq (maxBackoff_le policy)]
  show ∃ d : Duration, _ ∧ d.asNanos =
    min policy.maxBackoff.asNanos (policy.initialBackoff.asNanos * 2 ^ min (n.toNat - 1) 31)
  rw [← hfactor]
  obtain ⟨-, p, hmul, hp⟩ | ⟨hover, hmul⟩ := policy.initialBackoff.checkedMul_cases factor
  · refine ⟨_, hresult _ hmul, ?_⟩
    rw [Duration.asNanos_min, Option.getD_some, hp, Nat.min_comm]
  · refine ⟨_, hresult _ hmul, ?_⟩
    rw [Duration.asNanos_min, Option.getD_none, Nat.min_self]
    omega

theorem restartBackoff_within {policy : RestartPolicy} (h : policy.validate = .ok ()) {n : Nat}
    {d : Duration} (hd : d.asNanos = Supervisor.restartBackoff policy.inNanos n) :
    policy.initialBackoff ≤ d ∧ d ≤ policy.maxBackoff := by
  have hmax := maxBackoff_le policy
  have hordered := Duration.le_iff.mp (RestartPolicy.validate_eq_ok.mp h).ordered
  rw [Duration.le_iff, Duration.le_iff, hd]
  exact ⟨le_restartBackoff hmax hordered n, restartBackoff_le hmax n⟩

/-- Of a policy that was accepted, no back-off overflows; it lies between the two durations of the
    policy, does not fall with another failure, and doubles up to the maximum with each of the first
    32 failures. -/
theorem restartBackoff_exponential (policy : RestartPolicy) (h : policy.validate = .ok ()) :
    ∃ backoff : UInt32 → Duration,
      (∀ n, restartBackoff policy n = .ok (backoff n)) ∧
      (∀ n, 1 ≤ n → policy.initialBackoff ≤ backoff n ∧ backoff n ≤ policy.maxBackoff) ∧
      (∀ m n, 1 ≤ m → m ≤ n → backoff m ≤ backoff n) ∧
      ∀ n, 1 ≤ n → n ≤ 32 → (backoff n).asNanos =
        min policy.maxBackoff.asNanos (policy.initialBackoff.asNanos * 2 ^ (n.toNat - 1)) := by
  have hmax := maxBackoff_le policy
  choose backoff hbackoff hnanos using restartBackoff_refines policy
  refine ⟨backoff, hbackoff, fun n _ => restartBackoff_within h (hnanos n), fun m n _ hmn => ?_,
    fun n _ hn => ?_⟩
  · rw [Duration.le_iff, hnanos, hnanos]
    exact restartBackoff_mono hmax (UInt32.le_iff_toNat_le.mp hmn)
  · rw [hnanos]
    exact restartBackoff_of_le hmax (UInt32.le_iff_toNat_le.mp hn)

theorem restartBackoff_default :
    ({} : RestartPolicy).validate = .ok () ∧
      ∃ seventh eighth, restartBackoff {} 7 = .ok seventh ∧ seventh.asNanos = 16 * second ∧
        restartBackoff {} 8 = .ok eighth ∧ eighth.asNanos = 30 * second := by
  obtain ⟨backoff, hok, -, -, hmin⟩ := restartBackoff_exponential {} validate_default
  exact ⟨validate_default, backoff 7, backoff 8, hok 7,
    (hmin 7 (by decide) (by decide)).trans (by decide), hok 8,
    (hmin 8 (by decide) (by decide)).trans (by decide)⟩

/-- The product does not fit at the third failure. -/
def centuries : RestartPolicy where
  initialBackoff := .fromSecs 0x7fffffffffffffff
  maxBackoff := .fromSecs 0xffffffffffffffff

example : restartBackoff centuries 2 = .ok (.fromSecs 0xfffffffffffffffe) ∧
    restartBackoff centuries 3 = .ok (.fromSecs 0xffffffffffffffff) := by decide

/-! ## The loop -/

section Runs

variable {spec : ProcessSpec} {s t : Loop} {delay : Nat}

/-- The loop comes to a back-off by an exit of the child, and stays there when a stop is asked
    for. -/
theorem step_backoff {a : Action} (h : step spec s a = some t) (hphase : t.phase = .backoff delay) :
    (s.phase = .backoff delay ∧ t.consecutiveFailures = s.consecutiveFailures) ∨
      ∃ startedAt result elapsedAt now, t = s.exited spec startedAt result elapsedAt now := by
  cases a with
  | exit result elapsedAt now =>
    obtain ⟨pid, startedAt, -, -, -, ht⟩ := step_exit h
    exact .inr ⟨startedAt, result, elapsedAt, now, ht⟩
  | stop =>
    simp only [step, Option.some.injEq] at h
    subst h
    split at hphase
    · rename_i hrunning
      exact .inl ⟨hphase, by rw [if_pos hrunning]⟩
    · rename_i hrunning
      exact .inl ⟨hphase, by rw [if_neg hrunning]⟩
  | head =>
    cases hp : s.phase with
    | head =>
      simp only [step, hp] at h
      split at h
      · cases h
        cases hphase
      · cases h
        cases hphase
    | _ => simp [step, hp] at h
  | launch result =>
    cases hp : s.phase with
    | launching =>
      cases result with
      | error error | ok pid =>
        simp only [step, hp, Option.some.injEq] at h
        subst h
        cases hphase
    | _ => simp [step, hp] at h
  | ready outcome startedAt =>
    cases hp : s.phase with
    | waiting pid =>
      simp only [step, hp, Option.bind_eq_some_iff] at h
      obtain ⟨result, -, h⟩ := h
      cases result with
      | error failure =>
        cases h
        cases hphase
      | ok =>
        dsimp only at h
        split at h
        · cases h
          cases hphase
        · cases h
    | _ => simp [step, hp] at h
  | terminated result =>
    cases hp : s.phase with
    | terminating failure | stopping =>
      simp only [step, hp, Option.some.injEq] at h
      subst h
      cases hphase
    | _ => simp [step, hp] at h
  | cancel =>
    cases hp : s.phase with
    | running pid startedAt | backoff delay =>
      simp only [step, hp] at h
      split at h
      · cases h
        cases hphase
      · cases h
    | _ => simp [step, hp] at h
  | slept =>
    cases hp : s.phase with
    | backoff delay =>
      simp only [step, hp, Option.some.injEq] at h
      subst h
      cases hphase
    | _ => simp [step, hp] at h

/-- While the loop backs off, it waits for the back-off of its counter, which fits `u32`. -/
def Waits (policy : Supervisor.RestartPolicy) (s : Loop) : Prop :=
  ∀ delay, s.phase = .backoff delay → 1 ≤ s.consecutiveFailures ∧ s.consecutiveFailures ≤ maxU32 ∧
    delay = Supervisor.restartBackoff policy s.consecutiveFailures

theorem waits_exited (s : Loop) (spec : ProcessSpec) (startedAt : Nat) (result : WaitResult)
    (elapsedAt now : Nat) : Waits spec.policy (s.exited spec startedAt result elapsedAt now) := by
  have he := exited_spec s spec startedAt result elapsedAt now
  intro delay hphase
  rcases he.outcome with ⟨-, -, hfinished⟩ | ⟨-, -, hbackoff⟩
  · rw [hfinished] at hphase
    cases hphase
  · rw [hbackoff] at hphase
    cases hphase
    rw [he.counted]
    exact ⟨Nat.le_min.mpr ⟨Nat.le_add_left 1 _, by decide⟩, Nat.min_le_right _ _, rfl⟩

theorem waits_step {a : Action} (hs : Waits spec.policy s) (h : step spec s a = some t) :
    Waits spec.policy t := by
  intro delay hphase
  obtain ⟨hbefore, hcount⟩ | ⟨startedAt, result, elapsedAt, now, rfl⟩ := step_backoff h hphase
  · rw [hcount]
    exact hs delay hbefore
  · exact waits_exited s spec startedAt result elapsedAt now delay hphase

theorem waits_of_run {as : List Action}
    (h : Machine.run (step spec) (Loop.init spec) as = some s) : Waits spec.policy s :=
  Machine.run_inv (fun _ _ _ hs h => waits_step hs h) (fun _ hphase => by cases hphase) h

end Runs

/-- In every run under a policy that was accepted, the loop backs off for a duration between the
    two of the policy: the one `restart_backoff` returns for the counter of the loop. -/
theorem backoff_of_run {policy : RestartPolicy} (hvalid : policy.validate = .ok ())
    {spec : ProcessSpec} (hspec : spec.policy = policy.inNanos) {as : List Action} {s : Loop}
    (h : Machine.run (step spec) (Loop.init spec) as = some s) {delay : Nat}
    (hphase : s.phase = .backoff delay) :
    ∃ (n : UInt32) (d : Duration), n.toNat = s.consecutiveFailures ∧
      restartBackoff policy n = .ok d ∧ d.asNanos = delay ∧
      policy.initialBackoff ≤ d ∧ d ≤ policy.maxBackoff := by
  obtain ⟨-, hfits, hdelay⟩ := waits_of_run h delay hphase
  have hcount : (UInt32.ofNat s.consecutiveFailures).toNat = s.consecutiveFailures :=
    UInt32.toNat_ofNat_of_lt (Nat.lt_of_le_of_lt hfits (by decide))
  obtain ⟨d, hok, hd⟩ := restartBackoff_refines policy (.ofNat s.consecutiveFailures)
  have hwithin := restartBackoff_within hvalid hd
  rw [hcount, ← hspec, ← hdelay] at hd
  exact ⟨_, d, hcount, hok, hd, hwithin⟩

end Oikade.Supervisor.Backoff
