/-
  Durations of seconds and nanoseconds (`std::time::Duration` of Rust), and fixed-width arithmetic
  in which an overflow shows.

  `checked_mul` multiplies the two parts apart and carries between them. `checkedMul_cases`: that is
  the product of the nanoseconds, and it is refused exactly where the product is over
  `Duration::MAX`. The order compares the seconds first; it is the order of the nanoseconds
  (`le_iff`, `lt_iff`).
-/
import Mathlib.Algebra.Ring.Nat

/-! ## Fixed-width arithmetic -/

namespace Fixed

/-- An operation whose result does not fit. With overflow checks the code panics there. -/
inductive Overflow where
  | mul
  | shl
  deriving DecidableEq, Repr

/-- `u64::checked_mul` -/
def checkedMul (a b : UInt64) : Option UInt64 :=
  if a.toNat * b.toNat < 2 ^ 64 then some (a * b) else none

/-- `u64::checked_add` -/
def checkedAdd (a b : UInt64) : Option UInt64 :=
  if a.toNat + b.toNat < 2 ^ 64 then some (a + b) else none

/-- `a * b` of `u64` -/
def mul (a b : UInt64) : Except Overflow UInt64 :=
  match checkedMul a b with
  | some c => .ok c
  | none => .error .mul

/-- `a << n` of `u32` -/
def shl (a n : UInt32) : Except Overflow UInt32 := if n < 32 then .ok (a <<< n) else .error .shl

/-- `u32::saturating_sub` -/
def saturatingSub (a b : UInt32) : UInt32 := if b ≤ a then a - b else 0

section Results

variable {a b c : UInt64}

theorem toNat_checkedMul (h : checkedMul a b = some c) : c.toNat = a.toNat * b.toNat := by
  unfold checkedMul at h
  split at h
  · rename_i hlt
    rw [← Option.some.inj h, UInt64.toNat_mul, Nat.mod_eq_of_lt hlt]
  · cases h

theorem checkedMul_eq_none : checkedMul a b = none ↔ 2 ^ 64 ≤ a.toNat * b.toNat := by
  unfold checkedMul
  split
  · simp only [reduceCtorEq, false_iff]
    omega
  · simp only [true_iff]
    omega

theorem toNat_checkedAdd (h : checkedAdd a b = some c) : c.toNat = a.toNat + b.toNat := by
  unfold checkedAdd at h
  split at h
  · rename_i hlt
    rw [← Option.some.inj h, UInt64.toNat_add, Nat.mod_eq_of_lt hlt]
  · cases h

theorem checkedAdd_eq_none : checkedAdd a b = none ↔ 2 ^ 64 ≤ a.toNat + b.toNat := by
  unfold checkedAdd
  split
  · simp only [reduceCtorEq, false_iff]
    omega
  · simp only [true_iff]
    omega

theorem exists_mul (h : a.toNat * b.toNat < 2 ^ 64) :
    ∃ c, mul a b = .ok c ∧ c.toNat = a.toNat * b.toNat := by
  cases hc : checkedMul a b with
  | some c => exact ⟨c, by simp only [mul, hc], toNat_checkedMul hc⟩
  | none => exact absurd (checkedMul_eq_none.mp hc) (Nat.not_le.mpr h)

/-- A power of two that fits. -/
theorem exists_one_shl {n : UInt32} (h : n.toNat < 32) :
    ∃ c, shl 1 n = .ok c ∧ c.toNat = 2 ^ n.toNat := by
  have hn : n < 32 := UInt32.lt_iff_toNat_lt.mpr h
  refine ⟨1 <<< n, if_pos hn, ?_⟩
  have hpow : 2 ^ n.toNat < 2 ^ 32 := Nat.pow_lt_pow_right (by decide) h
  rw [UInt32.toNat_shiftLeft, Nat.mod_eq_of_lt h, UInt32.toNat_one, Nat.one_shiftLeft,
    Nat.mod_eq_of_lt hpow]

theorem toNat_saturatingSub (a b : UInt32) : (saturatingSub a b).toNat = a.toNat - b.toNat := by
  unfold saturatingSub
  split
  · rename_i h
    exact UInt32.toNat_sub_of_le _ _ h
  · rename_i h
    have : ¬ b.toNat ≤ a.toNat := fun hle => h (UInt32.le_iff_toNat_le.mpr hle)
    rw [UInt32.toNat_zero]
    omega

end Results

end Fixed

/-! ## Durations -/

/-- `NANOS_PER_SEC` -/
def Duration.nanosPerSec : Nat := 1000000000

structure Duration where
  secs : UInt64
  nanos : UInt32
  lt_second : nanos.toNat < Duration.nanosPerSec
  deriving DecidableEq, Repr

namespace Duration

open Fixed

def asNanos (d : Duration) : Nat := d.secs.toNat * nanosPerSec + d.nanos.toNat

/-- The nanoseconds of `Duration::MAX`. -/
def maxNanos : Nat := (2 ^ 64 - 1) * nanosPerSec + (nanosPerSec - 1)

def isZero (d : Duration) : Bool := d.secs = 0 && d.nanos = 0

def fromSecs (secs : UInt64) : Duration := ⟨secs, 0, by decide⟩

theorem subsecMillis_lt (millis : UInt64) :
    ((millis % 1000).toUInt32 * 1000000).toNat < nanosPerSec := by
  have hrest : millis.toNat % 1000 < 1000 := Nat.mod_lt _ (by decide)
  rw [UInt32.toNat_mul, UInt64.toNat_toUInt32, UInt64.toNat_mod]
  show millis.toNat % 1000 % 2 ^ 32 * 1000000 % 2 ^ 32 < 1000000000
  rw [Nat.mod_eq_of_lt (Nat.lt_trans hrest (by decide))]
  exact Nat.lt_of_le_of_lt (Nat.mod_le _ _) (Nat.mul_lt_mul_of_pos_right hrest (by decide))

def fromMillis (millis : UInt64) : Duration :=
  ⟨millis / 1000, (millis % 1000).toUInt32 * 1000000, subsecMillis_lt millis⟩

instance : LT Duration := ⟨fun a b => a.secs < b.secs ∨ (a.secs = b.secs ∧ a.nanos < b.nanos)⟩
instance : LE Duration := ⟨fun a b => a.secs < b.secs ∨ (a.secs = b.secs ∧ a.nanos ≤ b.nanos)⟩

instance (a b : Duration) : Decidable (a < b) := inferInstanceAs (Decidable (_ ∨ _))
instance (a b : Duration) : Decidable (a ≤ b) := inferInstanceAs (Decidable (_ ∨ _))

/-- `Ord::min` -/
instance : Min Duration := ⟨fun a b => if b < a then b else a⟩

/-- The part under a second, when the whole seconds have been carried. -/
theorem toNat_carry (t : UInt64) :
    (t % nanosPerSec.toUInt64).toUInt32.toNat = t.toNat % nanosPerSec := by
  have hlt : t.toNat % nanosPerSec < 2 ^ 32 := Nat.lt_trans (Nat.mod_lt _ (by decide)) (by decide)
  rw [UInt64.toNat_toUInt32, UInt64.toNat_mod]
  exact Nat.mod_eq_of_lt hlt

theorem carry_lt (t : UInt64) : (t % nanosPerSec.toUInt64).toUInt32.toNat < nanosPerSec := by
  rw [toNat_carry]
  exact Nat.mod_lt _ (by decide)

/-- `Duration::checked_mul` -/
def checkedMul (d : Duration) (rhs : UInt32) : Except Overflow (Option Duration) := do
  let totalNanos ← mul d.nanos.toUInt64 rhs.toUInt64
  let extraSecs := totalNanos / nanosPerSec.toUInt64
  let nanos := (totalNanos % nanosPerSec.toUInt64).toUInt32
  return (Fixed.checkedMul d.secs rhs.toUInt64).bind fun s =>
    (checkedAdd s extraSecs).map fun secs => ⟨secs, nanos, carry_lt totalNanos⟩

/-! ## In nanoseconds -/

theorem asNanos_le (d : Duration) : d.asNanos ≤ maxNanos := by
  have hsecs := d.secs.toNat_lt
  have hnanos := d.lt_second
  unfold asNanos maxNanos nanosPerSec at *
  omega

theorem lt_iff {a b : Duration} : a < b ↔ a.asNanos < b.asNanos := by
  have ha := a.lt_second
  have hb := b.lt_second
  show (a.secs < b.secs ∨ (a.secs = b.secs ∧ a.nanos < b.nanos)) ↔ _
  rw [UInt64.lt_iff_toNat_lt, UInt32.lt_iff_toNat_lt, ← UInt64.toNat_inj]
  unfold asNanos nanosPerSec at *
  omega

theorem le_iff {a b : Duration} : a ≤ b ↔ a.asNanos ≤ b.asNanos := by
  have ha := a.lt_second
  have hb := b.lt_second
  show (a.secs < b.secs ∨ (a.secs = b.secs ∧ a.nanos ≤ b.nanos)) ↔ _
  rw [UInt64.lt_iff_toNat_lt, UInt32.le_iff_toNat_le, ← UInt64.toNat_inj]
  unfold asNanos nanosPerSec at *
  omega

theorem not_lt {a b : Duration} : ¬ b < a ↔ a ≤ b := by
  rw [lt_iff, le_iff]
  omega

theorem isZero_iff {d : Duration} : d.isZero = true ↔ d.asNanos = 0 := by
  simp only [isZero, Bool.and_eq_true, decide_eq_true_eq, ← UInt64.toNat_inj, ← UInt32.toNat_inj,
    UInt64.toNat_zero, UInt32.toNat_zero]
  unfold asNanos nanosPerSec
  omega

theorem asNanos_min (a b : Duration) : (min a b).asNanos = min a.asNanos b.asNanos := by
  show (if b < a then b else a).asNanos = _
  split
  · rename_i h
    exact (Nat.min_eq_right (Nat.le_of_lt (lt_iff.mp h))).symm
  · rename_i h
    exact (Nat.min_eq_left (Nat.not_lt.mp fun hlt => h (lt_iff.mpr hlt))).symm

theorem asNanos_mul (d : Duration) (k : Nat) :
    d.asNanos * k = d.secs.toNat * k * nanosPerSec + d.nanos.toNat * k := by
  rw [asNanos, Nat.add_mul, Nat.mul_right_comm]

/-- The nanoseconds are multiplied as `u64`: thirty bits times thirty-two. -/
theorem exists_totalNanos (d : Duration) (k : UInt32) :
    ∃ t, mul d.nanos.toUInt64 k.toUInt64 = .ok t ∧ t.toNat = d.nanos.toNat * k.toNat := by
  have hnanos : d.nanos.toNat < 2 ^ 30 := Nat.lt_trans d.lt_second (by decide)
  have hfits : d.nanos.toNat * k.toNat < 2 ^ 64 :=
    Nat.lt_trans (Nat.mul_lt_mul'' hnanos k.toNat_lt) (by decide)
  rw [← UInt32.toNat_toUInt64 d.nanos, ← UInt32.toNat_toUInt64 k] at hfits ⊢
  exact exists_mul hfits

/-- The product of the nanoseconds, or nothing where it is too large. No step overflows. -/
theorem checkedMul_cases (d : Duration) (k : UInt32) :
    (d.asNanos * k.toNat ≤ maxNanos ∧
      ∃ p, d.checkedMul k = .ok (some p) ∧ p.asNanos = d.asNanos * k.toNat) ∨
    (maxNanos < d.asNanos * k.toNat ∧ d.checkedMul k = .ok none) := by
  obtain ⟨total, hmul, htotal⟩ := exists_totalNanos d k
  have hextra : (total / nanosPerSec.toUInt64).toNat = total.toNat / nanosPerSec := UInt64.toNat_div ..
  have hcarry := Nat.div_add_mod total.toNat nanosPerSec
  have hrest : total.toNat % nanosPerSec < nanosPerSec := Nat.mod_lt _ (by decide)
  have hprod := asNanos_mul d k.toNat
  simp only [checkedMul, hmul, bind, Except.bind, pure, Except.pure]
  cases hs : Fixed.checkedMul d.secs k.toUInt64 with
  | none =>
    have hover := checkedMul_eq_none.mp hs
    rw [UInt32.toNat_toUInt64] at hover
    refine .inr ⟨?_, rfl⟩
    unfold maxNanos nanosPerSec at *
    omega
  | some s =>
    have hseconds := toNat_checkedMul hs
    rw [UInt32.toNat_toUInt64] at hseconds
    cases ha : checkedAdd s (total / nanosPerSec.toUInt64) with
    | none =>
      have hover := checkedAdd_eq_none.mp ha
      rw [hextra] at hover
      refine .inr ⟨?_, by simp only [Option.bind_some, ha, Option.map_none]⟩
      unfold maxNanos nanosPerSec at *
      omega
    | some secs =>
      have hsum := toNat_checkedAdd ha
      rw [hextra] at hsum
      have hp : (⟨secs, _, carry_lt total⟩ : Duration).asNanos = d.asNanos * k.toNat := by
        show secs.toNat * nanosPerSec + (total % nanosPerSec.toUInt64).toUInt32.toNat = _
        rw [hprod, toNat_carry]
        unfold nanosPerSec at *
        omega
      exact .inl ⟨hp ▸ asNanos_le _, _, by simp only [Option.bind_some, ha, Option.map_some], hp⟩

end Duration
