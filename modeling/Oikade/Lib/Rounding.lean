/-
  Arithmetic on binary64 data: each operation is the exact result, rounded once by `ofRatio`.

  `ofRatio_mono`: rounding keeps the order of fractions. The bits of a non-negative datum, read as a
  number, are in the order of the data (`magnitudeOf_mono`), so it is enough to compare the bits:
  with one unit the rounded multiples are in order (`roundRatio_mono`), and between two units lie
  the multiples `2^52` and `2^53`. From this an operation with a fixed operand rises on every range
  (`rises_mul`, `rises_div`, `rises_add`), and so do compositions (`Rises.comp`); what a rising
  function gives on a range lies between its values at the ends (`Rises.between`).
-/
import Oikade.Lib.Float64
import Mathlib.Algebra.Order.Field.Power
import Mathlib.Data.Rat.Cast.Order
import Mathlib.Tactic.Linarith
import Mathlib.Tactic.Ring
import Mathlib.Tactic.FieldSimp

namespace Float64

/-! ## Nearest integers -/

section Ratio

variable {n d n' d' k : Nat}

/-- The nearest integers are in the order of the fractions. -/
theorem roundRatio_mono (hd : 0 < d) (hd' : 0 < d') (h : n * d' ≤ n' * d) :
    roundRatio n d ≤ roundRatio n' d' := by
  have hn := Nat.div_add_mod n d
  have hn' := Nat.div_add_mod n' d'
  have hr := Nat.mod_lt n hd
  have hr' := Nat.mod_lt n' hd'
  have hq : n / d ≤ n' / d' := by
    rw [Nat.le_div_iff_mul_le hd']
    have hqd : n / d * d ≤ n := Nat.div_mul_le_self n d
    have hmul : n / d * d' * d ≤ n' * d := by nlinarith
    exact Nat.le_of_mul_le_mul_right hmul hd
  unfold roundRatio
  dsimp only
  rcases Nat.lt_or_eq_of_le hq with hlt | heq
  · split <;> split <;> omega
  · -- with the same quotient the remainders are in the order of the fractions
    have hrem : n % d * d' ≤ n' % d' * d := by
      rw [heq] at hn
      nlinarith
    rw [← heq]
    by_cases hup : d < 2 * (n % d) ∨ 2 * (n % d) = d ∧ n / d % 2 = 1
    · have hup' : d' < 2 * (n' % d') ∨ 2 * (n' % d') = d' ∧ n / d % 2 = 1 := by
        rcases hup with hgt | ⟨hhalf, hodd⟩
        · left
          by_contra hle
          have hle := Nat.le_of_not_lt hle
          nlinarith
        · by_cases hgt : d' < 2 * (n' % d')
          · exact .inl hgt
          · refine .inr ⟨?_, hodd⟩
            have hge : d' ≤ 2 * (n' % d') := by
              by_contra hlt
              have hlt := Nat.lt_of_not_le hlt
              nlinarith
            omega
      rw [if_pos hup, if_pos hup']
    · rw [if_neg hup]
      split <;> omega

theorem roundRatio_mul (hd : 0 < d) : roundRatio (k * d) d = k := by
  simp [roundRatio, Nat.mul_div_cancel k hd, Nat.ne_of_lt hd]

theorem le_roundRatio (hd : 0 < d) (h : k * d ≤ n) : k ≤ roundRatio n d := by
  have hmono : roundRatio (k * d) d ≤ roundRatio n d :=
    roundRatio_mono hd hd (Nat.mul_le_mul_right d h)
  rwa [roundRatio_mul hd] at hmono

theorem roundRatio_le (hd : 0 < d) (h : n ≤ k * d) : roundRatio n d ≤ k := by
  have hmono : roundRatio n d ≤ roundRatio (k * d) d :=
    roundRatio_mono hd hd (Nat.mul_le_mul_right d h)
  rwa [roundRatio_mul hd] at hmono

end Ratio

/-! ## Bits -/

/-- The magnitude that a number of less than 63 bits stands for, infinity included. -/
def magnitudeOf (b : Nat) : Nat :=
  if b / 2 ^ 52 = 0 then b % 2 ^ 52 else (2 ^ 52 + b % 2 ^ 52) * 2 ^ (b / 2 ^ 52 - 1)

theorem magnitudeOf_mono {b b' : Nat} (h : b ≤ b') : magnitudeOf b ≤ magnitudeOf b' := by
  have hq : b / 2 ^ 52 ≤ b' / 2 ^ 52 := Nat.div_le_div_right h
  have hb := Nat.div_add_mod b (2 ^ 52)
  have hb' := Nat.div_add_mod b' (2 ^ 52)
  have hr : b % 2 ^ 52 < 2 ^ 52 := Nat.mod_lt _ (by decide)
  unfold magnitudeOf
  rcases Nat.lt_or_eq_of_le hq with hlt | heq
  · have hne : b' / 2 ^ 52 ≠ 0 := by omega
    rw [if_neg hne]
    have hup : 2 ^ 52 * 2 ^ (b' / 2 ^ 52 - 1) ≤
        (2 ^ 52 + b' % 2 ^ 52) * 2 ^ (b' / 2 ^ 52 - 1) :=
      Nat.mul_le_mul_right _ (Nat.le_add_right _ _)
    refine Nat.le_trans ?_ hup
    split
    · exact Nat.le_trans (Nat.le_of_lt hr) (Nat.le_mul_of_pos_right _ (Nat.two_pow_pos _))
    · have hpow : 2 ^ (b / 2 ^ 52 - 1) * 2 ≤ 2 ^ (b' / 2 ^ 52 - 1) := by
        rw [← Nat.pow_succ]
        exact Nat.pow_le_pow_right (by decide) (by omega)
      calc (2 ^ 52 + b % 2 ^ 52) * 2 ^ (b / 2 ^ 52 - 1)
          ≤ (2 ^ 52 * 2) * 2 ^ (b / 2 ^ 52 - 1) := Nat.mul_le_mul_right _ (by omega)
        _ = 2 ^ 52 * (2 ^ (b / 2 ^ 52 - 1) * 2) := by ring
        _ ≤ 2 ^ 52 * 2 ^ (b' / 2 ^ 52 - 1) := Nat.mul_le_mul_left _ hpow
  · rw [← heq]
    split
    · omega
    · exact Nat.mul_le_mul_right _ (by omega)

/-- The exponent of a fraction, the unit of its rounding, and the bits before the cut at infinity:
    the parts of `ofRatio`. -/
def exponentOf (n d : Nat) : Int :=
  let e : Int := (n.log2 : Int) - d.log2
  if n * 2 ^ (-e).toNat < d * 2 ^ e.toNat then e - 1 else e

def unitOf (n d : Nat) : Int := max (exponentOf n d - 52) (-1074)

def bitsOf (n d : Nat) : Nat :=
  let u := unitOf n d
  (u + 1074).toNat * 2 ^ 52 + roundRatio (n * 2 ^ (-u).toNat) (d * 2 ^ u.toNat)

def infinityBits : Nat := 0x7FF0000000000000

theorem ofRatio_eq {n : Nat} (hn : n ≠ 0) (d : Nat) :
    ofRatio n d = ⟨BitVec.ofNat 64 (min (bitsOf n d) infinityBits)⟩ := by
  rw [ofRatio, if_neg hn]
  rfl

section Order

variable {n d n' d' : Nat}

theorem two_zpow_toNat (k : Int) : (2 : ℚ) ^ (-k).toNat / 2 ^ k.toNat = 2 ^ (-k) := by
  obtain ⟨m, rfl | rfl⟩ := k.eq_nat_or_neg
  · simp
  · simp

/-- A power of two against a fraction. -/
theorem le_ratio_iff (hd : 0 < d) (k : Int) :
    d * 2 ^ k.toNat ≤ n * 2 ^ (-k).toNat ↔ (2 : ℚ) ^ k ≤ n / d := by
  have hd' : (0 : ℚ) < d := by exact_mod_cast hd
  have hk : (0 : ℚ) < 2 ^ k.toNat := by positivity
  have hpow : (2 : ℚ) ^ k * 2 ^ (-k).toNat = 2 ^ k.toNat := by
    have h := two_zpow_toNat k
    rw [div_eq_iff (ne_of_gt hk)] at h
    rw [h, ← mul_assoc, ← zpow_add₀ two_ne_zero]
    simp
  have hneg : (0 : ℚ) < 2 ^ (-k).toNat := by positivity
  rw [le_div_iff₀ hd']
  constructor
  · intro h
    have h' : (d : ℚ) * 2 ^ k.toNat ≤ n * 2 ^ (-k).toNat := by exact_mod_cast h
    rw [← hpow] at h'
    nlinarith
  · intro h
    have h' : (d : ℚ) * 2 ^ k.toNat ≤ n * 2 ^ (-k).toNat := by
      rw [← hpow]
      nlinarith
    exact_mod_cast h'

/-- A fraction lies between the power of its exponent and the next one. -/
theorem exponentOf_spec (hn : n ≠ 0) (hd : 0 < d) :
    (2 : ℚ) ^ exponentOf n d ≤ n / d ∧ (n / d : ℚ) < 2 ^ (exponentOf n d + 1) := by
  have hd' : (0 : ℚ) < d := by exact_mod_cast hd
  have hnl : (2 : ℚ) ^ n.log2 ≤ n := by exact_mod_cast Nat.log2_self_le hn
  have hnu : (n : ℚ) < 2 ^ (n.log2 + 1) := by exact_mod_cast Nat.lt_log2_self
  have hdl : (2 : ℚ) ^ d.log2 ≤ d := by exact_mod_cast Nat.log2_self_le (Nat.ne_of_gt hd)
  have hdu : (d : ℚ) < 2 ^ (d.log2 + 1) := by exact_mod_cast Nat.lt_log2_self
  have hup : (n / d : ℚ) < 2 ^ ((n.log2 : Int) - d.log2 + 1) := by
    rw [div_lt_iff₀ hd']
    have hexp : (2 : ℚ) ^ ((n.log2 : Int) - d.log2 + 1) * 2 ^ d.log2 = 2 ^ (n.log2 + 1) := by
      rw [← zpow_natCast, ← zpow_natCast, ← zpow_add₀ two_ne_zero]
      congr 1
      push_cast
      ring
    have hpos : (0 : ℚ) < 2 ^ ((n.log2 : Int) - d.log2 + 1) := by positivity
    nlinarith
  have hlow : (2 : ℚ) ^ ((n.log2 : Int) - d.log2 - 1) ≤ n / d := by
    rw [le_div_iff₀ hd']
    have hexp : (2 : ℚ) ^ ((n.log2 : Int) - d.log2 - 1) * 2 ^ (d.log2 + 1) = 2 ^ n.log2 := by
      rw [← zpow_natCast, ← zpow_natCast, ← zpow_add₀ two_ne_zero]
      congr 1
      push_cast
      ring
    have hpos : (0 : ℚ) < 2 ^ ((n.log2 : Int) - d.log2 - 1) := by positivity
    nlinarith
  unfold exponentOf
  dsimp only
  split
  · rename_i hlt
    refine ⟨hlow, ?_⟩
    rw [sub_add_cancel, ← not_le, ← le_ratio_iff hd, not_le]
    exact hlt
  · rename_i hle
    exact ⟨(le_ratio_iff hd _).mp (Nat.le_of_not_lt hle), hup⟩

/-- A fraction in units: at most 53 bits, and no less than 52 unless the unit is the smallest. -/
theorem unit_bounds (hn : n ≠ 0) (hd : 0 < d) :
    n * 2 ^ (-unitOf n d).toNat ≤ 2 ^ 53 * (d * 2 ^ (unitOf n d).toNat) ∧
      (-1074 < unitOf n d →
        2 ^ 52 * (d * 2 ^ (unitOf n d).toNat) ≤ n * 2 ^ (-unitOf n d).toNat) := by
  obtain ⟨hlow, hup⟩ := exponentOf_spec hn hd
  have hd' : (0 : ℚ) < d := by exact_mod_cast hd
  have hu : (0 : ℚ) < 2 ^ (unitOf n d).toNat := by positivity
  have hpow := two_zpow_toNat (unitOf n d)
  rw [div_eq_iff (ne_of_gt hu)] at hpow
  constructor
  · have hle : (n / d : ℚ) ≤ 2 ^ (unitOf n d + 53) := by
      refine le_of_lt (lt_of_lt_of_le hup (zpow_le_zpow_right₀ (by norm_num) ?_))
      unfold unitOf
      omega
    rw [div_le_iff₀ hd'] at hle
    have hq : (n : ℚ) * 2 ^ (-unitOf n d).toNat ≤ 2 ^ 53 * (d * 2 ^ (unitOf n d).toNat) := by
      rw [hpow]
      have hcancel : (2 : ℚ) ^ (unitOf n d + 53) * 2 ^ (-unitOf n d) = 2 ^ 53 := by
        rw [← zpow_add₀ two_ne_zero]
        norm_num
      have hpos : (0 : ℚ) < 2 ^ (-unitOf n d) * 2 ^ (unitOf n d).toNat := by positivity
      calc (n : ℚ) * (2 ^ (-unitOf n d) * 2 ^ (unitOf n d).toNat)
          ≤ 2 ^ (unitOf n d + 53) * d * (2 ^ (-unitOf n d) * 2 ^ (unitOf n d).toNat) :=
            mul_le_mul_of_nonneg_right hle (le_of_lt hpos)
        _ = (2 ^ (unitOf n d + 53) * 2 ^ (-unitOf n d)) * (d * 2 ^ (unitOf n d).toNat) := by ring
        _ = 2 ^ 53 * (d * 2 ^ (unitOf n d).toNat) := by rw [hcancel]
    exact_mod_cast hq
  · intro hnormal
    have hunit : unitOf n d = exponentOf n d - 52 := by
      unfold unitOf at hnormal ⊢
      omega
    rw [le_div_iff₀ hd', show exponentOf n d = unitOf n d + 52 by omega] at hlow
    have hq : 2 ^ 52 * (d * 2 ^ (unitOf n d).toNat) ≤ (n : ℚ) * 2 ^ (-unitOf n d).toNat := by
      rw [hpow]
      have hcancel : (2 : ℚ) ^ (unitOf n d + 52) * 2 ^ (-unitOf n d) = 2 ^ 52 := by
        rw [← zpow_add₀ two_ne_zero]
        norm_num
      have hpos : (0 : ℚ) < 2 ^ (-unitOf n d) * 2 ^ (unitOf n d).toNat := by positivity
      calc 2 ^ 52 * (d * 2 ^ (unitOf n d).toNat)
          = (2 ^ (unitOf n d + 52) * 2 ^ (-unitOf n d)) * ((d : ℚ) * 2 ^ (unitOf n d).toNat) := by
            rw [hcancel]
        _ = 2 ^ (unitOf n d + 52) * d * (2 ^ (-unitOf n d) * 2 ^ (unitOf n d).toNat) := by ring
        _ ≤ (n : ℚ) * (2 ^ (-unitOf n d) * 2 ^ (unitOf n d).toNat) :=
            mul_le_mul_of_nonneg_right hlow (le_of_lt hpos)
    exact_mod_cast hq

theorem exponentOf_mono (hn : n ≠ 0) (hd : 0 < d) (hn' : n' ≠ 0) (hd' : 0 < d')
    (h : n * d' ≤ n' * d) : exponentOf n d ≤ exponentOf n' d' := by
  have hlow := (exponentOf_spec hn hd).1
  have hup := (exponentOf_spec hn' hd').2
  have hq : (n / d : ℚ) ≤ n' / d' := by
    rw [div_le_div_iff₀ (by exact_mod_cast hd) (by exact_mod_cast hd')]
    exact_mod_cast h
  have hlt : (2 : ℚ) ^ exponentOf n d < 2 ^ (exponentOf n' d' + 1) :=
    lt_of_le_of_lt hlow (lt_of_le_of_lt hq hup)
  have := (zpow_lt_zpow_iff_right₀ (by norm_num : (1 : ℚ) < 2)).mp hlt
  omega

theorem bitsOf_mono (hn : n ≠ 0) (hd : 0 < d) (hn' : n' ≠ 0) (hd' : 0 < d')
    (h : n * d' ≤ n' * d) : bitsOf n d ≤ bitsOf n' d' := by
  have he := exponentOf_mono hn hd hn' hd' h
  have hu : unitOf n d ≤ unitOf n' d' := by
    unfold unitOf
    omega
  have hmin : -1074 ≤ unitOf n d := by
    unfold unitOf
    omega
  have hpos : 0 < d * 2 ^ (unitOf n d).toNat := Nat.mul_pos hd (Nat.two_pow_pos _)
  have hpos' : 0 < d' * 2 ^ (unitOf n' d').toNat := Nat.mul_pos hd' (Nat.two_pow_pos _)
  unfold bitsOf
  dsimp only
  rcases lt_or_eq_of_le hu with hlt | heq
  · -- the smaller fraction has at most 2^53 of its units, the larger one 2^52 of its own
    have hq := roundRatio_le hpos (unit_bounds hn hd).1
    have hq' := le_roundRatio hpos' ((unit_bounds hn' hd').2 (by omega))
    omega
  · rw [← heq] at hpos' ⊢
    refine Nat.add_le_add_left (roundRatio_mono hpos hpos' ?_) _
    calc n * 2 ^ (-unitOf n d).toNat * (d' * 2 ^ (unitOf n d).toNat)
        = n * d' * (2 ^ (-unitOf n d).toNat * 2 ^ (unitOf n d).toNat) := by ring
      _ ≤ n' * d * (2 ^ (-unitOf n d).toNat * 2 ^ (unitOf n d).toNat) :=
          Nat.mul_le_mul_right _ h
      _ = n' * 2 ^ (-unitOf n d).toNat * (d * 2 ^ (unitOf n d).toNat) := by ring

end Order

/-! ## The value of a datum -/

section Scaled

variable {x y : Float64}

theorem exponent_eq (x : Float64) : x.exponent = x.bits.toNat % 2 ^ 63 / 2 ^ 52 := by
  unfold exponent
  omega

theorem fraction_eq (x : Float64) : x.fraction = x.bits.toNat % 2 ^ 63 % 2 ^ 52 := by
  unfold fraction
  omega

/-- The bits without the sign give the magnitude, of infinity too. -/
theorem scaled_eq (h : x.isNan = false) :
    x.scaled = if x.sign then -(magnitudeOf (x.bits.toNat % 2 ^ 63) : Int)
      else magnitudeOf (x.bits.toNat % 2 ^ 63) := by
  have hmag : (if x.isFinite then x.magnitude else 2 ^ 2098) =
      magnitudeOf (x.bits.toNat % 2 ^ 63) := by
    unfold magnitudeOf
    rw [← exponent_eq, ← fraction_eq]
    cases hf : x.isFinite with
    | true => rfl
    | false =>
      have he : x.exponent = 2 ^ 11 - 1 := by simpa [isFinite] using hf
      have hz : x.fraction = 0 := by simpa [isNan, hf] using h
      have hexp : 2 ^ 11 - 1 - 1 = 2046 := by decide
      rw [he, hz, if_neg Bool.false_ne_true, if_neg (by decide), hexp, Nat.add_zero, ← Nat.pow_add]
  unfold scaled
  rw [hmag]

theorem toNat_neg (x : Float64) : x.neg.bits.toNat % 2 ^ 63 = x.bits.toNat % 2 ^ 63 ∧
    x.neg.bits.toNat / 2 ^ 63 = 1 - x.bits.toNat / 2 ^ 63 := by
  have hneg : x.neg.bits.toNat = x.bits.toNat ^^^ 2 ^ 63 := by
    simp [neg, BitVec.toNat_xor]
  have hlt := x.bits.isLt
  constructor
  · rw [hneg, Nat.xor_mod_two_pow]
    simp
  · rw [hneg, Nat.xor_div_two_pow]
    have hcases : x.bits.toNat / 2 ^ 63 = 0 ∨ x.bits.toNat / 2 ^ 63 = 1 := by omega
    rcases hcases with h | h <;> rw [h] <;> rfl

theorem sign_eq (x : Float64) : x.sign = decide (x.bits.toNat / 2 ^ 63 = 1) := by
  have hlt := x.bits.isLt
  unfold sign
  congr 1
  apply propext
  omega

@[simp] theorem sign_neg (x : Float64) : x.neg.sign = !x.sign := by
  have hlt := x.bits.isLt
  rw [sign_eq, sign_eq, (toNat_neg x).2]
  have hcases : x.bits.toNat / 2 ^ 63 = 0 ∨ x.bits.toNat / 2 ^ 63 = 1 := by omega
  rcases hcases with h | h <;> rw [h] <;> rfl

@[simp] theorem isFinite_neg (x : Float64) : x.neg.isFinite = x.isFinite := by
  unfold isFinite
  rw [exponent_eq, exponent_eq, (toNat_neg x).1]

@[simp] theorem isNan_neg (x : Float64) : x.neg.isNan = x.isNan := by
  unfold isNan
  rw [isFinite_neg, fraction_eq, fraction_eq, (toNat_neg x).1]

@[simp] theorem scaled_neg (x : Float64) : x.neg.scaled = -x.scaled := by
  have hmag : x.neg.magnitude = x.magnitude := by
    unfold magnitude
    rw [exponent_eq, exponent_eq, fraction_eq, fraction_eq, (toNat_neg x).1]
  unfold scaled
  rw [hmag, isFinite_neg, sign_neg]
  cases x.sign <;> simp only [Bool.not_true, Bool.not_false, Bool.false_eq_true, if_true, if_false,
    Int.neg_neg]

theorem isNan_of_isFinite (h : x.isFinite = true) : x.isNan = false := by simp [isNan, h]

theorem natAbs_signed (negative : Bool) (m : Nat) :
    (if negative then -(m : Int) else m).natAbs = m := by
  cases negative <;> simp

theorem natAbs_scaled_eq (x : Float64) :
    x.scaled.natAbs = if x.isFinite then x.magnitude else 2 ^ 2098 := by
  rw [scaled, natAbs_signed]

theorem natAbs_scaled (h : x.isFinite = true) : x.scaled.natAbs = x.magnitude := by
  rw [natAbs_scaled_eq, if_pos h]

theorem scaled_lt_of_isFinite (h : x.isFinite = true) : x.scaled.natAbs < 2 ^ 2098 := by
  have hf : x.fraction < 2 ^ 52 := Nat.mod_lt _ (Nat.two_pow_pos 52)
  have he : x.exponent ≤ 2046 := by
    have hlt : x.exponent < 2 ^ 11 := Nat.mod_lt _ (Nat.two_pow_pos 11)
    have hne : x.exponent ≠ 2 ^ 11 - 1 := by simpa [isFinite] using h
    omega
  rw [natAbs_scaled h, magnitude]
  split
  · exact hf.trans (pow_lt_pow_right₀ one_lt_two (by decide))
  · rw [show 2098 = 53 + 2045 from rfl, pow_add]
    exact Nat.mul_lt_mul_of_lt_of_le (by omega) (pow_le_pow_right₀ one_le_two (by omega))
      (pow_pos two_pos _)

/-- A datum whose magnitude is below that of infinity is finite. -/
theorem isFinite_of_scaled (h : x.scaled.natAbs < 2 ^ 2098) :
    x.isFinite = true := by
  cases hf : x.isFinite with
  | true => rfl
  | false =>
    rw [natAbs_scaled_eq, hf, if_neg Bool.false_ne_true] at h
    exact absurd h (Nat.lt_irrefl _)

end Scaled

/-! ## Rounding keeps the order -/

section Mono

variable {n d n' d' : Nat}

theorem toNat_ofRatio (hn : n ≠ 0) (d : Nat) :
    (ofRatio n d).bits.toNat = min (bitsOf n d) infinityBits := by
  have hlt : min (bitsOf n d) infinityBits < 2 ^ 64 :=
    Nat.lt_of_le_of_lt (Nat.min_le_right _ _) (by decide)
  rw [ofRatio_eq hn, BitVec.toNat_ofNat, Nat.mod_eq_of_lt hlt]

theorem toNat_ofRatio_le (n d : Nat) : (ofRatio n d).bits.toNat ≤ infinityBits := by
  by_cases hn : n = 0
  · simp [ofRatio, hn]
  · rw [toNat_ofRatio hn]
    exact Nat.min_le_right _ _

@[simp] theorem sign_ofRatio (n d : Nat) : (ofRatio n d).sign = false := by
  have hle := toNat_ofRatio_le n d
  have hlt : infinityBits < 2 ^ 63 := by decide
  simp only [sign, decide_eq_false_iff_not]
  omega

@[simp] theorem isNan_ofRatio (n d : Nat) : (ofRatio n d).isNan = false := by
  have hle := toNat_ofRatio_le n d
  unfold infinityBits at hle
  cases hf : (ofRatio n d).isFinite with
  | true => exact isNan_of_isFinite hf
  | false =>
    have he : (ofRatio n d).exponent = 2 ^ 11 - 1 := by simpa [isFinite] using hf
    have hz : (ofRatio n d).fraction = 0 := by
      unfold exponent at he
      unfold fraction
      omega
    simp [isNan, hf, hz]

theorem scaled_ofRatio (n d : Nat) :
    (ofRatio n d).scaled = magnitudeOf (ofRatio n d).bits.toNat := by
  have hle := toNat_ofRatio_le n d
  have hlt : infinityBits < 2 ^ 63 := by decide
  rw [scaled_eq (isNan_ofRatio n d), sign_ofRatio, Nat.mod_eq_of_lt (by omega)]
  rfl

theorem scaled_ofRatio_nonneg (n d : Nat) : 0 ≤ (ofRatio n d).scaled := by
  rw [scaled_ofRatio]
  exact Int.natCast_nonneg _

/-- Rounding keeps the order of fractions. -/
theorem ofRatio_mono (hd : 0 < d) (hd' : 0 < d') (h : n * d' ≤ n' * d) :
    (ofRatio n d).scaled ≤ (ofRatio n' d').scaled := by
  rw [scaled_ofRatio, scaled_ofRatio, Int.ofNat_le]
  refine magnitudeOf_mono ?_
  by_cases hn : n = 0
  · simp [ofRatio, hn]
  · have hn' : n' ≠ 0 := by
      rintro rfl
      have hpos : 0 < n * d' := Nat.mul_pos (Nat.pos_of_ne_zero hn) hd'
      omega
    rw [toNat_ofRatio hn, toNat_ofRatio hn']
    have hmono := bitsOf_mono hn hd hn' hd' h
    omega

/-- The value of the datum nearest to `n / d`, for any sign. -/
def rounded (n : Int) (d : Nat) : Int :=
  if n < 0 then -(ofRatio n.natAbs d).scaled else (ofRatio n.natAbs d).scaled

theorem rounded_mono {m m' : Int} (hd : 0 < d) (h : m ≤ m') : rounded m d ≤ rounded m' d := by
  have hmono : ∀ {a b : Nat}, a ≤ b → (ofRatio a d).scaled ≤ (ofRatio b d).scaled :=
    fun hab => ofRatio_mono hd hd (Nat.mul_le_mul_right d hab)
  have hm := scaled_ofRatio_nonneg m.natAbs d
  have hm' := scaled_ofRatio_nonneg m'.natAbs d
  unfold rounded
  split <;> split
  · have hle := hmono (a := m'.natAbs) (b := m.natAbs) (by omega)
    omega
  · omega
  · omega
  · exact hmono (by omega)

end Mono

/-! ## Operations -/

def signed (negative : Bool) (x : Float64) : Float64 := if negative then x.neg else x

def zero : Float64 := ⟨0#64⟩

def infinity : Float64 := ⟨0x7FF0000000000000#64⟩

def nan : Float64 := ⟨0x7FF8000000000000#64⟩

/-- `x * y` -/
def mul (x y : Float64) : Float64 :=
  if x.isNan || y.isNan then nan
  else if x.isFinite && y.isFinite then
    signed (x.sign != y.sign) (ofRatio (x.magnitude * y.magnitude) (2 ^ 2148))
  else if x.scaled = 0 || y.scaled = 0 then nan
  else signed (x.sign != y.sign) infinity

/-- `x / y` -/
def div (x y : Float64) : Float64 :=
  if x.isNan || y.isNan || (!x.isFinite && !y.isFinite) then nan
  else if !y.isFinite then signed (x.sign != y.sign) zero
  else if !x.isFinite then signed (x.sign != y.sign) infinity
  else if y.magnitude = 0 then if x.magnitude = 0 then nan else signed (x.sign != y.sign) infinity
  else signed (x.sign != y.sign) (ofRatio x.magnitude y.magnitude)

/-- `x + y`: an exact zero is positive unless both are negative. -/
def add (x y : Float64) : Float64 :=
  if x.isNan || y.isNan then nan
  else if !x.isFinite then if !y.isFinite && x.sign != y.sign then nan else x
  else if !y.isFinite then y
  else if x.scaled + y.scaled = 0 then signed (x.sign && y.sign) zero
  else signed (x.scaled + y.scaled < 0) (ofRatio (x.scaled + y.scaled).natAbs (2 ^ 1074))

/-- `x - y` -/
def sub (x y : Float64) : Float64 := add x y.neg

/-- `x < y` -/
def lt (x y : Float64) : Bool := !x.isNan && !y.isNan && x.scaled < y.scaled

/-- `f64::clamp` -/
def clamp (lo hi x : Float64) : Float64 :=
  let x := if x.lt lo then lo else x
  if hi.lt x then hi else x

/-- The integer nearest to a value in units of `2^-1074`, away from zero of two: `f64::round`. -/
def roundAway (s : Int) : Int :=
  if s < 0 then -((2 * s.natAbs + 2 ^ 1074) / 2 ^ 1075 : Nat)
  else ((2 * s.natAbs + 2 ^ 1074) / 2 ^ 1075 : Nat)

/-- `x.round() as T` for an integer type from `lo` to `hi`. -/
def roundAs (lo hi : Int) (x : Float64) : Int :=
  if x.isNan then 0 else max lo (min hi (roundAway x.scaled))

section Operations

variable {x y c : Float64}

@[simp] theorem isNan_signed (negative : Bool) (x : Float64) :
    (signed negative x).isNan = x.isNan := by
  cases negative <;> simp [signed]

theorem scaled_signed (negative : Bool) (x : Float64) :
    (signed negative x).scaled = if negative then -x.scaled else x.scaled := by
  cases negative <;> simp [signed]

theorem isNan_signed_ofRatio {negative : Bool} {n d : Nat} :
    (signed negative (ofRatio n d)).isNan = false := by
  rw [isNan_signed, isNan_ofRatio]

/-- A signed result has the value of the signed fraction. -/
theorem scaled_signed_ofRatio {negative : Bool} {m : Int} {d : Nat}
    (h : m ≠ 0 → negative = decide (m < 0)) :
    (signed negative (ofRatio m.natAbs d)).scaled = rounded m d := by
  rw [scaled_signed, rounded]
  by_cases hm : m = 0
  · subst hm
    have hz : (ofRatio (0 : Int).natAbs d).scaled = 0 := by
      rw [Int.natAbs_zero, ofRatio, if_pos rfl]
      rfl
    rw [hz]
    cases negative <;> rfl
  · rw [h hm]
    by_cases hneg : m < 0 <;> simp [hneg]

theorem sign_of_signed {negative : Bool} {m : Nat} (h : (if negative then -(m : Int) else m) ≠ 0) :
    negative = decide ((if negative then -(m : Int) else m) < 0) := by
  cases negative
  · simp
  · simp only [if_true] at h ⊢
    simp only [Bool.true_eq, decide_eq_true_eq]
    omega

theorem sign_scaled (h : x.scaled ≠ 0) : x.sign = decide (x.scaled < 0) := sign_of_signed h

theorem mul_spec (hx : x.isFinite = true) (hy : y.isFinite = true) :
    (mul x y).isNan = false ∧ (mul x y).scaled = rounded (x.scaled * y.scaled) (2 ^ 2148) := by
  have hmul : mul x y = signed (x.sign != y.sign)
      (ofRatio (x.scaled * y.scaled).natAbs (2 ^ 2148)) := by
    simp only [mul, isNan_of_isFinite hx, isNan_of_isFinite hy, hx, hy, Int.natAbs_mul,
      natAbs_scaled hx, natAbs_scaled hy, Bool.or_self, Bool.and_self, Bool.false_eq_true, if_false,
      if_true]
  rw [hmul]
  refine ⟨isNan_signed_ofRatio, scaled_signed_ofRatio fun hne => ?_⟩
  have hxz : x.scaled ≠ 0 := fun h => hne (by simp [h])
  have hyz : y.scaled ≠ 0 := fun h => hne (by simp [h])
  rw [sign_scaled hxz, sign_scaled hyz]
  rcases lt_or_gt_of_ne hxz with hx' | hx' <;> rcases lt_or_gt_of_ne hyz with hy' | hy'
  · have := mul_pos_of_neg_of_neg hx' hy'
    simp [hx', hy', not_lt.mpr (le_of_lt this)]
  · have := mul_neg_of_neg_of_pos hx' hy'
    simp [hx', not_lt.mpr (le_of_lt hy'), this]
  · have := mul_neg_of_pos_of_neg hx' hy'
    simp [hy', not_lt.mpr (le_of_lt hx'), this]
  · have := mul_pos hx' hy'
    simp [not_lt.mpr (le_of_lt hx'), not_lt.mpr (le_of_lt hy'), not_lt.mpr (le_of_lt this)]

/-- Division by a positive datum. -/
theorem div_spec (hx : x.isFinite = true) (hc : c.isFinite = true) (hpos : 0 < c.scaled) :
    (div x c).isNan = false ∧ (div x c).scaled = rounded x.scaled c.scaled.natAbs := by
  have hmag : c.magnitude ≠ 0 := by
    rw [← natAbs_scaled hc]
    omega
  have hsign : c.sign = false := by
    rw [sign_scaled (ne_of_gt hpos)]
    simp [not_lt.mpr (le_of_lt hpos)]
  have hdiv : div x c = signed x.sign (ofRatio x.scaled.natAbs c.scaled.natAbs) := by
    simp [div, isNan_of_isFinite hx, isNan_of_isFinite hc, hx, hc, hmag, hsign,
      natAbs_scaled hx, natAbs_scaled hc]
  rw [hdiv]
  exact ⟨isNan_signed_ofRatio, scaled_signed_ofRatio fun hne => sign_scaled hne⟩

theorem add_spec (hx : x.isFinite = true) (hy : y.isFinite = true) :
    (add x y).isNan = false ∧ (add x y).scaled = rounded (x.scaled + y.scaled) (2 ^ 1074) := by
  by_cases hz : x.scaled + y.scaled = 0
  · have hadd : add x y = signed (x.sign && y.sign) (ofRatio (x.scaled + y.scaled).natAbs (2 ^ 1074)) := by
      rw [hz]
      simp only [add, isNan_of_isFinite hx, isNan_of_isFinite hy, hx, hy, hz, ofRatio, zero,
        Bool.or_self, Bool.not_true, Bool.false_eq_true, if_false, if_true, Int.natAbs_zero]
      rfl
    rw [hadd]
    exact ⟨isNan_signed_ofRatio, scaled_signed_ofRatio fun hne => absurd hz hne⟩
  · have hadd : add x y = signed (x.scaled + y.scaled < 0)
        (ofRatio (x.scaled + y.scaled).natAbs (2 ^ 1074)) := by
      simp only [add, isNan_of_isFinite hx, isNan_of_isFinite hy, hx, hy, hz, Bool.or_self,
        Bool.not_true, Bool.false_eq_true, if_false]
    rw [hadd]
    exact ⟨isNan_signed_ofRatio, scaled_signed_ofRatio fun _ => rfl⟩

theorem roundAway_mono {s t : Int} (h : s ≤ t) : roundAway s ≤ roundAway t := by
  have hmono : ∀ {a b : Nat}, a ≤ b →
      (2 * a + 2 ^ 1074) / 2 ^ 1075 ≤ (2 * b + 2 ^ 1074) / 2 ^ 1075 :=
    fun hab => Nat.div_le_div_right (by omega)
  unfold roundAway
  split <;> split
  · have := hmono (a := t.natAbs) (b := s.natAbs) (by omega)
    omega
  · omega
  · omega
  · have := hmono (a := s.natAbs) (b := t.natAbs) (by omega)
    omega

theorem roundAs_mono {lo hi : Int} (hx : x.isNan = false) (hy : y.isNan = false)
    (h : x.scaled ≤ y.scaled) : roundAs lo hi x ≤ roundAs lo hi y := by
  have hmono := roundAway_mono h
  simp only [roundAs, hx, hy, Bool.false_eq_true, if_false]
  omega

end Operations

/-! ## Rising functions -/

/-- A finite datum of a range. -/
structure Between (lo hi x : Float64) : Prop where
  finite : x.isFinite = true
  lower : lo.scaled ≤ x.scaled
  upper : x.scaled ≤ hi.scaled

/-- On a range, `f` gives numbers and keeps the order. -/
structure Rises (f : Float64 → Float64) (lo hi : Float64) : Prop where
  number : ∀ x, Between lo hi x → (f x).isNan = false
  mono : ∀ x y, Between lo hi x → Between lo hi y → x.scaled ≤ y.scaled →
    (f x).scaled ≤ (f y).scaled

section Rising

variable {f g : Float64 → Float64} {lo hi x c : Float64}

theorem between_of_inRange (hf : x.isFinite = true) (h : inRange lo hi x = true) :
    Between lo hi x := by
  simp only [inRange, le, Bool.and_eq_true, decide_eq_true_eq] at h
  exact ⟨hf, h.1.2, h.2.2⟩

theorem inRange_of_between (hlo : lo.isNan = false) (hhi : hi.isNan = false) (h : Between lo hi x) :
    inRange lo hi x = true := by
  simp [inRange, le, hlo, hhi, isNan_of_isFinite h.finite, h.lower, h.upper]

/-- What lies between finite data is finite. -/
theorem isFinite_of_between (hlo : lo.isFinite = true) (hhi : hi.isFinite = true)
    (hl : lo.scaled ≤ x.scaled) (hu : x.scaled ≤ hi.scaled) : x.isFinite = true := by
  apply isFinite_of_scaled
  have hlo' := scaled_lt_of_isFinite hlo
  have hhi' := scaled_lt_of_isFinite hhi
  omega

/-- The values on a range lie between those at its ends. -/
theorem Rises.between (h : Rises f lo hi) (hlo : lo.isFinite = true) (hhi : hi.isFinite = true)
    (hfl : (f lo).isFinite = true) (hfh : (f hi).isFinite = true) (hx : Between lo hi x) :
    Between (f lo) (f hi) (f x) := by
  have hle : lo.scaled ≤ hi.scaled := hx.lower.trans hx.upper
  have hl := h.mono lo x ⟨hlo, le_rfl, hle⟩ hx hx.lower
  have hu := h.mono x hi hx ⟨hhi, hle, le_rfl⟩ hx.upper
  exact ⟨isFinite_of_between hfl hfh hl hu, hl, hu⟩

theorem Rises.comp (hg : Rises g (f lo) (f hi)) (hf : Rises f lo hi) (hlo : lo.isFinite = true)
    (hhi : hi.isFinite = true) (hfl : (f lo).isFinite = true) (hfh : (f hi).isFinite = true) :
    Rises (fun x => g (f x)) lo hi := by
  have hbetween : ∀ x, Between lo hi x → Between (f lo) (f hi) (f x) :=
    fun _ hx => hf.between hlo hhi hfl hfh hx
  exact ⟨fun x hx => hg.number _ (hbetween x hx), fun x y hx hy hle =>
    hg.mono _ _ (hbetween x hx) (hbetween y hy) (hf.mono x y hx hy hle)⟩

theorem rises_mul (hc : c.isFinite = true) (hpos : 0 ≤ c.scaled) : Rises (mul · c) lo hi := by
  refine ⟨fun x hx => (mul_spec hx.finite hc).1, fun x y hx hy hle => ?_⟩
  rw [(mul_spec hx.finite hc).2, (mul_spec hy.finite hc).2]
  exact rounded_mono (pow_pos two_pos 2148) (Int.mul_le_mul_of_nonneg_right hle hpos)

theorem rises_div (hc : c.isFinite = true) (hpos : 0 < c.scaled) : Rises (div · c) lo hi := by
  refine ⟨fun x hx => (div_spec hx.finite hc hpos).1, fun x y hx hy hle => ?_⟩
  rw [(div_spec hx.finite hc hpos).2, (div_spec hy.finite hc hpos).2]
  exact rounded_mono (by omega) hle

theorem rises_add (hc : c.isFinite = true) : Rises (add c ·) lo hi := by
  refine ⟨fun x hx => (add_spec hc hx.finite).1, fun x y hx hy hle => ?_⟩
  rw [(add_spec hc hx.finite).2, (add_spec hc hy.finite).2]
  exact rounded_mono (pow_pos two_pos 1074) (Int.add_le_add_left hle _)

/-- A number beyond an end of the range becomes that end. -/
theorem scaled_clamp (hlo : lo.isNan = false) (hhi : hi.isNan = false)
    (hle : lo.scaled ≤ hi.scaled) (hx : x.isNan = false) :
    (clamp lo hi x).scaled = max lo.scaled (min hi.scaled x.scaled) := by
  by_cases h₁ : x.scaled < lo.scaled
  · have h₂ : ¬ hi.scaled < lo.scaled := by omega
    simp only [clamp, lt, hlo, hhi, hx, h₁, h₂, Bool.not_false, Bool.and_self, decide_true,
      decide_false, if_true, if_false, Bool.and_false, Bool.false_eq_true]
    omega
  · by_cases h₂ : hi.scaled < x.scaled <;>
      simp only [clamp, lt, hlo, hhi, hx, h₁, h₂, Bool.not_false, Bool.and_self, decide_true,
        decide_false, if_true, if_false, Bool.and_false, Bool.false_eq_true] <;> omega

theorem clamp_eq_self (hx : Between lo hi x) : clamp lo hi x = x := by
  simp [clamp, lt, not_lt.mpr hx.lower, not_lt.mpr hx.upper]

/-- A clamped number is in the range. -/
theorem between_clamp (hlo : lo.isFinite = true) (hhi : hi.isFinite = true)
    (hle : lo.scaled ≤ hi.scaled) (hx : x.isNan = false) : Between lo hi (clamp lo hi x) := by
  have heq := scaled_clamp (isNan_of_isFinite hlo) (isNan_of_isFinite hhi) hle hx
  have hl : lo.scaled ≤ (clamp lo hi x).scaled := by omega
  have hu : (clamp lo hi x).scaled ≤ hi.scaled := by omega
  exact ⟨isFinite_of_between hlo hhi hl hu, hl, hu⟩

end Rising

end Float64
