/-
  How far a rounded binary64 result is from the exact one.

  `ofRatio_close`: within `2^-53` of the fraction, relative to it, as long as the fraction is in the
  range of the normal data. `ofRatio_exact`: not at all, for an integer below `2^53`. In a chain of
  operations on moderate numbers each rounding adds `2 / 2^53` to the relative error (`Close.mul`,
  `Close.div`, `Close.add`), and `roundAway_eq` ends it: a value less than one half from an integer is
  rounded to it.
-/
import Oikade.Lib.Rounding
import Mathlib.Algebra.Order.Field.Basic

namespace Float64

/-- The value of a datum. -/
def value (x : Float64) : ℚ := x.scaled / 2 ^ 1074

section Ratio

variable {n d k : Nat}

/-- A rounded fraction is within one half of the fraction. -/
theorem roundRatio_close (hd : 0 < d) :
    2 * n ≤ 2 * (roundRatio n d * d) + d ∧ 2 * (roundRatio n d * d) ≤ 2 * n + d := by
  have hn := Nat.div_add_mod n d
  have hr := Nat.mod_lt n hd
  unfold roundRatio
  dsimp only
  split
  · rw [Nat.add_mul, Nat.one_mul, Nat.mul_comm (n / d)]
    omega
  · rw [Nat.mul_comm (n / d)]
    omega

/-- A multiple of a unit that has 53 bits, or the smallest unit. -/
theorem magnitudeOf_add {u q : Nat} (hq : q ≤ 2 ^ 53) (h : 0 < u → 2 ^ 52 ≤ q) :
    magnitudeOf (u * 2 ^ 52 + q) = q * 2 ^ u := by
  unfold magnitudeOf
  by_cases hsmall : q < 2 ^ 52
  · have hu : u = 0 := by omega
    subst hu
    rw [if_pos (by omega)]
    omega
  · rw [if_neg (by omega)]
    by_cases hcarry : q = 2 ^ 53
    · -- the carry goes to the exponent
      have hdiv : (u * 2 ^ 52 + q) / 2 ^ 52 = u + 2 := by omega
      have hmod : (u * 2 ^ 52 + q) % 2 ^ 52 = 0 := by omega
      rw [hdiv, hmod, hcarry, Nat.add_zero, show u + 2 - 1 = u + 1 by omega, Nat.pow_succ]
      ring
    · have hdiv : (u * 2 ^ 52 + q) / 2 ^ 52 = u + 1 := by omega
      have hmod : 2 ^ 52 + (u * 2 ^ 52 + q) % 2 ^ 52 = q := by omega
      rw [hdiv, hmod, Nat.add_sub_cancel]

theorem unitOf_ge (n d : Nat) : -1074 ≤ unitOf n d := by
  unfold unitOf
  omega

/-- The number of units of a rounded fraction. -/
def unitsOf (n d : Nat) : Nat :=
  roundRatio (n * 2 ^ (-unitOf n d).toNat) (d * 2 ^ (unitOf n d).toNat)

/-- Without an overflow the datum has that many units. -/
theorem scaled_ofRatio_units (hn : n ≠ 0) (hd : 0 < d) (he : exponentOf n d ≤ 1023) :
    (ofRatio n d).scaled = (unitsOf n d * 2 ^ (unitOf n d + 1074).toNat : Nat) := by
  have hge := unitOf_ge n d
  have hpos : 0 < d * 2 ^ (unitOf n d).toNat := Nat.mul_pos hd (Nat.two_pow_pos _)
  have hq : unitsOf n d ≤ 2 ^ 53 := roundRatio_le hpos (unit_bounds hn hd).1
  have hq' : 0 < (unitOf n d + 1074).toNat → 2 ^ 52 ≤ unitsOf n d := fun hu =>
    le_roundRatio hpos ((unit_bounds hn hd).2 (by omega))
  have hbits : bitsOf n d = (unitOf n d + 1074).toNat * 2 ^ 52 + unitsOf n d := rfl
  have hle : bitsOf n d ≤ infinityBits := by
    have hu : (unitOf n d + 1074).toNat ≤ 2045 := by
      unfold unitOf
      omega
    rw [hbits]
    unfold infinityBits
    omega
  rw [scaled_ofRatio, toNat_ofRatio hn, Nat.min_eq_left hle, hbits, magnitudeOf_add hq hq']

theorem value_ofRatio (hn : n ≠ 0) (hd : 0 < d) (he : exponentOf n d ≤ 1023) :
    (ofRatio n d).value = unitsOf n d * 2 ^ unitOf n d := by
  have hge := unitOf_ge n d
  have hpow : (2 : ℚ) ^ (unitOf n d + 1074).toNat = 2 ^ unitOf n d * 2 ^ 1074 := by
    rw [← zpow_natCast, Int.toNat_of_nonneg (by omega), zpow_add₀ two_ne_zero]
    rfl
  rw [value, scaled_ofRatio_units hn hd he]
  push_cast
  rw [hpow, ← mul_assoc, mul_div_assoc, div_self (by positivity), mul_one]

/-- The exact number of units. -/
theorem units_eq (hd : 0 < d) : ((n * 2 ^ (-unitOf n d).toNat : Nat) : ℚ) /
    ((d * 2 ^ (unitOf n d).toNat : Nat) : ℚ) * 2 ^ unitOf n d = n / d := by
  have hd' : (d : ℚ) ≠ 0 := by exact_mod_cast Nat.ne_of_gt hd
  have hpow := two_zpow_toNat (unitOf n d)
  push_cast
  rw [mul_div_mul_comm, hpow, mul_assoc, ← zpow_add₀ two_ne_zero]
  simp

/-- In the range of the normal data, the error is at most `2^-53` of the fraction. -/
theorem ofRatio_close (hn : n ≠ 0) (hd : 0 < d) (hlow : (2 : ℚ) ^ (-1022 : Int) ≤ n / d)
    (hup : (n / d : ℚ) < 2 ^ (1024 : Int)) :
    |(ofRatio n d).value - n / d| ≤ n / d / 2 ^ 53 := by
  obtain ⟨hel, heu⟩ := exponentOf_spec hn hd
  have hone : (1 : ℚ) < 2 := by norm_num
  have he : exponentOf n d ≤ 1023 := by
    have := (zpow_lt_zpow_iff_right₀ hone).mp (lt_of_le_of_lt hel hup)
    omega
  have he' : -1022 ≤ exponentOf n d := by
    have := (zpow_lt_zpow_iff_right₀ hone).mp (lt_of_le_of_lt hlow heu)
    omega
  have hunit : unitOf n d = exponentOf n d - 52 := by
    unfold unitOf
    omega
  have hpos : 0 < d * 2 ^ (unitOf n d).toNat := Nat.mul_pos hd (Nat.two_pow_pos _)
  obtain ⟨hc, hc'⟩ := roundRatio_close (n := n * 2 ^ (-unitOf n d).toNat) hpos
  -- the error in units
  have hround : |(unitsOf n d : ℚ) - ((n * 2 ^ (-unitOf n d).toNat : Nat) : ℚ) /
      ((d * 2 ^ (unitOf n d).toNat : Nat) : ℚ)| ≤ 1 / 2 := by
    have hD : (0 : ℚ) < ((d * 2 ^ (unitOf n d).toNat : Nat) : ℚ) := by exact_mod_cast hpos
    have h₁ : (2 : ℚ) * ((n * 2 ^ (-unitOf n d).toNat : Nat) : ℚ) ≤
        2 * (unitsOf n d * ((d * 2 ^ (unitOf n d).toNat : Nat) : ℚ)) +
          ((d * 2 ^ (unitOf n d).toNat : Nat) : ℚ) := by
      exact_mod_cast hc
    have h₂ : 2 * (unitsOf n d * ((d * 2 ^ (unitOf n d).toNat : Nat) : ℚ)) ≤
        2 * ((n * 2 ^ (-unitOf n d).toNat : Nat) : ℚ) +
          ((d * 2 ^ (unitOf n d).toNat : Nat) : ℚ) := by
      exact_mod_cast hc'
    rw [abs_le]
    constructor
    · rw [neg_le_sub_iff_le_add, div_le_iff₀ hD]
      linarith
    · rw [sub_le_iff_le_add, ← sub_le_iff_le_add', le_div_iff₀ hD]
      linarith
  have hu : (0 : ℚ) < 2 ^ unitOf n d := by positivity
  calc |(ofRatio n d).value - n / d|
      = |(unitsOf n d - ((n * 2 ^ (-unitOf n d).toNat : Nat) : ℚ) /
          ((d * 2 ^ (unitOf n d).toNat : Nat) : ℚ)) * 2 ^ unitOf n d| := by
        rw [value_ofRatio hn hd he, sub_mul, units_eq hd]
    _ ≤ 1 / 2 * 2 ^ unitOf n d := by
        rw [abs_mul, abs_of_pos hu]
        exact mul_le_mul_of_nonneg_right hround (le_of_lt hu)
    _ = 2 ^ exponentOf n d / 2 ^ 53 := by
        rw [hunit, zpow_sub₀ two_ne_zero]
        norm_num
        ring
    _ ≤ n / d / 2 ^ 53 := by gcongr

/-- An integer below `2^53` is exact. -/
theorem ofRatio_exact (hd : 0 < d) (hk : k < 2 ^ 53) : (ofRatio (k * d) d).scaled = k * 2 ^ 1074 := by
  by_cases hz : k = 0
  · subst hz
    rw [Nat.zero_mul, ofRatio, if_pos rfl]
    simp only [Nat.cast_zero, Int.zero_mul]
    rfl
  have hn : k * d ≠ 0 := Nat.mul_ne_zero hz (Nat.ne_of_gt hd)
  have hd' : (d : ℚ) ≠ 0 := by exact_mod_cast Nat.ne_of_gt hd
  have he : exponentOf (k * d) d ≤ 52 := by
    have hel := (exponentOf_spec hn hd).1
    have hlt : (2 : ℚ) ^ exponentOf (k * d) d < 2 ^ (53 : Int) := by
      refine lt_of_le_of_lt hel ?_
      rw [Nat.cast_mul, mul_div_assoc, div_self hd', mul_one]
      exact_mod_cast hk
    have := (zpow_lt_zpow_iff_right₀ (by norm_num : (1 : ℚ) < 2)).mp hlt
    omega
  have hu : unitOf (k * d) d ≤ 0 := by
    unfold unitOf
    omega
  have hge := unitOf_ge (k * d) d
  have hunits : unitsOf (k * d) d = k * 2 ^ (-unitOf (k * d) d).toNat := by
    rw [unitsOf, Int.toNat_of_nonpos hu, Nat.pow_zero, Nat.mul_one,
      show k * d * 2 ^ (-unitOf (k * d) d).toNat = k * 2 ^ (-unitOf (k * d) d).toNat * d by ring,
      roundRatio_mul hd]
  have hsum : (-unitOf (k * d) d).toNat + (unitOf (k * d) d + 1074).toNat = 1074 := by omega
  rw [scaled_ofRatio_units hn hd (by omega), hunits, Nat.mul_assoc, ← pow_add, hsum,
    Nat.cast_mul, Nat.cast_pow, Nat.cast_ofNat]

end Ratio

/-! ## Operations -/

section Operations

variable {x y c : Float64}

/-- The value is within `2^-53` of a number, relative to it. -/
def Near (x : Float64) (r : ℚ) : Prop := |x.value - r| ≤ r / 2 ^ 53

theorem value_nonneg : 0 ≤ x.value ↔ 0 ≤ x.scaled := by
  rw [value, le_div_iff₀ (by positivity), zero_mul]
  exact Int.cast_nonneg_iff

/-- The exact result is zero or a positive normal number. -/
def Normal (r : ℚ) : Prop := r = 0 ∨ (2 : ℚ) ^ (-1022 : Int) ≤ r ∧ r < 2 ^ (1024 : Int)

theorem rounded_near {m : Int} {d : Nat} (hm : 0 ≤ m) (hd : 0 < d) (h : Normal (m / d)) :
    |(rounded m d / 2 ^ 1074 : ℚ) - m / d| ≤ m / d / 2 ^ 53 := by
  obtain ⟨n, rfl⟩ := Int.eq_ofNat_of_zero_le hm
  have hd' : (d : ℚ) ≠ 0 := by exact_mod_cast Nat.ne_of_gt hd
  have hrounded : rounded n d = (ofRatio n d).scaled := by
    rw [rounded, if_neg (by omega)]
    rfl
  rw [hrounded]
  by_cases hn : n = 0
  · subst hn
    have hz : (ofRatio 0 d).scaled = 0 := by
      rw [ofRatio, if_pos rfl]
      rfl
    simp [hz]
  · rcases h with h | ⟨hl, hu⟩
    · rw [div_eq_zero_iff] at h
      have : (n : ℚ) ≠ 0 := by exact_mod_cast hn
      simp_all
    · exact ofRatio_close hn hd (by simpa using hl) (by simpa using hu)

theorem mul_near (hx : x.isFinite = true) (hy : y.isFinite = true) (hpos : 0 ≤ x.scaled)
    (hpos' : 0 ≤ y.scaled) (h : Normal (x.value * y.value)) : (mul x y).Near (x.value * y.value) := by
  have hexact : ((x.scaled * y.scaled : Int) : ℚ) / (2 ^ 2148 : Nat) = x.value * y.value := by
    rw [value, value, Int.cast_mul, Nat.cast_pow, Nat.cast_ofNat, div_mul_div_comm, ← pow_add]
  rw [Near, value, (mul_spec hx hy).2, ← hexact]
  exact rounded_near (Int.mul_nonneg hpos hpos') (pow_pos two_pos 2148) (hexact ▸ h)

theorem div_near (hx : x.isFinite = true) (hc : c.isFinite = true) (hpos : 0 ≤ x.scaled)
    (hpos' : 0 < c.scaled) (h : Normal (x.value / c.value)) : (div x c).Near (x.value / c.value) := by
  have hexact : (x.scaled : ℚ) / (c.scaled.natAbs : Nat) = x.value / c.value := by
    unfold value
    rw [div_div_div_cancel_right₀ (by positivity)]
    rw [Nat.cast_natAbs, abs_of_pos hpos']
  rw [Near, value, (div_spec hx hc hpos').2, ← hexact]
  exact rounded_near hpos (by omega) (hexact ▸ h)

theorem add_near (hx : x.isFinite = true) (hy : y.isFinite = true) (hpos : 0 ≤ x.scaled + y.scaled)
    (h : Normal (x.value + y.value)) : (add x y).Near (x.value + y.value) := by
  have hexact : ((x.scaled + y.scaled : Int) : ℚ) / (2 ^ 1074 : Nat) = x.value + y.value := by
    rw [value, value, Int.cast_add, Nat.cast_pow, Nat.cast_ofNat, add_div]
  rw [Near, value, (add_spec hx hy).2, ← hexact]
  exact rounded_near hpos (pow_pos two_pos 1074) (hexact ▸ h)

theorem isFinite_of_units {k : Nat} (hk : k ≤ 2 ^ 53) (h : x.scaled.natAbs ≤ k * 2 ^ 1074) :
    x.isFinite = true := by
  refine isFinite_of_scaled (lt_of_le_of_lt (h.trans (Nat.mul_le_mul_right _ hk)) ?_)
  rw [← pow_add]
  exact pow_lt_pow_right₀ one_lt_two (by decide)

theorem isFinite_of_value {k : Nat} (hk : k ≤ 2 ^ 53) (h : |x.value| ≤ k) : x.isFinite = true := by
  refine isFinite_of_units hk ?_
  rw [value, abs_div, abs_of_pos (by positivity : (0 : ℚ) < 2 ^ 1074), div_le_iff₀ (by positivity)] at h
  have hcast : (x.scaled.natAbs : ℚ) ≤ ((k * 2 ^ 1074 : Nat) : ℚ) := by
    rw [Nat.cast_natAbs, Int.cast_abs, Nat.cast_mul, Nat.cast_pow, Nat.cast_ofNat]
    exact h
  exact_mod_cast hcast

/-- A value that is less than one half from a natural number is rounded to it. -/
theorem roundAway_eq {k : Nat} (h : |x.value - k| < 1 / 2) : roundAway x.scaled = k := by
  have hpow : 2 ^ 1075 = 2 ^ 1074 * 2 := by rw [← pow_succ]
  have hpos : 0 < 2 ^ 1074 := pow_pos two_pos 1074
  unfold roundAway value at *
  rw [hpow]
  have hcast : (2 ^ 1074 : ℚ) = ((2 ^ 1074 : Nat) : ℚ) := by rw [Nat.cast_pow, Nat.cast_ofNat]
  rw [hcast] at h
  generalize 2 ^ 1074 = p at *
  have hp : (0 : ℚ) < p := by exact_mod_cast hpos
  rw [abs_lt, lt_sub_iff_add_lt, sub_lt_iff_lt_add, lt_div_iff₀ hp, div_lt_iff₀ hp] at h
  have hlow : ((2 * k - 1) * p : Int) < 2 * x.scaled := by
    have : (((2 * k - 1) * p : Int) : ℚ) < ((2 * x.scaled : Int) : ℚ) := by
      push_cast
      linarith [h.1]
    exact_mod_cast this
  have hup : (2 * x.scaled : Int) < (2 * k + 1) * p := by
    have : ((2 * x.scaled : Int) : ℚ) < (((2 * k + 1) * p : Int) : ℚ) := by
      push_cast
      linarith [h.2]
    exact_mod_cast this
  have hp' : (0 : Int) < p := by exact_mod_cast hpos
  split
  · -- a negative value is rounded to zero
    rename_i hneg
    have hk : k = 0 := by
      by_contra hk
      have : (0 : Int) ≤ (2 * k - 1) * p := Int.mul_nonneg (by omega) (by omega)
      omega
    subst hk
    have hlt : 2 * x.scaled.natAbs + p < p * 2 := by
      simp only [Nat.cast_zero] at hlow
      omega
    rw [Nat.div_eq_of_lt hlt]
    rfl
  · rename_i hnn
    have habs : (x.scaled.natAbs : Int) = x.scaled := Int.natAbs_of_nonneg (by omega)
    have hdiv : (2 * x.scaled.natAbs + p) / (p * 2) = k := by
      apply Nat.div_eq_of_lt_le
      · have : (k * (p * 2) : Int) ≤ 2 * x.scaled.natAbs + p := by
          rw [habs]
          nlinarith
        exact_mod_cast this
      · have : (2 * x.scaled.natAbs + p : Int) < (k + 1) * (p * 2) := by
          rw [habs]
          nlinarith
        exact_mod_cast this
    rw [hdiv]

end Operations

/-! ## Integers -/

/-- A finite datum that is a natural number. -/
structure IsNat (x : Float64) (k : Nat) : Prop where
  finite : x.isFinite = true
  scaled : x.scaled = k * 2 ^ 1074

section Integers

variable {x y : Float64} {j k : Nat}

theorem isNat_of_scaled (hk : k < 2 ^ 53) (h : x.scaled = k * 2 ^ 1074) : IsNat x k := by
  refine ⟨isFinite_of_units (le_of_lt hk) ?_, h⟩
  have heq : (k * 2 ^ 1074 : Int) = ((k * 2 ^ 1074 : Nat) : Int) := by
    rw [Nat.cast_mul, Nat.cast_pow, Nat.cast_ofNat]
  rw [h, heq, Int.natAbs_natCast]

theorem IsNat.value (h : IsNat x k) : x.value = k := by
  rw [Float64.value, h.scaled, Int.cast_mul, Int.cast_pow, Int.cast_natCast, Int.cast_ofNat,
    mul_div_assoc, div_self (by positivity), mul_one]

theorem IsNat.scaled_le (hx : IsNat x j) (hy : IsNat y k) (hle : j ≤ k) : x.scaled ≤ y.scaled := by
  rw [hx.scaled, hy.scaled]
  exact Int.mul_le_mul_of_nonneg_right (Int.ofNat_le.mpr hle) (by positivity)

theorem IsNat.scaled_pos (hx : IsNat x k) (hk : 0 < k) : 0 < x.scaled := by
  rw [hx.scaled]
  exact Int.mul_pos (Int.natCast_pos.mpr hk) (by positivity)

theorem isNat_ofNat (hk : k < 2 ^ 53) : IsNat (ofNat k) k :=
  isNat_of_scaled hk (by rw [ofNat, ← Nat.mul_one k, ofRatio_exact Nat.one_pos hk, Nat.mul_one])

theorem rounded_exact {d : Nat} (hd : 0 < d) (hk : k < 2 ^ 53) :
    rounded ((k * d : Nat) : Int) d = k * 2 ^ 1074 := by
  rw [rounded, if_neg (by omega), Int.natAbs_natCast, ofRatio_exact hd hk]

theorem IsNat.sub (hx : IsNat x k) (hy : IsNat y j) (hle : j ≤ k) (hk : k < 2 ^ 53) :
    IsNat (sub x y) (k - j) := by
  refine isNat_of_scaled (by omega) ?_
  have hexact : k * 2 ^ 1074 + -(j * 2 ^ 1074) = (((k - j) * 2 ^ 1074 : Nat) : Int) := by
    rw [Nat.cast_mul, Nat.cast_sub hle, Nat.cast_pow, Nat.cast_ofNat, Int.sub_mul, Int.sub_eq_add_neg]
  rw [Float64.sub, (add_spec hx.finite (by rw [isFinite_neg, hy.finite])).2, scaled_neg, hx.scaled,
    hy.scaled, hexact, rounded_exact (pow_pos two_pos 1074) (by omega)]

theorem IsNat.mul (hx : IsNat x k) (hy : IsNat y j) (h : k * j < 2 ^ 53) :
    IsNat (mul x y) (k * j) := by
  refine isNat_of_scaled h ?_
  have hexact : (k * 2 ^ 1074 * (j * 2 ^ 1074) : Int) = ((k * j * 2 ^ 2148 : Nat) : Int) := by
    rw [Nat.cast_mul, Nat.cast_mul, Nat.cast_pow, Nat.cast_ofNat, mul_mul_mul_comm, ← pow_add]
  rw [(mul_spec hx.finite hy.finite).2, hx.scaled, hy.scaled, hexact,
    rounded_exact (pow_pos two_pos 2148) h]

end Integers

/-! ## Chains of operations -/

/-- A number far from both ends of the normal range. -/
def Moderate (t : ℚ) : Prop := t = 0 ∨ 1 / 8 ≤ t ∧ t ≤ 2 ^ 19

theorem Moderate.nonneg {t : ℚ} (h : Moderate t) : 0 ≤ t := by
  rcases h with h | ⟨h, -⟩ <;> linarith

theorem Normal.of_moderate {r t δ : ℚ} (ht : Moderate t) (hδ : δ ≤ 1 / 2) (hr : |r - t| ≤ t * δ) :
    Normal r := by
  obtain ⟨hl, hu⟩ := abs_le.mp hr
  rcases ht with rfl | ⟨htl, htu⟩
  · left
    linarith
  · right
    have hle : t * δ ≤ t / 2 := by nlinarith
    constructor
    · have hpow : (2 : ℚ) ^ (-1022 : Int) ≤ 2 ^ (-4 : Int) :=
        zpow_le_zpow_right₀ (by norm_num) (by norm_num)
      refine hpow.trans ?_
      norm_num
      linarith
    · have hpow : (2 : ℚ) ^ (20 : Int) < 2 ^ (1024 : Int) :=
        zpow_lt_zpow_right₀ (by norm_num) (by norm_num)
      refine lt_of_le_of_lt ?_ hpow
      norm_num at htu ⊢
      linarith

/-- A finite non-negative datum within `δ` of a number, relative to it. -/
structure Close (x : Float64) (t δ : ℚ) : Prop where
  finite : x.isFinite = true
  nonneg : 0 ≤ x.scaled
  error : |x.value - t| ≤ t * δ

section Chains

variable {x y z : Float64} {r t δ : ℚ} {n : Nat}

theorem IsNat.close (h : IsNat x n) : Close x n 0 :=
  ⟨h.finite, by rw [h.scaled]; positivity, by simp [h.value]⟩

/-- One more rounding. -/
theorem Near.close (hz : z.Near r) (ht : Moderate t) (hδ : δ ≤ 1 / 2) (hr : |r - t| ≤ t * δ) :
    Close z t (δ + 2 / 2 ^ 53) := by
  have htn := ht.nonneg
  obtain ⟨hl, hu⟩ := abs_le.mp hr
  obtain ⟨hl', hu'⟩ := abs_le.mp hz
  have hr2 : r ≤ 2 * t := by nlinarith
  have hrn : 0 ≤ r := by nlinarith
  have hle : t ≤ 2 ^ 19 := by
    rcases ht with rfl | ⟨-, h⟩
    · norm_num
    · exact h
  have hzn : 0 ≤ z.value := by
    norm_num at hl' ⊢
    linarith
  refine ⟨isFinite_of_value (k := 2 ^ 21) (by decide) ?_, value_nonneg.mp hzn, ?_⟩
  · rw [abs_of_nonneg hzn]
    norm_num at hu' hle ⊢
    linarith
  · rw [abs_le, mul_add]
    norm_num at hl' hu' ⊢
    constructor <;> linarith

theorem Close.mul (hx : Close x t δ) (hy : IsNat y n) (ht : Moderate (t * n)) (hδ : δ ≤ 1 / 2) :
    Close (mul x y) (t * n) (δ + 2 / 2 ^ 53) := by
  have hn : (0 : ℚ) ≤ n := Nat.cast_nonneg n
  have hr : |x.value * y.value - t * n| ≤ t * n * δ := by
    rw [hy.value, ← sub_mul, abs_mul, abs_of_nonneg hn, mul_right_comm]
    exact mul_le_mul_of_nonneg_right hx.error hn
  exact (mul_near hx.finite hy.finite hx.nonneg hy.close.nonneg (.of_moderate ht hδ hr)).close ht hδ hr

theorem Close.div (hx : Close x t δ) (hy : IsNat y n) (hn : 0 < n) (ht : Moderate (t / n))
    (hδ : δ ≤ 1 / 2) : Close (div x y) (t / n) (δ + 2 / 2 ^ 53) := by
  have hn' : (0 : ℚ) < n := by exact_mod_cast hn
  have hpos : 0 < y.scaled := by
    rw [hy.scaled]
    positivity
  have hr : |x.value / y.value - t / n| ≤ t / n * δ := by
    rw [hy.value, ← sub_div, abs_div, abs_of_pos hn', div_mul_eq_mul_div]
    exact div_le_div_of_nonneg_right hx.error (le_of_lt hn')
  exact (div_near hx.finite hy.finite hx.nonneg hpos (.of_moderate ht hδ hr)).close ht hδ hr

theorem Close.add (hx : IsNat x n) (hy : Close y t δ) (ht : Moderate (n + t)) (hδ : δ ≤ 1 / 2)
    (hδ' : 0 ≤ δ) : Close (add x y) (n + t) (δ + 2 / 2 ^ 53) := by
  have hn : (0 : ℚ) ≤ n := Nat.cast_nonneg n
  have hr : |x.value + y.value - (n + t)| ≤ (n + t) * δ := by
    rw [hx.value, add_sub_add_left_eq_sub]
    refine hy.error.trans ?_
    nlinarith
  exact (add_near hx.finite hy.finite (Int.add_nonneg hx.close.nonneg hy.nonneg)
    (.of_moderate ht hδ hr)).close ht hδ hr

end Chains

end Float64
