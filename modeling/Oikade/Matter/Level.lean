/-
  The numbers that the bridge shows: percentages as levels of one byte, degrees and percentages as
  hundredths.

  The conversions are the floating-point expressions of the source, one rounding for each operator.
  `matterLevel_mono` and `hundredths_mono`: rounding never turns the order of two values around, so
  the bounds of a converted range are the values at its ends. `matterLevel_canonicalLevel`: a level
  that is sent as a percentage comes back as the same level, for every byte.
-/
import Oikade.Lib.Accuracy
import Mathlib.Tactic.NormNum
import Oikade.Matter.Projection

namespace Oikade.Matter

open Float64 (Between Rises IsNat Near)

/-! ## Conversions -/

def one : Float64 := ⟨0x3FF0000000000000#64⟩
def hundred : Float64 := ⟨0x4059000000000000#64⟩
/-- 253.0 -/
def levelSpan : Float64 := ⟨0x406FA00000000000#64⟩

/-- The levels of `min_level` and `max_level`. -/
def minLevel : Nat := 1
def maxLevel : Nat := 254

/-- `1.0 + percent.clamp(0.0, 100.0) * 253.0 / 100.0`, rounded to a byte. -/
def matterLevel (percent : Float64) : Nat :=
  (Float64.roundAs 0 255
    (Float64.add one (Float64.div (Float64.mul (Float64.clamp percentMinimum percentMaximum percent)
      levelSpan) hundred))).toNat

/-- `(f64::from(level.clamp(1, 254)) - 1.0) * 100.0 / 253.0` -/
def canonicalLevel (level : Nat) : Float64 :=
  Float64.div (Float64.mul (Float64.sub (.ofNat (max minLevel (min maxLevel level))) one) hundred)
    levelSpan

/-- `(value * 100.0).round()` as an integer type from `lo` to `hi`. -/
def hundredths (lo hi : Int) (value : Float64) : Int := Float64.roundAs lo hi (Float64.mul value hundred)

/-- The `$convert` of `TemperatureHandler`, to `i16`. -/
def measuredTemperature (value : Float64) : Int := hundredths (-32768) 32767 value

/-- The `$convert` of `HumidityHandler`, to `u16`. -/
def measuredHumidity (value : Float64) : Int := hundredths 0 65535 value

/-- A percentage on its way to a level. -/
def levelValue (percent : Float64) : Float64 :=
  Float64.add one (Float64.div (Float64.mul percent levelSpan) hundred)

/-! ## What is computed -/

/-- The constants are the integers that the source writes. -/
theorem isNat_constants : IsNat one 1 ∧ IsNat hundred 100 ∧ IsNat levelSpan 253 ∧
    IsNat percentMinimum 0 ∧ IsNat percentMaximum 100 := by
  have h : one.scaled = 1 * 2 ^ 1074 ∧ hundred.scaled = 100 * 2 ^ 1074 ∧
      levelSpan.scaled = 253 * 2 ^ 1074 ∧ percentMinimum.scaled = 0 * 2 ^ 1074 ∧
      percentMaximum.scaled = 100 * 2 ^ 1074 := by decide +kernel
  exact ⟨⟨by decide, h.1⟩, ⟨by decide, h.2.1⟩, ⟨by decide, h.2.2.1⟩, ⟨by decide, h.2.2.2.1⟩,
    ⟨by decide, h.2.2.2.2⟩⟩

theorem isNat_one : IsNat one 1 := isNat_constants.1

theorem isNat_hundred : IsNat hundred 100 := isNat_constants.2.1

theorem isNat_levelSpan : IsNat levelSpan 253 := isNat_constants.2.2.1

theorem percent_le : percentMinimum.scaled ≤ percentMaximum.scaled :=
  isNat_constants.2.2.2.1.scaled_le isNat_constants.2.2.2.2 (by decide)

/-- The conversions at the ends of their ranges. -/
theorem atEnds :
    ((Float64.mul percentMinimum levelSpan).isFinite = true ∧
      (Float64.mul percentMaximum levelSpan).isFinite = true) ∧
    ((Float64.div (Float64.mul percentMinimum levelSpan) hundred).isFinite = true ∧
      (Float64.div (Float64.mul percentMaximum levelSpan) hundred).isFinite = true) ∧
    (Float64.roundAs 0 255 (levelValue percentMinimum) = 1 ∧
      Float64.roundAs 0 255 (levelValue percentMaximum) = 254) ∧
    (Float64.div (.ofNat 0) levelSpan = percentMinimum ∧
      Float64.div (.ofNat 25300) levelSpan = percentMaximum) ∧
    (measuredTemperature temperatureMinimum = -27315 ∧
      measuredTemperature temperatureMaximum = 32766) ∧
    measuredHumidity percentMinimum = 0 ∧ measuredHumidity percentMaximum = 10000 := by
  decide +kernel

/-! ## Order -/

section Order

variable {x y lo hi : Float64}

theorem levelValue_rises : Rises levelValue percentMinimum percentMaximum := by
  obtain ⟨⟨hmin, hmax⟩, ⟨hmin', hmax'⟩, -⟩ := atEnds
  have hmul : Rises (Float64.mul · levelSpan) percentMinimum percentMaximum :=
    Float64.rises_mul isNat_levelSpan.finite (isNat_levelSpan.scaled_pos (by decide)).le
  have hdiv : Rises (fun x => Float64.div (Float64.mul x levelSpan) hundred)
      percentMinimum percentMaximum :=
    (Float64.rises_div isNat_hundred.finite (isNat_hundred.scaled_pos (by decide))).comp hmul
      (by decide) (by decide) hmin hmax
  exact (Float64.rises_add isNat_one.finite).comp hdiv (by decide) (by decide) hmin' hmax'

theorem between_percent (hx : x.isNan = false) :
    Between percentMinimum percentMaximum (Float64.clamp percentMinimum percentMaximum x) :=
  Float64.between_clamp (by decide) (by decide) percent_le hx

/-- A greater percentage has no smaller level. -/
theorem matterLevel_mono (hx : x.isNan = false) (hy : y.isNan = false) (h : x.scaled ≤ y.scaled) :
    matterLevel x ≤ matterLevel y := by
  have hclamp : ∀ {z : Float64}, z.isNan = false →
      (Float64.clamp percentMinimum percentMaximum z).scaled =
        max percentMinimum.scaled (min percentMaximum.scaled z.scaled) := fun hz =>
    Float64.scaled_clamp (by decide) (by decide) percent_le hz
  have hle : (Float64.clamp percentMinimum percentMaximum x).scaled ≤
      (Float64.clamp percentMinimum percentMaximum y).scaled := by
    rw [hclamp hx, hclamp hy]
    omega
  have hx' := between_percent hx
  have hy' := between_percent hy
  exact Int.toNat_le_toNat (Float64.roundAs_mono (levelValue_rises.number _ hx')
    (levelValue_rises.number _ hy') (levelValue_rises.mono _ _ hx' hy' hle))

/-- From 0 through 100 percent, and beyond. -/
theorem matterLevel_bounds (hx : x.isNan = false) :
    minLevel ≤ matterLevel x ∧ matterLevel x ≤ maxLevel := by
  have hb := between_percent hx
  have hmin : Between percentMinimum percentMaximum percentMinimum :=
    ⟨by decide, le_rfl, percent_le⟩
  have hmax : Between percentMinimum percentMaximum percentMaximum :=
    ⟨by decide, percent_le, le_rfl⟩
  have hlow := @Float64.roundAs_mono _ _ 0 255 (levelValue_rises.number _ hmin)
    (levelValue_rises.number _ hb) (levelValue_rises.mono _ _ hmin hb hb.lower)
  have hup := @Float64.roundAs_mono _ _ 0 255 (levelValue_rises.number _ hb)
    (levelValue_rises.number _ hmax) (levelValue_rises.mono _ _ hb hmax hb.upper)
  obtain ⟨-, -, ⟨hone, htop⟩, -⟩ := atEnds
  rw [hone] at hlow
  rw [htop] at hup
  have heq : matterLevel x = (Float64.roundAs 0 255
      (levelValue (Float64.clamp percentMinimum percentMaximum x))).toNat := rfl
  unfold minLevel maxLevel
  omega

theorem hundredths_mono {lo' hi' : Int} (hx : Between lo hi x) (hy : Between lo hi y)
    (h : x.scaled ≤ y.scaled) : hundredths lo' hi' x ≤ hundredths lo' hi' y := by
  have hmul : Rises (Float64.mul · hundred) lo hi :=
    Float64.rises_mul isNat_hundred.finite (isNat_hundred.scaled_pos (by decide)).le
  exact Float64.roundAs_mono (hmul.number x hx) (hmul.number y hy) (hmul.mono x y hx hy h)

/-- From -273.15 through 327.66 degrees. -/
theorem measuredTemperature_bounds (h : inTemperature x = true) :
    -27315 ≤ measuredTemperature x ∧ measuredTemperature x ≤ 32766 := by
  obtain ⟨hf, hr⟩ := Bool.and_eq_true_iff.mp h
  have hx := Float64.between_of_inRange hf hr
  have hle := hx.lower.trans hx.upper
  obtain ⟨-, -, -, -, ⟨hmin, hmax⟩, -⟩ := atEnds
  rw [← hmin, ← hmax]
  exact ⟨hundredths_mono ⟨by decide, le_rfl, hle⟩ hx hx.lower,
    hundredths_mono hx ⟨by decide, hle, le_rfl⟩ hx.upper⟩

theorem measuredHumidity_bounds (h : inPercent x = true) :
    0 ≤ measuredHumidity x ∧ measuredHumidity x ≤ 10000 := by
  obtain ⟨hf, hr⟩ := Bool.and_eq_true_iff.mp h
  have hx := Float64.between_of_inRange hf hr
  have hle := hx.lower.trans hx.upper
  obtain ⟨-, -, -, -, -, hmin, hmax⟩ := atEnds
  rw [← hmin, ← hmax]
  exact ⟨hundredths_mono ⟨by decide, le_rfl, hle⟩ hx hx.lower,
    hundredths_mono hx ⟨by decide, hle, le_rfl⟩ hx.upper⟩

end Order

/-! ## Levels and back -/

section RoundTrip

variable {level : Nat}

/-- The level within its bounds. -/
def clampLevel (level : Nat) : Nat := max minLevel (min maxLevel level)

theorem clampLevel_bounds (level : Nat) : 1 ≤ clampLevel level ∧ clampLevel level ≤ 254 := by
  unfold clampLevel minLevel maxLevel
  omega

/-- What is divided by 253.0 is an integer. -/
theorem isNat_numerator (level : Nat) :
    IsNat (Float64.mul (Float64.sub (.ofNat (clampLevel level)) one) hundred)
      ((clampLevel level - 1) * 100) := by
  have hb := clampLevel_bounds level
  exact ((Float64.isNat_ofNat (by omega)).sub isNat_one hb.1 (by omega)).mul isNat_hundred (by omega)

/-- A level is sent as a percentage from 0.0 to 100.0. -/
theorem between_canonicalLevel (level : Nat) :
    Between percentMinimum percentMaximum (canonicalLevel level) := by
  have hb := clampLevel_bounds level
  have hn := isNat_numerator level
  have hzero := Float64.isNat_ofNat (k := 0) (by decide)
  have htop := Float64.isNat_ofNat (k := 25300) (by decide)
  have hrange : Between (.ofNat 0) (.ofNat 25300)
      (Float64.mul (Float64.sub (.ofNat (clampLevel level)) one) hundred) := by
    exact ⟨hn.finite, hzero.scaled_le hn (by omega), hn.scaled_le htop (by omega)⟩
  have hdiv : Rises (Float64.div · levelSpan) (.ofNat 0) (.ofNat 25300) :=
    Float64.rises_div isNat_levelSpan.finite (isNat_levelSpan.scaled_pos (by decide))
  obtain ⟨-, -, -, ⟨hmin, hmax⟩, -⟩ := atEnds
  have hbetween := hdiv.between hzero.finite htop.finite (by rw [hmin]; decide)
    (by rw [hmax]; decide) hrange
  rwa [hmin, hmax] at hbetween

theorem inPercent_canonicalLevel (level : Nat) : inPercent (canonicalLevel level) = true := by
  have h := between_canonicalLevel level
  rw [inPercent, h.finite, Float64.inRange_of_between (by decide) (by decide) h]
  rfl

/-- Four roundings together move a level by less than one half. -/
theorem levelValue_canonicalLevel (level : Nat) :
    |(levelValue (canonicalLevel level)).value - clampLevel level| < 1 / 2 := by
  have hb := clampLevel_bounds level
  have hn := isNat_numerator level
  obtain ⟨k, hk⟩ : ∃ k, clampLevel level = k + 1 := ⟨clampLevel level - 1, by omega⟩
  rw [show clampLevel level - 1 = k by omega] at hn
  have hle : (k : ℚ) ≤ 253 := by exact_mod_cast (by omega : k ≤ 253)
  have hmoderate : ∀ c : ℚ, 1 / 8 ≤ c → c ≤ 100 → Float64.Moderate (k * c) := by
    intro c hc hc'
    by_cases h0 : k = 0
    · left
      rw [h0, Nat.cast_zero, zero_mul]
    · right
      have hone : (1 : ℚ) ≤ k := by exact_mod_cast Nat.one_le_iff_ne_zero.mpr h0
      constructor <;> nlinarith
  have hdiv := hn.close.div isNat_levelSpan (by decide)
    (by convert hmoderate (100 / 253) (by norm_num) (by norm_num) using 1; push_cast; ring)
    (by norm_num)
  have hmul := hdiv.mul isNat_levelSpan
    (by convert hmoderate 100 (by norm_num) (by norm_num) using 1; push_cast; ring) (by norm_num)
  have hdiv' := hmul.div isNat_hundred (by decide)
    (by convert hmoderate 1 (by norm_num) (by norm_num) using 1; push_cast; ring) (by norm_num)
  have htarget : (((k * 100 : Nat) : ℚ) / (253 : Nat) * (253 : Nat) / (100 : Nat)) = k := by
    push_cast
    ring
  rw [htarget] at hdiv'
  have hadd := Float64.Close.add isNat_one hdiv'
    (.inr ⟨by push_cast; linarith, by norm_num; linarith⟩) (by norm_num) (by norm_num)
  have hcast : ((k + 1 : Nat) : ℚ) = (1 : Nat) + k := by
    push_cast
    ring
  rw [hk, hcast]
  refine lt_of_le_of_lt hadd.error ?_
  norm_num
  linarith

/-- A level that is sent as a percentage comes back. -/
theorem matterLevel_canonicalLevel (level : Nat) :
    matterLevel (canonicalLevel level) = clampLevel level := by
  have hb := between_canonicalLevel level
  have hclamp := clampLevel_bounds level
  have hround := Float64.roundAway_eq (levelValue_canonicalLevel level)
  have heq : matterLevel (canonicalLevel level) = (Float64.roundAs 0 255
      (levelValue (Float64.clamp percentMinimum percentMaximum (canonicalLevel level)))).toNat := rfl
  rw [heq, Float64.clamp_eq_self hb, Float64.roundAs, levelValue_rises.number _ hb,
    if_neg Bool.false_ne_true, hround]
  omega

end RoundTrip

end Oikade.Matter
