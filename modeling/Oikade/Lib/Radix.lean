/-
  Numbers written in a radix: Rust's `char::to_digit` and `from_str_radix` of an unsigned type, on
  lists of characters.

  `from_str_radix` takes one '+' in front of the digits. `fromStrRadix_eq_some` says what it reads:
  digits with or without that sign, whose value is below the limit of the type.
-/
import Mathlib.Algebra.Ring.Nat
import Mathlib.Data.List.Basic

namespace Radix

/-- `char::to_digit` -/
def toDigit (radix : Nat) (c : Char) : Option Nat :=
  let n := c.toNat
  if 48 ≤ n ∧ n ≤ 57 ∧ n - 48 < radix then some (n - 48)
  else if 97 ≤ n ∧ n ≤ 122 ∧ n - 87 < radix then some (n - 87)
  else if 65 ≤ n ∧ n ≤ 90 ∧ n - 55 < radix then some (n - 55)
  else none

/-- The number that digits spell, most significant first, after `n`. -/
def value (radix n : Nat) (digits : List Char) : Nat :=
  digits.foldl (fun n c => n * radix + (toDigit radix c).getD 0) n

/-- At least one digit, and nothing else. -/
def IsDigits (radix : Nat) (cs : List Char) : Prop :=
  cs ≠ [] ∧ ∀ c ∈ cs, (toDigit radix c).isSome = true

instance (radix : Nat) (cs : List Char) : Decidable (IsDigits radix cs) :=
  @instDecidableAnd _ _ _ (List.decidableBAll _ cs)

/-- The loop of `from_str_radix`, with checked arithmetic below `limit`. -/
def accumulate (limit radix : Nat) : Nat → List Char → Option Nat
  | n, [] => some n
  | n, c :: cs =>
    match toDigit radix c with
    | none => none
    | some d => if n * radix + d < limit then accumulate limit radix (n * radix + d) cs else none

/-- `from_str_radix` of the unsigned type with `limit` values. -/
def fromStrRadix (limit radix : Nat) : List Char → Option Nat
  | [] => none
  | ['+'] => none
  | ['-'] => none
  | '+' :: rest => accumulate limit radix 0 rest
  | cs => accumulate limit radix 0 cs

theorem le_value {radix : Nat} (hr : 0 < radix) (n : Nat) (cs : List Char) : n ≤ value radix n cs := by
  induction cs generalizing n with
  | nil => exact Nat.le_refl n
  | cons c cs ih =>
    have hstep : n ≤ n * radix + (toDigit radix c).getD 0 :=
      Nat.le_trans (Nat.le_mul_of_pos_right n hr) (Nat.le_add_right _ _)
    exact Nat.le_trans hstep (ih _)

/-- The number only grows, so an overflow on the way is one at the end. -/
theorem accumulate_eq_some {limit radix : Nat} (hr : 0 < radix) {n m : Nat} {cs : List Char}
    (hn : n < limit) : accumulate limit radix n cs = some m ↔
      (∀ c ∈ cs, (toDigit radix c).isSome = true) ∧ m = value radix n cs ∧ m < limit := by
  induction cs generalizing n with
  | nil =>
    constructor
    · rintro ⟨⟩
      exact ⟨by simp, rfl, hn⟩
    · rintro ⟨-, rfl, -⟩
      rfl
  | cons c cs ih =>
    rw [accumulate, List.forall_mem_cons]
    cases hd : toDigit radix c with
    | none => simp
    | some d =>
      have hvalue : value radix n (c :: cs) = value radix (n * radix + d) cs := by
        simp [value, hd]
      simp only [Option.isSome_some, true_and, hvalue]
      by_cases hlt : n * radix + d < limit
      · rw [if_pos hlt, ih hlt]
      · rw [if_neg hlt]
        refine iff_of_false (by simp) fun h => ?_
        have := le_value hr (n * radix + d) cs
        omega

theorem toDigit_sign {radix : Nat} {c : Char} (h : c = '+' ∨ c = '-') : toDigit radix c = none := by
  rcases h with rfl | rfl <;> rfl

/-- A digit is not a sign. -/
theorem IsDigits.head {radix : Nat} {c : Char} {cs : List Char} (h : IsDigits radix (c :: cs)) :
    c ≠ '+' ∧ c ≠ '-' := by
  have hc := h.2 c List.mem_cons_self
  constructor <;> rintro rfl <;> simp [toDigit_sign] at hc

/-- Digits, or '+' and digits. -/
theorem fromStrRadix_eq_some {limit radix : Nat} (hlimit : 0 < limit) (hr : 0 < radix) {m : Nat}
    {cs : List Char} : fromStrRadix limit radix cs = some m ↔
      ∃ digits, (cs = digits ∨ cs = '+' :: digits) ∧ IsDigits radix digits ∧
        m = value radix 0 digits ∧ m < limit := by
  have hloop : ∀ {ds : List Char}, ds ≠ [] → (accumulate limit radix 0 ds = some m ↔
      IsDigits radix ds ∧ m = value radix 0 ds ∧ m < limit) := by
    intro ds hne
    rw [accumulate_eq_some hr hlimit, IsDigits, and_assoc]
    exact ⟨fun h => ⟨hne, h⟩, fun h => h.2⟩
  unfold fromStrRadix
  split
  · refine iff_of_false (by simp) ?_
    rintro ⟨digits, h | h, hdigits, -⟩
    · exact hdigits.1 h.symm
    · cases h
  · refine iff_of_false (by simp) ?_
    rintro ⟨digits, rfl | h, hdigits, -⟩
    · exact hdigits.head.1 rfl
    · exact hdigits.1 (List.cons.inj h).2.symm
  · refine iff_of_false (by simp) ?_
    rintro ⟨digits, rfl | h, hdigits, -⟩
    · exact hdigits.head.2 rfl
    · cases (List.cons.inj h).1
  · rename_i rest hne
    have hrest : rest ≠ [] := fun h => hne (by rw [h])
    rw [hloop hrest]
    constructor
    · intro h
      exact ⟨rest, .inr rfl, h⟩
    · rintro ⟨digits, rfl | h, hdigits⟩
      · exact absurd rfl hdigits.1.head.1
      · cases (List.cons.inj h).2
        exact hdigits
  · rename_i h1 h2 h3 h4
    have hne : cs ≠ [] := h1
    rw [hloop hne]
    constructor
    · intro h
      exact ⟨cs, .inl rfl, h⟩
    · rintro ⟨digits, rfl | h, hdigits⟩
      · exact hdigits
      · exact absurd h (h4 digits)

/-! ## Decimals -/

example : fromStrRadix (2 ^ 64) 16 "fF".toList = some 255 ∧
    fromStrRadix (2 ^ 64) 10 "18446744073709551616".toList = none ∧
    fromStrRadix (2 ^ 64) 8 "+7".toList = some 7 ∧ fromStrRadix (2 ^ 64) 10 "-7".toList = none := by
  decide

end Radix
