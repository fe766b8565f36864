/-
  IEEE 754 binary64 data, as far as equality and order go.

  A datum is its 64 bits. Every finite datum is an integer multiple of the smallest subnormal
  `2^-1074`; `scaled` is that integer, so the order of finite data is the order of integers and
  nothing is rounded. A NaN equals nothing, not even itself, and the two zeros are equal without
  being the same datum. Of arithmetic only the rounding of a fraction is here (`ofRatio`), for the
  conversion of integers (`ofInt`) and of decimal texts (`parse`).
-/
import Mathlib.Algebra.Ring.Nat
import Mathlib.Data.List.Basic

/-- A binary64 datum. -/
structure Float64 where
  bits : BitVec 64
  deriving DecidableEq, Repr

namespace Float64

def sign (x : Float64) : Bool := 2 ^ 63 ≤ x.bits.toNat

def exponent (x : Float64) : Nat := x.bits.toNat / 2 ^ 52 % 2 ^ 11

def fraction (x : Float64) : Nat := x.bits.toNat % 2 ^ 52

def isFinite (x : Float64) : Bool := x.exponent ≠ 2 ^ 11 - 1

def isNan (x : Float64) : Bool := !x.isFinite && x.fraction ≠ 0

/-- The magnitude of a finite datum in units of `2^-1074`: the hidden bit is absent, and the
    exponent that of the smallest normal, when the exponent field is zero. -/
def magnitude (x : Float64) : Nat :=
  if x.exponent = 0 then x.fraction else (2 ^ 52 + x.fraction) * 2 ^ (x.exponent - 1)

/-- The value in units of `2^-1074`; an infinity is beyond every finite datum. -/
def scaled (x : Float64) : Int :=
  let m : Nat := if x.isFinite then x.magnitude else 2 ^ 2098
  if x.sign then -m else m

/-- `x == y`. -/
def eq (x y : Float64) : Bool := !x.isNan && !y.isNan && x.scaled = y.scaled

/-- `x <= y`. -/
def le (x y : Float64) : Bool := !x.isNan && !y.isNan && x.scaled ≤ y.scaled

/-- `(lo..=hi).contains(&x)`. -/
def inRange (lo hi x : Float64) : Bool := lo.le x && x.le hi

/-- A fraction rounded to the nearest integer, to the even one of two. -/
def roundRatio (n d : Nat) : Nat :=
  let q := n / d
  let r := n % d
  if d < 2 * r ∨ 2 * r = d ∧ q % 2 = 1 then q + 1 else q

/-- The datum nearest to `n / d`. The result has the unit `2^u`: 53 bits, or the smallest unit. A
    carry out of the fraction goes to the exponent field, and out of that it gives infinity. -/
def ofRatio (n d : Nat) : Float64 :=
  if n = 0 then ⟨0⟩
  else
    let e : Int := (n.log2 : Int) - d.log2
    let e := if n * 2 ^ (-e).toNat < d * 2 ^ e.toNat then e - 1 else e
    let u := max (e - 52) (-1074)
    let q := roundRatio (n * 2 ^ (-u).toNat) (d * 2 ^ u.toNat)
    ⟨BitVec.ofNat 64 (min ((u + 1074).toNat * 2 ^ 52 + q) 0x7FF0000000000000)⟩

def neg (x : Float64) : Float64 := ⟨x.bits ^^^ 0x8000000000000000#64⟩

/-- `n as f64` -/
def ofNat (n : Nat) : Float64 := ofRatio n 1

def ofInt (n : Int) : Float64 := if n < 0 then (ofNat n.natAbs).neg else ofNat n.natAbs

/-! ## Texts -/

def isDigit (c : Char) : Bool := '0' ≤ c && c ≤ '9'

/-- A sign is taken off: whether it is '-', and what follows. -/
def sign? : List Char → Bool × List Char
  | '-' :: cs => (true, cs)
  | '+' :: cs => (false, cs)
  | cs => (false, cs)

def decimal (digits : List Char) : Nat := digits.foldl (fun n c => n * 10 + (c.toNat - 48)) 0

/-- The exponent: none, or 'e' and an integer. -/
def parseExponent : List Char → Option Int
  | [] => some 0
  | c :: cs =>
    let (negative, digits) := sign? cs
    if (c = 'e' ∨ c = 'E') ∧ digits ≠ [] ∧ digits.all isDigit = true then
      some (if negative then -decimal digits else decimal digits)
    else none

/-- `digits.digits` times a power of ten. -/
def scale (whole fraction : List Char) (exponent : Int) : Float64 :=
  let n := decimal (whole ++ fraction)
  let e := exponent - fraction.length
  ofRatio (n * 10 ^ e.toNat) (10 ^ (-e).toNat)

def parseNumber (cs : List Char) : Option Float64 :=
  let (whole, rest) := cs.span isDigit
  match rest with
  | '.' :: rest =>
    let (fraction, rest) := rest.span isDigit
    if whole = [] ∧ fraction = [] then none
    else (parseExponent rest).map (scale whole fraction)
  | rest => if whole = [] then none else (parseExponent rest).map (scale whole [])

/-- `str::parse::<f64>` -/
def parse (s : String) : Option Float64 :=
  let (negative, cs) := sign? s.toList
  let lower := cs.map fun c => if 'A' ≤ c ∧ c ≤ 'Z' then Char.ofNat (c.toNat + 32) else c
  let x? :=
    if lower = "inf".toList ∨ lower = "infinity".toList then some ⟨0x7FF0000000000000#64⟩
    else if lower = "nan".toList then some ⟨0x7FF8000000000000#64⟩
    else parseNumber cs
  x?.map fun x => if negative then x.neg else x

theorem eq_self_of_isFinite {x : Float64} (h : x.isFinite = true) : x.eq x = true := by
  simp [eq, isNan, h]

theorem eq_comm (x y : Float64) : x.eq y = y.eq x := by
  simp only [eq, Bool.and_comm (!x.isNan), Eq.comm (a := x.scaled)]

/-- The two zeros are equal and are not the same datum. -/
example : eq ⟨0#64⟩ ⟨0x8000000000000000#64⟩ = true ∧
    (⟨0#64⟩ : Float64) ≠ ⟨0x8000000000000000#64⟩ := by decide

/-- An integer that is exact, two half way between neighbours, the largest. -/
example : ofInt (-5) = ⟨0xC014000000000000#64⟩ ∧ ofNat (2 ^ 53 + 1) = ofNat (2 ^ 53) ∧
    ofNat (2 ^ 53 + 3) = ofNat (2 ^ 53 + 4) ∧ ofNat (2 ^ 64 - 1) = ⟨0x43F0000000000000#64⟩ := by
  decide +kernel

/-- A tenth, the smallest subnormal, half of it and less, and texts that are no numbers. -/
example : parse "0.1" = some ⟨0x3FB999999999999A#64⟩ ∧ parse "-5e-324" = some ⟨0x8000000000000001#64⟩ ∧
    parse "2e-324" = some ⟨0#64⟩ ∧ parse "1e309" = some ⟨0x7FF0000000000000#64⟩ ∧
    parse "1." = some ⟨0x3FF0000000000000#64⟩ ∧ parse "." = none ∧ parse "1e" = none ∧
    parse ".inf" = none ∧ parse "1.2.3" = none := by
  decide +kernel

end Float64
