/-
  The scalars of the configuration parser (`oikade-config/src/yaml.rs`): how a text, its style and
  its tag resolve to null, a boolean, a number or a string.

  A tag is the YAML parser's, which also says which tags belong to the core schema. An error keeps
  what its message is made of.

  `parse_integer` hands what follows the sign and the radix to `u64::from_str_radix`, which takes a
  '+' of its own: "++5" and "0x+5" are read as 5 (`parseInteger_iff`).
-/
import Oikade.Lib.Json
import Oikade.Lib.Radix
import Oikade.Lib.Text
import Mathlib.Algebra.Ring.Int.Defs

namespace Oikade.Yaml

open Json (Number)

/-! ## Scalars -/

inductive ScalarStyle where
  | plain
  | singleQuoted
  | doubleQuoted
  | literal
  | folded
  deriving DecidableEq, Repr

structure Tag where
  handle : String
  suffix : String
  deriving DecidableEq, Repr

/-- What is wrong with an event, by the text of the message. -/
inductive Problem where
  /-- "decode YAML: unexpected parser event" -/
  | unexpectedEvent
  /-- "decode YAML: expected a value" -/
  | expectedValue
  /-- "YAML nesting exceeds 64 levels" -/
  | nesting
  /-- "YAML anchors and aliases are not supported" -/
  | anchor
  /-- "custom YAML tag .. is not supported" -/
  | customTag (tag : Tag)
  /-- "YAML mapping keys must be strings" -/
  | keyNotString
  /-- "duplicate YAML key .." -/
  | duplicateKey (key : String)
  /-- "ambiguous YAML 1.1 value .. must be quoted" -/
  | ambiguous (value : String)
  /-- "unsupported YAML core tag .." -/
  | unsupportedTag (suffix : String)
  /-- "invalid YAML boolean .." -/
  | invalidBoolean (value : String)
  /-- "invalid YAML integer .." -/
  | invalidInteger (value : String)
  /-- "YAML integer .. is out of range" -/
  | integerRange (value : String)
  /-- "invalid YAML number .." -/
  | invalidNumber (value : String)
  /-- "YAML number must be finite" -/
  | notFinite
  deriving DecidableEq, Repr

/-- What a scalar resolves to. -/
inductive Scalar where
  | null
  | bool (b : Bool)
  | number (n : Number)
  | string (s : String)
  deriving DecidableEq

def parseBool (value : String) : Except Problem Scalar :=
  let lower := Text.toAsciiLowercase value
  if lower = "true" then .ok (.bool true)
  else if lower = "false" then .ok (.bool false)
  else .error (.invalidBoolean value)

def isSign (c : Char) : Bool := c = '+' || c = '-'

/-- The four spellings of a radix. -/
def hasRadix (cs : List Char) : Bool :=
  "0x".toList.isPrefixOf cs || "0X".toList.isPrefixOf cs || "0o".toList.isPrefixOf cs ||
    "0O".toList.isPrefixOf cs

def looksLikeInteger (value : String) : Bool :=
  let value := value.toList.dropWhile isSign
  hasRadix value || !value.isEmpty && value.all fun c => Text.isAsciiDigit c || c = '_'

/-- `value.replace('_', "")` -/
def clean (value : String) : List Char := value.toList.filter (· ≠ '_')

/-- The first of `cleaned`, if it is a sign: whether the number is negative, and the rest. -/
def splitSign : List Char → Bool × List Char
  | '-' :: unsigned => (true, unsigned)
  | '+' :: unsigned => (false, unsigned)
  | unsigned => (false, unsigned)

def splitRadix : List Char → Nat × List Char
  | '0' :: 'x' :: digits => (16, digits)
  | '0' :: 'X' :: digits => (16, digits)
  | '0' :: 'o' :: digits => (8, digits)
  | '0' :: 'O' :: digits => (8, digits)
  | digits => (10, digits)

/-- `Number::from` of an `i64`, given by its magnitude and a minus sign. -/
def negated (magnitude : Nat) : Number :=
  let n := Int64.ofInt (-magnitude)
  if h : n < 0 then .negInt n h else .posInt n.toUInt64

/-- `parse_integer` after `from_str_radix`. -/
def fromMagnitude (value : String) (negative : Bool) (magnitude : Nat) : Except Problem Number :=
  if negative then
    if magnitude ≤ 2 ^ 63 then .ok (negated magnitude) else .error (.integerRange value)
  else .ok (.posInt (UInt64.ofNat magnitude))

def parseInteger (value : String) : Except Problem Number :=
  let (negative, unsigned) := splitSign (clean value)
  let (radix, digits) := splitRadix unsigned
  match Radix.fromStrRadix (2 ^ 64) radix digits with
  | none => .error (.invalidInteger value)
  | some magnitude => fromMagnitude value negative magnitude

def looksLikeFloat (value : String) : Bool :=
  let lower := Text.toAsciiLowercase value
  if lower = ".inf" || lower = "+.inf" || lower = "-.inf" || lower = ".nan" then true
  else (lower.toList.contains '.' || lower.toList.contains 'e') &&
    (Float64.parse (String.ofList (clean lower))).isSome

def parseFloat (value : String) : Except Problem Number :=
  match Float64.parse (String.ofList (clean value)) with
  | none => .error (.invalidNumber value)
  | some parsed =>
    if h : parsed.isFinite = true then .ok (.float parsed h) else .error .notFinite

/-- `scalar` -/
def scalar (value : String) (style : ScalarStyle) (tag : Option Tag) : Except Problem Scalar :=
  let lower := Text.toAsciiLowercase value
  if style = .plain && lower ∈ ["yes", "no", "on", "off"] then .error (.ambiguous value)
  else
    match tag with
    | some tag =>
      if tag.suffix = "str" then .ok (.string value)
      else if tag.suffix = "null" then .ok .null
      else if tag.suffix = "bool" then parseBool value
      else if tag.suffix = "int" then (parseInteger value).map .number
      else if tag.suffix = "float" then (parseFloat value).map .number
      else .error (.unsupportedTag tag.suffix)
    | none =>
      if style ≠ .plain then .ok (.string value)
      else if lower ∈ ["", "~", "null"] then .ok .null
      else if lower ∈ ["true", "false"] then parseBool value
      else if looksLikeInteger value then (parseInteger value).map .number
      else if looksLikeFloat value then (parseFloat value).map .number
      else .ok (.string value)

/-! ## Integers -/

/-- The number that is meant, if it is an integer. -/
def intValue : Number → Option Int
  | .posInt n => some n.toNat
  | .negInt n _ => some n.toInt
  | .float .. => none

/-- At most one sign. -/
def IsSign (negative : Bool) (sign : List Char) : Prop :=
  if negative then sign = ['-'] else sign = [] ∨ sign = ['+']

/-- What stands in front of the digits of a radix. -/
def IsLead (radix : Nat) (lead : List Char) : Prop :=
  radix = 10 ∧ lead = [] ∨ radix = 16 ∧ (lead = "0x".toList ∨ lead = "0X".toList) ∨
    radix = 8 ∧ (lead = "0o".toList ∨ lead = "0O".toList)

def signed (negative : Bool) (magnitude : Nat) : Int := if negative then -magnitude else magnitude

def InRange (n : Int) : Prop := -2 ^ 63 ≤ n ∧ n < 2 ^ 64

/-- The text is an integer: an optional sign, a radix, digits of it, and in range. -/
def Spells (cleaned : List Char) (n : Int) : Prop :=
  ∃ negative sign radix lead digits, IsSign negative sign ∧ IsLead radix lead ∧
    cleaned = sign ++ lead ++ digits ∧ Radix.IsDigits radix digits ∧
    n = signed negative (Radix.value radix 0 digits) ∧ InRange n

/-- The text is accepted exactly if it is an integer, as that integer. -/
def ReadsExactly (value : String) : Prop :=
  ∀ k, parseInteger value = .ok k ↔ ∃ n, Spells (clean value) n ∧ intValue k = some n

/-- The text has a '+' between its sign or its radix and digits, and is otherwise an integer. -/
def SpellsWithPlus (cleaned : List Char) (n : Int) : Prop :=
  ∃ negative sign radix lead digits, IsSign negative sign ∧ IsLead radix lead ∧
    (sign ≠ [] ∨ lead ≠ []) ∧ cleaned = sign ++ lead ++ '+' :: digits ∧
    Radix.IsDigits radix digits ∧ n = signed negative (Radix.value radix 0 digits) ∧ InRange n

/-! ## Splitting a text -/

theorem splitSign_spec (cs : List Char) : ∃ sign, IsSign (splitSign cs).1 sign ∧
    cs = sign ++ (splitSign cs).2 ∧ (sign = [] → cs.head? ≠ some '+') := by
  unfold splitSign
  split
  · exact ⟨['-'], rfl, rfl, by simp⟩
  · exact ⟨['+'], .inr rfl, rfl, by simp⟩
  · rename_i hplus
    refine ⟨[], .inl rfl, rfl, fun _ h => ?_⟩
    obtain ⟨rest, rfl⟩ : ∃ rest, cs = '+' :: rest := by
      cases cs with
      | nil => cases h
      | cons c rest => exact ⟨rest, by rw [Option.some.inj h]⟩
    exact hplus rest rfl

theorem splitRadix_spec (cs : List Char) :
    ∃ lead, IsLead (splitRadix cs).1 lead ∧ cs = lead ++ (splitRadix cs).2 := by
  unfold splitRadix
  split
  · exact ⟨['0', 'x'], .inr (.inl ⟨rfl, .inl rfl⟩), rfl⟩
  · exact ⟨['0', 'X'], .inr (.inl ⟨rfl, .inr rfl⟩), rfl⟩
  · exact ⟨['0', 'o'], .inr (.inr ⟨rfl, .inl rfl⟩), rfl⟩
  · exact ⟨['0', 'O'], .inr (.inr ⟨rfl, .inr rfl⟩), rfl⟩
  · exact ⟨[], .inl ⟨rfl, rfl⟩, rfl⟩

theorem splitSign_append {negative : Bool} {sign rest : List Char} (h : IsSign negative sign)
    (hrest : sign = [] → ∀ c ∈ rest.head?, c ≠ '+' ∧ c ≠ '-') :
    splitSign (sign ++ rest) = (negative, rest) := by
  cases negative with
  | true =>
    cases h
    rfl
  | false =>
    rcases h with rfl | rfl
    · cases rest with
      | nil => rfl
      | cons c rest =>
        obtain ⟨hplus, hminus⟩ := hrest rfl c rfl
        simp only [List.nil_append, splitSign]
        split
        · exact absurd (List.cons.inj ‹_›).1 hminus
        · exact absurd (List.cons.inj ‹_›).1 hplus
        · rfl
    · rfl

/-- Decimal digits do not begin like another radix. -/
theorem splitRadix_append {radix : Nat} {lead ds : List Char} (h : IsLead radix lead)
    (hds : ∀ c, ds[1]? = some c → c ≠ 'x' ∧ c ≠ 'X' ∧ c ≠ 'o' ∧ c ≠ 'O') :
    splitRadix (lead ++ ds) = (radix, ds) := by
  rcases h with ⟨rfl, rfl⟩ | ⟨rfl, rfl | rfl⟩ | ⟨rfl, rfl | rfl⟩
  · simp only [List.nil_append, splitRadix]
    split
    · exact absurd rfl (hds 'x' rfl).1
    · exact absurd rfl (hds 'X' rfl).2.1
    · exact absurd rfl (hds 'o' rfl).2.2.1
    · exact absurd rfl (hds 'O' rfl).2.2.2
    · rfl
  all_goals rfl

theorem isLead_radix {radix : Nat} {lead : List Char} (h : IsLead radix lead) :
    0 < radix ∧ radix ≤ 16 := by
  rcases h with ⟨rfl, -⟩ | ⟨rfl, -⟩ | ⟨rfl, -⟩ <;> decide

theorem toDigit_lead {radix : Nat} (h : radix ≤ 16) {c : Char}
    (hc : c = 'x' ∨ c = 'X' ∨ c = 'o' ∨ c = 'O') : Radix.toDigit radix c = none := by
  have h33 : ¬ 33 < radix := by omega
  have h24 : ¬ 24 < radix := by omega
  rcases hc with rfl | rfl | rfl | rfl <;> simp [Radix.toDigit, h33, h24]

/-- A digit does not name a radix. -/
theorem isDigits_second {radix : Nat} (h : radix ≤ 16) {ds : List Char}
    (hds : ∀ c ∈ ds, (Radix.toDigit radix c).isSome = true) {c : Char} (hc : c ∈ ds) :
    c ≠ 'x' ∧ c ≠ 'X' ∧ c ≠ 'o' ∧ c ≠ 'O' := by
  have hsome := hds c hc
  refine ⟨?_, ?_, ?_, ?_⟩ <;> rintro rfl <;> simp [toDigit_lead h] at hsome

/-- The parts of a text that `parse_integer` looks at. -/
def split (cs : List Char) : Bool × Nat × List Char :=
  ((splitSign cs).1, splitRadix (splitSign cs).2)

theorem split_spec (cs : List Char) : ∃ sign lead, IsSign (split cs).1 sign ∧
    IsLead (split cs).2.1 lead ∧ cs = sign ++ lead ++ (split cs).2.2 ∧
    ((split cs).2.2.head? = some '+' → sign ≠ [] ∨ lead ≠ []) := by
  obtain ⟨sign, hsign, hcs, hplus⟩ := splitSign_spec cs
  obtain ⟨lead, hlead, hrest⟩ := splitRadix_spec (splitSign cs).2
  refine ⟨sign, lead, hsign, hlead, ?_, fun hhead => ?_⟩
  · rw [List.append_assoc, split, ← hrest, ← hcs]
  · by_contra hnone
    obtain ⟨rfl, rfl⟩ : sign = [] ∧ lead = [] := by simpa using hnone
    refine hplus rfl ?_
    rw [hcs, hrest]
    exact hhead

/-- The parts of a text are the ones it is made of. -/
theorem split_append {negative : Bool} {sign lead ds : List Char} {radix : Nat}
    (hsign : IsSign negative sign) (hlead : IsLead radix lead)
    (hhead : sign = [] → lead = [] → ∀ c ∈ ds.head?, c ≠ '+' ∧ c ≠ '-')
    (hsecond : ∀ c, ds[1]? = some c → c ≠ 'x' ∧ c ≠ 'X' ∧ c ≠ 'o' ∧ c ≠ 'O') :
    split (sign ++ lead ++ ds) = (negative, radix, ds) := by
  have hfirst : sign = [] → ∀ c ∈ (lead ++ ds).head?, c ≠ '+' ∧ c ≠ '-' := by
    intro hs c hc
    rcases hlead with ⟨-, rfl⟩ | ⟨-, rfl | rfl⟩ | ⟨-, rfl | rfl⟩
    · exact hhead hs rfl c hc
    all_goals
      cases hc
      decide
  rw [List.append_assoc, split, splitSign_append hsign hfirst]
  simp only [splitRadix_append hlead hsecond]

theorem split_digits {negative : Bool} {sign lead ds : List Char} {radix : Nat}
    (hsign : IsSign negative sign) (hlead : IsLead radix lead) (hds : Radix.IsDigits radix ds) :
    split (sign ++ lead ++ ds) = (negative, radix, ds) := by
  refine split_append hsign hlead (fun _ _ c hc => ?_) fun c hc => ?_
  · cases ds with
    | nil => cases hc
    | cons d ds =>
      cases hc
      exact hds.head
  · exact isDigits_second (isLead_radix hlead).2 hds.2 (List.mem_of_getElem? hc)

theorem split_plus {negative : Bool} {sign lead ds : List Char} {radix : Nat}
    (hsign : IsSign negative sign) (hlead : IsLead radix lead) (hne : sign ≠ [] ∨ lead ≠ [])
    (hds : Radix.IsDigits radix ds) :
    split (sign ++ lead ++ '+' :: ds) = (negative, radix, '+' :: ds) := by
  refine split_append hsign hlead (fun hs hl => ?_) fun c hc => ?_
  · exact absurd hne (by simp [hs, hl])
  · exact isDigits_second (isLead_radix hlead).2 hds.2 (List.mem_of_getElem? hc)

/-! ## What is read -/

theorem spells_iff {cs : List Char} {n : Int} : Spells cs n ↔
    Radix.IsDigits (split cs).2.1 (split cs).2.2 ∧
      n = signed (split cs).1 (Radix.value (split cs).2.1 0 (split cs).2.2) ∧ InRange n := by
  constructor
  · rintro ⟨negative, sign, radix, lead, digits, hsign, hlead, rfl, hdigits, hn, hrange⟩
    rw [split_digits hsign hlead hdigits]
    exact ⟨hdigits, hn, hrange⟩
  · rintro ⟨hdigits, hn, hrange⟩
    obtain ⟨sign, lead, hsign, hlead, hcs, -⟩ := split_spec cs
    exact ⟨_, sign, _, lead, _, hsign, hlead, hcs, hdigits, hn, hrange⟩

theorem spellsWithPlus_iff {cs : List Char} {n : Int} : SpellsWithPlus cs n ↔
    ∃ digits, (split cs).2.2 = '+' :: digits ∧ Radix.IsDigits (split cs).2.1 digits ∧
      n = signed (split cs).1 (Radix.value (split cs).2.1 0 digits) ∧ InRange n := by
  constructor
  · rintro ⟨negative, sign, radix, lead, digits, hsign, hlead, hne, rfl, hdigits, hn, hrange⟩
    rw [split_plus hsign hlead hne hdigits]
    exact ⟨digits, rfl, hdigits, hn, hrange⟩
  · rintro ⟨digits, hplus, hdigits, hn, hrange⟩
    obtain ⟨sign, lead, hsign, hlead, hcs, hne⟩ := split_spec cs
    refine ⟨_, sign, _, lead, digits, hsign, hlead, hne (by rw [hplus]; rfl), ?_, hdigits, hn, hrange⟩
    rw [← hplus]
    exact hcs

/-- No text is both. -/
theorem not_spells_of_plus {cs : List Char} {n m : Int} (h : SpellsWithPlus cs n) :
    ¬Spells cs m := by
  obtain ⟨digits, hplus, -⟩ := spellsWithPlus_iff.mp h
  intro hspells
  have hdigits := (spells_iff.mp hspells).1
  rw [hplus] at hdigits
  exact hdigits.head.1 rfl

theorem intValue_posInt {m : Nat} (h : m < 2 ^ 64) :
    intValue (.posInt (UInt64.ofNat m)) = some (m : Int) := by
  rw [intValue, UInt64.toNat_ofNat_of_lt' h]

theorem intValue_negated {m : Nat} (h : m ≤ 2 ^ 63) : intValue (negated m) = some (-m : Int) := by
  have hint : (Int64.ofInt (-m)).toInt = -m :=
    Int64.toInt_ofInt_of_le (by omega) (by omega)
  simp only [negated]
  split
  · rw [intValue, hint]
  · rename_i hneg
    obtain rfl : m = 0 := by
      by_contra hm
      refine hneg (Int64.lt_iff_toInt_lt.mpr ?_)
      rw [hint, Int64.toInt_zero]
      omega
    rfl

theorem intValue_inj {j k : Number} {n : Int} (hj : intValue j = some n) (hk : intValue k = some n) :
    j = k := by
  have hsign : ∀ {a : UInt64} {b : Int64}, b < 0 → (a.toNat : Int) ≠ b.toInt := by
    intro a b hb heq
    have := Int64.lt_iff_toInt_lt.mp hb
    rw [Int64.toInt_zero] at this
    omega
  cases j with
  | posInt a =>
    cases k with
    | posInt b =>
      have heq : (a.toNat : Int) = b.toNat := Option.some.inj (hj.trans hk.symm)
      rw [UInt64.toNat_inj.mp (Int.ofNat_inj.mp heq)]
    | negInt b hb => exact absurd (Option.some.inj (hj.trans hk.symm)) (hsign hb)
    | float => cases hk
  | negInt a ha =>
    cases k with
    | posInt b => exact absurd (Option.some.inj (hk.trans hj.symm)) (hsign ha)
    | negInt b hb =>
      cases Int64.toInt_inj.mp (Option.some.inj (hj.trans hk.symm))
      rfl
    | float => cases hk
  | float => cases hj

/-- A magnitude that `u64` holds is accepted if the signed number is in range. -/
theorem inRange_signed {negative : Bool} {m : Nat} (h : m < 2 ^ 64) :
    InRange (signed negative m) ↔ (negative = true → m ≤ 2 ^ 63) := by
  cases negative <;> simp only [InRange, signed] <;> simp <;> omega

theorem fromMagnitude_ok {value : String} {negative : Bool} {m : Nat} {k : Number}
    (h : m < 2 ^ 64) : fromMagnitude value negative m = .ok k ↔
      InRange (signed negative m) ∧ intValue k = some (signed negative m) := by
  rw [inRange_signed h]
  unfold fromMagnitude
  cases negative with
  | true =>
    simp only [if_true, forall_const]
    by_cases hm : m ≤ 2 ^ 63
    · rw [if_pos hm, and_iff_right hm, Except.ok.injEq]
      constructor
      · rintro rfl
        exact intValue_negated hm
      · exact intValue_inj (intValue_negated hm)
    · rw [if_neg hm]
      exact iff_of_false (fun h => nomatch h) fun h => hm h.1
  | false =>
    simp only [Bool.false_eq_true, if_false, false_implies, true_and, Except.ok.injEq]
    constructor
    · rintro rfl
      exact intValue_posInt h
    · exact intValue_inj (intValue_posInt h)

theorem parseInteger_eq (value : String) : parseInteger value =
    match Radix.fromStrRadix (2 ^ 64) (split (clean value)).2.1 (split (clean value)).2.2 with
    | none => .error (.invalidInteger value)
    | some magnitude => fromMagnitude value (split (clean value)).1 magnitude := rfl

theorem lt_of_inRange {negative : Bool} {m : Nat} (h : InRange (signed negative m)) : m < 2 ^ 64 := by
  cases negative <;> simp only [InRange, signed] at h <;> simp at h <;> omega

/-- Every integer in range is some number. -/
theorem exists_number {n : Int} (h : InRange n) : ∃ k, intValue k = some n := by
  obtain ⟨hlow, hhigh⟩ := h
  rcases Int.le_total 0 n with hn | hn
  · refine ⟨.posInt (UInt64.ofNat n.toNat), ?_⟩
    rw [intValue_posInt (by omega), Int.toNat_of_nonneg hn]
  · refine ⟨negated n.natAbs, ?_⟩
    rw [intValue_negated (by omega), Int.ofNat_natAbs_of_nonpos hn, Int.neg_neg]

/-- The digits, and those with the sign of `from_str_radix`. -/
theorem fromStrRadix_split {cs : List Char} {m : Nat} :
    Radix.fromStrRadix (2 ^ 64) (split cs).2.1 (split cs).2.2 = some m ↔
      ∃ digits, ((split cs).2.2 = digits ∨ (split cs).2.2 = '+' :: digits) ∧
        Radix.IsDigits (split cs).2.1 digits ∧ m = Radix.value (split cs).2.1 0 digits ∧
        m < 2 ^ 64 := by
  obtain ⟨sign, lead, -, hlead, -⟩ := split_spec cs
  exact Radix.fromStrRadix_eq_some (Nat.two_pow_pos 64) (isLead_radix hlead).1

theorem parseInteger_ok {value : String} {k : Number} : parseInteger value = .ok k ↔
    ∃ n, (Spells (clean value) n ∨ SpellsWithPlus (clean value) n) ∧ intValue k = some n := by
  rw [parseInteger_eq]
  generalize clean value = cs
  constructor
  · intro h
    cases hm : Radix.fromStrRadix (2 ^ 64) (split cs).2.1 (split cs).2.2 with
    | none =>
      rw [hm] at h
      cases h
    | some m =>
      rw [hm] at h
      obtain ⟨digits, hcs, hdigits, rfl, hlt⟩ := fromStrRadix_split.mp hm
      obtain ⟨hrange, hk⟩ := (fromMagnitude_ok hlt).mp h
      refine ⟨_, ?_, hk⟩
      rcases hcs with hcs | hcs
      · exact .inl (spells_iff.mpr ⟨hcs ▸ hdigits, by rw [hcs], hrange⟩)
      · exact .inr (spellsWithPlus_iff.mpr ⟨digits, hcs, hdigits, rfl, hrange⟩)
  · rintro ⟨n, h, hk⟩
    have hread : ∃ m, Radix.fromStrRadix (2 ^ 64) (split cs).2.1 (split cs).2.2 = some m ∧
        n = signed (split cs).1 m ∧ InRange n := by
      rcases h with h | h
      · obtain ⟨hdigits, rfl, hrange⟩ := spells_iff.mp h
        exact ⟨_, fromStrRadix_split.mpr ⟨_, .inl rfl, hdigits, rfl, lt_of_inRange hrange⟩, rfl,
          hrange⟩
      · obtain ⟨digits, hcs, hdigits, rfl, hrange⟩ := spellsWithPlus_iff.mp h
        exact ⟨_, fromStrRadix_split.mpr ⟨_, .inr hcs, hdigits, rfl, lt_of_inRange hrange⟩, rfl,
          hrange⟩
    obtain ⟨m, hm, rfl, hrange⟩ := hread
    rw [hm]
    exact (fromMagnitude_ok (lt_of_inRange hrange)).mpr ⟨hrange, hk⟩

/-- The integers are read exactly, and nothing else is, unless a '+' stands between the sign or the
    radix and the digits. -/
theorem parseInteger_iff (value : String) :
    ReadsExactly value ↔ ¬∃ n, SpellsWithPlus (clean value) n := by
  constructor
  · rintro h ⟨n, hn⟩
    have hrange : InRange n := by
      obtain ⟨_, _, _, _, _, _, _, _, _, _, _, hrange⟩ := hn
      exact hrange
    obtain ⟨k, hk⟩ := exists_number hrange
    obtain ⟨m, hm, -⟩ := (h k).mp (parseInteger_ok.mpr ⟨n, .inr hn, hk⟩)
    exact not_spells_of_plus hn hm
  · intro h k
    rw [parseInteger_ok]
    constructor
    · rintro ⟨n, hn | hn, hk⟩
      · exact ⟨n, hn, hk⟩
      · exact absurd ⟨n, hn⟩ h
    · rintro ⟨n, hn, hk⟩
      exact ⟨n, .inl hn, hk⟩

/-- Two signs are read as one. -/
theorem not_readsExactly_plusPlus : looksLikeInteger "++5" = true ∧
    parseInteger "++5" = .ok (.posInt 5) ∧ ¬ReadsExactly "++5" := by
  refine ⟨by decide, by decide, fun h => ?_⟩
  obtain ⟨n, hn, -⟩ := (h (.posInt 5)).mp (by decide)
  refine not_spells_of_plus (n := 5) ?_ hn
  exact ⟨false, ['+'], 10, [], ['5'], .inr rfl, .inl ⟨rfl, rfl⟩, .inl (by decide), by decide,
    ⟨by decide, List.forall_mem_singleton.mpr (by decide)⟩, by decide, by decide, by decide⟩

end Oikade.Yaml
