/-
  Rust `str` methods on Lean strings: the Unicode white space that `char::is_whitespace` knows, and
  `str::trim`. A Lean `String` is a sequence of Unicode scalar values held as UTF-8, as a Rust one
  is; `str::len` is `String.utf8ByteSize`.
-/
import Mathlib.Data.List.TakeWhile

namespace Text

/-- `char::is_whitespace`: the code points with the property `White_Space`. -/
def isWhitespace (c : Char) : Bool :=
  let n := c.toNat
  (9 ≤ n && n ≤ 13) || n = 32 || n = 0x85 || n = 0xA0 || n = 0x1680 ||
    (0x2000 ≤ n && n ≤ 0x200A) || n = 0x2028 || n = 0x2029 || n = 0x202F || n = 0x205F || n = 0x3000

def trimChars (cs : List Char) : List Char :=
  ((cs.dropWhile isWhitespace).reverse.dropWhile isWhitespace).reverse

/-- `str::trim`. -/
def trim (s : String) : String := String.ofList (trimChars s.toList)

/-- `str::to_ascii_lowercase`. -/
def toAsciiLowercase (s : String) : String :=
  s.map fun c => if 'A' ≤ c ∧ c ≤ 'Z' then Char.ofNat (c.toNat + 32) else c

/-- `u8::is_ascii_digit`. -/
def isAsciiDigit (c : Char) : Bool := '0' ≤ c && c ≤ '9'

/-- The number that decimal digits spell. -/
def decimal (s : String) : Nat := s.toList.foldl (fun n c => n * 10 + (c.toNat - 48)) 0

/-- The text begins and ends with something other than white space, or is empty. -/
def edgesOk (cs : List Char) : Bool :=
  !cs.head?.any isWhitespace && !cs.getLast?.any isWhitespace

theorem edgesOk_iff {cs : List Char} : edgesOk cs = true ↔
    (∀ c, cs.head? = some c → isWhitespace c = false) ∧
      ∀ c, cs.getLast? = some c → isWhitespace c = false := by
  unfold edgesOk
  cases cs.head? <;> cases cs.getLast? <;> simp

theorem dropWhile_eq_self_iff_head {p : Char → Bool} {cs : List Char} :
    cs.dropWhile p = cs ↔ cs.head?.any p = false := by
  cases cs with
  | nil => simp
  | cons c cs =>
    rw [List.dropWhile_cons]
    by_cases h : p c = true
    · have hne : cs.dropWhile p ≠ c :: cs := fun e => by
        have hl := (List.dropWhile_suffix (l := cs) p).length_le
        rw [e, List.length_cons] at hl
        omega
      simp [h, hne]
    · simp [h]

/-- A text is its own trimmed form exactly when white space stands at neither end. -/
theorem trimChars_eq_self_iff (cs : List Char) : trimChars cs = cs ↔ edgesOk cs = true := by
  have hlen : ∀ l : List Char, (l.dropWhile isWhitespace).length ≤ l.length := fun l =>
    (List.dropWhile_suffix (l := l) isWhitespace).length_le
  constructor
  · intro h
    have h1 : cs.dropWhile isWhitespace = cs := by
      refine (List.dropWhile_suffix _).eq_of_length ?_
      have h2 := hlen (cs.dropWhile isWhitespace).reverse
      have h3 := congrArg List.length h
      simp only [trimChars, List.length_reverse] at h2 h3
      have := hlen cs
      omega
    have h2 : cs.reverse.dropWhile isWhitespace = cs.reverse := by
      have h3 := congrArg List.reverse h
      rwa [trimChars, h1, List.reverse_reverse] at h3
    rw [dropWhile_eq_self_iff_head] at h1 h2
    rw [List.head?_reverse] at h2
    simp [edgesOk, h1, h2]
  · intro h
    simp only [edgesOk, Bool.and_eq_true, Bool.not_eq_eq_eq_not, Bool.not_true] at h
    have h1 := dropWhile_eq_self_iff_head.mpr h.1
    have h2 := dropWhile_eq_self_iff_head.mpr (List.head?_reverse.symm ▸ h.2)
    rw [trimChars, h1, h2, List.reverse_reverse]

/-- A text is blank only if every character is white space. -/
theorem trim_isEmpty_of_mem {s : String} {c : Char} (hc : c ∈ s.toList)
    (h : isWhitespace c = false) : (trim s).isEmpty = false := by
  have hne : trimChars s.toList ≠ [] := by
    intro heq
    rw [trimChars, List.reverse_eq_nil_iff, List.dropWhile_eq_nil_iff] at heq
    have hall : ∀ d ∈ s.toList.dropWhile isWhitespace, isWhitespace d = true := fun d hd =>
      heq d (List.mem_reverse.mpr hd)
    rw [← List.takeWhile_append_dropWhile (p := isWhitespace) (l := s.toList), List.mem_append] at hc
    obtain hc | hc := hc
    · rw [List.mem_takeWhile_imp hc] at h
      cases h
    · rw [hall c hc] at h
      cases h
  rw [trim, Bool.eq_false_iff]
  intro hempty
  have := String.isEmpty_iff.mp hempty
  exact hne (String.ofList_eq_empty_iff.mp this)

theorem trim_eq_self_iff (s : String) : trim s = s ↔ edgesOk s.toList = true := by
  rw [← trimChars_eq_self_iff, trim, ← String.toList_inj, String.toList_ofList]

/-- For a literal: its characters are read off, not decoded. -/
theorem trim_of_ofList {s : String} {cs : List Char} (hs : s = String.ofList cs)
    (h : edgesOk cs = true) : trim s = s := by
  subst hs
  rw [trim_eq_self_iff, String.toList_ofList]
  exact h

theorem utf8ByteSize_ofList_cons (c : Char) (cs : List Char) :
    (String.ofList (c :: cs)).utf8ByteSize = c.utf8Size + (String.ofList cs).utf8ByteSize := by
  have happ : String.ofList (c :: cs) = String.singleton c ++ String.ofList cs := by
    rw [← String.toList_inj, String.toList_append, String.toList_singleton]
    simp
  rw [happ, String.utf8ByteSize_append, String.utf8ByteSize_singleton]

end Text
