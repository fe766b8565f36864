/-
  Buckets of the runtime store (`oikade-storage/src/store.rs`).

  A bucket is a namespace and a path of scopes. Its keys live in the table of the namespace under
  one byte string each: the number of scopes, then the scopes and the key, each with its length in
  front. A table is a map from byte strings to byte strings, and a call is one transaction on it
  (redb); failures of redb are left out.

  * `decodeKey_encodeKey`: the encoding is read back, so no two locations share a byte string.
  * `lastValue`: what was set last at a location and not deleted since, from the calls alone.
  * `buckets_refine`: after any calls every bucket answers from `lastValue`.
-/
import Std.Data.ExtTreeMap
import Mathlib.Data.String.Basic
import Mathlib.Data.List.Induction

namespace Oikade.Storage

abbrev Bytes := List UInt8

inductive Namespace where
  | devices
  | plugins
  | discovery
  deriving DecidableEq, Repr

inductive StorageError where
  /-- "invalid storage name: .." -/
  | invalidName (reason : String)
  /-- "storage key was not found" -/
  | notFound
  /-- "ambiguous runtime state: .." -/
  | ambiguousState (reason : String)
  deriving DecidableEq, Repr

/-! ## Keys -/

/-- `str::as_bytes` -/
def utf8 (s : String) : Bytes := s.toByteArray.data.toList

/-- `String::from_utf8` -/
def fromUtf8 (b : Bytes) : Option String := String.fromUTF8? ⟨b.toArray⟩

def validateName (name : String) : Except StorageError Unit :=
  if name.isEmpty then .error (.invalidName "name is empty")
  else if name.toList.any fun c => c = '/' || c = '\\' || c = '\x00' then
    .error (.invalidName "name contains a path separator or NUL byte")
  else .ok ()

/-- `u32::to_be_bytes` -/
def toBeBytes (n : Nat) : Bytes :=
  [UInt8.ofNat (n / 2 ^ 24), UInt8.ofNat (n / 2 ^ 16), UInt8.ofNat (n / 2 ^ 8), UInt8.ofNat n]

def pushLength (target : Bytes) (value : Nat) : Except StorageError Bytes :=
  if value < 2 ^ 32 then .ok (target ++ toBeBytes value)
  else .error (.invalidName "name is too large")

def pushBytes (target value : Bytes) : Except StorageError Bytes :=
  match pushLength target value.length with
  | .error e => .error e
  | .ok target => .ok (target ++ value)

def pushScopes (target : Bytes) : List String → Except StorageError Bytes
  | [] => .ok target
  | scope :: scopes =>
    match pushBytes target (utf8 scope) with
    | .error e => .error e
    | .ok target => pushScopes target scopes

def encodeKey (scopes : List String) (key : String) : Except StorageError Bytes :=
  match pushLength [] scopes.length with
  | .error e => .error e
  | .ok encoded =>
    match pushScopes encoded scopes with
    | .error e => .error e
    | .ok encoded => pushBytes encoded (utf8 key)

def takeLength : Bytes → Except StorageError (Nat × Bytes)
  | a :: b :: c :: d :: remaining =>
    .ok (((a.toNat * 256 + b.toNat) * 256 + c.toNat) * 256 + d.toNat, remaining)
  | _ => .error (.ambiguousState "database key has a truncated length")

def takeString (encoded : Bytes) : Except StorageError (String × Bytes) :=
  match takeLength encoded with
  | .error e => .error e
  | .ok (length, encoded) =>
    if encoded.length < length then .error (.ambiguousState "database key is truncated")
    else match fromUtf8 (encoded.take length) with
      | none => .error (.ambiguousState "database key is not valid UTF-8")
      | some s => .ok (s, encoded.drop length)

/-- The loop of `decode_key` over the scopes. -/
def takeScopes : Nat → Bytes → Except StorageError (List String × Bytes)
  | 0, encoded => .ok ([], encoded)
  | n + 1, encoded =>
    match takeString encoded with
    | .error e => .error e
    | .ok (scope, encoded) =>
      match takeScopes n encoded with
      | .error e => .error e
      | .ok (scopes, encoded) => .ok (scope :: scopes, encoded)

def decodeKey (encoded : Bytes) : Except StorageError (List String × String) :=
  match takeLength encoded with
  | .error e => .error e
  | .ok (scopeCount, encoded) =>
    match takeScopes scopeCount encoded with
    | .error e => .error e
    | .ok (scopes, encoded) =>
      match takeString encoded with
      | .error e => .error e
      | .ok (key, encoded) =>
        if encoded.isEmpty then .ok (scopes, key)
        else .error (.ambiguousState "database key has trailing bytes")

/-! ## Buckets -/

abbrev Table := Std.ExtTreeMap Bytes Bytes

/-- The tables, one for each namespace (`table_for`). -/
abbrev Database := Namespace → Table

/-- The tables of an initialised database. -/
def Database.init : Database := fun _ => ∅

/-- A bucket, made by `bucket` and `scope`. -/
structure Bucket where
  ns : Namespace
  scopes : List String
  valid : ∀ s ∈ scopes, validateName s = .ok ()

/-- `Storage::bucket` -/
def bucket (ns : Namespace) : Bucket := ⟨ns, [], by simp⟩

namespace Bucket

def scope (b : Bucket) (name : String) : Except StorageError Bucket :=
  match h : validateName name with
  | .error e => .error e
  | .ok () => .ok ⟨b.ns, b.scopes ++ [name], by
      intro s hs
      obtain hs | hs := List.mem_append.mp hs
      · exact b.valid s hs
      · rw [List.mem_singleton.mp hs, h]⟩

/-- The checks of a key and its byte string. -/
def encoded (b : Bucket) (key : String) : Except StorageError Bytes :=
  match validateName key with
  | .error e => .error e
  | .ok () => encodeKey b.scopes key

def set (b : Bucket) (key : String) (value : Bytes) (db : Database) :
    Except StorageError Unit × Database :=
  match b.encoded key with
  | .error e => (.error e, db)
  | .ok encoded => (.ok (), Function.update db b.ns ((db b.ns).insert encoded value))

def get (b : Bucket) (key : String) (db : Database) : Except StorageError Bytes :=
  match b.encoded key with
  | .error e => .error e
  | .ok encoded =>
    match (db b.ns)[encoded]? with
    | none => .error .notFound
    | some value => .ok value

/-- A key that is absent: the transaction is not committed. -/
def delete (b : Bucket) (key : String) (db : Database) : Except StorageError Unit × Database :=
  match b.encoded key with
  | .error e => (.error e, db)
  | .ok encoded =>
    match (db b.ns)[encoded]? with
    | none => (.error .notFound, db)
    | some _ => (.ok (), Function.update db b.ns ((db b.ns).erase encoded))

/-- The loop of `keys_with_suffix` over the keys of the table. -/
def collect (scopes : List String) (suffix : String) (keys : List String) :
    List Bytes → Except StorageError (List String)
  | [] => .ok keys
  | encoded :: rest =>
    match decodeKey encoded with
    | .error e => .error e
    | .ok (s, name) =>
      collect scopes suffix
        (if s = scopes ∧ suffix.toList <:+ name.toList then keys ++ [name] else keys) rest

def keysWithSuffix (b : Bucket) (suffix : String) (db : Database) :
    Except StorageError (List String) :=
  match collect b.scopes suffix [] (db b.ns).keys with
  | .error e => .error e
  | .ok keys => .ok (keys.mergeSort fun a b => decide (a ≤ b))

end Bucket

/-! ## The encoding is read back -/

theorem fromUtf8_utf8 (s : String) : fromUtf8 (utf8 s) = some s := by
  unfold fromUtf8 utf8
  rw [Array.toArray_toList]
  simp [String.fromUTF8?, s.isValidUTF8, String.fromUTF8]

theorem takeLength_toBeBytes {n : Nat} (h : n < 2 ^ 32) (rest : Bytes) :
    takeLength (toBeBytes n ++ rest) = .ok (n, rest) := by
  simp only [toBeBytes, List.cons_append, List.nil_append, takeLength, Except.ok.injEq,
    Prod.mk.injEq, and_true, UInt8.toNat_ofNat']
  omega

/-- A byte string with its length in front. -/
def framed (value : Bytes) : Bytes := toBeBytes value.length ++ value

def framedScopes (scopes : List String) : Bytes := scopes.flatMap fun s => framed (utf8 s)

theorem pushLength_ok_iff {target encoded : Bytes} {n : Nat} :
    pushLength target n = .ok encoded ↔ n < 2 ^ 32 ∧ encoded = target ++ toBeBytes n := by
  unfold pushLength
  by_cases hn : n < 2 ^ 32
  · rw [if_pos hn, Except.ok.injEq, eq_comm, and_iff_right hn]
  · rw [if_neg hn]
    exact iff_of_false (fun h => nomatch h) fun h => hn h.1

theorem pushBytes_ok_iff {target value encoded : Bytes} : pushBytes target value = .ok encoded ↔
    value.length < 2 ^ 32 ∧ encoded = target ++ framed value := by
  unfold pushBytes
  cases hl : pushLength target value.length with
  | error e =>
    have hno : ¬ value.length < 2 ^ 32 := fun hlt => by
      rw [pushLength_ok_iff.mpr ⟨hlt, rfl⟩] at hl
      cases hl
    exact iff_of_false (fun h => nomatch h) fun h => hno h.1
  | ok t =>
    obtain ⟨hlt, rfl⟩ := pushLength_ok_iff.mp hl
    simp only [Except.ok.injEq, hlt, true_and, framed, List.append_assoc, eq_comm]

theorem pushScopes_ok_iff {target encoded : Bytes} {scopes : List String} :
    pushScopes target scopes = .ok encoded ↔
      (∀ s ∈ scopes, (utf8 s).length < 2 ^ 32) ∧ encoded = target ++ framedScopes scopes := by
  induction scopes generalizing target with
  | nil => simp [pushScopes, framedScopes, eq_comm]
  | cons s scopes ih =>
    simp only [pushScopes, List.forall_mem_cons]
    cases hp : pushBytes target (utf8 s) with
    | error e =>
      have hno : ¬ (utf8 s).length < 2 ^ 32 := fun hlt => by
        rw [pushBytes_ok_iff.mpr ⟨hlt, rfl⟩] at hp
        cases hp
      exact iff_of_false (fun h => nomatch h) fun h => hno h.1.1
    | ok t =>
      obtain ⟨hlt, rfl⟩ := pushBytes_ok_iff.mp hp
      simp only [ih, hlt, true_and, framedScopes, List.flatMap_cons, List.append_assoc]

/-- Lengths that fit into four bytes. -/
def Fits (scopes : List String) (key : String) : Prop :=
  scopes.length < 2 ^ 32 ∧ (∀ s ∈ scopes, (utf8 s).length < 2 ^ 32) ∧ (utf8 key).length < 2 ^ 32

theorem encodeKey_ok_iff {scopes : List String} {key : String} {encoded : Bytes} :
    encodeKey scopes key = .ok encoded ↔ Fits scopes key ∧
      encoded = toBeBytes scopes.length ++ (framedScopes scopes ++ framed (utf8 key)) := by
  unfold encodeKey Fits
  cases hl : pushLength [] scopes.length with
  | error e =>
    have hno : ¬ scopes.length < 2 ^ 32 := fun hlt => by
      rw [pushLength_ok_iff.mpr ⟨hlt, rfl⟩] at hl
      cases hl
    exact iff_of_false (fun h => nomatch h) fun h => hno h.1.1
  | ok t =>
    obtain ⟨hlt, rfl⟩ := pushLength_ok_iff.mp hl
    simp only [List.nil_append, hlt, true_and]
    cases hs : pushScopes (toBeBytes scopes.length) scopes with
    | error e =>
      have hno : ¬ ∀ s ∈ scopes, (utf8 s).length < 2 ^ 32 := fun hall => by
        rw [pushScopes_ok_iff.mpr ⟨hall, rfl⟩] at hs
        cases hs
      exact iff_of_false (fun h => nomatch h) fun h => hno h.1.1
    | ok t =>
      obtain ⟨hall, rfl⟩ := pushScopes_ok_iff.mp hs
      rw [pushBytes_ok_iff, List.append_assoc]
      exact ⟨fun h => ⟨⟨hall, h.1⟩, h.2⟩, fun h => ⟨h.1.2, h.2⟩⟩

theorem takeString_framed {s : String} (h : (utf8 s).length < 2 ^ 32) (rest : Bytes) :
    takeString (framed (utf8 s) ++ rest) = .ok (s, rest) := by
  have hle : ¬ (utf8 s ++ rest).length < (utf8 s).length := by
    rw [List.length_append]
    omega
  simp only [takeString, framed, List.append_assoc, takeLength_toBeBytes h, if_neg hle,
    List.take_left, fromUtf8_utf8, List.drop_left]

theorem takeScopes_framed {scopes : List String} (h : ∀ s ∈ scopes, (utf8 s).length < 2 ^ 32)
    (rest : Bytes) :
    takeScopes scopes.length (framedScopes scopes ++ rest) = .ok (scopes, rest) := by
  induction scopes with
  | nil => rfl
  | cons s scopes ih =>
    rw [List.forall_mem_cons] at h
    have hhead := takeString_framed h.1 (framedScopes scopes ++ rest)
    simp only [framedScopes, List.flatMap_cons, List.append_assoc, List.length_cons, takeScopes]
      at hhead ⊢
    simp only [hhead]
    have htail := ih h.2
    simp only [framedScopes] at htail
    simp only [htail]

/-- A byte string made by `encode_key` is read back by `decode_key`. -/
theorem decodeKey_encodeKey {scopes : List String} {key : String} {encoded : Bytes}
    (h : encodeKey scopes key = .ok encoded) : decodeKey encoded = .ok (scopes, key) := by
  obtain ⟨⟨hcount, hscopes, hkey⟩, rfl⟩ := encodeKey_ok_iff.mp h
  have htail := takeString_framed hkey []
  rw [List.append_nil] at htail
  simp only [decodeKey, takeLength_toBeBytes hcount, takeScopes_framed hscopes, htail,
    List.isEmpty_nil, if_true]

/-- Two locations of a table do not share a byte string. -/
theorem encodeKey_inj {scopes scopes' : List String} {key key' : String} {encoded : Bytes}
    (h : encodeKey scopes key = .ok encoded) (h' : encodeKey scopes' key' = .ok encoded) :
    scopes = scopes' ∧ key = key' := by
  have heq := (decodeKey_encodeKey h).symm.trans (decodeKey_encodeKey h')
  simpa using heq

/-- Names of one path that concatenate to those of another. -/
example : encodeKey ["a", "bc"] "d" ≠ encodeKey ["ab", "c"] "d" := by decide

/-! ## Exactly the encodings are read -/

theorem utf8_of_fromUtf8 {b : Bytes} {s : String} (h : fromUtf8 b = some s) : utf8 s = b := by
  unfold fromUtf8 String.fromUTF8? at h
  split at h
  · rw [Option.some.injEq] at h
    subst h
    simp [utf8, String.fromUTF8]
  · cases h

/-- What `take_length` takes are the four bytes of a length. -/
theorem takeLength_ok {b rest : Bytes} {n : Nat} (h : takeLength b = .ok (n, rest)) :
    n < 2 ^ 32 ∧ b = toBeBytes n ++ rest := by
  match b, h with
  | w :: x :: y :: z :: remaining, h =>
    simp only [takeLength, Except.ok.injEq, Prod.mk.injEq] at h
    obtain ⟨rfl, rfl⟩ := h
    have hw := w.toNat_lt
    have hx := x.toNat_lt
    have hy := y.toNat_lt
    have hz := z.toNat_lt
    refine ⟨by omega, ?_⟩
    simp only [toBeBytes, List.cons_append, List.nil_append, List.cons.injEq, and_true, ← UInt8.toNat_inj,
      UInt8.toNat_ofNat']
    omega

theorem takeString_ok {b rest : Bytes} {s : String} (h : takeString b = .ok (s, rest)) :
    (utf8 s).length < 2 ^ 32 ∧ b = framed (utf8 s) ++ rest := by
  unfold takeString at h
  cases hl : takeLength b with
  | error e => simp [hl] at h
  | ok p =>
    obtain ⟨n, encoded⟩ := p
    obtain ⟨hn, rfl⟩ := takeLength_ok hl
    simp only [hl] at h
    by_cases hlen : encoded.length < n
    · simp [hlen] at h
    · rw [if_neg hlen] at h
      cases hu : fromUtf8 (encoded.take n) with
      | none => simp [hu] at h
      | some s' =>
        simp only [hu, Except.ok.injEq, Prod.mk.injEq] at h
        obtain ⟨rfl, rfl⟩ := h
        have hs := utf8_of_fromUtf8 hu
        have hlength : (utf8 s').length = n := by
          rw [hs, List.length_take]
          omega
        refine ⟨hlength ▸ hn, ?_⟩
        rw [framed, hlength, List.append_assoc, hs, List.take_append_drop]

theorem takeScopes_ok {n : Nat} {b rest : Bytes} {scopes : List String}
    (h : takeScopes n b = .ok (scopes, rest)) :
    scopes.length = n ∧ (∀ s ∈ scopes, (utf8 s).length < 2 ^ 32) ∧ b = framedScopes scopes ++ rest := by
  induction n generalizing b scopes with
  | zero =>
    simp only [takeScopes, Except.ok.injEq, Prod.mk.injEq] at h
    obtain ⟨rfl, rfl⟩ := h
    exact ⟨rfl, by simp, by simp [framedScopes]⟩
  | succ n ih =>
    simp only [takeScopes] at h
    cases hs : takeString b with
    | error e => simp [hs] at h
    | ok p =>
      obtain ⟨scope, encoded⟩ := p
      simp only [hs] at h
      cases ht : takeScopes n encoded with
      | error e => simp [ht] at h
      | ok q =>
        obtain ⟨tail, encoded'⟩ := q
        simp only [ht, Except.ok.injEq, Prod.mk.injEq] at h
        obtain ⟨rfl, rfl⟩ := h
        obtain ⟨hlen, rfl⟩ := takeString_ok hs
        obtain ⟨hcount, hall, rfl⟩ := ih ht
        refine ⟨by rw [List.length_cons, hcount], List.forall_mem_cons.mpr ⟨hlen, hall⟩, ?_⟩
        simp [framedScopes]

theorem decodeKey_ok {b : Bytes} {scopes : List String} {key : String}
    (h : decodeKey b = .ok (scopes, key)) : encodeKey scopes key = .ok b := by
  unfold decodeKey at h
  cases hl : takeLength b with
  | error e => simp [hl] at h
  | ok p =>
    obtain ⟨n, encoded⟩ := p
    simp only [hl] at h
    cases hs : takeScopes n encoded with
    | error e => simp [hs] at h
    | ok q =>
      obtain ⟨scopes', encoded'⟩ := q
      simp only [hs] at h
      cases hk : takeString encoded' with
      | error e => simp [hk] at h
      | ok r =>
        obtain ⟨key', rest⟩ := r
        simp only [hk] at h
        by_cases hrest : rest.isEmpty = true
        · rw [if_pos hrest, Except.ok.injEq, Prod.mk.injEq] at h
          obtain ⟨rfl, rfl⟩ := h
          obtain ⟨hn, rfl⟩ := takeLength_ok hl
          obtain ⟨rfl, hall, rfl⟩ := takeScopes_ok hs
          obtain ⟨hkey, rfl⟩ := takeString_ok hk
          refine encodeKey_ok_iff.mpr ⟨⟨hn, hall, hkey⟩, ?_⟩
          rw [List.isEmpty_iff.mp hrest, List.append_nil]
        · simp [hrest] at h

/-- An encoding with more bytes behind it is refused. -/
theorem decodeKey_append {b : Bytes} {scopes : List String} {key : String}
    (h : encodeKey scopes key = .ok b) {rest : Bytes} (hrest : rest ≠ []) :
    decodeKey (b ++ rest) = .error (.ambiguousState "database key has trailing bytes") := by
  obtain ⟨⟨hcount, hscopes, hkey⟩, rfl⟩ := encodeKey_ok_iff.mp h
  have hne : rest.isEmpty = false := by simpa using hrest
  simp only [decodeKey, List.append_assoc, takeLength_toBeBytes hcount, takeScopes_framed hscopes,
    takeString_framed hkey, hne, Bool.false_eq_true, if_false]

/-- The key codec: what fits is encoded and read back, `decode_key` accepts the encodings and
    nothing else, no two locations have the same one, and no encoding is accepted when bytes of it
    are missing at the end or stand behind it. -/
theorem decodeKey_iff_encodeKey :
    (∀ scopes key, Fits scopes key →
      ∃ b, encodeKey scopes key = .ok b ∧ decodeKey b = .ok (scopes, key)) ∧
    (∀ b scopes key, decodeKey b = .ok (scopes, key) ↔ encodeKey scopes key = .ok b) ∧
    (∀ b scopes key scopes' key', encodeKey scopes key = .ok b → encodeKey scopes' key' = .ok b →
      scopes = scopes' ∧ key = key') ∧
    (∀ b, (∀ scopes key, encodeKey scopes key ≠ .ok b) → ∃ e, decodeKey b = .error e) ∧
    (∀ b rest scopes key, encodeKey scopes key = .ok (b ++ rest) → rest ≠ [] →
      ∃ e, decodeKey b = .error e) ∧
    ∀ b rest scopes key, encodeKey scopes key = .ok b → rest ≠ [] →
      ∃ e, decodeKey (b ++ rest) = .error e := by
  refine ⟨?_, fun b scopes key => ⟨decodeKey_ok, decodeKey_encodeKey⟩,
    fun b scopes key scopes' key' => encodeKey_inj, ?_, ?_, ?_⟩
  · intro scopes key hfits
    have hb := encodeKey_ok_iff.mpr ⟨hfits, rfl⟩
    exact ⟨_, hb, decodeKey_encodeKey hb⟩
  · intro b hno
    cases hd : decodeKey b with
    | error e => exact ⟨e, rfl⟩
    | ok p => exact absurd (decodeKey_ok hd) (hno p.1 p.2)
  · intro b rest scopes key h hrest
    cases hd : decodeKey b with
    | error e => exact ⟨e, rfl⟩
    | ok p =>
      -- then `b` is an encoding itself, and `b ++ rest` one with bytes behind it
      have hread := decodeKey_encodeKey h
      rw [decodeKey_append (decodeKey_ok hd) hrest] at hread
      cases hread
  · intro b rest scopes key h hrest
    exact ⟨_, decodeKey_append h hrest⟩

/-! ## Locations and what was set there last -/

structure Location where
  ns : Namespace
  scopes : List String
  key : String
  deriving DecidableEq

def Bucket.location (b : Bucket) (key : String) : Location := ⟨b.ns, b.scopes, key⟩

/-- The key and the scopes can be stored: `validate_name` accepts the key, and the number of scopes,
    each scope and the key have lengths of four bytes (`admits_iff`). -/
def Bucket.Admits (b : Bucket) (key : String) : Prop := ∃ encoded, b.encoded key = .ok encoded

instance (b : Bucket) (key : String) : Decidable (b.Admits key) :=
  match h : b.encoded key with
  | .ok encoded => isTrue ⟨encoded, h⟩
  | .error e => isFalse fun ⟨encoded, he⟩ => by rw [h] at he; cases he

inductive Op where
  | set (b : Bucket) (key : String) (value : Bytes)
  | get (b : Bucket) (key : String)
  | delete (b : Bucket) (key : String)
  | keysWithSuffix (b : Bucket) (suffix : String)

def Op.apply (db : Database) : Op → Database
  | .set b key value => (b.set key value db).2
  | .get _ _ => db
  | .delete b key => (b.delete key db).2
  | .keysWithSuffix _ _ => db

/-- The database after some calls. -/
def after (ops : List Op) : Database := ops.foldl Op.apply Database.init

/-- What a call makes of the value at a location. -/
def Op.touch (l : Location) (value : Option Bytes) : Op → Option Bytes
  | .set b key v => if b.location key = l ∧ b.Admits key then some v else value
  | .delete b key => if b.location key = l ∧ b.Admits key then none else value
  | .get _ _ | .keysWithSuffix _ _ => value

/-- The value set last at a location, none if it has been deleted since. -/
def lastValue (ops : List Op) (l : Location) : Option Bytes := ops.foldl (Op.touch l) none

theorem after_snoc (ops : List Op) (op : Op) : after (ops ++ [op]) = op.apply (after ops) := by
  simp [after]

theorem lastValue_snoc (ops : List Op) (op : Op) (l : Location) :
    lastValue (ops ++ [op]) l = op.touch l (lastValue ops l) := by
  simp [lastValue]

/-! ## The tables hold the last values -/

/-- A location whose key and scopes can be stored has the value `m` says it has, and every byte
    string of a table is that of a location. -/
structure Holds (db : Database) (m : Location → Option Bytes) : Prop where
  value : ∀ (b : Bucket) key encoded, b.encoded key = .ok encoded →
    (db b.ns)[encoded]? = m (b.location key)
  stored : ∀ ns encoded, encoded ∈ db ns → ∃ (b : Bucket) (key : String),
    b.ns = ns ∧ b.encoded key = .ok encoded

theorem getElem?_table_insert (t : Table) (a b : Bytes) (v : Bytes) :
    (t.insert a v)[b]? = if a = b then some v else t[b]? := by
  rw [Std.ExtTreeMap.getElem?_insert]
  simp only [Std.compare_eq_iff_eq]

theorem getElem?_table_erase (t : Table) (a b : Bytes) :
    (t.erase a)[b]? = if a = b then none else t[b]? := by
  rw [Std.ExtTreeMap.getElem?_erase]
  simp only [Std.compare_eq_iff_eq]

theorem encoded_ok {b : Bucket} {key : String} {encoded : Bytes} (h : b.encoded key = .ok encoded) :
    validateName key = .ok () ∧ encodeKey b.scopes key = .ok encoded := by
  unfold Bucket.encoded at h
  cases hv : validateName key with
  | error e => simp [hv] at h
  | ok u => exact ⟨rfl, by simpa [hv] using h⟩

theorem admits_iff {b : Bucket} {key : String} :
    b.Admits key ↔ validateName key = .ok () ∧ Fits b.scopes key := by
  constructor
  · rintro ⟨encoded, h⟩
    exact ⟨(encoded_ok h).1, (encodeKey_ok_iff.mp (encoded_ok h).2).1⟩
  · rintro ⟨hv, hfits⟩
    obtain ⟨encoded, he⟩ : ∃ encoded, encodeKey b.scopes key = .ok encoded :=
      ⟨_, encodeKey_ok_iff.mpr ⟨hfits, rfl⟩⟩
    exact ⟨encoded, by rw [Bucket.encoded, hv]; exact he⟩

theorem location_eq_iff {b b' : Bucket} {key key' : String} {encoded encoded' : Bytes}
    (h : b.encoded key = .ok encoded) (h' : b'.encoded key' = .ok encoded') (hns : b.ns = b'.ns) :
    b.location key = b'.location key' ↔ encoded = encoded' := by
  have he := (encoded_ok h).2
  have he' := (encoded_ok h').2
  simp only [Bucket.location, Location.mk.injEq, hns, true_and]
  constructor
  · rintro ⟨hs, rfl⟩
    rw [hs, he', Except.ok.injEq] at he
    exact he.symm
  · rintro rfl
    exact encodeKey_inj he he'

theorem holds_init : Holds Database.init fun _ => none where
  value b key encoded _ := by simp [Database.init]
  stored ns encoded h := by simp [Database.init] at h

/-- A call that changes one entry of one table. -/
theorem holds_update {db : Database} {m m' : Location → Option Bytes} (hs : Holds db m) {b : Bucket}
    {key : String} {encoded : Bytes} (h : b.encoded key = .ok encoded) {t : Table} {v : Option Bytes}
    (ht : ∀ a, t[a]? = if encoded = a then v else (db b.ns)[a]?)
    (hm : ∀ l, m' l = if b.location key = l then v else m l) :
    Holds (Function.update db b.ns t) m' where
  value b' key' encoded' h' := by
    rw [hm]
    by_cases hns : b'.ns = b.ns
    · rw [hns, Function.update_self, ht]
      simp only [location_eq_iff h h' hns.symm]
      by_cases he : encoded = encoded'
      · simp [he]
      · rw [if_neg he, if_neg he, ← hns, hs.value b' key' encoded' h']
    · have hne : b.location key ≠ b'.location key' := fun hl => hns (congrArg Location.ns hl).symm
      rw [Function.update_of_ne hns, if_neg hne, hs.value b' key' encoded' h']
  stored ns a ha := by
    by_cases hns : ns = b.ns
    · subst hns
      rw [Function.update_self] at ha
      by_cases he : encoded = a
      · subst he
        exact ⟨b, key, rfl, h⟩
      · have hget := ht a
        rw [if_neg he] at hget
        refine hs.stored b.ns a ?_
        rw [← Std.ExtTreeMap.isSome_getElem?_iff_mem, ← hget, Std.ExtTreeMap.isSome_getElem?_iff_mem]
        exact ha
    · rw [Function.update_of_ne hns] at ha
      exact hs.stored ns a ha

theorem not_admits {b : Bucket} {key : String} {e : StorageError} (h : b.encoded key = .error e) :
    ¬ b.Admits key := by
  rintro ⟨encoded, he⟩
  rw [h] at he
  cases he

theorem holds_apply {db : Database} {m : Location → Option Bytes} (hs : Holds db m) (op : Op) :
    Holds (op.apply db) fun l => op.touch l (m l) := by
  cases op with
  | get b key => exact hs
  | keysWithSuffix b suffix => exact hs
  | set b key value =>
    simp only [Op.apply, Op.touch, Bucket.set]
    cases ha : b.encoded key with
    | error e => simpa only [not_admits ha, and_false, if_false] using hs
    | ok encoded =>
      refine holds_update hs ha (fun a => getElem?_table_insert _ _ _ _) fun l => ?_
      simp only [show b.Admits key from ⟨encoded, ha⟩, and_true]
  | delete b key =>
    simp only [Op.apply, Op.touch, Bucket.delete]
    cases ha : b.encoded key with
    | error e => simpa only [not_admits ha, and_false, if_false] using hs
    | ok encoded =>
      simp only [show b.Admits key from ⟨encoded, ha⟩, and_true]
      have hvalue := hs.value b key encoded ha
      cases hget : (db b.ns)[encoded]? with
      | none =>
        -- Nothing is deleted, and there was nothing.
        refine ⟨fun b' key' encoded' h' => ?_, hs.stored⟩
        by_cases hl : b.location key = b'.location key'
        · rw [if_pos hl, hs.value b' key' encoded' h', ← hl, ← hvalue, hget]
        · rw [if_neg hl, hs.value b' key' encoded' h']
      | some v =>
        exact holds_update hs ha (fun a => getElem?_table_erase _ _ _) fun l => rfl

theorem holds_after (ops : List Op) : Holds (after ops) (lastValue ops) := by
  induction ops using List.reverseRecOn with
  | nil => exact holds_init
  | append_singleton ops op ih =>
    rw [after_snoc]
    have h := holds_apply ih op
    simpa only [← lastValue_snoc] using h

/-! ## Listing -/

/-- The name that the loop takes from a byte string. -/
def pick (scopes : List String) (suffix : String) (encoded : Bytes) : Option String :=
  match decodeKey encoded with
  | .error _ => none
  | .ok (s, name) => if s = scopes ∧ suffix.toList <:+ name.toList then some name else none

theorem pick_eq_some {scopes : List String} {suffix name : String} {encoded : Bytes} :
    pick scopes suffix encoded = some name ↔
      decodeKey encoded = .ok (scopes, name) ∧ suffix.toList <:+ name.toList := by
  unfold pick
  cases hd : decodeKey encoded with
  | error e => simp
  | ok l =>
    obtain ⟨s, n⟩ := l
    by_cases hc : s = scopes ∧ suffix.toList <:+ n.toList
    · simp only [if_pos hc, Option.some.injEq, Except.ok.injEq, Prod.mk.injEq]
      constructor
      · rintro rfl
        exact ⟨⟨hc.1, rfl⟩, hc.2⟩
      · rintro ⟨⟨-, rfl⟩, -⟩
        rfl
    · simp only [if_neg hc, reduceCtorEq, Except.ok.injEq, Prod.mk.injEq, false_iff]
      rintro ⟨⟨hs, rfl⟩, hn⟩
      exact hc ⟨hs, hn⟩

theorem collect_eq {scopes : List String} {suffix : String} {keys : List String}
    {table : List Bytes} (h : ∀ encoded ∈ table, ∃ l, decodeKey encoded = .ok l) :
    Bucket.collect scopes suffix keys table =
      .ok (keys ++ table.filterMap (pick scopes suffix)) := by
  induction table generalizing keys with
  | nil => simp [Bucket.collect]
  | cons encoded table ih =>
    rw [List.forall_mem_cons] at h
    obtain ⟨⟨⟨s, name⟩, hd⟩, htail⟩ := h
    simp only [Bucket.collect, hd, ih htail, List.filterMap_cons, pick]
    by_cases hc : s = scopes ∧ suffix.toList <:+ name.toList
    · simp [hc]
    · simp [if_neg hc]

/-- A byte string of a table that is read as a key of the bucket is the key's own. -/
theorem encoded_of_decodeKey {db : Database} {m : Location → Option Bytes} (hs : Holds db m)
    {b : Bucket} {encoded : Bytes} {key : String} (hmem : encoded ∈ db b.ns)
    (hd : decodeKey encoded = .ok (b.scopes, key)) : b.encoded key = .ok encoded := by
  obtain ⟨b', key', hns, ha⟩ := hs.stored b.ns encoded hmem
  obtain ⟨hv, he⟩ := encoded_ok ha
  have heq := (decodeKey_encodeKey he).symm.trans hd
  simp only [Except.ok.injEq, Prod.mk.injEq] at heq
  obtain ⟨hscopes, rfl⟩ := heq
  rw [hscopes] at he
  rw [Bucket.encoded, hv]
  exact he

theorem mem_filterMap_pick {db : Database} {m : Location → Option Bytes} (hs : Holds db m)
    (b : Bucket) (suffix name : String) :
    name ∈ (db b.ns).keys.filterMap (pick b.scopes suffix) ↔
      b.Admits name ∧ (m (b.location name)).isSome = true ∧ suffix.toList <:+ name.toList := by
  rw [List.mem_filterMap]
  constructor
  · rintro ⟨encoded, hmem, hp⟩
    obtain ⟨hd, hsuf⟩ := pick_eq_some.mp hp
    have hmem' := Std.ExtTreeMap.mem_keys.mp hmem
    have ha := encoded_of_decodeKey hs hmem' hd
    refine ⟨⟨encoded, ha⟩, ?_, hsuf⟩
    rw [← hs.value b name encoded ha, Std.ExtTreeMap.isSome_getElem?_iff_mem]
    exact hmem'
  · rintro ⟨⟨encoded, ha⟩, hsome, hsuf⟩
    refine ⟨encoded, ?_, pick_eq_some.mpr ⟨decodeKey_encodeKey (encoded_ok ha).2, hsuf⟩⟩
    rw [Std.ExtTreeMap.mem_keys, ← Std.ExtTreeMap.isSome_getElem?_iff_mem,
      hs.value b name encoded ha]
    exact hsome

/-- Each key is picked once: its byte string is its own. -/
theorem nodup_filterMap_pick {db : Database} {m : Location → Option Bytes} (hs : Holds db m)
    (b : Bucket) (suffix : String) :
    ((db b.ns).keys.filterMap (pick b.scopes suffix)).Nodup := by
  have hkeys : (db b.ns).keys.Pairwise (· ≠ ·) := by
    refine (Std.ExtTreeMap.distinct_keys (t := db b.ns)).imp fun hne he => hne ?_
    subst he
    exact Std.compare_self
  rw [List.Nodup, List.pairwise_filterMap]
  refine hkeys.imp_of_mem fun {e e'} he he' hne name hname name' hname' heq => hne ?_
  subst heq
  have ha := encoded_of_decodeKey hs (Std.ExtTreeMap.mem_keys.mp he) (pick_eq_some.mp hname).1
  have ha' := encoded_of_decodeKey hs (Std.ExtTreeMap.mem_keys.mp he') (pick_eq_some.mp hname').1
  rw [ha, Except.ok.injEq] at ha'
  exact ha'

theorem sorted_mergeSort {l : List String} (h : l.Nodup) :
    (l.mergeSort fun a b => decide (a ≤ b)).Pairwise (· < ·) := by
  have hle := @List.pairwise_mergeSort String (fun a b => decide (a ≤ b))
    (fun a b c hab hbc => by
      rw [decide_eq_true_eq] at *
      exact le_trans hab hbc)
    (fun a b => by
      rw [Bool.or_eq_true, decide_eq_true_eq, decide_eq_true_eq]
      exact le_total a b) l
  have hnd : (l.mergeSort fun a b => decide (a ≤ b)).Pairwise (· ≠ ·) :=
    (List.mergeSort_perm l _).nodup_iff.mpr h
  exact (hle.and hnd).imp fun ⟨hab, hne⟩ => lt_of_le_of_ne (decide_eq_true_eq.mp hab) hne

/-- A listing is the keys of the bucket that end with the suffix, in order and each once. -/
theorem keysWithSuffix_eq {db : Database} {m : Location → Option Bytes} (hs : Holds db m)
    (b : Bucket) (suffix : String) :
    ∃ keys, b.keysWithSuffix suffix db = .ok keys ∧ keys.Pairwise (· < ·) ∧
      ∀ name, name ∈ keys ↔
        b.Admits name ∧ (m (b.location name)).isSome = true ∧ suffix.toList <:+ name.toList := by
  have hall : ∀ encoded ∈ (db b.ns).keys, ∃ l, decodeKey encoded = .ok l := by
    intro encoded he
    obtain ⟨b', key, -, ha⟩ := hs.stored b.ns encoded (Std.ExtTreeMap.mem_keys.mp he)
    exact ⟨_, decodeKey_encodeKey (encoded_ok ha).2⟩
  have hcollect : Bucket.collect b.scopes suffix [] (db b.ns).keys =
      .ok ([] ++ (db b.ns).keys.filterMap (pick b.scopes suffix)) := collect_eq hall
  rw [List.nil_append] at hcollect
  refine ⟨((db b.ns).keys.filterMap (pick b.scopes suffix)).mergeSort fun a b => decide (a ≤ b),
    by simp only [Bucket.keysWithSuffix, hcollect], ?_, fun name => ?_⟩
  · exact sorted_mergeSort (nodup_filterMap_pick hs b suffix)
  · rw [(List.mergeSort_perm _ _).mem_iff]
    exact mem_filterMap_pick hs b suffix name

/-! ## Every bucket answers from the last values -/

/-- What was set is at a location that can be stored. -/
theorem admits_of_lastValue {ops : List Op} {b : Bucket} {key : String}
    (h : (lastValue ops (b.location key)).isSome = true) : b.Admits key := by
  induction ops using List.reverseRecOn with
  | nil => simp [lastValue] at h
  | append_singleton ops op ih =>
    rw [lastValue_snoc] at h
    cases op with
    | get b' key' => exact ih h
    | keysWithSuffix b' suffix => exact ih h
    | set b' key' value =>
      simp only [Op.touch] at h
      by_cases hc : b'.location key' = b.location key ∧ b'.Admits key'
      · obtain ⟨hl, encoded, ha⟩ := hc
        simp only [Bucket.location, Location.mk.injEq] at hl
        obtain ⟨-, hscopes, rfl⟩ := hl
        refine ⟨encoded, ?_⟩
        rw [Bucket.encoded, ← hscopes]
        exact ha
      · rw [if_neg hc] at h
        exact ih h
    | delete b' key' =>
      simp only [Op.touch] at h
      by_cases hc : b'.location key' = b.location key ∧ b'.Admits key'
      · rw [if_pos hc] at h
        cases h
      · rw [if_neg hc] at h
        exact ih h

/-- After any calls: a bucket answers `get` with the last value at its location, `delete` of an
    absent key changes nothing, a name that cannot be stored is refused without effect, and a
    listing is the present keys of the bucket that end with the suffix. -/
theorem buckets_refine (ops : List Op) (b : Bucket) (key : String) :
    (∀ e, b.encoded key = .error e → b.get key (after ops) = .error e ∧
      b.delete key (after ops) = (.error e, after ops) ∧
      ∀ v, b.set key v (after ops) = (.error e, after ops)) ∧
    (b.Admits key →
      b.get key (after ops) = (match lastValue ops (b.location key) with
        | some v => .ok v
        | none => .error .notFound) ∧
      (∀ v, (b.set key v (after ops)).1 = .ok ()) ∧
      (lastValue ops (b.location key) = none →
        b.delete key (after ops) = (.error .notFound, after ops)) ∧
      (∀ v, lastValue ops (b.location key) = some v → (b.delete key (after ops)).1 = .ok ())) ∧
    ∀ suffix, ∃ keys, b.keysWithSuffix suffix (after ops) = .ok keys ∧ keys.Pairwise (· < ·) ∧
      ∀ name, name ∈ keys ↔
        (lastValue ops (b.location name)).isSome = true ∧ suffix.toList <:+ name.toList := by
  have hs := holds_after ops
  refine ⟨fun e he => ?_, ?_, fun suffix => ?_⟩
  · simp [Bucket.get, Bucket.delete, Bucket.set, he]
  · rintro ⟨encoded, ha⟩
    have hvalue := hs.value b key encoded ha
    simp only [Bucket.get, Bucket.set, Bucket.delete, ha, hvalue]
    refine ⟨?_, fun _ => trivial, fun hnone => ?_, fun v hv => ?_⟩
    · cases lastValue ops (b.location key) <;> rfl
    · rw [hnone]
    · rw [hv]
  · obtain ⟨keys, hkeys, hsorted, hmem⟩ := keysWithSuffix_eq hs b suffix
    refine ⟨keys, hkeys, hsorted, fun name => ?_⟩
    rw [hmem name]
    exact ⟨fun h => h.2, fun h => ⟨admits_of_lastValue h.1, h⟩⟩

/-- The bucket of the instance `matter` in the namespace of the plugins. -/
def matterBucket : Bucket := ⟨.plugins, ["matter"], by decide⟩

/-- A key that is admitted is set and read back, and listed. -/
theorem buckets_refine_matter :
    matterBucket.Admits "fabric.json" ∧
      matterBucket.get "fabric.json" (after [.set matterBucket "fabric.json" [1, 2]]) =
        .ok [1, 2] ∧
      ∃ keys, matterBucket.keysWithSuffix ".json"
        (after [.set matterBucket "fabric.json" [1, 2]]) = .ok keys ∧ "fabric.json" ∈ keys := by
  have hadmits : matterBucket.Admits "fabric.json" :=
    admits_iff.mpr ⟨by decide, by unfold Fits; decide⟩
  have hlast : lastValue [.set matterBucket "fabric.json" [1, 2]]
      (matterBucket.location "fabric.json") = some [1, 2] := by
    simp [lastValue, Op.touch, hadmits]
  obtain ⟨-, hget, hlist⟩ :=
    buckets_refine [.set matterBucket "fabric.json" [1, 2]] matterBucket "fabric.json"
  obtain ⟨keys, hkeys, -, hmem⟩ := hlist ".json"
  refine ⟨hadmits, by rw [(hget hadmits).1, hlast], keys, hkeys, (hmem _).mpr ⟨?_, ?_⟩⟩
  · rw [hlast]
    rfl
  · decide

end Oikade.Storage
