/-
  JSON trees and JSON values.

  A tree (`Json`) is what a text says: an object lists its members as they stand, a key may occur
  more than once. A value (`Json.Value`) is what a reader makes of it: an object is a map, kept as a
  list sorted by its keys. A reader has to choose among the members of one key (`Policy`); the
  choice shows only where a key is repeated.

  * `Json.tree_induction`: induction over trees, a hypothesis for each item and each member.
  * `SortedMap`: insertion into a sorted list of pairs.
  * `RepeatsKey`: some object at some depth has a key twice.
  * `Denotes t v`: `v` has the structure, the members and the scalars of `t`.
  * `Value.toJson` writes a value as a tree, and `read_toJson` reads it back.
-/
import Mathlib.Data.String.Basic
import Mathlib.Data.List.Sort
import Oikade.Lib.Float64

/-! ## Maps as sorted lists -/

namespace SortedMap

variable {κ β : Type} [LinearOrder κ]

def keys (m : List (κ × β)) : List κ := m.map Prod.fst

/-- Keys ascend, so none is repeated. -/
def Sorted (m : List (κ × β)) : Prop := (keys m).Pairwise (· < ·)

def insert (k : κ) (v : β) : List (κ × β) → List (κ × β)
  | [] => [(k, v)]
  | (k', v') :: m =>
    if k < k' then (k, v) :: (k', v') :: m
    else if k = k' then (k, v) :: m
    else (k', v') :: insert k v m

theorem mem_keys_insert {k k' : κ} {v : β} {m : List (κ × β)} :
    k' ∈ keys (insert k v m) ↔ k' = k ∨ k' ∈ keys m := by
  induction m with
  | nil => simp [insert, keys]
  | cons p m ih =>
    simp only [insert, keys] at ih ⊢
    split
    · simp
    · split
      · rename_i heq
        simp [heq]
      · rw [List.map_cons, List.mem_cons, ih, List.map_cons, List.mem_cons]
        tauto

theorem sorted_insert {k : κ} {v : β} {m : List (κ × β)} (h : Sorted m) : Sorted (insert k v m) := by
  induction m with
  | nil => simp [insert, Sorted, keys]
  | cons p m ih =>
    obtain ⟨hlt, htail⟩ := List.pairwise_cons.mp h
    simp only [insert]
    split
    · rename_i hk
      refine List.pairwise_cons.mpr ⟨?_, h⟩
      intro k' hk'
      obtain rfl | hk' := List.mem_cons.mp hk'
      · exact hk
      · exact lt_trans hk (hlt k' hk')
    · split
      · rename_i heq
        exact List.pairwise_cons.mpr ⟨by simpa [heq] using hlt, htail⟩
      · rename_i hle hne
        refine List.pairwise_cons.mpr ⟨?_, ih htail⟩
        intro k' hk'
        obtain rfl | hk' := mem_keys_insert.mp hk'
        · exact lt_of_le_of_ne (not_lt.mp hle) (Ne.symm hne)
        · exact hlt k' hk'

theorem mem_insert_of_not_mem {k : κ} {v : β} {m : List (κ × β)} (h : k ∉ keys m) {p : κ × β} :
    p ∈ insert k v m ↔ p = (k, v) ∨ p ∈ m := by
  induction m with
  | nil => simp [insert]
  | cons q m ih =>
    simp only [keys, List.map_cons, List.mem_cons, not_or] at h
    simp only [insert]
    split
    · simp
    · rw [if_neg h.1, List.mem_cons, ih h.2, List.mem_cons]
      tauto

theorem length_insert_of_not_mem {k : κ} {v : β} {m : List (κ × β)} (h : k ∉ keys m) :
    (insert k v m).length = m.length + 1 := by
  induction m with
  | nil => rfl
  | cons q m ih =>
    simp only [keys, List.map_cons, List.mem_cons, not_or] at h
    simp only [insert]
    split
    · rfl
    · rw [if_neg h.1, List.length_cons, ih h.2, List.length_cons]

/-- A key above all others goes to the end. -/
theorem insert_of_forall_lt {k : κ} {v : β} {m : List (κ × β)} (h : ∀ k' ∈ keys m, k' < k) :
    insert k v m = m ++ [(k, v)] := by
  induction m with
  | nil => rfl
  | cons q m ih =>
    have hq : q.1 < k := h q.1 (by simp [keys])
    rw [insert, if_neg (not_lt_of_gt hq), if_neg (ne_of_gt hq), List.cons_append,
      ih fun k' hk' => h k' (List.mem_cons_of_mem _ hk')]

end SortedMap

/-! ## Trees -/

/-- A number: an integer that fits, or a finite float. -/
inductive Json.Number where
  | posInt (n : UInt64)
  | negInt (n : Int64) (negative : n < 0)
  | float (x : Float64) (finite : x.isFinite = true)
  deriving DecidableEq

inductive Json where
  | null
  | bool (b : Bool)
  | number (n : Json.Number)
  | string (s : String)
  | array (items : List Json)
  | object (members : List (String × Json))

namespace Json

inductive Value where
  | null
  | bool (b : Bool)
  | number (n : Number)
  | string (s : String)
  | array (items : List Value)
  /-- sorted by keys -/
  | object (members : List (String × Value))

theorem tree_induction {P : Json → Prop} (null : P .null) (bool : ∀ b, P (.bool b))
    (number : ∀ n, P (.number n)) (string : ∀ s, P (.string s))
    (array : ∀ items, (∀ t ∈ items, P t) → P (.array items))
    (object : ∀ members, (∀ m ∈ members, P m.2) → P (.object members)) (t : Json) : P t := by
  refine @Json.rec P (fun items => ∀ t ∈ items, P t) (fun members => ∀ m ∈ members, P m.2)
    (fun m => P m.2)
    null bool number string array object ?_ ?_ ?_ ?_ ?_ t
  · intro t ht
    cases ht
  · intro t items ht hitems
    exact List.forall_mem_cons.mpr ⟨ht, hitems⟩
  · intro m hm
    cases hm
  · intro m members hm hmembers
    exact List.forall_mem_cons.mpr ⟨hm, hmembers⟩
  · intro k t ht
    exact ht

theorem value_induction {P : Value → Prop} (null : P .null) (bool : ∀ b, P (.bool b))
    (number : ∀ n, P (.number n)) (string : ∀ s, P (.string s))
    (array : ∀ items, (∀ v ∈ items, P v) → P (.array items))
    (object : ∀ members, (∀ m ∈ members, P m.2) → P (.object members)) (v : Value) : P v := by
  refine @Value.rec P (fun items => ∀ v ∈ items, P v) (fun members => ∀ m ∈ members, P m.2)
    (fun m => P m.2)
    null bool number string array object ?_ ?_ ?_ ?_ ?_ v
  · intro v hv
    cases hv
  · intro v items hv hitems
    exact List.forall_mem_cons.mpr ⟨hv, hitems⟩
  · intro m hm
    cases hm
  · intro m members hm hmembers
    exact List.forall_mem_cons.mpr ⟨hm, hmembers⟩
  · intro k v hv
    exact hv

/-- Some object at some depth repeats a key. -/
inductive RepeatsKey : Json → Prop where
  | here {members : List (String × Json)} (h : ¬ (members.map Prod.fst).Nodup) :
    RepeatsKey (.object members)
  | item {items : List Json} {t : Json} (ht : t ∈ items) (h : RepeatsKey t) :
    RepeatsKey (.array items)
  | member {members : List (String × Json)} {m : String × Json} (hm : m ∈ members)
    (h : RepeatsKey m.2) : RepeatsKey (.object members)

theorem repeatsKey_array {items : List Json} :
    RepeatsKey (.array items) ↔ ∃ t ∈ items, RepeatsKey t := by
  constructor
  · intro h
    cases h with
    | item ht h => exact ⟨_, ht, h⟩
  · rintro ⟨t, ht, h⟩
    exact .item ht h

theorem repeatsKey_object {members : List (String × Json)} :
    RepeatsKey (.object members) ↔
      ¬ (members.map Prod.fst).Nodup ∨ ∃ m ∈ members, RepeatsKey m.2 := by
  constructor
  · intro h
    cases h with
    | here h => exact .inl h
    | member hm h => exact .inr ⟨_, hm, h⟩
  · rintro (h | ⟨m, hm, h⟩)
    · exact .here h
    · exact .member hm h

/-! ## Readers -/

/-- Which of several members of one key counts. -/
inductive Policy where
  | first
  | last
  deriving DecidableEq, Repr

def Policy.put (p : Policy) (k : String) (v : Value) (m : List (String × Value)) :
    List (String × Value) :=
  match p with
  | .first => if k ∈ SortedMap.keys m then m else SortedMap.insert k v m
  | .last => SortedMap.insert k v m

mutual

def read (p : Policy) : Json → Value
  | .null => .null
  | .bool b => .bool b
  | .number n => .number n
  | .string s => .string s
  | .array items => .array (readItems p items)
  | .object members => .object (readMembers p [] members)

def readItems (p : Policy) : List Json → List Value
  | [] => []
  | t :: ts => read p t :: readItems p ts

def readMembers (p : Policy) (m : List (String × Value)) : List (String × Json) → List (String × Value)
  | [] => m
  | (k, t) :: ts => readMembers p (p.put k (read p t) m) ts

end

theorem Policy.put_of_not_mem (p : Policy) {k : String} {v : Value} {m : List (String × Value)}
    (h : k ∉ SortedMap.keys m) : p.put k v m = SortedMap.insert k v m := by
  cases p with
  | first => exact if_neg h
  | last => rfl

mutual

/-- The value has the structure of the tree, its scalars, and as many members in an object, among
    them each member of the tree. -/
def Denotes : Json → Value → Prop
  | .null, .null => True
  | .bool b, .bool c => b = c
  | .number n, .number m => n = m
  | .string s, .string t => s = t
  | .array items, .array values => ItemsDenote items values
  | .object members, .object values => SortedMap.Sorted values ∧ values.length = members.length ∧
      MembersDenote members values
  | _, _ => False

def ItemsDenote : List Json → List Value → Prop
  | [], [] => True
  | t :: ts, v :: vs => Denotes t v ∧ ItemsDenote ts vs
  | _, _ => False

def MembersDenote : List (String × Json) → List (String × Value) → Prop
  | [], _ => True
  | (k, t) :: ts, values => (∃ v, (k, v) ∈ values ∧ Denotes t v) ∧ MembersDenote ts values

end

/-! ## Values as trees -/

mutual

/-- The tree of a value, in the order of the keys. -/
def Value.toJson : Value → Json
  | .null => .null
  | .bool b => .bool b
  | .number n => .number n
  | .string s => .string s
  | .array items => .array (itemsToJson items)
  | .object members => .object (membersToJson members)

def itemsToJson : List Value → List Json
  | [] => []
  | v :: vs => v.toJson :: itemsToJson vs

def membersToJson : List (String × Value) → List (String × Json)
  | [] => []
  | (k, v) :: vs => (k, v.toJson) :: membersToJson vs

end

mutual

/-- The objects at every depth are sorted. -/
def Value.Ok : Value → Prop
  | .array items => ItemsOk items
  | .object members => SortedMap.Sorted members ∧ MembersOk members
  | _ => True

def ItemsOk : List Value → Prop
  | [] => True
  | v :: vs => v.Ok ∧ ItemsOk vs

def MembersOk : List (String × Value) → Prop
  | [] => True
  | (_, v) :: vs => v.Ok ∧ MembersOk vs

end

theorem itemsOk_iff {items : List Value} : ItemsOk items ↔ ∀ v ∈ items, v.Ok := by
  induction items with
  | nil => simp [ItemsOk]
  | cons v vs ih => simp [ItemsOk, ih]

theorem membersOk_iff {members : List (String × Value)} :
    MembersOk members ↔ ∀ m ∈ members, m.2.Ok := by
  induction members with
  | nil => simp [MembersOk]
  | cons m ms ih => simp [MembersOk, ih]

theorem readItems_itemsToJson {p : Policy} {items : List Value}
    (h : ∀ v ∈ items, v.toJson.read p = v) : readItems p (itemsToJson items) = items := by
  induction items with
  | nil => rfl
  | cons v vs ih =>
    rw [List.forall_mem_cons] at h
    rw [itemsToJson, readItems, h.1, ih h.2]

/-- Members are read in ascending order: each goes to the end of the map. -/
theorem readMembers_membersToJson {p : Policy} {members m : List (String × Value)}
    (h : ∀ w ∈ members, w.2.toJson.read p = w.2) (hs : SortedMap.Sorted (m ++ members)) :
    readMembers p m (membersToJson members) = m ++ members := by
  induction members generalizing m with
  | nil => simp [membersToJson, readMembers]
  | cons w ws ih =>
    obtain ⟨k, v⟩ := w
    rw [List.forall_mem_cons] at h
    have hlt : ∀ k' ∈ SortedMap.keys m, k' < k := by
      intro k' hk'
      have hp := hs
      rw [SortedMap.Sorted, SortedMap.keys, List.map_append, List.pairwise_append] at hp
      exact hp.2.2 k' hk' k (by simp)
    have hnot : k ∉ SortedMap.keys m := fun hk => lt_irrefl k (hlt k hk)
    have hput : p.put k (v.toJson.read p) m = m ++ [(k, v)] := by
      rw [h.1, p.put_of_not_mem hnot, SortedMap.insert_of_forall_lt hlt]
    have hs' : SortedMap.Sorted ((m ++ [(k, v)]) ++ ws) := by
      rwa [List.append_assoc]
    rw [membersToJson, readMembers, hput, ih h.2 hs', List.append_assoc]
    rfl

/-- Every reader reads a value back from its tree. -/
theorem read_toJson (p : Policy) (v : Value) (h : v.Ok) : v.toJson.read p = v := by
  induction v using value_induction with
  | null | bool b | number n | string s => rfl
  | array items ih =>
    have hok := itemsOk_iff.mp h
    rw [Value.toJson, read, readItems_itemsToJson fun v hv => ih v hv (hok v hv)]
  | object members ih =>
    have hok := membersOk_iff.mp h.2
    have hread : readMembers p [] (membersToJson members) = [] ++ members :=
      readMembers_membersToJson (fun w hw => ih w hw (hok w hw)) h.1
    rw [Value.toJson, read, hread, List.nil_append]

end Json
