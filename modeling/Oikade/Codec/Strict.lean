/-
  `StrictValue` of the adapter codec (`oikade-adapter-api/src/codec.rs`): a JSON value without
  repeated object keys.

  `visit` is the visitor over the tree that the JSON parser walks through, with the loops of
  `visit_seq` and `visit_map` and what they accumulate. It fails exactly where a key is repeated
  (`visit_error_iff`), and what it returns is what every reader makes of the tree (`visit_ok`).
-/
import Oikade.Lib.Json

namespace Oikade.Codec

open Json (Value Number Policy RepeatsKey)

namespace Strict

inductive Error where
  /-- "non-finite JSON number" -/
  | nonFinite
  /-- "duplicate object key .." -/
  | duplicateKey (key : String)
  deriving DecidableEq, Repr

def visitU64 (n : UInt64) : Except Error Value := .ok (.number (.posInt n))

/-- `Number::from` distinguishes the signs. -/
def visitI64 (n : Int64) : Except Error Value :=
  if h : n < 0 then .ok (.number (.negInt n h)) else .ok (.number (.posInt n.toUInt64))

def visitF64 (x : Float64) : Except Error Value :=
  if h : x.isFinite = true then .ok (.number (.float x h)) else .error .nonFinite

/-- The parser calls the method for the number it has read. -/
def visitNumber : Number → Except Error Value
  | .posInt n => visitU64 n
  | .negInt n _ => visitI64 n
  | .float x _ => visitF64 x

mutual

/-- `StrictValue::deserialize`. -/
def visit : Json → Except Error Value
  | .null => .ok .null
  | .bool b => .ok (.bool b)
  | .number n => visitNumber n
  | .string s => .ok (.string s)
  | .array items =>
    match visitSeq [] items with
    | .error e => .error e
    | .ok values => .ok (.array values)
  | .object members =>
    match visitMap [] [] members with
    | .error e => .error e
    | .ok values => .ok (.object values)

/-- The loop of `visit_seq`, with the values so far. -/
def visitSeq (values : List Value) : List Json → Except Error (List Value)
  | [] => .ok values
  | t :: ts =>
    match visit t with
    | .error e => .error e
    | .ok v => visitSeq (values ++ [v]) ts

/-- The loop of `visit_map`, with the keys and the map so far. -/
def visitMap (keys : List String) (values : List (String × Value)) :
    List (String × Json) → Except Error (List (String × Value))
  | [] => .ok values
  | (key, t) :: ts =>
    if key ∈ keys then .error (.duplicateKey key)
    else
      match visit t with
      | .error e => .error e
      | .ok v => visitMap (key :: keys) (SortedMap.insert key v values) ts

end

/-! ## What is accepted -/

theorem visitNumber_eq (n : Number) : visitNumber n = .ok (.number n) := by
  cases n with
  | posInt n => rfl
  | negInt n h => simp [visitNumber, visitI64, h]
  | float x h => simp [visitNumber, visitF64, h]

theorem visitSeq_ok {items : List Json} {values vs : List Value}
    (h : visitSeq values items = .ok vs) :
    ∃ ws, vs = values ++ ws ∧ List.Forall₂ (fun t w => visit t = .ok w) items ws := by
  induction items generalizing values with
  | nil =>
    simp only [visitSeq, Except.ok.injEq] at h
    exact ⟨[], by simp [h], .nil⟩
  | cons t ts ih =>
    simp only [visitSeq] at h
    cases ht : visit t with
    | error e => simp [ht] at h
    | ok v =>
      simp only [ht] at h
      obtain ⟨ws, hvs, hws⟩ := ih h
      exact ⟨v :: ws, by simp [hvs], .cons ht hws⟩

theorem visitSeq_error_iff {items : List Json} {values : List Value} :
    (∃ e, visitSeq values items = .error e) ↔ ∃ t ∈ items, ∃ e, visit t = .error e := by
  induction items generalizing values with
  | nil => simp [visitSeq]
  | cons t ts ih =>
    simp only [visitSeq, List.exists_mem_cons_iff]
    cases ht : visit t with
    | error e => simp
    | ok v => simp [ih]

/-- What the loop of `visit_map` keeps: the keys it remembers are those of the map. -/
structure Loop (keys : List String) (values : List (String × Value)) : Prop where
  keys : ∀ k, k ∈ keys ↔ k ∈ SortedMap.keys values
  sorted : SortedMap.Sorted values

theorem loop_nil : Loop [] [] := ⟨by simp [SortedMap.keys], by simp [SortedMap.Sorted, SortedMap.keys]⟩

theorem loop_insert {keys : List String} {values : List (String × Value)} (h : Loop keys values)
    (key : String) (v : Value) : Loop (key :: keys) (SortedMap.insert key v values) where
  keys k := by rw [List.mem_cons, SortedMap.mem_keys_insert, h.keys]
  sorted := SortedMap.sorted_insert h.sorted

theorem visitMap_error_iff {members : List (String × Json)} {keys : List String}
    {values : List (String × Value)} :
    (∃ e, visitMap keys values members = .error e) ↔
      ¬ (members.map Prod.fst).Nodup ∨ (∃ m ∈ members, m.1 ∈ keys) ∨
        ∃ m ∈ members, ∃ e, visit m.2 = .error e := by
  induction members generalizing keys values with
  | nil => simp [visitMap]
  | cons m ms ih =>
    obtain ⟨key, t⟩ := m
    simp only [visitMap, List.map_cons, List.nodup_cons, List.exists_mem_cons_iff]
    by_cases hkey : key ∈ keys
    · simp [hkey]
    · rw [if_neg hkey]
      cases ht : visit t with
      | error e => simp
      | ok v =>
        simp only [ih, List.mem_cons, hkey, false_or]
        constructor
        · rintro (h | ⟨m, hm, h | h⟩ | h)
          · exact .inl fun hn => h hn.2
          · exact .inl fun hn => hn.1 (List.mem_map.mpr ⟨m, hm, h⟩)
          · exact .inr (.inl ⟨m, hm, h⟩)
          · exact .inr (.inr (.inr h))
        · rintro (h | ⟨m, hm, h⟩ | h | h)
          · by_cases hn : (ms.map Prod.fst).Nodup
            · have hmem : key ∈ ms.map Prod.fst := by
                by_contra hno
                exact h ⟨hno, hn⟩
              obtain ⟨m, hm, hk⟩ := List.mem_map.mp hmem
              exact .inr (.inl ⟨m, hm, .inl hk⟩)
            · exact .inl hn
          · exact .inr (.inl ⟨m, hm, .inr h⟩)
          · obtain ⟨e, he⟩ := h
            cases he
          · exact .inr (.inr h)

/-- A tree is rejected exactly when some object in it repeats a key. -/
theorem visit_error_iff (t : Json) : (∃ e, visit t = .error e) ↔ RepeatsKey t := by
  induction t using Json.tree_induction with
  | null | bool b | string s =>
    constructor
    · rintro ⟨e, he⟩
      cases he
    · intro h
      cases h
  | number n =>
    constructor
    · rintro ⟨e, he⟩
      rw [visit, visitNumber_eq] at he
      cases he
    · intro h
      cases h
  | array items ih =>
    have hseq : (∃ e, visit (.array items) = .error e) ↔ ∃ e, visitSeq [] items = .error e := by
      rw [visit]
      cases visitSeq [] items <;> simp
    rw [hseq, visitSeq_error_iff, Json.repeatsKey_array]
    constructor
    · rintro ⟨t, ht, h⟩
      exact ⟨t, ht, (ih t ht).mp h⟩
    · rintro ⟨t, ht, h⟩
      exact ⟨t, ht, (ih t ht).mpr h⟩
  | object members ih =>
    have hmap : (∃ e, visit (.object members) = .error e) ↔
        ∃ e, visitMap [] [] members = .error e := by
      rw [visit]
      cases visitMap [] [] members <;> simp
    rw [hmap, visitMap_error_iff, Json.repeatsKey_object]
    constructor
    · rintro (h | ⟨m, -, hm⟩ | ⟨m, hm, h⟩)
      · exact .inl h
      · cases hm
      · exact .inr ⟨m, hm, (ih m hm).mp h⟩
    · rintro (h | ⟨m, hm, h⟩)
      · exact .inl h
      · exact .inr (.inr ⟨m, hm, (ih m hm).mpr h⟩)

/-! ## What is returned -/

/-- What the loop of `visit_map` adds to the map. -/
structure Adds (members : List (String × Json)) (values vs : List (String × Value)) : Prop where
  sorted : SortedMap.Sorted vs
  length : vs.length = values.length + members.length
  kept : ∀ w ∈ values, w ∈ vs
  added : ∀ m ∈ members, ∃ v, visit m.2 = .ok v ∧ (m.1, v) ∈ vs
  only : ∀ w ∈ vs, w ∈ values ∨ ∃ m ∈ members, m.1 = w.1 ∧ visit m.2 = .ok w.2

theorem visitMap_ok {members : List (String × Json)} {keys : List String}
    {values vs : List (String × Value)} (hl : Loop keys values)
    (h : visitMap keys values members = .ok vs) : Adds members values vs := by
  induction members generalizing keys values with
  | nil =>
    simp only [visitMap, Except.ok.injEq] at h
    subst h
    exact ⟨hl.sorted, rfl, fun _ hw => hw, by simp, fun _ hw => .inl hw⟩
  | cons m ms ih =>
    obtain ⟨key, t⟩ := m
    simp only [visitMap] at h
    by_cases hkey : key ∈ keys
    · simp [hkey] at h
    · rw [if_neg hkey] at h
      cases ht : visit t with
      | error e => simp [ht] at h
      | ok v =>
        simp only [ht] at h
        have hnew : key ∉ SortedMap.keys values := fun hk => hkey ((hl.keys key).mpr hk)
        have hmem := fun p => SortedMap.mem_insert_of_not_mem (v := v) hnew (p := p)
        have hadds := ih (loop_insert hl key v) h
        refine ⟨hadds.sorted, ?_, ?_, ?_, ?_⟩
        · have := hadds.length
          rw [SortedMap.length_insert_of_not_mem hnew] at this
          rw [List.length_cons]
          omega
        · intro w hw
          exact hadds.kept w ((hmem w).mpr (.inr hw))
        · refine List.forall_mem_cons.mpr ⟨⟨v, ht, ?_⟩, hadds.added⟩
          exact hadds.kept _ ((hmem _).mpr (.inl rfl))
        · intro w hw
          obtain hw | ⟨m, hm, hv⟩ := hadds.only w hw
          · obtain rfl | hw := (hmem w).mp hw
            · exact .inr ⟨_, List.mem_cons_self .., rfl, ht⟩
            · exact .inl hw
          · exact .inr ⟨m, List.mem_cons_of_mem _ hm, hv⟩

/-- A reader that agrees on the members builds the same map: no key is met twice. -/
theorem visitMap_read {p : Policy} {members : List (String × Json)} {keys : List String}
    {values vs : List (String × Value)} (hl : Loop keys values)
    (hread : ∀ m ∈ members, ∀ v, visit m.2 = .ok v → m.2.read p = v)
    (h : visitMap keys values members = .ok vs) : Json.readMembers p values members = vs := by
  induction members generalizing keys values with
  | nil =>
    simp only [visitMap, Except.ok.injEq] at h
    exact h
  | cons m ms ih =>
    obtain ⟨key, t⟩ := m
    rw [List.forall_mem_cons] at hread
    simp only [visitMap] at h
    by_cases hkey : key ∈ keys
    · simp [hkey] at h
    · rw [if_neg hkey] at h
      cases ht : visit t with
      | error e => simp [ht] at h
      | ok v =>
        simp only [ht] at h
        have hnew : key ∉ SortedMap.keys values := fun hk => hkey ((hl.keys key).mpr hk)
        rw [Json.readMembers, hread.1 v ht, p.put_of_not_mem hnew]
        exact ih (loop_insert hl key v) hread.2 h

/-- A value returned for a tree: sorted, of the structure of the tree, and what readers see. -/
structure Returned (t : Json) (v : Value) : Prop where
  ok : v.Ok
  denotes : Json.Denotes t v
  read : ∀ p, t.read p = v

theorem itemsDenote_of {items : List Json} {vs : List Value}
    (h : List.Forall₂ Json.Denotes items vs) : Json.ItemsDenote items vs := by
  induction h with
  | nil => trivial
  | cons ht _ ih => exact ⟨ht, ih⟩

theorem membersDenote_of {members : List (String × Json)} {vs : List (String × Value)}
    (h : ∀ m ∈ members, ∃ v, (m.1, v) ∈ vs ∧ Json.Denotes m.2 v) : Json.MembersDenote members vs := by
  induction members with
  | nil => trivial
  | cons m ms ih =>
    rw [List.forall_mem_cons] at h
    exact ⟨h.1, ih h.2⟩

theorem readItems_of {p : Policy} {items : List Json} {vs : List Value}
    (h : List.Forall₂ (fun t v => t.read p = v) items vs) : Json.readItems p items = vs := by
  induction h with
  | nil => rfl
  | cons ht _ ih => rw [Json.readItems, ht, ih]

theorem returned_array {items : List Json} {vs : List Value}
    (h : List.Forall₂ Returned items vs) : Returned (.array items) (.array vs) where
  ok := by
    have hok : ∀ v ∈ vs, v.Ok := by
      induction h with
      | nil => simp
      | cons ht _ ih => exact List.forall_mem_cons.mpr ⟨ht.ok, ih⟩
    exact Json.itemsOk_iff.mpr hok
  denotes := itemsDenote_of (h.imp fun _ _ ht => ht.denotes)
  read p := by rw [Json.read, readItems_of (h.imp fun _ _ ht => ht.read p)]

theorem returned_object {members : List (String × Json)} {vs : List (String × Value)}
    (ih : ∀ m ∈ members, ∀ v, visit m.2 = .ok v → Returned m.2 v)
    (h : visitMap [] [] members = .ok vs) : Returned (.object members) (.object vs) where
  ok := by
    refine ⟨(visitMap_ok loop_nil h).sorted, Json.membersOk_iff.mpr fun w hw => ?_⟩
    obtain hw | ⟨m, hm, -, hv⟩ := (visitMap_ok loop_nil h).only w hw
    · cases hw
    · exact (ih m hm w.2 hv).ok
  denotes := by
    have hadds := visitMap_ok loop_nil h
    refine ⟨hadds.sorted, by simpa using hadds.length, membersDenote_of fun m hm => ?_⟩
    obtain ⟨v, hv, hmem⟩ := hadds.added m hm
    exact ⟨v, hmem, (ih m hm v hv).denotes⟩
  read p := by
    rw [Json.read, visitMap_read loop_nil (fun m hm v hv => (ih m hm v hv).read p) h]

theorem visit_ok {t : Json} {v : Value} (h : visit t = .ok v) : Returned t v := by
  induction t using Json.tree_induction generalizing v with
  | null | bool b | string s =>
    cases h
    exact ⟨trivial, by simp [Json.Denotes], fun p => rfl⟩
  | number n =>
    rw [visit, visitNumber_eq, Except.ok.injEq] at h
    subst h
    exact ⟨trivial, by simp [Json.Denotes], fun p => rfl⟩
  | array items ih =>
    rw [visit] at h
    cases hs : visitSeq [] items with
    | error e => simp [hs] at h
    | ok vs =>
      simp only [hs, Except.ok.injEq] at h
      subst h
      obtain ⟨ws, rfl, hws⟩ := visitSeq_ok hs
      refine returned_array ?_
      clear hs
      induction hws with
      | nil => exact .nil
      | cons ht _ ihw =>
        rw [List.forall_mem_cons] at ih
        exact .cons (ih.1 ht) (ihw fun t ht => ih.2 t ht)
  | object members ih =>
    rw [visit] at h
    cases hm : visitMap [] [] members with
    | error e => simp [hm] at h
    | ok vs =>
      simp only [hm, Except.ok.injEq] at h
      subst h
      exact returned_object (fun m hm v hv => ih m hm hv) hm

end Strict

end Oikade.Codec
