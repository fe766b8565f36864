/-
  The configuration parser (`oikade-config/src/yaml.rs`) over the events of the YAML parser.

  The source walks through the events with an index that only grows; here a function takes the
  events that are left and returns what it leaves (`Consumed`), which is less. So every loop ends,
  also one whose end event never comes: at the end of the list a value is expected and is missing.

  `Tree` is what a document's events are the listing of (`Tree.events`). `parse_iff`: a list of
  events is accepted exactly if it begins with one document whose tree is in order, and the JSON
  value has the shape of that tree.
-/
import Oikade.Config.Scalar
import Oikade.Lib.Fallible

namespace Oikade.Yaml

open Json (Number Value)

/-! ## Events -/

/-- Where an event begins. -/
structure Span where
  line : Nat
  col : Nat
  deriving DecidableEq, Repr

inductive Event where
  | nothing
  | streamStart
  | streamEnd
  | documentStart (explicit : Bool)
  | documentEnd
  | alias (anchor : Nat)
  | scalar (value : String) (style : ScalarStyle) (anchor : Nat) (tag : Option Tag)
  | sequenceStart (anchor : Nat) (tag : Option Tag)
  | sequenceEnd
  | mappingStart (anchor : Nat) (tag : Option Tag)
  | mappingEnd
  deriving DecidableEq, Repr

abbrev Entry := Event × Span

inductive YamlError where
  /-- "decode YAML: unexpected end of event stream" -/
  | unexpectedEnd
  /-- "line .., column ..: .." -/
  | at (span : Span) (problem : Problem)
  /-- "YAML nesting exceeds 64 levels", behind the last event -/
  | nestingAtEnd
  /-- "YAML document is empty" -/
  | empty
  /-- "multiple YAML documents are not supported" -/
  | multiple
  deriving DecidableEq, Repr

def maxYamlDepth : Nat := 64

inductive Node where
  | null
  | bool (b : Bool)
  | number (n : Number)
  | string (s : String)
  | sequence (values : List Node)
  /-- sorted by keys -/
  | mapping (values : List (String × Node))

mutual

def Node.intoJson : Node → Value
  | .null => .null
  | .bool b => .bool b
  | .number n => .number n
  | .string s => .string s
  | .sequence values => .array (valuesIntoJson values)
  | .mapping values => .object (membersIntoJson values)

def valuesIntoJson : List Node → List Value
  | [] => []
  | n :: ns => n.intoJson :: valuesIntoJson ns

def membersIntoJson : List (String × Node) → List (String × Value)
  | [] => []
  | (k, n) :: ns => (k, n.intoJson) :: membersIntoJson ns

end

def Scalar.node : Scalar → Node
  | .null => .null
  | .bool b => .bool b
  | .number n => .number n
  | .string s => .string s

/-! ## The parser -/

/-- A result and the events that are left, fewer than before. -/
structure Consumed (α : Type) (events : List Entry) where
  value : α
  rest : List Entry
  shorter : rest.length < events.length

section Parser

-- `Tag::is_yaml_core_schema`
variable (core : Tag → Bool)

def validateMetadata (anchor : Nat) (tag : Option Tag) (span : Span) : Except YamlError Unit :=
  if anchor ≠ 0 then .error (.at span .anchor)
  else match tag with
    | some tag => if core tag then .ok () else .error (.at span (.customTag tag))
    | none => .ok ()

/-- `at` -/
def nestingError : List Entry → YamlError
  | (_, span) :: _ => .at span .nesting
  | [] => .nestingAtEnd

mutual

/-- `parse_node` -/
def parseNode (depth : Nat) (events : List Entry) : Except YamlError (Consumed Node events) :=
  if maxYamlDepth < depth then .error (nestingError events)
  else
    match events with
    | [] => .error .unexpectedEnd
    | (.alias _, span) :: _ => .error (.at span .anchor)
    | (.scalar value style anchor tag, span) :: tail => do
      validateMetadata core anchor tag span
      let resolved ← (scalar value style tag).mapError (.at span)
      pure ⟨resolved.node, tail, Nat.lt_succ_self _⟩
    | (.sequenceStart anchor tag, span) :: tail => do
      validateMetadata core anchor tag span
      let items ← parseItems (depth + 1) [] tail
      pure ⟨.sequence items.value, items.rest, Nat.lt_succ_of_lt items.shorter⟩
    | (.mappingStart anchor tag, span) :: tail => do
      validateMetadata core anchor tag span
      let entries ← parseEntries (depth + 1) span [] tail
      pure ⟨.mapping entries.value, entries.rest, Nat.lt_succ_of_lt entries.shorter⟩
    | (_, span) :: _ => .error (.at span .expectedValue)
termination_by (events.length, 0)

/-- The loop of a sequence, with the values so far. -/
def parseItems (depth : Nat) (values : List Node) (events : List Entry) :
    Except YamlError (Consumed (List Node) events) :=
  match events with
  | (.sequenceEnd, _) :: tail => .ok ⟨values, tail, Nat.lt_succ_self _⟩
  | events => do
    let item ← parseNode depth events
    let items ← parseItems depth (values ++ [item.value]) item.rest
    pure ⟨items.value, items.rest, items.shorter.trans item.shorter⟩
termination_by (events.length, 1)
decreasing_by
  · exact Prod.Lex.right _ Nat.zero_lt_one
  · exact Prod.Lex.left _ _ item.shorter

/-- The loop of a mapping, with the map so far. -/
def parseEntries (depth : Nat) (span : Span) (values : List (String × Node)) (events : List Entry) :
    Except YamlError (Consumed (List (String × Node)) events) :=
  match events with
  | (.mappingEnd, _) :: tail => .ok ⟨values, tail, Nat.lt_succ_self _⟩
  | events => do
    let keySpan := (events.head?.map Prod.snd).getD span
    let key ← parseNode depth events
    match key.value with
    | .string k =>
      let value ← parseNode depth key.rest
      if k ∈ SortedMap.keys values then throw (.at keySpan (.duplicateKey k))
      let entries ← parseEntries depth span (SortedMap.insert k value.value values) value.rest
      pure ⟨entries.value, entries.rest, entries.shorter.trans (value.shorter.trans key.shorter)⟩
    | _ => throw (.at keySpan .keyNotString)
termination_by (events.length, 1)
decreasing_by
  · exact Prod.Lex.right _ Nat.zero_lt_one
  · exact Prod.Lex.left _ _ key.shorter
  · exact Prod.Lex.left _ _ (value.shorter.trans key.shorter)

end

/-- `expect`: the next event has to be the one that is asked for. -/
def expect (p : Event → Bool) : (events : List Entry) → Except YamlError (Consumed Unit events)
  | [] => .error .unexpectedEnd
  | (event, span) :: tail =>
    if p event then .ok ⟨(), tail, Nat.lt_succ_self _⟩ else .error (.at span .unexpectedEvent)

def isDocumentStart : Event → Bool
  | .documentStart _ => true
  | _ => false

/-- One round of the loop over the documents. -/
def parseDocument (events : List Entry) : Except YamlError (Consumed Node events) := do
  let start ← expect isDocumentStart events
  let document ← parseNode core 0 start.rest
  let finish ← expect (· = .documentEnd) document.rest
  pure ⟨document.value, finish.rest,
    finish.shorter.trans (document.shorter.trans start.shorter)⟩

/-- The loop over the documents, with those so far. -/
def parseDocuments (documents : List Node) (events : List Entry) :
    Except YamlError (List Node) :=
  match events with
  | (.streamEnd, _) :: _ => .ok documents
  | events => do
    let document ← parseDocument core events
    parseDocuments (documents ++ [document.value]) document.rest
termination_by events.length
decreasing_by exact document.shorter

/-- What `parse` makes of the documents. -/
def onlyDocument : List Node → Except YamlError Node
  | [] => .error .empty
  | [.null] => .error .empty
  | [document] => .ok document
  | _ => .error .multiple

/-- `parse`, from the events on, and `into_json`. -/
def parse (events : List Entry) : Except YamlError Value := do
  let start ← expect (· = .streamStart) events
  let documents ← parseDocuments core [] start.rest
  let document ← onlyDocument documents
  pure document.intoJson

end Parser

/-! ## Trees -/

inductive Tree where
  /-- an alias -/
  | reference (anchor : Nat)
  | scalar (value : String) (style : ScalarStyle) (anchor : Nat) (tag : Option Tag)
  | sequence (anchor : Nat) (tag : Option Tag) (items : List Tree)
  | mapping (anchor : Nat) (tag : Option Tag) (entries : List (Tree × Tree))

theorem Tree.induction {P : Tree → Prop} (reference : ∀ anchor, P (.reference anchor))
    (scalar : ∀ value style anchor tag, P (.scalar value style anchor tag))
    (sequence : ∀ anchor tag items, (∀ t ∈ items, P t) → P (.sequence anchor tag items))
    (mapping : ∀ anchor tag entries, (∀ e ∈ entries, P e.1 ∧ P e.2) →
      P (.mapping anchor tag entries)) (t : Tree) : P t := by
  refine @Tree.rec P (fun items => ∀ t ∈ items, P t) (fun entries => ∀ e ∈ entries, P e.1 ∧ P e.2)
    (fun e => P e.1 ∧ P e.2) reference scalar sequence mapping ?_ ?_ ?_ ?_ ?_ t
  · intro t ht
    cases ht
  · intro t items ht hitems
    exact List.forall_mem_cons.mpr ⟨ht, hitems⟩
  · intro e he
    cases he
  · intro e entries he hentries
    exact List.forall_mem_cons.mpr ⟨he, hentries⟩
  · intro k v hk hv
    exact ⟨hk, hv⟩

mutual

/-- The events that list a tree. -/
def Tree.events : Tree → List Event
  | .reference anchor => [.alias anchor]
  | .scalar value style anchor tag => [.scalar value style anchor tag]
  | .sequence anchor tag items => .sequenceStart anchor tag :: (itemEvents items ++ [.sequenceEnd])
  | .mapping anchor tag entries =>
    .mappingStart anchor tag :: (entryEvents entries ++ [.mappingEnd])

def itemEvents : List Tree → List Event
  | [] => []
  | t :: ts => t.events ++ itemEvents ts

def entryEvents : List (Tree × Tree) → List Event
  | [] => []
  | (k, v) :: es => k.events ++ (v.events ++ entryEvents es)

end

mutual

/-- The property holds of every subtree. -/
def Tree.All (p : Tree → Prop) : Tree → Prop
  | .reference anchor => p (.reference anchor)
  | .scalar value style anchor tag => p (.scalar value style anchor tag)
  | .sequence anchor tag items => p (.sequence anchor tag items) ∧ AllItems p items
  | .mapping anchor tag entries => p (.mapping anchor tag entries) ∧ AllEntries p entries

def AllItems (p : Tree → Prop) : List Tree → Prop
  | [] => True
  | t :: ts => t.All p ∧ AllItems p ts

def AllEntries (p : Tree → Prop) : List (Tree × Tree) → Prop
  | [] => True
  | (k, v) :: es => (k.All p ∧ v.All p) ∧ AllEntries p es

end

mutual

/-- How far the deepest node is below the root. -/
def Tree.height : Tree → Nat
  | .reference _ | .scalar .. => 0
  | .sequence _ _ items => itemsHeight items
  | .mapping _ _ entries => entriesHeight entries

/-- The same for the nodes of a collection, from the collection on. -/
def itemsHeight : List Tree → Nat
  | [] => 0
  | t :: ts => max (t.height + 1) (itemsHeight ts)

def entriesHeight : List (Tree × Tree) → Nat
  | [] => 0
  | (k, v) :: es => max (max (k.height + 1) (v.height + 1)) (entriesHeight es)

end

/-- The node is neither an alias nor has an anchor or a tag outside the core schema. -/
def Plain (core : Tag → Bool) : Tree → Prop
  | .reference _ => False
  | .scalar _ _ anchor tag | .sequence anchor tag _ | .mapping anchor tag _ =>
    anchor = 0 ∧ ∀ t ∈ tag, core t = true

/-- A scalar resolves to something. -/
def Resolves : Tree → Prop
  | .scalar value style _ tag => ∃ resolved, scalar value style tag = .ok resolved
  | _ => True

/-- The key that a tree stands for, if it is a string scalar. -/
def Tree.key : Tree → Option String
  | .scalar value style _ tag =>
    match Yaml.scalar value style tag with
    | .ok (.string s) => some s
    | _ => none
  | _ => none

/-- The keys of a mapping are string scalars, and distinct. -/
def KeysOk : Tree → Prop
  | .mapping _ _ entries =>
    (∀ e ∈ entries, e.1.key.isSome = true) ∧ (entries.map fun e => e.1.key).Nodup
  | _ => True

def Tree.IsNull : Tree → Prop
  | .scalar value style _ tag => Yaml.scalar value style tag = .ok .null
  | _ => False

/-- A document that is accepted. -/
structure Tree.Acceptable (core : Tag → Bool) (t : Tree) : Prop where
  plain : t.All (Plain core)
  keys : t.All KeysOk
  depth : t.height ≤ maxYamlDepth
  resolves : t.All Resolves
  root : ¬t.IsNull

mutual

/-- The value has the structure of the tree, its keys and its scalars. -/
def Shape : Tree → Value → Prop
  | .reference _, _ => False
  | .scalar value style _ tag, v => ∃ s, scalar value style tag = .ok s ∧ v = s.node.intoJson
  | .sequence _ _ items, v => ∃ values, v = .array values ∧ ShapeItems items values
  | .mapping _ _ entries, v => ∃ members, v = .object members ∧ SortedMap.Sorted members ∧
      members.length = entries.length ∧ ShapeEntries entries members

def ShapeItems : List Tree → List Value → Prop
  | [], values => values = []
  | t :: ts, values => ∃ v vs, values = v :: vs ∧ Shape t v ∧ ShapeItems ts vs

/-- Every entry is among the members. -/
def ShapeEntries : List (Tree × Tree) → List (String × Value) → Prop
  | [], _ => True
  | (k, t) :: es, members =>
    (∃ key v, k.key = some key ∧ (key, v) ∈ members ∧ Shape t v) ∧ ShapeEntries es members

end

/-- The events begin with a stream of one document, listed by the tree. -/
def Lists (t : Tree) (events : List Event) : Prop :=
  ∃ explicit rest, events = .streamStart :: .documentStart explicit ::
    (t.events ++ .documentEnd :: .streamEnd :: rest)

/-! ## Trees in order -/

theorem allItems_iff {p : Tree → Prop} {items : List Tree} :
    AllItems p items ↔ ∀ t ∈ items, t.All p := by
  induction items with
  | nil => simp [AllItems]
  | cons t ts ih => rw [AllItems, ih, List.forall_mem_cons]

theorem allEntries_iff {p : Tree → Prop} {entries : List (Tree × Tree)} :
    AllEntries p entries ↔ ∀ e ∈ entries, e.1.All p ∧ e.2.All p := by
  induction entries with
  | nil => simp [AllEntries]
  | cons e es ih => rw [AllEntries, ih, List.forall_mem_cons]

theorem Tree.all_and {p q : Tree → Prop} (t : Tree) :
    t.All (fun t => p t ∧ q t) ↔ t.All p ∧ t.All q := by
  induction t using Tree.induction with
  | reference anchor => exact Iff.rfl
  | scalar value style anchor tag => exact Iff.rfl
  | sequence anchor tag items ih =>
    have hitems : AllItems (fun t => p t ∧ q t) items ↔ AllItems p items ∧ AllItems q items := by
      simp only [allItems_iff]
      exact ⟨fun h => ⟨fun t ht => ((ih t ht).mp (h t ht)).1, fun t ht => ((ih t ht).mp (h t ht)).2⟩,
        fun h t ht => (ih t ht).mpr ⟨h.1 t ht, h.2 t ht⟩⟩
    simp only [Tree.All, hitems]
    tauto
  | mapping anchor tag entries ih =>
    have hentries : AllEntries (fun t => p t ∧ q t) entries ↔
        AllEntries p entries ∧ AllEntries q entries := by
      simp only [allEntries_iff]
      constructor
      · intro h
        exact ⟨fun e he => ⟨((ih e he).1.mp (h e he).1).1, ((ih e he).2.mp (h e he).2).1⟩,
          fun e he => ⟨((ih e he).1.mp (h e he).1).2, ((ih e he).2.mp (h e he).2).2⟩⟩
      · intro h e he
        exact ⟨(ih e he).1.mpr ⟨(h.1 e he).1, (h.2 e he).1⟩,
          (ih e he).2.mpr ⟨(h.1 e he).2, (h.2 e he).2⟩⟩
    simp only [Tree.All, hentries]
    tauto

theorem itemsHeight_le {items : List Tree} {n : Nat} :
    itemsHeight items ≤ n ↔ ∀ t ∈ items, t.height + 1 ≤ n := by
  induction items with
  | nil => simp [itemsHeight]
  | cons t ts ih => rw [itemsHeight, Nat.max_le, ih, List.forall_mem_cons]

theorem entriesHeight_le {entries : List (Tree × Tree)} {n : Nat} :
    entriesHeight entries ≤ n ↔ ∀ e ∈ entries, e.1.height + 1 ≤ n ∧ e.2.height + 1 ≤ n := by
  induction entries with
  | nil => simp [entriesHeight]
  | cons e es ih => rw [entriesHeight, Nat.max_le, Nat.max_le, ih, List.forall_mem_cons]

/-- What is checked at a node. -/
def NodeOk (core : Tag → Bool) (t : Tree) : Prop := Plain core t ∧ KeysOk t ∧ Resolves t

/-- A subtree that is accepted at a depth. -/
def Good (core : Tag → Bool) (depth : Nat) (t : Tree) : Prop :=
  t.All (NodeOk core) ∧ depth + t.height ≤ maxYamlDepth

section Good

variable {core : Tag → Bool} {depth : Nat} {anchor : Nat} {tag : Option Tag}

theorem good_scalar {value : String} {style : ScalarStyle} :
    Good core depth (.scalar value style anchor tag) ↔
      (anchor = 0 ∧ ∀ t ∈ tag, core t = true) ∧
      (∃ resolved, scalar value style tag = .ok resolved) ∧ depth ≤ maxYamlDepth := by
  simp only [Good, Tree.All, NodeOk, Plain, KeysOk, Resolves, Tree.height, true_and, Nat.add_zero]
  tauto

theorem good_sequence {items : List Tree} :
    Good core depth (.sequence anchor tag items) ↔
      (anchor = 0 ∧ ∀ t ∈ tag, core t = true) ∧ depth ≤ maxYamlDepth ∧
      ∀ t ∈ items, Good core (depth + 1) t := by
  simp only [Good, Tree.All, NodeOk, Plain, KeysOk, Resolves, Tree.height, and_true, allItems_iff]
  constructor
  · rintro ⟨⟨hplain, hall⟩, hdepth⟩
    refine ⟨hplain, by omega, fun t ht => ⟨hall t ht, ?_⟩⟩
    have := itemsHeight_le.mp (Nat.le_refl (itemsHeight items)) t ht
    omega
  · rintro ⟨hplain, hdepth, hall⟩
    refine ⟨⟨hplain, fun t ht => (hall t ht).1⟩, ?_⟩
    have : itemsHeight items ≤ maxYamlDepth - depth := itemsHeight_le.mpr fun t ht => by
      have := (hall t ht).2
      omega
    omega

theorem good_mapping {entries : List (Tree × Tree)} :
    Good core depth (.mapping anchor tag entries) ↔
      (anchor = 0 ∧ ∀ t ∈ tag, core t = true) ∧ KeysOk (.mapping anchor tag entries) ∧
      depth ≤ maxYamlDepth ∧
      ∀ e ∈ entries, Good core (depth + 1) e.1 ∧ Good core (depth + 1) e.2 := by
  simp only [Good, Tree.All, NodeOk, Plain, Resolves, Tree.height, and_true, allEntries_iff]
  constructor
  · rintro ⟨⟨⟨hplain, hkeys⟩, hall⟩, hdepth⟩
    refine ⟨hplain, hkeys, by omega, fun e he => ?_⟩
    have := entriesHeight_le.mp (Nat.le_refl (entriesHeight entries)) e he
    exact ⟨⟨(hall e he).1, by omega⟩, (hall e he).2, by omega⟩
  · rintro ⟨hplain, hkeys, hdepth, hall⟩
    refine ⟨⟨⟨hplain, hkeys⟩, fun e he => ⟨(hall e he).1.1, (hall e he).2.1⟩⟩, ?_⟩
    have : entriesHeight entries ≤ maxYamlDepth - depth := entriesHeight_le.mpr fun e he => by
      have h1 := (hall e he).1.2
      have h2 := (hall e he).2.2
      omega
    omega

end Good

/-! ## Shapes -/

theorem membersIntoJson_eq (ms : List (String × Node)) :
    membersIntoJson ms = ms.map fun m => (m.1, m.2.intoJson) := by
  induction ms with
  | nil => rfl
  | cons m ms ih => rw [membersIntoJson, ih, List.map_cons]

/-- A tree that has become a string is the key of that string. -/
theorem key_of_shape {t : Tree} {k : String} (h : Shape t (.string k)) : t.key = some k := by
  cases t with
  | reference anchor => exact absurd h (by simp [Shape])
  | scalar value style anchor tag =>
    obtain ⟨s, hs, hk⟩ := h
    cases s with
    | string s =>
      cases hk
      simp [Tree.key, hs]
    | null | bool b | number n => cases hk
  | sequence anchor tag items =>
    obtain ⟨values, hv, -⟩ := h
    cases hv
  | mapping anchor tag entries =>
    obtain ⟨members, hv, -⟩ := h
    cases hv

/-- A key becomes a string. -/
theorem string_of_key {t : Tree} {k : String} {n : Node} (hk : t.key = some k)
    (h : Shape t n.intoJson) : n = .string k := by
  cases t with
  | scalar value style anchor tag =>
    obtain ⟨s, hs, hn⟩ := h
    have hstring : s = .string k := by
      cases s <;> simp [Tree.key, hs] at hk ⊢
      exact hk
    subst hstring
    cases n <;> simp [Scalar.node, Node.intoJson] at hn
    rw [hn]
  | reference anchor | sequence anchor tag items | mapping anchor tag entries => cases hk

/-- What the loop of a sequence adds. -/
def ItemsRead (items : List Tree) (values result : List Node) : Prop :=
  ∃ nodes, result = values ++ nodes ∧ ShapeItems items (valuesIntoJson nodes)

theorem ItemsRead.cons {t : Tree} {ts : List Tree} {n : Node} {values result : List Node}
    (hn : Shape t n.intoJson) (h : ItemsRead ts (values ++ [n]) result) :
    ItemsRead (t :: ts) values result := by
  obtain ⟨nodes, rfl, hshape⟩ := h
  exact ⟨n :: nodes, by simp, n.intoJson, _, rfl, hn, hshape⟩

/-- What the loop of a mapping adds. -/
structure EntriesRead (entries : List (Tree × Tree)) (values result : List (String × Node)) :
    Prop where
  sorted : SortedMap.Sorted values → SortedMap.Sorted result
  length : result.length = values.length + entries.length
  kept : ∀ m ∈ values, m ∈ result
  shape : ShapeEntries entries (membersIntoJson result)

theorem EntriesRead.cons {k v : Tree} {es : List (Tree × Tree)} {key : String} {n : Node}
    {values result : List (String × Node)} (hk : k.key = some key)
    (hnew : key ∉ SortedMap.keys values) (hn : Shape v n.intoJson)
    (h : EntriesRead es (SortedMap.insert key n values) result) :
    EntriesRead ((k, v) :: es) values result where
  sorted hs := h.sorted (SortedMap.sorted_insert hs)
  length := by
    rw [h.length, SortedMap.length_insert_of_not_mem hnew, List.length_cons]
    omega
  kept m hm := h.kept m ((SortedMap.mem_insert_of_not_mem hnew).mpr (.inr hm))
  shape := by
    refine ⟨⟨key, n.intoJson, hk, ?_, hn⟩, h.shape⟩
    rw [membersIntoJson_eq]
    exact List.mem_map.mpr ⟨(key, n), h.kept _ ((SortedMap.mem_insert_of_not_mem hnew).mpr (.inl rfl)),
      rfl⟩

/-- The members of a mapping that has been read. -/
theorem shape_mapping {entries : List (Tree × Tree)} {result : List (String × Node)}
    (h : EntriesRead entries [] result) (anchor : Nat) (tag : Option Tag) :
    Shape (.mapping anchor tag entries) (Node.mapping result).intoJson := by
  refine ⟨_, rfl, ?_, ?_, h.shape⟩
  · have hsorted := h.sorted (by simp [SortedMap.Sorted, SortedMap.keys])
    rw [membersIntoJson_eq, SortedMap.Sorted, SortedMap.keys, List.map_map]
    exact hsorted
  · rw [membersIntoJson_eq, List.length_map, h.length]
    simp

/-! ## Rounds of the loops -/

section Parse

variable {core : Tag → Bool}

theorem validateMetadata_ok {anchor : Nat} {tag : Option Tag} {span : Span} :
    validateMetadata core anchor tag span = .ok () ↔ anchor = 0 ∧ ∀ t ∈ tag, core t = true := by
  unfold validateMetadata
  by_cases ha : anchor = 0
  · cases tag with
    | none => simp [ha]
    | some t => by_cases hc : core t = true <;> simp [ha, hc]
  · simp [ha]

/-- The event comes next. -/
def Next (event : Event) (events : List Entry) : Prop := events.head?.map Prod.fst = some event

theorem next_iff {event : Event} {events : List Entry} :
    Next event events ↔ ∃ span tail, events = (event, span) :: tail := by
  unfold Next
  cases events with
  | nil => simp
  | cons entry tail => simp [Prod.ext_iff]

theorem parseItems_ok {depth : Nat} {values : List Node} {events : List Entry}
    {r : Consumed (List Node) events} : parseItems core depth values events = .ok r ↔
      (Next .sequenceEnd events ∧ r.value = values ∧ r.rest = events.tail) ∨
      (¬Next .sequenceEnd events ∧ ∃ item items,
        parseNode core depth events = .ok item ∧
        parseItems core depth (values ++ [item.value]) item.rest = .ok items ∧
        r.value = items.value ∧ r.rest = items.rest) := by
  obtain ⟨value, rest, shorter⟩ := r
  by_cases hend : Next .sequenceEnd events
  · obtain ⟨span, tail, rfl⟩ := next_iff.mp hend
    rw [parseItems]
    simp [hend, eq_comm]
  · rw [parseItems]
    · simp only [hend, false_and, not_false_eq_true, true_and, false_or, Fallible.bind_ok]
      constructor
      · rintro ⟨item, hitem, items, hitems, h⟩
        cases Except.ok.inj h
        exact ⟨item, items, hitem, hitems, rfl, rfl⟩
      · rintro ⟨item, items, hitem, hitems, rfl, rfl⟩
        exact ⟨item, hitem, items, hitems, rfl⟩
    · intro span tail heq
      exact hend (next_iff.mpr ⟨span, tail, heq⟩)

theorem parseEntries_ok {depth : Nat} {span : Span} {values : List (String × Node)}
    {events : List Entry} {r : Consumed (List (String × Node)) events} :
    parseEntries core depth span values events = .ok r ↔
      (Next .mappingEnd events ∧ r.value = values ∧ r.rest = events.tail) ∨
      (¬Next .mappingEnd events ∧ ∃ key k value entries,
        parseNode core depth events = .ok key ∧ key.value = .string k ∧
        parseNode core depth key.rest = .ok value ∧ k ∉ SortedMap.keys values ∧
        parseEntries core depth span (SortedMap.insert k value.value values) value.rest =
          .ok entries ∧ r.value = entries.value ∧ r.rest = entries.rest) := by
  obtain ⟨result, rest, shorter⟩ := r
  by_cases hend : Next .mappingEnd events
  · obtain ⟨span', tail, rfl⟩ := next_iff.mp hend
    rw [parseEntries]
    simp [hend, eq_comm]
  · rw [parseEntries]
    · simp only [hend, false_and, not_false_eq_true, true_and, false_or, Fallible.bind_ok]
      constructor
      · rintro ⟨key, hkey, h⟩
        cases hk : key.value with
        | string k =>
          simp only [hk] at h
          obtain ⟨value, hvalue, h⟩ := Fallible.bind_ok.mp h
          obtain ⟨hnew, h⟩ := Fallible.check_ok.mp h
          obtain ⟨entries, hentries, h⟩ := Fallible.bind_ok.mp h
          cases Except.ok.inj h
          exact ⟨key, k, value, entries, hkey, hk, hvalue, hnew, hentries, rfl, rfl⟩
        | null | bool b | number n | sequence ns | mapping ms =>
          simp only [hk] at h
          cases h
      · rintro ⟨key, k, value, entries, hkey, hk, hvalue, hnew, hentries, rfl, rfl⟩
        refine ⟨key, hkey, ?_⟩
        simp only [hk]
        refine Fallible.bind_ok.mpr ⟨value, hvalue, ?_⟩
        refine Fallible.check_ok.mpr ⟨hnew, ?_⟩
        exact Fallible.bind_ok.mpr ⟨entries, hentries, rfl⟩
    · intro span' tail heq
      exact hend (next_iff.mpr ⟨span', tail, heq⟩)

section Node

variable {depth : Nat} {span : Span} {tail : List Entry} {anchor : Nat} {tag : Option Tag}

/-- The checks in front of a value. -/
theorem guarded_ok {β : Type} {e : YamlError} {f : Unit → Except YamlError β} {r : β} :
    (if maxYamlDepth < depth then .error e else validateMetadata core anchor tag span >>= f) =
        .ok r ↔
      depth ≤ maxYamlDepth ∧ (anchor = 0 ∧ ∀ t ∈ tag, core t = true) ∧ f () = .ok r := by
  by_cases hdepth : maxYamlDepth < depth
  · rw [if_pos hdepth]
    exact iff_of_false (fun h => nomatch h) fun h => absurd h.1 (Nat.not_le_of_lt hdepth)
  · rw [if_neg hdepth, and_iff_right (Nat.le_of_not_lt hdepth), ← validateMetadata_ok,
      Fallible.bind_ok]
    constructor
    · rintro ⟨⟨⟩, hmeta, h⟩
      exact ⟨hmeta, h⟩
    · rintro ⟨hmeta, h⟩
      exact ⟨⟨⟩, hmeta, h⟩

theorem parseNode_scalar {value : String} {style : ScalarStyle}
    {r : Consumed Node ((.scalar value style anchor tag, span) :: tail)} :
    parseNode core depth ((.scalar value style anchor tag, span) :: tail) = .ok r ↔
      depth ≤ maxYamlDepth ∧ (anchor = 0 ∧ ∀ t ∈ tag, core t = true) ∧
      ∃ resolved, scalar value style tag = .ok resolved ∧ r.value = resolved.node ∧
        r.rest = tail := by
  obtain ⟨node, rest, shorter⟩ := r
  rw [parseNode, guarded_ok]
  refine and_congr_right fun _ => and_congr_right fun _ => ?_
  constructor
  · intro h
    obtain ⟨resolved, hresolved, h⟩ := Fallible.bind_ok.mp h
    cases Except.ok.inj h
    exact ⟨resolved, Fallible.mapError_ok.mp hresolved, rfl, rfl⟩
  · rintro ⟨resolved, hresolved, hvalue, hrest⟩
    simp only at hvalue hrest
    subst hvalue hrest
    exact Fallible.bind_ok.mpr ⟨resolved, Fallible.mapError_ok.mpr hresolved, rfl⟩

theorem parseNode_sequence {r : Consumed Node ((.sequenceStart anchor tag, span) :: tail)} :
    parseNode core depth ((.sequenceStart anchor tag, span) :: tail) = .ok r ↔
      depth ≤ maxYamlDepth ∧ (anchor = 0 ∧ ∀ t ∈ tag, core t = true) ∧
      ∃ items, parseItems core (depth + 1) [] tail = .ok items ∧ r.value = .sequence items.value ∧
        r.rest = items.rest := by
  obtain ⟨node, rest, shorter⟩ := r
  rw [parseNode, guarded_ok]
  refine and_congr_right fun _ => and_congr_right fun _ => ?_
  constructor
  · intro h
    obtain ⟨items, hitems, h⟩ := Fallible.bind_ok.mp h
    cases Except.ok.inj h
    exact ⟨items, hitems, rfl, rfl⟩
  · rintro ⟨items, hitems, rfl, rfl⟩
    exact Fallible.bind_ok.mpr ⟨items, hitems, rfl⟩

theorem parseNode_mapping {r : Consumed Node ((.mappingStart anchor tag, span) :: tail)} :
    parseNode core depth ((.mappingStart anchor tag, span) :: tail) = .ok r ↔
      depth ≤ maxYamlDepth ∧ (anchor = 0 ∧ ∀ t ∈ tag, core t = true) ∧
      ∃ entries, parseEntries core (depth + 1) span [] tail = .ok entries ∧
        r.value = .mapping entries.value ∧ r.rest = entries.rest := by
  obtain ⟨node, rest, shorter⟩ := r
  rw [parseNode, guarded_ok]
  refine and_congr_right fun _ => and_congr_right fun _ => ?_
  constructor
  · intro h
    obtain ⟨entries, hentries, h⟩ := Fallible.bind_ok.mp h
    cases Except.ok.inj h
    exact ⟨entries, hentries, rfl, rfl⟩
  · rintro ⟨entries, hentries, rfl, rfl⟩
    exact Fallible.bind_ok.mpr ⟨entries, hentries, rfl⟩

end Node

/-- Only a scalar, a sequence or a mapping is a value. -/
theorem parseNode_head {depth : Nat} {events : List Entry} {r : Consumed Node events}
    (h : parseNode core depth events = .ok r) :
    ∃ span tail, (∃ value style anchor tag, events = (.scalar value style anchor tag, span) :: tail) ∨
      (∃ anchor tag, events = (.sequenceStart anchor tag, span) :: tail) ∨
      ∃ anchor tag, events = (.mappingStart anchor tag, span) :: tail := by
  cases events with
  | nil =>
    rw [parseNode] at h
    split at h <;> cases h
  | cons entry tail =>
    obtain ⟨event, span⟩ := entry
    refine ⟨span, tail, ?_⟩
    cases event with
    | scalar value style anchor tag => exact .inl ⟨value, style, anchor, tag, rfl⟩
    | sequenceStart anchor tag => exact .inr (.inl ⟨anchor, tag, rfl⟩)
    | mappingStart anchor tag => exact .inr (.inr ⟨anchor, tag, rfl⟩)
    | _ =>
      simp only [parseNode] at h
      split at h <;> cases h

/-! ## What is accepted is listed by a tree -/

/-- The node at the head of the events is that of a tree they list first. -/
def NodeSound (core : Tag → Bool) (events : List Entry) : Prop :=
  ∀ depth r, parseNode core depth events = .ok r →
    ∃ t : Tree, events.map Prod.fst = t.events ++ r.rest.map Prod.fst ∧ Good core depth t ∧
      Shape t r.value.intoJson

section Sound

variable {n m depth : Nat} {events : List Entry}

theorem parseItems_sound (ih : ∀ events : List Entry, events.length ≤ n → NodeSound core events)
    (hm : events.length ≤ m) (hn : m ≤ n) {values : List Node} {r : Consumed (List Node) events}
    (h : parseItems core depth values events = .ok r) :
    ∃ items, events.map Prod.fst = itemEvents items ++ .sequenceEnd :: r.rest.map Prod.fst ∧
      (∀ t ∈ items, Good core depth t) ∧ ItemsRead items values r.value := by
  induction m generalizing events values with
  | zero =>
    have := r.shorter
    omega
  | succ m ihm =>
    rcases parseItems_ok.mp h with ⟨hend, hvalue, hrest⟩ | ⟨-, item, items, hitem, hitems, hvalue, hrest⟩
    · obtain ⟨span, tail, rfl⟩ := next_iff.mp hend
      rw [hvalue, hrest]
      exact ⟨[], rfl, by simp, [], by simp, rfl⟩
    · have hshorter := item.shorter
      obtain ⟨t, hlist, hgood, hshape⟩ := ih _ (by omega) depth item hitem
      obtain ⟨ts, hlists, hgoods, hread⟩ := ihm (by omega) (by omega) hitems
      rw [hvalue, hrest]
      refine ⟨t :: ts, ?_, List.forall_mem_cons.mpr ⟨hgood, hgoods⟩, hread.cons hshape⟩
      rw [hlist, hlists, itemEvents, List.append_assoc]

/-- The keys are string scalars, and new to the map. -/
structure KeysNew (entries : List (Tree × Tree)) (values : List (String × Node)) : Prop where
  keys : ∀ e ∈ entries, e.1.key.isSome = true
  distinct : (entries.map fun e => e.1.key).Nodup
  new : ∀ e ∈ entries, ∀ k, e.1.key = some k → k ∉ SortedMap.keys values

theorem keysNew_cons {k v : Tree} {es : List (Tree × Tree)} {key : String} {n : Node}
    {values : List (String × Node)} (hk : k.key = some key) :
    KeysNew ((k, v) :: es) values ↔
      key ∉ SortedMap.keys values ∧ KeysNew es (SortedMap.insert key n values) := by
  constructor
  · intro h
    obtain ⟨hnot, hdistinct⟩ := List.nodup_cons.mp h.distinct
    refine ⟨h.new _ List.mem_cons_self key hk, ?_, hdistinct, ?_⟩
    · exact fun e he => h.keys e (List.mem_cons_of_mem _ he)
    · intro e he k' hk' hmem
      rcases SortedMap.mem_keys_insert.mp hmem with rfl | hmem
      · exact hnot (List.mem_map.mpr ⟨e, he, hk'.trans hk.symm⟩)
      · exact h.new e (List.mem_cons_of_mem _ he) k' hk' hmem
  · rintro ⟨hnew, h⟩
    refine ⟨?_, ?_, ?_⟩
    · exact List.forall_mem_cons.mpr ⟨by simp [hk], h.keys⟩
    · refine List.nodup_cons.mpr ⟨fun hmem => ?_, h.distinct⟩
      obtain ⟨e, he, heq⟩ := List.mem_map.mp hmem
      exact h.new e he key (heq.trans hk) (SortedMap.mem_keys_insert.mpr (.inl rfl))
    · refine List.forall_mem_cons.mpr ⟨fun k' hk' => ?_, fun e he k' hk' hmem => ?_⟩
      · cases Option.some.inj (hk.symm.trans hk')
        exact hnew
      · exact h.new e he k' hk' (SortedMap.mem_keys_insert.mpr (.inr hmem))

theorem parseEntries_sound (ih : ∀ events : List Entry, events.length ≤ n → NodeSound core events)
    (hm : events.length ≤ m) (hn : m ≤ n) {span : Span} {values : List (String × Node)}
    {r : Consumed (List (String × Node)) events}
    (h : parseEntries core depth span values events = .ok r) :
    ∃ entries, events.map Prod.fst = entryEvents entries ++ .mappingEnd :: r.rest.map Prod.fst ∧
      (∀ e ∈ entries, Good core depth e.1 ∧ Good core depth e.2) ∧ KeysNew entries values ∧
      EntriesRead entries values r.value := by
  induction m generalizing events values with
  | zero =>
    have := r.shorter
    omega
  | succ m ihm =>
    rcases parseEntries_ok.mp h with ⟨hend, hvalue, hrest⟩ |
      ⟨-, key, k, value, entries, hkey, hk, hval, hnew, hentries, hvalue, hrest⟩
    · obtain ⟨span', tail, rfl⟩ := next_iff.mp hend
      rw [hvalue, hrest]
      refine ⟨[], rfl, by simp, ⟨by simp, by simp, by simp⟩, ?_⟩
      exact ⟨fun hs => hs, rfl, fun _ hmem => hmem, trivial⟩
    · have hshorter := key.shorter
      have hshorter' := value.shorter
      obtain ⟨t, hlist, hgood, hshape⟩ := ih _ (by omega) depth key hkey
      obtain ⟨u, hlist', hgood', hshape'⟩ := ih _ (by omega) depth value hval
      obtain ⟨es, hlists, hgoods, hkeys, hread⟩ := ihm (by omega) (by omega) hentries
      rw [hk] at hshape
      have htkey := key_of_shape hshape
      rw [hvalue, hrest]
      refine ⟨(t, u) :: es, ?_, List.forall_mem_cons.mpr ⟨⟨hgood, hgood'⟩, hgoods⟩,
        (keysNew_cons htkey).mpr ⟨hnew, hkeys⟩, hread.cons htkey hnew hshape'⟩
      rw [hlist, hlist', hlists, entryEvents, List.append_assoc, List.append_assoc]

theorem parseNode_sound (n : Nat) : ∀ events : List Entry, events.length ≤ n →
    NodeSound core events := by
  induction n with
  | zero =>
    intro events hlen depth r h
    have := r.shorter
    omega
  | succ n ih =>
    intro events hlen depth r h
    obtain ⟨span, tail, ⟨value, style, anchor, tag, rfl⟩ | ⟨anchor, tag, rfl⟩ | ⟨anchor, tag, rfl⟩⟩ :=
      parseNode_head h
    · obtain ⟨hdepth, hmeta, resolved, hresolved, hvalue, hrest⟩ := parseNode_scalar.mp h
      refine ⟨.scalar value style anchor tag, by rw [hrest]; rfl, ?_, resolved, hresolved, ?_⟩
      · exact good_scalar.mpr ⟨hmeta, ⟨resolved, hresolved⟩, hdepth⟩
      · rw [hvalue]
    · obtain ⟨hdepth, hmeta, items, hitems, hvalue, hrest⟩ := parseNode_sequence.mp h
      rw [List.length_cons] at hlen
      obtain ⟨ts, hlists, hgoods, nodes, hnodes, hshape⟩ :=
        parseItems_sound ih (m := n) (by omega) le_rfl hitems
      refine ⟨.sequence anchor tag ts, ?_, good_sequence.mpr ⟨hmeta, hdepth, hgoods⟩, ?_⟩
      · rw [hrest, List.map_cons, hlists]
        simp [Tree.events]
      · rw [hvalue, hnodes, List.nil_append]
        exact ⟨_, rfl, hshape⟩
    · obtain ⟨hdepth, hmeta, entries, hentries, hvalue, hrest⟩ := parseNode_mapping.mp h
      rw [List.length_cons] at hlen
      obtain ⟨es, hlists, hgoods, hkeys, hread⟩ :=
        parseEntries_sound ih (m := n) (by omega) le_rfl hentries
      refine ⟨.mapping anchor tag es, ?_,
        good_mapping.mpr ⟨hmeta, ⟨hkeys.keys, hkeys.distinct⟩, hdepth, hgoods⟩, ?_⟩
      · rw [hrest, List.map_cons, hlists]
        simp [Tree.events]
      · rw [hvalue]
        exact shape_mapping hread anchor tag

end Sound

/-! ## What a tree lists is accepted -/

/-- Events that begin with those of the tree are parsed to a node of its shape. -/
def NodeComplete (core : Tag → Bool) (t : Tree) : Prop :=
  ∀ (depth : Nat) (events : List Entry) (rest : List Event),
    events.map Prod.fst = t.events ++ rest → Good core depth t →
    ∃ r, parseNode core depth events = .ok r ∧ r.rest.map Prod.fst = rest ∧
      Shape t r.value.intoJson

/-- No tree begins with an end. -/
theorem not_next_of_events {t : Tree} {events : List Entry} {rest : List Event} {e : Event}
    (h : events.map Prod.fst = t.events ++ rest) (he : e = .sequenceEnd ∨ e = .mappingEnd) :
    ¬Next e events := by
  intro hnext
  obtain ⟨span, tail, rfl⟩ := next_iff.mp hnext
  cases t <;> rcases he with rfl | rfl <;> cases h

section Complete

variable {depth : Nat} {events : List Entry} {rest : List Event}

theorem parseItems_complete {items : List Tree} (ih : ∀ t ∈ items, NodeComplete core t)
    {values : List Node} (h : events.map Prod.fst = itemEvents items ++ .sequenceEnd :: rest)
    (hgood : ∀ t ∈ items, Good core depth t) :
    ∃ r, parseItems core depth values events = .ok r ∧ r.rest.map Prod.fst = rest ∧
      ItemsRead items values r.value := by
  induction items generalizing events values with
  | nil =>
    obtain ⟨⟨event, span⟩, tail, rfl, hevent, htail⟩ := List.map_eq_cons_iff.mp h
    cases hevent
    refine ⟨⟨values, tail, Nat.lt_succ_self _⟩, ?_, htail, [], by simp, rfl⟩
    exact parseItems_ok.mpr (.inl ⟨next_iff.mpr ⟨span, tail, rfl⟩, rfl, rfl⟩)
  | cons t ts ihs =>
    rw [List.forall_mem_cons] at ih hgood
    rw [itemEvents, List.append_assoc] at h
    obtain ⟨item, hitem, hrest, hshape⟩ := ih.1 depth events _ h hgood.1
    obtain ⟨items, hitems, hrest', hread⟩ := @ihs item.rest ih.2 (values ++ [item.value]) hrest hgood.2
    refine ⟨⟨items.value, items.rest, items.shorter.trans item.shorter⟩, ?_, hrest',
      hread.cons hshape⟩
    exact parseItems_ok.mpr (.inr ⟨not_next_of_events h (.inl rfl), item, items, hitem, hitems,
      rfl, rfl⟩)

theorem parseEntries_complete {entries : List (Tree × Tree)}
    (ih : ∀ e ∈ entries, NodeComplete core e.1 ∧ NodeComplete core e.2) {span : Span}
    {values : List (String × Node)}
    (h : events.map Prod.fst = entryEvents entries ++ .mappingEnd :: rest)
    (hgood : ∀ e ∈ entries, Good core depth e.1 ∧ Good core depth e.2)
    (hkeys : KeysNew entries values) :
    ∃ r, parseEntries core depth span values events = .ok r ∧ r.rest.map Prod.fst = rest ∧
      EntriesRead entries values r.value := by
  induction entries generalizing events values with
  | nil =>
    obtain ⟨⟨event, span'⟩, tail, rfl, hevent, htail⟩ := List.map_eq_cons_iff.mp h
    cases hevent
    refine ⟨⟨values, tail, Nat.lt_succ_self _⟩, ?_, htail, ?_⟩
    · exact parseEntries_ok.mpr (.inl ⟨next_iff.mpr ⟨span', tail, rfl⟩, rfl, rfl⟩)
    · exact ⟨fun hs => hs, rfl, fun _ hmem => hmem, trivial⟩
  | cons e es ihs =>
    obtain ⟨k, v⟩ := e
    rw [List.forall_mem_cons] at ih hgood
    rw [entryEvents, List.append_assoc, List.append_assoc] at h
    obtain ⟨key, hkey, hrest, hshape⟩ := ih.1.1 depth events _ h hgood.1.1
    obtain ⟨value, hvalue, hrest', hshape'⟩ := ih.1.2 depth key.rest _ hrest hgood.1.2
    obtain ⟨name, hname⟩ := Option.isSome_iff_exists.mp (hkeys.keys (k, v) List.mem_cons_self)
    obtain ⟨hnew, hkeys'⟩ := (keysNew_cons (n := value.value) hname).mp hkeys
    obtain ⟨entries, hentries, hrest'', hread⟩ :=
      @ihs value.rest ih.2 (SortedMap.insert name value.value values) hrest' hgood.2 hkeys'
    refine ⟨⟨entries.value, entries.rest,
      entries.shorter.trans (value.shorter.trans key.shorter)⟩, ?_, hrest'',
      hread.cons hname hnew hshape'⟩
    exact parseEntries_ok.mpr (.inr ⟨not_next_of_events h (.inr rfl), key, name, value, entries,
      hkey, string_of_key hname hshape, hvalue, hnew, hentries, rfl, rfl⟩)

theorem parseNode_complete (t : Tree) : NodeComplete core t := by
  induction t using Tree.induction with
  | reference anchor =>
    intro depth events rest h hgood
    exact absurd hgood.1.1 (by simp [Plain])
  | scalar value style anchor tag =>
    intro depth events rest h hgood
    obtain ⟨⟨event, span⟩, tail, rfl, hevent, htail⟩ := List.map_eq_cons_iff.mp h
    cases hevent
    obtain ⟨hmeta, ⟨resolved, hresolved⟩, hdepth⟩ := good_scalar.mp hgood
    refine ⟨⟨resolved.node, tail, Nat.lt_succ_self _⟩, ?_, htail, resolved, hresolved, rfl⟩
    exact parseNode_scalar.mpr ⟨hdepth, hmeta, resolved, hresolved, rfl, rfl⟩
  | sequence anchor tag items ih =>
    intro depth events rest h hgood
    rw [Tree.events, List.cons_append, List.append_assoc] at h
    obtain ⟨⟨event, span⟩, tail, rfl, hevent, htail⟩ := List.map_eq_cons_iff.mp h
    cases hevent
    obtain ⟨hmeta, hdepth, hgoods⟩ := good_sequence.mp hgood
    obtain ⟨r, hr, hrest, nodes, hnodes, hshape⟩ :=
      @parseItems_complete core (depth + 1) tail rest items ih [] htail hgoods
    refine ⟨⟨.sequence r.value, r.rest, Nat.lt_succ_of_lt r.shorter⟩, ?_, hrest, ?_⟩
    · exact parseNode_sequence.mpr ⟨hdepth, hmeta, r, hr, rfl, rfl⟩
    · rw [hnodes, List.nil_append]
      exact ⟨_, rfl, hshape⟩
  | mapping anchor tag entries ih =>
    intro depth events rest h hgood
    rw [Tree.events, List.cons_append, List.append_assoc] at h
    obtain ⟨⟨event, span⟩, tail, rfl, hevent, htail⟩ := List.map_eq_cons_iff.mp h
    cases hevent
    obtain ⟨hmeta, hkeys, hdepth, hgoods⟩ := good_mapping.mp hgood
    obtain ⟨r, hr, hrest, hread⟩ := @parseEntries_complete core (depth + 1) tail rest entries ih
      span [] htail hgoods ⟨hkeys.1, hkeys.2, by simp [SortedMap.keys]⟩
    refine ⟨⟨.mapping r.value, r.rest, Nat.lt_succ_of_lt r.shorter⟩, ?_, hrest,
      shape_mapping hread anchor tag⟩
    exact parseNode_mapping.mpr ⟨hdepth, hmeta, r, hr, rfl, rfl⟩

end Complete

/-! ## Documents -/

theorem expect_ok {p : Event → Bool} {events : List Entry} {r : Consumed Unit events} :
    expect p events = .ok r ↔
      ∃ event, Next event events ∧ p event = true ∧ r.rest = events.tail := by
  obtain ⟨⟨⟩, rest, shorter⟩ := r
  cases events with
  | nil => simp [expect, Next]
  | cons entry tail =>
    obtain ⟨event, span⟩ := entry
    by_cases hp : p event = true
    · simp only [expect, hp, if_true, Except.ok.injEq, Consumed.mk.injEq, true_and, Next,
        List.head?_cons, Option.map_some, Option.some.injEq, exists_eq_left', List.tail_cons]
      exact eq_comm
    · simp [expect, hp, Next]

theorem parseDocument_ok {events : List Entry} {r : Consumed Node events} :
    parseDocument core events = .ok r ↔ ∃ start document finish,
      expect isDocumentStart events = .ok start ∧ parseNode core 0 start.rest = .ok document ∧
      expect (· = .documentEnd) document.rest = .ok finish ∧ r.value = document.value ∧
      r.rest = finish.rest := by
  obtain ⟨value, rest, shorter⟩ := r
  unfold parseDocument
  simp only [Fallible.bind_ok]
  constructor
  · rintro ⟨start, hstart, document, hdocument, finish, hfinish, h⟩
    cases Except.ok.inj h
    exact ⟨start, document, finish, hstart, hdocument, hfinish, rfl, rfl⟩
  · rintro ⟨start, document, finish, hstart, hdocument, hfinish, rfl, rfl⟩
    exact ⟨start, hstart, document, hdocument, finish, hfinish, rfl⟩

theorem parseDocuments_ok {documents result : List Node} {events : List Entry} :
    parseDocuments core documents events = .ok result ↔
      (Next .streamEnd events ∧ result = documents) ∨
      (¬Next .streamEnd events ∧ ∃ document, parseDocument core events = .ok document ∧
        parseDocuments core (documents ++ [document.value]) document.rest = .ok result) := by
  by_cases hend : Next .streamEnd events
  · obtain ⟨span, tail, rfl⟩ := next_iff.mp hend
    rw [parseDocuments]
    simp [hend, eq_comm]
  · rw [parseDocuments]
    · simp only [hend, false_and, not_false_eq_true, true_and, false_or, Fallible.bind_ok]
    · intro span tail heq
      exact hend (next_iff.mpr ⟨span, tail, heq⟩)

/-- No document is lost. -/
theorem length_parseDocuments {n : Nat} {documents result : List Node} {events : List Entry}
    (hn : events.length ≤ n) (h : parseDocuments core documents events = .ok result) :
    documents.length ≤ result.length := by
  induction n generalizing documents events with
  | zero =>
    rcases parseDocuments_ok.mp h with ⟨-, rfl⟩ | ⟨-, document, -, -⟩
    · exact Nat.le_refl _
    · have := document.shorter
      omega
  | succ n ih =>
    rcases parseDocuments_ok.mp h with ⟨-, rfl⟩ | ⟨-, document, -, hrest⟩
    · exact Nat.le_refl _
    · have := document.shorter
      have := ih (by omega) hrest
      rw [List.length_append] at this
      omega

/-- One document, and then the end of the stream. -/
theorem parseDocuments_one {events : List Entry} {node : Node} :
    parseDocuments core [] events = .ok [node] ↔ ∃ document, parseDocument core events = .ok document ∧
      document.value = node ∧ Next .streamEnd document.rest := by
  constructor
  · intro h
    rcases parseDocuments_ok.mp h with ⟨-, hnil⟩ | ⟨-, document, hdocument, hrest⟩
    · cases hnil
    · refine ⟨document, hdocument, ?_⟩
      rcases parseDocuments_ok.mp hrest with ⟨hend, hone⟩ | ⟨-, second, -, hmore⟩
      · cases hone
        exact ⟨rfl, hend⟩
      · have := length_parseDocuments (Nat.le_refl _) hmore
        simp at this
  · rintro ⟨document, hdocument, rfl, hend⟩
    refine parseDocuments_ok.mpr (.inr ⟨fun hnext => ?_, document, hdocument, ?_⟩)
    · obtain ⟨start, -, -, hstart, -⟩ := parseDocument_ok.mp hdocument
      obtain ⟨event, hevent, hp, -⟩ := expect_ok.mp hstart
      cases Option.some.inj (hnext.symm.trans hevent)
      cases hp
    · exact parseDocuments_ok.mpr (.inl ⟨hend, rfl⟩)

theorem onlyDocument_ok {documents : List Node} {node : Node} :
    onlyDocument documents = .ok node ↔ documents = [node] ∧ node ≠ .null := by
  unfold onlyDocument
  split
  · simp
  · refine iff_of_false (fun h => nomatch h) ?_
    rintro ⟨h, hnull⟩
    exact hnull (List.cons.inj h).1.symm
  · rename_i document hnull
    constructor
    · intro h
      cases Except.ok.inj h
      exact ⟨rfl, fun heq => hnull (by rw [heq])⟩
    · rintro ⟨h, -⟩
      rw [(List.cons.inj h).1]
  · rename_i hone
    refine iff_of_false (fun h => nomatch h) ?_
    rintro ⟨h, -⟩
    exact hone node h

/-- A document and no other, which is not null. -/
theorem parse_ok {events : List Entry} {v : Value} : parse core events = .ok v ↔
    ∃ start document, expect (· = .streamStart) events = .ok start ∧
      parseDocument core start.rest = .ok document ∧ Next .streamEnd document.rest ∧
      document.value ≠ .null ∧ v = document.value.intoJson := by
  unfold parse
  simp only [Fallible.bind_ok, onlyDocument_ok]
  constructor
  · rintro ⟨start, hstart, documents, hdocuments, node, ⟨rfl, hnull⟩, h⟩
    obtain ⟨document, hdocument, rfl, hend⟩ := parseDocuments_one.mp hdocuments
    exact ⟨start, document, hstart, hdocument, hend, hnull, (Except.ok.inj h).symm⟩
  · rintro ⟨start, document, hstart, hdocument, hend, hnull, rfl⟩
    exact ⟨start, hstart, [document.value], parseDocuments_one.mpr ⟨document, hdocument, rfl, hend⟩,
      document.value, ⟨rfl, hnull⟩, rfl⟩

theorem null_iff {t : Tree} {n : Node} (h : Shape t n.intoJson) : n = .null ↔ t.IsNull := by
  cases t with
  | reference anchor => exact absurd h (by simp [Shape])
  | scalar value style anchor tag =>
    obtain ⟨s, hs, hn⟩ := h
    rw [Tree.IsNull, hs, Except.ok.injEq]
    cases s <;> cases n <;> simp [Scalar.node, Node.intoJson] at hn ⊢
  | sequence anchor tag items =>
    obtain ⟨values, hv, -⟩ := h
    cases n <;> simp [Node.intoJson] at hv
    simp [Tree.IsNull]
  | mapping anchor tag entries =>
    obtain ⟨members, hv, -⟩ := h
    cases n <;> simp [Node.intoJson] at hv
    simp [Tree.IsNull]

theorem acceptable_iff {t : Tree} : t.Acceptable core ↔ Good core 0 t ∧ ¬t.IsNull := by
  have hall : t.All (NodeOk core) ↔ t.All (Plain core) ∧ t.All KeysOk ∧ t.All Resolves := by
    rw [← t.all_and, ← t.all_and]
    rfl
  rw [Good, hall, Nat.zero_add]
  exact ⟨fun h => ⟨⟨⟨h.plain, h.keys, h.resolves⟩, h.depth⟩, h.root⟩,
    fun h => ⟨h.1.1.1, h.1.1.2.1, h.1.2, h.1.1.2.2, h.2⟩⟩

end Parse

theorem map_tail_of_next {event : Event} {events : List Entry} (h : Next event events) :
    events.map Prod.fst = event :: events.tail.map Prod.fst := by
  obtain ⟨span, tail, rfl⟩ := next_iff.mp h
  rfl

theorem next_of_map {event : Event} {events : List Entry} {rest : List Event}
    (h : events.map Prod.fst = event :: rest) :
    Next event events ∧ events.tail.map Prod.fst = rest := by
  obtain ⟨⟨event', span⟩, tail, rfl, rfl, htail⟩ := List.map_eq_cons_iff.mp h
  exact ⟨next_iff.mpr ⟨span, tail, rfl⟩, htail⟩

/-- The next event is the one that is asked for. -/
theorem expect_of_next {p : Event → Bool} {event : Event} {events : List Entry}
    (h : Next event events) (hp : p event = true) :
    ∃ r, expect p events = .ok r ∧ r.rest = events.tail := by
  have hshorter : events.tail.length < events.length := by
    obtain ⟨span, tail, rfl⟩ := next_iff.mp h
    exact Nat.lt_succ_self _
  exact ⟨⟨(), events.tail, hshorter⟩, expect_ok.mpr ⟨event, h, hp, rfl⟩, rfl⟩

/-- The parser accepts the events exactly if they begin with one document whose tree is in order,
    and returns a value of the shape of that tree. -/
theorem parse_iff (core : Tag → Bool) (events : List Entry) :
    (∀ v, parse core events = .ok v →
      ∃ t, Lists t (events.map Prod.fst) ∧ t.Acceptable core ∧ Shape t v) ∧
    ∀ t, Lists t (events.map Prod.fst) → t.Acceptable core →
      ∃ v, parse core events = .ok v ∧ Shape t v := by
  constructor
  · intro v h
    obtain ⟨start, document, hstart, hdocument, hend, hnull, rfl⟩ := parse_ok.mp h
    obtain ⟨first, node, last, hfirst, hnode, hlast, hvalue, hrest⟩ := parseDocument_ok.mp hdocument
    obtain ⟨t, hlist, hgood, hshape⟩ := parseNode_sound _ _ (Nat.le_refl _) 0 node hnode
    obtain ⟨e₁, hnext₁, hp₁, hrest₁⟩ := expect_ok.mp hstart
    obtain ⟨e₂, hnext₂, hp₂, hrest₂⟩ := expect_ok.mp hfirst
    obtain ⟨e₃, hnext₃, hp₃, hrest₃⟩ := expect_ok.mp hlast
    obtain ⟨explicit, rfl⟩ : ∃ explicit, e₂ = .documentStart explicit := by
      cases e₂ with
      | documentStart explicit => exact ⟨explicit, rfl⟩
      | _ => cases hp₂
    obtain rfl := of_decide_eq_true hp₁
    obtain rfl := of_decide_eq_true hp₃
    rw [hvalue] at hnull ⊢
    refine ⟨t, ⟨explicit, document.rest.tail.map Prod.fst, ?_⟩,
      acceptable_iff.mpr ⟨hgood, fun h => hnull ((null_iff hshape).mpr h)⟩, hshape⟩
    rw [map_tail_of_next hnext₁, ← hrest₁, map_tail_of_next hnext₂, ← hrest₂, hlist,
      map_tail_of_next hnext₃, ← hrest₃, ← hrest, map_tail_of_next hend]
  · rintro t ⟨explicit, rest, hlist⟩ hacceptable
    obtain ⟨hgood, hroot⟩ := acceptable_iff.mp hacceptable
    obtain ⟨hnext₁, hmap₁⟩ := next_of_map hlist
    obtain ⟨start, hstart, hrest₁⟩ := expect_of_next (p := (· = .streamStart)) hnext₁ (by simp)
    rw [← hrest₁] at hmap₁
    obtain ⟨hnext₂, hmap₂⟩ := next_of_map hmap₁
    obtain ⟨first, hfirst, hrest₂⟩ := expect_of_next (p := isDocumentStart) hnext₂ rfl
    rw [← hrest₂] at hmap₂
    obtain ⟨node, hnode, hmap₃, hshape⟩ := parseNode_complete t 0 first.rest _ hmap₂ hgood
    obtain ⟨hnext₃, hmap₄⟩ := next_of_map hmap₃
    obtain ⟨last, hlast, hrest₃⟩ := expect_of_next (p := (· = .documentEnd)) hnext₃ (by simp)
    rw [← hrest₃] at hmap₄
    refine ⟨node.value.intoJson, parse_ok.mpr ⟨start, ⟨node.value, last.rest,
      last.shorter.trans (node.shorter.trans first.shorter)⟩, hstart, ?_, (next_of_map hmap₄).1, ?_,
      rfl⟩, hshape⟩
    · exact parseDocument_ok.mpr ⟨first, node, last, hfirst, hnode, hlast, rfl, rfl⟩
    · exact fun h => hroot ((null_iff hshape).mp h)

end Oikade.Yaml
