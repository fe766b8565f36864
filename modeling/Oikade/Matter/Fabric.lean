/-
  The fabrics of a Matter node as resources: `fabric_resources` of
  `oikade-matter-adapter/src/runtime.rs`, and what the host makes of the inventory in a health
  response.

  The label of a fabric is text that a controller has written. The inventory passes it on as it is,
  and the host refuses a resource whose name begins or ends with white space: the inventory is
  accepted exactly when no label does (`fabricResources_accepted_iff`).

  The fabric table is that of rs-matter, taken as stored: distinct indexes from 1 to 255.
-/
import Oikade.Adapter.Validate
import Mathlib.Data.Finset.Card
import Mathlib.Order.Interval.Finset.Nat

namespace Oikade.Matter

open Adapter (Resource)

structure Fabric where
  index : Nat
  label : String
  vendorId : Nat
  fabricId : Nat
  nodeId : Nat
  compressedFabricId : Nat
  deriving DecidableEq, Repr

structure FabricTable where
  fabrics : List Fabric
  bounded : ∀ f ∈ fabrics, 1 ≤ f.index ∧ f.index ≤ 255
  distinct : (fabrics.map Fabric.index).Nodup

def fabricResource (f : Fabric) : Resource where
  resourceType := "matter.fabric"
  id := toString f.index
  -- Without a label the name is left out, and the host reads the empty text.
  name := if f.label.isEmpty then "" else f.label
  attributes := ((((∅ : Std.ExtTreeMap String String).insert "vendor_id" (toString f.vendorId)).insert
    "fabric_id" (toString f.fabricId)).insert "node_id" (toString f.nodeId)).insert
    "compressed_fabric_id" (toString f.compressedFabricId)

def fabricResources (table : FabricTable) : List Resource := table.fabrics.map fabricResource

/-! ## Numbers in decimal -/

theorem repr_inj {n m : Nat} (h : n.repr = m.repr) : n = m := by
  have hd := congrArg String.toList h
  rw [Nat.toList_repr, Nat.toList_repr] at hd
  rw [← Nat.ofDigitChars_ten_toDigits (n := n), hd, Nat.ofDigitChars_ten_toDigits]

theorem not_isWhitespace_of_isDigit {c : Char} (h : c.isDigit = true) :
    Text.isWhitespace c = false := by
  have hn : 48 ≤ c.toNat ∧ c.toNat ≤ 57 := by
    rw [Char.isDigit, Bool.and_eq_true, decide_eq_true_eq, decide_eq_true_eq, ge_iff_le,
      UInt32.le_iff_toNat_le, UInt32.le_iff_toNat_le] at h
    exact h
  simp only [Text.isWhitespace, Bool.or_eq_false_iff, Bool.and_eq_false_iff, decide_eq_false_iff_not]
  omega

/-- A number in decimal has no white space to trim. -/
theorem trim_repr (n : Nat) : Text.trim n.repr = n.repr := by
  rw [Text.trim_eq_self_iff, Nat.toList_repr, Text.edgesOk_iff]
  have hdigit : ∀ c ∈ Nat.toDigits 10 n, Text.isWhitespace c = false := fun c hc =>
    not_isWhitespace_of_isDigit (Nat.isDigit_of_mem_toDigits (by decide) (by decide) hc)
  exact ⟨fun c hc => hdigit c (List.mem_of_mem_head? hc),
    fun c hc => hdigit c (List.mem_of_getLast? hc)⟩

theorem repr_not_empty (n : Nat) : n.repr.isEmpty = false := by
  by_contra h
  rw [Bool.not_eq_false, String.isEmpty_iff, ← String.toList_inj, Nat.toList_repr] at h
  exact Nat.toDigits_ne_nil h

/-! ## The inventory -/

theorem validAttribute_of_number {key : String} (hk : key.isEmpty = false)
    (ht : key = Text.trim key) (n : Nat) : Adapter.validAttribute (key, toString n) = true := by
  simp [Adapter.validAttribute, hk, ← ht, trim_repr]

theorem attributes_valid (f : Fabric) :
    (fabricResource f).attributes.toList.all Adapter.validAttribute = true := by
  rw [List.all_eq_true]
  rintro ⟨key, value⟩ hm
  rw [Std.ExtTreeMap.mem_toList_iff_getElem?_eq_some] at hm
  simp only [fabricResource, Core.getElem?_insert] at hm
  repeat' split at hm
  all_goals
    rename_i hkey
    first
      | (cases Option.some.inj hm
         subst hkey
         exact validAttribute_of_number (by decide) (by decide) _)
      | simp at hm

theorem attributes_size (f : Fabric) :
    (fabricResource f).attributes.size ≤ Adapter.maxResourceAttributes := by
  refine Nat.le_trans ?_ (by decide : 4 ≤ Adapter.maxResourceAttributes)
  have hinsert : ∀ (m : Std.ExtTreeMap String String) (k v : String) (n : Nat), m.size ≤ n →
      (m.insert k v).size ≤ n + 1 := fun m k v n h =>
    Nat.le_trans Std.ExtTreeMap.size_insert_le (Nat.succ_le_succ h)
  exact hinsert _ _ _ 3 (hinsert _ _ _ 2 (hinsert _ _ _ 1 (hinsert _ _ _ 0 (by simp))))

theorem fabricResource_valid (f : Fabric) :
    (fabricResource f).valid = true ↔ Text.edgesOk f.label.toList = true := by
  have hname : (fabricResource f).name = f.label := by
    unfold fabricResource
    split
    · rename_i h
      rw [String.isEmpty_iff.mp h]
    · rfl
  rw [← Text.trim_eq_self_iff]
  simp only [Resource.valid, attributes_valid, attributes_size, hname]
  have htype : "matter.fabric" = Text.trim "matter.fabric" := by decide
  simp [fabricResource, repr_not_empty, trim_repr, ← htype]
  exact eq_comm

theorem fabrics_length (table : FabricTable) : table.fabrics.length ≤ Adapter.maxResources := by
  have hsub : (table.fabrics.map Fabric.index).toFinset ⊆ Finset.Icc 1 255 := by
    intro n hn
    obtain ⟨f, hf, rfl⟩ := List.mem_map.mp (List.mem_toFinset.mp hn)
    exact Finset.mem_Icc.mpr (table.bounded f hf)
  have hcard := Finset.card_le_card hsub
  rw [List.toFinset_card_of_nodup table.distinct, List.length_map, Nat.card_Icc] at hcard
  exact Nat.le_trans hcard (by decide)

/-- The host accepts the inventory exactly when no label begins or ends with white space. -/
theorem fabricResources_accepted_iff (table : FabricTable) :
    (∃ sorted, Adapter.validateResources (fabricResources table) = .ok sorted) ↔
      ∀ f ∈ table.fabrics, Text.edgesOk f.label.toList = true := by
  have hkeys : ((fabricResources table).map Resource.key).Nodup := by
    have hmap : (fabricResources table).map Resource.key =
        (table.fabrics.map Fabric.index).map fun n => ("matter.fabric", toString n) := by
      simp [fabricResources, fabricResource, Resource.key]
    rw [hmap]
    exact table.distinct.map fun n m h => repr_inj (Prod.mk.inj h).2
  have hlen : (fabricResources table).length ≤ Adapter.maxResources := by
    rw [fabricResources, List.length_map]
    exact fabrics_length table
  rw [Adapter.validateResources_ok]
  constructor
  · rintro ⟨-, hv, -⟩ f hf
    exact (fabricResource_valid f).mp (hv _ (List.mem_map_of_mem hf))
  · intro hl
    refine ⟨hlen, fun r hr => ?_, hkeys⟩
    obtain ⟨f, hf, rfl⟩ := List.mem_map.mp hr
    exact (fabricResource_valid f).mpr (hl f hf)

/-- A controller has written a blank before the name of its fabric. -/
def blankLabel : FabricTable where
  fabrics := [⟨1, " Home", 4937, 1, 112233, 5⟩]
  bounded := by decide
  distinct := by decide

theorem blankLabel_refused :
    ¬∃ sorted, Adapter.validateResources (fabricResources blankLabel) = .ok sorted := by
  rintro ⟨sorted, h⟩
  have hv := (Adapter.validateResources_ok.mp ⟨sorted, h⟩).2.1 _ (List.mem_map_of_mem
    List.mem_cons_self)
  exact absurd ((fabricResource_valid _).mp hv) (by decide)

end Oikade.Matter
