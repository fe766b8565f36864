/-
  What `Device::validate` accepts and what `register` restores.

  A validated device has distinct capability identifiers. `restoreValues` never changes a stored
  value: it extends the stored record by the initial values of the capabilities that have none
  (`restores_extends`), and afterwards the current and the persisted record agree on every declared
  capability (`Holds`). A stored record that holds a valid value for every declared capability is
  restored as it is (`restores_of_holds`).
-/
import Oikade.Core.Invariant
import Mathlib.Data.List.Nodup

namespace Oikade.Core

open Fallible (bind_ok)

/-! ## Validated devices -/

theorem validateCapabilities_ok {d : DeviceId} {seen : List CapabilityId} {cs : List Capability}
    (h : Device.validateCapabilities d seen cs = .ok ()) :
    (∀ c ∈ cs, c.validate = .ok () ∧ c.id ∉ seen) ∧ (cs.map Capability.id).Nodup := by
  induction cs generalizing seen with
  | nil => simp
  | cons c cs ih =>
    simp only [Device.validateCapabilities, bind_ok] at h
    obtain ⟨u, hc, h⟩ := h
    split at h
    · simp [bind, Except.bind, throw, throwThe, MonadExceptOf.throw] at h
    · rename_i hseen
      obtain ⟨h1, h2⟩ := ih h
      refine ⟨?_, ?_⟩
      · rintro c' (_ | ⟨_, hc'⟩)
        · exact ⟨hc, hseen⟩
        · exact ⟨(h1 c' hc').1, fun hm => (h1 c' hc').2 (List.mem_cons_of_mem _ hm)⟩
      · rw [List.map_cons, List.nodup_cons]
        refine ⟨fun hm => ?_, h2⟩
        obtain ⟨c', hc', he⟩ := List.mem_map.mp hm
        exact (h1 c' hc').2 (he ▸ List.mem_cons_self)

/-- The checks of `Device::validate` that a device has passed. -/
theorem Device.validate_checks {d : Device} (h : d.validate = .ok ()) :
    (Text.trim d.name).isEmpty = false ∧ d.capabilities.isEmpty = false ∧
      Device.validateCapabilities d.id [] d.capabilities = .ok () := by
  cases hn : (Text.trim d.name).isEmpty with
  | true => simp [Device.validate, hn, bind, Except.bind, throw, throwThe, MonadExceptOf.throw] at h
  | false => cases hc : d.capabilities.isEmpty with
    | true =>
      simp [Device.validate, hn, hc, bind, Except.bind, throw, throwThe, MonadExceptOf.throw] at h
    | false => exact ⟨rfl, rfl, by simpa [Device.validate, hn, hc] using h⟩

/-- A validated device has validated capabilities with distinct identifiers. -/
theorem Device.validate_ok {d : Device} (h : d.validate = .ok ()) :
    (∀ c ∈ d.capabilities, c.validate = .ok ()) ∧ (d.capabilities.map Capability.id).Nodup := by
  obtain ⟨h1, h2⟩ := validateCapabilities_ok (validate_checks h).2.2
  exact ⟨fun c hc => (h1 c hc).1, h2⟩

/-- A validated capability of a built-in type has the kind of the type. -/
theorem Capability.validate_kind {c : Capability} (h : c.validate = .ok ()) {b : BuiltinCapability}
    (hb : lookupBuiltinCapability c.capabilityType = some b) : c.kind = b.kind := by
  by_contra hne
  cases hn : (Text.trim c.name).isEmpty <;>
    simp [Capability.validate, hn, hb, hne, bind, Except.bind, throw, throwThe,
      MonadExceptOf.throw] at h

/-- What the check of a built-in type leaves of a value. -/
theorem BuiltinCapability.validateValue_ok {b : BuiltinCapability} {value : Value}
    (h : b.validateValue value = .ok ()) : value.kind = b.kind ∧ ∀ n, value = .number n →
      n.isFinite = true ∧ (b.capabilityType = lightLevel →
        Float64.inRange lightLevelMinimum lightLevelMaximum n = true) := by
  unfold validateValue at h
  obtain ⟨u, hfin, h⟩ := bind_ok.mp h
  have hkind : value.kind = b.kind := by
    by_contra hne
    simp [hne, bind, Except.bind, throw, throwThe, MonadExceptOf.throw] at h
  refine ⟨hkind, ?_⟩
  rintro n rfl
  constructor
  · by_contra hn
    simp [Value.validate, hn] at hfin
  · intro hl
    by_contra hr
    rw [Bool.not_eq_true] at hr
    simp [hkind, hl, hr, throw, throwThe, MonadExceptOf.throw] at h

/-- A valid value has the kind that its validated capability declares. -/
theorem kind_of_validateCapabilityValue {c : Capability} {value : Value}
    (hc : c.validate = .ok ()) (h : validateCapabilityValue c value = .ok ()) :
    value.kind = c.kind := by
  unfold validateCapabilityValue at h
  split at h
  · rename_i b hb
    rw [Capability.validate_kind hc hb]
    exact (BuiltinCapability.validateValue_ok (Fallible.mapError_ok.mp h)).1
  · split at h
    · simp at h
    · by_contra hne
      simp [hne] at h

theorem capabilityMap_foldl_mem (cs : List Capability)
    (m : Std.ExtTreeMap CapabilityId Capability) {cid : CapabilityId} {c : Capability}
    (h : (cs.foldl (fun m c => m.insert c.id c) m)[cid]? = some c) : c ∈ cs ∨ m[cid]? = some c := by
  induction cs generalizing m with
  | nil => exact .inr h
  | cons a cs ih =>
    rcases ih _ h with h | h
    · exact .inl (List.mem_cons_of_mem _ h)
    · rw [getElem?_insert] at h
      split at h
      · exact .inl (Option.some.inj h ▸ List.mem_cons_self)
      · exact .inr h

/-- A capability that is found is declared. -/
theorem capabilityMap_mem {cs : List Capability} {cid : CapabilityId} {c : Capability}
    (h : (capabilityMap cs)[cid]? = some c) : c ∈ cs :=
  (capabilityMap_foldl_mem cs ∅ h).resolve_right (by simp)

theorem capabilityMap_foldl_self {cs : List Capability} (hnd : (cs.map Capability.id).Nodup)
    (m : Std.ExtTreeMap CapabilityId Capability) {cid : CapabilityId} :
    (∀ c ∈ cs, c.id = cid → (cs.foldl (fun m c => m.insert c.id c) m)[cid]? = some c) ∧
      ((∀ c ∈ cs, c.id ≠ cid) → (cs.foldl (fun m c => m.insert c.id c) m)[cid]? = m[cid]?) := by
  induction cs generalizing m with
  | nil => simp
  | cons a cs ih =>
    rw [List.map_cons, List.nodup_cons] at hnd
    obtain ⟨h1, h2⟩ := ih hnd.2 (m.insert a.id a)
    constructor
    · intro c hc hid
      rcases List.mem_cons.mp hc with rfl | hc
      · rw [List.foldl_cons, h2, getElem?_insert, if_pos hid]
        exact fun c' hc' he => hnd.1 (List.mem_map.mpr ⟨c', hc', he.trans hid.symm⟩)
      · exact h1 c hc hid
    · intro hne
      rw [List.foldl_cons, h2 fun c hc => hne c (List.mem_cons_of_mem _ hc), getElem?_insert,
        if_neg (hne a List.mem_cons_self)]

/-- A declared capability is found. -/
theorem capabilityMap_of_mem {cs : List Capability} (hnd : (cs.map Capability.id).Nodup)
    {c : Capability} (hc : c ∈ cs) : (capabilityMap cs)[c.id]? = some c :=
  (capabilityMap_foldl_self hnd ∅).1 c hc rfl

/-! ## Restored values -/

/-- The record has a valid value for every capability. -/
def Holds (record : Record) (cs : List Capability) : Prop :=
  ∀ c ∈ cs, ∃ w, record[c.id]? = some w ∧ validateCapabilityValue c w = .ok ()

/-- The values in memory agree with the persisted ones on every capability. -/
def DeviceValues.Agree (values : DeviceValues) (cs : List Capability) : Prop :=
  Holds values.persisted cs ∧ ∀ c ∈ cs, values.current[c.id]? = values.persisted[c.id]?

/-- Every value of `record` is in `record'`. -/
def Extends (record record' : Record) : Prop :=
  ∀ (cid : CapabilityId) (w : Value), record[cid]? = some w → record'[cid]? = some w

theorem Extends.refl (record : Record) : Extends record record := fun _ _ h => h

theorem Extends.holds {record record' : Record} {cs : List Capability} (h : Extends record record')
    (hr : Holds record cs) : Holds record' cs := by
  intro c hc
  obtain ⟨w, hw, hv⟩ := hr c hc
  exact ⟨w, h c.id w hw, hv⟩

theorem restoreValues_ok {acc restored : Restored} {cs : List Capability}
    (h : restoreValues acc cs = .ok restored) (hnd : (cs.map Capability.id).Nodup) :
    Extends acc.persisted restored.persisted ∧
      (∀ cid, cid ∉ cs.map Capability.id → restored.current[cid]? = acc.current[cid]?) ∧
      (DeviceValues.mk restored.current restored.persisted).Agree cs ∧
      (restored.dirty = false → restored.persisted = acc.persisted ∧ acc.dirty = false) := by
  induction cs generalizing acc with
  | nil =>
    cases Except.ok.inj h
    exact ⟨.refl _, fun _ _ => rfl, ⟨by simp [Holds], by simp⟩, fun hd => ⟨rfl, hd⟩⟩
  | cons c cs ih =>
    rw [List.map_cons, List.nodup_cons] at hnd
    -- the two branches differ only in what they put into the records
    have key : ∀ (acc' : Restored) (w : Value), restoreValues acc' cs = .ok restored →
        validateCapabilityValue c w = .ok () → Extends acc.persisted acc'.persisted →
        acc'.persisted[c.id]? = some w → acc'.current = acc.current.insert c.id w →
        (acc'.dirty = false → acc'.persisted = acc.persisted ∧ acc.dirty = false) →
        Extends acc.persisted restored.persisted ∧
          (∀ cid, cid ∉ (c :: cs).map Capability.id →
            restored.current[cid]? = acc.current[cid]?) ∧
          (DeviceValues.mk restored.current restored.persisted).Agree (c :: cs) ∧
          (restored.dirty = false → restored.persisted = acc.persisted ∧ acc.dirty = false) := by
      intro acc' w hrest hv hext hp hcur hdirty
      obtain ⟨h1, h2, ⟨h3, h4⟩, h5⟩ := ih hrest hnd.2
      have hcw : restored.current[c.id]? = some w := by
        rw [h2 c.id hnd.1, hcur, getElem?_insert, if_pos rfl]
      refine ⟨fun cid w' hw' => h1 cid w' (hext cid w' hw'), ?_, ⟨?_, ?_⟩, ?_⟩
      · intro cid hcid
        rw [List.map_cons, List.mem_cons, not_or] at hcid
        rw [h2 cid hcid.2, hcur, getElem?_insert, if_neg (Ne.symm hcid.1)]
      · rintro c' (_ | ⟨_, hc'⟩)
        · exact ⟨w, h1 c.id w hp, hv⟩
        · exact h3 c' hc'
      · rintro c' (_ | ⟨_, hc'⟩)
        · exact hcw.trans (h1 c.id w hp).symm
        · exact h4 c' hc'
      · intro hd
        obtain ⟨hp', hd'⟩ := h5 hd
        obtain ⟨hp'', hd''⟩ := hdirty hd'
        exact ⟨hp'.trans hp'', hd''⟩
    simp only [restoreValues] at h
    split at h
    · rename_i w hw
      obtain ⟨u, hv, h⟩ := bind_ok.mp h
      exact key _ w h hv (.refl _) hw rfl fun hd => ⟨rfl, hd⟩
    · rename_i hw
      obtain ⟨u, hv, h⟩ := bind_ok.mp h
      refine key _ c.initialValue h hv ?_ (by simp only [getElem?_insert, if_true]) rfl
        fun hd => Bool.noConfusion hd
      intro cid w hcid
      rw [getElem?_insert, if_neg fun he => by simp [← he, hw] at hcid]
      exact hcid

/-- What a registration restores extends what was stored. -/
theorem restores_extends {d : Device} {loaded : Option Record} {restored : Restored}
    (h : Restores d loaded restored) (hv : d.validate = .ok ()) :
    (∀ record, loaded = some record → Extends record restored.persisted) ∧
      (DeviceValues.mk restored.current restored.persisted).Agree d.capabilities ∧
      (restored.dirty = false → loaded = some restored.persisted) := by
  obtain ⟨h1, -, h3, h4⟩ := restoreValues_ok h (Device.validate_ok hv).2
  refine ⟨?_, h3, fun hd => ?_⟩
  · rintro record rfl
    exact h1
  · obtain ⟨hp, hnone⟩ := h4 hd
    cases loaded with
    | none => exact Bool.noConfusion hnone
    | some record => exact congrArg some hp.symm

theorem restoreValues_of_holds {acc : Restored} {cs : List Capability}
    (h : Holds acc.persisted cs) : ∃ restored, restoreValues acc cs = .ok restored ∧
      restored.persisted = acc.persisted ∧ restored.dirty = acc.dirty := by
  induction cs generalizing acc with
  | nil => exact ⟨acc, rfl, rfl, rfl⟩
  | cons c cs ih =>
    obtain ⟨w, hw, hv⟩ := h c List.mem_cons_self
    obtain ⟨restored, h1, h2, h3⟩ := @ih { acc with current := acc.current.insert c.id w }
      fun c' hc' => h c' (List.mem_cons_of_mem _ hc')
    refine ⟨restored, ?_, h2, h3⟩
    simp only [restoreValues, hw]
    exact bind_ok.mpr ⟨(), hv, h1⟩

/-- A stored record with a valid value for every capability is restored as it is. -/
theorem restores_of_holds {d : Device} {record : Record} (h : Holds record d.capabilities)
    (hv : d.validate = .ok ()) : ∃ restored, Restores d (some record) restored ∧
      restored.persisted = record ∧ restored.dirty = false ∧
      ∀ c ∈ d.capabilities, restored.current[c.id]? = record[c.id]? := by
  obtain ⟨restored, h1, h2, h3⟩ := restoreValues_of_holds (show Holds
    (Restored.mk ∅ record false).persisted d.capabilities from h)
  have hr : Restores d (some record) restored := h1
  refine ⟨restored, hr, h2, h3, fun c hc => ?_⟩
  exact ((restores_extends hr hv).2.1.2 c hc).trans (by rw [h2])

end Oikade.Core
