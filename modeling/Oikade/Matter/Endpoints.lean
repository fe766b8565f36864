/-
  The endpoint numbers of the Matter bridge over the lifetime of its state directory: builds that
  succeed or fail, and restarts of the process that read `endpoints.json` again.

  `save` writes a temporary file and renames it over `endpoints.json`; each of its steps may fail,
  and the rename is atomic. A file is what it parses to, so that reading back what was written is
  assumed of the JSON library; `none` stands for a file that is missing or does not parse.

  The whole history of builds is kept in `built`. The invariant (`Lifetime.Ok`) says that the file
  reads back to the numbers in memory and that these still hold every number that was ever returned.
-/
import Oikade.Matter.Refs

namespace Oikade.Matter

open Adapter (DeviceState)

/-! ## Saving -/

namespace EndpointMappings

/-- What is written to `endpoints.json`. -/
def toFile (m : EndpointMappings) : MappingFile where
  version := 1
  nextEndpoint := UInt16.ofNat m.nextEndpoint
  mappings := m.mappings.map fun _ endpoint => UInt16.ofNat endpoint

/-- The state directory: `endpoints.json` and `endpoints.json.tmp`. -/
structure Disk where
  endpoints : Option MappingFile
  temporary : Option MappingFile

/-- Which step of `save` fails, if any. -/
inductive SaveOutcome where
  | notEncoded (message : String)
  /-- The temporary file is left with some content. -/
  | notWritten (message : String) (left : Option MappingFile)
  | notRenamed (message : String)
  | done

def SaveOutcome.result : SaveOutcome → Except String Unit
  | .notEncoded message | .notWritten message _ | .notRenamed message => .error message
  | .done => .ok ()

def Disk.write (disk : Disk) (file : Option MappingFile) : Disk := { disk with temporary := file }

def Disk.rename (disk : Disk) : Disk := ⟨disk.temporary, none⟩

def save (m : EndpointMappings) (outcome : SaveOutcome) (disk : Disk) :
    Except String Unit × Disk :=
  match outcome with
  | .notEncoded message => (.error message, disk)
  | .notWritten message left => (.error message, disk.write left)
  | .notRenamed message => (.error message, disk.write (some m.toFile))
  | .done => (.ok (), (disk.write (some m.toFile)).rename)

end EndpointMappings

open EndpointMappings (Disk SaveOutcome MappingFile)

/-- `build` with the state directory it saves to. -/
def ProjectionBuilder.buildOn (builder : ProjectionBuilder) (disk : Disk) (outcome : SaveOutcome)
    (devices : List DeviceState) : Except SyncError BuiltProjection × ProjectionBuilder × Disk :=
  match devices.foldlM pushDevice ⟨builder.mappings, [], [], []⟩ with
  | .error e => (.error e, builder, disk)
  | .ok b =>
    if maxDynamicEndpoints < b.result.length then
      (.error (.capacity b.result.length), builder, disk)
    else
      match b.mappings.save outcome disk with
      | (.error message, disk) => (.error (.persistence message), builder, disk)
      | (.ok (), disk) => (.ok ⟨b.result, b.refs, b.diagnostics⟩, ⟨b.mappings⟩, disk)

theorem ProjectionBuilder.buildOn_build (builder : ProjectionBuilder) (disk : Disk)
    (outcome : SaveOutcome) (devices : List DeviceState) :
    ((builder.buildOn disk outcome devices).1, (builder.buildOn disk outcome devices).2.1) =
      builder.build outcome.result devices := by
  unfold buildOn build
  cases devices.foldlM pushDevice ⟨builder.mappings, [], [], []⟩ with
  | error e => rfl
  | ok b =>
    by_cases hlen : maxDynamicEndpoints < b.result.length
    · simp [hlen]
    · cases outcome <;> simp [hlen, EndpointMappings.save, SaveOutcome.result]

/-- A build fails and leaves the numbers in memory and in the file, or it returns the numbers that
    are then in both. -/
theorem ProjectionBuilder.buildOn_cases {builder builder' : ProjectionBuilder} {disk disk' : Disk}
    {outcome : SaveOutcome} {devices : List DeviceState} {r : Except SyncError BuiltProjection}
    (h : builder.buildOn disk outcome devices = (r, builder', disk')) :
    (∃ e, r = .error e ∧ builder' = builder ∧ disk'.endpoints = disk.endpoints) ∨
      ∃ b, devices.foldlM pushDevice ⟨builder.mappings, [], [], []⟩ = .ok b ∧
        r = .ok ⟨b.result, b.refs, b.diagnostics⟩ ∧ builder' = ⟨b.mappings⟩ ∧
        disk'.endpoints = some b.mappings.toFile := by
  unfold buildOn at h
  split at h
  · cases h
    exact .inl ⟨_, rfl, rfl, rfl⟩
  · rename_i b hb
    split at h
    · cases h
      exact .inl ⟨_, rfl, rfl, rfl⟩
    · cases outcome with
      | done =>
        cases h
        exact .inr ⟨b, hb, rfl, rfl, rfl⟩
      | notEncoded message =>
        cases h
        exact .inl ⟨_, rfl, rfl, rfl⟩
      | notWritten message left =>
        cases h
        exact .inl ⟨_, rfl, rfl, rfl⟩
      | notRenamed message =>
        cases h
        exact .inl ⟨_, rfl, rfl, rfl⟩

/-! ## Reading back -/

namespace EndpointMappings

theorem keep_insert {m : EndpointMappings} {entry : String × UInt16}
    (hd : firstDynamicEndpoint ≤ entry.2.toNat) (hu : m.used entry.2.toNat = false) :
    (m.keep entry).mappings = m.mappings.insert entry.1 entry.2.toNat := by
  unfold keep
  rw [dif_pos ⟨hd, hu⟩]
  rfl

/-- The entries that `load` meets, when none is sorted out. -/
theorem foldl_keep {entries : List (String × UInt16)} {m : EndpointMappings}
    (hd : ∀ entry ∈ entries, firstDynamicEndpoint ≤ entry.2.toNat)
    (hu : ∀ entry ∈ entries, m.used entry.2.toNat = false)
    (hkeys : (entries.map Prod.fst).Nodup) (hnd : (entries.map Prod.snd).Nodup)
    {k : String} {n : Nat} : (entries.foldl keep m).mappings[k]? = some n ↔
      (∃ e, (k, e) ∈ entries ∧ e.toNat = n) ∨
        (k ∉ entries.map Prod.fst ∧ m.mappings[k]? = some n) := by
  induction entries generalizing m with
  | nil => simp
  | cons entry entries ih =>
    rw [List.forall_mem_cons] at hd hu
    rw [List.map_cons, List.nodup_cons] at hkeys hnd
    have hins := keep_insert hd.1 hu.1
    have hfree : ∀ e ∈ entries, (m.keep entry).used e.2.toNat = false := by
      intro e he
      rw [Bool.eq_false_iff, ne_eq, used_iff]
      rintro ⟨k', hk'⟩
      rw [hins, Core.getElem?_insert] at hk'
      split at hk'
      · have heq : entry.2 = e.2 := UInt16.toNat_inj.mp (Option.some.inj hk')
        exact hnd.1 (heq ▸ List.mem_map_of_mem he)
      · have hused := (used_iff m _).mpr ⟨k', hk'⟩
        rw [hu.2 e he] at hused
        cases hused
    rw [List.foldl_cons, ih hd.2 hfree hkeys.2 hnd.2, hins, Core.getElem?_insert]
    by_cases hk : entry.1 = k
    · subst hk
      have hno : ∀ e, (entry.1, e) ∉ entries := fun e he =>
        hkeys.1 (List.mem_map.mpr ⟨_, he, rfl⟩)
      constructor
      · rintro (⟨e, he, -⟩ | ⟨-, he⟩)
        · exact absurd he (hno e)
        · exact .inl ⟨entry.2, List.mem_cons_self, by simpa using he⟩
      · rintro (⟨e, he, rfl⟩ | ⟨hk', -⟩)
        · rcases List.mem_cons.mp he with heq | he
          · have hsnd : e = entry.2 := congrArg Prod.snd heq
            exact .inr ⟨hkeys.1, by simp [hsnd]⟩
          · exact absurd he (hno e)
        · simp at hk'
    · have hcons : ∀ e, (k, e) ∈ entry :: entries ↔ (k, e) ∈ entries := fun e => by
        rw [List.mem_cons]
        exact or_iff_right fun he => hk (by rw [← he])
      simp [hcons, hk, Ne.symm hk]

/-- What was saved is read back. -/
theorem load_toFile (m : EndpointMappings) : (load (some m.toFile)).mappings = m.mappings := by
  have hfile : ∀ (k : String) (e : UInt16), (k, e) ∈ m.toFile.mappings.toList ↔
      ∃ n, m.mappings[k]? = some n ∧ UInt16.ofNat n = e := fun k e => by
    rw [Std.ExtTreeMap.mem_toList_iff_getElem?_eq_some, toFile, Std.ExtTreeMap.getElem?_map,
      Option.map_eq_some_iff]
  have hnat : ∀ (k : String) (n : Nat), m.mappings[k]? = some n → (UInt16.ofNat n).toNat = n :=
    fun k n h => UInt16.toNat_ofNat_of_lt' (Nat.lt_succ_of_le (m.dynamic k n h).2)
  have hkeys : (m.toFile.mappings.toList.map Prod.fst).Nodup := by
    rw [Std.ExtTreeMap.map_fst_toList_eq_keys]
    exact Std.ExtTreeMap.nodup_keys
  have hnd : (m.toFile.mappings.toList.map Prod.snd).Nodup := by
    refine List.Nodup.map_on ?_ (List.Nodup.of_map _ hkeys)
    rintro ⟨k, e⟩ hx ⟨k', e'⟩ hy he
    obtain ⟨n, hn, rfl⟩ := (hfile k e).mp hx
    obtain ⟨n', hn', rfl⟩ := (hfile k' e').mp hy
    have hnn : n = n' := by
      rw [← hnat k n hn, ← hnat k' n' hn']
      exact congrArg UInt16.toNat he
    subst hnn
    rw [m.distinct k k' n hn hn']
  refine Std.ExtTreeMap.ext_getElem? fun k => Option.ext fun n => ?_
  have hone : m.toFile.version = 1 := rfl
  rw [load]
  dsimp only
  rw [if_neg (not_not.mpr hone), foldl_keep ?_ ?_ hkeys hnd]
  · simp only [hfile, default, Std.ExtTreeMap.getElem?_empty, reduceCtorEq, and_false, or_false]
    constructor
    · rintro ⟨e, ⟨n', hn', rfl⟩, rfl⟩
      rwa [hnat k n' hn']
    · intro hn
      exact ⟨_, ⟨n, hn, rfl⟩, hnat k n hn⟩
  · rintro ⟨k', e⟩ he
    obtain ⟨n', hn', rfl⟩ := (hfile k' e).mp he
    rw [hnat k' n' hn']
    exact (m.dynamic k' n' hn').1
  · rintro entry -
    rw [Bool.eq_false_iff, ne_eq, used_iff]
    simp [default]

/-! ## What a build adds -/

/-- Every number stays, and a new one is in the range of the dynamic endpoints. -/
structure GrowsTo (m m' : EndpointMappings) : Prop where
  keeps : m.Keeps m'
  fresh : ∀ (k : String) (e : Nat), m'.mappings[k]? = some e → m.mappings[k]? = some e ∨
    firstDynamicEndpoint ≤ e ∧ e < maxEndpoint

theorem GrowsTo.refl (m : EndpointMappings) : m.GrowsTo m := ⟨Keeps.refl m, fun _ _ h => .inl h⟩

theorem GrowsTo.trans {m m' m'' : EndpointMappings} (h : m.GrowsTo m') (h' : m'.GrowsTo m'') :
    m.GrowsTo m'' := by
  refine ⟨h.keeps.trans h'.keeps, fun k e hk => ?_⟩
  rcases h'.fresh k e hk with hk | hk
  · exact h.fresh k e hk
  · exact .inr hk

theorem allocate_grows {m m' : EndpointMappings} {key : String} {e : Nat}
    (h : m.allocate key = some (e, m')) : m.GrowsTo m' := by
  refine ⟨(allocate_some h).2, fun k e' hk => ?_⟩
  unfold allocate at h
  split at h
  · cases Option.some.inj h
    exact .inl hk
  · split at h
    · simp at h
    · rename_i candidate hsearch
      split at h
      · simp at h
      · rename_i next hnext
        cases Option.some.inj h
        have hk' : (m.mappings.insert key e)[k]? = some e' := hk
        rw [Core.getElem?_insert] at hk'
        split at hk'
        · cases Option.some.inj hk'
          have hle := (search_some hsearch).1
          have hadd := checkedAdd_some hnext
          exact .inr ⟨by omega, by omega⟩
        · exact .inl hk'

theorem pushCapability_grows {state : DeviceState} {c : Adapter.Capability} {b b' : Build}
    (h : pushCapability state b c = .ok b') : b.mappings.GrowsTo b'.mappings := by
  unfold pushCapability at h
  split at h
  · cases Except.ok.inj h
    exact GrowsTo.refl _
  · split at h
    · simp at h
    · rename_i halloc
      cases Except.ok.inj h
      exact allocate_grows halloc

theorem pushDevice_grows {state : DeviceState} {b b' : Build} (h : pushDevice b state = .ok b') :
    b.mappings.GrowsTo b'.mappings := by
  unfold pushDevice at h
  split at h
  · cases Except.ok.inj h
    exact GrowsTo.refl _
  · exact Fallible.foldlM_ok (P := fun _ x => b.mappings.GrowsTo x.mappings)
      (fun _ _ _ _ hdone hstep => hdone.trans (pushCapability_grows hstep)) h (GrowsTo.refl _)

theorem build_grows {devices : List DeviceState} {b b' : Build}
    (h : devices.foldlM pushDevice b = .ok b') : b.mappings.GrowsTo b'.mappings :=
  Fallible.foldlM_ok (P := fun _ x => b.mappings.GrowsTo x.mappings)
    (fun _ _ _ _ hdone hstep => hdone.trans (pushDevice_grows hstep)) h (GrowsTo.refl _)

end EndpointMappings

/-! ## Lifetimes -/

/-- The builder of the running process, its state directory and what all builds returned. -/
structure Lifetime where
  builder : ProjectionBuilder
  disk : Disk
  built : List BuiltProjection

/-- `ProjectionBuilder::new`. -/
def ProjectionBuilder.new (disk : Disk) : ProjectionBuilder := ⟨EndpointMappings.load disk.endpoints⟩

namespace Lifetime

def start (disk : Disk) : Lifetime := ⟨.new disk, disk, []⟩

inductive Event where
  | build (devices : List DeviceState) (outcome : SaveOutcome)
  | restart

def step (w : Lifetime) : Event → Option Lifetime
  | .build devices outcome =>
    match w.builder.buildOn w.disk outcome devices with
    | (.error _, builder, disk) => some ⟨builder, disk, w.built⟩
    | (.ok built, builder, disk) => some ⟨builder, disk, w.built ++ [built]⟩
  | .restart => some { w with builder := .new w.disk }

/-- Devices and capabilities have valid identifiers. -/
def Event.Valid : Event → Prop
  | .build devices _ => ∀ state ∈ devices, Core.validateIdentifier state.device.id = .ok () ∧
      ∀ c ∈ state.device.capabilities, Core.validateIdentifier c.id = .ok ()
  | .restart => True

/-- A projection whose number the mappings hold, under a key that names the pair. -/
structure Held (m : EndpointMappings) (p : Projection) : Prop where
  number : m.mappings[mappingKey p.deviceId p.primaryCapabilityId]? = some p.endpoint
  device : '/' ∉ p.deviceId.toList
  capability : '/' ∉ p.primaryCapabilityId.toList

structure Ok (w : Lifetime) : Prop where
  file : (EndpointMappings.load w.disk.endpoints).mappings = w.builder.mappings.mappings
  held : ∀ built ∈ w.built, ∀ p ∈ built.result, Held w.builder.mappings p

theorem Held.mono {m m' : EndpointMappings} {p : Projection} (h : Held m p) (hk : m.Keeps m') :
    Held m' p :=
  ⟨hk _ _ h.number, h.device, h.capability⟩

theorem start_ok (disk : Disk) : (start disk).Ok := ⟨rfl, by simp [start]⟩

/-- What a build returns is in the mappings. -/
theorem held_of_built {builder : ProjectionBuilder} {devices : List DeviceState} {b : Build}
    (hv : (Event.build devices .done).Valid)
    (h : devices.foldlM pushDevice ⟨builder.mappings, [], [], []⟩ = .ok b) {p : Projection}
    (hp : p ∈ b.result) : Held b.mappings p := by
  have hlisted := build_listed h
  rw [hlisted.result] at hp
  obtain ⟨i, hi, rfl⟩ := List.mem_map.mp hp
  obtain ⟨e, he⟩ := hlisted.known i hi
  obtain ⟨hstate, -, hcap, -⟩ := mem_items.mp hi
  obtain ⟨hd, hc⟩ := hv i.state hstate
  have hkey : (Item.projection b.mappings i).endpoint = e := by
    simp [Item.projection, Selected.projection, he]
  exact ⟨hkey ▸ he, not_slash_mem (⟨_, hd⟩ : Core.DeviceId),
    not_slash_mem (⟨_, hc _ hcap⟩ : Core.CapabilityId)⟩

theorem step_ok {w w' : Lifetime} {e : Event} (hw : w.Ok) (hv : e.Valid) (h : w.step e = some w') :
    w'.Ok := by
  cases e with
  | build devices outcome =>
    unfold step at h
    rcases hb : w.builder.buildOn w.disk outcome devices with ⟨r, builder, disk⟩
    dsimp only at h
    rw [hb] at h
    rcases ProjectionBuilder.buildOn_cases hb with ⟨e, rfl, rfl, hdisk⟩ | ⟨b, hfold, rfl, rfl, hdisk⟩
    · cases Option.some.inj h
      exact ⟨hdisk ▸ hw.file, hw.held⟩
    · cases Option.some.inj h
      refine ⟨?_, fun built hbuilt p hp => ?_⟩
      · show (EndpointMappings.load disk.endpoints).mappings = b.mappings.mappings
        rw [hdisk, EndpointMappings.load_toFile]
      · rcases List.mem_append.mp hbuilt with hbuilt | hbuilt
        · exact (hw.held built hbuilt p hp).mono (EndpointMappings.build_grows hfold).keeps
        · cases List.mem_singleton.mp hbuilt
          exact held_of_built hv hfold hp
  | restart =>
    cases Option.some.inj h
    refine ⟨rfl, fun built hbuilt p hp => ?_⟩
    have hheld := hw.held built hbuilt p hp
    exact ⟨(congrArg (·[mappingKey p.deviceId p.primaryCapabilityId]?) hw.file).trans hheld.number,
      hheld.device, hheld.capability⟩

theorem run_ok {disk : Disk} {events : List Event} {w : Lifetime} (hv : ∀ e ∈ events, e.Valid)
    (h : Machine.run step (start disk) events = some w) : w.Ok := by
  have hstep : ∀ w e w', Ok w → e.Valid → w.step e = some w' → Ok w' := fun _ _ _ hw hv h =>
    step_ok hw hv h
  exact Machine.run_inv_of_meets hstep (start_ok disk) (Machine.meets_of_forall hv) h

/-- From any content of `endpoints.json`, after any builds and restarts: two returned projections,
    of whatever builds, have one number exactly when they are of one pair. And of the next build: a
    number it adds is from 3 through 65534, and if it fails, the numbers in memory and in the file
    are as before. -/
theorem endpoints_stable {disk : Disk} {events : List Event} {w : Lifetime}
    (hv : ∀ e ∈ events, e.Valid) (h : Machine.run step (start disk) events = some w) :
    (∀ b ∈ w.built, ∀ b' ∈ w.built, ∀ p ∈ b.result, ∀ q ∈ b'.result, p.endpoint = q.endpoint ↔
      p.deviceId = q.deviceId ∧ p.primaryCapabilityId = q.primaryCapabilityId) ∧
    ∀ (devices : List DeviceState) (outcome : SaveOutcome) (r : Except SyncError BuiltProjection)
        (builder : ProjectionBuilder) (disk' : Disk), (Event.build devices outcome).Valid →
      w.builder.buildOn w.disk outcome devices = (r, builder, disk') →
      (∀ built, r = .ok built → ∀ p ∈ built.result,
        w.builder.mappings.mappings[mappingKey p.deviceId p.primaryCapabilityId]? = none →
          3 ≤ p.endpoint ∧ p.endpoint ≤ 65534) ∧
      ∀ e, r = .error e → builder = w.builder ∧ disk'.endpoints = w.disk.endpoints := by
  have hw := run_ok hv h
  refine ⟨fun b hb b' hb' p hp q hq => ?_, fun devices outcome r builder disk' hvalid hbuild => ?_⟩
  · have hheld := hw.held b hb p hp
    have hheld' := hw.held b' hb' q hq
    constructor
    · intro he
      refine mappingKey_inj hheld.device hheld.capability ?_
      exact w.builder.mappings.distinct _ _ _ hheld.number (he ▸ hheld'.number)
    · rintro ⟨hd, hc⟩
      have hnumber := hheld.number
      rw [hd, hc, hheld'.number, Option.some.injEq] at hnumber
      exact hnumber.symm
  · rcases ProjectionBuilder.buildOn_cases hbuild with
      ⟨e, rfl, rfl, hdisk⟩ | ⟨b, hfold, rfl, rfl, hdisk⟩
    · exact ⟨fun built hr => (nomatch hr), fun _ _ => ⟨rfl, hdisk⟩⟩
    · refine ⟨fun built hr p hp hnew => ?_, fun e hr => (nomatch hr)⟩
      cases Except.ok.inj hr
      have hheld := held_of_built hvalid hfold hp
      rcases (EndpointMappings.build_grows hfold).fresh _ _ hheld.number with hold | ⟨hlo, hhi⟩
      · rw [hnew] at hold
        cases hold
      · exact ⟨hlo, Nat.le_of_lt_succ hhi⟩

/-- A file with a number of an older device. -/
def olderFile : Disk := ⟨some ⟨1, 5, {("attic/left", 4)}⟩, none⟩

def sent (states : List Core.DeviceState) : List DeviceState :=
  (states.mapM Adapter.deviceState).toOption.getD []

/-- The porch is built, then the hall before it; the first try does not save. -/
def porchThenHall : List Event :=
  [.build (sent [porch]) .done, .build (sent [hall, porch]) (.notRenamed "disk full"), .restart,
   .build (sent [hall, porch]) .done]

theorem endpoints_stable_porchThenHall :
    ∃ w, Machine.run step (start olderFile) porchThenHall = some w ∧
      w.built.map (·.result.map fun p => (p.deviceId, p.primaryCapabilityId, p.endpoint)) =
        [[("porch", "left", 5)], [("hall", "left", 6), ("hall", "right", 7), ("porch", "left", 5)]] ∧
      ∀ b ∈ w.built, ∀ b' ∈ w.built, ∀ p ∈ b.result, ∀ q ∈ b'.result, p.endpoint = q.endpoint ↔
        p.deviceId = q.deviceId ∧ p.primaryCapabilityId = q.primaryCapabilityId := by
  have hv : ∀ e ∈ porchThenHall, e.Valid := by
    simp only [porchThenHall, List.forall_mem_cons, Event.Valid]
    exact ⟨by decide, by decide, trivial, by decide, by simp⟩
  exact ⟨_, rfl, by decide +kernel, (@endpoints_stable olderFile _ _ hv rfl).1⟩

end Lifetime

end Oikade.Matter
