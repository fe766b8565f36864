/-
  What memory holds for every registration, and where its values come from.

  `Watched` is the runtime machine with the records that the store has reported: what a load
  returned, and what a save that was reported as done has written. No step reads them, so every run
  of the runtime is a run here (`run_watched`). Calls may be dropped at any await point.

  `Fits` is the invariant of the values of a registration: their keys are the declared capabilities,
  each value is valid, and `current` and `persisted` agree. `MemoryOk` says that it holds for every
  registration of the run, also for one that has left the table while a snapshot still reads it, and
  that with a store every value in memory has been reported. `Knows` is what a call carries to its
  await point and `Answers` what it returns. `step_remembers` is the step lemma.

  * `sound_of_remembers`: the table of every reachable state.
  * `reported_of_shown`: what a caller or a subscriber has seen was reported by the store.
-/
import Oikade.Core.Durable
import Oikade.Core.Snapshot

namespace Oikade.Core

open Fallible (bind_error)
open Broadcast (receivedBy)

/-! ## The reports of the store -/

/-- The record that the store reports to a call at its await point. -/
def report (sh : Shared) (call : Call) : Pc → List (DeviceId × Record)
  | .loading => match call.op, call.loaded with
    | .register d _, .ok () => (sh.store d.id).toList.map fun record => (d.id, record)
    | _, _ => []
  | .savingInitial values => match call.op, call.saved with
    | .register d _, .ok () => [(d.id, values.persisted)]
    | _, _ => []
  | .saving _ _ _ next => match call.op.target, call.saved with
    | some (d, _), .ok () => [(d, next)]
    | _, _ => []
  | _ => []

/-- The records that the store reports in a step. The save of a dropped call reports to nobody. -/
def reportOf (s : Sys) : Action → List (DeviceId × Record)
  | .advance k => match s.calls[k]? with
    | some (.running call pc) => report s.shared call pc
    | _ => []
  | _ => []

/-- A runtime and what its store has reported so far. -/
structure Watched where
  sys : Sys
  reports : List (DeviceId × Record)

def Watched.step (w : Watched) (a : Action) : Option Watched :=
  (Core.step w.sys a).map fun s => ⟨s, w.reports ++ reportOf w.sys a⟩

def Watched.new (persistent : Bool) (store : DeviceId → Option Record) : Watched :=
  ⟨Sys.new persistent store, []⟩

theorem Watched.step_some {w w' : Watched} {a : Action} (h : w.step a = some w') :
    Core.step w.sys a = some w'.sys ∧ w'.reports = w.reports ++ reportOf w.sys a := by
  unfold Watched.step at h
  rw [Option.map_eq_some_iff] at h
  obtain ⟨s, hs, rfl⟩ := h
  exact ⟨hs, rfl⟩

/-- Every run of the runtime can be watched. -/
theorem run_watched {w : Watched} {s : Sys} {as : List Action} (h : run w.sys as = some s) :
    ∃ w', Machine.run Watched.step w as = some w' ∧ w'.sys = s := by
  induction as generalizing w with
  | nil => exact ⟨w, rfl, Option.some.inj h⟩
  | cons a as ih =>
    obtain ⟨t, ht, h⟩ := Machine.run_cons_eq_some.mp h
    obtain ⟨w', hw', hs⟩ := @ih ⟨t, w.reports ++ reportOf w.sys a⟩ h
    refine ⟨w', Machine.run_cons_eq_some.mpr ⟨_, ?_, hw'⟩, hs⟩
    simp [Watched.step, ht]

/-- The store has reported the value for the capability. -/
def Reported (reports : List (DeviceId × Record)) (d : DeviceId) (cid : CapabilityId) (v : Value) :
    Prop :=
  ∃ record, (d, record) ∈ reports ∧ record[cid]? = some v

/-- Every value of the record has been reported. -/
def Covered (reports : List (DeviceId × Record)) (d : DeviceId) (record : Record) : Prop :=
  ∀ (cid : CapabilityId) (v : Value), record[cid]? = some v → Reported reports d cid v

theorem Reported.mono {rs rs' : List (DeviceId × Record)} (h : rs ⊆ rs') {d : DeviceId}
    {cid : CapabilityId} {v : Value} (hr : Reported rs d cid v) : Reported rs' d cid v := by
  obtain ⟨record, hm, hv⟩ := hr
  exact ⟨record, h hm, hv⟩

theorem Covered.mono {rs rs' : List (DeviceId × Record)} (h : rs ⊆ rs') {d : DeviceId}
    {record : Record} (hc : Covered rs d record) : Covered rs' d record :=
  fun cid v hv => (hc cid v hv).mono h

theorem Covered.insert {rs : List (DeviceId × Record)} {d : DeviceId} {record : Record}
    (hc : Covered rs d record) {cid : CapabilityId} {v : Value} (hv : Reported rs d cid v) :
    Covered rs d (record.insert cid v) := by
  intro cid' v' h
  rw [getElem?_insert] at h
  split at h
  · rename_i hid
    exact Option.some.inj h ▸ hid ▸ hv
  · exact hc cid' v' h

/-! ## Values that fit a definition -/

structure Fits (device : Device) (values : DeviceValues) : Prop where
  agree : values.Agree device.capabilities
  declared : ∀ cid : CapabilityId, cid ∈ values.current → ∃ c ∈ device.capabilities, c.id = cid

theorem Fits.current {device : Device} {values : DeviceValues} (h : Fits device values)
    {c : Capability} (hc : c ∈ device.capabilities) : ∃ v, values.current[c.id]? = some v ∧
      values.persisted[c.id]? = some v ∧ validateCapabilityValue c v = .ok () := by
  obtain ⟨v, hv, hvalid⟩ := h.agree.1 c hc
  exact ⟨v, (h.agree.2 c hc).trans hv, hv, hvalid⟩

/-- A reported record covers the values in memory that agree with it. -/
theorem Fits.covered {device : Device} {values : DeviceValues} (h : Fits device values)
    {rs : List (DeviceId × Record)} {d : DeviceId} (hr : (d, values.persisted) ∈ rs) :
    Covered rs d values.current := by
  intro cid v hv
  obtain ⟨c, hc, rfl⟩ := h.declared cid (Std.ExtTreeMap.mem_iff_isSome_getElem?.mpr (by simp [hv]))
  exact ⟨values.persisted, hr, (h.agree.2 c hc) ▸ hv⟩

/-- What a registration restores fits its definition. -/
theorem fits_of_restores {d : Device} {loaded : Option Record} {restored : Restored}
    (h : Restores d loaded restored) (hv : d.validate = .ok ()) :
    Fits d ⟨restored.current, restored.persisted⟩ := by
  obtain ⟨-, hkeys, hagree, -⟩ := restoreValues_ok h (Device.validate_ok hv).2
  refine ⟨hagree, fun cid hcid => ?_⟩
  by_contra hne
  have hnot : cid ∉ d.capabilities.map Capability.id := fun hm => hne (List.mem_map.mp hm)
  rw [Std.ExtTreeMap.mem_iff_isSome_getElem?, hkeys cid hnot] at hcid
  simp at hcid

/-- A commit keeps the values fitting. -/
theorem Fits.insert {device : Device} {values : DeviceValues} (h : Fits device values)
    {c : Capability} {v : Value} (hc : c ∈ device.capabilities)
    (huniq : ∀ c' ∈ device.capabilities, c'.id = c.id → c' = c)
    (hv : validateCapabilityValue c v = .ok ()) :
    Fits device ⟨values.current.insert c.id v, values.persisted.insert c.id v⟩ := by
  refine ⟨⟨holds_insert h.agree.1 hv huniq, fun c' hc' => ?_⟩, fun cid hcid => ?_⟩
  · simp only [getElem?_insert]
    split
    · rfl
    · exact h.agree.2 c' hc'
  · rcases Std.ExtTreeMap.mem_insert.mp hcid with heq | hcid
    · exact ⟨c, hc, Std.compare_eq_iff_eq.mp heq⟩
    · exact h.declared cid hcid

/-! ## What memory holds -/

/-- `r` has been registered, whether or not it still is. -/
def Made (h : List Obs) (r : RegisteredDevice) : Prop :=
  ∃ n current, .registered n r current ∈ changes h

/-- What memory holds for a registration. -/
structure Kept (w : Watched) (r : RegisteredDevice) : Prop where
  fresh : r.ref < w.sys.shared.nextRef
  fits : Fits r.definition (w.sys.shared.values r.ref)
  covered : w.sys.shared.persistent = true →
    Covered w.reports r.definition.id (w.sys.shared.values r.ref).current

structure MemoryOk (w : Watched) : Prop where
  kept : ∀ r, Made w.sys.history r → Kept w r
  once : ∀ r r', Made w.sys.history r → Made w.sys.history r' → r.ref = r'.ref → r = r'
  table : ∀ (d : DeviceId) (r : RegisteredDevice), w.sys.shared.state.devices[d]? = some r →
    Made w.sys.history r
  events : w.sys.shared.persistent = true → ∀ r c event,
    .committed r c event ∈ changes w.sys.history →
    Reported w.reports event.deviceId event.capabilityId event.value

/-- A device of a snapshot has a value for each capability, and each value has been reported. -/
def Shot (w : Watched) (state : DeviceState) : Prop :=
  (∃ persisted, Fits state.device ⟨state.values, persisted⟩) ∧
    (w.sys.shared.persistent = true → Covered w.reports state.device.id state.values)

/-- What a call carries to its await point. -/
def Knows (w : Watched) (call : Call) : Pc → Prop
  | .savingInitial values => ∀ d handler, call.op = .register d handler → Fits d values
  | .insert values => ∀ d handler, call.op = .register d handler → Fits d values ∧
    (w.sys.shared.persistent = true → Covered w.reports d.id values.current)
  | .confirmSaved _ c v _ | .advance _ c v => w.sys.shared.persistent = true →
    ∀ d cid, call.op.target = some (d, cid) → Reported w.reports d c.id v
  | .snapshotValues s r todo =>
    (∀ state ∈ s.devices, Shot w state) ∧ ∀ r' ∈ r :: todo, Made w.sys.history r'
  | _ => True

/-- What a call returns. `write_value` compares with `PartialEq`, so a command that changes nothing
    returns a value that the reported one is equal to in that sense. -/
def Answers (w : Watched) (call : Call) : Outcome → Prop
  | .ok (.value v) => match call.op with
    | .read d cid => w.sys.shared.persistent = true → Reported w.reports d cid v
    | .writeValue command => w.sys.shared.persistent = true →
      ∃ x, Reported w.reports command.deviceId command.capabilityId x ∧ v.partialEq x = true
    | _ => True
  | .ok (.snapshot snapshot) => ∀ state ∈ snapshot.devices, Shot w state
  | .ok _ => True
  | .error e => ∀ command what, call.op = .writeValue command → e ≠ .missingCommandHandler what

def ThreadKnows (w : Watched) : Thread → Prop
  | .running call pc => Knows w call pc
  | .returned call outcome => Answers w call outcome
  | .abandoned _ => True

structure Remembers (w : Watched) : Prop where
  memory : MemoryOk w
  threads : ∀ (k : CallId) (u : Thread), w.sys.calls[k]? = some u → ThreadKnows w u

/-! ## Nothing is forgotten -/

/-- What a step leaves of what the calls know. -/
structure Later (w w' : Watched) : Prop where
  persistent : w'.sys.shared.persistent = w.sys.shared.persistent
  reports : w.reports ⊆ w'.reports
  made : ∀ r, Made w.sys.history r → Made w'.sys.history r

theorem made_append {h m : List Obs} {r : RegisteredDevice} (hr : Made h r) : Made (h ++ m) r := by
  obtain ⟨n, current, hm⟩ := hr
  exact ⟨n, current, by simp [hm]⟩

section Later

variable {w w' : Watched} (hl : Later w w')

include hl

theorem Shot.later {state : DeviceState} (h : Shot w state) : Shot w' state :=
  ⟨h.1, fun hp => (h.2 (hl.persistent ▸ hp)).mono hl.reports⟩

theorem threadKnows_later {u : Thread} (h : ThreadKnows w u) : ThreadKnows w' u := by
  have hrep : ∀ {P : Prop}, (w.sys.shared.persistent = true → P) →
      w'.sys.shared.persistent = true → P := fun h hp => h (hl.persistent ▸ hp)
  cases u with
  | running call pc =>
    cases pc with
    | insert values =>
      intro d handler hop
      exact ⟨(h d handler hop).1, fun hp => (hrep (h d handler hop).2 hp).mono hl.reports⟩
    | confirmSaved r c v next => exact fun hp d cid ht => (hrep h hp d cid ht).mono hl.reports
    | advance r c v => exact fun hp d cid ht => (hrep h hp d cid ht).mono hl.reports
    | snapshotValues s r todo =>
      exact ⟨fun state hs => (h.1 state hs).later hl, fun r' hr' => hl.made r' (h.2 r' hr')⟩
    | _ => exact h
  | returned call outcome =>
    cases outcome with
    | error e => exact h
    | ok reply =>
      cases reply with
      | value v =>
        simp only [ThreadKnows, Answers] at h ⊢
        split at h
        · exact fun hp => (hrep h hp).mono hl.reports
        · intro hp
          obtain ⟨x, hx, hv⟩ := hrep h hp
          exact ⟨x, hx.mono hl.reports, hv⟩
        · trivial
      | snapshot snapshot => exact fun state hs => (h state hs).later hl
      | _ => trivial
  | abandoned call => trivial

/-- A step of call `k` that leaves memory in order. -/
theorem remembers_thread (h : Remembers w) (hm : MemoryOk w') {k : CallId} {u : Thread}
    (hcalls : w'.sys.calls = w.sys.calls.insert k u) (hu : ThreadKnows w' u) : Remembers w' := by
  refine ⟨hm, fun j u' hj => ?_⟩
  rw [hcalls, getElem?_insert] at hj
  split at hj
  · exact Option.some.inj hj ▸ hu
  · exact threadKnows_later hl (h.threads j u' hj)

/-- A step that registers nothing and leaves the values as they are. -/
theorem memory_keep (h : MemoryOk w)
    (hmade : ∀ r, Made w'.sys.history r → Made w.sys.history r)
    (hv : w'.sys.shared.values = w.sys.shared.values)
    (hn : w'.sys.shared.nextRef = w.sys.shared.nextRef)
    (hd : ∀ (d : DeviceId) (r : RegisteredDevice), w'.sys.shared.state.devices[d]? = some r →
      w.sys.shared.state.devices[d]? = some r)
    (he : w'.sys.shared.persistent = true → ∀ r c event,
      .committed r c event ∈ changes w'.sys.history →
      .committed r c event ∈ changes w.sys.history ∨
        Reported w'.reports event.deviceId event.capabilityId event.value) : MemoryOk w' where
  kept r hr := by
    obtain ⟨hf, hfit, hc⟩ := h.kept r (hmade r hr)
    refine ⟨hn ▸ hf, hv ▸ hfit, fun hp => ?_⟩
    rw [hv]
    exact (hc (hl.persistent ▸ hp)).mono hl.reports
  once r r' hr hr' := h.once r r' (hmade r hr) (hmade r' hr')
  table d r hr := hl.made r (h.table d r (hd d r hr))
  events hp r c event hm := by
    rcases he hp r c event hm with hm | hrep
    · exact (h.events (hl.persistent ▸ hp) r c event hm).mono hl.reports
    · exact hrep

/-- A step that adds nothing to the changes. -/
theorem memory_quiet (h : MemoryOk w)
    (hch : changes w'.sys.history = changes w.sys.history)
    (hv : w'.sys.shared.values = w.sys.shared.values)
    (hn : w'.sys.shared.nextRef = w.sys.shared.nextRef)
    (hd : ∀ (d : DeviceId) (r : RegisteredDevice), w'.sys.shared.state.devices[d]? = some r →
      w.sys.shared.state.devices[d]? = some r) : MemoryOk w' := by
  refine memory_keep hl h ?_ hv hn hd fun _ r c event hm => .inl (hch ▸ hm)
  rintro r ⟨n, current, hm⟩
  exact ⟨n, current, hch ▸ hm⟩

/-- A commit changes the values of a registration. -/
theorem memory_update (h : MemoryOk w) {r : RegisteredDevice} {values : DeviceValues}
    (hr : Made w.sys.history r) (hfit : Fits r.definition values)
    (hc : w'.sys.shared.persistent = true → Covered w'.reports r.definition.id values.current)
    (hh : w'.sys.history = w.sys.history)
    (hsh : w'.sys.shared = (Effect.update r.ref values).apply w.sys.shared) : MemoryOk w' where
  kept r' hr' := by
    rw [hh] at hr'
    obtain ⟨hf, hfit', hc'⟩ := h.kept r' hr'
    by_cases href : r'.ref = r.ref
    · obtain rfl := h.once r' r hr' hr href
      have hv : w'.sys.shared.values r'.ref = values := by
        rw [hsh]
        exact Function.update_self _ _ _
      exact ⟨by rw [hsh]; exact hf, hv ▸ hfit, fun hp => hv ▸ hc hp⟩
    · have hv : w'.sys.shared.values r'.ref = w.sys.shared.values r'.ref := by
        rw [hsh]
        exact Function.update_of_ne href _ _
      refine ⟨by rw [hsh]; exact hf, hv ▸ hfit', fun hp => ?_⟩
      rw [hv]
      exact (hc' (hl.persistent ▸ hp)).mono hl.reports
  once := by
    rw [hh]
    exact h.once
  table d r' hr' := hl.made r' (h.table d r' (by rw [hsh] at hr'; exact hr'))
  events hp r' c event hm := by
    rw [hh] at hm
    exact (h.events (hl.persistent ▸ hp) r' c event hm).mono hl.reports

/-- A registration. -/
theorem memory_insert (h : MemoryOk w) {r : RegisteredDevice} {values : DeviceValues}
    (href : r.ref = w.sys.shared.nextRef) (hfit : Fits r.definition values)
    (hc : w'.sys.shared.persistent = true → Covered w'.reports r.definition.id values.current)
    (hch : changes w'.sys.history = changes w.sys.history ++
      [.registered (w.sys.shared.state.revision + 1) r values.current])
    (hsh : w'.sys.shared = (Effect.insert r values).apply w.sys.shared) : MemoryOk w' := by
  have hmade : ∀ r', Made w'.sys.history r' → Made w.sys.history r' ∨ r' = r := by
    rintro r' ⟨n, current, hm⟩
    rw [hch, List.mem_append, List.mem_singleton] at hm
    rcases hm with hm | hm
    · exact .inl ⟨n, current, hm⟩
    · exact .inr (Change.registered.inj hm).2.1
  have hnew : Made w'.sys.history r :=
    ⟨w.sys.shared.state.revision + 1, values.current, by simp [hch]⟩
  have hne : ∀ r', Made w.sys.history r' → r'.ref ≠ r.ref := fun r' hr' =>
    Nat.ne_of_lt (href ▸ (h.kept r' hr').fresh)
  have hnext : w'.sys.shared.nextRef = w.sys.shared.nextRef + 1 := by
    rw [hsh]
    rfl
  refine ⟨fun r' hr' => ?_, fun r₁ r₂ h₁ h₂ heq => ?_, fun d r' hr' => ?_, ?_⟩
  · rcases hmade r' hr' with hold | rfl
    · obtain ⟨hf, hfit', hc'⟩ := h.kept r' hold
      have hv : w'.sys.shared.values r'.ref = w.sys.shared.values r'.ref := by
        rw [hsh]
        exact Function.update_of_ne (hne r' hold) _ _
      refine ⟨by rw [hnext]; exact Nat.lt_succ_of_lt hf, hv ▸ hfit', fun hp => ?_⟩
      rw [hv]
      exact (hc' (hl.persistent ▸ hp)).mono hl.reports
    · have hv : w'.sys.shared.values r'.ref = values := by
        rw [hsh]
        exact Function.update_self _ _ _
      exact ⟨by rw [hnext, href]; exact Nat.lt_succ_self _, hv ▸ hfit, fun hp => hv ▸ hc hp⟩
  · rcases hmade r₁ h₁ with h₁ | rfl <;> rcases hmade r₂ h₂ with h₂ | rfl
    · exact h.once r₁ r₂ h₁ h₂ heq
    · exact absurd heq (hne r₁ h₁)
    · exact absurd heq.symm (hne r₂ h₂)
    · rfl
  · rw [hsh] at hr'
    simp only [Effect.apply, dispatchTopology, getElem?_insert] at hr'
    split at hr'
    · exact Option.some.inj hr' ▸ hnew
    · exact hl.made r' (h.table d r' hr')
  · intro hp r' c event hm
    rw [hch, List.mem_append, List.mem_singleton] at hm
    rcases hm with hm | hm
    · exact (h.events (hl.persistent ▸ hp) r' c event hm).mono hl.reports
    · exact Change.noConfusion hm

end Later

/-! ## Refusals -/

theorem handler_of_writable {d : Device} {handler : Bool} (h : missingHandler d handler = none)
    {c : Capability} (hc : c ∈ d.capabilities) (hw : c.permissions.write = true) :
    handler = true := by
  rw [missingHandler, Option.map_eq_none_iff, List.find?_eq_none] at h
  simpa [hw] using h c hc

/-- `lookup` refuses an unknown device or capability and a stopped runtime. -/
theorem lookup_error {s : RuntimeState} {d : DeviceId} {cid : CapabilityId} {e : RuntimeError}
    (h : lookup s d cid = .error e) : e = .stopped ∨ ((∃ what, e = .notFound what) ∧
      ∀ r, s.devices[d]? = some r → r.capabilities[cid]? = none) := by
  cases hs : s.started with
  | false =>
    simp only [lookup, ensureStarted, hs, Bool.false_eq_true, if_false, bind, Except.bind] at h
    exact .inl (Except.error.inj h).symm
  | true =>
    simp only [lookup, ensureStarted, hs, if_true, bind, Except.bind] at h
    right
    split at h
    · rename_i hd
      refine ⟨⟨_, (Except.error.inj h).symm⟩, fun r hr => ?_⟩
      simp [hd] at hr
    · rename_i r hd
      split at h
      · rename_i hc
        refine ⟨⟨_, (Except.error.inj h).symm⟩, fun r' hr' => ?_⟩
        rw [hd, Option.some.injEq] at hr'
        exact hr' ▸ hc
      · simp at h

theorem confirmRegistration_error {s : RuntimeState} {d : DeviceId} {r : RegisteredDevice}
    {e : RuntimeError} (h : confirmRegistration s d r = .error e) :
    e = .stopped ∨ ∃ what, e = .notFound what := by
  cases hs : s.started with
  | false =>
    simp only [confirmRegistration, ensureStarted, hs, Bool.false_eq_true, if_false, bind,
      Except.bind] at h
    exact .inl (Except.error.inj h).symm
  | true =>
    simp only [confirmRegistration, ensureStarted, hs, if_true, bind, Except.bind] at h
    split at h
    · simp at h
    · exact .inr ⟨_, (Except.error.inj h).symm⟩

/-- A command never finds its device without a handler. -/
theorem not_missing_of_fail {s : Sys} (hok : s.Ok) {call : Call} {pc : Pc} {e : RuntimeError}
    {command : Command} (hop : call.op = .writeValue command) (hpc : PcOk s.shared call pc)
    (hb : body s.shared call pc = some (.error e)) (what : String) :
    e ≠ .missingCommandHandler what := by
  have hconfirm : ∀ r, confirmRegistration s.shared.state command.deviceId r = .error e →
      e ≠ .missingCommandHandler what := by
    intro r hr
    obtain rfl | ⟨what', rfl⟩ := confirmRegistration_error hr <;> simp
  cases pc with
  | enter =>
    simp only [body, hop, enterWriteValue, Option.some.injEq, bind_error] at hb
    rcases hb with hb | ⟨⟨r, c⟩, -, hb⟩
    · obtain rfl | ⟨⟨what', rfl⟩, -⟩ := lookup_error hb <;> simp
    · split at hb
      · split at hb
        · exact Except.error.inj hb ▸ by simp
        · simp at hb
      · exact Except.error.inj hb ▸ by simp
  | confirm r c =>
    simp only [body, hop, Option.some.injEq, bind_error] at hb
    rcases hb with hb | ⟨u, -, hb⟩
    · exact hconfirm r hb
    · have he : Entered s.shared call.op r c := hpc
      obtain ⟨hd, -, hmem, -⟩ := declared_of_entered hok he (by rw [hop]; rfl)
      rw [hop] at he
      have hh := handler_of_writable (hok.shared.handler _ r hd) hmem he.2.1
      simp [hh] at hb
  | handling r c =>
    simp only [body, hop, Option.some.injEq] at hb
    split at hb
    · exact Except.error.inj hb ▸ by simp
    · split at hb
      · exact Except.error.inj hb ▸ by simp
      · simp at hb
  | saving r c v next =>
    simp only [body, hop, Op.target, Option.some.injEq] at hb
    split at hb
    · exact Except.error.inj hb ▸ by simp
    · simp at hb
  | confirmSaved r c v next =>
    simp only [body, hop, Op.target, Option.some.injEq, bind_error] at hb
    rcases hb with hb | ⟨u, -, hb⟩
    · exact hconfirm r hb
    · simp at hb
  | _ => simp [body, hop, Op.target] at hb

/-- A read of a declared capability of a registered device is not refused as unknown. -/
theorem not_notFound_of_read {s : Sys} (hok : s.Ok) {call : Call} {pc : Pc} {e : RuntimeError}
    {d : DeviceId} {cid : CapabilityId} (hop : call.op = .read d cid)
    (hpc : PcOk s.shared call pc) (hb : body s.shared call pc = some (.error e))
    {r : RegisteredDevice} (hr : s.shared.state.devices[d]? = some r)
    {c : Capability} (hc : c ∈ r.definition.capabilities) (hid : c.id = cid)
    (hfit : Fits r.definition (s.shared.values r.ref)) (what : String) : e ≠ .notFound what := by
  cases pc with
  | enter =>
    simp only [body, hop, enterRead, Option.some.injEq, bind_error] at hb
    rcases hb with hb | ⟨⟨r', c'⟩, -, hb⟩
    · obtain rfl | ⟨-, hnone⟩ := lookup_error hb
      · simp
      · have hsome := capabilityMap_of_mem (Device.validate_ok (hok.shared.valid d r hr)).2 hc
        have hcid := hnone r hr
        rw [hok.shared.capabilities d r hr, ← hid, hsome] at hcid
        simp at hcid
    · split at hb
      · simp at hb
      · exact Except.error.inj hb ▸ by simp
  | readValues r' =>
    obtain ⟨d', cid', c', hop', hl, -⟩ := hpc
    obtain ⟨rfl, rfl⟩ := Op.read.inj (hop.symm.trans hop')
    obtain rfl := Option.some.inj ((lookup_ok.mp hl).2.1.symm.trans hr)
    obtain ⟨v, hv, -⟩ := hfit.current hc
    rw [hid] at hv
    simp [body, hop, hv] at hb
  | _ => simp [body, hop, Op.target] at hb

/-! ## One step -/

section Moves

variable {w w' : Watched} {k : CallId} {call : Call} {pc : Pc} {e : Effect} {n : Next}

/-- Once a value is saved, the registration it is for and its place in the record are known. -/
theorem made_of_entered (hok : w.sys.Ok) (h : MemoryOk w) {r : RegisteredDevice} {c : Capability}
    (he : Entered w.sys.shared call.op r c) {d : DeviceId} {cid : CapabilityId}
    (ht : call.op.target = some (d, cid)) :
    Made w.sys.history r ∧ r.definition.id = d ∧ c.id = cid ∧ c ∈ r.definition.capabilities ∧
      ∀ c' ∈ r.definition.capabilities, c'.id = c.id → c' = c := by
  obtain ⟨hd, hid, hmem, huniq⟩ := declared_of_entered hok he ht
  exact ⟨h.table d r hd, hok.shared.key d r hd, hid, hmem, huniq⟩

theorem memory_move (hok : w.sys.Ok) (h : Remembers w) (hl : Later w w')
    (hk : w.sys.calls[k]? = some (.running call pc)) (hm : Move w.sys.shared call pc e n)
    (hsh : w'.sys.shared = e.apply w.sys.shared)
    (hh : w'.sys.history = w.sys.history ++ (e.observe w.sys.shared ++ n.observe k call.op pc)) :
    MemoryOk w' := by
  have hknows : Knows w call pc := h.threads k _ hk
  have hpc := hok.pc k call pc hk
  cases he : e.quiet with
  | true =>
    obtain ⟨h1, h2, h3, -, h5⟩ := @quiet_effect w.sys.shared e he
    have hobs : changes (n.observe k call.op pc) = [] := by
      cases n with
      | goto pc' => exact changes_turnOf k call.op pc
      | ret reply => rfl
    refine memory_quiet hl h.memory (by simp [hh, h1, hobs]) ?_ ?_ ?_ <;> rw [hsh]
    · exact h2
    · exact h3
    · exact h5
  | false =>
    cases hm with
    | @update d cid r c v next ht hreg =>
      obtain ⟨hent, heff, ⟨-, rfl⟩, -⟩ := hpc
      obtain ⟨hmade, rfl, rfl, hmem, huniq⟩ := made_of_entered hok h.memory hent ht
      obtain ⟨-, hfit, hcov⟩ := h.memory.kept r hmade
      refine memory_update hl h.memory hmade (hfit.insert hmem huniq (valid_of_effective hent heff))
        (fun hp => ?_) (by simpa [Effect.observe, Next.observe, turnOf] using hh) hsh
      rw [hl.persistent] at hp
      exact ((hcov hp).insert (hknows hp _ _ ht)).mono hl.reports
    | @insert d handler values hop hs hd =>
      obtain ⟨hfit, hcov⟩ := hknows d handler hop
      refine memory_insert hl h.memory rfl hfit (fun hp => ?_)
        (by simp [hh, Effect.observe, Next.observe]) hsh
      exact (hcov (hl.persistent ▸ hp)).mono hl.reports
    | @commit d cid r c v ht =>
      have hch : changes w'.sys.history = changes w.sys.history ++
          [.committed r c (commitEvent w.sys.shared.state d c v call.now)] := by
        rw [hh]
        simp only [Next.observe, Effect.observe]
        split <;> simp
      obtain ⟨-, hdev, -⟩ := @apply_state w.sys.shared (.commit d r c v call.now) rfl
      refine memory_keep hl h.memory ?_ (by rw [hsh]; rfl) (by rw [hsh]; rfl)
        (fun d' r' hr' => by rw [hsh, hdev] at hr'; exact hr') fun hp r' c' event hm => ?_
      · rintro r' ⟨n, current, hm⟩
        rw [hch, List.mem_append, List.mem_singleton] at hm
        exact ⟨n, current, hm.resolve_right Change.noConfusion⟩
      · rw [hch, List.mem_append, List.mem_singleton] at hm
        rcases hm with hm | hm
        · exact .inl hm
        · obtain ⟨rfl, rfl, rfl⟩ := Change.committed.inj hm
          exact .inr ((hknows (hl.persistent ▸ hp) d cid ht).mono hl.reports)
    | @remove d r r' hop hd hr =>
      have hch : changes w'.sys.history = changes w.sys.history ++
          [.unregistered (w.sys.shared.state.revision + 1) r] := by
        simp [hh, Effect.observe, Next.observe]
      refine memory_keep hl h.memory ?_ (by rw [hsh]; rfl) (by rw [hsh]; rfl)
        (fun d' r'' hr'' => ?_) fun _ r'' c event hm => .inl ?_
      · rintro r'' ⟨n, current, hm⟩
        rw [hch, List.mem_append, List.mem_singleton] at hm
        exact ⟨n, current, hm.resolve_right Change.noConfusion⟩
      · rw [hsh] at hr''
        simp only [Effect.apply, dispatchTopology, getElem?_erase] at hr''
        split at hr''
        · simp at hr''
        · exact hr''
      · rw [hch, List.mem_append, List.mem_singleton] at hm
        exact hm.resolve_right Change.noConfusion
    | _ => simp [Effect.quiet] at he

/-- A snapshot goes on to the next device or returns. -/
theorem threadKnows_snapshotNext {snapshot : Snapshot} {rest : List RegisteredDevice}
    (hs : ∀ state ∈ snapshot.devices, Shot w' state) (hrest : ∀ r ∈ rest, Made w'.sys.history r) :
    ThreadKnows w' ((snapshotNext snapshot rest).thread call) := by
  cases rest with
  | nil => exact hs
  | cons r todo => exact ⟨hs, hrest⟩

/-- The restored values on their way into memory. -/
theorem knows_restored {d : Device} {handler : Bool} {loaded : Option Record}
    {restored : Restored} (hop : call.op = .register d handler)
    (hr : Restores d loaded restored) (hv : d.validate = .ok ())
    (hp : w'.sys.shared.persistent = w.sys.shared.persistent)
    (hrep : w.sys.shared.persistent = true → ∀ record, loaded = some record →
      (d.id, record) ∈ w'.reports) : Knows w' call (restored.next w.sys.shared) := by
  have hfit := fits_of_restores hr hv
  unfold Restored.next
  split
  · intro d' handler' hop'
    obtain ⟨rfl, rfl⟩ := Op.register.inj (hop.symm.trans hop')
    exact hfit
  · rename_i hdirty
    intro d' handler' hop'
    obtain ⟨rfl, rfl⟩ := Op.register.inj (hop.symm.trans hop')
    refine ⟨hfit, fun hp' => ?_⟩
    rw [hp] at hp'
    have hclean : restored.dirty = false := by simpa [hp'] using hdirty
    exact hfit.covered (hrep hp' _ ((restores_extends hr hv).2.2 hclean))

theorem threadKnows_move (hok : w.sys.Ok) (h : Remembers w) (hl : Later w w')
    (hk : w.sys.calls[k]? = some (.running call pc)) (hm : Move w.sys.shared call pc e n)
    (hrep : w'.reports = w.reports ++ report w.sys.shared call pc) :
    ThreadKnows w' (n.thread call) := by
  have hknows : Knows w call pc := h.threads k _ hk
  have hpc := hok.pc k call pc hk
  cases hm with
  | @restoreNew d handler restored hop hs hd hp hr =>
    obtain ⟨pc₀, hb⟩ := hok.begun k call _ hk
    exact knows_restored hop hr (begin_register hop hb).1 hl.persistent (by simp [hp])
  | @restore d handler restored hop hload hr =>
    obtain ⟨pc₀, hb⟩ := hok.begun k call _ hk
    refine knows_restored hop hr (begin_register hop hb).1 hl.persistent fun _ record hrec => ?_
    simp [hrep, report, hop, hload, hrec]
  | @saveInitial d handler values hop hs =>
    intro d' handler' hop'
    obtain ⟨rfl, rfl⟩ := Op.register.inj (hop.symm.trans hop')
    have hfit := hknows d handler hop
    exact ⟨hfit, fun _ => hfit.covered (by simp [hrep, report, hop, hs])⟩
  | @read d cid r v hop hv =>
    obtain ⟨d', cid', c, hop', hlook, -⟩ := hpc
    obtain ⟨rfl, rfl⟩ := Op.read.inj (hop.symm.trans hop')
    obtain ⟨-, hd, -⟩ := lookup_ok.mp hlook
    have hkept := h.memory.kept r (h.memory.table d r hd)
    simp only [Next.thread, ThreadKnows, Answers, hop]
    intro hp
    rw [← hok.shared.key d r hd]
    exact (hkept.covered (hl.persistent ▸ hp) cid v hv).mono hl.reports
  | @unchanged r c v hv =>
    cases hop : call.op with
    | writeValue command =>
      obtain ⟨hmade, hid, hcid, -⟩ := made_of_entered hok h.memory hpc.1 (by rw [hop]; rfl)
      simp only [Next.thread, ThreadKnows, Answers, hop, Op.committed]
      intro hp
      rw [Option.any_eq_true] at hv
      obtain ⟨x, hx, hxv⟩ := hv
      refine ⟨x, ?_, hxv⟩
      rw [← hid, ← hcid]
      exact ((h.memory.kept r hmade).covered (hl.persistent ▸ hp) c.id x hx).mono hl.reports
    | _ => trivial
  | @noStore r c v hv hp =>
    intro hp'
    rw [hl.persistent, hp] at hp'
    exact Bool.noConfusion hp'
  | @saved d cid r c v next ht hs =>
    obtain ⟨-, -, ⟨-, rfl⟩, -⟩ := hpc
    intro _ d' cid' ht'
    rw [ht, Option.some.injEq, Prod.mk.injEq] at ht'
    obtain ⟨rfl, rfl⟩ := ht'
    exact ⟨(w.sys.shared.values r.ref).persisted.insert c.id v, by simp [hrep, report, ht, hs],
      by rw [getElem?_insert, if_pos rfl]⟩
  | @update d cid r c v next ht hreg =>
    intro hp d' cid' ht'
    exact (hknows (hl.persistent ▸ hp) d' cid' ht').mono hl.reports
  | @commit d cid r c v ht =>
    cases hop : call.op with
    | writeValue command =>
      obtain ⟨-, -, hcid, -⟩ := made_of_entered hok h.memory hpc.1 (by rw [hop]; rfl)
      simp only [Next.thread, ThreadKnows, Answers, hop, Op.committed]
      intro hp
      have hrep := (hknows (hl.persistent ▸ hp) _ _ (by rw [hop]; rfl)).mono hl.reports
      exact ⟨v, hcid ▸ hrep, partialEq_self (valid_of_effective hpc.1 hpc.2)⟩
    | _ => trivial
  | snapshotState =>
    refine threadKnows_snapshotNext (by simp) fun r hr => hl.made r ?_
    obtain ⟨⟨d, r'⟩, hmem, rfl⟩ := List.mem_map.mp hr
    exact h.memory.table d r' (Std.ExtTreeMap.mem_toList_iff_getElem?_eq_some.mp hmem)
  | @snapshotValues snapshot r todo =>
    refine threadKnows_snapshotNext (fun state hstate => ?_)
      fun r' hr' => hl.made r' (hknows.2 r' (List.mem_cons_of_mem _ hr'))
    rcases List.mem_append.mp hstate with hstate | hstate
    · exact (hknows.1 state hstate).later hl
    · obtain rfl := List.mem_singleton.mp hstate
      obtain ⟨-, hfit, hcov⟩ := h.memory.kept r (hknows.2 r List.mem_cons_self)
      exact ⟨⟨_, hfit⟩, fun hp => (hcov (hl.persistent ▸ hp)).mono hl.reports⟩
  | _ => trivial

end Moves

theorem begin_knows {w : Watched} {call : Call} {pc : Pc} (hb : begin call = .ok pc) :
    Knows w call pc := by
  obtain ⟨rfl, -⟩ | ⟨rfl, -⟩ | ⟨rfl, -⟩ := begin_ok hb <;> trivial

theorem step_later {w w' : Watched} {a : Action} (h : w.step a = some w') : Later w w' := by
  obtain ⟨hs, hrep⟩ := Watched.step_some h
  obtain ⟨m, hm⟩ := step_traced hs
  refine ⟨?_, hrep ▸ List.subset_append_left _ _, fun r hr => ?_⟩
  · obtain ⟨s', reports'⟩ := w'
    simp only at hs
    cases step_cases hs with
    | move => exact apply_persistent _ _
    | orphan =>
      simp only [Orphan.apply]
      split <;> rfl
    | _ => rfl
  · rw [hm.history]
    exact made_append hr

theorem step_remembers {w w' : Watched} {a : Action} (hok : w.sys.Ok) (h : Remembers w)
    (hstep : w.step a = some w') : Remembers w' := by
  have hl := step_later hstep
  obtain ⟨hs, hrep⟩ := Watched.step_some hstep
  obtain ⟨s', reports'⟩ := w'
  simp only at hs hrep
  cases step_cases hs with
  | @reject k call e hk hb =>
    refine remembers_thread hl h (memory_quiet hl h.memory (by simp) rfl rfl fun _ _ hr => hr) rfl ?_
    rintro command what hop
    simp [begin, hop] at hb
  | @invoke k call pc hk hb =>
    exact remembers_thread hl h (memory_quiet hl h.memory (by simp) rfl rfl fun _ _ hr => hr) rfl
      (begin_knows hb)
  | @fail k call pc e hk hr hb =>
    refine remembers_thread hl h (memory_quiet hl h.memory (by simp) rfl rfl fun _ _ hr => hr) rfl ?_
    intro command what hop
    exact not_missing_of_fail hok hop (hok.pc k call pc hk) hb what
  | @move k call pc e n hk hr hm =>
    refine remembers_thread hl h (memory_move hok h hl hk hm rfl rfl) rfl
      (threadKnows_move hok h hl hk hm ?_)
    simpa [reportOf, hk] using hrep
  | @abandon k call pc hk =>
    exact remembers_thread hl h
      (memory_quiet hl h.memory (by simp [changes, Obs.change?]) rfl rfl fun _ _ hr => hr) rfl trivial
  | @orphan i o ho =>
    refine ⟨memory_quiet hl h.memory rfl ?_ ?_ ?_,
      fun j u hj => threadKnows_later hl (h.threads j u hj)⟩
    all_goals
      simp only [Orphan.apply]
      split
    all_goals first
      | rfl
      | exact fun _ _ hr => hr
  | states hub hop | topology hub hop =>
    exact ⟨memory_quiet hl h.memory (by simp) rfl rfl fun _ _ hr => hr,
      fun j u hj => threadKnows_later hl (h.threads j u hj)⟩

theorem new_remembers (persistent : Bool) (store : DeviceId → Option Record) :
    Remembers (Watched.new persistent store) := by
  refine ⟨⟨?_, ?_, ?_, ?_⟩, ?_⟩
  · rintro r ⟨n, current, hm⟩
    simp [Watched.new, Sys.new] at hm
  · rintro r r' ⟨n, current, hm⟩
    simp [Watched.new, Sys.new] at hm
  all_goals simp [Watched.new, Sys.new]

theorem run_remembers {persistent : Bool} {store : DeviceId → Option Record} {as : List Action}
    {w : Watched} (h : Machine.run Watched.step (Watched.new persistent store) as = some w) :
    w.sys.Ok ∧ w.sys.StreamsOk ∧ w.sys.shared.persistent = persistent ∧ Remembers w := by
  refine Machine.run_inv (P := fun w => w.sys.Ok ∧ w.sys.StreamsOk ∧
    w.sys.shared.persistent = persistent ∧ Remembers w) ?_ ?_ h
  · rintro w a w' ⟨h1, h2, h3, h4⟩ hs
    have hstep := (Watched.step_some hs).1
    exact ⟨step_ok h1 hstep, step_streams h2 hstep, (step_later hs).persistent.trans h3,
      step_remembers h1 h4 hs⟩
  · exact ⟨new_ok persistent store, new_streams persistent store, rfl,
      new_remembers persistent store⟩

theorem reachable_remembers {s : Sys} (h : Reachable s) :
    ∃ reports, Remembers ⟨s, reports⟩ := by
  obtain ⟨persistent, store, as, hrun⟩ := h
  obtain ⟨w, hw, rfl⟩ := run_watched (w := .new persistent store) hrun
  exact ⟨w.reports, (run_remembers hw).2.2.2⟩

/-! ## The table of every reachable state -/

/-- A registered device and its values in memory. -/
structure Sound (sh : Shared) (d : DeviceId) (r : RegisteredDevice) : Prop where
  key : r.definition.id = d
  valid : r.definition.validate = .ok ()
  keys : ∀ cid : CapabilityId,
    cid ∈ (sh.values r.ref).current ↔ ∃ c ∈ r.definition.capabilities, c.id = cid
  value : ∀ c ∈ r.definition.capabilities, ∃ v, (sh.values r.ref).current[c.id]? = some v ∧
    (sh.values r.ref).persisted[c.id]? = some v ∧ v.kind = c.kind ∧
    validateCapabilityValue c v = .ok ()
  handler : (∃ c ∈ r.definition.capabilities, c.permissions.write = true) → r.handler = true

theorem sound_of_remembers {w : Watched} (hok : w.sys.Ok) (h : Remembers w) {d : DeviceId}
    {r : RegisteredDevice} (hr : w.sys.shared.state.devices[d]? = some r) :
    Sound w.sys.shared d r := by
  have hfit := (h.memory.kept r (h.memory.table d r hr)).fits
  have hvalid := hok.shared.valid d r hr
  refine ⟨hok.shared.key d r hr, hvalid, fun cid => ⟨hfit.declared cid, ?_⟩, fun c hc => ?_, ?_⟩
  · rintro ⟨c, hc, rfl⟩
    obtain ⟨v, hv, -⟩ := hfit.current hc
    exact Std.ExtTreeMap.mem_iff_isSome_getElem?.mpr (by simp [hv])
  · obtain ⟨v, hv, hp, hval⟩ := hfit.current hc
    exact ⟨v, hv, hp, kind_of_validateCapabilityValue ((Device.validate_ok hvalid).1 c hc) hval,
      hval⟩
  · rintro ⟨c, hc, hw⟩
    exact handler_of_writable (hok.shared.handler d r hr) hc hw

/-- The step in which a read of a declared capability of a registered device is refused. -/
theorem read_refused {w : Watched} (hok : w.sys.Ok) (h : Remembers w) {s' : Sys} {k : CallId}
    {call : Call} {pc : Pc} {d : DeviceId} {cid : CapabilityId} {r : RegisteredDevice}
    {c : Capability} {e : RuntimeError} (hk : w.sys.calls[k]? = some (.running call pc))
    (hop : call.op = .read d cid) (hr : w.sys.shared.state.devices[d]? = some r)
    (hc : c ∈ r.definition.capabilities) (hid : c.id = cid)
    (hstep : step w.sys (.advance k) = some s')
    (hret : s'.calls[k]? = some (.returned call (.error e))) (what : String) :
    e ≠ .notFound what := by
  have hself : ∀ u : Thread, (w.sys.calls.insert k u)[k]? = some u := fun u => by
    rw [getElem?_insert, if_pos rfl]
  cases step_cases hstep with
  | fail hk' hr' hb =>
    obtain ⟨rfl, rfl⟩ := running_inj hk hk'
    simp only [hself, Option.some.injEq, Thread.returned.injEq, Except.error.injEq] at hret
    obtain ⟨-, rfl⟩ := hret
    exact not_notFound_of_read hok hop (hok.pc k _ _ hk) hb hr hc hid
      (h.memory.kept r (h.memory.table d r hr)).fits what
  | @move _ _ _ _ n hk' hr' hm =>
    simp only [hself] at hret
    cases n <;> simp [Next.thread] at hret
  | states hs hop' =>
    obtain ⟨_, ⟨⟩, -⟩ | ⟨_, ⟨⟩, -⟩ | ⟨_, ⟨⟩, -⟩ := hop'
  | topology hs hop' =>
    obtain ⟨_, ⟨⟩, -⟩ | ⟨_, ⟨⟩, -⟩ | ⟨_, ⟨⟩, -⟩ := hop'

/-! ## Durable before visible -/

/-- The value of a capability that a caller or a subscriber has seen. -/
inductive Shown (s : Sys) : DeviceId → CapabilityId → Value → Prop where
  | read {k : CallId} {call : Call} {d : DeviceId} {cid : CapabilityId} {v : Value}
    (hk : s.calls[k]? = some (.returned call (.ok (.value v)))) (hop : call.op = .read d cid) :
    Shown s d cid v
  | snapshot {k : CallId} {call : Call} {snapshot : Snapshot} {state : DeviceState}
    {cid : CapabilityId} {v : Value}
    (hk : s.calls[k]? = some (.returned call (.ok (.snapshot snapshot))))
    (hs : state ∈ snapshot.devices) (hv : state.values[cid]? = some v) :
    Shown s state.device.id cid v
  | event {id : Nat} {event : Event} (h : event ∈ receivedBy id (statesView.log s.history)) :
    Shown s event.deviceId event.capabilityId event.value

/-- With a store, whatever has been read, shown in a snapshot or delivered in an event has been
    reported by the store before, and so has what a command has returned, up to `PartialEq`. This
    holds in every state, so also in the one in which the value was first seen. -/
theorem reported_of_shown {store : DeviceId → Option Record} {as : List Action} {w : Watched}
    (h : Machine.run Watched.step (Watched.new true store) as = some w) :
    (∀ d cid v, Shown w.sys d cid v → Reported w.reports d cid v) ∧
      ∀ (k : CallId) (call : Call) (command : Command) (v : Value),
        w.sys.calls[k]? = some (.returned call (.ok (.value v))) → call.op = .writeValue command →
        ∃ x, Reported w.reports command.deviceId command.capabilityId x ∧
          v.partialEq x = true := by
  obtain ⟨-, hstreams, hp, hrem⟩ := run_remembers h
  constructor
  · intro d cid v hshown
    cases hshown with
    | read hk hop =>
      have ha := hrem.threads _ _ hk
      simp only [ThreadKnows, Answers, hop] at ha
      exact ha hp
    | snapshot hk hs hv => exact (hrem.threads _ _ hk _ hs).2 hp cid v hv
    | event he =>
      obtain ⟨c, hc, hsent⟩ := sent_of_received hstreams.states he
      cases c with
      | committed r c event =>
        simp only [statesView, Option.ite_none_right_eq_some, Option.some.injEq] at hsent
        exact hsent.2 ▸ hrem.memory.events hp r c event hc
      | _ => simp [statesView] at hsent
  · intro k call command v hk hop
    have ha := hrem.threads _ _ hk
    simp only [ThreadKnows, Answers, hop] at ha
    exact ha hp

/-- The lamp is published and then read. -/
def lampRead : List Action :=
  lampStart ++ alone 2 (publishLamp true) 8 ++ alone 3 { op := .read lamp.id lampOn.id } 3

theorem reported_lampRead :
    let w := (Machine.run Watched.step (Watched.new true fun _ => none) lampRead).get (by decide)
    Shown w.sys lamp.id lampOn.id (.bool true) ∧
      Reported w.reports lamp.id lampOn.id (.bool true) := by
  intro w
  have hread : w.sys.calls[3]? = some (.returned { op := .read lamp.id lampOn.id }
      (.ok (.value (.bool true)))) := rfl
  have hshown := Shown.read hread rfl
  exact ⟨hshown, (reported_of_shown (Option.some_get _).symm).1 _ _ _ hshown⟩

end Oikade.Core
