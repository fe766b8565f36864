/-
  Acknowledged values and the store.

  A commit hands the record of its device to the store and changes the values in memory after that.
  A call that is dropped in between leaves the store ahead of memory, and `commit` compares a new
  value with memory only: a later call that sets the value memory still has returns `Ok` without a
  save, and a restart restores the value of the dropped call (`lampDropped`).

  In a run in which no call is dropped there (`handed`) the store and memory agree at every moment
  at which no commit is between its save and its update (`StoreOk`). Then the value that the last
  call to take its turn on a capability returned is the value in the store. With calls that take
  their turns in the order in which they were started (`inOrder`) that is the last call started
  (`durable_of_settledInOrder`).
-/
import Oikade.Core.Restore
import Oikade.Core.Linear

namespace Oikade.Core

/-! ## Starts, turns and registrations of a run -/

/-- The call that starts on the capability. -/
def Obs.start? (d : DeviceId) (cid : CapabilityId) : Obs → Option CallId
  | .invoked k call => if call.op.target = some (d, cid) then some k else none
  | _ => none

/-- The call that takes its device's command serial for the capability. -/
def Obs.turn? (d : DeviceId) (cid : CapabilityId) : Obs → Option CallId
  | .turn k d' cid' => if d' = d ∧ cid' = cid then some k else none
  | _ => none

def Change.registration? (d : DeviceId) : Change → Option RegisteredDevice
  | .registered _ r _ => if r.definition.id = d then some r else none
  | _ => none

/-- The calls on a capability in the order in which they were started. -/
def startsOf (d : DeviceId) (cid : CapabilityId) (h : List Obs) : List CallId :=
  h.filterMap (Obs.start? d cid)

/-- The calls on a capability in the order in which they had the command serial. -/
def turnsOf (d : DeviceId) (cid : CapabilityId) (h : List Obs) : List CallId :=
  h.filterMap (Obs.turn? d cid)

/-- The last registration of a device, whether or not it is still registered. -/
def lastRegistered (d : DeviceId) (h : List Obs) : Option RegisteredDevice :=
  ((changes h).filterMap (Change.registration? d)).getLast?

@[simp] theorem startsOf_append (d : DeviceId) (cid : CapabilityId) (h m : List Obs) :
    startsOf d cid (h ++ m) = startsOf d cid h ++ startsOf d cid m := List.filterMap_append

@[simp] theorem turnsOf_append (d : DeviceId) (cid : CapabilityId) (h m : List Obs) :
    turnsOf d cid (h ++ m) = turnsOf d cid h ++ turnsOf d cid m := List.filterMap_append

theorem lastRegistered_append {d : DeviceId} {h m : List Obs}
    (hm : (changes m).filterMap (Change.registration? d) = []) :
    lastRegistered d (h ++ m) = lastRegistered d h := by
  simp [lastRegistered, hm]

theorem startsOf_observe (d : DeviceId) (cid : CapabilityId) (sh : Shared) (e : Effect) :
    startsOf d cid (e.observe sh) = [] := by
  refine List.filterMap_eq_nil_iff.mpr fun o ho => ?_
  cases o with
  | invoked k call => exact absurd rfl ((observe_inert ho).1 k call)
  | _ => rfl

theorem turnsOf_observe (d : DeviceId) (cid : CapabilityId) (sh : Shared) (e : Effect) :
    turnsOf d cid (e.observe sh) = [] := by
  cases e with
  | subscribe topic buffer => cases topic <;> rfl
  | cancel topic id => cases topic <;> rfl
  | commit d' r c v now =>
    simp only [Effect.observe]
    split <;> simp [turnsOf, Obs.turn?]
  | _ => simp [Effect.observe, turnsOf, Obs.turn?]

theorem startsOf_turnOf (d : DeviceId) (cid : CapabilityId) (k : CallId) (op : Op) (pc : Pc) :
    startsOf d cid (turnOf k op pc) = [] := by
  refine List.filterMap_eq_nil_iff.mpr fun o ho => ?_
  cases o with
  | invoked j call => exact absurd rfl ((turnOf_inert ho).1 j call)
  | _ => rfl

/-- What a move adds to the starts and the turns. -/
theorem startsOf_move (d : DeviceId) (cid : CapabilityId) (sh : Shared) (e : Effect) (k : CallId)
    (op : Op) (pc : Pc) (n : Next) : startsOf d cid (e.observe sh ++ n.observe k op pc) = [] := by
  rw [startsOf_append, startsOf_observe, List.nil_append]
  cases n with
  | goto pc' => exact startsOf_turnOf d cid k op pc
  | ret reply => rfl

theorem turnsOf_move {d : DeviceId} {cid : CapabilityId} {sh : Shared} {e : Effect} {k : CallId}
    {op : Op} {pc : Pc} {n : Next}
    (hpc : ∀ r c, pc = .commandSerial r c → op.target ≠ some (d, cid)) :
    turnsOf d cid (e.observe sh ++ n.observe k op pc) = [] := by
  rw [turnsOf_append, turnsOf_observe, List.nil_append]
  cases n with
  | ret reply => rfl
  | goto pc' =>
    cases pc with
    | commandSerial r c =>
      have hne := hpc r c rfl
      simp only [Next.observe, turnOf]
      cases ht : op.target with
      | none => rfl
      | some x =>
        have hx : ¬(x.1 = d ∧ x.2 = cid) := fun h => hne (by rw [ht, ← h.1, ← h.2])
        simp [turnsOf, Obs.turn?, hx]
    | _ => rfl

/-! ## The order of the turns -/

/-- Calls on a capability take their device's command serial in the order in which they were
    started. -/
def inOrder (s : Sys) : Action → Bool
  | .advance k => match s.calls[k]? with
    | some (.running call (.commandSerial ..)) => match call.op.target with
      | some (d, cid) =>
        (turnsOf d cid s.history ++ [k]).isSublist (startsOf d cid s.history)
      | none => true
    | _ => true
  | _ => true

structure OrderOk (s : Sys) : Prop where
  once : ∀ d cid, (startsOf d cid s.history).Nodup
  started : ∀ d cid, ∀ k ∈ startsOf d cid s.history, k ∈ s.calls
  ordered : ∀ d cid, (turnsOf d cid s.history).Sublist (startsOf d cid s.history)

/-- A step that starts no call and gives no turn. -/
theorem orderOk_of {s s' : Sys} (h : OrderOk s) {m : List Obs} (hh : s'.history = s.history ++ m)
    (hcalls : ∀ k, k ∈ s.calls → k ∈ s'.calls) (hs : ∀ d cid, startsOf d cid m = [])
    (ht : ∀ d cid, turnsOf d cid m = []) : OrderOk s' where
  once d cid := by
    rw [hh, startsOf_append, hs, List.append_nil]
    exact h.once d cid
  started d cid k hk := by
    rw [hh, startsOf_append, hs, List.append_nil] at hk
    exact hcalls k (h.started d cid k hk)
  ordered d cid := by
    rw [hh, startsOf_append, turnsOf_append, hs, ht, List.append_nil, List.append_nil]
    exact h.ordered d cid

/-- A step that starts call `k`. -/
theorem orderOk_start {s s' : Sys} (h : OrderOk s) {k : CallId} {call : Call} {m : List Obs}
    (hk : k ∉ s.calls) (hh : s'.history = s.history ++ .invoked k call :: m)
    (hcalls : ∀ j, j = k ∨ j ∈ s.calls → j ∈ s'.calls) (hs : ∀ d cid, startsOf d cid m = [])
    (ht : ∀ d cid, turnsOf d cid m = []) : OrderOk s' := by
  have hstarts : ∀ d cid, startsOf d cid s'.history = startsOf d cid s.history ++
      if call.op.target = some (d, cid) then [k] else [] := by
    intro d cid
    rw [hh, startsOf_append]
    congr 1
    by_cases hc : call.op.target = some (d, cid)
    · simp only [startsOf, List.filterMap_cons, Obs.start?, hc, if_true]
      exact congrArg _ (hs d cid)
    · simp only [startsOf, List.filterMap_cons, Obs.start?, hc, if_false]
      exact hs d cid
  refine ⟨fun d cid => ?_, fun d cid j hj => ?_, fun d cid => ?_⟩
  · rw [hstarts]
    split
    · refine List.nodup_append.mpr ⟨h.once d cid, by simp, ?_⟩
      rintro j hj k' hk' rfl
      exact hk (List.mem_singleton.mp hk' ▸ h.started d cid j hj)
    · simpa using h.once d cid
  · rw [hstarts, List.mem_append] at hj
    rcases hj with hj | hj
    · exact hcalls j (.inr (h.started d cid j hj))
    · split at hj
      · exact hcalls j (.inl (List.mem_singleton.mp hj))
      · simp at hj
  · rw [hstarts, hh, turnsOf_append]
    have : turnsOf d cid (.invoked k call :: m) = [] := ht d cid
    rw [this, List.append_nil]
    exact (h.ordered d cid).trans (List.sublist_append_left _ _)

theorem step_order {s s' : Sys} {a : Action} (h : OrderOk s) (ho : inOrder s a = true)
    (hs : step s a = some s') : OrderOk s' := by
  have hins : ∀ (k : CallId) (u : Thread) (j : CallId), j ∈ s.calls → j ∈ s.calls.insert k u :=
    fun k u j hj => Std.ExtTreeMap.mem_insert.mpr (.inr hj)
  have hnew : ∀ (k : CallId) (u : Thread) (j : CallId), j = k ∨ j ∈ s.calls →
      j ∈ s.calls.insert k u := by
    rintro k u j (rfl | hj)
    · exact Std.ExtTreeMap.mem_insert_self
    · exact hins k u j hj
  cases step_cases hs with
  | reject hk hb =>
    exact orderOk_start h hk rfl (hnew _ _) (fun _ _ => rfl) (fun _ _ => rfl)
  | invoke hk hb =>
    exact orderOk_start h hk rfl (hnew _ _) (fun _ _ => rfl) (fun _ _ => rfl)
  | fail hk hr hb => exact orderOk_of h rfl (hins _ _) (fun _ _ => rfl) (fun _ _ => rfl)
  | abandon hk => exact orderOk_of h rfl (hins _ _) (fun _ _ => rfl) (fun _ _ => rfl)
  | orphan hi =>
    exact orderOk_of h (List.append_nil _).symm (fun _ hj => hj) (fun _ _ => rfl) (fun _ _ => rfl)
  | states hr hop =>
    refine orderOk_of h rfl (fun _ hj => hj) (fun _ _ => ?_) (fun _ _ => ?_) <;>
      simp [startsOf, turnsOf, Obs.start?, Obs.turn?]
  | topology hr hop =>
    refine orderOk_of h rfl (fun _ hj => hj) (fun _ _ => ?_) (fun _ _ => ?_) <;>
      simp [startsOf, turnsOf, Obs.start?, Obs.turn?]
  | @move k call pc e n hk hr hm =>
    refine ⟨fun d cid => ?_, fun d cid j hj => ?_, fun d cid => ?_⟩
    · simp only [startsOf_append _ _ s.history, startsOf_move, List.append_nil]
      exact h.once d cid
    · simp only [startsOf_append _ _ s.history, startsOf_move, List.append_nil] at hj
      exact hins k _ j (h.started d cid j hj)
    · simp only [startsOf_append _ _ s.history, startsOf_move, List.append_nil,
        turnsOf_append _ _ s.history]
      by_cases hpc : ∃ r c, pc = .commandSerial r c ∧ call.op.target = some (d, cid)
      · obtain ⟨r, c, rfl, ht⟩ := hpc
        cases hm with
        | commandSerial =>
          have hturn : turnsOf d cid (Effect.none.observe s.shared ++
              (Next.goto (.confirm r c)).observe k call.op (.commandSerial r c)) = [k] := by
            simp [Effect.observe, Next.observe, turnOf, ht, turnsOf, Obs.turn?]
          rw [hturn]
          simpa only [inOrder, hk, ht, List.isSublist_iff_sublist] using ho
      · rw [turnsOf_move fun r c hrc ht => hpc ⟨r, c, hrc, ht⟩, List.append_nil]
        exact h.ordered d cid

theorem new_order (persistent : Bool) (store : DeviceId → Option Record) :
    OrderOk (Sys.new persistent store) :=
  ⟨fun _ _ => List.nodup_nil, fun _ _ _ hk => absurd hk List.not_mem_nil,
    fun _ _ => List.Sublist.refl _⟩

/-- The last call started on a capability, once it has had its turn, was the last to have one. -/
theorem OrderOk.last_turn {s : Sys} (h : OrderOk s) {d : DeviceId} {cid : CapabilityId}
    {k : CallId} (hlast : (startsOf d cid s.history).getLast? = some k)
    (hturn : k ∈ turnsOf d cid s.history) : (turnsOf d cid s.history).getLast? = some k := by
  obtain ⟨l, hl⟩ := List.getLast?_eq_some_iff.mp hlast
  have hnd := h.once d cid
  have hsub := h.ordered d cid
  rw [hl] at hnd hsub
  have hkl : k ∉ l := fun hm => (List.nodup_append.mp hnd).2.2 k hm k (by simp) rfl
  obtain ⟨a, b, hab, ha, hb⟩ := List.sublist_append_iff.mp hsub
  rw [hab, List.mem_append] at hturn
  have hkb : k ∈ b := hturn.resolve_left fun hm => hkl (ha.subset hm)
  have hb' : b = [k] := by
    rcases List.sublist_singleton.mp hb with rfl | rfl
    · simp at hkb
    · rfl
  rw [hab, hb', List.getLast?_concat]

/-! ## The store and memory -/

/-- The await points from the hand-over of a record to the store to its update in memory. -/
def Pc.unsettled : Pc → Bool
  | .saving .. | .confirmSaved .. | .savingInitial _ => true
  | _ => false

/-- No call is dropped between the hand-over of a record to the store and its update in memory. -/
def handed (s : Sys) : Action → Bool
  | .abandon k => match s.calls[k]? with
    | some (.running _ pc) => !pc.unsettled
    | _ => true
  | _ => true

/-- The value that `write_value` or `publish` acknowledges with its reply. -/
def Op.acknowledged (op : Op) (reply : Reply) : Option Value :=
  match op, reply with
  | .writeValue _, .value v => some v
  | .publish _ _ v, .done => some v
  | _, _ => none

/-- The store has a value for the capability that the source's equality takes for `v`. -/
def Stored (sh : Shared) (d : DeviceId) (cid : CapabilityId) (v : Value) : Prop :=
  ∃ record w, sh.store d = some record ∧ record[cid]? = some w ∧ v.partialEq w = true

/-- The call was the last one to have the command serial for its capability. -/
def HasTurn (s : Sys) (k : CallId) (call : Call) : Prop :=
  ∀ d cid, call.op.target = some (d, cid) → (turnsOf d cid s.history).getLast? = some k

/-- What a call has done to the store before its await point. -/
def Backed (s : Sys) (k : CallId) (call : Call) : Pc → Prop
  | .confirm .. | .handling .. | .commit .. | .saving .. => HasTurn s k call
  | .confirmSaved _ _ _ next =>
    HasTurn s k call ∧ ∀ d cid, call.op.target = some (d, cid) → s.shared.store d = some next
  | .advance r c v =>
    HasTurn s k call ∧ (s.shared.values r.ref).persisted[c.id]? = some v
  | .savingInitial values => ∀ d handler, call.op = .register d handler →
    values.Agree d.capabilities ∧
      ∀ record, s.shared.store d.id = some record → Extends record values.persisted
  | .insert values => ∀ d handler, call.op = .register d handler →
    values.Agree d.capabilities ∧ s.shared.store d.id = some values.persisted
  | _ => True

structure StoreOk (s : Sys) : Prop where
  persistent : s.shared.persistent = true
  orphans : s.orphans = []
  values : ∀ (d : DeviceId) (r : RegisteredDevice), s.shared.state.devices[d]? = some r →
    (s.shared.values r.ref).Agree r.definition.capabilities
  stored : ∀ (d : DeviceId) (r : RegisteredDevice), s.shared.state.devices[d]? = some r →
    (∀ (k : CallId) (call : Call) (c : Capability) (v : Value) (next : Record),
      s.calls[k]? ≠ some (.running call (.confirmSaved r c v next))) →
    s.shared.store d = some (s.shared.values r.ref).persisted
  backed : ∀ (k : CallId) (call : Call) (pc : Pc), s.calls[k]? = some (.running call pc) →
    Backed s k call pc
  last : ∀ (d : DeviceId) (r : RegisteredDevice), s.shared.state.devices[d]? = some r →
    lastRegistered d s.history = some r
  known : ∀ (d : DeviceId) (r : RegisteredDevice), lastRegistered d s.history = some r →
    r.definition.id = d ∧ r.definition.validate = .ok () ∧
      missingHandler r.definition r.handler = none ∧
      ∃ record, s.shared.store d = some record ∧ Holds record r.definition.capabilities
  acked : ∀ (k : CallId) (call : Call) (reply : Reply) (d : DeviceId) (cid : CapabilityId)
    (v : Value), s.calls[k]? = some (.returned call (.ok reply)) →
    call.op.target = some (d, cid) → call.op.acknowledged reply = some v →
    k ∈ turnsOf d cid s.history ∧
      ((turnsOf d cid s.history).getLast? = some k → Stored s.shared d cid v)

theorem backed_congr {s s' : Sys} {k : CallId} {call : Call} {pc : Pc}
    (hst : s'.shared.store = s.shared.store) (hv : s'.shared.values = s.shared.values)
    (ht : ∀ d cid, turnsOf d cid s'.history = turnsOf d cid s.history)
    (h : Backed s k call pc) : Backed s' k call pc := by
  have hturn : HasTurn s k call → HasTurn s' k call := fun h d cid hd => by
    rw [ht]
    exact h d cid hd
  cases pc with
  | confirm r c | handling r c | commit r c v | saving r c v next => exact hturn h
  | confirmSaved r c v next =>
    refine ⟨hturn h.1, ?_⟩
    rw [hst]
    exact h.2
  | advance r c v =>
    refine ⟨hturn h.1, ?_⟩
    rw [hv]
    exact h.2
  | savingInitial values | insert values =>
    intro d handler hop
    rw [hst]
    exact h d handler hop
  | _ => trivial

/-- A step that leaves the store, the values, the turns and the registrations as they are. Only
    its own call can return or come to a new await point. -/
theorem storeOk_quiet {s s' : Sys} (h : StoreOk s) {k : CallId} {u : Thread} {m : List Obs}
    (hcalls : s'.calls = s.calls.insert k u) (hh : s'.history = s.history ++ m)
    (hp : s'.shared.persistent = s.shared.persistent) (ho : s'.orphans = [])
    (hst : s'.shared.store = s.shared.store) (hv : s'.shared.values = s.shared.values)
    (hd : ∀ (d : DeviceId) (r : RegisteredDevice), s'.shared.state.devices[d]? = some r →
      s.shared.state.devices[d]? = some r)
    (ht : ∀ d cid, turnsOf d cid m = [])
    (hr : ∀ d, (changes m).filterMap (Change.registration? d) = [])
    (hold : ∀ call r c v next, s.calls[k]? ≠ some (.running call (.confirmSaved r c v next)))
    (hown : ∀ call pc, u = .running call pc → Backed s k call pc)
    (hack : ∀ call reply d cid v, u = .returned call (.ok reply) →
      call.op.target = some (d, cid) → call.op.acknowledged reply = some v →
      k ∈ turnsOf d cid s.history ∧ Stored s.shared d cid v) : StoreOk s' := by
  have hturns : ∀ d cid, turnsOf d cid s'.history = turnsOf d cid s.history := by
    intro d cid
    rw [hh, turnsOf_append, ht, List.append_nil]
  have hlast : ∀ d, lastRegistered d s'.history = lastRegistered d s.history :=
    fun d => hh ▸ lastRegistered_append (hr d)
  refine ⟨hp.trans h.persistent, ho, ?_, ?_, ?_, ?_, ?_, ?_⟩
  · intro d r hdr
    rw [hv]
    exact h.values d r (hd d r hdr)
  · intro d r hdr hno
    rw [hst, hv]
    refine h.stored d r (hd d r hdr) fun j call c v next hj => ?_
    by_cases hjk : j = k
    · exact hold call r c v next (hjk ▸ hj)
    · exact hno j call c v next ((insert_of_ne hcalls hjk).trans hj)
  · intro j call pc hj
    refine backed_congr hst hv hturns ?_
    rcases running_insert hcalls hj with ⟨rfl, hu⟩ | ⟨-, hj⟩
    · exact hown call pc hu
    · exact h.backed j call pc hj
  · intro d r hdr
    rw [hlast]
    exact h.last d r (hd d r hdr)
  · intro d r hdr
    rw [hlast] at hdr
    rw [hst]
    exact h.known d r hdr
  · intro j call reply d cid v hj htgt hv'
    simp only [hturns, Stored, hst]
    rw [hcalls, getElem?_insert] at hj
    split at hj
    · rename_i hjk
      obtain ⟨h1, h2⟩ := hack call reply d cid v (Option.some.inj hj) htgt hv'
      exact ⟨hjk ▸ h1, fun _ => h2⟩
    · exact h.acked j call reply d cid v hj htgt hv'

/-! ## What the moves of a call do to the store -/

/-- A validated value equals itself. -/
theorem partialEq_self {c : Capability} {v : Value} (h : validateCapabilityValue c v = .ok ()) :
    v.partialEq v = true := by
  have hv : v.validate = .ok () := by
    unfold validateCapabilityValue at h
    split at h
    · unfold BuiltinCapability.validateValue at h
      cases hv : v.validate with
      | ok u => rfl
      | error e => simp [hv, bind, Except.bind, Except.mapError] at h
    · split at h
      · simp at h
      · assumption
  cases v with
  | number n =>
    simp only [Value.validate] at hv
    split at hv
    · rename_i hn
      exact Float64.eq_self_of_isFinite hn
    · simp at hv
  | _ => simp [Value.partialEq]

theorem valid_of_effective {sh : Shared} {call : Call} {r : RegisteredDevice} {c : Capability}
    {v : Value} (he : Entered sh call.op r c) (hv : Effective call r c v) :
    validateCapabilityValue c v = .ok () := by
  unfold Effective at hv
  split at hv
  · exact hv.2.2
  · rename_i hop
    rw [hop] at he
    exact hv ▸ he.2
  · exact hv.elim

theorem acknowledged_committed {sh : Shared} {call : Call} {r : RegisteredDevice} {c : Capability}
    {v w : Value} (he : Entered sh call.op r c) (hv : Effective call r c v)
    (h : call.op.acknowledged (call.op.committed v) = some w) : w = v := by
  unfold Effective at hv
  cases hop : call.op with
  | writeValue command => simpa [hop, Op.acknowledged, Op.committed, eq_comm] using h
  | publish d cid v' =>
    rw [hop] at hv h
    simp only [Op.acknowledged, Op.committed, Option.some.injEq] at h
    exact h.symm.trans hv
  | _ => simp [hop, Entered] at he

/-- The capability that a call has entered is the declared one. -/
theorem declared_of_entered {s : Sys} (hok : s.Ok) {op : Op} {r : RegisteredDevice}
    {c : Capability} (he : Entered s.shared op r c) {d : DeviceId} {cid : CapabilityId}
    (ht : op.target = some (d, cid)) : s.shared.state.devices[d]? = some r ∧ c.id = cid ∧
      c ∈ r.definition.capabilities ∧
      ∀ c' ∈ r.definition.capabilities, c'.id = c.id → c' = c := by
  obtain ⟨hr, hc⟩ := lookup_of_target he ht
  rw [hok.shared.capabilities d r hr] at hc
  have hmem := capabilityMap_mem hc
  refine ⟨hr, capabilityMap_id hc, hmem, fun c' hc' hid => ?_⟩
  exact List.inj_on_of_nodup_map (Device.validate_ok (hok.shared.valid d r hr)).2 hc' hmem hid

/-- While a call can take or has the values of a device, the store has its persisted record. -/
theorem stored_of_no_commit {s : Sys} (h : StoreOk s) {d : DeviceId} {r : RegisteredDevice}
    (hd : s.shared.state.devices[d]? = some r)
    (hno : ∀ (j : CallId) (call : Call) (pc : Pc), s.calls[j]? = some (.running call pc) →
      pc.committing = some r → pc.saved = true → pc.updated = some r.ref) :
    s.shared.store d = some (s.shared.values r.ref).persisted := by
  refine h.stored d r hd fun j call c v next hj => ?_
  have := hno j call _ hj rfl rfl
  simp [Pc.updated] at this

theorem stored_of_free {s : Sys} (h : StoreOk s) {d : DeviceId} {r : RegisteredDevice}
    (hd : s.shared.state.devices[d]? = some r) (hf : s.free (.values r.ref) = true) :
    s.shared.store d = some (s.shared.values r.ref).persisted := by
  refine stored_of_no_commit h hd fun j call pc hj hc _ => ?_
  have := free_iff.mp hf j _ hj _ (holds_of_committing hc)
  simp [Lock.excludes] at this

theorem stored_of_committing {s : Sys} (hok : s.Ok) (h : StoreOk s) {d : DeviceId}
    {r : RegisteredDevice} {k : CallId} {call : Call} {pc : Pc}
    (hd : s.shared.state.devices[d]? = some r) (hk : s.calls[k]? = some (.running call pc))
    (hc : pc.committing = some r) (hu : pc.saved = true → pc.updated = some r.ref) :
    s.shared.store d = some (s.shared.values r.ref).persisted := by
  refine stored_of_no_commit h hd fun j call' pc' hj hc' hs' => ?_
  obtain ⟨rfl, rfl, rfl⟩ | hjk := running_cases hk hj
  · exact hu hs'
  · exact absurd rfl (committing_ne hok hjk hj hk hc' hc).1

/-- The moves that touch neither the store nor the values. -/
def Effect.still : Effect → Bool
  | .save .. | .update .. | .insert .. => false
  | _ => true

theorem still_apply {sh : Shared} {e : Effect} (he : e.still = true) :
    (e.apply sh).store = sh.store ∧ (e.apply sh).values = sh.values ∧
      (∀ (d : DeviceId) (r : RegisteredDevice), (e.apply sh).state.devices[d]? = some r →
        sh.state.devices[d]? = some r) ∧
      ∀ d, (changes (e.observe sh)).filterMap (Change.registration? d) = [] := by
  cases e with
  | stop =>
    exact ⟨rfl, rfl, fun d r hr => by simp [Effect.apply] at hr, by simp [Effect.observe]⟩
  | subscribe topic buffer => cases topic <;> exact ⟨rfl, rfl, fun _ _ hr => hr, fun _ => rfl⟩
  | cancel topic id => cases topic <;> exact ⟨rfl, rfl, fun _ _ hr => hr, fun _ => rfl⟩
  | commit d r c v now =>
    refine ⟨rfl, rfl, fun d' r' hr => ?_, fun d' => ?_⟩
    · simp only [Effect.apply] at hr
      split at hr <;> exact hr
    · simp only [Effect.observe]
      split <;> simp [Change.registration?]
  | remove d r =>
    refine ⟨rfl, rfl, fun d' r' hr => ?_, fun d' => by simp [Effect.observe, Change.registration?]⟩
    simp only [Effect.apply, dispatchTopology, getElem?_erase] at hr
    split at hr
    · simp at hr
    · exact hr
  | none | start => exact ⟨rfl, rfl, fun _ _ hr => hr, fun _ => rfl⟩
  | _ => simp [Effect.still] at he

/-- What a call knows about the store after such a move. -/
theorem backed_of_still {s : Sys} (hok : s.Ok) (h : StoreOk s) {k : CallId} {call : Call}
    {pc pc' : Pc} {e : Effect} {n : Next} (hk : s.calls[k]? = some (.running call pc))
    (hm : Move s.shared call pc e n) (he : e.still = true)
    (hpc : ∀ r c, pc ≠ .commandSerial r c) (hn : n = .goto pc') : Backed s k call pc' := by
  have hb := h.backed k call pc hk
  cases hm with
  | restoreNew hop hs hd hp => simp [h.persistent] at hp
  | noStore hv hp => simp [h.persistent] at hp
  | @restore d handler restored hop hl hr =>
    obtain ⟨pc₀, hbegin⟩ := hok.begun k call _ hk
    obtain ⟨h1, h2, h3⟩ := restores_extends hr (begin_register hop hbegin).1
    rw [Next.goto.injEq] at hn
    subst hn
    simp only [Restored.next, h.persistent, Bool.and_true]
    split
    · intro d' handler' hop'
      obtain ⟨rfl, rfl⟩ := Op.register.inj (hop.symm.trans hop')
      exact ⟨h2, h1⟩
    · rename_i hdirty
      intro d' handler' hop'
      obtain ⟨rfl, rfl⟩ := Op.register.inj (hop.symm.trans hop')
      exact ⟨h2, h3 (by simpa using hdirty)⟩
  | confirmCommand | confirmPublish | handle | save =>
    rw [Next.goto.injEq] at hn
    subst hn
    exact hb
  | commandSerial => exact absurd rfl (hpc _ _)
  | saveInitial | update | saved | insert => simp [Effect.still] at he
  | snapshotState | snapshotValues =>
    unfold snapshotNext at hn
    split at hn
    · simp at hn
    · rw [Next.goto.injEq] at hn
      subst hn
      trivial
  | lifecycle | enterRegister | enterUnregister | unregisterSerial | enterRead | enterCommand =>
    rw [Next.goto.injEq] at hn
    subst hn
    trivial
  | _ => simp at hn

/-- What a call that returns has acknowledged is in the store. -/
theorem stored_of_return {s : Sys} (hok : s.Ok) (h : StoreOk s) {k : CallId} {call : Call}
    {pc : Pc} {e : Effect} {n : Next} {reply : Reply} {d : DeviceId} {cid : CapabilityId}
    {v : Value} (hk : s.calls[k]? = some (.running call pc)) (hr : s.ready call pc = true)
    (hm : Move s.shared call pc e n) (hn : n = .ret reply) (ht : call.op.target = some (d, cid))
    (hv : call.op.acknowledged reply = some v) :
    k ∈ turnsOf d cid s.history ∧ Stored s.shared d cid v := by
  have hb := h.backed k call pc hk
  have hpc := hok.pc k call pc hk
  cases hm with
  | @unchanged r c w hw =>
    obtain ⟨he, heff⟩ := hpc
    obtain ⟨hd, rfl, hmem, -⟩ := declared_of_entered hok he ht
    rw [Next.ret.injEq] at hn
    subst hn
    obtain rfl := acknowledged_committed he heff hv
    rw [Option.any_eq_true] at hw
    obtain ⟨x, hx, hxv⟩ := hw
    refine ⟨List.mem_of_getLast? (hb d c.id ht), _, x, stored_of_free h hd (ready_free hr rfl), ?_,
      hxv⟩
    rw [← (h.values d r hd).2 c hmem]
    exact hx
  | @commit d' cid' r c w hop =>
    obtain ⟨he, heff⟩ := hpc
    obtain ⟨hd, rfl, hmem, -⟩ := declared_of_entered hok he ht
    rw [Next.ret.injEq] at hn
    subst hn
    obtain rfl := acknowledged_committed he heff hv
    exact ⟨List.mem_of_getLast? (hb.1 d c.id ht), _, v,
      stored_of_committing hok h hd hk rfl fun _ => rfl, hb.2,
      partialEq_self (valid_of_effective he heff)⟩
  | snapshotState | snapshotValues => simp [show call.op = .snapshot from hpc, Op.target] at ht
  | read hop | start hop | stop hop | stopped hop | remove hop | subscribe hop
  | subscribeTopology hop | cancel hop | insert hop => simp [hop, Op.target] at ht
  | _ => simp at hn

/-! ## What the other calls keep -/

/-- The await points at which a call has the command serial of its device. -/
def Pc.turn? : Pc → Option (RegisteredDevice × Capability)
  | .confirm r c | .handling r c | .commit r c _ | .saving r c _ _ | .confirmSaved r c _ _
  | .advance r c _ => some (r, c)
  | _ => none

theorem turn_serial {sh : Shared} {call : Call} {pc : Pc} {r : RegisteredDevice} {c : Capability}
    (hpc : PcOk sh call pc) (h : pc.turn? = some (r, c)) :
    Entered sh call.op r c ∧ Lock.commandSerial r.ref ∈ pc.holds call.op := by
  cases pc with
  | confirm r' c' =>
    obtain ⟨rfl, rfl⟩ := Prod.mk.inj (Option.some.inj h)
    exact ⟨hpc, by simp [Pc.holds]⟩
  | handling r' c' | commit r' c' v | saving r' c' v next | confirmSaved r' c' v next
  | advance r' c' v =>
    obtain ⟨rfl, rfl⟩ := Prod.mk.inj (Option.some.inj h)
    exact ⟨hpc.1, by simp [Pc.holds]⟩
  | _ => simp [Pc.turn?] at h

/-- A move of `k` gives no turn on a capability whose device's command serial `j` has. -/
theorem turns_of_turn {s : Sys} (hok : s.Ok) {j k : CallId} {call call' : Call} {pc pc' : Pc}
    {e : Effect} {n : Next} {x : RegisteredDevice × Capability}
    (hk : s.calls[k]? = some (.running call pc))
    (hr : s.ready call pc = true) (hj : s.calls[j]? = some (.running call' pc'))
    (hx : pc'.turn? = some x) {d : DeviceId} {cid : CapabilityId}
    (ht : call'.op.target = some (d, cid)) :
    turnsOf d cid (e.observe s.shared ++ n.observe k call.op pc) = [] := by
  refine turnsOf_move fun r c hpc htk => ?_
  subst hpc
  obtain ⟨he, hl⟩ := turn_serial (hok.pc j call' pc' hj) hx
  have hd := (lookup_of_target he ht).1
  have hd' := (lookup_of_target (hok.pc k call _ hk) htk).1
  rw [hd, Option.some.injEq] at hd'
  have := free_iff.mp (ready_free hr rfl) j _ hj _ hl
  simp [Lock.excludes, hd'] at this

/-- The device whose record a call relies on. -/
def relies (call : Call) : Pc → Option DeviceId
  | .confirmSaved .. => call.op.target.map Prod.fst
  | .savingInitial _ | .insert _ => match call.op with
    | .register d _ => some d.id
    | _ => none
  | _ => none

/-- A move of `k` does not save the record that another call relies on. -/
theorem store_of_relies {s : Sys} (hok : s.Ok) {j k : CallId} (hjk : j ≠ k) {call call' : Call}
    {pc pc' : Pc} {e : Effect} {n : Next} (hk : s.calls[k]? = some (.running call pc))
    (hj : s.calls[j]? = some (.running call' pc')) (hm : Move s.shared call pc e n)
    {d : DeviceId} (hd : relies call' pc' = some d) :
    (e.apply s.shared).store d = s.shared.store d := by
  have hex := hok.exclusive k j _ _ (Ne.symm hjk) hk hj
  have hlife : ∃ l ∈ pc'.holds call'.op, Lock.lifecycleWrite.excludes l = true := by
    cases pc' with
    | confirmSaved r c v next =>
      have hl := entered_lifecycle (hok.pc j _ _ hj).1
      exact ⟨.lifecycleRead, by simp [Pc.holds, hl], rfl⟩
    | savingInitial values | insert values =>
      obtain ⟨d', handler, hop, -⟩ := hok.pc j _ _ hj
      exact ⟨.lifecycleWrite, by simp [Pc.holds, hop, Op.lifecycle], rfl⟩
    | _ => simp [relies] at hd
  cases hm with
  | @saved d' cid r c v next hop hs =>
    refine Function.update_of_ne (fun heq => ?_) _ _
    subst heq
    cases pc' with
    | confirmSaved r' c' v' next' =>
      simp only [relies, Option.map_eq_some_iff, Prod.exists] at hd
      obtain ⟨d'', cid', ht', rfl⟩ := hd
      exact (committing_ne hok hjk hj hk rfl rfl).2 _ cid' cid ht' hop
    | savingInitial values | insert values =>
      obtain ⟨d'', handler, hop', -⟩ := hok.pc j _ _ hj
      have hl := entered_lifecycle (hok.pc k _ _ hk).1
      have := hex .lifecycleRead (by simp [Thread.holds, Pc.holds, hl]) .lifecycleWrite
        (by simp [Thread.holds, Pc.holds, hop', Op.lifecycle])
      simp [Lock.excludes] at this
    | _ => simp [relies] at hd
  | @saveInitial d' handler values hop hs =>
    obtain ⟨l, hl, hx⟩ := hlife
    have := hex .lifecycleWrite (by simp [Thread.holds, Pc.holds, hop, Op.lifecycle]) l hl
    simp [this] at hx
  | @cancel topic => cases topic <;> rfl
  | _ => rfl

/-- What another call knows about the store stays true. -/
theorem backed_of_move {s s' : Sys} (hok : s.Ok) {j k : CallId} (hjk : j ≠ k) {call call' : Call}
    {pc pc' : Pc} {e : Effect} {n : Next} (hk : s.calls[k]? = some (.running call pc))
    (hr : s.ready call pc = true) (hj : s.calls[j]? = some (.running call' pc'))
    (hm : Move s.shared call pc e n) (hsh : s'.shared = e.apply s.shared)
    (hh : s'.history = s.history ++ (e.observe s.shared ++ n.observe k call.op pc))
    (hb : Backed s j call' pc') : Backed s' j call' pc' := by
  have hturn : ∀ x, pc'.turn? = some x → HasTurn s j call' → HasTurn s' j call' := by
    intro x hx h d cid ht
    rw [hh, turnsOf_append, turns_of_turn hok hk hr hj hx ht, List.append_nil]
    exact h d cid ht
  have hstore : ∀ d, relies call' pc' = some d → s'.shared.store d = s.shared.store d := by
    intro d hd
    rw [hsh]
    exact store_of_relies hok hjk hk hj hm hd
  cases pc' with
  | confirm r c | handling r c | commit r c v | saving r c v next => exact hturn _ rfl hb
  | confirmSaved r c v next =>
    refine ⟨hturn _ rfl hb.1, fun d cid ht => ?_⟩
    rw [hstore d (by simp [relies, ht])]
    exact hb.2 d cid ht
  | advance r c v =>
    refine ⟨hturn _ rfl hb.1, ?_⟩
    rw [hsh, (agree_of_move hok hjk hk hj hm).values r.ref (by simp [Pc.holds])]
    exact hb.2
  | savingInitial values | insert values =>
    intro d handler hop
    rw [hstore d.id (by simp [relies, hop])]
    exact hb d handler hop
  | _ => trivial

/-! ## One step -/

/-- What a move of `k` adds to the turns on a capability. -/
theorem turnsOf_move_or (d : DeviceId) (cid : CapabilityId) (sh : Shared) (e : Effect) (k : CallId)
    (op : Op) (pc : Pc) (n : Next) :
    turnsOf d cid (e.observe sh ++ n.observe k op pc) = [] ∨
      turnsOf d cid (e.observe sh ++ n.observe k op pc) = [k] := by
  by_cases hpc : ∃ r c, pc = .commandSerial r c ∧ op.target = some (d, cid)
  · obtain ⟨r, c, rfl, ht⟩ := hpc
    rw [turnsOf_append, turnsOf_observe, List.nil_append]
    cases n with
    | goto pc' =>
      right
      simp [Next.observe, turnOf, ht, turnsOf, Obs.turn?]
    | ret reply => exact .inl rfl
  · exact .inl (turnsOf_move fun r c hrc ht => hpc ⟨r, c, hrc, ht⟩)

section Moves

variable {s s' : Sys} {k : CallId} {call : Call} {pc : Pc} {e : Effect} {n : Next}

/-- A move, given what it does to the values and the records itself. -/
theorem storeOk_move (hok : s.Ok) (h : StoreOk s) (hk : s.calls[k]? = some (.running call pc))
    (hr : s.ready call pc = true) (hm : Move s.shared call pc e n)
    (hsh : s'.shared = e.apply s.shared) (hcalls : s'.calls = s.calls.insert k (n.thread call))
    (ho : s'.orphans = s.orphans)
    (hh : s'.history = s.history ++ (e.observe s.shared ++ n.observe k call.op pc))
    (hret : ∀ reply, n = .ret reply → call.op.target = none)
    (hvalues : ∀ (d : DeviceId) (r : RegisteredDevice), s'.shared.state.devices[d]? = some r →
      (s'.shared.values r.ref).Agree r.definition.capabilities)
    (hstored : ∀ (d : DeviceId) (r : RegisteredDevice), s'.shared.state.devices[d]? = some r →
      (∀ (j : CallId) (call : Call) (c : Capability) (v : Value) (next : Record),
        s'.calls[j]? ≠ some (.running call (.confirmSaved r c v next))) →
      s'.shared.store d = some (s'.shared.values r.ref).persisted)
    (hown : ∀ pc', n = .goto pc' → Backed s' k call pc')
    (hlast : ∀ (d : DeviceId) (r : RegisteredDevice), s'.shared.state.devices[d]? = some r →
      lastRegistered d s'.history = some r)
    (hknown : ∀ (d : DeviceId) (r : RegisteredDevice), lastRegistered d s'.history = some r →
      r.definition.id = d ∧ r.definition.validate = .ok () ∧
        missingHandler r.definition r.handler = none ∧
        ∃ record, s'.shared.store d = some record ∧ Holds record r.definition.capabilities)
    (hgrows : ∀ d cid v, (turnsOf d cid s.history).getLast? ≠ some k →
      Stored s.shared d cid v → Stored s'.shared d cid v) : StoreOk s' := by
  refine ⟨?_, ho.trans h.orphans, hvalues, hstored, ?_, hlast, hknown, ?_⟩
  · rw [hsh, apply_persistent]
    exact h.persistent
  · intro j call' pc' hj
    rcases running_insert hcalls hj with ⟨rfl, hu⟩ | ⟨hjk, hj⟩
    · cases n with
      | goto pc'' =>
        obtain ⟨rfl, rfl⟩ := Thread.running.inj hu
        exact hown _ rfl
      | ret reply => exact Thread.noConfusion hu
    · exact backed_of_move hok hjk hk hr hj hm hsh hh (h.backed j call' pc' hj)
  · intro j call' reply d cid v hj ht hv
    rw [hcalls, getElem?_insert] at hj
    split at hj
    · cases n with
      | goto pc'' => exact Thread.noConfusion (Option.some.inj hj)
      | ret reply' =>
        obtain ⟨rfl, -⟩ := Thread.returned.inj (Option.some.inj hj)
        simp [hret reply' rfl] at ht
    · rename_i hkj
      obtain ⟨h1, h2⟩ := h.acked j call' reply d cid v hj ht hv
      rw [hh, turnsOf_append]
      refine ⟨List.mem_append_left _ h1, fun hlast => ?_⟩
      rcases turnsOf_move_or d cid s.shared e k call.op pc n with hnil | hone
      · rw [hnil, List.append_nil] at hlast
        refine hgrows d cid v (fun heq => hkj ?_) (h2 hlast)
        rw [hlast, Option.some.injEq] at heq
        exact heq.symm
      · rw [hone, List.getLast?_concat, Option.some.injEq] at hlast
        exact absurd hlast hkj

/-- The devices that no call is between its save and its update of. -/
theorem stored_keep (h : StoreOk s) (hcalls : s'.calls = s.calls.insert k (n.thread call))
    {d : DeviceId} {r : RegisteredDevice} (hk : s.calls[k]? = some (.running call pc))
    (hd : s.shared.state.devices[d]? = some r)
    (hpc : ∀ c v next, pc ≠ .confirmSaved r c v next)
    (hno : ∀ (j : CallId) (call : Call) (c : Capability) (v : Value) (next : Record),
      s'.calls[j]? ≠ some (.running call (.confirmSaved r c v next))) :
    s.shared.store d = some (s.shared.values r.ref).persisted := by
  refine h.stored d r hd fun j call' c v next hj => ?_
  obtain ⟨rfl, -, he⟩ | hjk := running_cases hk hj
  · exact hpc c v next he
  · exact hno j call' c v next ((insert_of_ne hcalls hjk).trans hj)

/-- A call takes its turn. -/
theorem storeOk_turn (hok : s.Ok) (h : StoreOk s) {r : RegisteredDevice} {c : Capability}
    (hk : s.calls[k]? = some (.running call (.commandSerial r c)))
    (hr : s.ready call (.commandSerial r c) = true) (hsh : s'.shared = s.shared)
    (hcalls : s'.calls = s.calls.insert k (.running call (.confirm r c)))
    (ho : s'.orphans = s.orphans)
    (hh : s'.history = s.history ++ turnOf k call.op (.commandSerial r c)) : StoreOk s' := by
  have hlast : ∀ d, lastRegistered d s'.history = lastRegistered d s.history := fun d =>
    hh ▸ lastRegistered_append (by rw [changes_turnOf]; rfl)
  refine storeOk_move hok h hk hr .commandSerial hsh hcalls ho hh (by simp) ?_ ?_ ?_ ?_ ?_ ?_
  · rw [hsh]
    exact h.values
  · rw [hsh]
    exact fun d r' hd hno => stored_keep (n := .goto (.confirm r c)) h hcalls hk hd (by simp) hno
  · rintro _ ⟨⟩ d cid ht
    rw [hh, turnsOf_append]
    have : turnsOf d cid (turnOf k call.op (.commandSerial r c)) = [k] := by
      simp [turnOf, ht, turnsOf, Obs.turn?]
    rw [this, List.getLast?_concat]
  · rw [hsh]
    exact fun d r' hd => (hlast d).trans (h.last d r' hd)
  · rw [hsh]
    exact fun d r' hd => h.known d r' ((hlast d).symm.trans hd)
  · rw [hsh]
    exact fun _ _ _ _ hs => hs

/-- The record of a commit holds valid values when the values it was made from do. -/
theorem holds_insert {record : Record} {cs : List Capability} {c : Capability} {v : Value}
    (h : Holds record cs) (hv : validateCapabilityValue c v = .ok ())
    (hc : ∀ c' ∈ cs, c'.id = c.id → c' = c) : Holds (record.insert c.id v) cs := by
  intro c' hc'
  rw [getElem?_insert]
  split
  · rename_i hid
    exact ⟨v, rfl, hc c' hc' hid.symm ▸ hv⟩
  · exact h c' hc'

/-- A commit saves its record. -/
theorem storeOk_saved (hok : s.Ok) (h : StoreOk s) {d : DeviceId} {cid : CapabilityId}
    {r : RegisteredDevice} {c : Capability} {v : Value} {next : Record}
    (hk : s.calls[k]? = some (.running call (.saving r c v next)))
    (hr : s.ready call (.saving r c v next) = true) (ht : call.op.target = some (d, cid))
    (hs : call.saved = .ok ()) (hsh : s'.shared = (Effect.save d next).apply s.shared)
    (hcalls : s'.calls = s.calls.insert k (.running call (.confirmSaved r c v next)))
    (ho : s'.orphans = s.orphans) (hh : s'.history = s.history) : StoreOk s' := by
  obtain ⟨he, heff, ⟨-, rfl⟩, -⟩ := hok.pc k call _ hk
  obtain ⟨hd, rfl, hmem, huniq⟩ := declared_of_entered hok he ht
  have hagree := h.values d r hd
  have hold : s.shared.store d = some (s.shared.values r.ref).persisted :=
    stored_of_committing hok h hd hk rfl (by simp [Pc.saved])
  have hturn : HasTurn s k call := h.backed k call _ hk
  refine storeOk_move hok h hk hr (.saved ht hs) hsh hcalls ho
    (by simpa [Effect.observe, Next.observe, turnOf] using hh) (by simp) ?_ ?_ ?_ ?_ ?_ ?_
  · rw [hsh]
    exact h.values
  · rw [hsh]
    intro d' r' hd' hno
    have hne : d' ≠ d := by
      rintro rfl
      have hrr : r' = r := Option.some.inj (hd'.symm.trans hd)
      subst hrr
      exact hno k call c v _ (by rw [hcalls, getElem?_insert, if_pos rfl])
    refine (Function.update_of_ne hne _ _).trans ?_
    exact stored_keep (n := .goto (.confirmSaved r c v _)) h hcalls hk hd' (by simp) hno
  · rintro _ ⟨⟩
    refine ⟨fun d' cid' ht' => hh ▸ hturn d' cid' ht', fun d' cid' ht' => ?_⟩
    rw [ht, Option.some.injEq, Prod.mk.injEq] at ht'
    rw [hsh, ← ht'.1]
    exact Function.update_self _ _ _
  · rw [hsh, hh]
    exact h.last
  · rw [hsh, hh]
    intro d' r' hr'
    obtain ⟨h1, h2, h3, record, h4, h5⟩ := h.known d' r' hr'
    refine ⟨h1, h2, h3, ?_⟩
    by_cases hdd : d' = d
    · subst hdd
      obtain rfl := Option.some.inj ((h.last d' r hd).symm.trans hr')
      exact ⟨_, Function.update_self _ _ _,
        holds_insert hagree.1 (valid_of_effective he heff) huniq⟩
    · exact ⟨record, (Function.update_of_ne hdd _ _).trans h4, h5⟩
  · rw [hsh]
    rintro d' cid' w hlast ⟨record, x, h1, h2, h3⟩
    by_cases hdd : d' = d
    · subst hdd
      obtain rfl := Option.some.inj (hold.symm.trans h1)
      refine ⟨_, x, Function.update_self _ _ _, ?_, h3⟩
      rw [getElem?_insert, if_neg]
      · exact h2
      · rintro rfl
        exact hlast (hturn d' c.id ht)
    · exact ⟨record, x, (Function.update_of_ne hdd _ _).trans h1, h2, h3⟩

/-- A commit updates the values in memory. -/
theorem storeOk_update (hok : s.Ok) (h : StoreOk s) {d : DeviceId} {cid : CapabilityId}
    {r : RegisteredDevice} {c : Capability} {v : Value} {next : Record}
    (hk : s.calls[k]? = some (.running call (.confirmSaved r c v next)))
    (hr : s.ready call (.confirmSaved r c v next) = true) (ht : call.op.target = some (d, cid))
    (hreg : Registered s.shared.state d r)
    (hsh : s'.shared = (Effect.update r.ref
      ⟨(s.shared.values r.ref).current.insert c.id v, next⟩).apply s.shared)
    (hcalls : s'.calls = s.calls.insert k (.running call (.advance r c v)))
    (ho : s'.orphans = s.orphans) (hh : s'.history = s.history) : StoreOk s' := by
  obtain ⟨he, heff, ⟨-, rfl⟩, -⟩ := hok.pc k call _ hk
  obtain ⟨hd, rfl, hmem, huniq⟩ := declared_of_entered hok he ht
  obtain ⟨hturn, hstore⟩ := h.backed k call _ hk
  have hagree := h.values d r hd
  have hother : ∀ (d' : DeviceId) (r' : RegisteredDevice),
      s.shared.state.devices[d']? = some r' → d' ≠ d → r'.ref ≠ r.ref :=
    fun d' r' hd' hne href => hne (hok.shared.distinct d' d r' r hd' hd href)
  refine storeOk_move hok h hk hr (.update ht hreg) hsh hcalls ho
    (by simpa [Effect.observe, Next.observe, turnOf] using hh) (by simp) ?_ ?_ ?_ ?_ ?_ ?_
  · rw [hsh]
    intro d' r' hd'
    by_cases hdd : d' = d
    · subst hdd
      obtain rfl := Option.some.inj (hd.symm.trans hd')
      simp only [Effect.apply, Function.update_self]
      refine ⟨holds_insert hagree.1 (valid_of_effective he heff) huniq, fun c' hc' => ?_⟩
      simp only [getElem?_insert]
      split
      · rfl
      · exact hagree.2 c' hc'
    · simp only [Effect.apply, Function.update_of_ne (hother d' r' hd' hdd)]
      exact h.values d' r' hd'
  · rw [hsh]
    intro d' r' hd' hno
    by_cases hdd : d' = d
    · subst hdd
      obtain rfl := Option.some.inj (hd.symm.trans hd')
      simp only [Effect.apply, Function.update_self]
      exact hstore d' c.id ht
    · simp only [Effect.apply, Function.update_of_ne (hother d' r' hd' hdd)]
      refine stored_keep (n := .goto (.advance r c v)) h hcalls hk hd' ?_ hno
      rintro c' v' next' ⟨⟩
      exact hother d' r hd' hdd rfl
  · rintro _ ⟨⟩
    refine ⟨fun d' cid' ht' => hh ▸ hturn d' cid' ht', ?_⟩
    simp only [hsh, Effect.apply, Function.update_self, getElem?_insert, if_true]
  · rw [hsh, hh]
    exact h.last
  · rw [hsh, hh]
    exact h.known
  · rw [hsh]
    exact fun _ _ _ _ hs => hs

/-- A registration saves the record that it restored. -/
theorem storeOk_saveInitial (hok : s.Ok) (h : StoreOk s) {d : Device} {handler : Bool}
    {values : DeviceValues} (hk : s.calls[k]? = some (.running call (.savingInitial values)))
    (hr : s.ready call (.savingInitial values) = true) (hop : call.op = .register d handler)
    (hs : call.saved = .ok ())
    (hsh : s'.shared = (Effect.save d.id values.persisted).apply s.shared)
    (hcalls : s'.calls = s.calls.insert k (.running call (.insert values)))
    (ho : s'.orphans = s.orphans) (hh : s'.history = s.history) : StoreOk s' := by
  obtain ⟨hagree, hext⟩ := h.backed k call _ hk d handler hop
  obtain ⟨d', handler', hop', -, hd, -⟩ := hok.pc k call _ hk
  obtain ⟨rfl, rfl⟩ := Op.register.inj (hop.symm.trans hop')
  refine storeOk_move hok h hk hr (.saveInitial hop hs) hsh hcalls ho
    (by simpa [Effect.observe, Next.observe, turnOf] using hh) (by simp) ?_ ?_ ?_ ?_ ?_ ?_
  · rw [hsh]
    exact h.values
  · rw [hsh]
    intro d' r' hd' hno
    have hne : d' ≠ d.id := by
      rintro rfl
      exact hd (Std.ExtTreeMap.mem_iff_isSome_getElem?.mpr (by simp [show
        s.shared.state.devices[d.id]? = some r' from hd']))
    refine (Function.update_of_ne hne _ _).trans ?_
    exact stored_keep (n := .goto (.insert values)) h hcalls hk hd' (by simp) hno
  · rintro _ ⟨⟩ d' handler' hop'
    obtain ⟨rfl, rfl⟩ := Op.register.inj (hop.symm.trans hop')
    refine ⟨hagree, ?_⟩
    rw [hsh]
    exact Function.update_self _ _ _
  · rw [hsh, hh]
    exact h.last
  · rw [hsh, hh]
    intro d' r' hr'
    obtain ⟨h1, h2, h3, record, h4, h5⟩ := h.known d' r' hr'
    refine ⟨h1, h2, h3, ?_⟩
    by_cases hdd : d' = d.id
    · subst hdd
      exact ⟨_, Function.update_self _ _ _, (hext record h4).holds h5⟩
    · exact ⟨record, (Function.update_of_ne hdd _ _).trans h4, h5⟩
  · rw [hsh]
    rintro d' cid' w - ⟨record, x, h1, h2, h3⟩
    by_cases hdd : d' = d.id
    · subst hdd
      exact ⟨_, x, Function.update_self _ _ _, hext record h1 cid' x h2, h3⟩
    · exact ⟨record, x, (Function.update_of_ne hdd _ _).trans h1, h2, h3⟩

/-- A registration. -/
theorem storeOk_insert (hok : s.Ok) (h : StoreOk s) {d : Device} {handler : Bool}
    {values : DeviceValues} (hk : s.calls[k]? = some (.running call (.insert values)))
    (hr : s.ready call (.insert values) = true) (hop : call.op = .register d handler)
    (hs : s.shared.state.started = true) (hd : d.id ∉ s.shared.state.devices)
    (hsh : s'.shared = (Effect.insert
      ⟨s.shared.nextRef, d, capabilityMap d.capabilities, handler⟩ values).apply s.shared)
    (hcalls : s'.calls = s.calls.insert k (.returned call (.ok .done)))
    (ho : s'.orphans = s.orphans)
    (hh : s'.history = s.history ++ ((Effect.insert
      ⟨s.shared.nextRef, d, capabilityMap d.capabilities, handler⟩ values).observe s.shared ++
      [.returned k (.ok .done)])) : StoreOk s' := by
  obtain ⟨hagree, hstore⟩ := h.backed k call _ hk d handler hop
  obtain ⟨pc₀, hbegin⟩ := hok.begun k call _ hk
  obtain ⟨hvalid, hhandler⟩ := begin_register hop hbegin
  have hdev : ∀ (d' : DeviceId) (r : RegisteredDevice), s'.shared.state.devices[d']? = some r →
      (d' = d.id ∧ r = ⟨s.shared.nextRef, d, capabilityMap d.capabilities, handler⟩) ∨
        (d' ≠ d.id ∧ s.shared.state.devices[d']? = some r) := by
    intro d' r hr
    simp only [hsh, Effect.apply, dispatchTopology, getElem?_insert] at hr
    split at hr
    · rename_i hdd
      exact .inl ⟨hdd.symm, (Option.some.inj hr).symm⟩
    · rename_i hdd
      exact .inr ⟨Ne.symm hdd, hr⟩
  have hvals : ∀ (d' : DeviceId) (r : RegisteredDevice), s.shared.state.devices[d']? = some r →
      s'.shared.values r.ref = s.shared.values r.ref := by
    intro d' r hr
    rw [hsh]
    exact Function.update_of_ne (Nat.ne_of_lt (hok.shared.fresh d' r hr)) _ _
  have hnew : s'.shared.values s.shared.nextRef = values := by
    rw [hsh]
    exact Function.update_self _ _ _
  have hstore' : s'.shared.store = s.shared.store := by rw [hsh]; rfl
  have hch : changes s'.history = changes s.history ++ [.registered (s.shared.state.revision + 1)
      ⟨s.shared.nextRef, d, capabilityMap d.capabilities, handler⟩ values.current] := by
    simp [hh, Effect.observe]
  have hlast : ∀ d', lastRegistered d' s'.history = if d.id = d' then
      some ⟨s.shared.nextRef, d, capabilityMap d.capabilities, handler⟩
      else lastRegistered d' s.history := by
    intro d'
    simp only [lastRegistered, hch, List.filterMap_append, List.filterMap_cons,
      Change.registration?, List.filterMap_nil]
    by_cases hdd : d.id = d' <;> simp [hdd]
  refine storeOk_move hok h hk hr (.insert hop hs hd) hsh hcalls ho hh
    (fun _ _ => by simp [hop, Op.target]) ?_ ?_ (by simp) ?_ ?_ ?_
  · intro d' r hr
    rcases hdev d' r hr with ⟨rfl, rfl⟩ | ⟨-, hr⟩
    · rw [hnew]
      exact hagree
    · rw [hvals d' r hr]
      exact h.values d' r hr
  · intro d' r hr hno
    rw [hstore']
    rcases hdev d' r hr with ⟨rfl, rfl⟩ | ⟨-, hr⟩
    · rw [hnew]
      exact hstore
    · rw [hvals d' r hr]
      exact stored_keep (n := .ret .done) h hcalls hk hr (by simp) hno
  · intro d' r hr
    rw [hlast]
    rcases hdev d' r hr with ⟨rfl, rfl⟩ | ⟨hne, hr⟩
    · rw [if_pos rfl]
    · rw [if_neg (Ne.symm hne)]
      exact h.last d' r hr
  · intro d' r hr
    rw [hlast] at hr
    rw [hstore']
    split at hr
    · rename_i hdd
      obtain rfl := Option.some.inj hr
      exact ⟨hdd, hvalid, hhandler, _, hdd ▸ hstore, hagree.1⟩
    · exact h.known d' r hr
  · simp only [Stored, hstore']
    exact fun _ _ _ _ hs => hs

end Moves

/-- A step of a subscriber. -/
theorem storeOk_receiver {s s' : Sys} (h : StoreOk s) {m : List Obs} (hcalls : s'.calls = s.calls)
    (hh : s'.history = s.history ++ m) (hp : s'.shared.persistent = s.shared.persistent)
    (ho : s'.orphans = s.orphans) (hst : s'.shared.store = s.shared.store)
    (hv : s'.shared.values = s.shared.values)
    (hd : s'.shared.state.devices = s.shared.state.devices) (ht : ∀ d cid, turnsOf d cid m = [])
    (hc : changes m = []) : StoreOk s' := by
  have hturns : ∀ d cid, turnsOf d cid s'.history = turnsOf d cid s.history := by
    intro d cid
    rw [hh, turnsOf_append, ht, List.append_nil]
  have hlast : ∀ d, lastRegistered d s'.history = lastRegistered d s.history :=
    fun d => hh ▸ lastRegistered_append (by simp [hc])
  refine ⟨hp.trans h.persistent, ho.trans h.orphans, ?_, ?_, ?_, ?_, ?_, ?_⟩
  · rw [hd, hv]
    exact h.values
  · rw [hd, hv, hst, hcalls]
    exact h.stored
  · rw [hcalls]
    exact fun k call pc hk => backed_congr hst hv hturns (h.backed k call pc hk)
  · rw [hd]
    exact fun d r hr => (hlast d).trans (h.last d r hr)
  · rw [hst]
    exact fun d r hr => h.known d r ((hlast d).symm.trans hr)
  · simp only [hcalls, hturns, Stored, hst]
    exact h.acked

theorem step_store {s s' : Sys} {a : Action} (hok : s.Ok) (h : StoreOk s) (hw : handed s a = true)
    (hs : step s a = some s') : StoreOk s' := by
  have hnone : ∀ {k : CallId}, k ∉ s.calls → s.calls[k]? = none :=
    fun hk => Std.ExtTreeMap.getElem?_eq_none hk
  cases step_cases hs with
  | reject hk hb =>
    exact storeOk_quiet h rfl rfl rfl h.orphans rfl rfl (fun _ _ hd => hd) (fun _ _ => rfl)
      (fun _ => rfl) (by simp [hnone hk]) (by simp) (by simp)
  | invoke hk hb =>
    refine storeOk_quiet h rfl rfl rfl h.orphans rfl rfl (fun _ _ hd => hd) (fun _ _ => rfl)
      (fun _ => rfl) (by simp [hnone hk]) ?_ (by simp)
    rintro _ _ ⟨⟩
    obtain ⟨rfl, -⟩ | ⟨rfl, -⟩ | ⟨rfl, -⟩ := begin_ok hb <;> trivial
  | @fail k call pc e hk hr hb =>
    refine storeOk_quiet h rfl rfl rfl h.orphans rfl rfl (fun _ _ hd => hd) (fun _ _ => rfl)
      (fun _ => rfl) ?_ (by simp) (by simp)
    intro call' r c v next hk'
    obtain ⟨rfl, rfl⟩ := running_inj hk hk'
    -- under the lifecycle lock the registration cannot have gone
    have he := (hok.pc k call _ hk).1
    obtain ⟨d, cid, ht, -⟩ := lookup_of_entered he
    rw [body_of_move (.update ht (registered_of_entered he ht))] at hb
    simp at hb
  | @abandon k call pc hk =>
    have hpc : pc.unsettled = false := by simpa [handed, hk] using hw
    have horph : orphaned call pc = [] := by
      cases pc <;> simp_all [orphaned, Pc.unsettled]
    refine storeOk_quiet h rfl rfl rfl (by simp [h.orphans, horph]) rfl rfl (fun _ _ hd => hd)
      (fun _ _ => rfl) (fun _ => rfl) ?_ (by simp) (by simp)
    intro call' r c v next hk'
    obtain ⟨rfl, rfl⟩ := running_inj hk hk'
    simp [Pc.unsettled] at hpc
  | orphan ho => simp [h.orphans] at ho
  | states hr hop =>
    exact storeOk_receiver h rfl rfl rfl rfl rfl rfl rfl (by simp [turnsOf, Obs.turn?]) (by simp)
  | topology hr hop =>
    exact storeOk_receiver h rfl rfl rfl rfl rfl rfl rfl (by simp [turnsOf, Obs.turn?]) (by simp)
  | @move k call pc e n hk hr hm =>
    by_cases hturn : ∃ r c, pc = .commandSerial r c
    · obtain ⟨r, c, rfl⟩ := hturn
      cases hm with
      | commandSerial => exact storeOk_turn hok h hk hr rfl rfl rfl rfl
    by_cases he : e.still = true
    · obtain ⟨h1, h2, h3, h4⟩ := @still_apply s.shared _ he
      refine storeOk_quiet h rfl rfl (apply_persistent _ _) h.orphans h1 h2 h3
        (fun d cid => turnsOf_move fun r c hpc _ => hturn ⟨r, c, hpc⟩) (fun d => ?_) ?_ ?_ ?_
      · rw [changes_append, List.filterMap_append, h4]
        cases n with
        | goto pc' => simp [Next.observe, changes_turnOf]
        | ret reply => rfl
      · intro call' r c v next hk'
        obtain ⟨rfl, rfl⟩ := running_inj hk hk'
        cases hm
        simp [Effect.still] at he
      · intro call' pc' hu
        cases n with
        | goto pc'' =>
          obtain ⟨rfl, rfl⟩ := Thread.running.inj hu
          exact backed_of_still hok h hk hm he (fun r c hpc => hturn ⟨r, c, hpc⟩) rfl
        | ret reply => exact Thread.noConfusion hu
      · intro call' reply d cid v hu ht hv
        cases n with
        | goto pc'' => exact Thread.noConfusion hu
        | ret reply' =>
          obtain ⟨rfl, hreply⟩ := Thread.returned.inj hu
          cases Except.ok.inj hreply
          exact stored_of_return hok h hk hr hm rfl ht hv
    · cases hm with
      | saved ht hsaved =>
        exact storeOk_saved hok h hk hr ht hsaved rfl rfl rfl
          (by simp [Effect.observe, Next.observe, turnOf])
      | update ht hreg =>
        exact storeOk_update hok h hk hr ht hreg rfl rfl rfl
          (by simp [Effect.observe, Next.observe, turnOf])
      | saveInitial hop hsaved =>
        exact storeOk_saveInitial hok h hk hr hop hsaved rfl rfl rfl
          (by simp [Effect.observe, Next.observe, turnOf])
      | insert hop hstarted hd =>
        exact storeOk_insert hok h hk hr hop hstarted hd rfl rfl rfl rfl
      | _ => simp [Effect.still] at he

theorem new_store (store : DeviceId → Option Record) : StoreOk (Sys.new true store) := by
  refine ⟨rfl, rfl, ?_, ?_, ?_, ?_, ?_, ?_⟩ <;> simp [Sys.new, lastRegistered]

/-! ## Restarts -/

/-- A new runtime over the records of the old one: it is started and the device registered. -/
def restart (store : DeviceId → Option Record) (device : Device) (handler : Bool) : Option Sys :=
  run (Sys.new true store) (alone 0 { op := .start } 2 ++ alone 1 { op := .register device handler } 4)

/-- The value that a restart restores for a capability of a device. -/
def restored (store : DeviceId → Option Record) (device : Device) (handler : Bool)
    (cid : CapabilityId) : Option Value := do
  let s ← restart store device handler
  let r ← s.shared.state.devices[device.id]?
  (s.shared.values r.ref).current[cid]?

/-- The last call started on a capability of a device, if it returned `Ok`, has acknowledged the
    value that a restart restores for the device as it was last registered. -/
def Sys.Durable (s : Sys) : Prop :=
  ∀ (k : CallId) (call : Call) (reply : Reply) (d : DeviceId) (cid : CapabilityId) (v : Value)
    (r : RegisteredDevice), s.calls[k]? = some (.returned call (.ok reply)) →
    call.op.target = some (d, cid) → call.op.acknowledged reply = some v →
    (startsOf d cid s.history).getLast? = some k → lastRegistered d s.history = some r →
    cid ∈ r.definition.capabilities.map Capability.id →
    ∃ w, restored s.shared.store r.definition r.handler cid = some w ∧ v.partialEq w = true

theorem quiet_insert {t t' : Sys} (hq : t.Quiet) {k : CallId} {call : Call} {o : Outcome}
    (hcalls : t'.calls = t.calls.insert k (.returned call o)) : t'.Quiet := by
  intro j call' pc hj
  rcases running_insert hcalls hj with ⟨-, hu⟩ | ⟨-, hj⟩
  · exact Thread.noConfusion hu
  · exact hq j call' pc hj

theorem restart_started (store : DeviceId → Option Record) :
    ∃ t, run (Sys.new true store) (alone 0 { op := .start } 2) = some t ∧ t.Quiet ∧
      t.shared = Effect.start.apply (Sys.new true store).shared ∧ 1 ∉ t.calls := by
  have hq : (Sys.new true store).Quiet := by simp [Sys.Quiet, Sys.new]
  have hk : 0 ∉ (Sys.new true store).calls := by simp [Sys.new]
  have hb : begin { op := .start } = .ok .lifecycle := rfl
  obtain ⟨t₀, h₀, hsh₀, hc₀, -⟩ := run_alone_zero hk hb
  obtain ⟨t₁, h₁, hsh₁, hc₁, -⟩ := run_alone_succ hq h₀ hc₀ .lifecycle
  obtain ⟨t₂, h₂, hsh₂, hc₂, -⟩ := run_alone_succ hq h₁ hc₁ (.start rfl (by rw [hsh₁, hsh₀]; rfl))
  refine ⟨t₂, h₂, quiet_insert hq hc₂, by rw [hsh₂, hsh₁, hsh₀]; rfl, ?_⟩
  rw [hc₂, Std.ExtTreeMap.mem_insert]
  simp [Sys.new]

/-- A stored record with a valid value for every capability is what a restart restores. -/
theorem restored_of_holds {store : DeviceId → Option Record} {device : Device} {handler : Bool}
    {record : Record} (hstore : store device.id = some record)
    (hrec : Holds record device.capabilities) (hv : device.validate = .ok ())
    (hh : missingHandler device handler = none) {cid : CapabilityId}
    (hcid : cid ∈ device.capabilities.map Capability.id) :
    restored store device handler cid = record[cid]? := by
  obtain ⟨c, hc, rfl⟩ := List.mem_map.mp hcid
  obtain ⟨t, hrun, hq, hsh, hk⟩ := restart_started store
  obtain ⟨values, hrest, hp, hdirty, hcur⟩ := restores_of_holds hrec hv
  have hb : begin { op := .register device handler } = .ok .lifecycle := by simp [begin, hv, hh]
  have hnext : values.next t.shared = .insert ⟨values.current, values.persisted⟩ := by
    simp [Restored.next, hdirty]
  obtain ⟨t₀, h₀, hsh₀, hc₀, -⟩ := run_alone_zero hk hb
  obtain ⟨t₁, h₁, hsh₁, hc₁, -⟩ := run_alone_succ hq h₀ hc₀ .lifecycle
  replace hsh₁ : t₁.shared = t.shared := by rw [hsh₁, hsh₀]; rfl
  obtain ⟨t₂, h₂, hsh₂, hc₂, -⟩ := run_alone_succ hq h₁ hc₁
    (.enterRegister rfl (by rw [hsh₁, hsh]; rfl) (by simp [hsh₁, hsh, Effect.apply, Sys.new])
      (by rw [hsh₁, hsh]; rfl))
  replace hsh₂ : t₂.shared = t.shared := hsh₂.trans hsh₁
  obtain ⟨t₃, h₃, hsh₃, hc₃, -⟩ := run_alone_succ hq h₂ hc₂
    (.restore rfl rfl (by rw [hsh₂, hsh]; exact hstore ▸ hrest))
  replace hsh₃ : t₃.shared = t.shared := hsh₃.trans hsh₂
  rw [hsh₂, hnext] at hc₃
  obtain ⟨t₄, h₄, hsh₄, -, -⟩ := run_alone_succ hq h₃ hc₃
    (.insert rfl (by rw [hsh₃, hsh]; rfl) (by simp [hsh₃, hsh, Effect.apply, Sys.new]))
  have hrestart : restart store device handler = some t₄ :=
    Machine.run_append_eq_some.mpr ⟨t, hrun, h₄⟩
  have hdev : t₄.shared.state.devices[device.id]? =
      some ⟨t₃.shared.nextRef, device, capabilityMap device.capabilities, handler⟩ := by
    simp only [hsh₄, Effect.apply, dispatchTopology, getElem?_insert, if_true]
  have hval : t₄.shared.values t₃.shared.nextRef = ⟨values.current, values.persisted⟩ := by
    rw [hsh₄]
    exact Function.update_self _ _ _
  simp only [restored, hrestart, hdev, hval, Option.bind_eq_bind, Option.bind_some]
  exact hcur c hc

/-- The steps of a run in which acknowledged values are durable. -/
def settledInOrder (s : Sys) (a : Action) : Bool := handed s a && inOrder s a

/-- In every state of a run in which no call is dropped between the hand-over of its record to the
    store and the update in memory, and the calls on a capability take their turns in the order in
    which they were started, acknowledged values are durable. -/
theorem durable_of_settledInOrder {store : DeviceId → Option Record} {as : List Action} {s : Sys}
    (hrun : run (Sys.new true store) as = some s)
    (hmeets : Machine.Meets step (fun s a => settledInOrder s a = true) (Sys.new true store) as) :
    s.Durable := by
  have hinv : s.Ok ∧ StoreOk s ∧ OrderOk s := by
    refine Machine.run_inv_of_meets (P := fun s => s.Ok ∧ StoreOk s ∧ OrderOk s) ?_
      ⟨new_ok true store, new_store store, new_order true store⟩ hmeets hrun
    rintro s a s' ⟨hok, hst, hord⟩ hallowed hs
    obtain ⟨hhand, hin⟩ := Bool.and_eq_true_iff.mp hallowed
    exact ⟨step_ok hok hs, step_store hok hst hhand hs, step_order hord hin hs⟩
  obtain ⟨-, hst, hord⟩ := hinv
  intro k call reply d cid v r hk ht hv hlast hr hc
  obtain ⟨hturn, hacked⟩ := hst.acked k call reply d cid v hk ht hv
  obtain ⟨record, w, hstore, hw, heq⟩ := hacked (hord.last_turn hlast hturn)
  obtain ⟨rfl, hvalid, hhandler, record', hstore', hholds⟩ := hst.known d r hr
  obtain rfl := Option.some.inj (hstore.symm.trans hstore')
  exact ⟨w, (restored_of_holds hstore hholds hvalid hhandler hc).trans hw, heq⟩

/-- A publication that is dropped while its record is saved, and then one of the value that memory
    still has. -/
def lampDropped : List Action :=
  lampStart ++ alone 2 (publishLamp true) 5 ++ [.abandon 2, .orphan 0] ++
    alone 3 (publishLamp false) 5

def lampRegistered : RegisteredDevice := ⟨0, lamp, capabilityMap lamp.capabilities, true⟩

theorem not_durable_lampDropped :
    ∃ s, run (Sys.new true fun _ => none) lampDropped = some s ∧ s.orphans = [] ∧ s.Quiet ∧
      s.calls[3]? = some (.returned (publishLamp false) (.ok .done)) ∧ ¬ s.Durable := by
  refine ⟨(run (Sys.new true fun _ => none) lampDropped).get (by decide),
    (Option.some_get _).symm, rfl, quiet_of_settled (by decide), rfl, fun h => ?_⟩
  obtain ⟨w, hw, heq⟩ := h 3 (publishLamp false) .done lamp.id lampOn.id (.bool false)
    lampRegistered rfl rfl rfl (by decide) rfl (by decide)
  have htrue : restored ((run (Sys.new true fun _ => none) lampDropped).get (by decide)).shared.store
      lampRegistered.definition lampRegistered.handler lampOn.id = some (.bool true) := by decide
  rw [htrue, Option.some.injEq] at hw
  subst hw
  simp [Value.partialEq] at heq

/-- Two publications, the second one started while the first one waits. -/
def lampTwice : List Action :=
  lampStart ++ [.invoke 2 (publishLamp true), .advance 2, .invoke 3 (publishLamp false)] ++
    List.replicate 7 (.advance 2) ++ List.replicate 8 (.advance 3)

theorem durable_lampTwice :
    ∃ s, run (Sys.new true fun _ => none) lampTwice = some s ∧
      s.calls[3]? = some (.returned (publishLamp false) (.ok .done)) ∧
      (startsOf lamp.id lampOn.id s.history).getLast? = some 3 ∧ s.Durable :=
  ⟨(run (Sys.new true fun _ => none) lampTwice).get (by decide), (Option.some_get _).symm, rfl,
    by decide, durable_of_settledInOrder (Option.some_get _).symm
      (Machine.meets_of_allows (by decide))⟩

end Oikade.Core
