/-
  What holds in every reachable state of the runtime machine.

  `Sys.Exclusive`: two calls never hold locks that exclude each other. `SharedOk`: the device table
  is keyed by device identifiers, and no two registrations share a reference. `PcOk`: what a call
  has established before its await point and its locks keep true there: a call under the lifecycle
  lock finds the device table as it left it, a call under a `values` lock finds the values as it
  left them. `step_ok` is the step lemma and `reachable_ok` the run lemma.
-/
import Oikade.Core.Move

namespace Oikade.Core

/-! ## Lookups -/

theorem getElem?_insert {α β : Type} [Ord α] [Std.TransOrd α] [Std.LawfulEqOrd α] [DecidableEq α]
    (m : Std.ExtTreeMap α β) (k a : α) (v : β) :
    (m.insert k v)[a]? = if k = a then some v else m[a]? := by
  rw [Std.ExtTreeMap.getElem?_insert]
  simp only [Std.compare_eq_iff_eq]

theorem getElem?_erase {α β : Type} [Ord α] [Std.TransOrd α] [Std.LawfulEqOrd α] [DecidableEq α]
    (m : Std.ExtTreeMap α β) (k a : α) :
    (m.erase k)[a]? = if k = a then none else m[a]? := by
  rw [Std.ExtTreeMap.getElem?_erase]
  simp only [Std.compare_eq_iff_eq]

/-- A call is at one await point. -/
theorem running_inj {s : Sys} {k : CallId} {call call' : Call} {pc pc' : Pc}
    (hk : s.calls[k]? = some (.running call pc)) (hk' : s.calls[k]? = some (.running call' pc')) :
    call = call' ∧ pc = pc' := by
  rw [hk, Option.some.injEq] at hk'
  exact Thread.running.inj hk'

/-- A running call is the given one, or another. -/
theorem running_cases {s : Sys} {j k : CallId} {call call' : Call} {pc pc' : Pc}
    (hk : s.calls[k]? = some (.running call pc)) (hj : s.calls[j]? = some (.running call' pc')) :
    (j = k ∧ call = call' ∧ pc = pc') ∨ j ≠ k := by
  by_cases hjk : j = k
  · subst hjk
    exact .inl ⟨rfl, running_inj hk hj⟩
  · exact .inr hjk

theorem capabilityMap_foldl (cs : List Capability) (m : Std.ExtTreeMap CapabilityId Capability)
    (hm : ∀ (cid : CapabilityId) (c : Capability), m[cid]? = some c → c.id = cid)
    {cid : CapabilityId} {c : Capability}
    (h : (cs.foldl (fun m c => m.insert c.id c) m)[cid]? = some c) : c.id = cid := by
  induction cs generalizing m with
  | nil => exact hm cid c h
  | cons a cs ih =>
    refine ih _ ?_ h
    intro cid' c' h'
    simp only [getElem?_insert] at h'
    split at h'
    · rename_i he
      rw [Option.some.injEq] at h'
      rw [← h', he]
    · exact hm cid' c' h'

/-- A capability is found under its own identifier. -/
theorem capabilityMap_id {cs : List Capability} {cid : CapabilityId} {c : Capability}
    (h : (capabilityMap cs)[cid]? = some c) : c.id = cid :=
  capabilityMap_foldl cs ∅ (by simp) h

/-! ## Locks -/

theorem excludes_comm (l l' : Lock) : l.excludes l' = l'.excludes l := by
  cases l <;> cases l' <;> simp [Lock.excludes, eq_comm]

theorem free_iff {s : Sys} {l : Lock} : s.free l = true ↔
    ∀ (k : CallId) (t : Thread), s.calls[k]? = some t → ∀ l' ∈ t.holds, l.excludes l' = false := by
  simp only [Sys.free, List.all_eq_true, Bool.not_eq_true']
  constructor
  · intro h k t hk
    exact h (k, t) (Std.ExtTreeMap.mem_toList_iff_getElem?_eq_some.mpr hk)
  · rintro h ⟨k, t⟩ hk
    exact h k t (Std.ExtTreeMap.mem_toList_iff_getElem?_eq_some.mp hk)

/-- Two calls never hold locks that exclude each other. -/
def Sys.Exclusive (s : Sys) : Prop :=
  ∀ (j k : CallId) (t t' : Thread), j ≠ k → s.calls[j]? = some t → s.calls[k]? = some t' →
    ∀ l ∈ t.holds, ∀ l' ∈ t'.holds, l.excludes l' = false

/-- A call may keep its locks and take free ones. -/
theorem exclusive_insert {s s' : Sys} (h : s.Exclusive) {k : CallId} {t : Thread}
    (hs' : s'.calls = s.calls.insert k t)
    (ht : ∀ l ∈ t.holds, (∃ u, s.calls[k]? = some u ∧ l ∈ u.holds) ∨ s.free l = true) :
    s'.Exclusive := by
  have hnew : ∀ (j : CallId) (u : Thread), j ≠ k → s.calls[j]? = some u →
      ∀ l ∈ t.holds, ∀ l' ∈ u.holds, l.excludes l' = false := by
    intro j u hj hu l hl l' hl'
    rcases ht l hl with ⟨u', hu', hl''⟩ | hfree
    · exact h k j u' u (Ne.symm hj) hu' hu l hl'' l' hl'
    · exact free_iff.mp hfree j u hu l' hl'
  intro i j u u' hij hu hu' l hl l' hl'
  rw [hs', getElem?_insert] at hu hu'
  split at hu
  · rename_i hk
    subst hk
    rw [Option.some.injEq] at hu
    rw [if_neg hij] at hu'
    exact hnew j u' (Ne.symm hij) hu' l (hu ▸ hl) l' hl'
  · rename_i hk
    split at hu'
    · rename_i hk'
      subst hk'
      rw [Option.some.injEq] at hu'
      rw [excludes_comm]
      exact hnew i u hij hu l' (hu' ▸ hl') l hl
    · exact h i j u u' hij hu hu' l hl l' hl'

theorem ready_free {s : Sys} {call : Call} {pc : Pc} {l : Lock} (h : s.ready call pc = true)
    (hl : pc.needs call.op = some l) : s.free l = true := by
  simpa [Sys.ready, hl] using h

/-- What a call holds after a move it held before or was waiting for. -/
theorem move_holds {sh : Shared} {call : Call} {pc : Pc} {e : Effect} {n : Next}
    (h : Move sh call pc e n) :
    ∀ l ∈ (n.thread call).holds, l ∈ pc.holds call.op ∨ pc.needs call.op = some l := by
  cases h with
  | lifecycle => simp [Next.thread, Thread.holds, Pc.holds, Pc.needs]
  | restoreNew | restore =>
    intro l hl
    left
    simp only [Next.thread, Restored.next] at hl
    split at hl <;> simpa [Thread.holds, Pc.holds] using hl
  | snapshotState =>
    unfold snapshotNext
    split <;> simp [Next.thread, Thread.holds, Pc.holds]
  | snapshotValues =>
    unfold snapshotNext
    split <;> simp [Next.thread, Thread.holds, Pc.holds]
  | _ => simp [Next.thread, Thread.holds, Pc.holds, Pc.needs] <;> grind

/-! ## The device table -/

structure SharedOk (sh : Shared) : Prop where
  key : ∀ (d : DeviceId) (r : RegisteredDevice), sh.state.devices[d]? = some r → r.definition.id = d
  valid : ∀ (d : DeviceId) (r : RegisteredDevice), sh.state.devices[d]? = some r →
    r.definition.validate = .ok ()
  capabilities : ∀ (d : DeviceId) (r : RegisteredDevice), sh.state.devices[d]? = some r →
    r.capabilities = capabilityMap r.definition.capabilities
  handler : ∀ (d : DeviceId) (r : RegisteredDevice), sh.state.devices[d]? = some r →
    missingHandler r.definition r.handler = none
  fresh : ∀ (d : DeviceId) (r : RegisteredDevice), sh.state.devices[d]? = some r →
    r.ref < sh.nextRef
  distinct : ∀ (d d' : DeviceId) (r r' : RegisteredDevice), sh.state.devices[d]? = some r →
    sh.state.devices[d']? = some r' → r.ref = r'.ref → d = d'

/-- The steps that change which devices are registered. -/
def Effect.lifecycle : Effect → Bool
  | .start | .stop | .insert .. | .remove .. => true
  | _ => false

theorem apply_state {sh : Shared} {e : Effect} (h : e.lifecycle = false) :
    (e.apply sh).state.started = sh.state.started ∧
      (e.apply sh).state.devices = sh.state.devices ∧ (e.apply sh).nextRef = sh.nextRef := by
  cases e with
  | commit d r c v now =>
    simp only [Effect.apply]
    split <;> exact ⟨rfl, rfl, trivial⟩
  | subscribe topic buffer => cases topic <;> exact ⟨rfl, rfl, rfl⟩
  | cancel topic id => cases topic <;> exact ⟨rfl, rfl, rfl⟩
  | start | stop | insert | remove => simp [Effect.lifecycle] at h
  | _ => exact ⟨rfl, rfl, rfl⟩

@[simp] theorem apply_persistent (sh : Shared) (e : Effect) :
    (e.apply sh).persistent = sh.persistent := by
  cases e with
  | subscribe topic buffer => cases topic <;> rfl
  | cancel topic id => cases topic <;> rfl
  | _ => rfl

/-- Only a call under the lifecycle write lock changes the device table. -/
theorem lifecycleWrite_of_move {sh : Shared} {call : Call} {pc : Pc} {e : Effect} {n : Next}
    (h : Move sh call pc e n) (he : e.lifecycle = true) :
    Lock.lifecycleWrite ∈ pc.holds call.op := by
  cases h with
  | start hop | stop hop | insert hop | remove hop => simp [Pc.holds, hop, Op.lifecycle]
  | _ => simp [Effect.lifecycle] at he

/-- A move changes the values of one device: the one whose `values` lock the call holds, or the one
    it registers. -/
theorem values_of_move {sh : Shared} {call : Call} {pc : Pc} {e : Effect} {n : Next}
    (h : Move sh call pc e n) (ref : Ref) (hne : (e.apply sh).values ref ≠ sh.values ref) :
    Lock.values ref ∈ pc.holds call.op ∨ ref = sh.nextRef := by
  cases h with
  | update hop hr =>
    left
    by_contra hl
    refine hne (Function.update_of_ne (fun heq => hl ?_) _ _)
    simp [Pc.holds, heq]
  | insert =>
    right
    by_contra hl
    exact hne (Function.update_of_ne hl _ _)
  | subscribe | subscribeTopology => exact absurd rfl hne
  | @cancel topic => cases topic <;> exact absurd rfl hne
  | _ => exact absurd rfl hne

/-! ## What a call knows at its await point -/

/-- The value that `write_value` or `publish` commits. -/
def Effective (call : Call) (r : RegisteredDevice) (c : Capability) (v : Value) : Prop :=
  match call.op with
  | .writeValue _ =>
    r.handler = true ∧ call.handled = .ok v ∧ validateCapabilityValue c v = .ok ()
  | .publish _ _ v' => v' = v
  | _ => False

/-- The record that `commit` hands to the store is made from the values it found. -/
def Differs (values : DeviceValues) (c : Capability) (v : Value) (next : Record) : Prop :=
  (values.current[c.id]?).any (Value.partialEq v) = false ∧ next = values.persisted.insert c.id v

/-- What a call has checked and its locks keep true. -/
def PcOk (sh : Shared) (call : Call) : Pc → Prop
  | .lifecycle | .enter => call.op.lifecycle.isSome = true
  | .readValues r => ∃ d cid c, call.op = .read d cid ∧ lookup sh.state d cid = .ok (r, c) ∧
      c.permissions.read = true
  | .commandSerial r c | .confirm r c => Entered sh call.op r c
  | .handling r c =>
    Entered sh call.op r c ∧ r.handler = true ∧ ∃ command, call.op = .writeValue command
  | .commit r c v | .advance r c v => Entered sh call.op r c ∧ Effective call r c v
  | .saving r c v next => Entered sh call.op r c ∧ Effective call r c v ∧
      Differs (sh.values r.ref) c v next ∧ sh.persistent = true
  | .confirmSaved r c v next => Entered sh call.op r c ∧ Effective call r c v ∧
      Differs (sh.values r.ref) c v next ∧ (sh.persistent = true → call.saved = .ok ())
  | .loading => ∃ d handler, call.op = .register d handler ∧ sh.state.started = true ∧
      d.id ∉ sh.state.devices ∧ sh.persistent = true
  | .savingInitial _ => ∃ d handler, call.op = .register d handler ∧ sh.state.started = true ∧
      d.id ∉ sh.state.devices ∧ sh.persistent = true
  | .insert _ => ∃ d handler, call.op = .register d handler ∧ sh.state.started = true ∧
      d.id ∉ sh.state.devices
  | .unregisterSerial r | .remove r => ∃ d, call.op = .unregister d ∧
      sh.state.started = true ∧ sh.state.devices[d]? = some r
  | .snapshotState | .snapshotValues .. => call.op = .snapshot
  | .cancelState => ∃ topic id, call.op = .cancel topic id

/-- A registration returns in the step that inserts the device. -/
theorem insert_of_ret {sh : Shared} {call : Call} {pc : Pc} {e : Effect} {reply : Reply}
    {d : Device} {handler : Bool} (hpc : PcOk sh call pc) (hop : call.op = .register d handler)
    (hm : Move sh call pc e (.ret reply)) :
    d.id ∉ sh.state.devices ∧ reply = .done ∧ ∃ values, pc = .insert values ∧
      e = .insert ⟨sh.nextRef, d, capabilityMap d.capabilities, handler⟩ values := by
  generalize hn : Next.ret reply = n at hm
  cases hm with
  | insert hop' hs hd =>
    obtain ⟨rfl, rfl⟩ := Op.register.inj (hop.symm.trans hop')
    exact ⟨hd, Next.ret.inj hn, _, rfl, rfl⟩
  | snapshotState | snapshotValues => simp [show call.op = .snapshot from hpc] at hop
  | unchanged | commit =>
    have he := hpc.1
    simp [hop, Entered] at he
  | start hop' | stop hop' | stopped hop' | remove hop' | read hop' | subscribe hop'
  | subscribeTopology hop' | cancel hop' => simp [hop] at hop'
  | _ => simp at hn

/-- An unregistration returns in the step that removes the device. -/
theorem remove_of_ret {sh : Shared} {call : Call} {pc : Pc} {e : Effect} {reply : Reply}
    {d : DeviceId} (hpc : PcOk sh call pc) (hop : call.op = .unregister d)
    (hm : Move sh call pc e (.ret reply)) :
    reply = .done ∧ ∃ r, pc = .remove r ∧ e = .remove d r := by
  generalize hn : Next.ret reply = n at hm
  cases hm with
  | remove hop' hd hr =>
    obtain rfl := Op.unregister.inj (hop.symm.trans hop')
    exact ⟨Next.ret.inj hn, _, rfl, rfl⟩
  | snapshotState | snapshotValues => simp [show call.op = .snapshot from hpc] at hop
  | unchanged | commit =>
    have he := hpc.1
    simp [hop, Entered] at he
  | start hop' | stop hop' | stopped hop' | insert hop' | read hop' | subscribe hop'
  | subscribeTopology hop' | cancel hop' => simp [hop] at hop'
  | _ => simp at hn

/-- The device table changes only where a call returns. -/
theorem lifecycle_of_goto {sh : Shared} {call : Call} {pc pc' : Pc} {e : Effect}
    (hm : Move sh call pc e (.goto pc')) : e.lifecycle = false := by
  generalize hn : Next.goto pc' = n at hm
  cases hm with
  | start | stop | insert | remove => simp at hn
  | _ => rfl

/-- Two states that a call cannot tell apart at its await point. -/
structure Agree (sh sh' : Shared) (op : Op) (pc : Pc) : Prop where
  persistent : sh'.persistent = sh.persistent
  devices : ∀ l ∈ op.lifecycle, l ∈ pc.holds op →
    sh'.state.started = sh.state.started ∧ sh'.state.devices = sh.state.devices
  values : ∀ ref, Lock.values ref ∈ pc.holds op → sh'.values ref = sh.values ref

theorem entered_congr {sh sh' : Shared} {op : Op} {r : RegisteredDevice} {c : Capability}
    (hs : sh'.state.started = sh.state.started) (hd : sh'.state.devices = sh.state.devices)
    (h : Entered sh op r c) : Entered sh' op r c := by
  have hl : ∀ d cid, lookup sh'.state d cid = lookup sh.state d cid := by
    intro d cid
    simp only [lookup, ensureStarted, hs, hd]
  cases op <;> simp_all [Entered]

theorem entered_lifecycle {sh : Shared} {op : Op} {r : RegisteredDevice} {c : Capability}
    (h : Entered sh op r c) : op.lifecycle = some .lifecycleRead := by
  cases op <;> simp_all [Entered, Op.lifecycle]

/-- What `PcOk` says depends only on what the locks of the call protect. -/
theorem pcOk_congr {sh sh' : Shared} {call : Call} {pc : Pc} (ha : Agree sh sh' call.op pc)
    (h : PcOk sh call pc) : PcOk sh' call pc := by
  cases pc with
  | lifecycle | enter | cancelState | snapshotState | snapshotValues => exact h
  | readValues r =>
    obtain ⟨d, cid, c, hop, hl, hp⟩ := h
    obtain ⟨h1, h2⟩ := ha.devices .lifecycleRead (by simp [hop, Op.lifecycle])
      (by simp [Pc.holds, hop, Op.lifecycle])
    exact ⟨d, cid, c, hop, by simpa only [lookup, ensureStarted, h1, h2] using hl, hp⟩
  | commandSerial r c | confirm r c =>
    have hop := entered_lifecycle h
    obtain ⟨h1, h2⟩ := ha.devices .lifecycleRead hop (by simp [Pc.holds, hop])
    exact entered_congr h1 h2 h
  | handling r c | commit r c v | advance r c v =>
    have hop := entered_lifecycle h.1
    obtain ⟨h1, h2⟩ := ha.devices .lifecycleRead hop (by simp [Pc.holds, hop])
    exact ⟨entered_congr h1 h2 h.1, h.2⟩
  | saving r c v next | confirmSaved r c v next =>
    have hop := entered_lifecycle h.1
    obtain ⟨h1, h2⟩ := ha.devices .lifecycleRead hop (by simp [Pc.holds, hop])
    have hv := ha.values r.ref (by simp [Pc.holds])
    refine ⟨entered_congr h1 h2 h.1, h.2.1, ?_, ?_⟩
    · rw [hv]
      exact h.2.2.1
    · rw [ha.persistent]
      exact h.2.2.2
  | loading | savingInitial values =>
    obtain ⟨d, handler, hop, hs, hd, hp⟩ := h
    obtain ⟨h1, h2⟩ := ha.devices .lifecycleWrite (by simp [hop, Op.lifecycle])
      (by simp [Pc.holds, hop, Op.lifecycle])
    exact ⟨d, handler, hop, h1 ▸ hs, h2 ▸ hd, ha.persistent ▸ hp⟩
  | insert values =>
    obtain ⟨d, handler, hop, hs, hd⟩ := h
    obtain ⟨h1, h2⟩ := ha.devices .lifecycleWrite (by simp [hop, Op.lifecycle])
      (by simp [Pc.holds, hop, Op.lifecycle])
    exact ⟨d, handler, hop, h1 ▸ hs, h2 ▸ hd⟩
  | unregisterSerial r | remove r =>
    obtain ⟨d, hop, hs, hd⟩ := h
    obtain ⟨h1, h2⟩ := ha.devices .lifecycleWrite (by simp [hop, Op.lifecycle])
      (by simp [Pc.holds, hop, Op.lifecycle])
    exact ⟨d, hop, h1 ▸ hs, h2 ▸ hd⟩

def Next.Ok (sh : Shared) (call : Call) : Next → Prop
  | .goto pc => PcOk sh call pc
  | .ret _ => True

/-- A move leaves its call at an await point where it knows what it should. -/
theorem move_pcOk {sh : Shared} {call : Call} {pc : Pc} {e : Effect} {n : Next}
    (h : Move sh call pc e n) (hpc : PcOk sh call pc) : n.Ok (e.apply sh) call := by
  cases h with
  | lifecycle => exact hpc
  | enterRegister hop hs hd hp => exact ⟨_, _, hop, hs, hd, hp⟩
  | restoreNew hop hs hd hp =>
    simp only [Next.Ok, Restored.next, hp, Bool.and_false]
    exact ⟨_, _, hop, hs, hd⟩
  | restore hop =>
    obtain ⟨d, handler, hop', hs, hd, hp⟩ := hpc
    simp only [Next.Ok, Restored.next]
    split
    · exact ⟨_, _, hop', hs, hd, hp⟩
    · exact ⟨_, _, hop', hs, hd⟩
  | saveInitial hop hs =>
    obtain ⟨d, handler, hop', hs, hd, hp⟩ := hpc
    exact ⟨_, _, hop', hs, hd⟩
  | enterUnregister hop hs hd => exact ⟨_, hop, hs, hd⟩
  | unregisterSerial => exact hpc
  | enterRead hop hl hp => exact ⟨_, _, _, hop, hl, hp⟩
  | enterCommand he => exact he
  | commandSerial => exact hpc
  | confirmCommand hop hr hh => exact ⟨hpc, hh, _, hop⟩
  | confirmPublish hop hr => exact ⟨hpc, by simp [Effective, hop]⟩
  | handle hop hh hv =>
    exact ⟨hpc.1, by simp only [Effective, hop]; exact ⟨hpc.2.1, hh, hv⟩⟩
  | save hv hp => exact ⟨hpc.1, hpc.2, ⟨hv, rfl⟩, hp⟩
  | noStore hv hp => exact ⟨hpc.1, hpc.2, ⟨hv, rfl⟩, fun h => absurd h (by simp [Effect.apply, hp])⟩
  | saved hop hs => exact ⟨hpc.1, hpc.2.1, hpc.2.2.1, fun _ => hs⟩
  | update hop hr => exact ⟨hpc.1, hpc.2.1⟩
  | snapshotState | snapshotValues =>
    unfold snapshotNext
    split
    · trivial
    · exact hpc
  | _ => trivial

/-- The reachable states. -/
structure Sys.Ok (s : Sys) : Prop where
  exclusive : s.Exclusive
  shared : SharedOk s.shared
  begun : ∀ (k : CallId) (call : Call) (pc : Pc), s.calls[k]? = some (.running call pc) →
    ∃ pc₀, begin call = .ok pc₀
  pc : ∀ (k : CallId) (call : Call) (pc : Pc), s.calls[k]? = some (.running call pc) →
    PcOk s.shared call pc

theorem excludes_lifecycle {op : Op} {l : Lock} (h : l ∈ op.lifecycle) :
    Lock.lifecycleWrite.excludes l = true := by
  cases op <;> simp [Op.lifecycle] at h <;> subst h <;> rfl

theorem lookup_of_entered {sh : Shared} {op : Op} {r : RegisteredDevice} {c : Capability}
    (h : Entered sh op r c) :
    ∃ d cid, op.target = some (d, cid) ∧ lookup sh.state d cid = .ok (r, c) := by
  cases op with
  | writeValue command => exact ⟨_, _, rfl, h.1⟩
  | publish d cid v => exact ⟨_, _, rfl, h.1⟩
  | _ => exact h.elim

theorem lookup_of_target {sh : Shared} {op : Op} {r : RegisteredDevice} {c : Capability}
    (h : Entered sh op r c) {d : DeviceId} {cid : CapabilityId} (ht : op.target = some (d, cid)) :
    sh.state.devices[d]? = some r ∧ r.capabilities[cid]? = some c := by
  obtain ⟨d', cid', ht', hl⟩ := lookup_of_entered h
  rw [ht, Option.some.injEq, Prod.mk.injEq] at ht'
  obtain ⟨-, hr, hc⟩ := lookup_ok.mp hl
  exact ⟨ht'.1 ▸ hr, ht'.2 ▸ hc⟩

theorem not_values_lifecycle (op : Op) (ref : Ref) : Lock.values ref ∉ op.lifecycle.toList := by
  cases op <;> simp [Op.lifecycle]

/-- The registration whose values a call has locked is older than the next one. -/
theorem held_values_lt {sh : Shared} (hsh : SharedOk sh) {call : Call} {pc : Pc}
    (hpc : PcOk sh call pc) {ref : Ref} (h : Lock.values ref ∈ pc.holds call.op) :
    ref < sh.nextRef := by
  have key : ∀ r c, Entered sh call.op r c → r.ref < sh.nextRef := by
    intro r c he
    obtain ⟨d, cid, -, hl⟩ := lookup_of_entered he
    exact hsh.fresh d r (lookup_ok.mp hl).2.1
  have hno := not_values_lifecycle call.op ref
  cases pc with
  | saving r c v next | confirmSaved r c v next | advance r c v =>
    simp only [Pc.holds, List.mem_append, hno, List.mem_cons, reduceCtorEq, Lock.values.injEq,
      List.not_mem_nil, or_false, false_or] at h
    exact h ▸ key r c hpc.1
  | _ => simp [Pc.holds] at h hno <;> exact absurd h hno

/-- A step of `k` that changes only what its locks protect is not seen by another call. -/
theorem agree_of_move {s : Sys} (hok : s.Ok) {j k : CallId} (hjk : j ≠ k) {call call' : Call}
    {pc pc' : Pc} {e : Effect} {n : Next} (hk : s.calls[k]? = some (.running call pc))
    (hj : s.calls[j]? = some (.running call' pc')) (hm : Move s.shared call pc e n) :
    Agree s.shared (e.apply s.shared) call'.op pc' := by
  have hex := hok.exclusive k j _ _ (Ne.symm hjk) hk hj
  refine ⟨apply_persistent _ _, ?_, ?_⟩
  · intro l hl hpc
    cases he : e.lifecycle with
    | false => exact ⟨(apply_state he).1, (apply_state he).2.1⟩
    | true =>
      have hx := hex _ (lifecycleWrite_of_move hm he) l hpc
      rw [excludes_lifecycle hl] at hx
      exact Bool.noConfusion hx
  · intro ref hl
    by_contra hne
    rcases values_of_move hm ref hne with hh | hh
    · have := hex _ hh _ hl
      simp [Lock.excludes] at this
    · exact absurd hh (Nat.ne_of_lt (held_values_lt hok.shared (hok.pc j call' pc' hj) hl))

/-! ## One step -/

theorem sharedOk_of_devices {sh sh' : Shared} (h : SharedOk sh)
    (hd : ∀ (d : DeviceId) (r : RegisteredDevice), sh'.state.devices[d]? = some r →
      sh.state.devices[d]? = some r) (hn : sh'.nextRef = sh.nextRef) : SharedOk sh' where
  key d r hr := h.key d r (hd d r hr)
  valid d r hr := h.valid d r (hd d r hr)
  capabilities d r hr := h.capabilities d r (hd d r hr)
  handler d r hr := h.handler d r (hd d r hr)
  fresh d r hr := hn ▸ h.fresh d r (hd d r hr)
  distinct d d' r r' hr hr' := h.distinct d d' r r' (hd d r hr) (hd d' r' hr')

theorem begin_register {call : Call} {d : Device} {handler : Bool} {pc : Pc}
    (hop : call.op = .register d handler) (hb : begin call = .ok pc) :
    d.validate = .ok () ∧ missingHandler d handler = none := by
  simp only [begin, hop] at hb
  split at hb
  · simp at hb
  · rename_i hv
    split at hb
    · simp at hb
    · rename_i hm
      exact ⟨hv, hm⟩

theorem sharedOk_insert {sh : Shared} (h : SharedOk sh) {d : Device} {handler : Bool}
    (values : DeviceValues) (hv : d.validate = .ok ()) (hm : missingHandler d handler = none) :
    SharedOk ((Effect.insert ⟨sh.nextRef, d, capabilityMap d.capabilities, handler⟩
      values).apply sh) := by
  have hget : ∀ (d' : DeviceId) (r : RegisteredDevice),
      ((Effect.insert ⟨sh.nextRef, d, capabilityMap d.capabilities, handler⟩
        values).apply sh).state.devices[d']? = some r →
      (d.id = d' ∧ r = ⟨sh.nextRef, d, capabilityMap d.capabilities, handler⟩) ∨
        sh.state.devices[d']? = some r := by
    intro d' r hr
    simp only [Effect.apply, dispatchTopology, getElem?_insert] at hr
    split at hr
    · rename_i hd
      exact .inl ⟨hd, (Option.some.inj hr).symm⟩
    · exact .inr hr
  refine ⟨?_, ?_, ?_, ?_, ?_, ?_⟩
  · intro d' r hr
    obtain ⟨rfl, rfl⟩ | hr := hget d' r hr
    · rfl
    · exact h.key d' r hr
  · intro d' r hr
    obtain ⟨rfl, rfl⟩ | hr := hget d' r hr
    · exact hv
    · exact h.valid d' r hr
  · intro d' r hr
    obtain ⟨rfl, rfl⟩ | hr := hget d' r hr
    · rfl
    · exact h.capabilities d' r hr
  · intro d' r hr
    obtain ⟨rfl, rfl⟩ | hr := hget d' r hr
    · exact hm
    · exact h.handler d' r hr
  · intro d' r hr
    obtain ⟨rfl, rfl⟩ | hr := hget d' r hr
    · exact Nat.lt_succ_self _
    · exact Nat.lt_succ_of_lt (h.fresh d' r hr)
  · intro d₁ d₂ r₁ r₂ h₁ h₂ href
    obtain ⟨rfl, rfl⟩ | h₁ := hget d₁ r₁ h₁ <;> obtain ⟨rfl, rfl⟩ | h₂ := hget d₂ r₂ h₂
    · rfl
    · exact absurd href.symm (Nat.ne_of_lt (h.fresh d₂ r₂ h₂))
    · exact absurd href (Nat.ne_of_lt (h.fresh d₁ r₁ h₁))
    · exact h.distinct d₁ d₂ r₁ r₂ h₁ h₂ href

theorem sharedOk_of_move {sh : Shared} (h : SharedOk sh) {call : Call} {pc pc₀ : Pc} {e : Effect}
    {n : Next} (hb : begin call = .ok pc₀) (hm : Move sh call pc e n) :
    SharedOk (e.apply sh) := by
  cases he : e.lifecycle with
  | false =>
    obtain ⟨h1, h2, h3⟩ : (e.apply sh).state.started = sh.state.started ∧
      (e.apply sh).state.devices = sh.state.devices ∧ (e.apply sh).nextRef = sh.nextRef :=
      apply_state he
    exact sharedOk_of_devices h (fun d r hr => h2 ▸ hr) h3
  | true =>
    cases hm with
    | start => exact sharedOk_of_devices h (fun d r hr => hr) rfl
    | stop => exact sharedOk_of_devices h (fun d r hr => by simp [Effect.apply] at hr) rfl
    | remove =>
      refine sharedOk_of_devices h (fun d r hr => ?_) rfl
      simp only [Effect.apply, dispatchTopology, getElem?_erase] at hr
      split at hr
      · simp at hr
      · exact hr
    | insert hop =>
      obtain ⟨hv, hm⟩ := begin_register hop hb
      exact sharedOk_insert h _ hv hm
    | _ => simp [Effect.lifecycle] at he

theorem begin_ok {call : Call} {pc : Pc} (hb : begin call = .ok pc) :
    (pc = .lifecycle ∧ call.op.lifecycle.isSome = true) ∨
      (pc = .snapshotState ∧ call.op = .snapshot) ∨
      (pc = .cancelState ∧ ∃ topic id, call.op = .cancel topic id) := by
  cases hop : call.op with
  | register d handler =>
    simp only [begin, hop] at hb
    split at hb
    · simp at hb
    · split at hb
      · simp at hb
      · exact .inl ⟨(Except.ok.inj hb).symm, rfl⟩
  | subscribe buffer | subscribeTopology buffer =>
    simp only [begin, hop] at hb
    split at hb
    · exact .inl ⟨(Except.ok.inj hb).symm, rfl⟩
    · simp at hb
  | snapshot =>
    simp only [begin, hop, Except.ok.injEq] at hb
    exact .inr (.inl ⟨hb.symm, rfl⟩)
  | cancel topic id =>
    simp only [begin, hop, Except.ok.injEq] at hb
    exact .inr (.inr ⟨hb.symm, topic, id, rfl⟩)
  | _ =>
    simp only [begin, hop, Except.ok.injEq] at hb
    exact .inl ⟨hb.symm, rfl⟩

theorem begin_pcOk {sh : Shared} {call : Call} {pc : Pc} (hb : begin call = .ok pc) :
    PcOk sh call pc := by
  obtain ⟨rfl, h⟩ | ⟨rfl, h⟩ | ⟨rfl, h⟩ := begin_ok hb <;> exact h

theorem begin_holds {call : Call} {pc : Pc} (hb : begin call = .ok pc) :
    pc.holds call.op = [] := by
  obtain ⟨rfl, h⟩ | ⟨rfl, h⟩ | ⟨rfl, h⟩ := begin_ok hb <;> rfl

/-- Replacing one thread: what the other calls know must stay true, and the new thread must be
    in order itself. -/
theorem ok_of_thread {s s' : Sys} (hok : s.Ok) {k : CallId} {t : Thread}
    (hcalls : s'.calls = s.calls.insert k t) (hsh : SharedOk s'.shared)
    (hagree : ∀ (j : CallId) (call : Call) (pc : Pc), j ≠ k →
      s.calls[j]? = some (.running call pc) → Agree s.shared s'.shared call.op pc)
    (hholds : ∀ l ∈ t.holds, (∃ u, s.calls[k]? = some u ∧ l ∈ u.holds) ∨ s.free l = true)
    (hbegun : ∀ call pc, t = .running call pc → ∃ pc₀, begin call = .ok pc₀)
    (hpc : ∀ call pc, t = .running call pc → PcOk s'.shared call pc) : s'.Ok where
  exclusive := exclusive_insert hok.exclusive hcalls hholds
  shared := hsh
  begun := by
    intro j call pc hj
    rw [hcalls, getElem?_insert] at hj
    split at hj
    · exact hbegun call pc (Option.some.inj hj)
    · exact hok.begun j call pc hj
  pc := by
    intro j call pc hj
    rw [hcalls, getElem?_insert] at hj
    split at hj
    · exact hpc call pc (Option.some.inj hj)
    · rename_i hne
      exact pcOk_congr (hagree j call pc (Ne.symm hne) hj) (hok.pc j call pc hj)

theorem agree_refl (sh : Shared) (op : Op) (pc : Pc) : Agree sh sh op pc :=
  ⟨rfl, fun _ _ _ => ⟨rfl, rfl⟩, fun _ _ => rfl⟩

/-- A change that touches neither the device table nor the values. -/
theorem ok_of_quiet {s s' : Sys} (hok : s.Ok) (hcalls : s'.calls = s.calls)
    (hs : s'.shared.state.started = s.shared.state.started)
    (hd : s'.shared.state.devices = s.shared.state.devices)
    (hv : s'.shared.values = s.shared.values) (hn : s'.shared.nextRef = s.shared.nextRef)
    (hp : s'.shared.persistent = s.shared.persistent) : s'.Ok where
  exclusive := by
    intro i j t t' hij ht ht'
    exact hok.exclusive i j t t' hij (hcalls ▸ ht) (hcalls ▸ ht')
  shared := sharedOk_of_devices hok.shared (fun d r hr => hd ▸ hr) hn
  begun k call pc hk := hok.begun k call pc (hcalls ▸ hk)
  pc k call pc hk :=
    pcOk_congr ⟨hp, fun _ _ _ => ⟨hs, hd⟩, fun _ _ => by rw [hv]⟩
      (hok.pc k call pc (hcalls ▸ hk))

theorem step_ok {s s' : Sys} {a : Action} (hok : s.Ok) (h : step s a = some s') : s'.Ok := by
  cases step_cases h with
  | reject hk hb =>
    exact ok_of_thread hok rfl hok.shared (fun _ _ _ _ _ => agree_refl _ _ _)
      (by simp [Thread.holds]) (by simp) (by simp)
  | @invoke k call pc hk hb =>
    refine ok_of_thread hok rfl hok.shared (fun _ _ _ _ _ => agree_refl _ _ _) ?_ ?_ ?_
    · simp [Thread.holds, begin_holds hb]
    · rintro _ _ ⟨⟩
      exact ⟨_, hb⟩
    · rintro _ _ ⟨⟩
      exact begin_pcOk hb
  | fail hk hr hb =>
    exact ok_of_thread hok rfl hok.shared (fun _ _ _ _ _ => agree_refl _ _ _)
      (by simp [Thread.holds]) (by simp) (by simp)
  | @move k call pc e n hk hr hm =>
    obtain ⟨pc₀, hb⟩ := hok.begun k call pc hk
    refine ok_of_thread hok rfl (sharedOk_of_move hok.shared hb hm)
      (fun j call' pc' hjk hj => agree_of_move hok hjk hk hj hm) ?_ ?_ ?_
    · intro l hl
      rcases move_holds hm l hl with h | h
      · exact .inl ⟨_, hk, h⟩
      · exact .inr (ready_free hr h)
    · intro call' pc' ht
      cases n with
      | goto pc'' =>
        obtain ⟨rfl, rfl⟩ := Thread.running.inj ht
        exact ⟨pc₀, hb⟩
      | ret reply => exact Thread.noConfusion ht
    · intro call' pc' ht
      have hpc := move_pcOk hm (hok.pc k call pc hk)
      cases n with
      | goto pc'' =>
        obtain ⟨rfl, rfl⟩ := Thread.running.inj ht
        exact hpc
      | ret reply => exact Thread.noConfusion ht
  | abandon hk =>
    exact ok_of_thread hok rfl hok.shared (fun _ _ _ _ _ => agree_refl _ _ _)
      (by simp [Thread.holds]) (by simp) (by simp)
  | @orphan i o ho =>
    refine ok_of_quiet hok rfl ?_ ?_ ?_ ?_ ?_ <;> simp only [Orphan.apply] <;> split <;> rfl
  | states hs hop => exact ok_of_quiet hok rfl rfl rfl rfl rfl rfl
  | topology hs hop => exact ok_of_quiet hok rfl rfl rfl rfl rfl rfl

theorem new_ok (persistent : Bool) (store : DeviceId → Option Record) :
    (Sys.new persistent store).Ok where
  exclusive := by
    intro i j t t' hij ht
    simp [Sys.new] at ht
  shared := by constructor <;> simp [Sys.new]
  begun := by simp [Sys.new]
  pc := by simp [Sys.new]

/-- A state that some run of a new runtime leads to. -/
def Reachable (s : Sys) : Prop :=
  ∃ persistent store as, run (Sys.new persistent store) as = some s

theorem reachable_ok {s : Sys} (h : Reachable s) : s.Ok := by
  obtain ⟨persistent, store, as, hrun⟩ := h
  exact Machine.run_inv (fun _ _ _ hok => step_ok hok) (new_ok persistent store) hrun

theorem run_ok {s s' : Sys} {as : List Action} (hok : s.Ok) (h : run s as = some s') : s'.Ok :=
  Machine.run_inv (fun _ _ _ hok => step_ok hok) hok h

/-! ## Calls and the history -/

def Thread.call : Thread → Call
  | .running call _ | .returned call _ | .abandoned call => call

/-- What a step that adds `m` to the history does to the calls. -/
structure Traced (s s' : Sys) (m : List Obs) : Prop where
  history : s'.history = s.history ++ m
  invoked : ∀ k call, .invoked k call ∈ m → k ∉ s.calls ∧
    (∃ rest, m = .invoked k call :: rest ∧ ∀ o ∈ rest, ∃ e, o = .returned k (.error e)) ∧
    ∃ u, s'.calls[k]? = some u ∧ u.call = call
  returned : ∀ k reply, .returned k (.ok reply) ∈ m → ∃ call pc e,
    s.calls[k]? = some (.running call pc) ∧ s.ready call pc = true ∧
      Move s.shared call pc e (.ret reply)
  running : ∀ (k : CallId) (call : Call) (pc : Pc), s'.calls[k]? = some (.running call pc) →
    s.calls[k]? = some (.running call pc) ∨ (k ∉ s.calls ∧ begin call = .ok pc) ∨
      ∃ pc₀ e, s.calls[k]? = some (.running call pc₀) ∧ s.ready call pc₀ = true ∧
        Move s.shared call pc₀ e (.goto pc)
  kept : ∀ (k : CallId) (u : Thread), s.calls[k]? = some u →
    ∃ u', s'.calls[k]? = some u' ∧ u'.call = u.call

theorem kept_insert {m : Std.ExtTreeMap CallId Thread} {k : CallId} {v : Thread}
    (h : ∀ u : Thread, m[k]? = some u → v.call = u.call) (j : CallId) (u : Thread)
    (hj : m[j]? = some u) : ∃ u' : Thread, (m.insert k v)[j]? = some u' ∧ u'.call = u.call := by
  rw [getElem?_insert]
  split
  · rename_i hjk
    exact ⟨v, rfl, h u (hjk ▸ hj)⟩
  · exact ⟨u, hj, rfl⟩

theorem observe_inert {sh : Shared} {e : Effect} {o : Obs} (ho : o ∈ e.observe sh) :
    (∀ k call, o ≠ .invoked k call) ∧ ∀ k r, o ≠ .returned k r := by
  cases e with
  | subscribe topic buffer => cases topic <;> simp_all [Effect.observe]
  | cancel topic id => cases topic <;> simp_all [Effect.observe]
  | commit d r c v now =>
    simp only [Effect.observe, List.mem_cons] at ho
    rcases ho with rfl | ho
    · simp
    · split at ho
      · obtain ⟨x, -, rfl⟩ := List.mem_map.mp ho
        simp
      · simp at ho
  | insert r values | remove d r =>
    simp only [Effect.observe, List.mem_cons, List.mem_map] at ho
    rcases ho with rfl | ⟨x, -, rfl⟩ <;> simp
  | stop =>
    simp only [Effect.observe, List.mem_append, List.mem_map] at ho
    rcases ho with ⟨x, -, rfl⟩ | ⟨x, -, rfl⟩ <;> simp
  | _ => simp [Effect.observe] at ho

theorem turnOf_inert {k : CallId} {op : Op} {pc : Pc} {o : Obs} (ho : o ∈ turnOf k op pc) :
    (∀ k call, o ≠ .invoked k call) ∧ ∀ k r, o ≠ .returned k r := by
  cases pc <;> simp only [turnOf, List.not_mem_nil] at ho
  rw [Option.mem_toList, Option.map_eq_some_iff] at ho
  obtain ⟨x, -, rfl⟩ := ho
  simp

theorem step_traced {s s' : Sys} {a : Action} (h : step s a = some s') : ∃ m, Traced s s' m := by
  cases step_cases h with
  | @reject k call e hk hb =>
    have hnone : s.calls[k]? = none := Std.ExtTreeMap.getElem?_eq_none hk
    refine ⟨[.invoked k call, .returned k (.error e)], rfl, ?_, by simp, ?_,
      kept_insert (by simp [hnone])⟩
    · rintro j call' hm
      simp only [List.mem_cons, Obs.invoked.injEq, reduceCtorEq, List.not_mem_nil, or_false] at hm
      obtain ⟨rfl, rfl⟩ := hm
      exact ⟨hk, ⟨_, rfl, by simp⟩, _, by rw [getElem?_insert, if_pos rfl], rfl⟩
    · intro j call' pc hj
      rw [getElem?_insert] at hj
      split at hj
      · simp at hj
      · exact .inl hj
  | @invoke k call pc hk hb =>
    have hnone : s.calls[k]? = none := Std.ExtTreeMap.getElem?_eq_none hk
    refine ⟨[.invoked k call], rfl, ?_, by simp, ?_, kept_insert (by simp [hnone])⟩
    · rintro j call' hm
      simp only [List.mem_singleton, Obs.invoked.injEq] at hm
      obtain ⟨rfl, rfl⟩ := hm
      exact ⟨hk, ⟨_, rfl, by simp⟩, _, by rw [getElem?_insert, if_pos rfl], rfl⟩
    · intro j call' pc' hj
      rw [getElem?_insert] at hj
      split at hj
      · rename_i hjk
        obtain ⟨rfl, rfl⟩ := Thread.running.inj (Option.some.inj hj)
        exact .inr (.inl ⟨hjk ▸ hk, hb⟩)
      · exact .inl hj
  | @fail k call pc e hk hr hb =>
    refine ⟨[.returned k (.error e)], rfl, by simp, by simp, ?_, kept_insert fun u hu => ?_⟩
    · intro j call' pc' hj
      rw [getElem?_insert] at hj
      split at hj
      · simp at hj
      · exact .inl hj
    · rw [hk, Option.some.injEq] at hu
      subst hu
      rfl
  | @move k call pc e n hk hr hm =>
    refine ⟨e.observe s.shared ++ n.observe k call.op pc, rfl, ?_, ?_, ?_,
      kept_insert fun u hu => ?_⟩
    · intro j call' hmem
      rcases List.mem_append.mp hmem with hmem | hmem
      · exact absurd rfl ((observe_inert hmem).1 j call')
      · cases n with
        | goto pc' => exact absurd rfl ((turnOf_inert hmem).1 j call')
        | ret reply => simp [Next.observe] at hmem
    · intro j reply hmem
      rcases List.mem_append.mp hmem with hmem | hmem
      · exact absurd rfl ((observe_inert hmem).2 j _)
      · cases n with
        | goto pc' => exact absurd rfl ((turnOf_inert hmem).2 j _)
        | ret reply' =>
          simp only [Next.observe, List.mem_singleton, Obs.returned.injEq, Except.ok.injEq] at hmem
          obtain ⟨rfl, rfl⟩ := hmem
          exact ⟨call, pc, e, hk, hr, hm⟩
    · intro j call' pc' hj
      rw [getElem?_insert] at hj
      split at hj
      · rename_i hjk
        cases n with
        | goto pc'' =>
          obtain ⟨rfl, rfl⟩ := Thread.running.inj (Option.some.inj hj)
          exact .inr (.inr ⟨pc, e, hjk ▸ hk, hr, hm⟩)
        | ret reply => exact Thread.noConfusion (Option.some.inj hj)
      · exact .inl hj
    · rw [hk, Option.some.injEq] at hu
      subst hu
      cases n <;> rfl
  | @abandon k call pc hk =>
    refine ⟨[.abandoned k], rfl, by simp, by simp, ?_, kept_insert fun u hu => ?_⟩
    · intro j call' pc' hj
      rw [getElem?_insert] at hj
      split at hj
      · simp at hj
      · exact .inl hj
    · rw [hk, Option.some.injEq] at hu
      subst hu
      rfl
  | orphan ho =>
    exact ⟨[], (List.append_nil _).symm, by simp, by simp, fun _ _ _ hj => .inl hj,
      fun _ u hu => ⟨u, hu, rfl⟩⟩
  | states hs hop =>
    exact ⟨_, rfl, by simp, by simp, fun _ _ _ hj => .inl hj, fun _ u hu => ⟨u, hu, rfl⟩⟩
  | topology hs hop =>
    exact ⟨_, rfl, by simp, by simp, fun _ _ _ hj => .inl hj, fun _ u hu => ⟨u, hu, rfl⟩⟩

/-- Where an invocation stands in the longer history. -/
theorem Traced.split {s s' : Sys} {m : List Obs} (ht : Traced s s' m) {p q : List Obs} {k : CallId}
    {call : Call} (h : s'.history = p ++ .invoked k call :: q) :
    (p = s.history ∧ k ∉ s.calls ∧ ∀ o ∈ q, ∃ e, o = .returned k (.error e)) ∨
      ∃ q', s.history = p ++ .invoked k call :: q' ∧ q = q' ++ m := by
  rw [ht.history, List.append_eq_append_iff] at h
  have hnew : ∀ l, m = l ++ .invoked k call :: q →
      l = [] ∧ k ∉ s.calls ∧ ∀ o ∈ q, ∃ e, o = .returned k (.error e) := by
    intro l hl
    obtain ⟨hk, ⟨rest, hrest, herr⟩, -⟩ := ht.invoked k call (by simp [hl])
    cases l with
    | nil =>
      rw [hl, List.nil_append, List.cons.injEq] at hrest
      exact ⟨rfl, hk, hrest.2 ▸ herr⟩
    | cons x l =>
      rw [hl, List.cons_append, List.cons.injEq] at hrest
      obtain ⟨e, he⟩ := herr (.invoked k call) (by simp [← hrest.2])
      exact Obs.noConfusion he
  rcases h with ⟨l, rfl, hl⟩ | ⟨l, hl, hm⟩
  · obtain ⟨rfl, h⟩ := hnew l hl
    exact .inl ⟨List.append_nil _, h⟩
  · cases l with
    | nil =>
      obtain ⟨-, h⟩ := hnew [] hm.symm
      exact .inl ⟨by rw [hl, List.append_nil], h⟩
    | cons x l =>
      rw [List.cons_append, List.cons.injEq] at hm
      exact .inr ⟨l, by rw [hl, hm.1], hm.2⟩

end Oikade.Core
