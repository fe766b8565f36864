/-
  The devices that a snapshot lists, against the device table and the topology events.

  A snapshot copies the device table under the state lock and returns later; a device may be
  unregistered meanwhile, or every device by a stop. `Sys.Keeps` is what a subscriber of the
  topology can rely on: a listed device is still registered, or the topology has changed above the
  revision of the snapshot, or the subscription has ended. `received_step` says that only `recv`
  takes an event out of a subscription.
-/
import Oikade.Core.Snapshot

namespace Oikade.Core

open Broadcast (Entry receivedBy Ended)

/-! ## What a step delivers -/

theorem mem_log_topology {h : List Obs} {e : Entry TopologyEvent RuntimeError} :
    e ∈ topologyView.log h ↔ .topology e ∈ h := by
  rw [View.log, List.mem_filterMap]
  constructor
  · rintro ⟨o, ho, he⟩
    cases o with
    | topology e' => exact Option.some.inj he ▸ ho
    | _ => simp [topologyView] at he
  · exact fun he => ⟨_, he, rfl⟩

/-- An event taken out of a subscription. -/
def Obs.delivery? : Obs → Option (Topic × Nat)
  | .states (.received id _) => some (.states, id)
  | .topology (.received id _) => some (.topology, id)
  | _ => none

theorem observe_delivery {sh : Shared} {e : Effect} {o : Obs} (ho : o ∈ e.observe sh) :
    o.delivery? = none := by
  cases e with
  | subscribe topic buffer => cases topic <;> simp_all [Effect.observe, Obs.delivery?]
  | cancel topic id => cases topic <;> simp_all [Effect.observe, Obs.delivery?]
  | commit d r c v now =>
    simp only [Effect.observe, List.mem_cons] at ho
    rcases ho with rfl | ho
    · rfl
    · split at ho
      · obtain ⟨x, hx, rfl⟩ := List.mem_map.mp ho
        simp only [Broadcast.dispatchLog, List.mem_cons, List.mem_map] at hx
        obtain rfl | ⟨j, -, rfl⟩ := hx <;> rfl
      · simp at ho
  | insert r values | remove d r =>
    simp only [Effect.observe, List.mem_cons, List.mem_map, Broadcast.dispatchLog] at ho
    obtain rfl | ⟨x, rfl | ⟨j, -, rfl⟩, rfl⟩ := ho <;> rfl
  | stop =>
    simp only [Effect.observe, List.mem_append, List.mem_map, Broadcast.closeAllLog] at ho
    obtain ⟨x, ⟨j, -, rfl⟩, rfl⟩ | ⟨x, ⟨j, -, rfl⟩, rfl⟩ := ho <;> rfl
  | _ => simp [Effect.observe] at ho

theorem receiver_delivery {α : Type} {h h' : Broadcast.Hub α RuntimeError}
    {log : List (Entry α RuntimeError)} {op : Broadcast.Op α RuntimeError}
    (hs : Broadcast.step h op = some (h', log))
    (hop : (∃ id, op = .recv id) ∨ (∃ id, op = .drop id) ∨ ∃ id, op = .remove id) :
    ∀ id x, .received id x ∈ log → op = .recv id := by
  intro id x hx
  obtain ⟨j, rfl⟩ | ⟨j, rfl⟩ | ⟨j, rfl⟩ := hop
  · simp only [Broadcast.step, Option.ite_none_left_eq_some] at hs
    obtain ⟨-, hs⟩ := hs
    split at hs
    · simp only [Option.some.injEq, Prod.mk.injEq] at hs
      obtain ⟨-, rfl⟩ := hs
      rw [List.mem_singleton, Entry.received.injEq] at hx
      rw [hx.1]
    · simp only [Option.ite_none_left_eq_some, Option.some.injEq, Prod.mk.injEq] at hs
      obtain ⟨-, -, rfl⟩ := hs
      simp at hx
  · simp only [Broadcast.step, Option.ite_none_left_eq_some, Option.some.injEq,
      Prod.mk.injEq] at hs
    obtain ⟨-, -, rfl⟩ := hs
    simp at hx
  · simp only [Broadcast.step, Option.ite_none_right_eq_some, Option.some.injEq,
      Prod.mk.injEq] at hs
    obtain ⟨-, -, rfl⟩ := hs
    simp at hx

/-- Only `recv` takes an event out of a subscription. -/
theorem step_delivery {s s' : Sys} {a : Action} (h : step s a = some s') :
    ∃ m, s'.history = s.history ++ m ∧
      ∀ o ∈ m, ∀ topic id, o.delivery? = some (topic, id) → a = .recv topic id := by
  cases step_cases h with
  | reject hk hb => exact ⟨_, rfl, by simp [Obs.delivery?]⟩
  | invoke hk hb => exact ⟨_, rfl, by simp [Obs.delivery?]⟩
  | fail hk hr hb => exact ⟨_, rfl, by simp [Obs.delivery?]⟩
  | abandon hk => exact ⟨_, rfl, by simp [Obs.delivery?]⟩
  | orphan ho => exact ⟨[], (List.append_nil _).symm, by simp⟩
  | @move k call pc e n hk hr hm =>
    refine ⟨_, rfl, fun o ho topic id hd => ?_⟩
    have hnone : o.delivery? = none := by
      rcases List.mem_append.mp ho with ho | ho
      · exact observe_delivery ho
      · cases n with
        | goto pc' =>
          obtain ⟨h1, h2⟩ := turnOf_inert ho
          cases pc <;> simp only [Next.observe, turnOf, List.not_mem_nil] at ho
          rw [Option.mem_toList, Option.map_eq_some_iff] at ho
          obtain ⟨x, -, rfl⟩ := ho
          rfl
        | ret reply =>
          rw [List.mem_singleton.mp ho]
          rfl
    simp [hnone] at hd
  | states hs hop =>
    refine ⟨_, rfl, fun o ho topic id hd => ?_⟩
    obtain ⟨x, hx, rfl⟩ := List.mem_map.mp ho
    cases x with
    | received j y =>
      obtain ⟨rfl, rfl⟩ : Topic.states = topic ∧ j = id := by simpa [Obs.delivery?] using hd
      have := receiver_delivery hs (by grind) j y hx
      grind
    | _ => simp [Obs.delivery?] at hd
  | topology hs hop =>
    refine ⟨_, rfl, fun o ho topic id hd => ?_⟩
    obtain ⟨x, hx, rfl⟩ := List.mem_map.mp ho
    cases x with
    | received j y =>
      obtain ⟨rfl, rfl⟩ : Topic.topology = topic ∧ j = id := by simpa [Obs.delivery?] using hd
      have := receiver_delivery hs (by grind) j y hx
      grind
    | _ => simp [Obs.delivery?] at hd

/-- What a subscriber has received stays as it is while others step. -/
theorem received_step {s s' : Sys} {a : Action} (h : step s a = some s') :
    (∀ id, a ≠ .recv .states id →
      receivedBy id (statesView.log s'.history) = receivedBy id (statesView.log s.history)) ∧
    ∀ id, a ≠ .recv .topology id →
      receivedBy id (topologyView.log s'.history) = receivedBy id (topologyView.log s.history) := by
  obtain ⟨m, hm, hd⟩ := step_delivery h
  refine ⟨fun id ha => ?_, fun id ha => ?_⟩
  · have hnil : receivedBy id (statesView.log m) = [] :=
      List.eq_nil_iff_forall_not_mem.mpr fun x hx =>
        ha (hd _ (mem_log_states.mp (Broadcast.mem_receivedBy.mp hx)) .states id rfl)
    rw [hm, View.log_append, Broadcast.receivedBy_append, hnil, List.append_nil]
  · have hnil : receivedBy id (topologyView.log m) = [] :=
      List.eq_nil_iff_forall_not_mem.mpr fun x hx =>
        ha (hd _ (mem_log_topology.mp (Broadcast.mem_receivedBy.mp hx)) .topology id rfl)
    rw [hm, View.log_append, Broadcast.receivedBy_append, hnil, List.append_nil]

/-! ## Listed devices -/

/-- What a subscriber `id` of the topology can rely on for a device listed at revision `n`. -/
def Sys.Keeps (s : Sys) (n id : Nat) (device : Device) : Prop :=
  (∃ r, s.shared.state.devices[device.id]? = some r ∧ r.definition = device) ∨
    (∃ c ∈ changes s.history, n < c.revision ∧ (topologyView.sent c).isSome = true) ∨
    Ended id (topologyView.log s.history)

/-- A stop ends every subscription that had not ended. -/
theorem ended_of_stop {s : Sys} (hs : s.StreamsOk) {id : Nat}
    (hid : .subscribed id ∈ topologyView.log s.history) (m : List Obs) :
    Ended id (topologyView.log (s.history ++ (Effect.stop.observe s.shared ++ m))) := by
  rw [View.log_append, View.log_append]
  by_cases hl : id ∈ s.shared.state.topologySubscriptions.live
  · have hlog : topologyView.log (Effect.stop.observe s.shared) =
        Broadcast.closeAllLog s.shared.state.topologySubscriptions .stopped := by
      simp [Effect.observe]
    have hmem : .terminated id .stopped ∈ topologyView.log (Effect.stop.observe s.shared) := by
      rw [hlog]
      exact List.mem_map.mpr ⟨id, hl, rfl⟩
    obtain ⟨l, l', hll⟩ := List.append_of_mem hmem
    refine .inr (.inr ?_)
    rw [hll]
    simp
  · exact Broadcast.ended_append ((hs.topology.hub.channel id hid).ended (.inl hl)) _

theorem keeps_step {s s' : Sys} {a : Action} (hs : s.StreamsOk) (h : step s a = some s')
    {n id : Nat} (hn : n ≤ s.shared.state.revision)
    (hid : .subscribed id ∈ topologyView.log s.history) {device : Device}
    (hk : s.Keeps n id device) : s'.Keeps n id device := by
  obtain ⟨m, hm, -⟩ := step_delivery h
  rcases hk with ⟨r, hr, hdef⟩ | ⟨c, hc, hlt, hsent⟩ | hend
  · cases step_cases h with
    | orphan ho =>
      refine .inl ⟨r, ?_, hdef⟩
      simp only [Orphan.apply]
      split <;> exact hr
    | @move k call pc e n' hk' hready hmove =>
      cases hl : e.lifecycle with
      | false => exact .inl ⟨r, by rw [(apply_state hl).2.1]; exact hr, hdef⟩
      | true =>
        cases hmove with
        | start => exact .inl ⟨r, hr, hdef⟩
        | stop => exact .inr (.inr (ended_of_stop hs hid _))
        | @insert d handler values hop hstarted hd =>
          refine .inl ⟨r, ?_, hdef⟩
          simp only [Effect.apply, dispatchTopology, getElem?_insert]
          split
          · rename_i he
            rw [he, Std.ExtTreeMap.mem_iff_isSome_getElem?, hr] at hd
            exact absurd rfl hd
          · exact hr
        | @remove d r' r'' hop hd href =>
          by_cases he : d = device.id
          · refine .inr (.inl ⟨.unregistered (s.shared.state.revision + 1) r', ?_,
              Nat.lt_succ_of_le hn, rfl⟩)
            simp [Effect.observe]
          · refine .inl ⟨r, ?_, hdef⟩
            simp only [Effect.apply, dispatchTopology, getElem?_erase]
            rw [if_neg he]
            exact hr
        | _ => simp [Effect.lifecycle] at hl
    | _ => exact .inl ⟨r, hr, hdef⟩
  · refine .inr (.inl ⟨c, ?_, hlt, hsent⟩)
    rw [hm, changes_append]
    exact List.mem_append_left _ hc
  · refine .inr (.inr ?_)
    rw [hm, View.log_append]
    exact Broadcast.ended_append hend _

/-- The devices that a snapshot has read or has still to read, for a subscriber `id`. -/
structure Sys.Lists (s : Sys) (id : Nat) (snapshot : Snapshot) (rest : List RegisteredDevice) :
    Prop where
  distinct : ((snapshot.devices.map (·.device) ++ rest.map (·.definition)).map Device.id).Nodup
  kept : ∀ device ∈ snapshot.devices.map (·.device) ++ rest.map (·.definition),
    s.Keeps snapshot.revision id device

theorem lists_step {s s' : Sys} {a : Action} (hs : s.StreamsOk) (h : step s a = some s')
    {id : Nat} (hid : .subscribed id ∈ topologyView.log s.history) {snapshot : Snapshot}
    {rest : List RegisteredDevice} (hn : snapshot.revision ≤ s.shared.state.revision)
    (hl : s.Lists id snapshot rest) : s'.Lists id snapshot rest :=
  ⟨hl.distinct, fun device hd => keeps_step hs h hn hid (hl.kept device hd)⟩

/-- The state section of a snapshot lists the device table. -/
theorem lists_start {s : Sys} (hok : s.Ok) (id : Nat) (started : Bool) (subscriptions : Nat) :
    s.Lists id ⟨started, s.shared.state.revision, [], subscriptions⟩
      (s.shared.state.devices.toList.map Prod.snd) := by
  have hkey : ∀ p ∈ s.shared.state.devices.toList, p.2.definition.id = p.1 := fun p hp =>
    hok.shared.key p.1 p.2 (Std.ExtTreeMap.mem_toList_iff_getElem?_eq_some.mp hp)
  refine ⟨?_, fun device hd => ?_⟩
  · have hids : (s.shared.state.devices.toList.map Prod.snd).map (fun r => r.definition.id) =
        s.shared.state.devices.toList.map Prod.fst := by
      rw [List.map_map]
      exact List.map_congr_left hkey
    simp only [List.map_nil, List.nil_append]
    rw [List.map_map]
    exact hids ▸ (List.pairwise_map.mpr
      (Std.ExtTreeMap.distinct_keys_toList.imp fun hne he => hne (by simp [he])))
  · simp only [List.map_nil, List.nil_append, List.map_map, List.mem_map] at hd
    obtain ⟨p, hp, rfl⟩ := hd
    exact .inl ⟨p.2, by
      rw [show ((fun r : RegisteredDevice => r.definition) ∘ Prod.snd) p = p.2.definition from rfl,
        hkey p hp]
      exact Std.ExtTreeMap.mem_toList_iff_getElem?_eq_some.mp hp, rfl⟩

/-- Reading the values of the next device lists the same devices. -/
theorem Sys.Lists.read {s : Sys} {id : Nat} {snapshot : Snapshot} {r : RegisteredDevice}
    {todo : List RegisteredDevice} (h : s.Lists id snapshot (r :: todo)) (values : Record) :
    s.Lists id { snapshot with devices := snapshot.devices ++ [⟨r.definition, values⟩] } todo := by
  have heq : (snapshot.devices ++ [(⟨r.definition, values⟩ : DeviceState)]).map (·.device) ++
      todo.map (·.definition) =
      snapshot.devices.map (·.device) ++ (r :: todo).map (·.definition) := by simp
  exact ⟨by rw [heq]; exact h.distinct, fun device hd => h.kept device (heq ▸ hd)⟩

/-! ## A snapshot in progress -/

/-- Call `k` is a snapshot in progress, made by the subscriber `id` of the topology. -/
inductive Sys.Snapshotting (s : Sys) (k : CallId) (id : Nat) : Prop where
  | state (hk : s.calls[k]? = some (.running { op := .snapshot } .snapshotState))
  | values {snapshot : Snapshot} {r : RegisteredDevice} {todo : List RegisteredDevice}
    (hk : s.calls[k]? = some (.running { op := .snapshot } (.snapshotValues snapshot r todo)))
    (hl : s.Lists id snapshot (r :: todo))

/-- Call `k` has just returned a snapshot. -/
def Sys.SnapshotReturned (s s' : Sys) (k : CallId) (id : Nat) : Prop :=
  ∃ snapshot, s'.calls[k]? = some (.returned { op := .snapshot } (.ok (.snapshot snapshot))) ∧
    s'.history = s.history ++ [.returned k (.ok (.snapshot snapshot))] ∧ s'.Lists id snapshot []

theorem snapshotting_next {s s' : Sys} {k : CallId} {id : Nat} {pc : Pc} {snapshot : Snapshot}
    {rest : List RegisteredDevice} (hshared : s'.shared = s.shared)
    (hcalls : s'.calls =
      s.calls.insert k ((snapshotNext snapshot rest).thread { op := .snapshot }))
    (hhist : s'.history = s.history ++ (snapshotNext snapshot rest).observe k .snapshot pc)
    (hl : s.Lists id snapshot rest) :
    s'.Snapshotting k id ∨ Sys.SnapshotReturned s s' k id := by
  have hlists : s'.Lists id snapshot rest := by
    refine ⟨hl.distinct, fun device hd => ?_⟩
    obtain h | ⟨c, hc, h⟩ | h := hl.kept device hd
    · exact .inl (by rw [hshared]; exact h)
    · exact .inr (.inl ⟨c, by rw [hhist, changes_append]; exact List.mem_append_left _ hc, h⟩)
    · exact .inr (.inr (by rw [hhist, View.log_append]; exact Broadcast.ended_append h _))
  cases rest with
  | nil =>
    refine .inr ⟨snapshot, ?_, hhist, hlists⟩
    rw [hcalls, getElem?_insert, if_pos rfl]
    rfl
  | cons r todo =>
    refine .inl (.values ?_ hlists)
    rw [hcalls, getElem?_insert, if_pos rfl]
    rfl

/-- A step of the snapshot itself. -/
theorem snapshotting_advance {s s' : Sys} {k : CallId} {id : Nat} (hok : s.Ok)
    (hk : s.Snapshotting k id) (h : step s (.advance k) = some s') :
    s'.Snapshotting k id ∨ Sys.SnapshotReturned s s' k id := by
  have hcase : ∀ call pc, s.calls[k]? = some (.running call pc) → call = { op := .snapshot } ∧
      (pc = .snapshotState ∨ ∃ snapshot r todo, pc = .snapshotValues snapshot r todo ∧
        s.Lists id snapshot (r :: todo)) := by
    intro call pc hrun
    cases hk with
    | state hk =>
      obtain ⟨rfl, rfl⟩ := running_inj hk hrun
      exact ⟨rfl, .inl rfl⟩
    | values hk hl =>
      obtain ⟨rfl, rfl⟩ := running_inj hk hrun
      exact ⟨rfl, .inr ⟨_, _, _, rfl, hl⟩⟩
  cases step_cases h with
  | fail hrun hr hb =>
    obtain ⟨rfl, rfl | ⟨snapshot, r, todo, rfl, -⟩⟩ := hcase _ _ hrun <;> simp [body] at hb
  | move hrun hr hm =>
    obtain ⟨rfl, rfl | ⟨snapshot, r, todo, rfl, hl⟩⟩ := hcase _ _ hrun
    · cases hm with
      | snapshotState => exact snapshotting_next rfl rfl rfl (lists_start hok id _ _)
    · cases hm with
      | snapshotValues => exact snapshotting_next rfl rfl rfl (hl.read _)
  | states hs hop => simp at hop
  | topology hs hop => simp at hop

/-- A call stands still while others step. -/
theorem call_step {s s' : Sys} {a : Action} {k : CallId} {u : Thread} (h : step s a = some s')
    (ha : a ≠ .advance k) (hb : a ≠ .abandon k) (hu : s.calls[k]? = some u) :
    s'.calls[k]? = some u := by
  have hne : ∀ j, j ∉ s.calls → k ≠ j := by
    rintro j hj rfl
    simp [Std.ExtTreeMap.getElem?_eq_none hj] at hu
  cases step_cases h with
  | reject hj hb' => exact (insert_of_ne rfl (hne _ hj)).trans hu
  | invoke hj hb' => exact (insert_of_ne rfl (hne _ hj)).trans hu
  | fail hj hr hb' => exact (insert_of_ne rfl fun e => ha (by rw [e])).trans hu
  | move hj hr hm => exact (insert_of_ne rfl fun e => ha (by rw [e])).trans hu
  | abandon hj => exact (insert_of_ne rfl fun e => hb (by rw [e])).trans hu
  | _ => exact hu

theorem snapshotting_step {s s' : Sys} {a : Action} {k : CallId} {id : Nat} (hw : s.Whole)
    (hid : .subscribed id ∈ topologyView.log s.history) (hk : s.Snapshotting k id)
    (h : step s a = some s') (ha : a ≠ .advance k) (hb : a ≠ .abandon k) :
    s'.Snapshotting k id := by
  cases hk with
  | state hk => exact .state (call_step h ha hb hk)
  | values hk hl =>
    refine .values (call_step h ha hb hk) (lists_step hw.streams h hid ?_ hl)
    obtain ⟨⟨done, hd⟩, -⟩ := hw.snapshot.running k _ _ _ _ hk
    exact hd.revision

/-! ## A subscription -/

theorem subscription_of_move {sh : Shared} {call : Call} {pc : Pc} {e : Effect} {id : Nat}
    (hm : Move sh call pc e (.ret (.subscription id))) :
    (∀ buffer, call.op = .subscribe buffer → .subscribed id ∈ statesView.log (e.observe sh)) ∧
      ∀ buffer, call.op = .subscribeTopology buffer →
        .subscribed id ∈ topologyView.log (e.observe sh) := by
  generalize hn : Next.ret (.subscription id) = n at hm
  cases hm with
  | subscribe hop hs =>
    obtain rfl := Reply.subscription.inj (Next.ret.inj hn)
    exact ⟨fun _ _ => by simp [Effect.observe, mem_log_states],
      fun buffer hb => by simp [hop] at hb⟩
  | subscribeTopology hop hs =>
    obtain rfl := Reply.subscription.inj (Next.ret.inj hn)
    exact ⟨fun buffer hb => by simp [hop] at hb,
      fun _ _ => by simp [Effect.observe, mem_log_topology]⟩
  | unchanged | commit =>
    have := Next.ret.inj hn
    unfold Op.committed at this
    split at this <;> exact Reply.noConfusion this
  | snapshotState | snapshotValues =>
    unfold snapshotNext at hn
    split at hn
    · exact Reply.noConfusion (Next.ret.inj hn)
    · exact Next.noConfusion hn
  | _ => simp at hn

/-- A step of a call that subscribes. -/
theorem subscription_of_returned {s s' : Sys} {k : CallId} {call call' : Call} {pc : Pc} {id : Nat}
    (hk : s.calls[k]? = some (.running call pc)) (h : step s (.advance k) = some s')
    (hr : s'.calls[k]? = some (.returned call' (.ok (.subscription id)))) :
    (∀ buffer, call.op = .subscribe buffer → .subscribed id ∈ statesView.log s'.history) ∧
      ∀ buffer, call.op = .subscribeTopology buffer →
        .subscribed id ∈ topologyView.log s'.history := by
  cases step_cases h with
  | fail hk' hready hb =>
    rw [getElem?_insert, if_pos rfl, Option.some.injEq] at hr
    cases hr
  | @move k' call₀ pc₀ e n hk' hready hm =>
    obtain ⟨rfl, rfl⟩ := running_inj hk hk'
    rw [getElem?_insert, if_pos rfl, Option.some.injEq] at hr
    cases n with
    | goto pc' => simp [Next.thread] at hr
    | ret reply =>
      simp only [Next.thread, Thread.returned.injEq, Except.ok.injEq] at hr
      obtain ⟨-, rfl⟩ := hr
      obtain ⟨h1, h2⟩ := subscription_of_move hm
      refine ⟨fun buffer hb => ?_, fun buffer hb => ?_⟩
      · simp only [View.log_append, List.mem_append]
        exact .inr (.inl (h1 buffer hb))
      · simp only [View.log_append, List.mem_append]
        exact .inr (.inl (h2 buffer hb))
  | states hs hop => simp at hop
  | topology hs hop => simp at hop

/-- A call after a step of its own. -/
theorem advance_call {s s' : Sys} {k : CallId} (h : step s (.advance k) = some s') :
    ∃ call pc, s.calls[k]? = some (.running call pc) ∧
      ((∃ pc', s'.calls[k]? = some (.running call pc')) ∨
        ∃ o, s'.calls[k]? = some (.returned call o)) := by
  cases step_cases h with
  | @fail k call pc e hk hr hb =>
    exact ⟨call, pc, hk, .inr ⟨.error e, by rw [getElem?_insert, if_pos rfl]⟩⟩
  | @move k call pc e n hk hr hm =>
    refine ⟨call, pc, hk, ?_⟩
    rw [getElem?_insert, if_pos rfl]
    cases n with
    | goto pc' => exact .inl ⟨pc', rfl⟩
    | ret reply => exact .inr ⟨.ok reply, rfl⟩
  | states hs hop => simp at hop
  | topology hs hop => simp at hop

/-! ## A delivery -/

/-- What a subscriber takes is the head of its queue. -/
theorem recv_step {s s' : Sys} {id : Nat} :
    (step s (.recv .states id) = some s' →
      receivedBy id (statesView.log s'.history) = receivedBy id (statesView.log s.history) ++
        (s.shared.state.subscriptions.chan id).queue.take 1) ∧
    (step s (.recv .topology id) = some s' →
      receivedBy id (topologyView.log s'.history) = receivedBy id (topologyView.log s.history) ++
        (s.shared.state.topologySubscriptions.chan id).queue.take 1) := by
  have htake : ∀ {α : Type} {h h' : Broadcast.Hub α RuntimeError}
      {log : List (Entry α RuntimeError)}, Broadcast.step h (.recv id) = some (h', log) →
      receivedBy id log = (h.chan id).queue.take 1 := by
    intro α h h' log hs
    simp only [Broadcast.step, Option.ite_none_left_eq_some] at hs
    obtain ⟨-, hs⟩ := hs
    split at hs
    · rename_i x rest hq
      simp only [Option.some.injEq, Prod.mk.injEq] at hs
      obtain ⟨-, rfl⟩ := hs
      simp [hq]
    · rename_i hq
      simp only [Option.ite_none_left_eq_some, Option.some.injEq, Prod.mk.injEq] at hs
      obtain ⟨-, -, rfl⟩ := hs
      simp [hq]
  constructor
  · intro h
    simp only [step, Sys.subscriber, Option.map_eq_some_iff, Prod.exists] at h
    obtain ⟨hub, log, hs, rfl⟩ := h
    rw [View.log_append, log_states, Broadcast.receivedBy_append, htake hs]
  · intro h
    simp only [step, Sys.subscriber, Option.map_eq_some_iff, Prod.exists] at h
    obtain ⟨hub, log, hs, rfl⟩ := h
    rw [View.log_append, log_topology, Broadcast.receivedBy_append, htake hs]

end Oikade.Core
