/-
  The adapter of a worker as a replica of the core.

  `World.Idle` is a state in which nothing is left to do: no call of the core is in progress, the
  monitor is between two iterations, its queues are empty and the session has not failed.
  `World.Agrees` says that the replica then has the devices of the core and, for the accepted
  capabilities that are observable, the committed values. A subscription that overflowed is closed
  and its queue drained before the monitor sees the end of it, and in between the replica is behind
  (`not_agrees_overflow`); while both subscriptions are open it agrees (`agrees_of_open`).

  The invariant: `Based` is what the last snapshot of the worker is worth, against the ledger and
  the device table of the core; `Synced` ties the replica to that snapshot and to the events
  received since.
-/
import Oikade.Core.Restore
import Oikade.Core.Topology
import Oikade.Adapter.Worker

namespace Oikade.Adapter

open Oikade.Core (CallId Topic statesView topologyView changes applyEvents)
open Broadcast (receivedBy Ended)

/-! ## What is to be shown -/

/-- Nothing is left to do. -/
structure World.Idle (w : World) : Prop where
  calls : ∀ (k : CallId) (call : Core.Call) (pc : Core.Pc),
    w.core.calls[k]? ≠ some (.running call pc)
  states : ∀ i, w.states = some i → (w.core.shared.state.subscriptions.chan i).queue = []
  topology : ∀ j, w.topology = some j →
    (w.core.shared.state.topologySubscriptions.chan j).queue = []
  monitor : w.stage = .monitor
  session : w.failed = false

/-- Neither subscription of the worker was closed, by an overflow or a stop. -/
structure World.Open (w : World) : Prop where
  states : ∀ i, w.states = some i → ¬ Ended i (statesView.log w.core.history)
  topology : ∀ j, w.topology = some j → ¬ Ended j (topologyView.log w.core.history)

/-- The replica has the devices of the core, and the committed value of every accepted capability
    that is observable. -/
structure World.Agrees (w : World) : Prop where
  devices : ∀ device, device ∈ w.replica.devices ↔
    ∃ (d : Core.DeviceId) (r : Core.RegisteredDevice),
      w.core.shared.state.devices[d]? = some r ∧ device = deviceToApi r.definition
  values : ∀ device capability, w.run.known.has device capability = true →
    ∃ (d : Core.DeviceId) (r : Core.RegisteredDevice) (c : Core.Capability),
      w.core.shared.state.devices[d]? = some r ∧ d.asStr = device ∧
      r.capabilities[c.id]? = some c ∧ c.id.asStr = capability ∧
      (c.permissions.observe = true → ∃ v, (w.core.shared.values r.ref).current[c.id]? = some v ∧
        w.replica.value device capability = some (valueToApi v))

/-- No call of the core is dropped between the change of the values and its revision. -/
def World.whole (w : World) : Action → Prop
  | .core a => Core.whole w.core a
  | _ => True

/-! ## The request of a snapshot -/

section Request

variable {snapshot : Core.Snapshot} {generation : Nat} {request : SyncRequest}

theorem syncRequest_devices (h : syncRequest snapshot generation = .ok request) :
    request.devices.map (·.device) = snapshot.devices.map fun state => deviceToApi state.device := by
  obtain ⟨-, devices, hm, rfl⟩ := syncRequest_ok.mp h
  exact Fallible.mapM_map (fun _ _ hw => deviceState_device hw) hm

theorem syncRequest_distinct (h : syncRequest snapshot generation = .ok request)
    (hnd : (snapshot.devices.map fun state => state.device.id).Nodup) :
    (request.devices.map fun state => state.device.id).Nodup := by
  obtain ⟨-, devices, hm, rfl⟩ := syncRequest_ok.mp h
  have hids : devices.map (fun state => state.device.id) =
      snapshot.devices.map fun state => state.device.id.asStr :=
    Fallible.mapM_map (fun _ _ hw => by rw [deviceState_device hw]; rfl) hm
  have hmap : (snapshot.devices.map fun state => state.device.id.asStr) =
      (snapshot.devices.map fun state => state.device.id).map Core.Identifier.asStr := by simp
  show (devices.map fun state => state.device.id).Nodup
  rw [hids, hmap]
  exact hnd.map fun _ _ he => Core.Identifier.ext' he

/-- The value that the request has for a capability. -/
theorem syncRequest_value (h : syncRequest snapshot generation = .ok request)
    (hnd : (snapshot.devices.map fun state => state.device.id).Nodup) {state : Core.DeviceState}
    (hs : state ∈ snapshot.devices) {c : Core.Capability} (hc : c ∈ state.device.capabilities) :
    ∃ v, state.values[c.id]? = some v ∧
      request.value state.device.id.asStr c.id.asStr = some (valueToApi v) := by
  have hdist := syncRequest_distinct h hnd
  obtain ⟨-, devices, hm, rfl⟩ := syncRequest_ok.mp h
  obtain ⟨w, hw, hsw⟩ := Fallible.mapM_mem_left hm hs
  obtain ⟨v, hv, ⟨entry, hentry, hid⟩, hall⟩ := deviceState_entries hsw hc
  have hwid : w.device.id = state.device.id.asStr := by rw [deviceState_device hsw]; rfl
  refine ⟨v, hv, ?_⟩
  have hfind : (devices.find? fun x => x.device.id = state.device.id.asStr).map id = some w :=
    find_map ⟨w, hw, by simpa using hwid⟩ fun x hx hp =>
      List.inj_on_of_nodup_map hdist hx hw ((of_decide_eq_true hp).trans hwid.symm)
  rw [Option.map_id] at hfind
  rw [SyncRequest.value]
  simp only [show (devices.find? fun x => x.device.id = state.device.id.asStr) = some w from hfind,
    Option.bind_some]
  exact find_map ⟨entry, hentry, by simpa using hid⟩
    fun x hx hp => hall x hx (of_decide_eq_true hp)

/-- What an adapter may accept. -/
theorem syncRequest_keys (h : syncRequest snapshot generation = .ok request)
    (hnd : (snapshot.devices.map fun state => state.device.id).Nodup) {device capability : String}
    (hk : (projectionKeys request.devices).has device capability = true) :
    ∃ state ∈ snapshot.devices, state.device.id.asStr = device ∧
      ∃ c ∈ state.device.capabilities, c.id.asStr = capability := by
  obtain ⟨w, hw, hid, c, hc, hcid⟩ := (projectionKeys_has (syncRequest_distinct h hnd)).mp hk
  obtain ⟨-, devices, hm, rfl⟩ := syncRequest_ok.mp h
  obtain ⟨state, hs, hsw⟩ := Fallible.mapM_mem_right hm hw
  have hdev := deviceState_device hsw
  rw [hdev] at hid hc
  obtain ⟨c', hc', rfl⟩ := List.mem_map.mp hc
  exact ⟨state, hs, hid, c', hc', hcid⟩

theorem acceptedProjectionKeys_has {projections : Option (List Projection)}
    {available keys : ProjectionKeys}
    (h : acceptedProjectionKeys projections available = .ok keys) {device capability : String}
    (hk : keys.has device capability = true) : available.has device capability = true := by
  cases projections with
  | none =>
    cases Except.ok.inj h
    exact hk
  | some ps =>
    have hall := (acceptedProjectionKeys_ok.mp ⟨keys, h⟩).1
    rcases (acceptProjections_has h device capability).mp hk with hk | hk
    · simp [ProjectionKeys.has] at hk
    · exact hall _ hk

end Request

/-! ## The snapshot a run is based on -/

/-- The worker with the subscriptions `i` and `j` took `snapshot` after it had subscribed. -/
structure Based (s : Core.Sys) (i j : Nat) (snapshot : Core.Snapshot) : Prop where
  taken : ∃ p k call q, s.history = p ++ .invoked k call :: q ∧
    .subscribed i ∈ statesView.log p ∧ .subscribed j ∈ topologyView.log p ∧
    Core.Seen p snapshot.revision
  snapped : ∃ done, Core.Snapped s snapshot done []
  lists : s.Lists j snapshot []

theorem Based.distinct {s : Core.Sys} {i j : Nat} {snapshot : Core.Snapshot}
    (h : Based s i j snapshot) : (snapshot.devices.map fun state => state.device.id).Nodup := by
  have := h.lists.distinct
  rwa [List.map_nil, List.append_nil, List.map_map] at this

theorem Based.subscribed {s : Core.Sys} {i j : Nat} {snapshot : Core.Snapshot}
    (h : Based s i j snapshot) : .subscribed i ∈ statesView.log s.history ∧
      .subscribed j ∈ topologyView.log s.history := by
  obtain ⟨p, k, call, q, hp, hi, hj, -⟩ := h.taken
  rw [hp, Core.View.log_append, Core.View.log_append]
  exact ⟨List.mem_append_left _ hi, List.mem_append_left _ hj⟩

theorem based_step {s s' : Core.Sys} {a : Core.Action} {i j : Nat} {snapshot : Core.Snapshot}
    (hw : s.Whole) (hwa : Core.whole s a) (h : Core.step s a = some s')
    (hb : Based s i j snapshot) : Based s' i j snapshot := by
  obtain ⟨done, hd⟩ := hb.snapped
  refine ⟨?_, ⟨done, Core.snapped_grows hw.ledger (Core.grows_of_ledger (Core.ledger_step hwa h)) hd⟩,
    Core.lists_step hw.streams h hb.subscribed.2 hd.revision hb.lists⟩
  obtain ⟨p, k, call, q, hp, hi, hj, hseen⟩ := hb.taken
  obtain ⟨m, hm, -⟩ := Core.step_delivery h
  exact ⟨p, k, call, q ++ m, by rw [hm, hp]; simp, hi, hj, hseen⟩

/-- Every change of the topology is one the worker has seen. -/
theorem Based.topology_le {s : Core.Sys} {i j : Nat} {snapshot : Core.Snapshot} (hw : s.Whole)
    (hb : Based s i j snapshot) (hopen : ¬ Ended j (topologyView.log s.history))
    (hqueue : (s.shared.state.topologySubscriptions.chan j).queue = [])
    (hle : ∀ x ∈ receivedBy j (topologyView.log s.history), x.revision ≤ snapshot.revision) :
    ∀ c ∈ changes s.history, (topologyView.sent c).isSome = true →
      c.revision ≤ snapshot.revision := by
  intro c hc hsent
  obtain ⟨x, hx⟩ := Option.isSome_iff_exists.mp hsent
  obtain ⟨p, k, call, q, hp, -, hj, hseen⟩ := hb.taken
  have hall := (Core.delivered_of_streams hw.streams.topology hw.streams.revisions
    hb.subscribed.2).whole hopen
  rw [show (topologyView.hub s.shared.state).chan j =
    s.shared.state.topologySubscriptions.chan j from rfl, hqueue, List.append_nil] at hall
  rw [hp, Core.changes_append, List.mem_append] at hc
  rcases hc with hc | hc
  · exact hseen.1 c hc
  · have hmem : x ∈ receivedBy j (topologyView.log s.history) := by
      rw [hall, hp, Core.View.since_append_of_mem _ hj, Core.View.announced_append]
      exact List.mem_append_right _ (List.mem_filterMap.mpr ⟨c, hc, hx⟩)
    rw [← topologyView.revision_sent c x hx]
    exact hle x hmem

/-! ## The replica of a run -/

/-- The replica when the request that is under way is handled. -/
def World.settled (w : World) : Replica :=
  match w.exchange with
  | .sent request => w.replica.apply request
  | _ => w.replica

/-- The replica has the devices of the snapshot and, where a capability is accepted, the values of
    the snapshot with the events received since. -/
structure Synced (w : World) (i j : Nat) (snapshot : Core.Snapshot) : Prop where
  based : Based w.core i j snapshot
  revision : w.run.snapshotRevision = snapshot.revision
  known : ∀ device capability, w.run.known.has device capability = true →
    ∃ state ∈ snapshot.devices, state.device.id.asStr = device ∧
      ∃ c ∈ state.device.capabilities, c.id.asStr = capability
  topology : ∀ x ∈ receivedBy j (topologyView.log w.core.history), x.revision ≤ snapshot.revision
  devices : w.settled.devices = snapshot.devices.map fun state => deviceToApi state.device
  values : ∀ state ∈ snapshot.devices, ∀ c ∈ state.device.capabilities,
    w.run.known.has state.device.id.asStr c.id.asStr = true →
    ∃ v, (applyEvents snapshot.revision state.device.id state.values
        (receivedBy i (statesView.log w.core.history)))[c.id]? = some v ∧
      w.settled.value state.device.id.asStr c.id.asStr = some (valueToApi v)

/-- An idle worker whose subscriptions are open has a replica that agrees. -/
theorem agrees_of_synced {w : World} {i j : Nat} {snapshot : Core.Snapshot} (hw : w.core.Whole)
    (h : Synced w i j snapshot) (hi : w.states = some i) (hj : w.topology = some j)
    (hex : w.exchange = .idle) (hidle : w.Idle) (hopen : w.Open) : w.Agrees := by
  have hreplica : w.settled = w.replica := by rw [World.settled, hex]
  have htop := h.based.topology_le hw (hopen.topology j hj) (hidle.topology j hj) h.topology
  have hsettled : ∀ ref, w.core.Settled ref := fun ref k call pc hk => absurd hk (hidle.calls k call pc)
  -- every listed device is still registered
  have hkept : ∀ state ∈ snapshot.devices, ∃ r, w.core.shared.state.devices[state.device.id]? =
      some r ∧ r.definition = state.device := by
    intro state hs
    rcases h.based.lists.kept state.device (by simpa using ⟨state, hs, rfl⟩) with
      hr | ⟨c, hc, hlt, hsent⟩ | he
    · exact hr
    · exact absurd (htop c hc hsent) (Nat.not_le_of_lt hlt)
    · exact absurd he (hopen.topology j hj)
  -- every registered device is listed, with values that the events complete
  obtain ⟨done, hd⟩ := h.based.snapped
  obtain ⟨p, k, call, q, hp, hip, -, hseen⟩ := h.based.taken
  have hcomplete := Core.completedBy_of_snapped hw hd hp hseen (Core.mem_log_states.mp hip)
    (hopen.states i hi) (hidle.states i hi)
  have hlisted : ∀ (d : Core.DeviceId) (r : Core.RegisteredDevice),
      w.core.shared.state.devices[d]? = some r → ∃ state ∈ snapshot.devices,
      state.device = r.definition ∧ ∀ c : Core.Capability, r.capabilities[c.id]? = some c →
        c.permissions.observe = true → (applyEvents snapshot.revision d state.values
          (receivedBy i (statesView.log w.core.history)))[c.id]? =
          (w.core.shared.values r.ref).current[c.id]? := by
    intro d r hr
    obtain ⟨-, n, current, hreg⟩ := hw.ledger.table d r hr
    exact hcomplete d r n current hr hreg (htop _ hreg rfl) (hsettled r.ref)
  refine ⟨fun device => ?_, fun device capability hknown => ?_⟩
  · rw [← hreplica, h.devices, List.mem_map]
    constructor
    · rintro ⟨state, hs, rfl⟩
      obtain ⟨r, hr, hdef⟩ := hkept state hs
      exact ⟨_, r, hr, by rw [hdef]⟩
    · rintro ⟨d, r, hr, rfl⟩
      obtain ⟨state, hs, hdef, -⟩ := hlisted d r hr
      exact ⟨state, hs, by rw [hdef]⟩
  · obtain ⟨state, hs, rfl, c, hc, rfl⟩ := h.known device capability hknown
    obtain ⟨r, hr, hdef⟩ := hkept state hs
    have hcaps : r.capabilities[c.id]? = some c := by
      rw [hw.ok.shared.capabilities _ r hr]
      exact Core.capabilityMap_of_mem (Core.Device.validate_ok (hw.ok.shared.valid _ r hr)).2
        (by rw [hdef]; exact hc)
    refine ⟨_, r, c, hr, rfl, hcaps, rfl, fun hobs => ?_⟩
    obtain ⟨state', hs', hdef', hval⟩ := hlisted _ r hr
    obtain rfl : state' = state := List.inj_on_of_nodup_map h.based.distinct hs' hs
      (by rw [hdef', hdef])
    obtain ⟨v, hv, hsettledv⟩ := h.values state' hs' c hc hknown
    exact ⟨v, by rw [← hval c hcaps hobs]; exact hv, by rw [← hreplica]; exact hsettledv⟩

/-! ## The invariant of the worker -/

/-- The worker's snapshot `k` is in progress: it started after the subscriptions, and nothing was
    received since. -/
structure Calling (s : Core.Sys) (i j : Nat) (k : CallId) : Prop where
  running : s.Snapshotting k j
  since : ∃ p q, s.history = p ++ .invoked k { op := .snapshot } :: q ∧
    .subscribed i ∈ statesView.log p ∧ .subscribed j ∈ topologyView.log p ∧
    (∀ x ∈ receivedBy i (statesView.log s.history), ∃ c ∈ changes p, x.revision = c.revision) ∧
    ∀ x ∈ receivedBy j (topologyView.log s.history), ∃ c ∈ changes p, x.revision = c.revision

/-- The worker has asked the adapter to take over a snapshot that covers all it has received. -/
structure Requested (w : World) (i j : Nat) (request : SyncRequest) (snapshot : Core.Snapshot) :
    Prop where
  made : ∃ generation, syncRequest snapshot generation = .ok request
  based : Based w.core i j snapshot
  states : ∀ x ∈ receivedBy i (statesView.log w.core.history), x.revision ≤ snapshot.revision
  topology : ∀ x ∈ receivedBy j (topologyView.log w.core.history), x.revision ≤ snapshot.revision
  settled : w.settled = ⟨request.devices.map (·.device), request.value⟩

/-- The worker has both subscriptions. -/
def World.Holds (w : World) (P : Nat → Nat → Prop) : Prop :=
  ∃ i j, w.states = some i ∧ w.topology = some j ∧ P i j

/-- What holds at a stage. -/
def World.At (w : World) : Stage → Prop
  | .during .subscribe k =>
    ∃ call pc, w.core.calls[k]? = some (.running call pc) ∧ call.op = .subscribe w.eventBuffer
  | .before .subscribeTopology => ∃ i, w.states = some i
  | .during .subscribeTopology k => (∃ i, w.states = some i) ∧
    ∃ call pc, w.core.calls[k]? = some (.running call pc) ∧
      call.op = .subscribeTopology w.eventBuffer
  | .before (.snapshot ..) => w.Holds fun _ _ => True
  | .during (.snapshot ..) k => w.Holds fun i j => Calling w.core i j k
  | .requesting (.sync _ request) => w.Holds fun i j => ∃ snapshot, Requested w i j request snapshot
  | .requesting (.health _) | .requesting .event => w.Holds fun i j => ∃ snapshot, Synced w i j snapshot
  | .monitor => (w.Holds fun i j => ∃ snapshot, Synced w i j snapshot) ∧ w.exchange = .idle
  | _ => True

structure World.Ok (w : World) : Prop where
  core : w.core.Whole
  states : ∀ i, w.states = some i → .subscribed i ∈ statesView.log w.core.history
  topology : ∀ j, w.topology = some j → .subscribed j ∈ topologyView.log w.core.history
  stage : w.At w.stage

theorem new_ok (persistent : Bool) (store : Core.DeviceId → Option Core.Record)
    (eventBuffer : Nat) : (World.new persistent store eventBuffer).Ok :=
  ⟨Core.new_whole persistent store, by simp [World.new], by simp [World.new], trivial⟩

/-! ## Steps of others -/

section CoreStep

variable {w : World} {a : Core.Action} {s' : Core.Sys} {i j : Nat}

theorem calling_step {s : Core.Sys} {k : CallId} (hw : s.Whole) (h : Core.step s a = some s')
    (hc : Calling s i j k) (hi : a ≠ .recv .states i) (hj : a ≠ .recv .topology j)
    (ha : a ≠ .advance k) (hb : a ≠ .abandon k) : Calling s' i j k := by
  obtain ⟨p, q, hp, hip, hjp, hri, hrj⟩ := hc.since
  obtain ⟨m, hm, -⟩ := Core.step_delivery h
  obtain ⟨h1, h2⟩ := Core.received_step h
  have hsub : .subscribed j ∈ topologyView.log s.history := by
    rw [hp, Core.View.log_append]
    exact List.mem_append_left _ hjp
  refine ⟨Core.snapshotting_step hw hsub hc.running h ha hb, p, q ++ m, ?_, hip, hjp, ?_, ?_⟩
  · rw [hm, hp]
    simp
  · rw [h1 i hi]
    exact hri
  · rw [h2 j hj]
    exact hrj

theorem requested_step {request : SyncRequest} {snapshot : Core.Snapshot} (hw : w.core.Whole)
    (hwa : Core.whole w.core a) (h : Core.step w.core a = some s')
    (hr : Requested w i j request snapshot) (hi : a ≠ .recv .states i)
    (hj : a ≠ .recv .topology j) : Requested { w with core := s' } i j request snapshot := by
  obtain ⟨h1, h2⟩ := Core.received_step h
  exact ⟨hr.made, based_step hw hwa h hr.based, by rw [h1 i hi]; exact hr.states,
    by rw [h2 j hj]; exact hr.topology, hr.settled⟩

theorem synced_step {snapshot : Core.Snapshot} (hw : w.core.Whole) (hwa : Core.whole w.core a)
    (h : Core.step w.core a = some s') (hs : Synced w i j snapshot) (hi : a ≠ .recv .states i)
    (hj : a ≠ .recv .topology j) : Synced { w with core := s' } i j snapshot := by
  obtain ⟨h1, h2⟩ := Core.received_step h
  exact ⟨based_step hw hwa h hs.based, hs.revision, hs.known, by rw [h2 j hj]; exact hs.topology,
    hs.devices, by rw [h1 i hi]; exact hs.values⟩

theorem at_step (hw : w.core.Whole) (hwa : Core.whole w.core a) (h : Core.step w.core a = some s')
    (hi : ∀ i, w.states = some i → a ≠ .recv .states i)
    (hj : ∀ j, w.topology = some j → a ≠ .recv .topology j) {stage : Stage}
    (hcall : ∀ k, stage.call? = some k → a ≠ .advance k ∧ a ≠ .abandon k) (hat : w.At stage) :
    World.At { w with core := s' } stage := by
  cases stage with
  | before purpose => cases purpose <;> exact hat
  | during purpose k =>
    obtain ⟨ha, hb⟩ := hcall k rfl
    cases purpose with
    | subscribe =>
      obtain ⟨call, pc, hk, hop⟩ := hat
      exact ⟨call, pc, Core.call_step h ha hb hk, hop⟩
    | subscribeTopology =>
      obtain ⟨hsub, call, pc, hk, hop⟩ := hat
      exact ⟨hsub, call, pc, Core.call_step h ha hb hk, hop⟩
    | snapshot caller generation =>
      obtain ⟨i, j, hsi, hsj, hc⟩ := hat
      exact ⟨i, j, hsi, hsj, calling_step hw h hc (hi i hsi) (hj j hsj) ha hb⟩
    | _ => trivial
  | requesting waiting =>
    cases waiting with
    | sync caller request =>
      obtain ⟨i, j, hsi, hsj, snapshot, hr⟩ := hat
      exact ⟨i, j, hsi, hsj, snapshot, requested_step hw hwa h hr (hi i hsi) (hj j hsj)⟩
    | event | health caller =>
      obtain ⟨i, j, hsi, hsj, snapshot, hs⟩ := hat
      exact ⟨i, j, hsi, hsj, snapshot, synced_step hw hwa h hs (hi i hsi) (hj j hsj)⟩
  | monitor =>
    obtain ⟨⟨i, j, hsi, hsj, snapshot, hs⟩, hex⟩ := hat
    exact ⟨⟨i, j, hsi, hsj, snapshot, synced_step hw hwa h hs (hi i hsi) (hj j hsj)⟩, hex⟩
  | _ => trivial

theorem log_step (hok : w.Ok) (h : Core.step w.core a = some s') :
    (∀ i, w.states = some i → .subscribed i ∈ statesView.log s'.history) ∧
      ∀ j, w.topology = some j → .subscribed j ∈ topologyView.log s'.history := by
  obtain ⟨m, hm, -⟩ := Core.step_delivery h
  rw [hm, Core.View.log_append, Core.View.log_append]
  exact ⟨fun i hi => List.mem_append_left _ (hok.states i hi),
    fun j hj => List.mem_append_left _ (hok.topology j hj)⟩

/-- A step of the core that leaves alone what is the worker's. -/
theorem ok_core (hok : w.Ok) (hwa : Core.whole w.core a) (h : Core.step w.core a = some s')
    (hown : w.owns a = false) : World.Ok { w with core := s' } := by
  obtain ⟨h1, h2⟩ := log_step hok h
  refine ⟨Core.step_whole hok.core hwa h, h1, h2,
    at_step hok.core hwa h ?_ ?_ (fun k hk => ?_) hok.stage⟩
  · rintro i hi rfl
    simp [World.owns, World.subscription, hi] at hown
  · rintro j hj rfl
    simp [World.owns, World.subscription, hj] at hown
  · constructor <;> rintro rfl <;> simp [World.owns, hk] at hown

end CoreStep

/-! ## The worker's calls of the core -/

section OwnCall

variable {w : World} {purpose : Purpose} {k : CallId} {s' : Core.Sys}

/-- A snapshot that has returned, as the base of a run. -/
theorem based_of_returned {s : Core.Sys} {i j : Nat} (hw' : s'.Whole) (hc : Calling s i j k)
    {snapshot : Core.Snapshot}
    (hhist : s'.history = s.history ++ [.returned k (.ok (.snapshot snapshot))])
    (hl : s'.Lists j snapshot []) : Based s' i j snapshot ∧
      (∀ x ∈ receivedBy i (statesView.log s'.history), x.revision ≤ snapshot.revision) ∧
      ∀ x ∈ receivedBy j (topologyView.log s'.history), x.revision ≤ snapshot.revision := by
  obtain ⟨p, q, hp, hip, hjp, hri, hrj⟩ := hc.since
  have hp' : s'.history = p ++ .invoked k { op := .snapshot } ::
      (q ++ [.returned k (.ok (.snapshot snapshot))]) := by rw [hhist, hp]; simp
  obtain ⟨hsnapped, hseen⟩ := hw'.snapshot.snapshots p k _ _ snapshot hp' (by simp)
  have hlog1 : statesView.log s'.history = statesView.log s.history := by
    rw [hhist, Core.View.log_append]
    exact List.append_nil _
  have hlog2 : topologyView.log s'.history = topologyView.log s.history := by
    rw [hhist, Core.View.log_append]
    exact List.append_nil _
  refine ⟨⟨⟨p, k, _, _, hp', hip, hjp, hseen⟩, hsnapped, hl⟩, fun x hx => ?_, fun x hx => ?_⟩
  · obtain ⟨c, hc, hrev⟩ := hri x (hlog1 ▸ hx)
    rw [hrev]
    exact hseen.1 c hc
  · obtain ⟨c, hc, hrev⟩ := hrj x (hlog2 ▸ hx)
    rw [hrev]
    exact hseen.1 c hc

/-- The worker makes a call. -/
theorem ok_call (hok : w.Ok) (hstage : w.stage = .before purpose) {op : Core.Op}
    (hop : w.op purpose = some op) (h : Core.step w.core (.invoke k { op }) = some s') :
    (w.after purpose k s').Ok := by
  have hwa : Core.whole w.core (.invoke k { op }) := by rintro _ _ _ ⟨⟩
  have hw' := Core.step_whole hok.core hwa h
  obtain ⟨h1, h2⟩ := log_step hok h
  have hst := hok.stage
  rw [hstage] at hst
  cases Core.step_cases h with
  | reject hk hb =>
    rw [World.after]
    simp only [Core.getElem?_insert, if_true]
    cases purpose <;> exact ⟨hw', h1, h2, trivial⟩
  | @invoke _ _ pc hk hb =>
    rw [World.after]
    simp only [Core.getElem?_insert, if_true]
    refine ⟨hw', h1, h2, ?_⟩
    cases purpose with
    | subscribe =>
      cases hop
      exact ⟨{ op := .subscribe w.eventBuffer }, pc, by simp, rfl⟩
    | subscribeTopology =>
      cases hop
      exact ⟨hst, { op := .subscribeTopology w.eventBuffer }, pc, by simp, rfl⟩
    | snapshot caller generation =>
      cases hop
      obtain ⟨i, j, hi, hj, -⟩ := hst
      cases Except.ok.inj hb
      refine ⟨i, j, hi, hj, .state (by simp), w.core.history, [], rfl,
        hok.states i hi, hok.topology j hj, ?_, ?_⟩
      · rw [(Core.received_step h).1 i (by simp)]
        exact fun x hx => Core.change_of_received hok.core.streams.states hx
      · rw [(Core.received_step h).2 j (by simp)]
        exact fun x hx => Core.change_of_received hok.core.streams.topology hx
    | cancelStates | cancelTopology => trivial
  | states hs hop => simp at hop
  | topology hs hop => simp at hop

/-- A step of the worker's call. -/
theorem ok_advance (hok : w.Ok) (hstage : w.stage = .during purpose k)
    (h : Core.step w.core (.advance k) = some s') : (w.after purpose k s').Ok := by
  have hwa : Core.whole w.core (.advance k) := by rintro _ _ _ ⟨⟩
  have hw' := Core.step_whole hok.core hwa h
  obtain ⟨h1, h2⟩ := log_step hok h
  have hst := hok.stage
  rw [hstage] at hst
  obtain ⟨call, pc, hk, hafter⟩ := Core.advance_call h
  rcases hafter with ⟨pc', hk'⟩ | ⟨o, hk'⟩
  · have haft : w.after purpose k s' = { w with core := s', stage := .during purpose k } := by
      rw [World.after, hk']
    rw [haft]
    refine ⟨hw', h1, h2, ?_⟩
    cases purpose with
    | subscribe =>
      obtain ⟨call', pc₀, hk₀, hop⟩ := hst
      rw [hk, Option.some.injEq] at hk₀
      obtain ⟨rfl, rfl⟩ := Core.Thread.running.inj hk₀
      exact ⟨call, pc', hk', hop⟩
    | subscribeTopology =>
      obtain ⟨hsub, call', pc₀, hk₀, hop⟩ := hst
      rw [hk, Option.some.injEq] at hk₀
      obtain ⟨rfl, rfl⟩ := Core.Thread.running.inj hk₀
      exact ⟨hsub, call, pc', hk', hop⟩
    | snapshot caller generation =>
      obtain ⟨i, j, hi, hj, hc⟩ := hst
      obtain ⟨p, q, hp, hip, hjp, hri, hrj⟩ := hc.since
      obtain ⟨m, hm, -⟩ := Core.step_delivery h
      refine ⟨i, j, hi, hj, ?_, p, q ++ m, by rw [hm, hp]; simp, hip, hjp, ?_, ?_⟩
      · rcases Core.snapshotting_advance hok.core.ok hc.running h with hs | ⟨_, hret, -⟩
        · exact hs
        · rw [hk'] at hret
          simp at hret
      · rw [(Core.received_step h).1 i (by simp)]
        exact hri
      · rw [(Core.received_step h).2 j (by simp)]
        exact hrj
    | cancelStates | cancelTopology => trivial
  · have haft : w.after purpose k s' = World.resume { w with core := s' } purpose o := by
      rw [World.after, hk']
    rw [haft]
    cases purpose with
    | subscribe =>
      obtain ⟨call', pc₀, hk₀, hop⟩ := hst
      rw [hk, Option.some.injEq] at hk₀
      obtain ⟨rfl, rfl⟩ := Core.Thread.running.inj hk₀
      rcases o with e | (_ | _ | id | _) <;> try exact ⟨hw', h1, h2, trivial⟩
      refine ⟨hw', ?_, h2, ⟨id, rfl⟩⟩
      rintro i ⟨⟩
      exact (Core.subscription_of_returned hk h hk').1 _ hop
    | subscribeTopology =>
      obtain ⟨⟨i, hi⟩, call', pc₀, hk₀, hop⟩ := hst
      rw [hk, Option.some.injEq] at hk₀
      obtain ⟨rfl, rfl⟩ := Core.Thread.running.inj hk₀
      rcases o with e | (_ | _ | id | _) <;> try exact ⟨hw', h1, h2, trivial⟩
      refine ⟨hw', h1, ?_, ⟨i, id, hi, rfl, trivial⟩⟩
      rintro j ⟨⟩
      exact (Core.subscription_of_returned hk h hk').2 _ hop
    | snapshot caller generation =>
      obtain ⟨i, j, hi, hj, hc⟩ := hst
      rcases Core.snapshotting_advance hok.core.ok hc.running h with hs | ⟨snapshot, hret, hhist, hl⟩
      · cases hs with
        | state hs | values hs => simp [hk'] at hs
      · rw [hk', Option.some.injEq] at hret
        obtain ⟨-, rfl⟩ := Core.Thread.returned.inj hret
        obtain ⟨hb, hle, hle'⟩ := based_of_returned hw' hc hhist hl
        simp only [World.resume]
        split
        · rename_i request hreq
          exact ⟨hw', h1, h2, i, j, hi, hj, snapshot, ⟨generation, hreq⟩, hb, hle, hle', rfl⟩
        · cases caller <;> exact ⟨hw', h1, h2, trivial⟩
    | cancelStates | cancelTopology => exact ⟨hw', h1, h2, trivial⟩

end OwnCall

/-! ## The monitor -/

section Monitor

variable {w : World} {i j : Nat} {snapshot : Core.Snapshot}

theorem applyEvents_snoc (n : Nat) (d : Core.DeviceId) (record : Core.Record)
    (events : List Core.Event) (event : Core.Event) :
    applyEvents n d record (events ++ [event]) =
      if event.deviceId = d ∧ n < event.revision then
        (applyEvents n d record events).insert event.capabilityId event.value
      else applyEvents n d record events := by
  simp [applyEvents]

theorem applyEvents_seen {n : Nat} {d : Core.DeviceId} {record : Core.Record}
    {events : List Core.Event} (h : ∀ event ∈ events, event.revision ≤ n) :
    applyEvents n d record events = record := by
  induction events with
  | nil => rfl
  | cons event events ih =>
    rw [List.forall_mem_cons] at h
    rw [applyEvents, List.foldl_cons, if_neg fun hlt => Nat.not_le_of_lt hlt.2 h.1]
    exact ih h.2

/-- A worker that differs in nothing the replica depends on. -/
theorem Synced.congr {w' : World} (h : Synced w i j snapshot) (hcore : w'.core = w.core)
    (hrev : w'.run.snapshotRevision = w.run.snapshotRevision) (hknown : w'.run.known = w.run.known)
    (hsettled : w'.settled = w.settled) : Synced w' i j snapshot := by
  refine ⟨?_, ?_, ?_, ?_, ?_, ?_⟩
  · rw [hcore]
    exact h.based
  · rw [hrev]
    exact h.revision
  · rw [hknown]
    exact h.known
  · rw [hcore]
    exact h.topology
  · rw [hsettled]
    exact h.devices
  · rw [hknown, hcore, hsettled]
    exact h.values

/-- The adapter has taken over the snapshot and its answer is accepted. -/
theorem synced_of_requested {request : SyncRequest} (h : Requested w i j request snapshot)
    {w' : World} (hcore : w'.core = w.core) (hsettled : w'.settled = w.settled)
    (hrev : w'.run.snapshotRevision = request.revision)
    (hknown : ∀ device capability, w'.run.known.has device capability = true →
      (projectionKeys request.devices).has device capability = true) :
    Synced w' i j snapshot := by
  obtain ⟨generation, hreq⟩ := h.made
  have hdist := h.based.distinct
  refine ⟨by rw [hcore]; exact h.based, ?_, fun device capability hk =>
    syncRequest_keys hreq hdist (hknown device capability hk), by rw [hcore]; exact h.topology, ?_, ?_⟩
  · obtain ⟨-, devices, -, rfl⟩ := syncRequest_ok.mp hreq
    exact hrev
  · rw [hsettled, h.settled]
    exact syncRequest_devices hreq
  · intro state hs c hc _
    obtain ⟨v, hv, hval⟩ := syncRequest_value hreq hdist hs hc
    refine ⟨v, ?_, ?_⟩
    · rw [hcore, applyEvents_seen h.states]
      exact hv
    · rw [hsettled, h.settled]
      exact hval

/-- One value of the replica, before and after the next event. -/
theorem value_event {n : Nat} {record : Core.Record} {events : List Core.Event}
    {event : Core.Event} {d : Core.DeviceId} {c : Core.CapabilityId} {v : Core.Value}
    {old new : Option Value} (hv : (applyEvents n d record events)[c]? = some v)
    (hold : old = some (valueToApi v))
    (hnew : new = if n < event.revision ∧ event.deviceId = d ∧ event.capabilityId = c then
      some (valueToApi event.value) else old) :
    ∃ v', (applyEvents n d record (events ++ [event]))[c]? = some v' ∧
      new = some (valueToApi v') := by
  rw [applyEvents_snoc]
  by_cases hd : event.deviceId = d ∧ n < event.revision
  · rw [if_pos hd, Core.getElem?_insert]
    by_cases hc : event.capabilityId = c
    · rw [if_pos hc]
      exact ⟨event.value, rfl, by rw [hnew, if_pos ⟨hd.2, hd.1, hc⟩]⟩
    · rw [if_neg hc]
      exact ⟨v, hv, by rw [hnew, if_neg fun h => hc h.2.2, hold]⟩
  · rw [if_neg hd]
    exact ⟨v, hv, by rw [hnew, if_neg fun h => hd ⟨h.2.1, h.1⟩, hold]⟩

variable {s' : Core.Sys}

/-- `monitor` with the next state event. -/
theorem at_stateEvent (hok : w.Ok) (hi : w.states = some i) (hj : w.topology = some j)
    (hsync : Synced w i j snapshot) (hex : w.exchange = .idle) (hstage : w.stage = .monitor)
    (h : Core.step w.core (.recv .states i) = some s') {event : Core.Event}
    (hrec : receivedBy i (statesView.log s'.history) =
      receivedBy i (statesView.log w.core.history) ++ [event]) :
    World.At (World.stateEvent { w with core := s' } event)
      (World.stateEvent { w with core := s' } event).stage := by
  have hwa : Core.whole w.core (.recv .states i) := by rintro _ _ _ ⟨⟩
  have hsettled : ∀ w' : World, w'.exchange = w.exchange → w'.replica = w.replica →
      w'.settled = w.replica := fun w' he hr => by rw [World.settled, he, hex, hr]
  -- what is left to show when the worker stays synced: the values
  have hstay : ∀ w' : World, w'.core = s' → w'.run = w.run →
      w'.settled.devices = w.replica.devices →
      (∀ state ∈ snapshot.devices, ∀ c ∈ state.device.capabilities,
        w.run.known.has state.device.id.asStr c.id.asStr = true →
        w'.settled.value state.device.id.asStr c.id.asStr =
          if snapshot.revision < event.revision ∧ event.deviceId = state.device.id ∧
            event.capabilityId = c.id then some (valueToApi event.value)
          else w.replica.value state.device.id.asStr c.id.asStr) →
      Synced w' i j snapshot := by
    intro w' hcore hrun hdev hval
    refine ⟨by rw [hcore]; exact based_step hok.core hwa h hsync.based,
      by rw [hrun]; exact hsync.revision,
      by rw [hrun]; exact hsync.known, ?_, ?_, ?_⟩
    · rw [hcore, (Core.received_step h).2 j (by simp)]
      exact hsync.topology
    · rw [hdev, ← hsettled w rfl rfl]
      exact hsync.devices
    · intro state hs c hc hk
      rw [hrun] at hk
      obtain ⟨v, hv, hold⟩ := hsync.values state hs c hc hk
      rw [hsettled w rfl rfl] at hold
      rw [hcore, hrec]
      exact value_event hv hold (hval state hs c hc hk)
  unfold World.stateEvent
  dsimp only
  split
  · rename_i hle
    rw [hsync.revision] at hle
    show World.At _ w.stage
    rw [hstage]
    refine ⟨⟨i, j, hi, hj, snapshot, hstay _ rfl rfl
      (congrArg Replica.devices (hsettled _ rfl rfl)) ?_⟩, hex⟩
    intro state hs c hc hk
    rw [if_neg fun hlt => Nat.not_le_of_lt hlt.1 hle]
    exact congrArg (Replica.value · _ _) (hsettled _ rfl rfl)
  · rename_i hgt
    rw [hsync.revision] at hgt
    split
    · exact ⟨i, j, hi, hj, trivial⟩
    · split
      · refine ⟨i, j, hi, hj, snapshot, hstay _ rfl rfl rfl ?_⟩
        intro state hs c hc hk
        show (if state.device.id.asStr = event.deviceId.asStr ∧
          c.id.asStr = event.capabilityId.asStr then some (valueToApi event.value)
          else w.replica.value state.device.id.asStr c.id.asStr) = _
        refine if_congr ?_ rfl rfl
        constructor
        · rintro ⟨h1, h2⟩
          exact ⟨Nat.lt_of_not_le hgt, (Core.Identifier.ext' h1).symm, (Core.Identifier.ext' h2).symm⟩
        · rintro ⟨-, h1, h2⟩
          rw [h1, h2]
          exact ⟨rfl, rfl⟩
      · rename_i hunknown
        show World.At _ w.stage
        rw [hstage]
        refine ⟨⟨i, j, hi, hj, snapshot, hstay _ rfl rfl
          (congrArg Replica.devices (hsettled _ rfl rfl)) ?_⟩, hex⟩
        intro state hs c hc hk
        rw [if_neg]
        · exact congrArg (Replica.value · _ _) (hsettled _ rfl rfl)
        · rintro ⟨-, h1, h2⟩
          rw [contains, h1, h2] at hunknown
          exact hunknown hk

/-- `monitor` with the next topology event. -/
theorem at_topologyEvent (hok : w.Ok) (hi : w.states = some i) (hj : w.topology = some j)
    (hsync : Synced w i j snapshot) (hex : w.exchange = .idle) (hstage : w.stage = .monitor)
    (h : Core.step w.core (.recv .topology j) = some s') {event : Core.TopologyEvent}
    (hrec : receivedBy j (topologyView.log s'.history) =
      receivedBy j (topologyView.log w.core.history) ++ [event]) :
    World.At (World.topologyEvent { w with core := s' } event)
      (World.topologyEvent { w with core := s' } event).stage := by
  have hwa : Core.whole w.core (.recv .topology j) := by rintro _ _ _ ⟨⟩
  unfold World.topologyEvent
  dsimp only
  split
  · exact ⟨i, j, hi, hj, trivial⟩
  · rename_i hle
    rw [hsync.revision] at hle
    show World.At _ w.stage
    rw [hstage]
    refine ⟨⟨i, j, hi, hj, snapshot, based_step hok.core hwa h hsync.based, hsync.revision,
      hsync.known, ?_, hsync.devices, ?_⟩, hex⟩
    · intro x hx
      rw [hrec, List.mem_append, List.mem_singleton] at hx
      rcases hx with hx | rfl
      · exact hsync.topology x hx
      · omega
    · show ∀ state ∈ snapshot.devices, ∀ c ∈ state.device.capabilities, _ → _
      rw [(Core.received_step h).1 i (by simp)]
      exact hsync.values

end Monitor

/-! ## Every step -/

/-- A change of the worker that is none of the core, the subscriptions, the run or the replica. -/
theorem at_congr {w w' : World} {stage : Stage} (h : w.At stage) (hcore : w'.core = w.core)
    (hbuf : w'.eventBuffer = w.eventBuffer) (hst : w'.states = w.states)
    (htop : w'.topology = w.topology) (hrun : w'.run = w.run) (hsettled : w'.settled = w.settled)
    (hm : stage = .monitor → w'.exchange = .idle) : w'.At stage := by
  have hsync : ∀ i j snapshot, Synced w i j snapshot → Synced w' i j snapshot :=
    fun i j snapshot hs => hs.congr hcore (by rw [hrun]) (by rw [hrun]) hsettled
  cases stage with
  | before purpose =>
    cases purpose with
    | subscribeTopology =>
      obtain ⟨i, hi⟩ := h
      exact ⟨i, by rw [hst]; exact hi⟩
    | snapshot caller generation =>
      obtain ⟨i, j, hi, hj, -⟩ := h
      exact ⟨i, j, by rw [hst]; exact hi, by rw [htop]; exact hj, trivial⟩
    | _ => trivial
  | during purpose k =>
    cases purpose with
    | subscribe =>
      obtain ⟨call, pc, hk, hop⟩ := h
      exact ⟨call, pc, by rw [hcore]; exact hk, by rw [hbuf]; exact hop⟩
    | subscribeTopology =>
      obtain ⟨⟨i, hi⟩, call, pc, hk, hop⟩ := h
      exact ⟨⟨i, by rw [hst]; exact hi⟩, call, pc, by rw [hcore]; exact hk, by rw [hbuf]; exact hop⟩
    | snapshot caller generation =>
      obtain ⟨i, j, hi, hj, hc⟩ := h
      exact ⟨i, j, by rw [hst]; exact hi, by rw [htop]; exact hj, by rw [hcore]; exact hc⟩
    | _ => trivial
  | requesting waiting =>
    cases waiting with
    | sync caller request =>
      obtain ⟨i, j, hi, hj, snapshot, hr⟩ := h
      exact ⟨i, j, by rw [hst]; exact hi, by rw [htop]; exact hj, snapshot, hr.made,
        by rw [hcore]; exact hr.based, by rw [hcore]; exact hr.states,
        by rw [hcore]; exact hr.topology, by rw [hsettled]; exact hr.settled⟩
    | event | health caller =>
      obtain ⟨i, j, hi, hj, snapshot, hs⟩ := h
      exact ⟨i, j, by rw [hst]; exact hi, by rw [htop]; exact hj, snapshot, hsync _ _ _ hs⟩
  | monitor =>
    obtain ⟨⟨i, j, hi, hj, snapshot, hs⟩, -⟩ := h
    exact ⟨⟨i, j, by rw [hst]; exact hi, by rw [htop]; exact hj, snapshot, hsync _ _ _ hs⟩, hm rfl⟩
  | _ => trivial

theorem ok_giveUp {w : World} (hok : w.Ok) (caller : Caller) : (w.giveUp caller).Ok := by
  cases caller <;> exact ⟨hok.core, hok.states, hok.topology, trivial⟩

theorem stateEvent_frame (w : World) (event : Core.Event) :
    (w.stateEvent event).core = w.core ∧ (w.stateEvent event).states = w.states ∧
      (w.stateEvent event).topology = w.topology := by
  unfold World.stateEvent
  split
  · exact ⟨rfl, rfl, rfl⟩
  · split
    · exact ⟨rfl, rfl, rfl⟩
    · split <;> exact ⟨rfl, rfl, rfl⟩

theorem topologyEvent_frame (w : World) (event : Core.TopologyEvent) :
    (w.topologyEvent event).core = w.core ∧ (w.topologyEvent event).states = w.states ∧
      (w.topologyEvent event).topology = w.topology := by
  unfold World.topologyEvent
  split <;> exact ⟨rfl, rfl, rfl⟩

theorem ok_recv {w w' : World} {topic : Topic} (hok : w.Ok) (hstage : w.stage = .monitor)
    (h : w.recv topic = some w') : w'.Ok := by
  have hst := hok.stage
  rw [hstage] at hst
  obtain ⟨⟨i, j, hi, hj, snapshot, hs⟩, hex⟩ := hst
  simp only [World.recv, Option.bind_eq_some_iff, Option.map_eq_some_iff] at h
  obtain ⟨id, hid, s', hstep, rfl⟩ := h
  have hw' : s'.Whole := Core.step_whole hok.core (by rintro _ _ _ ⟨⟩) hstep
  obtain ⟨h1, h2⟩ := log_step hok hstep
  cases topic with
  | states =>
    obtain rfl : id = i := by
      rw [World.subscription, hi] at hid
      exact (Option.some.inj hid).symm
    have hrec := Core.recv_step.1 hstep
    dsimp only
    cases hq : (w.core.shared.state.subscriptions.chan id).queue with
    | nil => exact ⟨hw', h1, h2, trivial⟩
    | cons event rest =>
      rw [hq] at hrec
      obtain ⟨hcore, hstates, htopology⟩ := stateEvent_frame { w with core := s' } event
      exact ⟨by rw [World.received, hcore]; exact hw', by rw [World.received, hcore, hstates]; exact h1,
        by rw [World.received, hcore, htopology]; exact h2,
        at_stateEvent hok hi hj hs hex hstage hstep hrec⟩
  | topology =>
    obtain rfl : id = j := by
      rw [World.subscription, hj] at hid
      exact (Option.some.inj hid).symm
    have hrec := Core.recv_step.2 hstep
    dsimp only
    cases hq : (w.core.shared.state.topologySubscriptions.chan id).queue with
    | nil => exact ⟨hw', h1, h2, trivial⟩
    | cons event rest =>
      rw [hq] at hrec
      obtain ⟨hcore, hstates, htopology⟩ := topologyEvent_frame { w with core := s' } event
      exact ⟨by rw [World.received, hcore]; exact hw', by rw [World.received, hcore, hstates]; exact h1,
        by rw [World.received, hcore, htopology]; exact h2,
        at_topologyEvent hok hi hj hs hex hstage hstep hrec⟩

/-- `synchronize` takes the answer. -/
theorem ok_synced {w : World} {caller : Caller} {request : SyncRequest} {reply : Reply}
    {response : SyncResponse} (hok : w.Ok) (hstage : w.stage = .requesting (.sync caller request))
    (hex : w.exchange = .replied reply) : (w.synced caller request response).Ok := by
  have hst := hok.stage
  rw [hstage] at hst
  obtain ⟨i, j, hi, hj, snapshot, hr⟩ := hst
  have hsettled : w.settled = w.replica := by rw [World.settled, hex]
  unfold World.synced
  split
  · exact ok_giveUp hok caller
  · split
    · exact ok_giveUp hok caller
    · rename_i diagnostics hdiag
      dsimp only
      split
      · exact ok_giveUp hok caller
      · rename_i known hknown
        have hkeys : ∀ device capability, known.has device capability = true →
            (projectionKeys request.devices).has device capability = true :=
          fun _ _ hk => acceptedProjectionKeys_has hknown hk
        cases caller with
        | waitReady =>
          exact ⟨hok.core, hok.states, hok.topology, i, j, hi, hj, snapshot,
            synced_of_requested hr rfl hsettled.symm rfl hkeys⟩
        | monitor =>
          exact ⟨hok.core, hok.states, hok.topology, ⟨i, j, hi, hj, snapshot,
            synced_of_requested hr rfl hsettled.symm rfl hkeys⟩, rfl⟩

/-- `refresh_health` takes the answer. -/
theorem ok_refreshed {w : World} {caller : Caller} {reply : Reply} {response : HealthResponse}
    (hok : w.Ok) (hstage : w.stage = .requesting (.health caller))
    (hex : w.exchange = .replied reply) : (w.refreshed caller response).Ok := by
  have hst := hok.stage
  rw [hstage] at hst
  obtain ⟨i, j, hi, hj, snapshot, hs⟩ := hst
  have hsettled : w.settled = w.replica := by rw [World.settled, hex]
  unfold World.refreshed
  split
  · exact ok_giveUp hok caller
  · exact ⟨hok.core, hok.states, hok.topology,
      ⟨i, j, hi, hj, snapshot, hs.congr rfl rfl rfl hsettled.symm⟩, rfl⟩

theorem step_ok {w w' : World} {a : Action} (hok : w.Ok) (hwa : w.whole a)
    (h : w.step a = some w') : w'.Ok := by
  cases a with
  | core a =>
    simp only [World.step, Option.ite_none_left_eq_some, Option.map_eq_some_iff] at h
    obtain ⟨hown, s', hstep, rfl⟩ := h
    exact ok_core hok hwa hstep (by simpa using hown)
  | call k =>
    simp only [World.step] at h
    split at h
    · rename_i purpose hstage
      simp only [Option.bind_eq_some_iff, Option.map_eq_some_iff] at h
      obtain ⟨op, hop, s', hstep, rfl⟩ := h
      exact ok_call hok hstage hop hstep
    · simp at h
  | advance =>
    simp only [World.step] at h
    split at h
    · rename_i purpose k hstage
      rw [Option.map_eq_some_iff] at h
      obtain ⟨s', hstep, rfl⟩ := h
      exact ok_advance hok hstage hstep
    · simp at h
  | recv topic =>
    simp only [World.step] at h
    split at h
    · rename_i hstage
      exact ok_recv hok hstage h
    · simp at h
  | tick =>
    simp only [World.step] at h
    split at h
    · rename_i hstage
      have hst := hok.stage
      rw [hstage] at hst
      obtain ⟨⟨i, j, hi, hj, snapshot, hs⟩, hex⟩ := hst
      cases Option.some.inj h
      exact ⟨hok.core, hok.states, hok.topology, i, j, hi, hj, snapshot,
        hs.congr rfl rfl rfl (by rw [World.settled, World.settled, hex]; rfl)⟩
    · simp at h
  | handle reply =>
    simp only [World.step] at h
    split at h
    · rename_i request hex
      cases Option.some.inj h
      have hat : World.At
          { w with replica := w.replica.apply request, exchange := .replied reply } w.stage := by
        refine at_congr hok.stage rfl rfl rfl rfl rfl ?_ fun hm => ?_
        · simp only [World.settled, hex]
        · have hst := hok.stage
          rw [hm] at hst
          rw [hst.2] at hex
          exact Exchange.noConfusion hex
      exact ⟨hok.core, hok.states, hok.topology, hat⟩
    · simp at h
  | answer =>
    simp only [World.step] at h
    split at h
    · rename_i hstage hex
      cases Option.some.inj h
      exact ok_synced hok hstage hex
    · rename_i hstage hex
      cases Option.some.inj h
      have hst := hok.stage
      rw [hstage] at hst
      obtain ⟨i, j, hi, hj, snapshot, hs⟩ := hst
      exact ⟨hok.core, hok.states, hok.topology, ⟨i, j, hi, hj, snapshot,
        hs.congr rfl rfl rfl (by rw [World.settled, World.settled, hex])⟩, rfl⟩
    · rename_i hstage hex
      cases Option.some.inj h
      exact ok_refreshed hok hstage hex
    · cases Option.some.inj h
      exact ok_giveUp hok _
    · cases Option.some.inj h
      exact ok_giveUp hok _
    · cases Option.some.inj h
      exact ok_giveUp hok _
    · simp at h
  | timeout =>
    simp only [World.step] at h
    split at h
    · cases Option.some.inj h
      exact ok_giveUp hok _
    · cases Option.some.inj h
      exact ok_giveUp hok _
    · cases Option.some.inj h
      exact ok_giveUp hok _
    · simp at h
  | fail =>
    cases Option.some.inj h
    have hat : World.At { w with failed := true } w.stage := by
      refine at_congr hok.stage rfl rfl rfl rfl rfl rfl fun hm => ?_
      have hst := hok.stage
      rw [hm] at hst
      exact hst.2
    exact ⟨hok.core, hok.states, hok.topology, hat⟩
  | leave =>
    simp only [World.step] at h
    split at h
    · rw [Option.ite_none_right_eq_some] at h
      cases Option.some.inj h.2
      exact ⟨hok.core, hok.states, hok.topology, trivial⟩
    · simp at h
  | deactivate =>
    simp only [World.step] at h
    split at h
    · cases Option.some.inj h
      exact ⟨hok.core, hok.states, hok.topology, trivial⟩
    · simp at h

/-! ## Every run -/

/-- In every run in which no call of the core is dropped between the change of the values and its
    revision, whenever nothing is left to do and both subscriptions are open, the replica agrees
    with the core. -/
theorem agrees_of_open {persistent : Bool} {store : Core.DeviceId → Option Core.Record}
    {eventBuffer : Nat} {as : List Action} {w : World}
    (hw : Machine.Meets World.step World.whole (World.new persistent store eventBuffer) as)
    (hrun : Machine.run World.step (World.new persistent store eventBuffer) as = some w)
    (hidle : w.Idle) (hopen : w.Open) : w.Agrees := by
  have hok : w.Ok := Machine.run_inv_of_meets (fun _ _ _ h hwa hs => step_ok h hwa hs)
    (new_ok persistent store eventBuffer) hw hrun
  have hst := hok.stage
  rw [hidle.monitor] at hst
  obtain ⟨⟨i, j, hi, hj, snapshot, hs⟩, hex⟩ := hst
  exact agrees_of_synced hok.core hs hi hj hex hidle hopen

/-- A worker that has synchronized with a core that has a lamp, with room for `eventBuffer` events. -/
def lampSynced : List Action :=
  Core.lampStart.map .core ++
    [.call 10, .advance, .advance, .call 11, .advance, .advance, .call 12, .advance, .advance,
      .handle (.sync ⟨1, 1, none, []⟩), .answer, .handle (.health ⟨true, "", []⟩), .answer]

def publishedLamp (k : CallId) (value : Bool) : List Action :=
  (Core.alone k (Core.publishLamp value) 8).map .core

def lampForwarded : List Action := [.recv .states, .handle .event, .answer]

def lampFollowed : World :=
  (Machine.run World.step (World.new true (fun _ => none) 4)
    (lampSynced ++ publishedLamp 20 true ++ lampForwarded)).get (by decide)

def Action.isAbandon : Action → Bool
  | .core a => a.isAbandon
  | _ => false

theorem whole_of_not_abandon {w : World} {as : List Action}
    (h : ∀ a ∈ as, a.isAbandon = false) : Machine.Meets World.step World.whole w as := by
  refine Machine.meets_mono (fun w a ha => ?_) (Machine.meets_of_forall h)
  cases a with
  | core a => exact Core.whole_of_isAbandon ha
  | _ => trivial

theorem agrees_lampFollowed : lampFollowed.Idle ∧ lampFollowed.Open ∧ lampFollowed.Agrees := by
  have hidle : lampFollowed.Idle := by
    refine ⟨Core.quiet_of_settled (by decide), ?_, ?_, rfl, rfl⟩
    · rintro i ⟨⟩
      rfl
    · rintro j ⟨⟩
      rfl
  have hopen : lampFollowed.Open := by
    constructor
    · rintro i ⟨⟩
      unfold Ended
      decide
    · rintro j ⟨⟩
      unfold Ended
      decide
  exact ⟨hidle, hopen, agrees_of_open (whole_of_not_abandon (by decide))
    (Option.some_get _).symm hidle hopen⟩

/-- The second of two events does not fit and closes the subscription. -/
def lampOverflowed : World :=
  (Machine.run World.step (World.new true (fun _ => none) 1)
    (lampSynced ++ publishedLamp 20 true ++ publishedLamp 21 false ++ lampForwarded)).get (by decide)

theorem not_agrees_overflow : ¬ ∀ (persistent : Bool)
    (store : Core.DeviceId → Option Core.Record) (eventBuffer : Nat) (as : List Action) (w : World),
    Machine.Meets World.step World.whole (World.new persistent store eventBuffer) as →
    Machine.run World.step (World.new persistent store eventBuffer) as = some w →
    w.Idle → w.Agrees := by
  intro hall
  have hidle : lampOverflowed.Idle := by
    refine ⟨Core.quiet_of_settled (by decide), ?_, ?_, rfl, rfl⟩
    · rintro i ⟨⟩
      rfl
    · rintro j ⟨⟩
      rfl
  have hagrees := hall true (fun _ => none) 1 _ lampOverflowed (whole_of_not_abandon (by decide))
    (Option.some_get _).symm hidle
  obtain ⟨d, r, c, hr, hd, hc, hcid, hval⟩ := hagrees.values "lamp" "on" (by decide)
  obtain rfl : d = Core.lamp.id := Core.Identifier.ext' hd
  have hreg : lampOverflowed.core.shared.state.devices[Core.lamp.id]? =
      some ⟨0, Core.lamp, Core.capabilityMap Core.lamp.capabilities, true⟩ := by decide
  rw [hreg, Option.some.injEq] at hr
  subst hr
  have hid : c.id = Core.lampOn.id := Core.Identifier.ext' hcid
  have hlamp : (Core.capabilityMap Core.lamp.capabilities)[Core.lampOn.id]? = some Core.lampOn := by
    decide
  rw [hid, hlamp, Option.some.injEq] at hc
  subst hc
  obtain ⟨v, hv, hreplica⟩ := hval rfl
  have hcommitted : (lampOverflowed.core.shared.values 0).current[Core.lampOn.id]? =
      some (.bool false) := by decide
  rw [hcommitted, Option.some.injEq] at hv
  subst hv
  exact absurd hreplica (by decide)

end Oikade.Adapter
