/-
  The snapshots that the core hands to an adapter can be sent.

  A snapshot takes no lifecycle lock: it reads the device table once and the values of the devices
  one after another, while calls commit to them and other calls unregister them. Each device it has
  read still has a value for each of its capabilities (`Core.Shot`), so `sync_request` never misses
  one. `sound_of_reachable` puts that beside the invariant of the device table it rests on.
-/
import Oikade.Core.Memory
import Oikade.Adapter.Api

namespace Oikade.Adapter

open Oikade.Core (CallId Call CapabilityId Command DeviceId Pc Reachable RegisteredDevice
  RuntimeError Snapshot Sound Sys)

/-- Every registered device of a reachable state is sound. So a command never misses a handler, a
    read never misses a declared capability of a device that is registered when it answers, and
    every snapshot of a started runtime makes a sync request. -/
theorem sound_of_reachable {s : Sys} (h : Reachable s) :
    (∀ (d : DeviceId) (r : RegisteredDevice), s.shared.state.devices[d]? = some r →
      Sound s.shared d r) ∧
    (∀ (k : CallId) (call : Call) (command : Command) (e : RuntimeError),
      s.calls[k]? = some (.returned call (.error e)) → call.op = .writeValue command →
      ∀ what, e ≠ .missingCommandHandler what) ∧
    (∀ (k : CallId) (call : Call) (pc : Pc) (d : DeviceId) (cid : CapabilityId)
      (r : RegisteredDevice) (c : Core.Capability) (s' : Sys) (e : RuntimeError),
      s.calls[k]? = some (.running call pc) → call.op = .read d cid →
      s.shared.state.devices[d]? = some r → c ∈ r.definition.capabilities → c.id = cid →
      Core.step s (.advance k) = some s' → s'.calls[k]? = some (.returned call (.error e)) →
      ∀ what, e ≠ .notFound what) ∧
    ∀ (k : CallId) (call : Call) (snapshot : Snapshot) (generation : Nat),
      s.calls[k]? = some (.returned call (.ok (.snapshot snapshot))) → snapshot.started = true →
      ∃ request, syncRequest snapshot generation = .ok request := by
  have hok := Core.reachable_ok h
  obtain ⟨reports, hrem⟩ := Core.reachable_remembers h
  refine ⟨fun d r hr => Core.sound_of_remembers (w := ⟨s, reports⟩) hok hrem hr, ?_, ?_, ?_⟩
  · intro k call command e hk hop what
    exact hrem.threads k _ hk command what hop
  · intro k call pc d cid r c s' e hk hop hr hc hid hstep hret what
    exact Core.read_refused (w := ⟨s, reports⟩) hok hrem hk hop hr hc hid hstep hret what
  · intro k call snapshot generation hk hs
    refine syncRequest_of_complete hs (fun state hstate c hc => ?_) generation
    obtain ⟨⟨persisted, hfit⟩, -⟩ := hrem.threads k _ hk state hstate
    obtain ⟨v, hv, -⟩ := hfit.current hc
    exact ⟨v, hv⟩

/-- The lamp is registered and a snapshot taken. -/
def lampSnapshot : List Core.Action := Core.lampStart ++ Core.alone 2 { op := .snapshot } 2

theorem sound_lampSnapshot :
    let s := (Core.run (Sys.new true fun _ => none) lampSnapshot).get (by decide)
    ∃ r, s.shared.state.devices[Core.lamp.id]? = some r ∧ Sound s.shared Core.lamp.id r ∧
      ∃ call snapshot request, s.calls[2]? = some (.returned call (.ok (.snapshot snapshot))) ∧
        syncRequest snapshot 1 = .ok request := by
  intro s
  have hreach : Reachable s := ⟨true, _, lampSnapshot, (Option.some_get _).symm⟩
  obtain ⟨hsound, -, -, hsync⟩ := sound_of_reachable hreach
  obtain ⟨request, hrequest⟩ := hsync 2 _ _ 1 rfl rfl
  exact ⟨_, rfl, hsound _ _ rfl, _, _, request, rfl, hrequest⟩

end Oikade.Adapter
