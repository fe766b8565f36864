/-
  Matter commands and core events in the adapter: the request loop (`src/rpc.rs`, `run`), the on/off
  and level handlers (`src/bridge/on_off.rs`, `src/bridge/level.rs`) and `BridgeState::command` as
  one machine, with a host that commits values, sends an event for each commit and answers each
  command with what the command committed.

  Two paths write the value that the bridge reports: the events of a capability, in the order of the
  commits, and the answer to a command, which its handler applies when it is polled again. The
  second has no revision. If an event of a later commit has been handled in between, the handler
  overwrites it with an older value, and no event follows (`not_reported_lateHandler`). In a run in
  which a handler that has to apply its answer still finds an event of the capability unhandled, the
  bridge reports the last committed value whenever nothing is in flight (`reported_of_orderly`).

  Model.
  * An action is one turn of the request loop, one poll of a handler, or a step of the host. Events
    of one capability stay in order; otherwise frames are handled in any order, which is more than
    one stream allows.
  * A level command carries any number: which one `canonical_level` gives for a level is in
    `Matter.Level`.
  * A response for an unknown request ends the request loop and with it the run.
-/
import Oikade.Lib.Machine
import Oikade.Matter.Bridge

namespace Oikade.Matter

open Adapter (DeviceState)

/-! ## Values -/

inductive CanonicalValue where
  | bool (value : Bool)
  | number (value : Float64)
  deriving DecidableEq, Repr

/-- The canonical value of a wire value of kind bool or number. -/
def canonical (value : WireValue) : Option CanonicalValue :=
  match wireBool value with
  | some v => some (.bool v)
  | none => (wireNumber value).map .number

/-- What a projection reports for one of its capabilities. -/
def Projection.reported (p : Projection) (capabilityId : String) : Option CanonicalValue :=
  if capabilityId = p.primaryCapabilityId then
    match p.profile with
    | .onOffLight | .dimmableLight | .outlet => p.on.map .bool
    | .temperature | .humidity => p.sensor.map .number
    | .contact | .occupancy => p.binarySensor.map .bool
  else if p.levelCapabilityId = some capabilityId then p.level.map .number
  else none

def BridgeState.reported (b : BridgeState) (key : ProjectionRef) : Option CanonicalValue :=
  (b.projections.find key.deviceId key.capabilityId).bind fun p => p.reported key.capabilityId

/-- The last check of `command`: the value of an answer. -/
def effective (level : Bool) (value : WireValue) : Option CanonicalValue :=
  if level then ((wireNumber value).filter inPercent).map .number
  else (wireBool value).map .bool

/-- `self.0.on(endpoint)? != effective`, `self.0.level(endpoint)? != effective`. -/
def BridgeState.differs (b : BridgeState) (endpoint : Nat) : CanonicalValue → Option Bool
  | .bool v => (b.on endpoint).map fun on => on ≠ v
  | .number v => (b.level endpoint).map fun level => !level.eq v

def BridgeState.apply (b : BridgeState) (endpoint : Nat) : CanonicalValue → BridgeState
  | .bool v => b.applyOn endpoint v
  | .number v => b.applyLevel endpoint v

/-! ## The machine -/

structure CommandRequest where
  key : ProjectionRef
  value : CanonicalValue
  /-- the handler that holds the other end of `response` -/
  handler : Nat
  deriving DecidableEq, Repr

inductive Phase where
  /-- at `command_tx.send` -/
  | sending (request : CommandRequest)
  /-- at `rx.recv` -/
  | waiting
  /-- the answer is in the channel, the handler has not been polled since -/
  | answered (result : Except Unit WireValue)
  deriving DecidableEq

/-- A handler in `command`. After a level command `thenOn` is what it sets on/off to. -/
structure Handler where
  endpoint : Nat
  level : Bool
  thenOn : Option Bool
  phase : Phase
  deriving DecidableEq

def maxPendingCommands : Nat := 1024

/-- The capacity of the channel to the request loop. -/
def commandCapacity : Nat := 1024

structure World where
  bridge : BridgeState
  /-- the capabilities that the host has accepted -/
  known : List ProjectionRef
  /-- what the core has committed, the values of the sync first -/
  commits : List (ProjectionRef × WireValue)
  /-- events that the adapter has not handled -/
  events : List (ProjectionRef × WireValue)
  commands : List CommandRequest
  pending : List (Nat × Nat)
  nextRequestId : Nat
  /-- command requests on their way to the host -/
  requests : List (Nat × ProjectionRef × CanonicalValue)
  /-- command responses on their way to the adapter -/
  responses : List (Nat × Except Unit WireValue)
  handlers : Std.ExtTreeMap Nat Handler

inductive Action where
  /-- `OnOffHandler::set` -/
  | setOn (handler endpoint : Nat) (desired : Bool)
  /-- `LevelHandler::set` -/
  | setLevel (handler endpoint : Nat) (desired : Float64) (thenOn : Option Bool)
  /-- the channel takes the request of a handler -/
  | send (handler : Nat)
  /-- a handler goes on with its answer -/
  | resume (handler : Nat)
  /-- a handler is dropped -/
  | drop (handler : Nat)
  /-- the request loop receives a command -/
  | forward
  /-- the request loop receives the next event of a capability -/
  | event (key : ProjectionRef)
  /-- the request loop receives a response -/
  | response (id : Nat)
  /-- the core commits a value that no command of the adapter asked for -/
  | commit (key : ProjectionRef) (value : WireValue)
  /-- the host executes a command; the value is the effective one -/
  | execute (id : Nat) (value : WireValue)
  /-- the host answers a command with an error -/
  | refuse (id : Nat)
  deriving DecidableEq

/-- The values under a capability, in order. -/
def valuesOf (entries : List (ProjectionRef × WireValue)) (key : ProjectionRef) : List WireValue :=
  (entries.filter fun entry => entry.1 = key).map (·.2)

namespace World

/-- `command` up to its first await point. -/
def command (w : World) (handler endpoint : Nat) (level : Bool) (desired : CanonicalValue)
    (thenOn : Option Bool) : World :=
  match w.bridge.projections.endpoint endpoint with
  | none => { w with handlers := w.handlers.erase handler }
  | some p =>
    let key := ⟨p.deviceId, p.capabilityForCluster level⟩
    { w with
      handlers := w.handlers.insert handler
        ⟨endpoint, level, thenOn, .sending ⟨key, desired, handler⟩⟩ }

/-- The bridge once a handler has its answer, unless the handler fails. -/
def settled (w : World) (t : Handler) (result : Except Unit WireValue) : Option BridgeState := do
  let value ← result.toOption
  let v ← effective t.level value
  let differs ← w.bridge.differs t.endpoint v
  pure (if differs then w.bridge.apply t.endpoint v else w.bridge)

/-- The rest of `set` once `command` has its answer. -/
def resume (w : World) (handler : Nat) (t : Handler) (result : Except Unit WireValue) : World :=
  match w.settled t result, t.thenOn with
  | some bridge, some on => { w with bridge }.command handler t.endpoint false (.bool on) none
  | some bridge, none => { w with bridge, handlers := w.handlers.erase handler }
  | none, _ => { w with handlers := w.handlers.erase handler }

/-- The answer enters the channel of a handler, unless the handler has been dropped. -/
def answer (w : World) (handler : Nat) (result : Except Unit WireValue) : World :=
  match w.handlers[handler]? with
  | none => w
  | some t => { w with handlers := w.handlers.insert handler { t with phase := .answered result } }

/-- The loop over `next_request_id`: more identifiers are tried than can be refused. -/
def freeId (pending : List (Nat × Nat)) : Nat → Nat → Nat
  | 0, id => id
  | fuel + 1, id =>
    if id = 0 ∨ id ∈ pending.map Prod.fst then freeId pending fuel ((id + 1) % 2 ^ 64) else id

def forward (w : World) (request : CommandRequest) (rest : List CommandRequest) : World :=
  if maxPendingCommands ≤ w.pending.length then
    { w with commands := rest }.answer request.handler (.error ())
  else
    let id := freeId w.pending (maxPendingCommands + 1) w.nextRequestId
    { w with
      commands := rest
      nextRequestId := (id + 1) % 2 ^ 64
      pending := w.pending ++ [(id, request.handler)]
      requests := w.requests ++ [(id, request.key, request.value)] }

/-- A commit of the core. The host sends events for the accepted capabilities. -/
def commit (w : World) (key : ProjectionRef) (value : WireValue) : World :=
  { w with
    commits := w.commits ++ [(key, value)]
    events := if key ∈ w.known then w.events ++ [(key, value)] else w.events }

def handleEvent (w : World) (key : ProjectionRef) (value : WireValue) : World :=
  { w with
    events := w.events.eraseP fun entry => entry.1 = key
    bridge := (w.bridge.updateEvent key.deviceId key.capabilityId value).2 }

def step (w : World) : Action → Option World
  | .setOn h endpoint desired =>
    if h ∈ w.handlers then none else some (w.command h endpoint false (.bool desired) none)
  | .setLevel h endpoint desired thenOn =>
    if h ∈ w.handlers then none else some (w.command h endpoint true (.number desired) thenOn)
  | .send h =>
    match w.handlers[h]? with
    | some ⟨endpoint, level, thenOn, .sending request⟩ =>
      if w.commands.length < commandCapacity then
        some { w with
          commands := w.commands ++ [request]
          handlers := w.handlers.insert h ⟨endpoint, level, thenOn, .waiting⟩ }
      else none
    | _ => none
  | .resume h =>
    match w.handlers[h]? with
    | some t => match t.phase with
      | .answered result => some (w.resume h t result)
      | _ => none
    | none => none
  | .drop h => some { w with handlers := w.handlers.erase h }
  | .forward =>
    match w.commands with
    | request :: rest => some (w.forward request rest)
    | [] => none
  | .event key => (valuesOf w.events key).head?.map fun value => w.handleEvent key value
  | .response id =>
    match w.responses.find? fun r => r.1 = id, w.pending.find? fun p => p.1 = id with
    | some (_, result), some (_, h) =>
      some ({ w with
        responses := w.responses.eraseP fun r => r.1 = id
        pending := w.pending.eraseP fun p => p.1 = id }.answer h result)
    | _, _ => none
  | .commit key value => some (w.commit key value)
  | .execute id value =>
    (w.requests.find? fun r => r.1 = id).map fun (_, key, _) =>
      let answered : World := { w with
        requests := w.requests.eraseP fun r => r.1 = id
        responses := w.responses ++ [(id, .ok value)] }
      answered.commit key value
  | .refuse id =>
    (w.requests.find? fun r => r.1 = id).map fun _ =>
      { w with
        requests := w.requests.eraseP fun r => r.1 = id
        responses := w.responses ++ [(id, .error ())] }

end World

/-- The value of a reference in a request. -/
def requested (devices : List DeviceState) (key : ProjectionRef) : Option WireValue :=
  (devices.find? fun w => w.device.id = key.deviceId).bind fun w => valueOf w key.capabilityId

/-- The world after an accepted sync. -/
def World.synced (devices : List DeviceState) (built : BuiltProjection) : World where
  bridge := .replace built.result
  known := built.refs
  commits := built.refs.filterMap fun key => (requested devices key).map fun value => (key, value)
  events := []
  commands := []
  pending := []
  nextRequestId := 1
  requests := []
  responses := []
  handlers := ∅

/-- No frame is in flight and no handler waits. -/
structure World.Quiet (w : World) : Prop where
  events : w.events = []
  commands : w.commands = []
  requests : w.requests = []
  responses : w.responses = []
  handlers : w.handlers.isEmpty = true

/-! ## What a step can do -/

/-- Nothing has changed that anything is reported from. -/
structure World.Same (w w' : World) : Prop where
  bridge : w'.bridge = w.bridge
  known : w'.known = w.known
  commits : w'.commits = w.commits
  events : w'.events = w.events

theorem command_same (w : World) (handler endpoint : Nat) (level : Bool) (desired : CanonicalValue)
    (thenOn : Option Bool) : w.Same (w.command handler endpoint level desired thenOn) := by
  unfold World.command
  split <;> exact ⟨rfl, rfl, rfl, rfl⟩

theorem answer_same (w : World) (handler : Nat) (result : Except Unit WireValue) :
    w.Same (w.answer handler result) := by
  unfold World.answer
  split <;> exact ⟨rfl, rfl, rfl, rfl⟩

theorem forward_same (w : World) (request : CommandRequest) (rest : List CommandRequest) :
    w.Same (w.forward request rest) := by
  unfold World.forward
  split
  · obtain ⟨h1, h2, h3, h4⟩ := answer_same { w with commands := rest } request.handler (.error ())
    exact ⟨h1, h2, h3, h4⟩
  · exact ⟨rfl, rfl, rfl, rfl⟩

/-- The steps that change what is reported or what is to be reported. -/
inductive World.Moved (w : World) : Action → World → Prop where
  | same {a : Action} {w' : World} (hs : w.Same w') : Moved w a w'
  | event {key : ProjectionRef} {value : WireValue}
      (hv : (valuesOf w.events key).head? = some value) :
      Moved w (.event key) (w.handleEvent key value)
  | commit {key : ProjectionRef} {value : WireValue} {w₁ : World} (hs : w.Same w₁) :
      Moved w (.commit key value) (w₁.commit key value)
  | execute {id : Nat} {key : ProjectionRef} {desired : CanonicalValue} {value : WireValue}
      {w₁ : World} (hr : (w.requests.find? fun r => r.1 = id) = some (id, key, desired))
      (hs : w.Same w₁) : Moved w (.execute id value) (w₁.commit key value)
  | resume {h : Nat} {t : Handler} {result : Except Unit WireValue} {bridge : BridgeState}
      {w' : World} (ht : w.handlers[h]? = some t) (hp : t.phase = .answered result)
      (hb : w.settled t result = some bridge) (hs : World.Same { w with bridge } w') :
      Moved w (.resume h) w'

theorem moved_of_step {w w' : World} {a : Action} (h : w.step a = some w') : w.Moved a w' := by
  cases a with
  | setOn hd e desired | setLevel hd e desired thenOn =>
    simp only [World.step] at h
    split at h
    · simp at h
    · cases Option.some.inj h
      exact .same (command_same ..)
  | send hd =>
    simp only [World.step] at h
    split at h
    · split at h
      · cases Option.some.inj h
        exact .same ⟨rfl, rfl, rfl, rfl⟩
      · simp at h
    · simp at h
  | resume hd =>
    simp only [World.step] at h
    split at h
    · rename_i t ht
      split at h
      · rename_i result hp
        cases Option.some.inj h
        unfold World.resume
        split
        · rename_i hb _
          exact .resume ht hp hb (command_same ..)
        · rename_i hb _
          exact .resume ht hp hb ⟨rfl, rfl, rfl, rfl⟩
        · exact .same ⟨rfl, rfl, rfl, rfl⟩
      · simp at h
    · simp at h
  | drop hd =>
    cases Option.some.inj h
    exact .same ⟨rfl, rfl, rfl, rfl⟩
  | forward =>
    simp only [World.step] at h
    split at h
    · cases Option.some.inj h
      exact .same (forward_same ..)
    · simp at h
  | event key =>
    obtain ⟨value, hv, rfl⟩ := Option.map_eq_some_iff.mp h
    exact .event hv
  | response id =>
    simp only [World.step] at h
    split at h
    · cases Option.some.inj h
      obtain ⟨h1, h2, h3, h4⟩ := answer_same { w with
        responses := w.responses.eraseP fun r => r.1 = id
        pending := w.pending.eraseP fun p => p.1 = id } _ _
      exact .same ⟨h1, h2, h3, h4⟩
    · simp at h
  | commit key value =>
    cases Option.some.inj h
    exact .commit ⟨rfl, rfl, rfl, rfl⟩
  | execute id value =>
    obtain ⟨⟨id', key, desired⟩, hr, rfl⟩ := Option.map_eq_some_iff.mp h
    have hid : id' = id := by simpa using List.find?_some hr
    subst hid
    exact .execute hr ⟨rfl, rfl, rfl, rfl⟩
  | refuse id =>
    obtain ⟨r, -, rfl⟩ := Option.map_eq_some_iff.mp h
    exact .same ⟨rfl, rfl, rfl, rfl⟩

/-! ## Values in order -/

theorem valuesOf_append (xs ys : List (ProjectionRef × WireValue)) (key : ProjectionRef) :
    valuesOf (xs ++ ys) key = valuesOf xs key ++ valuesOf ys key := by
  simp [valuesOf]

theorem valuesOf_single (key key' : ProjectionRef) (value : WireValue) :
    valuesOf [(key', value)] key = if key' = key then [value] else [] := by
  by_cases h : key' = key <;> simp [valuesOf, h]

theorem valuesOf_eraseP (xs : List (ProjectionRef × WireValue)) (key key' : ProjectionRef) :
    valuesOf (xs.eraseP fun entry => entry.1 = key') key =
      if key = key' then (valuesOf xs key).tail else valuesOf xs key := by
  induction xs with
  | nil => simp [valuesOf]
  | cons x xs ih =>
    obtain ⟨k, v⟩ := x
    by_cases hk : k = key'
    · subst hk
      by_cases hkey : key = k
      · subst hkey
        simp [valuesOf]
      · have hne : ¬k = key := fun h => hkey h.symm
        simp [valuesOf, hkey, hne]
    · have herase : ((k, v) :: xs).eraseP (fun entry => entry.1 = key') =
          (k, v) :: xs.eraseP fun entry => entry.1 = key' := by simp [hk]
      have hcons : ∀ ys, valuesOf ((k, v) :: ys) key =
          (if k = key then [v] else []) ++ valuesOf ys key := fun ys => by
        rw [← valuesOf_single, ← valuesOf_append, List.singleton_append]
      rw [herase, hcons, hcons, ih]
      by_cases hkey : key = key'
      · have hne : ¬k = key := fun h => hk (h.trans hkey)
        simp [hkey, hkey ▸ hne]
      · simp [hkey]

/-! ## What the bridge reports -/

/-- A capability that is found belongs to the projection. -/
def BridgeState.Keyed (b : BridgeState) : Prop :=
  ∀ key e p, b.projections.byCapability key = some e → b.projections.byEndpoint e = some p →
    p.deviceId = key.1 ∧ key.2 ∈ p.capabilityIds

/-- Projections on distinct endpoints are found under their own capabilities only. -/
theorem BridgeState.keyed_replace {ps : List Projection}
    (hends : (ps.map Projection.endpoint).Nodup) : (BridgeState.replace ps).Keyed := by
  intro key e p hc he
  obtain ⟨q, hq, hqe, hqd, hqm⟩ := replace_byCapability hc
  obtain ⟨hpm, hpe⟩ := replace_byEndpoint he
  have hqp : q = p := List.inj_on_of_nodup_map hends hq hpm (hqe.trans hpe.symm)
  subst hqp
  exact ⟨hqd, hqm⟩

theorem BridgeState.keyed_of_alike {b b' : BridgeState} (h : b.Alike b') (hb : b.Keyed) :
    b'.Keyed := by
  intro key e p' hc he
  have hshape := h.2 e
  rw [he, Option.map_some] at hshape
  obtain ⟨p, hp, hpp⟩ := Option.map_eq_some_iff.mp hshape.symm
  rw [h.1] at hc
  obtain ⟨hd, hm⟩ := hb key e p hc hp
  have h1 : p'.deviceId = p.deviceId := (congrArg Projection.deviceId hpp).symm
  have h2 : p'.capabilityIds = p.capabilityIds := (congrArg Projection.capabilityIds hpp).symm
  exact ⟨h1.trans hd, h2 ▸ hm⟩

theorem canonical_of_bool {value : WireValue} {v : Bool} (h : wireBool value = some v) :
    canonical value = some (.bool v) := by
  simp [canonical, h]

theorem canonical_of_number {value : WireValue} {v : Float64} (h : wireNumber value = some v) :
    canonical value = some (.number v) := by
  have hkind : value.kind = "number" := by
    by_contra hk
    simp [wireNumber, hk] at h
  have hb : wireBool value = none := by simp [wireBool, hkind]
  simp [canonical, hb, h]

/-- An event that succeeds is reported, and nothing else changes. -/
theorem event_reported {p p' : Projection} {id : String} {value : WireValue}
    {change : Option Change} (h : p.event id value = .ok (change, p')) (id' : String) :
    p'.reported id' = if id' = id then canonical value else p.reported id' := by
  by_cases hid : id = p.primaryCapabilityId
  · subst hid
    by_cases hne : id' = p.primaryCapabilityId
    · subst hne
      rw [if_pos rfl]
      simp only [Projection.event, if_true] at h
      cases hprof : p.profile with
      | onOffLight | dimmableLight | outlet | contact | occupancy =>
        simp only [hprof] at h
        split at h
        · simp at h
        · rename_i v hv
          cases h
          simp [Projection.reported, canonical_of_bool hv]
      | temperature | humidity =>
        simp only [hprof] at h
        split at h
        · simp at h
        · rename_i v hv
          split at h
          · cases h
            have hnum := (Option.filter_eq_some_iff.mp hv).1
            simp [Projection.reported, canonical_of_number hnum]
          · simp at h
    · rw [if_neg hne]
      have hsame : p'.primaryCapabilityId = p.primaryCapabilityId ∧
          p'.levelCapabilityId = p.levelCapabilityId ∧ p'.level = p.level := by
        simp only [Projection.event, if_true] at h
        cases hprof : p.profile <;> simp only [hprof] at h <;> split at h <;>
          first
          | simp at h; done
          | (cases h; exact ⟨rfl, rfl, rfl⟩)
          | (split at h
             · cases h
               exact ⟨rfl, rfl, rfl⟩
             · simp at h)
      simp [Projection.reported, hsame, hne]
  · simp only [Projection.event, hid, if_false] at h
    split at h
    · rename_i hl
      split at h
      · simp at h
      · rename_i v hv
        cases h
        have hnum := (Option.filter_eq_some_iff.mp hv).1
        by_cases hne : id' = id
        · subst hne
          simp [Projection.reported, hid, hl, canonical_of_number hnum]
        · have hl' : ¬p.levelCapabilityId = some id' := by
            rw [hl]
            exact fun he => hne (Option.some.inj he).symm
          simp [Projection.reported, hne, hl']
    · simp at h

namespace BridgeState

variable {b : BridgeState} (hk : b.Keyed)

include hk

/-- Writing to a projection changes only what is reported for its capabilities. -/
theorem write_reported {e : Nat} {p p' : Projection} (he : b.projections.byEndpoint e = some p)
    (key : ProjectionRef) (hkey : p.deviceId = key.deviceId →
      p'.reported key.capabilityId = p.reported key.capabilityId) :
    BridgeState.reported ⟨b.projections.write e p'⟩ key = b.reported key := by
  unfold BridgeState.reported ProjectionSet.find
  show ((b.projections.byCapability (key.deviceId, key.capabilityId)).bind
    (Function.update b.projections.byEndpoint e (some p'))).bind _ = _
  cases hc : b.projections.byCapability (key.deviceId, key.capabilityId) with
  | none => rfl
  | some e' =>
    simp only [Option.bind_some, Function.update_apply]
    split
    · rename_i hee
      subst hee
      simp only [he, Option.bind_some]
      exact hkey (hk _ e' p hc he).1
    · rfl

theorem updateEvent_reported {key : ProjectionRef} {value : WireValue} {change : Option Change}
    {b' : BridgeState}
    (h : b.updateEvent key.deviceId key.capabilityId value = (.ok change, b')) :
    b'.reported key = canonical value ∧ ∀ key', key' ≠ key → b'.reported key' = b.reported key' := by
  unfold updateEvent at h
  split at h
  · simp at h
  · rename_i e hc
    split at h
    · simp at h
    · rename_i p he
      split at h
      · simp at h
      · rename_i change' p' hev
        cases h
        have hrep := event_reported hev
        refine ⟨?_, fun key' hne => write_reported hk he key' fun hd => ?_⟩
        · have hfind : (b.projections.write e p').find key.deviceId key.capabilityId = some p' := by
            simp [ProjectionSet.find, ProjectionSet.write, hc]
          simp [BridgeState.reported, hfind, hrep]
        · rw [hrep, if_neg]
          intro hid
          refine hne ?_
          have hdev := (hk _ e p hc he).1
          cases key
          cases key'
          simp_all

/-- An answer that is applied changes what is reported for the capability of its command only. -/
theorem apply_reported {endpoint : Nat} {level : Bool} {value : WireValue} {v : CanonicalValue}
    {p : Projection} (hv : effective level value = some v)
    (hp : b.projections.endpoint endpoint = some p) {key : ProjectionRef}
    (hne : key ≠ ⟨p.deviceId, p.capabilityForCluster level⟩) :
    (b.apply endpoint v).reported key = b.reported key := by
  have hkey : p.deviceId = key.deviceId → p.capabilityForCluster level ≠ key.capabilityId := by
    intro hd hid
    refine hne ?_
    cases key
    simp_all
  cases level with
  | false =>
    obtain ⟨on, -, rfl⟩ := Option.map_eq_some_iff.mp hv
    simp only [BridgeState.apply, applyOn, hp]
    refine write_reported hk hp key fun hd => ?_
    have hid : key.capabilityId ≠ p.primaryCapabilityId := fun h => hkey hd h.symm
    simp [Projection.reported, hid]
  | true =>
    obtain ⟨n, -, rfl⟩ := Option.map_eq_some_iff.mp hv
    simp only [BridgeState.apply, applyLevel, hp]
    refine write_reported hk hp key fun hd => ?_
    have hid : p.levelCapabilityId ≠ some key.capabilityId := fun h => hkey hd (by
      simp [Projection.capabilityForCluster, h])
    simp [Projection.reported, hid]

end BridgeState

theorem BridgeState.apply_alike (b : BridgeState) (endpoint : Nat) (v : CanonicalValue) :
    b.Alike (b.apply endpoint v) := by
  cases v with
  | bool v =>
    show b.Alike (b.applyOn endpoint v)
    unfold applyOn
    split
    · exact Alike.refl b
    · rename_i p hp
      exact write_alike hp rfl
  | number v =>
    show b.Alike (b.applyLevel endpoint v)
    unfold applyLevel
    split
    · exact Alike.refl b
    · rename_i p hp
      exact write_alike hp rfl

/-- What the bridge takes has a canonical value. -/
theorem canonical_of_takes {p : Projection} {id : String} {value : WireValue}
    (h : p.takes id value = true) : (canonical value).isSome = true := by
  have hb : (wireBool value).isSome = true → (canonical value).isSome = true := fun h' => by
    obtain ⟨v, hv⟩ := Option.isSome_iff_exists.mp h'
    simp [canonical_of_bool hv]
  have hn : ∀ q, (wireNumber value).any q = true → (canonical value).isSome = true := fun q h' => by
    rw [Option.any_eq_true] at h'
    obtain ⟨v, hv, -⟩ := h'
    simp [canonical_of_number hv]
  unfold Projection.takes at h
  split at h
  · split at h
    · exact hn _ h
    · exact hn _ h
    · exact hb h
  · rw [Bool.and_eq_true] at h
    exact hn _ h.2

/-! ## The invariant -/

/-- The last commit of an accepted capability is the last event that is not handled, or it is what
    the bridge reports. -/
structure World.Fresh (w : World) : Prop where
  keyed : w.bridge.Keyed
  takes : ∀ r ∈ w.known, ∀ v ∈ valuesOf w.events r,
    w.bridge.takes r.deviceId r.capabilityId v = true
  last : ∀ r ∈ w.known, ∃ v, (valuesOf w.commits r).getLast? = some v ∧
    (canonical v).isSome = true ∧
      (valuesOf w.events r ≠ [] → (valuesOf w.events r).getLast? = some v) ∧
      (valuesOf w.events r = [] → w.bridge.reported r = canonical v)

/-- The capability of the command of a handler. -/
def World.keyOf (w : World) (t : Handler) : Option ProjectionRef :=
  (w.bridge.projections.endpoint t.endpoint).map fun p =>
    ⟨p.deviceId, p.capabilityForCluster t.level⟩

/-- A handler that goes on has nothing to apply, or an event of its capability is not handled. -/
def World.resumable (w : World) (t : Handler) (value : WireValue) : Bool :=
  (effective t.level value).all fun v => (w.bridge.differs t.endpoint v).all fun differs =>
    !differs || (w.keyOf t).all fun key => valuesOf w.events key ≠ []

/-- The condition on the steps of a run: values are committed that `update_event` accepts, and
    handlers go on as above. -/
def World.orderly (w : World) : Action → Bool
  | .commit key value =>
    key ∉ w.known || w.bridge.takes key.deviceId key.capabilityId value
  | .execute id value =>
    (w.requests.find? fun r => r.1 = id).all fun (_, key, _) =>
      key ∉ w.known || w.bridge.takes key.deviceId key.capabilityId value
  | .resume h =>
    (w.handlers[h]?).all fun t => match t.phase with
      | .answered (.ok value) => w.resumable t value
      | _ => true
  | _ => true

theorem World.Fresh.of_same {w w' : World} (hw : w.Fresh) (h : w.Same w') : w'.Fresh := by
  constructor
  · rw [h.bridge]
    exact hw.keyed
  · rw [h.known, h.events, h.bridge]
    exact hw.takes
  · rw [h.known, h.commits, h.events, h.bridge]
    exact hw.last

/-- A commit. -/
theorem commit_fresh {w : World} (hw : w.Fresh) {key : ProjectionRef} {value : WireValue}
    (ht : key ∈ w.known → w.bridge.takes key.deviceId key.capabilityId value = true) :
    (w.commit key value).Fresh := by
  refine ⟨hw.keyed, fun r hr v hv => ?_, fun r hr => ?_⟩
  · simp only [World.commit] at hr hv ⊢
    split at hv
    · rename_i hkey
      rw [valuesOf_append, List.mem_append, valuesOf_single] at hv
      rcases hv with hv | hv
      · exact hw.takes r hr v hv
      · split at hv
        · rename_i he
          subst he
          rw [List.mem_singleton.mp hv]
          exact ht hkey
        · simp at hv
    · exact hw.takes r hr v hv
  · simp only [World.commit] at hr ⊢
    rw [valuesOf_append, valuesOf_single]
    by_cases hkr : key = r
    · subst hkr
      have hcanon : (canonical value).isSome = true := by
        have htakes := ht hr
        unfold BridgeState.takes at htakes
        rw [Option.any_eq_true] at htakes
        obtain ⟨p, -, hp⟩ := htakes
        exact canonical_of_takes hp
      rw [if_pos rfl, if_pos hr, valuesOf_append, valuesOf_single, if_pos rfl]
      exact ⟨value, by simp, hcanon, fun _ => by simp, fun h => by simp at h⟩
    · have hevents : valuesOf (if key ∈ w.known then w.events ++ [(key, value)] else w.events) r =
          valuesOf w.events r := by
        split
        · rw [valuesOf_append, valuesOf_single, if_neg hkr, List.append_nil]
        · rfl
      rw [if_neg hkr, List.append_nil, hevents]
      exact hw.last r hr

/-- The event of a capability that the loop handles is reported, and nothing else changes. -/
theorem updateEvent_fresh {b : BridgeState} (hk : b.Keyed) {key : ProjectionRef}
    {value : WireValue} :
    (b.takes key.deviceId key.capabilityId value = true →
      (b.updateEvent key.deviceId key.capabilityId value).2.reported key = canonical value) ∧
    ∀ r, r ≠ key →
      (b.updateEvent key.deviceId key.capabilityId value).2.reported r = b.reported r := by
  obtain ⟨hok, -⟩ := b.updateEvent_spec key.deviceId key.capabilityId value
  cases hu : b.updateEvent key.deviceId key.capabilityId value with
  | mk result b' =>
    rw [hu] at hok
    cases result with
    | ok change =>
      obtain ⟨h1, h2⟩ := BridgeState.updateEvent_reported hk hu
      exact ⟨fun _ => h1, h2⟩
    | error e =>
      have hsame : b' = b := by
        unfold BridgeState.updateEvent at hu
        split at hu
        · exact (Prod.mk.inj hu).2.symm
        · split at hu
          · exact (Prod.mk.inj hu).2.symm
          · split at hu
            · exact (Prod.mk.inj hu).2.symm
            · simp at hu
      subst hsame
      exact ⟨fun ht => absurd (hok.mpr ht) (by simp), fun _ _ => rfl⟩

theorem handleEvent_fresh {w : World} (hw : w.Fresh) {key : ProjectionRef} {value : WireValue}
    (h : (valuesOf w.events key).head? = some value) : (w.handleEvent key value).Fresh := by
  obtain ⟨hhit, hmiss⟩ := @updateEvent_fresh w.bridge hw.keyed key value
  have halike := (w.bridge.updateEvent_spec key.deviceId key.capabilityId value).2
  refine ⟨BridgeState.keyed_of_alike halike hw.keyed, fun r hr v hv => ?_, fun r hr => ?_⟩
  · simp only [World.handleEvent] at hr hv ⊢
    rw [BridgeState.takes_of_alike halike]
    rw [valuesOf_eraseP] at hv
    split at hv
    · exact hw.takes r hr v (List.mem_of_mem_tail hv)
    · exact hw.takes r hr v hv
  · simp only [World.handleEvent] at hr ⊢
    obtain ⟨v, hlast, hcanon, hsome, hnone⟩ := hw.last r hr
    refine ⟨v, hlast, hcanon, ?_⟩
    rw [valuesOf_eraseP]
    by_cases hrk : r = key
    · subst hrk
      rw [if_pos rfl]
      obtain ⟨rest, hrest⟩ : ∃ rest, valuesOf w.events r = value :: rest := by
        cases hv : valuesOf w.events r with
        | nil => simp [hv] at h
        | cons x rest => exact ⟨rest, by simpa [hv] using h⟩
      have hl := hsome (by simp [hrest])
      rw [hrest] at hl ⊢
      cases rest with
      | nil =>
        have hvv : value = v := by simpa using hl
        subst hvv
        exact ⟨fun hne => absurd rfl hne,
          fun _ => hhit (hw.takes r hr value (by simp [hrest]))⟩
      | cons x rest => exact ⟨fun _ => by simpa using hl, fun hnil => by simp at hnil⟩
    · rw [if_neg hrk, hmiss r hrk]
      exact ⟨hsome, hnone⟩

/-- A handler applies its answer. -/
theorem apply_fresh {w : World} (hw : w.Fresh) {t : Handler} {value : WireValue}
    {v : CanonicalValue} (hv : effective t.level value = some v) {key : ProjectionRef}
    (hkey : w.keyOf t = some key) (hne : valuesOf w.events key ≠ []) :
    World.Fresh { w with bridge := w.bridge.apply t.endpoint v } := by
  have halike := w.bridge.apply_alike t.endpoint v
  obtain ⟨p, hp, rfl⟩ := Option.map_eq_some_iff.mp hkey
  refine ⟨BridgeState.keyed_of_alike halike hw.keyed, fun r hr v' hv' => ?_, fun r hr => ?_⟩
  · rw [BridgeState.takes_of_alike halike]
    exact hw.takes r hr v' hv'
  · obtain ⟨v', hlast, hcanon, hsome, hnone⟩ := hw.last r hr
    refine ⟨v', hlast, hcanon, hsome, fun hnil => ?_⟩
    have hrk : r ≠ ⟨p.deviceId, p.capabilityForCluster t.level⟩ := by
      rintro rfl
      exact hne hnil
    show (w.bridge.apply t.endpoint v).reported r = canonical v'
    rw [BridgeState.apply_reported hw.keyed hv hp hrk]
    exact hnone hnil

theorem settled_fresh {w : World} (hw : w.Fresh) {t : Handler} {result : Except Unit WireValue}
    (hok : ∀ value, result = .ok value → w.resumable t value = true) {bridge : BridgeState}
    (h : w.settled t result = some bridge) : World.Fresh { w with bridge } := by
  obtain ⟨value, hvalue, h⟩ := Option.bind_eq_some_iff.mp h
  obtain ⟨v, hv, h⟩ := Option.bind_eq_some_iff.mp h
  obtain ⟨differs, hd, h⟩ := Option.bind_eq_some_iff.mp h
  cases Option.some.inj h
  cases differs with
  | false => exact hw
  | true =>
    have hval : w.resumable t value = true := hok value (by cases result <;> simp_all [Except.toOption])
    simp only [World.resumable, hv, hd, Option.all_some, Bool.not_true, Bool.false_or] at hval
    obtain ⟨p, hp⟩ : ∃ p, w.bridge.projections.endpoint t.endpoint = some p := by
      cases v <;>
      · obtain ⟨x, hx, -⟩ := Option.map_eq_some_iff.mp hd
        obtain ⟨p, hp, -⟩ := Option.bind_eq_some_iff.mp hx
        exact ⟨p, hp⟩
    have hkey : w.keyOf t = some ⟨p.deviceId, p.capabilityForCluster t.level⟩ := by
      simp [World.keyOf, hp]
    exact apply_fresh hw hv hkey (by simpa [hkey] using hval)

/-- What one orderly step keeps. -/
theorem step_fresh {w w' : World} {a : Action} (hw : w.Fresh) (hok : w.orderly a = true)
    (h : w.step a = some w') : w'.Fresh := by
  cases moved_of_step h with
  | same hs => exact hw.of_same hs
  | event hv => exact handleEvent_fresh hw hv
  | commit hs =>
    refine commit_fresh (hw.of_same hs) fun hk => ?_
    rw [hs.known] at hk
    rw [hs.bridge]
    simpa [World.orderly, hk] using hok
  | execute hr hs =>
    refine commit_fresh (hw.of_same hs) fun hk => ?_
    rw [hs.known] at hk
    rw [hs.bridge]
    simpa [World.orderly, hr, hk] using hok
  | resume ht hp hb hs =>
    refine (settled_fresh hw (fun value hv => ?_) hb).of_same hs
    subst hv
    simpa [World.orderly, ht, hp] using hok

theorem step_known {w w' : World} {a : Action} (h : w.step a = some w') : w'.known = w.known := by
  cases moved_of_step h with
  | same hs => exact hs.known
  | event => rfl
  | commit hs => exact hs.known
  | execute _ hs => exact hs.known
  | resume _ _ _ hs => exact hs.known

/-! ## After a sync -/

/-- The projection of a selected capability reports the value of the capability. -/
theorem selectValue_reported {w : DeviceState} {c : Adapter.Capability} {m : Mapped}
    {value : WireValue} {selected : Selected}
    (h : (selectValue w c m value).2 = some selected) (e : Nat) :
    ∃ v, canonical value = some v ∧ (selected.projection w.device c e).reported c.id = some v := by
  unfold selectValue at h
  split at h
  case h_2 =>
    split at h
    · rename_i v hv
      split at h <;>
      · cases Option.some.inj h
        exact ⟨_, canonical_of_bool hv, by simp [Projection.reported, Selected.projection]⟩
    · simp at h
  all_goals
    split at h
    · rename_i v hv
      cases Option.some.inj h
      first
        | exact ⟨_, canonical_of_bool hv, by simp [Projection.reported, Selected.projection]⟩
        | exact ⟨_, canonical_of_number (Option.filter_eq_some_iff.mp hv).1, by
            simp [Projection.reported, Selected.projection]⟩
    · simp at h

theorem find_device {devices : List DeviceState} (hd : (devices.map fun w => w.device.id).Nodup)
    {w : DeviceState} (hw : w ∈ devices) :
    devices.find? (fun w' => w'.device.id = w.device.id) = some w := by
  cases hf : devices.find? fun w' => w'.device.id = w.device.id with
  | none =>
    have := List.find?_eq_none.mp hf w hw
    simp at this
  | some w' =>
    have hid : w'.device.id = w.device.id := by simpa using List.find?_some hf
    rw [List.inj_on_of_nodup_map hd (List.mem_of_find?_eq_some hf) hw hid]

section Sync

variable {devices : List DeviceState} (hd : (devices.map fun w => w.device.id).Nodup)
  (hp : ∀ w ∈ devices, Proper w) {builder builder' : ProjectionBuilder}
  {saved : Except String Unit} {built : BuiltProjection}
  (h : builder.build saved devices = (.ok built, builder'))

include hd hp h

theorem replace_keyed : (BridgeState.replace built.result).Keyed := by
  obtain ⟨hresult, -, hkeys⟩ := build_ok h
  refine BridgeState.keyed_replace ?_
  rw [hresult]
  exact endpoints_nodup hd hp hkeys

/-- The bridge reports the values of the request. -/
theorem reported_requested (hnd : built.refs.Nodup) {r : ProjectionRef} (hr : r ∈ built.refs) :
    ∃ value v, requested devices r = some value ∧ canonical value = some v ∧
      (BridgeState.replace built.result).reported r = some v := by
  obtain ⟨i, hi, hfind, hdev, hid⟩ := find_item hd hp h hnd hr
  obtain ⟨hw, -, hc, hsel⟩ := mem_items.mp hi
  have hreq : requested devices r = valueOf i.state r.capabilityId := by
    rw [requested, ← hdev, find_device hd hw]
    rfl
  have hrep : (BridgeState.replace built.result).reported r =
      (i.projection builder'.mappings).reported r.capabilityId := by
    simp [BridgeState.reported, BridgeState.replace, hfind]
  rw [hreq, hrep]
  rcases hid with hid | hid
  · obtain ⟨-, m, value, -, -, hv, hsv⟩ := select_some hsel
    obtain ⟨v, hcan, hrep⟩ := selectValue_reported hsv
      ((builder'.mappings.mappings[i.key]?).getD 0)
    rw [hid]
    exact ⟨value, v, hv, hcan, hrep⟩
  · obtain ⟨-, -, cap, level, hcap, -, hlv, hcid, hlevel⟩ := select_level hsel hid
    obtain ⟨value, hv, hnum⟩ := Option.bind_eq_some_iff.mp (Option.filter_eq_some_iff.mp hlv).1
    rw [← hcid]
    refine ⟨value, .number level, hv, canonical_of_number hnum, ?_⟩
    have hne : r.capabilityId ≠ i.capability.id := fun he =>
      primary_ne_level (hp _ hw) hc hsel hsel (by rw [hid, he])
    simp [Projection.reported, Item.projection, Selected.projection, hne, hid, hcid, hlevel]

theorem synced_fresh (hnd : built.refs.Nodup) : (World.synced devices built).Fresh := by
  refine ⟨replace_keyed hd hp h, fun r hr v hv => by simp [World.synced, valuesOf] at hv,
    fun r hr => ?_⟩
  obtain ⟨value, v, hreq, hcan, hrep⟩ := reported_requested hd hp h hnd hr
  have hall : ∀ x ∈ valuesOf (World.synced devices built).commits r, x = value := by
    intro x hx
    simp only [World.synced, valuesOf, List.mem_map, List.mem_filter, List.mem_filterMap,
      decide_eq_true_eq] at hx
    obtain ⟨⟨key, y⟩, ⟨⟨key', -, hk⟩, rfl⟩, rfl⟩ := hx
    obtain ⟨z, hz, he⟩ := Option.map_eq_some_iff.mp hk
    cases he
    rw [hreq] at hz
    exact (Option.some.inj hz).symm
  have hmem : value ∈ valuesOf (World.synced devices built).commits r := by
    simp only [World.synced, valuesOf, List.mem_map, List.mem_filter, List.mem_filterMap,
      decide_eq_true_eq]
    exact ⟨(r, value), ⟨⟨r, hr, by rw [hreq]; rfl⟩, rfl⟩, rfl⟩
  have hlast : (valuesOf (World.synced devices built).commits r).getLast? = some value := by
    cases hl : (valuesOf (World.synced devices built).commits r).getLast? with
    | none =>
      rw [List.getLast?_eq_none_iff.mp hl] at hmem
      simp at hmem
    | some x => rw [hall x (List.mem_of_getLast? hl)]
  exact ⟨value, hlast, by simp [hcan], fun hne => absurd rfl hne, fun _ => by rw [hcan]; exact hrep⟩

end Sync

/-- In every orderly run after an accepted sync, whenever no frame is in flight and no handler
    waits, the bridge reports the last value that the core has committed for each accepted
    capability. -/
theorem reported_of_orderly {states : List Core.DeviceState} {devices : List DeviceState}
    (hs : Sendable states) (hreq : states.mapM Adapter.deviceState = .ok devices)
    {builder builder' : ProjectionBuilder} {saved : Except String Unit} {built : BuiltProjection}
    (h : builder.build saved devices = (.ok built, builder')) {keys : Adapter.ProjectionKeys}
    (hacc : Adapter.acceptedProjectionKeys (some built.refs) (Adapter.projectionKeys devices) =
      .ok keys)
    {as : List Action} {w : World}
    (hrun : Machine.run World.step (World.synced devices built) as = some w)
    (hok : Machine.Meets World.step (fun w a => w.orderly a = true) (World.synced devices built) as)
    (hq : w.Quiet) {key : ProjectionRef} (hkey : key ∈ built.refs) :
    ∃ value v, (valuesOf w.commits key).getLast? = some value ∧ canonical value = some v ∧
      w.bridge.reported key = some v := by
  obtain ⟨hd, hp⟩ := proper_of_sendable hs hreq
  have hnd := (Adapter.acceptedProjectionKeys_ok.mp ⟨keys, hacc⟩).2
  have hknown : w.known = built.refs :=
    Machine.run_inv (P := fun w => w.known = built.refs)
      (fun w a w' hw hstep => (step_known hstep).trans hw) rfl hrun
  have hfresh := Machine.run_inv_of_meets (P := World.Fresh)
    (fun w a w' hw hok hstep => step_fresh hw hok hstep) (synced_fresh hd hp h hnd) hok hrun
  obtain ⟨value, hlast, hcanon, -, hrep⟩ := hfresh.last key (hknown ▸ hkey)
  obtain ⟨v, hv⟩ := Option.isSome_iff_exists.mp hcanon
  exact ⟨value, v, hlast, hv, by rw [hrep (by simp [hq.events, valuesOf]), hv]⟩

/-! ## A lamp that is switched on by Matter and off by hand -/

theorem validateIdentifier_lamp : Core.validateIdentifier "lamp" = .ok () := by decide

def lampState : Core.DeviceState := initialState ⟨"lamp", validateIdentifier_lamp⟩ "Lamp" [leftLamp]

def lampKey : ProjectionRef := ⟨"lamp", "left"⟩

def lampDevices : List DeviceState :=
  [⟨Adapter.deviceToApi lampState.device, [⟨"left", Adapter.valueToApi (.bool false)⟩]⟩]

def lampBuilt : BuiltProjection :=
  ⟨[⟨3, "lamp", "left", none, "Lamp", uniqueId "lamp" "left", .onOffLight, some false, none, none,
    none⟩], [lampKey], []⟩

theorem lamp_built : ∃ builder', (⟨.default⟩ : ProjectionBuilder).build (.ok ()) lampDevices =
    (.ok lampBuilt, builder') := ⟨_, rfl⟩

/-- The handler is polled after the event of the later commit. -/
def lateHandler : List Action :=
  [.setOn 0 3 true, .send 0, .forward, .execute 1 (Adapter.valueToApi (.bool true)),
    .event lampKey, .commit lampKey (Adapter.valueToApi (.bool false)), .response 1,
    .event lampKey, .resume 0]

theorem not_reported_lateHandler : Sendable [lampState] ∧
    [lampState].mapM Adapter.deviceState = .ok lampDevices ∧
    (∃ builder', (⟨.default⟩ : ProjectionBuilder).build (.ok ()) lampDevices =
      (.ok lampBuilt, builder')) ∧
    ∃ w, Machine.run World.step (World.synced lampDevices lampBuilt) lateHandler = some w ∧
      w.Quiet ∧ w.bridge.reported lampKey = some (.bool true) ∧
        (valuesOf w.commits lampKey).getLast? = some (Adapter.valueToApi (.bool false)) := by
  refine ⟨⟨by decide, by decide, by decide⟩, rfl, lamp_built,
    (Machine.run World.step (World.synced lampDevices lampBuilt) lateHandler).get (by decide),
    (Option.some_get _).symm, ⟨rfl, rfl, rfl, rfl, rfl⟩, rfl, rfl⟩

/-- The handler is polled while the event of its own command is on its way. -/
def promptHandler : List Action :=
  [.setOn 0 3 true, .send 0, .forward, .execute 1 (Adapter.valueToApi (.bool true)),
    .commit lampKey (Adapter.valueToApi (.bool false)), .response 1, .event lampKey, .resume 0,
    .event lampKey]

theorem reported_promptHandler :
    ∃ w, Machine.run World.step (World.synced lampDevices lampBuilt) promptHandler = some w ∧
      ∃ value v, (valuesOf w.commits lampKey).getLast? = some value ∧ canonical value = some v ∧
        w.bridge.reported lampKey = some v := by
  have hs : Sendable [lampState] := ⟨by decide, by decide, by decide⟩
  obtain ⟨builder', hbuild⟩ := lamp_built
  obtain ⟨keys, hkeys⟩ : ∃ keys, Adapter.acceptedProjectionKeys (some lampBuilt.refs)
      (Adapter.projectionKeys lampDevices) = .ok keys :=
    Adapter.acceptedProjectionKeys_ok.mpr (by decide)
  refine ⟨(Machine.run World.step (World.synced lampDevices lampBuilt) promptHandler).get
    (by decide), (Option.some_get _).symm, ?_⟩
  exact reported_of_orderly hs rfl hbuild hkeys (Option.some_get _).symm
    (Machine.meets_of_allows (by decide)) ⟨rfl, rfl, rfl, rfl, rfl⟩ (by decide)

end Oikade.Matter
