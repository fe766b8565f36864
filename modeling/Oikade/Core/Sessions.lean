/-
  Sessions of the runtime, one after another, over one store that starts empty.

  `Sessions.step` is a step of the running session or the start of the next one over the records
  that the store has. Calls may be dropped, and a session may end, at any moment at which no call has
  a record at the store that it has not answered for (`Pc.pending`). The log has what the callers
  were told: a commit, with its value, and a registration, with the values that were restored.

  `Due log d cid w`: `w` is the value that the log promises for a capability, that of its last
  commit or, if there is none, the initial value of the first registration that declared it. Every
  value in the store is due, or a call is about to return that makes it so (`SessionsOk.stored`), and
  what has been promised is there (`SessionsOk.present`). `restored_due` is the result.
-/
import Oikade.Core.Durable

namespace Oikade.Core

/-! ## The machine -/

/-- What the callers of a session were told. -/
inductive Landmark where
  | committed (d : DeviceId) (cid : CapabilityId) (v : Value)
  | registered (device : Device) (current : Record)

/-- What a call tells that returns in `s`. -/
def landmark (s : Sys) (call : Call) (reply : Reply) : List Landmark :=
  match call.op with
  | .register device _ => (s.shared.state.devices[device.id]?).toList.map fun r =>
      .registered device (s.shared.values r.ref).current
  | op => match op.target, op.acknowledged reply with
    | some (d, cid), some v => [.committed d cid v]
    | _, _ => []

/-- The landmarks of a step that ends in `s`. -/
def landmarksOf (s : Sys) : Action → List Landmark
  | .advance k => match s.calls[k]? with
    | some (.returned call (.ok reply)) => landmark s call reply
    | _ => []
  | _ => []

/-- The await points of a call that has handed a record to the store and not returned since. -/
def Pc.pending : Pc → Bool
  | .saving .. | .confirmSaved .. | .advance .. | .savingInitial _ | .insert _ => true
  | _ => false

def Thread.pending : Thread → Bool
  | .running _ pc => pc.pending
  | _ => false

/-- The action drops a call that is pending. -/
def Sys.drops (s : Sys) : Action → Bool
  | .abandon k => (s.calls[k]?).any Thread.pending
  | _ => false

structure Sessions where
  sys : Sys
  log : List Landmark

inductive SessionAction where
  | act (a : Action)
  | restart

def Sessions.step (x : Sessions) : SessionAction → Option Sessions
  | .act a =>
    if x.sys.drops a then none
    else (Core.step x.sys a).map fun s => ⟨s, x.log ++ landmarksOf s a⟩
  | .restart =>
    if x.sys.calls.toList.any fun p => p.2.pending then none
    else some ⟨Sys.new true x.sys.shared.store, x.log⟩

def Sessions.new : Sessions := ⟨Sys.new true fun _ => none, []⟩

/-! ## What is due -/

def Landmark.commit? (d : DeviceId) (cid : CapabilityId) : Landmark → Option Value
  | .committed d' cid' v => if d' = d ∧ cid' = cid then some v else none
  | .registered .. => none

def Landmark.initial? (d : DeviceId) (cid : CapabilityId) : Landmark → Option Value
  | .registered device _ =>
    if device.id = d then (device.capabilities.find? (·.id = cid)).map Capability.initialValue
    else none
  | .committed .. => none

def lastCommit (d : DeviceId) (cid : CapabilityId) (log : List Landmark) : Option Value :=
  (log.filterMap (Landmark.commit? d cid)).getLast?

/-- The initial value of the first registration that declared the capability. -/
def firstInitial (d : DeviceId) (cid : CapabilityId) (log : List Landmark) : Option Value :=
  (log.filterMap (Landmark.initial? d cid)).head?

/-- The value that the log promises for a capability, up to `PartialEq` for a commit: `commit`
    does not save a value that is equal to the current one. -/
def Due (log : List Landmark) (d : DeviceId) (cid : CapabilityId) (w : Value) : Prop :=
  match lastCommit d cid log with
  | some v => v.partialEq w = true
  | none => firstInitial d cid log = some w

theorem lastCommit_snoc (d : DeviceId) (cid : CapabilityId) (log : List Landmark) (l : Landmark) :
    lastCommit d cid (log ++ [l]) = (l.commit? d cid).or (lastCommit d cid log) := by
  unfold lastCommit
  rw [List.filterMap_append, List.getLast?_append]
  cases h : l.commit? d cid <;> simp [h]

theorem firstInitial_snoc (d : DeviceId) (cid : CapabilityId) (log : List Landmark)
    (l : Landmark) :
    firstInitial d cid (log ++ [l]) = (firstInitial d cid log).or (l.initial? d cid) := by
  unfold firstInitial
  rw [List.filterMap_append, List.head?_append]
  cases h : l.initial? d cid <;> simp [h]

/-- What is due stays due until the next commit. -/
theorem Due.snoc {log : List Landmark} {d : DeviceId} {cid : CapabilityId} {w : Value}
    (h : Due log d cid w) {l : Landmark} (hl : l.commit? d cid = none) :
    Due (log ++ [l]) d cid w := by
  unfold Due at h ⊢
  rw [lastCommit_snoc, hl, Option.none_or]
  split at h
  · exact h
  · rw [firstInitial_snoc, h]
    rfl

/-- The initial value that a validated device declares for a capability. -/
theorem initial?_of_mem {device : Device} (hv : device.validate = .ok ()) {c : Capability}
    (hc : c ∈ device.capabilities) (current : Record) :
    (Landmark.registered device current).initial? device.id c.id = some c.initialValue := by
  have hfind : device.capabilities.find? (·.id = c.id) = some c := by
    cases hf : device.capabilities.find? (·.id = c.id) with
    | none =>
      have := List.find?_eq_none.mp hf c hc
      simp at this
    | some c' =>
      have hid : c'.id = c.id := by simpa using List.find?_some hf
      rw [List.inj_on_of_nodup_map (Device.validate_ok hv).2 (List.mem_of_find?_eq_some hf) hc hid]
  simp [Landmark.initial?, hfind]

/-! ## The invariant -/

/-- The call will tell that `w` is the value of the capability. -/
def Awaits (log : List Landmark) (call : Call) (d : DeviceId) (cid : CapabilityId) (w : Value) :
    Pc → Prop
  | .confirmSaved _ _ v _ | .advance _ _ v => call.op.target = some (d, cid) ∧ v = w
  | .insert _ => ∃ device handler, call.op = .register device handler ∧ device.id = d ∧
      (∃ c ∈ device.capabilities, c.id = cid ∧ c.initialValue = w) ∧
      lastCommit d cid log = none ∧ firstInitial d cid log = none
  | _ => False

def Awaited (s : Sys) (log : List Landmark) (d : DeviceId) (cid : CapabilityId) (w : Value) :
    Prop :=
  ∃ (k : CallId) (call : Call) (pc : Pc), s.calls[k]? = some (.running call pc) ∧
    Awaits log call d cid w pc

/-- The value of a capability in the store. -/
def storedValue (s : Sys) (d : DeviceId) (cid : CapabilityId) : Option Value :=
  (s.shared.store d).bind fun record => record[cid]?

/-- A registration adds the initial values of the capabilities that the store has no value for. -/
def AddsInitial (s : Sys) (device : Device) (values : DeviceValues) : Prop :=
  ∀ (cid : CapabilityId) (w : Value), values.persisted[cid]? = some w →
    storedValue s device.id cid = some w ∨
      (storedValue s device.id cid = none ∧
        ∃ c ∈ device.capabilities, c.id = cid ∧ c.initialValue = w)

/-- What a registration has restored is due once it is told. -/
def Lawful (before : List Landmark) : Landmark → Prop
  | .registered device current => ∀ c ∈ device.capabilities, ∃ w, current[c.id]? = some w ∧
      Due (before ++ [.registered device current]) device.id c.id w
  | .committed .. => True

structure SessionsOk (x : Sessions) : Prop where
  ok : x.sys.Ok
  store : StoreOk x.sys
  stored : ∀ d cid w, storedValue x.sys d cid = some w →
    Due x.log d cid w ∨ Awaited x.sys x.log d cid w
  present : ∀ d cid, storedValue x.sys d cid = none →
    lastCommit d cid x.log = none ∧ firstInitial d cid x.log = none
  initial : ∀ (k : CallId) (call : Call) (values : DeviceValues) (device : Device) (handler : Bool),
    x.sys.calls[k]? = some (.running call (.savingInitial values)) →
    call.op = .register device handler → AddsInitial x.sys device values
  law : Machine.Each Lawful x.log

theorem restoreValues_adds {acc restored : Restored} {cs : List Capability}
    (h : restoreValues acc cs = .ok restored) {cid : CapabilityId} {w : Value}
    (hw : restored.persisted[cid]? = some w) :
    acc.persisted[cid]? = some w ∨
      (acc.persisted[cid]? = none ∧ ∃ c ∈ cs, c.id = cid ∧ c.initialValue = w) := by
  induction cs generalizing acc with
  | nil =>
    cases Except.ok.inj h
    exact .inl hw
  | cons c cs ih =>
    simp only [restoreValues] at h
    split at h
    · obtain ⟨u, -, h⟩ := Fallible.bind_ok.mp h
      rcases ih h with hold | ⟨hnone, c', hc', hid, hinit⟩
      · exact .inl hold
      · exact .inr ⟨hnone, c', List.mem_cons_of_mem _ hc', hid, hinit⟩
    · rename_i hnone
      obtain ⟨u, -, h⟩ := Fallible.bind_ok.mp h
      rcases ih h with hold | ⟨hold, c', hc', hid, hinit⟩
      · simp only [getElem?_insert] at hold
        split at hold
        · rename_i hid
          exact .inr ⟨hid ▸ hnone, c, List.mem_cons_self, hid, Option.some.inj hold⟩
        · exact .inl hold
      · simp only [getElem?_insert] at hold
        split at hold
        · simp at hold
        · exact .inr ⟨hold, c', List.mem_cons_of_mem _ hc', hid, hinit⟩

/-- What `register` restores from the store. -/
theorem adds_of_restores {s : Sys} {device : Device} {restored : Restored}
    (h : Restores device (s.shared.store device.id) restored) :
    AddsInitial s device ⟨restored.current, restored.persisted⟩ := by
  intro cid w hw
  have hget : ((s.shared.store device.id).getD ∅)[cid]? = storedValue s device.id cid := by
    unfold storedValue
    cases s.shared.store device.id <;> simp
  rcases restoreValues_adds h hw with hold | ⟨hnone, hc⟩
  · exact .inl (hget ▸ hold)
  · exact .inr ⟨hget ▸ hnone, hc⟩

/-! ## Who awaits what -/

/-- A call that awaits something does not fail. -/
theorem not_fail_of_awaits {s : Sys} (hok : s.Ok) {k : CallId} {call : Call} {pc : Pc}
    {e : RuntimeError} (hk : s.calls[k]? = some (.running call pc))
    (hb : body s.shared call pc = some (.error e)) {log : List Landmark} {d : DeviceId}
    {cid : CapabilityId} {w : Value} : ¬ Awaits log call d cid w pc := by
  intro ha
  have hpc := hok.pc k call pc hk
  cases pc with
  | confirmSaved r c v next =>
    rw [body_of_move (.update ha.1 (registered_of_entered hpc.1 ha.1))] at hb
    simp at hb
  | advance r c v =>
    rw [body_of_move (.commit ha.1)] at hb
    simp at hb
  | insert values =>
    obtain ⟨device, handler, hop, hs, hd⟩ := hpc
    rw [body_of_move (.insert hop hs hd)] at hb
    simp at hb
  | _ => exact ha

/-- No other call awaits anything while one registers. -/
theorem not_awaits_of_register {s : Sys} (hok : s.Ok) {j k : CallId} (hjk : j ≠ k)
    {call call' : Call} {pc' : Pc} {values : DeviceValues} {device : Device} {handler : Bool}
    (hk : s.calls[k]? = some (.running call (.insert values)))
    (hop : call.op = .register device handler) (hj : s.calls[j]? = some (.running call' pc'))
    {log : List Landmark} {d : DeviceId} {cid : CapabilityId} {w : Value} :
    ¬ Awaits log call' d cid w pc' := by
  intro ha
  have hpc := hok.pc j call' pc' hj
  have hex := hok.exclusive k j _ _ (Ne.symm hjk) hk hj .lifecycleWrite
    (by simp [Thread.holds, Pc.holds, hop, Op.lifecycle])
  cases pc' with
  | confirmSaved r c v next | advance r c v =>
    have hl := entered_lifecycle hpc.1
    have := hex .lifecycleRead (by simp [Thread.holds, Pc.holds, hl])
    simp [Lock.excludes] at this
  | insert values' =>
    obtain ⟨device', handler', hop', -⟩ := hpc
    have := hex .lifecycleWrite (by simp [Thread.holds, Pc.holds, hop', Op.lifecycle])
    simp [Lock.excludes] at this
  | _ => exact ha

/-- A landmark about another capability leaves what a call awaits. -/
theorem Awaits.snoc {log : List Landmark} {call : Call} {d : DeviceId} {cid : CapabilityId}
    {w : Value} {pc : Pc} (h : Awaits log call d cid w pc) {l : Landmark}
    (hc : l.commit? d cid = none) (hi : l.initial? d cid = none) :
    Awaits (log ++ [l]) call d cid w pc := by
  cases pc with
  | insert values =>
    obtain ⟨device, handler, hop, hid, hdecl, h1, h2⟩ := h
    refine ⟨device, handler, hop, hid, hdecl, ?_, ?_⟩
    · rw [lastCommit_snoc, hc, h1]
      rfl
    · rw [firstInitial_snoc, hi, h2]
      rfl
  | _ => exact h

theorem Awaited.step {s s' : Sys} {log log' : List Landmark} {d : DeviceId} {cid : CapabilityId}
    {w : Value} (h : Awaited s log d cid w) {k : CallId} {u : Thread}
    (hcalls : s'.calls = s.calls.insert k u)
    (hself : ∀ call pc, s.calls[k]? = some (.running call pc) → Awaits log call d cid w pc →
      ∃ call' pc', u = .running call' pc' ∧ Awaits log' call' d cid w pc')
    (hother : ∀ (j : CallId) (call : Call) (pc : Pc), j ≠ k →
      s.calls[j]? = some (.running call pc) → Awaits log call d cid w pc →
      Awaits log' call d cid w pc) : Awaited s' log' d cid w := by
  obtain ⟨j, call, pc, hj, ha⟩ := h
  by_cases hjk : j = k
  · subst hjk
    obtain ⟨call', pc', rfl, ha'⟩ := hself call pc hj ha
    exact ⟨j, call', pc', by rw [hcalls, getElem?_insert, if_pos rfl], ha'⟩
  · exact ⟨j, call, pc, (insert_of_ne hcalls hjk).trans hj, hother j call pc hjk hj ha⟩

theorem AddsInitial.congr {s s' : Sys} {device : Device} {values : DeviceValues}
    (hst : s'.shared.store device.id = s.shared.store device.id) (h : AddsInitial s device values) :
    AddsInitial s' device values := by
  intro cid w hw
  simp only [storedValue, hst]
  exact h cid w hw

/-! ## One step -/

section Step

variable {x x' : Sessions}

/-- A step that leaves the store and the log as they are. -/
theorem sessions_keep (h : SessionsOk x) (hok : x'.sys.Ok) (hstore : StoreOk x'.sys)
    (hst : x'.sys.shared.store = x.sys.shared.store) (hlog : x'.log = x.log)
    (hawait : ∀ d cid w, Awaited x.sys x.log d cid w → Awaited x'.sys x.log d cid w)
    (hinit : ∀ (k : CallId) (call : Call) (values : DeviceValues) (device : Device)
      (handler : Bool), x'.sys.calls[k]? = some (.running call (.savingInitial values)) →
      call.op = .register device handler → AddsInitial x.sys device values) : SessionsOk x' := by
  have hval : ∀ d cid, storedValue x'.sys d cid = storedValue x.sys d cid := by
    intro d cid
    simp only [storedValue, hst]
  refine ⟨hok, hstore, fun d cid w hw => ?_, fun d cid hnone => ?_, ?_, hlog ▸ h.law⟩
  · rw [hval] at hw
    rw [hlog]
    exact (h.stored d cid w hw).imp_right (hawait d cid w)
  · rw [hval] at hnone
    rw [hlog]
    exact h.present d cid hnone
  · intro k call values device handler hk hop
    exact (hinit k call values device handler hk hop).congr (congrFun hst _)

/-- A step of call `k` that leaves the store and the log as they are. -/
theorem sessions_thread (h : SessionsOk x) (hok : x'.sys.Ok) (hstore : StoreOk x'.sys)
    (hst : x'.sys.shared.store = x.sys.shared.store) (hlog : x'.log = x.log) {k : CallId}
    {u : Thread} (hcalls : x'.sys.calls = x.sys.calls.insert k u)
    (hself : ∀ d cid w call pc, x.sys.calls[k]? = some (.running call pc) →
      Awaits x.log call d cid w pc →
      ∃ call' pc', u = .running call' pc' ∧ Awaits x.log call' d cid w pc')
    (hinit : ∀ call values device handler, u = .running call (.savingInitial values) →
      call.op = .register device handler → AddsInitial x.sys device values) : SessionsOk x' := by
  refine sessions_keep h hok hstore hst hlog
    (fun d cid w ha => ha.step hcalls (hself d cid w) fun _ _ _ _ _ ha => ha) ?_
  intro j call values device handler hj hop
  rcases running_insert hcalls hj with ⟨-, hu⟩ | ⟨-, hj⟩
  · exact hinit call values device handler hu hop
  · exact h.initial j call values device handler hj hop

section Moves

variable {k : CallId} {call : Call} {pc : Pc} {e : Effect} {n : Next}

/-- What the other calls add to the store is not affected by a move. -/
theorem initial_of_move (h : SessionsOk x) (hk : x.sys.calls[k]? = some (.running call pc))
    (hm : Move x.sys.shared call pc e n) (hsh : x'.sys.shared = e.apply x.sys.shared)
    {j : CallId} (hjk : j ≠ k) {call' : Call} {values : DeviceValues} {device : Device}
    {handler : Bool} (hj : x.sys.calls[j]? = some (.running call' (.savingInitial values)))
    (hop : call'.op = .register device handler) : AddsInitial x'.sys device values := by
  refine (h.initial j call' values device handler hj hop).congr ?_
  rw [hsh]
  exact store_of_relies h.ok hjk hk hj hm (by simp [relies, hop])

/-- A commit saves its record. -/
theorem sessions_saved (h : SessionsOk x) (hok : x'.sys.Ok) (hstore : StoreOk x'.sys)
    {d : DeviceId} {cid : CapabilityId} {r : RegisteredDevice} {c : Capability} {v : Value}
    {next : Record} (hk : x.sys.calls[k]? = some (.running call (.saving r c v next)))
    (ht : call.op.target = some (d, cid)) (hs : call.saved = .ok ())
    (hsh : x'.sys.shared = (Effect.save d next).apply x.sys.shared)
    (hcalls : x'.sys.calls = x.sys.calls.insert k (.running call (.confirmSaved r c v next)))
    (hlog : x'.log = x.log) : SessionsOk x' := by
  obtain ⟨he, -, ⟨-, rfl⟩, -⟩ := h.ok.pc k call _ hk
  obtain ⟨hd, rfl, -, -⟩ := declared_of_entered h.ok he ht
  have hold : x.sys.shared.store d = some (x.sys.shared.values r.ref).persisted :=
    stored_of_committing h.ok h.store hd hk rfl (by simp [Pc.saved])
  have hval : ∀ d' cid', storedValue x'.sys d' cid' =
      if d' = d ∧ cid' = c.id then some v else storedValue x.sys d' cid' := by
    intro d' cid'
    rw [storedValue, hsh]
    by_cases hdd : d' = d
    · subst hdd
      simp only [Effect.apply, Function.update_self, Option.bind_some, getElem?_insert, true_and,
        storedValue, hold, eq_comm]
    · simp [Effect.apply, hdd, storedValue]
  refine ⟨hok, hstore, fun d' cid' w hw => ?_, fun d' cid' hnone => ?_, ?_, hlog ▸ h.law⟩
  · rw [hval] at hw
    rw [hlog]
    split at hw
    · rename_i heq
      obtain ⟨rfl, rfl⟩ := heq
      exact .inr ⟨k, call, .confirmSaved r c v _, by rw [hcalls, getElem?_insert, if_pos rfl],
        ht, Option.some.inj hw⟩
    · refine (h.stored d' cid' w hw).imp_right fun ha => ha.step hcalls ?_ fun _ _ _ _ _ ha => ha
      intro call' pc' hk' ha'
      obtain ⟨rfl, rfl⟩ := running_inj hk hk'
      exact ha'.elim
  · rw [hval] at hnone
    rw [hlog]
    split at hnone
    · simp at hnone
    · exact h.present d' cid' hnone
  · intro j call' values device handler hj hop
    rcases running_insert hcalls hj with ⟨-, hu⟩ | ⟨hjk, hj⟩
    · simp at hu
    · exact initial_of_move h hk (.saved ht hs) hsh hjk hj hop

/-- A registration saves the record that it has restored. -/
theorem sessions_saveInitial (h : SessionsOk x) (hok : x'.sys.Ok) (hstore : StoreOk x'.sys)
    {device : Device} {handler : Bool} {values : DeviceValues}
    (hk : x.sys.calls[k]? = some (.running call (.savingInitial values)))
    (hop : call.op = .register device handler) (hs : call.saved = .ok ())
    (hsh : x'.sys.shared = (Effect.save device.id values.persisted).apply x.sys.shared)
    (hcalls : x'.sys.calls = x.sys.calls.insert k (.running call (.insert values)))
    (hlog : x'.log = x.log) : SessionsOk x' := by
  have hext := (h.store.backed k call _ hk device handler hop).2
  have hadds := h.initial k call values device handler hk hop
  have hnew : ∀ cid, storedValue x'.sys device.id cid = values.persisted[cid]? := by
    intro cid
    rw [storedValue, hsh]
    simp [Effect.apply]
  have hother : ∀ d cid, d ≠ device.id → storedValue x'.sys d cid = storedValue x.sys d cid := by
    intro d cid hne
    rw [storedValue, hsh]
    simp [Effect.apply, Function.update_of_ne hne, storedValue]
  have hkeep : ∀ d cid w, Awaited x.sys x.log d cid w → Awaited x'.sys x.log d cid w := by
    intro d cid w ha
    refine ha.step hcalls ?_ fun _ _ _ _ _ ha => ha
    intro call' pc' hk' ha'
    obtain ⟨rfl, rfl⟩ := running_inj hk hk'
    exact ha'.elim
  refine ⟨hok, hstore, fun d cid w hw => ?_, fun d cid hnone => ?_, ?_, hlog ▸ h.law⟩
  · rw [hlog]
    by_cases hd : d = device.id
    · subst hd
      rw [hnew] at hw
      rcases hadds cid w hw with hw | ⟨hnone, hdecl⟩
      · exact (h.stored _ cid w hw).imp_right (hkeep _ cid w)
      · obtain ⟨h1, h2⟩ := h.present _ cid hnone
        exact .inr ⟨k, call, .insert values, by rw [hcalls, getElem?_insert, if_pos rfl],
          device, handler, hop, rfl, hdecl, h1, h2⟩
    · rw [hother d cid hd] at hw
      exact (h.stored d cid w hw).imp_right (hkeep d cid w)
  · rw [hlog]
    by_cases hd : d = device.id
    · subst hd
      refine h.present _ cid ?_
      rw [hnew] at hnone
      cases hrec : x.sys.shared.store device.id with
      | none => simp [storedValue, hrec]
      | some record =>
        cases hv : record[cid]? with
        | none => simp [storedValue, hrec, hv]
        | some v =>
          rw [hext record hrec cid v hv] at hnone
          simp at hnone
    · rw [hother d cid hd] at hnone
      exact h.present d cid hnone
  · intro j call' values' device' handler' hj hop'
    rcases running_insert hcalls hj with ⟨-, hu⟩ | ⟨hjk, hj⟩
    · simp at hu
    · exact initial_of_move h hk (.saveInitial hop hs) hsh hjk hj hop'

/-- A commit is told. -/
theorem sessions_commit (h : SessionsOk x) (hok : x'.sys.Ok) (hstore : StoreOk x'.sys)
    {d : DeviceId} {cid : CapabilityId} {v : Value} {u : Thread}
    (hk : x.sys.calls[k]? = some (.running call pc)) (ht : call.op.target = some (d, cid))
    (hst : x'.sys.shared.store = x.sys.shared.store) (hval : Stored x.sys.shared d cid v)
    (hcalls : x'.sys.calls = x.sys.calls.insert k u) (hu : ∀ call' pc', u ≠ .running call' pc')
    (hlog : x'.log = x.log ++ [.committed d cid v]) : SessionsOk x' := by
  obtain ⟨record, x₀, hrec, hx₀, heq⟩ := hval
  have hstored : ∀ d' cid', storedValue x'.sys d' cid' = storedValue x.sys d' cid' := by
    intro d' cid'
    simp only [storedValue, hst]
  have hmiss : ∀ d' cid', ¬(d = d' ∧ cid = cid') →
      (Landmark.committed d cid v).commit? d' cid' = none := by
    intro d' cid' hne
    simp [Landmark.commit?, hne]
  refine ⟨hok, hstore, fun d' cid' w hw => ?_, fun d' cid' hnone => ?_, ?_, ?_⟩
  · rw [hstored] at hw
    rw [hlog]
    by_cases hdc : d = d' ∧ cid = cid'
    · obtain ⟨rfl, rfl⟩ := hdc
      left
      rw [storedValue, hrec, Option.bind_some, hx₀, Option.some.injEq] at hw
      rw [Due, lastCommit_snoc]
      simpa [Landmark.commit?] using hw ▸ heq
    · have hc := hmiss d' cid' hdc
      refine (h.stored d' cid' w hw).imp (·.snoc hc) fun ha => ha.step hcalls ?_ ?_
      · intro call' pc' hk' ha'
        obtain ⟨rfl, rfl⟩ := running_inj hk hk'
        -- what `k` itself awaited is the capability that it has committed
        cases pc with
        | confirmSaved r c v' next | advance r c v' =>
          have htarget := ha'.1
          rw [ht, Option.some.injEq, Prod.mk.injEq] at htarget
          exact absurd htarget hdc
        | insert values =>
          obtain ⟨device, handler, hop, -⟩ := ha'
          simp [hop, Op.target] at ht
        | _ => exact ha'.elim
      · exact fun _ _ _ _ _ ha => ha.snoc hc rfl
  · rw [hstored] at hnone
    have hdc : ¬(d = d' ∧ cid = cid') := by
      rintro ⟨rfl, rfl⟩
      simp [storedValue, hrec, hx₀] at hnone
    obtain ⟨h1, h2⟩ := h.present d' cid' hnone
    rw [hlog, lastCommit_snoc, firstInitial_snoc, hmiss d' cid' hdc, h1, h2]
    exact ⟨rfl, rfl⟩
  · intro j call' values device handler hj hop
    rcases running_insert hcalls hj with ⟨-, hu'⟩ | ⟨-, hj⟩
    · exact absurd hu' (hu _ _)
    · exact (h.initial j call' values device handler hj hop).congr (congrFun hst _)
  · rw [hlog]
    exact Machine.each_snoc.mpr ⟨h.law, trivial⟩

/-- A registration is told. -/
theorem sessions_insert (h : SessionsOk x) (hok : x'.sys.Ok) (hstore : StoreOk x'.sys)
    {device : Device} {handler : Bool} {values : DeviceValues} {u : Thread}
    (hk : x.sys.calls[k]? = some (.running call (.insert values)))
    (hop : call.op = .register device handler)
    (hst : x'.sys.shared.store = x.sys.shared.store)
    (hcalls : x'.sys.calls = x.sys.calls.insert k u) (hu : ∀ call' pc', u ≠ .running call' pc')
    (hlog : x'.log = x.log ++ [.registered device values.current]) : SessionsOk x' := by
  obtain ⟨pc₀, hb⟩ := h.ok.begun k call _ hk
  have hvalid := (begin_register hop hb).1
  obtain ⟨hagree, hrec⟩ := h.store.backed k call _ hk device handler hop
  have hstored : ∀ d cid, storedValue x'.sys d cid = storedValue x.sys d cid := by
    intro d cid
    simp only [storedValue, hst]
  -- under the lifecycle lock only this call can await anything
  have hdue : ∀ d cid w, storedValue x.sys d cid = some w →
      Due (x.log ++ [.registered device values.current]) d cid w := by
    intro d cid w hw
    rcases h.stored d cid w hw with hd | ⟨j, call', pc', hj, ha⟩
    · exact hd.snoc rfl
    · obtain ⟨rfl, rfl, rfl⟩ | hjk := running_cases hk hj
      · obtain ⟨device', handler', hop', rfl, ⟨c, hc, rfl, rfl⟩, h1, h2⟩ := ha
        obtain ⟨rfl, rfl⟩ := Op.register.inj (hop.symm.trans hop')
        have hlast : lastCommit device.id c.id
            (x.log ++ [.registered device values.current]) = none := by
          rw [lastCommit_snoc, h1]
          rfl
        rw [Due, hlast, firstInitial_snoc, h2, initial?_of_mem hvalid hc]
        rfl
      · exact absurd ha (not_awaits_of_register h.ok hjk hk hop hj)
  refine ⟨hok, hstore, fun d cid w hw => ?_, fun d cid hnone => ?_, ?_, ?_⟩
  · rw [hstored] at hw
    rw [hlog]
    exact .inl (hdue d cid w hw)
  · rw [hstored] at hnone
    obtain ⟨h1, h2⟩ := h.present d cid hnone
    rw [hlog, lastCommit_snoc, firstInitial_snoc, h1, h2]
    refine ⟨rfl, ?_⟩
    cases hi : (Landmark.registered device values.current).initial? d cid with
    | none => rfl
    | some w =>
      -- a declared capability has a value in the store
      simp only [Landmark.initial?, Option.ite_none_right_eq_some, Option.map_eq_some_iff] at hi
      obtain ⟨rfl, c, hfind, -⟩ := hi
      obtain ⟨v, hv, -⟩ := hagree.1 c (List.mem_of_find?_eq_some hfind)
      have hid : c.id = cid := by simpa using List.find?_some hfind
      simp [storedValue, hrec, ← hid, hv] at hnone
  · intro j call' values' device' handler' hj hop'
    rcases running_insert hcalls hj with ⟨-, hu'⟩ | ⟨-, hj⟩
    · exact absurd hu' (hu _ _)
    · exact (h.initial j call' values' device' handler' hj hop').congr (congrFun hst _)
  · rw [hlog]
    refine Machine.each_snoc.mpr ⟨h.law, fun c hc => ?_⟩
    obtain ⟨v, hv, -⟩ := hagree.1 c hc
    exact ⟨v, (hagree.2 c hc).trans hv, hdue device.id c.id v (by simp [storedValue, hrec, hv])⟩

end Moves

/-- A call that returns tells what it has to. -/
theorem awaits_told {s : Sys} {k : CallId} {call : Call} {pc : Pc} {e : Effect} {reply : Reply}
    (hok : s.Ok) (hk : s.calls[k]? = some (.running call pc))
    (hm : Move s.shared call pc e (.ret reply)) {log : List Landmark} {d : DeviceId}
    {cid : CapabilityId} {w : Value} (ha : Awaits log call d cid w pc) :
    (∃ device handler, call.op = .register device handler) ∨
      call.op.target = some (d, cid) ∧ ∃ v, call.op.acknowledged reply = some v := by
  generalize hn : Next.ret reply = n at hm
  have hpc := hok.pc k call pc hk
  cases hm with
  | insert hop => exact .inl ⟨_, _, hop⟩
  | @commit d' cid' r c v ht =>
    rw [Next.ret.injEq] at hn
    subst hn
    refine .inr ⟨ha.1, ?_⟩
    have he := hpc.1
    cases hop : call.op with
    | writeValue command => exact ⟨v, rfl⟩
    | publish d cid v' => exact ⟨v', rfl⟩
    | _ => simp [hop, Entered] at he
  | update | saved | saveInitial => simp at hn
  | _ => exact ha.elim

/-- Only a save changes the store. -/
theorem store_of_not_save {sh : Shared} {e : Effect} (he : ∀ d record, e ≠ .save d record) :
    (e.apply sh).store = sh.store := by
  cases e with
  | save d record => exact absurd rfl (he d record)
  | subscribe topic buffer => cases topic <;> rfl
  | cancel topic id => cases topic <;> rfl
  | _ => rfl

theorem sessions_move {k : CallId} {call : Call} {pc : Pc} {e : Effect} {n : Next}
    (h : SessionsOk x) (hok : x'.sys.Ok) (hstore : StoreOk x'.sys)
    (hk : x.sys.calls[k]? = some (.running call pc)) (hr : x.sys.ready call pc = true)
    (hm : Move x.sys.shared call pc e n) (hsh : x'.sys.shared = e.apply x.sys.shared)
    (hcalls : x'.sys.calls = x.sys.calls.insert k (n.thread call))
    (hlog : x'.log = x.log ++ landmarksOf x'.sys (.advance k)) : SessionsOk x' := by
  have hnew : x'.sys.calls[k]? = some (n.thread call) := by
    rw [hcalls, getElem?_insert, if_pos rfl]
  cases n with
  | goto pc' =>
    have hlog : x'.log = x.log := by simpa [landmarksOf, hnew, Next.thread] using hlog
    by_cases hsave : ∀ d record, e ≠ .save d record
    · refine sessions_thread h hok hstore (hsh ▸ store_of_not_save hsave) hlog hcalls ?_ ?_
      · intro d cid w call' pc'' hk' ha
        obtain ⟨rfl, rfl⟩ := running_inj hk hk'
        generalize hn : Next.goto pc' = n at hm
        cases hm with
        | update =>
          cases Next.goto.inj hn
          exact ⟨_, _, rfl, ha⟩
        | insert | commit => simp at hn
        | _ => exact ha.elim
      · intro call' values device handler hu hop
        obtain ⟨rfl, rfl⟩ := Thread.running.inj hu
        generalize hn : Next.goto (.savingInitial values) = n at hm
        cases hm with
        | @restoreNew d handler' restored hop' hs hd hp =>
          simp [h.store.persistent] at hp
        | @restore d handler' restored hop' hl hrest =>
          obtain ⟨rfl, rfl⟩ := Op.register.inj (hop.symm.trans hop')
          rw [Next.goto.injEq, Restored.next] at hn
          split at hn
          · cases hn
            exact adds_of_restores hrest
          · simp at hn
        | snapshotState | snapshotValues =>
          unfold snapshotNext at hn
          split at hn <;> simp at hn
        | _ => simp at hn
    · simp only [ne_eq, not_forall, not_not] at hsave
      obtain ⟨d, record, rfl⟩ := hsave
      generalize Next.goto pc' = n at hm hcalls
      cases hm with
      | saved ht hs => exact sessions_saved h hok hstore hk ht hs hsh hcalls hlog
      | saveInitial hop hs => exact sessions_saveInitial h hok hstore hk hop hs hsh hcalls hlog
  | ret reply =>
    have hlog : x'.log = x.log ++ landmark x'.sys call reply := by
      simpa [landmarksOf, hnew, Next.thread] using hlog
    have hst : x'.sys.shared.store = x.sys.shared.store := by
      rw [hsh]
      refine store_of_not_save fun d record he => ?_
      subst he
      cases hm
    have hu : ∀ call' pc', (Next.ret reply).thread call ≠ .running call' pc' := by
      intro call' pc' hu
      exact Thread.noConfusion hu
    by_cases hreg : ∃ device handler, call.op = .register device handler
    · obtain ⟨device, handler, hop⟩ := hreg
      obtain ⟨-, rfl, values, rfl, rfl⟩ := insert_of_ret (h.ok.pc k call pc hk) hop hm
      refine sessions_insert h hok hstore hk hop hst hcalls hu ?_
      rw [hlog, landmark, hop, hsh]
      simp [Effect.apply, dispatchTopology]
    · have hland : landmark x'.sys call reply = match call.op.target, call.op.acknowledged reply with
          | some (d, cid), some v => [.committed d cid v]
          | _, _ => [] := by
        unfold landmark
        split
        · rename_i device handler hop
          exact absurd ⟨device, handler, hop⟩ hreg
        · rfl
      rw [hland] at hlog
      split at hlog
      · rename_i d cid v ht hv
        exact sessions_commit h hok hstore hk ht hst
          (stored_of_return h.ok h.store hk hr hm rfl ht hv).2 hcalls hu hlog
      · rename_i hnone
        refine sessions_thread h hok hstore hst (by simpa using hlog) hcalls ?_ ?_
        · intro d cid w call' pc' hk' ha
          obtain ⟨rfl, rfl⟩ := running_inj hk hk'
          rcases awaits_told h.ok hk hm ha with hop | ⟨ht, v, hv⟩
          · exact absurd hop hreg
          · exact absurd hv (hnone d cid v ht)
        · intro call' values device handler hu'
          exact absurd hu' (hu _ _)

theorem pending_of_awaits {log : List Landmark} {call : Call} {d : DeviceId} {cid : CapabilityId}
    {w : Value} {pc : Pc} (h : Awaits log call d cid w pc) : pc.pending = true := by
  cases pc <;> first | rfl | exact h.elim

theorem step_sessions {a : SessionAction} (h : SessionsOk x) (hs : x.step a = some x') :
    SessionsOk x' := by
  cases a with
  | restart =>
    simp only [Sessions.step, Option.ite_none_left_eq_some, Option.some.injEq] at hs
    obtain ⟨hpend, rfl⟩ := hs
    have hnone : ∀ d cid w, ¬ Awaited x.sys x.log d cid w := by
      rintro d cid w ⟨k, call, pc, hk, ha⟩
      refine hpend (List.any_eq_true.mpr ⟨(k, .running call pc), ?_, pending_of_awaits ha⟩)
      exact Std.ExtTreeMap.mem_toList_iff_getElem?_eq_some.mpr hk
    refine ⟨new_ok true _, new_store _, fun d cid w hw => ?_, h.present, by simp [Sys.new], h.law⟩
    exact .inl ((h.stored d cid w hw).resolve_right (hnone d cid w))
  | act a =>
    simp only [Sessions.step, Option.ite_none_left_eq_some, Option.map_eq_some_iff] at hs
    obtain ⟨hdrop, s, hs, rfl⟩ := hs
    rw [Bool.not_eq_true] at hdrop
    have hhanded : handed x.sys a = true := by
      cases a with
      | abandon k =>
        cases hk : x.sys.calls[k]? with
        | none => simp [handed, hk]
        | some u =>
          cases u with
          | running call pc =>
            have : pc.pending = false := by simpa [Sys.drops, hk, Thread.pending] using hdrop
            cases pc <;> simp_all [handed, Pc.pending, Pc.unsettled]
          | _ => simp [handed, hk]
      | _ => rfl
    have hok := step_ok h.ok hs
    have hstore := step_store h.ok h.store hhanded hs
    cases step_cases hs with
    | reject hk hb =>
      refine sessions_thread h hok hstore rfl (List.append_nil _) rfl ?_ (by simp)
      intro d cid w call pc hk'
      simp [Std.ExtTreeMap.getElem?_eq_none hk] at hk'
    | invoke hk hb =>
      refine sessions_thread h hok hstore rfl (List.append_nil _) rfl ?_ ?_
      · intro d cid w call pc hk'
        simp [Std.ExtTreeMap.getElem?_eq_none hk] at hk'
      · rintro call values device handler ⟨⟩ -
        obtain ⟨hpc, -⟩ | ⟨hpc, -⟩ | ⟨hpc, -⟩ := begin_ok hb <;> simp at hpc
    | fail hk hr hb =>
      refine sessions_thread h hok hstore rfl (by simp [landmarksOf]) rfl ?_ (by simp)
      intro d cid w call pc hk' ha
      obtain ⟨rfl, rfl⟩ := running_inj hk hk'
      exact absurd ha (not_fail_of_awaits h.ok hk hb)
    | abandon hk =>
      refine sessions_thread h hok hstore rfl (List.append_nil _) rfl ?_ (by simp)
      intro d cid w call pc hk' ha
      simp [Sys.drops, hk', Thread.pending, pending_of_awaits ha] at hdrop
    | orphan ho => simp [h.store.orphans] at ho
    | states hr hop | topology hr hop =>
      refine sessions_keep h hok hstore rfl ?_ (fun _ _ _ ha => ha) h.initial
      obtain ⟨id, rfl, -⟩ | ⟨id, rfl, -⟩ | ⟨id, rfl, -⟩ := hop <;> exact List.append_nil _
    | move hk hr hm => exact sessions_move h hok hstore hk hr hm rfl rfl rfl

end Step

theorem new_sessions : SessionsOk Sessions.new where
  ok := new_ok true _
  store := new_store _
  stored d cid w hw := by simp [Sessions.new, storedValue, Sys.new] at hw
  present d cid _ := ⟨rfl, rfl⟩
  initial := by simp [Sessions.new, Sys.new]
  law := Machine.each_nil

/-- A value in the store is replaced, never removed. -/
theorem stored_of_move {s s' : Sys} (hok : s.Ok) (h : StoreOk s) {k : CallId} {call : Call}
    {pc : Pc} {e : Effect} {n : Next} (hk : s.calls[k]? = some (.running call pc))
    (hm : Move s.shared call pc e n) (hsh : s'.shared = e.apply s.shared) {d : DeviceId}
    {cid : CapabilityId} (hv : (storedValue s d cid).isSome = true) :
    (storedValue s' d cid).isSome = true := by
  by_cases hsave : ∀ d record, e ≠ .save d record
  · simpa only [storedValue, hsh, store_of_not_save hsave] using hv
  · simp only [ne_eq, not_forall, not_not] at hsave
    obtain ⟨d', record, rfl⟩ := hsave
    have hext : ∀ record', s.shared.store d' = some record' → ∀ cid : CapabilityId,
        record'[cid]?.isSome = true → record[cid]?.isSome = true := by
      intro record' hrec cid hcid
      cases hm with
      | @saved _ cid' r c v _ ht hs =>
        obtain ⟨he, -, ⟨-, rfl⟩, -⟩ := hok.pc k call _ hk
        have hd := (declared_of_entered hok he ht).1
        rw [stored_of_committing hok h hd hk rfl (by simp [Pc.saved]), Option.some.injEq] at hrec
        subst hrec
        rw [getElem?_insert]
        split
        · rfl
        · exact hcid
      | @saveInitial device handler values hop hs =>
        obtain ⟨v, hv⟩ := Option.isSome_iff_exists.mp hcid
        have := (h.backed k call _ hk device handler hop).2 record' hrec cid v hv
        simp [this]
    by_cases hd : d = d'
    · subst hd
      cases hrec : s.shared.store d with
      | none => simp [storedValue, hrec] at hv
      | some record' =>
        simp only [storedValue, hrec, Option.bind_some] at hv
        simpa [storedValue, hsh, Effect.apply] using hext record' hrec cid hv
    · simpa [storedValue, hsh, Effect.apply, Function.update_of_ne hd] using hv

theorem stored_of_step {x x' : Sessions} {a : SessionAction} (h : SessionsOk x)
    (hs : x.step a = some x') {d : DeviceId} {cid : CapabilityId}
    (hv : (storedValue x.sys d cid).isSome = true) :
    (storedValue x'.sys d cid).isSome = true := by
  cases a with
  | restart =>
    simp only [Sessions.step, Option.ite_none_left_eq_some, Option.some.injEq] at hs
    obtain ⟨-, rfl⟩ := hs
    exact hv
  | act a =>
    simp only [Sessions.step, Option.ite_none_left_eq_some, Option.map_eq_some_iff] at hs
    obtain ⟨-, s, hs, rfl⟩ := hs
    cases step_cases hs with
    | move hk hr hm => exact stored_of_move h.ok h.store hk hm rfl hv
    | orphan ho => simp [h.store.orphans] at ho
    | _ => exact hv

/-- In every sequence of sessions over a store that starts empty, what a registration restores for a
    capability is the value of its last commit, or the initial value of the first registration that
    declared it, and no capability that the store has a value for is ever lost. -/
theorem restored_due {as : List SessionAction} {x : Sessions}
    (h : Machine.run Sessions.step Sessions.new as = some x) :
    Machine.Each Lawful x.log ∧
      ∀ bs y, Machine.run Sessions.step x bs = some y → ∀ d cid,
        (storedValue x.sys d cid).isSome = true → (storedValue y.sys d cid).isSome = true := by
  have hok : SessionsOk x := Machine.run_inv (fun _ _ _ h hs => step_sessions h hs) new_sessions h
  refine ⟨hok.law, fun bs y hy d cid hv => ?_⟩
  have hinv : SessionsOk y ∧ (storedValue y.sys d cid).isSome = true :=
    Machine.run_inv (P := fun y => SessionsOk y ∧ (storedValue y.sys d cid).isSome = true)
      (fun _ _ _ h hs => ⟨step_sessions h.1 hs, stored_of_step h.1 hs h.2⟩) ⟨hok, hv⟩ hy
  exact hinv.2

/-- The lamp is registered and published, and registered again in the next session. -/
def lampSessions : List SessionAction :=
  (lampStart ++ alone 2 (publishLamp true) 8).map .act ++ .restart ::
    (alone 0 { op := .start } 2 ++ alone 1 { op := .register lamp true } 4).map .act

theorem restored_lampSessions :
    let x := (Machine.run Sessions.step Sessions.new lampSessions).get (by decide)
    x.log = [.registered lamp ((∅ : Record).insert lampOn.id (.bool false)),
      .committed lamp.id lampOn.id (.bool true),
      .registered lamp ((∅ : Record).insert lampOn.id (.bool true))] ∧
      Machine.Each Lawful x.log :=
  ⟨rfl, (restored_due (Option.some_get _).symm).1⟩

end Oikade.Core
