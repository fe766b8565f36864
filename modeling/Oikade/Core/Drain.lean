/-
  The calls of the runtime return.

  A call waits for a lock only while it holds locks of an earlier kind: the lifecycle lock, then a
  command serial, then a `values` lock. So among the running calls one waits for nothing, or waits
  for a lock that nobody holds in any mode (`moves_of_running`): it, or whoever is before it in the
  queue of that lock, can go on. `Pc.weight` counts the await points that a call can still meet. A
  snapshot meets one for each device it finds, and only the registrations that are under way can
  add devices, so `Sys.work` bounds all steps of the calls that have been made. A handler and a
  store that answer are part of the model: the steps `handling`, `loading` and `saving` are enabled.
-/
import Oikade.Core.Invariant
import Oikade.Lib.Progress

namespace Oikade.Core

/-! ## Who can go on -/

/-- The mutex or the RwLock that a lock is a mode of. -/
inductive Mutex where
  | lifecycle
  | commandSerial (r : Ref)
  | values (r : Ref)
  deriving DecidableEq, Repr

def Lock.mutex : Lock → Mutex
  | .lifecycleRead | .lifecycleWrite => .lifecycle
  | .commandSerial r => .commandSerial r
  | .values r => .values r

theorem mutex_of_excludes {l l' : Lock} (h : l.excludes l' = true) : l.mutex = l'.mutex := by
  cases l <;> cases l' <;> simp_all [Lock.excludes, Lock.mutex]

/-- No call holds the mutex in any mode. -/
def Sys.Unheld (s : Sys) (m : Mutex) : Prop :=
  ∀ (k : CallId) (call : Call) (pc : Pc), s.calls[k]? = some (.running call pc) →
    ∀ l ∈ pc.holds call.op, l.mutex ≠ m

/-- Some call can go on, in whatever order the locks serve those who wait. -/
def Sys.Moves (s : Sys) : Prop :=
  ∃ (k : CallId) (call : Call) (pc : Pc), s.calls[k]? = some (.running call pc) ∧
    (body s.shared call pc).isSome = true ∧
    ∀ l, pc.needs call.op = some l → s.Unheld l.mutex

/-- A call of `cancel` whose subscription is gone. The source has none: `cancel` borrows it. -/
def Stranded (sh : Shared) (call : Call) : Prop :=
  ∃ topic id, call.op = .cancel topic id ∧ sh.state.dropped topic id = true

theorem free_of_unheld {s : Sys} {l : Lock} (h : s.Unheld l.mutex) : s.free l = true := by
  rw [free_iff]
  intro k t hk l' hl'
  cases t with
  | running call pc =>
    rw [← Bool.not_eq_true]
    intro hex
    exact h k call pc hk l' hl' (mutex_of_excludes hex).symm
  | returned | abandoned => simp [Thread.holds] at hl'

/-- A call that can go on has an enabled step. -/
theorem advance_of_moves {s : Sys} (h : s.Moves) : ∃ k, (step s (.advance k)).isSome = true := by
  obtain ⟨k, call, pc, hk, hbody, hfree⟩ := h
  refine ⟨k, ?_⟩
  have hready : s.ready call pc = true := by
    unfold Sys.ready
    cases hl : pc.needs call.op with
    | none => rfl
    | some l => exact free_of_unheld (hfree l hl)
  simpa [step, hk, hready] using hbody

theorem target_of_entered {sh : Shared} {op : Op} {r : RegisteredDevice} {c : Capability}
    (h : Entered sh op r c) : ∃ d cid, op.target = some (d, cid) := by
  cases op <;> simp [Entered, Op.target] at h ⊢

/-- Every await point that a call reaches is one of its operation. -/
theorem body_isSome {sh : Shared} {call : Call} {pc : Pc} (h : PcOk sh call pc) :
    (body sh call pc).isSome = true ∨ Stranded sh call := by
  cases pc with
  | enter =>
    left
    cases hop : call.op <;> simp_all [PcOk, Op.lifecycle, body]
  | readValues r =>
    obtain ⟨d, cid, c, hop, -, -⟩ := h
    simp [body, hop]
  | confirm r c =>
    left
    cases hop : call.op <;> simp_all [PcOk, Entered, body]
  | handling r c =>
    obtain ⟨-, -, command, hop⟩ := h
    simp [body, hop]
  | saving r c v next | confirmSaved r c v next | advance r c v =>
    obtain ⟨d, cid, ht⟩ := target_of_entered h.1
    simp [body, ht]
  | loading | savingInitial values | insert values =>
    obtain ⟨d, handler, hop, -⟩ := h
    simp [body, hop]
  | remove r =>
    obtain ⟨d, hop, -⟩ := h
    simp [body, hop]
  | cancelState =>
    obtain ⟨topic, id, hop⟩ := h
    cases hd : sh.state.dropped topic id with
    | true => exact .inr ⟨topic, id, hop, hd⟩
    | false => simp [body, hop, hd]
  | _ => simp [body]

/-- The order in which a call takes its locks. -/
def Mutex.level : Mutex → Nat
  | .lifecycle => 0
  | .commandSerial _ => 1
  | .values _ => 2

theorem level_lt_of_needs {op : Op} {pc : Pc} {l l' : Lock} (hl : l ∈ pc.holds op)
    (hl' : pc.needs op = some l') : l.mutex.level < l'.mutex.level := by
  have hlife : ∀ l ∈ op.lifecycle.toList, l.mutex.level = 0 := by
    cases op <;> simp [Op.lifecycle, Lock.mutex, Mutex.level]
  cases pc with
  | readValues r | commandSerial r c | unregisterSerial r =>
    simp only [Pc.needs, Option.some.injEq] at hl'
    subst hl'
    rw [hlife l hl]
    exact Nat.zero_lt_succ _
  | commit r c v =>
    simp only [Pc.needs, Option.some.injEq] at hl'
    subst hl'
    rcases List.mem_append.mp hl with hl | hl
    · rw [hlife l hl]
      exact Nat.zero_lt_succ _
    · rw [List.mem_singleton.mp hl]
      exact Nat.lt_succ_self _
  | lifecycle | snapshotValues s r todo => simp [Pc.holds] at hl
  | _ => simp [Pc.needs] at hl'

/-- A call of `cancel` takes no lock but the state mutex. -/
theorem holds_cancel {sh : Shared} {call : Call} {pc : Pc} {topic : Topic} {id : Nat}
    (hop : call.op = .cancel topic id) (h : PcOk sh call pc) : pc.holds call.op = [] := by
  cases pc with
  | cancelState => rfl
  | _ => simp [PcOk, Entered, Op.lifecycle, hop] at h

/-- While a call runs, some call can go on. -/
theorem moves_of_running {s : Sys} (hok : s.Ok) {k : CallId} {call : Call} {pc : Pc}
    (hk : s.calls[k]? = some (.running call pc)) (hs : ¬ Stranded s.shared call) : s.Moves := by
  -- the processes are the running calls that are not stranded; the others hold nothing
  let Process := { p : CallId × Call × Pc //
    s.calls[p.1]? = some (.running p.2.1 p.2.2) ∧ ¬ Stranded s.shared p.2.1 }
  obtain ⟨⟨⟨j, call', pc'⟩, hj, hs'⟩, hj'⟩ := Machine.exists_unblocked
    (fun p : Process => (p.1.2.2.needs p.1.2.1.op).map Lock.mutex)
    (fun p m => ∃ l ∈ p.1.2.2.holds p.1.2.1.op, l.mutex = m) Mutex.level 2 (by rintro (_ | _ | _) <;> simp [Mutex.level])
    (by
      rintro p _ m ⟨l, hl, rfl⟩ hm
      obtain ⟨l', hl', rfl⟩ := Option.map_eq_some_iff.mp hm
      exact level_lt_of_needs hl hl')
    ⟨⟨k, call, pc⟩, hk, hs⟩
  refine ⟨j, call', pc', hj, (body_isSome (hok.pc j call' pc' hj)).resolve_right hs', ?_⟩
  intro l hl i call'' pc'' hi l' hl' hm
  rcases hj' with hnone | ⟨m, hm', hfree⟩
  · simp [hl] at hnone
  · simp only [hl, Option.map_some, Option.some.injEq] at hm'
    subst hm'
    by_cases hst : Stranded s.shared call''
    · obtain ⟨topic, id, hop, -⟩ := hst
      rw [holds_cancel hop (hok.pc i call'' pc'' hi)] at hl'
      simp at hl'
    · exact hfree ⟨⟨i, call'', pc''⟩, hi, hst⟩ ⟨l', hl', hm⟩

/-! ## How much is left to do -/

/-- The steps that a call can still take, if a snapshot finds at most `devices` devices. -/
def Pc.weight (devices : Nat) : Pc → Nat
  | .lifecycle => 9
  | .enter => 8
  | .commandSerial .. => 7
  | .confirm .. => 6
  | .handling .. => 5
  | .commit .. => 4
  | .saving .. => 3
  | .confirmSaved .. => 2
  | .advance .. => 1
  | .readValues _ => 1
  | .loading => 3
  | .savingInitial _ => 2
  | .insert _ => 1
  | .unregisterSerial _ => 2
  | .remove _ => 1
  | .snapshotState => devices + 1
  | .snapshotValues _ _ todo => todo.length + 1
  | .cancelState => 1

def Thread.weight (devices : Nat) : Thread → Nat
  | .running _ pc => pc.weight devices
  | _ => 0

/-- A registration that is under way can add one device. -/
def Thread.adds : Thread → Nat
  | .running call _ => match call.op with
    | .register .. => 1
    | _ => 0
  | _ => 0

/-- The sum over the calls. -/
def Sys.total (s : Sys) (f : Thread → Nat) : Nat := (s.calls.toList.map fun p => f p.2).sum

/-- The steps that all calls together can still take. -/
def Sys.work (s : Sys) : Nat :=
  s.total (Thread.weight (s.shared.state.devices.size + s.total Thread.adds))

section Total

variable {s s' : Sys} {f : Thread → Nat} {k : CallId} {t u : Thread}

/-- The sum over a list of calls. -/
def Sys.totalOf (s : Sys) (f : Thread → Nat) (ks : List CallId) : Nat :=
  (ks.map fun k => (s.calls[k]?).elim 0 f).sum

theorem total_eq (s : Sys) (f : Thread → Nat) :
    s.total f = s.totalOf f (s.calls.toList.map Prod.fst) := by
  unfold Sys.total Sys.totalOf
  rw [List.map_map]
  refine congrArg List.sum (List.map_congr_left fun p hp => ?_)
  have hget : s.calls[p.1]? = some p.2 := Std.ExtTreeMap.mem_toList_iff_getElem?_eq_some.mp hp
  simp [hget]

theorem totalOf_insert_of_notMem (hcalls : s'.calls = s.calls.insert k t) {ks : List CallId}
    (hk : k ∉ ks) : s'.totalOf f ks = s.totalOf f ks := by
  unfold Sys.totalOf
  refine congrArg List.sum (List.map_congr_left fun j hj => ?_)
  have hne : k ≠ j := by
    rintro rfl
    exact hk hj
  rw [hcalls, getElem?_insert, if_neg hne]

/-- A call that goes on changes the sum by what it changes. -/
theorem totalOf_insert (hcalls : s'.calls = s.calls.insert k t) (hu : s.calls[k]? = some u)
    {ks : List CallId} (hnd : ks.Nodup) (hk : k ∈ ks) :
    s'.totalOf f ks + f u = s.totalOf f ks + f t := by
  induction ks with
  | nil => simp at hk
  | cons j ks ih =>
    rw [List.nodup_cons] at hnd
    have hcons : ∀ x : Sys, x.totalOf f (j :: ks) = (x.calls[j]?).elim 0 f + x.totalOf f ks := by
      intro x
      simp [Sys.totalOf]
    rw [hcons, hcons]
    rcases List.mem_cons.mp hk with rfl | hk'
    · rw [totalOf_insert_of_notMem hcalls hnd.1, hcalls, getElem?_insert, if_pos rfl, hu]
      simp only [Option.elim_some]
      omega
    · have hne : k ≠ j := by
        rintro rfl
        exact hnd.1 hk'
      have hrest := ih hnd.2 hk'
      rw [hcalls, getElem?_insert, if_neg hne]
      omega

end Total

/-- A move leads to an await point with less to do after it. -/
theorem move_weight {sh : Shared} {call : Call} {pc : Pc} {e : Effect} {n : Next} {devices : Nat}
    (h : Move sh call pc e n) (hd : sh.state.devices.size ≤ devices) :
    (n.thread call).weight devices < pc.weight devices := by
  cases h with
  | restoreNew | restore =>
    simp only [Restored.next]
    split <;> simp [Next.thread, Thread.weight, Pc.weight]
  | snapshotState =>
    have hlen : (sh.state.devices.toList.map Prod.snd).length ≤ devices := by
      simpa [Std.ExtTreeMap.length_toList] using hd
    unfold snapshotNext
    split
    · simp [Next.thread, Thread.weight, Pc.weight]
    · rename_i hcons
      rw [hcons, List.length_cons] at hlen
      simp only [Next.thread, Thread.weight, Pc.weight]
      omega
  | snapshotValues =>
    unfold snapshotNext
    split <;> simp [Next.thread, Thread.weight, Pc.weight]
  | _ => simp [Next.thread, Thread.weight, Pc.weight]

/-- A device is added only by a registration that is then over. -/
theorem move_devices {sh : Shared} {call : Call} {pc : Pc} {e : Effect} {n : Next}
    (h : Move sh call pc e n) :
    (e.apply sh).state.devices.size + (n.thread call).adds ≤
      sh.state.devices.size + (Thread.running call pc).adds := by
  cases h with
  | stop hop hs => simp [Effect.apply, Next.thread, Thread.adds]
  | @insert d handler values hop hs hd =>
    simp only [Effect.apply, dispatchTopology, RuntimeState.bump, Next.thread, Thread.adds, hop]
    rw [Std.ExtTreeMap.size_insert]
    split <;> omega
  | @remove d r r' hop hd hr =>
    simp only [Effect.apply, dispatchTopology, RuntimeState.bump, Next.thread, Thread.adds, hop]
    have hle := Std.ExtTreeMap.size_erase_le (t := sh.state.devices) (k := d)
    omega
  | @commit d cid r c v hop =>
    simp only [Effect.apply, Next.thread, Thread.adds]
    split <;> simp [dispatchEvents, RuntimeState.bump]
  | @cancel topic id hop hd =>
    cases topic <;> simp [Effect.apply, Next.thread, Thread.adds]
  | snapshotState | snapshotValues =>
    unfold snapshotNext
    split <;> simp [Effect.apply, Next.thread, Thread.adds]
  | _ => simp [Effect.apply, Next.thread, Thread.adds]

/-- What bounds the work of a run without new calls: the calls are among `ks`, and at most `devices`
    devices are registered or about to be. -/
structure Sys.Within (s : Sys) (ks : List CallId) (devices : Nat) : Prop where
  ok : s.Ok
  known : ∀ (k : CallId) (call : Call) (pc : Pc), s.calls[k]? = some (.running call pc) → k ∈ ks
  bound : s.shared.state.devices.size + s.totalOf Thread.adds ks ≤ devices

/-- What is left to do for the calls among `ks`. -/
def Sys.left (s : Sys) (ks : List CallId) (devices : Nat) : Nat :=
  s.totalOf (Thread.weight devices) ks

/-- A step that keeps the bounds and does not add work; a step of a call lowers it. -/
structure Lowers (s s' : Sys) (ks : List CallId) (devices : Nat) (advance : Bool) : Prop where
  within : s'.Within ks devices
  le : s'.left ks devices ≤ s.left ks devices
  lt : advance = true → s'.left ks devices < s.left ks devices

section Within

variable {s s' : Sys} {ks : List CallId} {devices : Nat} {advance : Bool}

/-- A call that goes on, fails or is dropped. -/
theorem lowers_thread (h : s.Within ks devices) (hnd : ks.Nodup) (hok : s'.Ok) {k : CallId}
    {call : Call} {pc : Pc} {t : Thread} (hk : s.calls[k]? = some (.running call pc))
    (hcalls : s'.calls = s.calls.insert k t)
    (hadds : s'.shared.state.devices.size + t.adds ≤
      s.shared.state.devices.size + (Thread.running call pc).adds)
    (hweight : t.weight devices < pc.weight devices) : Lowers s s' ks devices advance := by
  have hmem := h.known k call pc hk
  have hsum := fun f => totalOf_insert (f := f) hcalls hk hnd hmem
  have hlt : s'.left ks devices < s.left ks devices := by
    have hw := hsum (Thread.weight devices)
    have hpc : (Thread.running call pc).weight devices = pc.weight devices := rfl
    unfold Sys.left
    omega
  refine ⟨⟨hok, ?_, ?_⟩, Nat.le_of_lt hlt, fun _ => hlt⟩
  · intro j call' pc' hj
    rw [hcalls, getElem?_insert] at hj
    split at hj
    · rename_i hkj
      exact hkj ▸ hmem
    · exact h.known j call' pc' hj
  · have hd := hsum Thread.adds
    have hb := h.bound
    omega

/-- A step that leaves the calls and the device table alone. -/
theorem lowers_quiet (h : s.Within ks devices) (hok : s'.Ok) (hcalls : s'.calls = s.calls)
    (hdevices : s'.shared.state.devices = s.shared.state.devices) (ha : advance = false) :
    Lowers s s' ks devices advance := by
  have htotal : ∀ f, s'.totalOf f ks = s.totalOf f ks := by
    intro f
    unfold Sys.totalOf
    rw [hcalls]
  refine ⟨⟨hok, fun k call pc hk => h.known k call pc (hcalls ▸ hk), ?_⟩,
    Nat.le_of_eq (htotal _), fun ht => ?_⟩
  · rw [hdevices, htotal]
    exact h.bound
  · rw [ha] at ht
    exact Bool.noConfusion ht

theorem weight_pos (pc : Pc) : 0 < pc.weight devices := by
  cases pc <;> simp [Pc.weight]

def Action.isInvoke : Action → Bool
  | .invoke .. => true
  | _ => false

def Action.isAdvance : Action → Bool
  | .advance _ => true
  | _ => false

theorem step_lowers (hnd : ks.Nodup) (h : s.Within ks devices) {a : Action}
    (ha : a.isInvoke = false) (hstep : step s a = some s') :
    Lowers s s' ks devices a.isAdvance := by
  have hok := step_ok h.ok hstep
  cases step_cases hstep with
  | reject | invoke => simp [Action.isInvoke] at ha
  | fail hk hr hb => exact lowers_thread h hnd hok hk rfl (by simp [Thread.adds]) (weight_pos _)
  | move hk hr hm =>
    refine lowers_thread h hnd hok hk rfl (move_devices hm) (move_weight hm ?_)
    exact Nat.le_trans (Nat.le_add_right _ _) h.bound
  | abandon hk => exact lowers_thread h hnd hok hk rfl (by simp [Thread.adds]) (weight_pos _)
  | orphan ho =>
    refine lowers_quiet h hok rfl ?_ rfl
    simp only [Orphan.apply]
    split <;> rfl
  | states hs hop =>
    refine lowers_quiet h hok rfl rfl ?_
    rcases hop with ⟨id, rfl, -⟩ | ⟨id, rfl, -⟩ | ⟨id, rfl, -⟩ <;> rfl
  | topology hs hop =>
    refine lowers_quiet h hok rfl rfl ?_
    rcases hop with ⟨id, rfl, -⟩ | ⟨id, rfl, -⟩ | ⟨id, rfl, -⟩ <;> rfl

end Within

theorem within_work {s : Sys} (hok : s.Ok) :
    s.Within (s.calls.toList.map Prod.fst)
      (s.shared.state.devices.size + s.total Thread.adds) where
  ok := hok
  known k call pc hk := List.mem_map.mpr
    ⟨(k, .running call pc), Std.ExtTreeMap.mem_toList_iff_getElem?_eq_some.mpr hk, rfl⟩
  bound := by rw [total_eq]

/-- The calls that have been made take no more steps than `Sys.work` says. -/
theorem count_le_work {s s' : Sys} (hok : s.Ok) {as : List Action}
    (hnew : ∀ a ∈ as, a.isInvoke = false) (hrun : run s as = some s') :
    as.countP Action.isAdvance ≤ s.work := by
  have hnd : (s.calls.toList.map Prod.fst).Nodup := by
    rw [Std.ExtTreeMap.map_fst_toList_eq_keys]
    exact Std.ExtTreeMap.nodup_keys
  have hle := Machine.count_add_rank_le (fun a => Action.isAdvance a = true)
    (fun t => t.left (s.calls.toList.map Prod.fst)
      (s.shared.state.devices.size + s.total Thread.adds))
    (fun _ _ _ hw ha hs => ⟨(step_lowers hnd hw ha hs).within, (step_lowers hnd hw ha hs).le,
      (step_lowers hnd hw ha hs).lt⟩)
    (within_work hok) hnew hrun
  simp only [Bool.decide_eq_true] at hle
  unfold Sys.work
  rw [total_eq s (Thread.weight _)]
  exact Nat.le_trans (Nat.le_add_right _ _) hle

/-- Whatever the order in which the calls go on, are dropped and are mixed with the subscribers'
    steps: the calls that have been made take no more steps than `Sys.work` says, and until all of
    them are over some call can go on. -/
theorem calls_return {s s' : Sys} (h : Reachable s) {as : List Action}
    (hnew : ∀ a ∈ as, a.isInvoke = false) (hrun : run s as = some s') :
    as.countP Action.isAdvance ≤ s.work ∧
      (s'.Moves ∧ (∃ k, (step s' (.advance k)).isSome = true) ∨
        ∀ (k : CallId) (call : Call) (pc : Pc),
          s'.calls[k]? = some (.running call pc) → Stranded s'.shared call) := by
  have hok := reachable_ok h
  refine ⟨count_le_work hok hnew hrun, ?_⟩
  by_cases hrunning : ∃ (k : CallId) (call : Call) (pc : Pc),
      s'.calls[k]? = some (.running call pc) ∧ ¬ Stranded s'.shared call
  · obtain ⟨k, call, pc, hk, hs⟩ := hrunning
    have hmoves := moves_of_running (run_ok hok hrun) hk hs
    exact .inl ⟨hmoves, advance_of_moves hmoves⟩
  · right
    intro k call pc hk
    by_contra hs
    exact hrunning ⟨k, call, pc, hk, hs⟩

/-- Two publications to the lamp and its removal. -/
def lampBusy : List Action :=
  lampStart ++ [.invoke 2 (publishLamp true), .invoke 3 (publishLamp false),
    .invoke 4 { op := .unregister lamp.id }]

def lampCrowd : Sys := (run (Sys.new true fun _ => none) lampBusy).get (by decide)

/-- The first publication takes the command serial; the second waits for it, the removal for the
    lifecycle lock. -/
def lampCrowding : List Action := [.advance 2, .advance 3, .advance 2, .advance 3, .advance 2]

theorem calls_return_lamp : lampCrowd.work = 27 ∧
    ((run lampCrowd lampCrowding).get (by decide)).Moves := by
  have hrun : run lampCrowd lampCrowding = some ((run lampCrowd lampCrowding).get (by decide)) :=
    (Option.some_get _).symm
  obtain ⟨-, ⟨hmoves, -⟩ | hstranded⟩ :=
    calls_return ⟨true, _, lampBusy, (Option.some_get _).symm⟩ (by decide) hrun
  · exact ⟨by decide, hmoves⟩
  · obtain ⟨topic, id, hop, -⟩ := hstranded 2 (publishLamp true) (.confirm
      ⟨0, lamp, capabilityMap lamp.capabilities, true⟩ lampOn) rfl
    exact Op.noConfusion hop

end Oikade.Core
