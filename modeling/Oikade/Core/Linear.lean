/-
  `read`, `write_value` and `publish` are linearizable.

  A call takes effect when it returns: a commit holds the values of its device from the comparison
  with the current value to the return, so nothing it did shows before. `Sim s t` relates a state
  of the machine to the state of a serial run of the calls that have returned: the device table,
  the revision and the hubs are equal, and the values and store records differ only where a call is
  between its save and its return (`Pending`). A step that does not return leaves the serial run
  alone; a step that returns extends it by the whole call (`reaches_of_pcOk`, `run_reaches`).
-/
import Oikade.Core.Streams
import Mathlib.Data.List.Nodup

namespace Oikade.Core

/-! ## A call that runs alone -/

/-- The moves of one call from an await point to another. -/
inductive Reaches (call : Call) (sh : Shared) (pc : Pc) : Shared → Pc → Prop where
  | refl : Reaches call sh pc sh pc
  | tail {sh' : Shared} {pc' pc'' : Pc} {e : Effect} (h : Reaches call sh pc sh' pc')
    (hm : Move sh' call pc' e (.goto pc'')) (he : changes (e.observe sh') = []) :
    Reaches call sh pc (e.apply sh') pc''

/-- No call is running. -/
def Sys.Quiet (s : Sys) : Prop :=
  ∀ (k : CallId) (call : Call) (pc : Pc), s.calls[k]? ≠ some (.running call pc)

/-- A call never waits for a lock that it holds itself. -/
theorem needs_not_held {op : Op} {pc : Pc} {l : Lock} (h : pc.needs op = some l) :
    ∀ l' ∈ pc.holds op, l.excludes l' = false := by
  have hlife : ∀ l' ∈ op.lifecycle.toList, (∀ r, (Lock.values r).excludes l' = false) ∧
      ∀ r, (Lock.commandSerial r).excludes l' = false := by
    cases op <;> simp [Op.lifecycle, Lock.excludes]
  cases pc with
  | readValues r | commit r c v | commandSerial r c | unregisterSerial r =>
    simp only [Pc.needs, Option.some.injEq] at h
    subst h
    intro l' hl'
    simp only [Pc.holds, List.mem_append, List.mem_singleton] at hl'
    grind [Lock.excludes]
  | lifecycle | snapshotValues s r todo => simp [Pc.holds]
  | _ => simp [Pc.needs] at h

theorem ready_of_quiet {s t : Sys} (hq : s.Quiet) {k : CallId} {call : Call} {pc : Pc}
    (ht : t.calls = s.calls.insert k (.running call pc)) : t.ready call pc = true := by
  unfold Sys.ready
  split
  · rfl
  · rename_i l hl
    rw [free_iff]
    intro j u hj
    rw [ht, getElem?_insert] at hj
    split at hj
    · rw [Option.some.injEq] at hj
      subst hj
      exact needs_not_held hl
    · cases u with
      | running call' pc' => exact absurd hj (hq j call' pc')
      | _ => simp [Thread.holds]

theorem step_advance {s : Sys} {k : CallId} {call : Call} {pc : Pc} {e : Effect} {n : Next}
    (hk : s.calls[k]? = some (.running call pc)) (hr : s.ready call pc = true)
    (hm : Move s.shared call pc e n) :
    step s (.advance k) = some { s with
      shared := e.apply s.shared
      calls := s.calls.insert k (n.thread call)
      history := s.history ++ (e.observe s.shared ++ n.observe k call.op pc) } := by
  simp only [step, hk, hr, if_true, body_of_move hm, Option.map_some]
  cases n <;> simp [Sys.settle, Next.thread, Next.observe]

theorem step_fail {s : Sys} {k : CallId} {call : Call} {pc : Pc} {e : RuntimeError}
    (hk : s.calls[k]? = some (.running call pc)) (hr : s.ready call pc = true)
    (hb : body s.shared call pc = some (.error e)) :
    step s (.advance k) = some { s with
      calls := s.calls.insert k (.returned call (.error e))
      history := s.history ++ [.returned k (.error e)] } := by
  simp [step, hk, hr, hb, Sys.fail]

theorem insert_insert (m : Std.ExtTreeMap CallId Thread) (k : CallId) (t t' : Thread) :
    (m.insert k t).insert k t' = m.insert k t' := by
  refine Std.ExtTreeMap.ext_getElem? fun j => ?_
  simp only [getElem?_insert]
  split <;> rfl

theorem alone_succ (k : CallId) (call : Call) (n : Nat) :
    alone k call (n + 1) = alone k call n ++ [.advance k] := by
  rw [alone, List.replicate_succ', ← List.cons_append, alone]

/-- A call that nothing else runs beside is made. -/
theorem run_alone_zero {t : Sys} {k : CallId} {call : Call} {pc : Pc} (hk : k ∉ t.calls)
    (hb : begin call = .ok pc) :
    ∃ t', run t (alone k call 0) = some t' ∧ t'.shared = t.shared ∧
      t'.calls = t.calls.insert k (.running call pc) ∧
      t'.history = t.history ++ [.invoked k call] := by
  refine ⟨{ t with
    calls := t.calls.insert k (.running call pc)
    history := t.history ++ [.invoked k call] }, ?_, rfl, rfl, rfl⟩
  simp [alone, run, Machine.run, step, hk, hb]

/-- It takes one more move. -/
theorem run_alone_succ {t t' : Sys} (hq : t.Quiet) {k : CallId} {call : Call} {pc : Pc}
    {e : Effect} {n : Next} {m : Nat} (hrun : run t (alone k call m) = some t')
    (hcalls : t'.calls = t.calls.insert k (.running call pc))
    (hm : Move t'.shared call pc e n) :
    ∃ t'', run t (alone k call (m + 1)) = some t'' ∧ t''.shared = e.apply t'.shared ∧
      t''.calls = t.calls.insert k (n.thread call) ∧
      t''.history = t'.history ++ (e.observe t'.shared ++ n.observe k call.op pc) := by
  have hthread : t'.calls[k]? = some (.running call pc) := by
    rw [hcalls, getElem?_insert, if_pos rfl]
  have hstep := step_advance hthread (ready_of_quiet hq hcalls) hm
  refine ⟨_, alone_succ k call m ▸ Machine.run_snoc_eq_some.mpr ⟨t', hrun, hstep⟩, rfl, ?_, rfl⟩
  simp only [hcalls, insert_insert]

/-- The machine with nothing else running takes the moves of one call. -/
theorem run_reaches {t : Sys} (hq : t.Quiet) {k : CallId} {call : Call} {pc₀ pc : Pc}
    {sh : Shared} (hk : k ∉ t.calls) (hb : begin call = .ok pc₀)
    (h : Reaches call t.shared pc₀ sh pc) :
    ∃ n t', run t (alone k call n) = some t' ∧ t'.shared = sh ∧
      t'.calls = t.calls.insert k (.running call pc) ∧ changes t'.history = changes t.history := by
  induction h with
  | refl =>
    obtain ⟨t', hrun, hsh, hcalls, hh⟩ := run_alone_zero hk hb
    exact ⟨0, t', hrun, hsh, hcalls, by simp [hh]⟩
  | @tail sh' pc' pc'' e h hm he ih =>
    obtain ⟨n, t', hrun, rfl, hcalls, hch⟩ := ih
    obtain ⟨t'', hrun', hsh, hcalls', hh⟩ := run_alone_succ hq hrun hcalls hm
    exact ⟨n + 1, t'', hrun', hsh, hcalls', by simp [hh, he, hch, Next.observe, changes_turnOf]⟩

/-- The operations on the values of registered devices. -/
def Op.data : Op → Bool
  | .read .. | .writeValue _ | .publish .. => true
  | _ => false

theorem begin_data {call : Call} (hd : call.op.data = true) : begin call = .ok .lifecycle := by
  unfold begin
  split <;> simp_all [Op.data]

theorem registered_of_entered {sh : Shared} {op : Op} {r : RegisteredDevice} {c : Capability}
    (h : Entered sh op r c) {d : DeviceId} {cid : CapabilityId} (ht : op.target = some (d, cid)) :
    Registered sh.state d r := by
  obtain ⟨d', cid', ht', hl⟩ := lookup_of_entered h
  rw [ht, Option.some.injEq, Prod.mk.injEq] at ht'
  obtain ⟨hs, hr, -⟩ := lookup_ok.mp hl
  exact ⟨hs, r, ht'.1 ▸ hr, rfl⟩

theorem reaches_commandSerial {sh : Shared} {call : Call} {r : RegisteredDevice} {c : Capability}
    (he : Entered sh call.op r c) : Reaches call sh .lifecycle sh (.commandSerial r c) :=
  .tail (.tail .refl .lifecycle rfl) (.enterCommand he) rfl

theorem reaches_commit {sh : Shared} {call : Call} {r : RegisteredDevice} {c : Capability}
    {v : Value} (he : Entered sh call.op r c) (hv : Effective call r c v) :
    Reaches call sh .lifecycle sh (.commit r c v) := by
  have hconf : Reaches call sh .lifecycle sh (.confirm r c) :=
    .tail (reaches_commandSerial he) .commandSerial rfl
  cases hop : call.op with
  | writeValue command =>
    simp only [Effective, hop] at hv
    have ht : call.op.target = some (command.deviceId, command.capabilityId) := by rw [hop]; rfl
    have hr := registered_of_entered he ht
    exact .tail (.tail hconf (.confirmCommand hop hr hv.1) rfl) (.handle hop hv.2.1 hv.2.2) rfl
  | publish d cid v' =>
    simp only [Effective, hop] at hv
    have ht : call.op.target = some (d, cid) := by rw [hop]; rfl
    have hr := registered_of_entered he ht
    subst hv
    exact .tail hconf (.confirmPublish hop hr) rfl
  | _ => simp [Effective, hop] at hv

/-- A call reaches its await point alone, as long as it has not saved anything. -/
theorem reaches_of_pcOk {sh : Shared} {call : Call} {pc : Pc} (hd : call.op.data = true)
    (h : PcOk sh call pc) (hpc : ∀ r c v next, pc ≠ .confirmSaved r c v next)
    (hpc' : ∀ r c v, pc ≠ .advance r c v) : Reaches call sh .lifecycle sh pc := by
  cases pc with
  | lifecycle => exact .refl
  | enter => exact .tail .refl .lifecycle rfl
  | readValues r =>
    obtain ⟨d, cid, c, hop, hl, hp⟩ := h
    exact .tail (.tail .refl .lifecycle rfl) (.enterRead hop hl hp) rfl
  | commandSerial r c => exact reaches_commandSerial h
  | confirm r c => exact .tail (reaches_commandSerial h) .commandSerial rfl
  | handling r c =>
    obtain ⟨he, hh, command, hop⟩ := h
    have ht : call.op.target = some (command.deviceId, command.capabilityId) := by rw [hop]; rfl
    have hr := registered_of_entered he ht
    exact .tail (.tail (reaches_commandSerial he) .commandSerial rfl)
      (.confirmCommand hop hr hh) rfl
  | commit r c v => exact reaches_commit h.1 h.2
  | saving r c v next =>
    obtain ⟨he, hv, ⟨hne, rfl⟩, hp⟩ := h
    exact .tail (reaches_commit he hv) (.save hne hp) rfl
  | confirmSaved r c v next => exact absurd rfl (hpc r c v next)
  | advance r c v => exact absurd rfl (hpc' r c v)
  | loading | savingInitial values =>
    obtain ⟨d, handler, hop, -⟩ := h
    simp [hop, Op.data] at hd
  | insert values =>
    obtain ⟨d, handler, hop, -⟩ := h
    simp [hop, Op.data] at hd
  | unregisterSerial r | remove r =>
    obtain ⟨d, hop, -⟩ := h
    simp [hop, Op.data] at hd
  | snapshotState | snapshotValues s r todo => simp [show call.op = .snapshot from h, Op.data] at hd
  | cancelState =>
    obtain ⟨topic, id, hop⟩ := h
    simp [hop, Op.data] at hd

/-- The store after the save of a commit. -/
def afterSave (sh : Shared) (d : DeviceId) (next : Record) : Shared :=
  if sh.persistent then (Effect.save d next).apply sh else sh

theorem afterSave_state (sh : Shared) (d : DeviceId) (next : Record) :
    (afterSave sh d next).state = sh.state := by
  unfold afterSave
  split <;> rfl

theorem afterSave_values (sh : Shared) (d : DeviceId) (next : Record) :
    (afterSave sh d next).values = sh.values := by
  unfold afterSave
  split <;> rfl

theorem afterSave_nextRef (sh : Shared) (d : DeviceId) (next : Record) :
    (afterSave sh d next).nextRef = sh.nextRef := by
  unfold afterSave
  split <;> rfl

theorem afterSave_persistent (sh : Shared) (d : DeviceId) (next : Record) :
    (afterSave sh d next).persistent = sh.persistent := by
  unfold afterSave
  split <;> rfl

theorem commit_state {sh sh' : Shared} {d : DeviceId} {r : RegisteredDevice} {c : Capability}
    {v : Value} {now : Nat} (h : sh.state = sh'.state) :
    ((Effect.commit d r c v now).apply sh).state =
      ((Effect.commit d r c v now).apply sh').state := by
  simp only [Effect.apply, h]

theorem commit_changes {sh sh' : Shared} {d : DeviceId} {r : RegisteredDevice} {c : Capability}
    {v : Value} {now : Nat} (h : sh.state = sh'.state) :
    changes ((Effect.commit d r c v now).observe sh) =
      changes ((Effect.commit d r c v now).observe sh') := by
  simp only [Effect.observe, h]

/-- A commit alone, up to the state lock that gives it its revision. -/
theorem reaches_advance {sh : Shared} {call : Call} {r : RegisteredDevice} {c : Capability}
    {v : Value} {next : Record} {d : DeviceId} {cid : CapabilityId} (he : Entered sh call.op r c)
    (hv : Effective call r c v) (hn : Differs (sh.values r.ref) c v next)
    (hs : sh.persistent = true → call.saved = .ok ()) (ht : call.op.target = some (d, cid)) :
    Reaches call sh .lifecycle
      ((Effect.update r.ref ⟨(sh.values r.ref).current.insert c.id v, next⟩).apply
        (afterSave sh d next)) (.advance r c v) := by
  obtain ⟨hne, rfl⟩ := hn
  have hr := registered_of_entered he ht
  unfold afterSave
  split
  · rename_i hp
    exact .tail (.tail (.tail (reaches_commit he hv) (.save hne hp) rfl) (.saved ht (hs hp)) rfl)
      (.update ht hr) rfl
  · rename_i hp
    rw [Bool.not_eq_true] at hp
    exact .tail (.tail (reaches_commit he hv) (.noStore hne hp) rfl) (.update ht hr) rfl

/-! ## The simulation -/

/-- The await points of `commit` at which it holds the values of its device. -/
def Pc.committing : Pc → Option RegisteredDevice
  | .saving r .. | .confirmSaved r .. | .advance r .. => some r
  | _ => none

/-- The await points at which the save of a commit has been made. -/
def Pc.saved : Pc → Bool
  | .confirmSaved .. | .advance .. => true
  | _ => false

/-- The registration whose values a call has changed without a revision yet. -/
def Pc.updated : Pc → Option Ref
  | .advance r .. => some r.ref
  | _ => none

/-- What a commit has done in `sh` that the serial run has not done in `sh'`. -/
def Pending (sh sh' : Shared) (call : Call) : Pc → Prop
  | .confirmSaved _ _ _ next => sh.persistent = true → ∀ d cid, call.op.target = some (d, cid) →
      sh.store d = some next
  | .advance r c v => ∃ next, Differs (sh'.values r.ref) c v next ∧
      sh.values r.ref = ⟨(sh'.values r.ref).current.insert c.id v, next⟩ ∧
      (sh.persistent = true → call.saved = .ok () ∧ ∀ d cid, call.op.target = some (d, cid) →
        sh.store d = some next)
  | _ => True

structure Sim (s t : Sys) : Prop where
  quiet : t.Quiet
  calls : ∀ k : CallId, (∀ call pc, s.calls[k]? ≠ some (.running call pc)) →
    t.calls[k]? = s.calls[k]?
  running : ∀ (k : CallId) (call : Call) (pc : Pc), s.calls[k]? = some (.running call pc) →
    k ∉ t.calls ∧ call.op.data = true
  persistent : t.shared.persistent = s.shared.persistent
  state : t.shared.state = s.shared.state
  nextRef : t.shared.nextRef = s.shared.nextRef
  values : ∀ ref : Ref, (∀ (k : CallId) (call : Call) (pc : Pc),
    s.calls[k]? = some (.running call pc) → pc.updated ≠ some ref) →
    t.shared.values ref = s.shared.values ref
  store : ∀ d : DeviceId, (s.shared.persistent = true → ∀ (k : CallId) (call : Call) (pc : Pc),
    s.calls[k]? = some (.running call pc) → pc.saved = true →
    ∀ cid, call.op.target ≠ some (d, cid)) → t.shared.store d = s.shared.store d
  pending : ∀ (k : CallId) (call : Call) (pc : Pc), s.calls[k]? = some (.running call pc) →
    Pending s.shared t.shared call pc
  changes : changes t.history = changes s.history

theorem holds_of_committing {op : Op} {pc : Pc} {r : RegisteredDevice}
    (h : pc.committing = some r) : Lock.values r.ref ∈ pc.holds op := by
  cases pc <;> simp_all [Pc.committing, Pc.holds]

theorem entered_of_committing {sh : Shared} {call : Call} {pc : Pc} {r : RegisteredDevice}
    (hpc : PcOk sh call pc) (h : pc.committing = some r) : ∃ c, Entered sh call.op r c := by
  cases pc with
  | saving r' c v next | confirmSaved r' c v next | advance r' c v =>
    rw [Pc.committing, Option.some.injEq] at h
    exact ⟨c, h ▸ hpc.1⟩
  | _ => simp [Pc.committing] at h

theorem committing_of_saved {pc : Pc} (h : pc.saved = true) : ∃ r, pc.committing = some r := by
  cases pc <;> simp_all [Pc.saved, Pc.committing]

theorem committing_of_updated {pc : Pc} {ref : Ref} (h : pc.updated = some ref) :
    ∃ r, pc.committing = some r ∧ r.ref = ref := by
  cases pc <;> simp_all [Pc.updated, Pc.committing]

/-- Two commits at once are on different devices. -/
theorem committing_ne {s : Sys} (hok : s.Ok) {j k : CallId} (hjk : j ≠ k) {call call' : Call}
    {pc pc' : Pc} {r r' : RegisteredDevice} (hj : s.calls[j]? = some (.running call pc))
    (hk : s.calls[k]? = some (.running call' pc')) (hr : pc.committing = some r)
    (hr' : pc'.committing = some r') : r.ref ≠ r'.ref ∧
      ∀ d cid cid', call.op.target = some (d, cid) → call'.op.target ≠ some (d, cid') := by
  have hne : r.ref ≠ r'.ref := by
    intro heq
    have := hok.exclusive j k _ _ hjk hj hk _ (holds_of_committing hr) _ (holds_of_committing hr')
    simp [Lock.excludes, heq] at this
  refine ⟨hne, fun d cid cid' ht ht' => ?_⟩
  obtain ⟨c, he⟩ := entered_of_committing (hok.pc j call pc hj) hr
  obtain ⟨c', he'⟩ := entered_of_committing (hok.pc k call' pc' hk) hr'
  obtain ⟨-, x, hx, hxr⟩ := registered_of_entered he ht
  obtain ⟨-, y, hy, hyr⟩ := registered_of_entered he' ht'
  rw [hx, Option.some.injEq] at hy
  exact hne (by rw [← hxr, ← hyr, hy])

/-- Who has the values of a device locked, and has not changed them, sees those of the serial
    run. -/
theorem sim_values {s t : Sys} (hok : s.Ok) (hsim : Sim s t) {k : CallId} {call : Call} {pc : Pc}
    {r : RegisteredDevice} (hk : s.calls[k]? = some (.running call pc))
    (hr : pc.committing = some r) (hu : pc.updated = none) :
    t.shared.values r.ref = s.shared.values r.ref := by
  refine hsim.values r.ref fun j call' pc' hj hup => ?_
  obtain ⟨rfl, rfl, rfl⟩ | hjk := running_cases hk hj
  · simp [hu] at hup
  · obtain ⟨r', hr', href⟩ := committing_of_updated hup
    exact (committing_ne hok hjk hj hk hr' hr).1 href

/-- So does who finds the lock free. -/
theorem sim_values_free {s t : Sys} (hsim : Sim s t) {ref : Ref}
    (hf : s.free (.values ref) = true) : t.shared.values ref = s.shared.values ref := by
  refine hsim.values ref fun j call' pc' hj hup => ?_
  obtain ⟨r', hr', rfl⟩ := committing_of_updated hup
  have := free_iff.mp hf j _ hj _ (holds_of_committing hr')
  simp [Lock.excludes] at this

/-- The other calls of a state in which the thread of `k` is replaced. -/
theorem running_insert {s s' : Sys} {k : CallId} {u : Thread}
    (hcalls : s'.calls = s.calls.insert k u) {j : CallId} {call : Call} {pc : Pc}
    (hj : s'.calls[j]? = some (.running call pc)) :
    (j = k ∧ u = .running call pc) ∨ (j ≠ k ∧ s.calls[j]? = some (.running call pc)) := by
  rw [hcalls, getElem?_insert] at hj
  split at hj
  · rename_i h
    exact .inl ⟨h.symm, Option.some.inj hj⟩
  · rename_i h
    exact .inr ⟨Ne.symm h, hj⟩

theorem insert_of_ne {s s' : Sys} {k : CallId} {u : Thread}
    (hcalls : s'.calls = s.calls.insert k u) {j : CallId} (hjk : j ≠ k) :
    s'.calls[j]? = s.calls[j]? := by
  rw [hcalls, getElem?_insert, if_neg (Ne.symm hjk)]

/-- A step of `k` to another await point, seen from the serial run: the values and the records may
    change where `k` is now the one that has changed them. -/
theorem sim_goto {s s' t : Sys} (hsim : Sim s t) {k : CallId} {call : Call} {pc pc' : Pc}
    (hk : s.calls[k]? = some (.running call pc))
    (hcalls : s'.calls = s.calls.insert k (.running call pc'))
    (hp : s'.shared.persistent = s.shared.persistent) (hst : s'.shared.state = s.shared.state)
    (hn : s'.shared.nextRef = s.shared.nextRef) (hch : changes s'.history = changes s.history)
    (hvalues : ∀ ref : Ref, (∀ (j : CallId) (call : Call) (pc : Pc),
      s'.calls[j]? = some (.running call pc) → pc.updated ≠ some ref) →
      t.shared.values ref = s'.shared.values ref)
    (hstore : ∀ d : DeviceId, (s.shared.persistent = true → ∀ (j : CallId) (call : Call) (pc : Pc),
      s'.calls[j]? = some (.running call pc) → pc.saved = true →
      ∀ cid, call.op.target ≠ some (d, cid)) → t.shared.store d = s'.shared.store d)
    (hother : ∀ (j : CallId) (call' : Call) (pc'' : Pc), j ≠ k →
      s.calls[j]? = some (.running call' pc'') → Pending s'.shared t.shared call' pc'')
    (hmine : Pending s'.shared t.shared call pc') : Sim s' t where
  quiet := hsim.quiet
  calls := by
    intro j hj
    by_cases hjk : j = k
    · subst hjk
      exact absurd (by rw [hcalls, getElem?_insert, if_pos rfl]) (hj call pc')
    · rw [insert_of_ne hcalls hjk] at hj ⊢
      exact hsim.calls j hj
  running := by
    intro j call' pc'' hj
    obtain ⟨rfl, hu⟩ | ⟨-, hj⟩ := running_insert hcalls hj
    · obtain ⟨rfl, -⟩ := Thread.running.inj hu
      exact hsim.running j call pc hk
    · exact hsim.running j call' pc'' hj
  persistent := hsim.persistent.trans hp.symm
  state := hsim.state.trans hst.symm
  nextRef := hsim.nextRef.trans hn.symm
  values := hvalues
  store := fun d hd => hstore d fun h => hd (hp ▸ h)
  pending := by
    intro j call' pc'' hj
    obtain ⟨rfl, hu⟩ | ⟨hjk, hj⟩ := running_insert hcalls hj
    · obtain ⟨rfl, rfl⟩ := Thread.running.inj hu
      exact hmine
    · exact hother j call' pc'' hjk hj
  changes := hsim.changes.trans hch.symm

/-- The await points before `commit` has saved anything. -/
def Pc.early (pc : Pc) : Prop := pc.saved = false ∧ pc.updated = none

theorem pending_of_early {pc : Pc} (h : pc.early) (sh sh' : Shared) (call : Call) :
    Pending sh sh' call pc := by
  obtain ⟨h, -⟩ := h
  cases pc <;> simp_all [Pc.saved, Pending]

/-- A step without an effect, before the call has saved anything. -/
theorem sim_early {s s' t : Sys} (hsim : Sim s t) {k : CallId} {call : Call} {pc pc' : Pc}
    (hk : s.calls[k]? = some (.running call pc)) (he : pc.early) (he' : pc'.early)
    (hcalls : s'.calls = s.calls.insert k (.running call pc')) (hsh : s'.shared = s.shared)
    (hch : changes s'.history = changes s.history) : Sim s' t := by
  have hback : ∀ (j : CallId) (call' : Call) (pc'' : Pc),
      s.calls[j]? = some (.running call' pc'') → pc''.early ∨
        s'.calls[j]? = some (.running call' pc'') := by
    intro j call' pc'' hj
    obtain ⟨rfl, rfl, rfl⟩ | hjk := running_cases hk hj
    · exact .inl he
    · exact .inr (insert_of_ne hcalls hjk ▸ hj)
  refine sim_goto hsim hk hcalls (by rw [hsh]) (by rw [hsh]) (by rw [hsh]) hch ?_ ?_ ?_
    (pending_of_early he' _ _ _)
  · intro ref href
    rw [hsh]
    refine hsim.values ref fun j call' pc'' hj => ?_
    rcases hback j call' pc'' hj with h | h
    · simp [h.2]
    · exact href j call' pc'' h
  · intro d hd
    rw [hsh]
    refine hsim.store d fun hp j call' pc'' hj hs => ?_
    rcases hback j call' pc'' hj with h | h
    · simp [h.1] at hs
    · exact hd hp j call' pc'' h hs
  · intro j call' pc'' _ hj
    rw [hsh]
    exact hsim.pending j call' pc'' hj

/-- What a commit has done is not touched by a commit on another device. -/
theorem pending_congr {sh sh₁ t t₁ : Shared} {call : Call} {pc : Pc} (h : Pending sh t call pc)
    (hp : sh₁.persistent = sh.persistent)
    (hv : ∀ r, pc.committing = some r → sh₁.values r.ref = sh.values r.ref)
    (ht : ∀ r, pc.committing = some r → t₁.values r.ref = t.values r.ref)
    (hs : ∀ d cid, call.op.target = some (d, cid) → pc.saved = true → sh₁.store d = sh.store d) :
    Pending sh₁ t₁ call pc := by
  cases pc with
  | confirmSaved r c v next =>
    intro hp' d cid hd
    rw [hs d cid hd rfl]
    exact h (hp ▸ hp') d cid hd
  | advance r c v =>
    obtain ⟨next, h1, h2, h3⟩ := h
    refine ⟨next, ?_, ?_, fun hp' => ⟨(h3 (hp ▸ hp')).1, fun d cid hd => ?_⟩⟩
    · rw [ht r rfl]
      exact h1
    · rw [hv r rfl, ht r rfl, h2]
    · rw [hs d cid hd rfl]
      exact (h3 (hp ▸ hp')).2 d cid hd
  | _ => trivial

/-- `commit` without a store goes on without a save. -/
theorem sim_noStore {s s' t : Sys} (hsim : Sim s t) {k : CallId} {call : Call}
    {r : RegisteredDevice} {c : Capability} {v : Value} {next : Record}
    (hk : s.calls[k]? = some (.running call (.commit r c v)))
    (hp : s.shared.persistent = false)
    (hcalls : s'.calls = s.calls.insert k (.running call (.confirmSaved r c v next)))
    (hsh : s'.shared = s.shared) (hch : changes s'.history = changes s.history) : Sim s' t := by
  refine sim_goto hsim hk hcalls (by rw [hsh]) (by rw [hsh]) (by rw [hsh]) hch ?_ ?_ ?_ ?_
  · intro ref href
    rw [hsh]
    refine hsim.values ref fun j call' pc'' hj => ?_
    obtain ⟨rfl, rfl, rfl⟩ | hjk := running_cases hk hj
    · simp [Pc.updated]
    · exact href j call' pc'' (insert_of_ne hcalls hjk ▸ hj)
  · intro d _
    rw [hsh]
    exact hsim.store d fun h => absurd h (by simp [hp])
  · intro j call' pc'' _ hj
    rw [hsh]
    exact hsim.pending j call' pc'' hj
  · intro h
    simp [hsh, hp] at h

/-- `commit` has saved the record. -/
theorem sim_saved {s s' t : Sys} (hok : s.Ok) (hsim : Sim s t) {k : CallId} {call : Call}
    {r : RegisteredDevice} {c : Capability} {v : Value} {next : Record} {d : DeviceId}
    {cid : CapabilityId} (hk : s.calls[k]? = some (.running call (.saving r c v next)))
    (ht : call.op.target = some (d, cid))
    (hcalls : s'.calls = s.calls.insert k (.running call (.confirmSaved r c v next)))
    (hsh : s'.shared = (Effect.save d next).apply s.shared)
    (hch : changes s'.history = changes s.history) : Sim s' t := by
  have hp : s.shared.persistent = true := (hok.pc k call _ hk).2.2.2
  have hnew : s'.calls[k]? = some (.running call (.confirmSaved r c v next)) := by
    rw [hcalls, getElem?_insert, if_pos rfl]
  have hstore : ∀ d', d' ≠ d → s'.shared.store d' = s.shared.store d' := by
    intro d' hd'
    rw [hsh]
    exact Function.update_of_ne hd' _ _
  refine sim_goto hsim hk hcalls (by rw [hsh]; rfl) (by rw [hsh]; rfl) (by rw [hsh]; rfl) hch
    ?_ ?_ ?_ ?_
  · intro ref href
    have hval : s'.shared.values ref = s.shared.values ref := by rw [hsh]; rfl
    rw [hval]
    refine hsim.values ref fun j call' pc'' hj => ?_
    obtain ⟨rfl, rfl, rfl⟩ | hjk := running_cases hk hj
    · simp [Pc.updated]
    · exact href j call' pc'' (insert_of_ne hcalls hjk ▸ hj)
  · intro d' hd'
    have hne : d' ≠ d := fun h => hd' hp k call _ hnew rfl cid (h ▸ ht)
    rw [hstore d' hne]
    refine hsim.store d' fun _ j call' pc'' hj hs => ?_
    obtain ⟨rfl, rfl, rfl⟩ | hjk := running_cases hk hj
    · simp [Pc.saved] at hs
    · exact hd' hp j call' pc'' (insert_of_ne hcalls hjk ▸ hj) hs
  · intro j call' pc'' hjk hj
    refine pending_congr (hsim.pending j call' pc'' hj) (by rw [hsh]; rfl)
      (fun _ _ => by rw [hsh]; rfl) (fun _ _ => rfl) fun d' cid' ht' hs => ?_
    obtain ⟨r', hr'⟩ := committing_of_saved hs
    refine hstore d' fun h => ?_
    exact (committing_ne hok hjk hj hk hr' rfl).2 d' cid' cid ht' (h ▸ ht)
  · intro _ d' cid' ht'
    rw [ht, Option.some.injEq, Prod.mk.injEq] at ht'
    rw [hsh, ← ht'.1]
    exact Function.update_self _ _ _

/-- `commit` has changed the values. -/
theorem sim_update {s s' t : Sys} (hok : s.Ok) (hsim : Sim s t) {k : CallId} {call : Call}
    {r : RegisteredDevice} {c : Capability} {v : Value} {next : Record}
    (hk : s.calls[k]? = some (.running call (.confirmSaved r c v next)))
    (hcalls : s'.calls = s.calls.insert k (.running call (.advance r c v)))
    (hsh : s'.shared = (Effect.update r.ref
      ⟨(s.shared.values r.ref).current.insert c.id v, next⟩).apply s.shared)
    (hch : changes s'.history = changes s.history) : Sim s' t := by
  have hnew : s'.calls[k]? = some (.running call (.advance r c v)) := by
    rw [hcalls, getElem?_insert, if_pos rfl]
  have hvals : ∀ ref, ref ≠ r.ref → s'.shared.values ref = s.shared.values ref := by
    intro ref href
    rw [hsh]
    exact Function.update_of_ne href _ _
  obtain ⟨-, -, hdiff, hsaved⟩ := hok.pc k call _ hk
  have hsame := sim_values hok hsim hk rfl rfl
  refine sim_goto hsim hk hcalls (by rw [hsh]; rfl) (by rw [hsh]; rfl) (by rw [hsh]; rfl) hch
    ?_ ?_ ?_ ?_
  · intro ref href
    have hne : ref ≠ r.ref := fun h => href k call _ hnew (by rw [Pc.updated, h])
    rw [hvals ref hne]
    refine hsim.values ref fun j call' pc'' hj => ?_
    obtain ⟨rfl, rfl, rfl⟩ | hjk := running_cases hk hj
    · simp [Pc.updated]
    · exact href j call' pc'' (insert_of_ne hcalls hjk ▸ hj)
  · intro d hd
    have hst : s'.shared.store d = s.shared.store d := by rw [hsh]; rfl
    rw [hst]
    refine hsim.store d fun hp j call' pc'' hj hs => ?_
    obtain ⟨rfl, rfl, rfl⟩ | hjk := running_cases hk hj
    · exact hd hp j call _ hnew rfl
    · exact hd hp j call' pc'' (insert_of_ne hcalls hjk ▸ hj) hs
  · intro j call' pc'' hjk hj
    refine pending_congr (hsim.pending j call' pc'' hj) (by rw [hsh]; rfl) (fun r' hr' => ?_)
      (fun _ _ => rfl) (fun _ _ _ _ => by rw [hsh]; rfl)
    exact hvals r'.ref (committing_ne hok hjk hj hk hr' rfl).1
  · refine ⟨next, hsame ▸ hdiff, ?_, fun hp => ?_⟩
    · rw [hsame, hsh]
      exact Function.update_self _ _ _
    · have hp' : s.shared.persistent = true := by rw [hsh] at hp; exact hp
      refine ⟨hsaved hp', fun d cid ht => ?_⟩
      rw [hsh]
      exact hsim.pending k call _ hk hp' d cid ht

/-! ## A call that returns -/

/-- A return of `k` in the machine and in the serial run. -/
theorem sim_return {s s' t t' : Sys} (hsim : Sim s t) {k : CallId} {call : Call} {pc : Pc}
    {o : Outcome} (hk : s.calls[k]? = some (.running call pc))
    (hcalls : s'.calls = s.calls.insert k (.returned call o))
    (hcalls' : t'.calls = t.calls.insert k (.returned call o))
    (hp : t'.shared.persistent = s'.shared.persistent)
    (hps : s'.shared.persistent = s.shared.persistent)
    (hst : t'.shared.state = s'.shared.state) (hn : t'.shared.nextRef = s'.shared.nextRef)
    (hch : changes t'.history = changes s'.history)
    (hvalues : ∀ ref : Ref, (∀ (j : CallId) (call : Call) (pc : Pc), j ≠ k →
      s.calls[j]? = some (.running call pc) → pc.updated ≠ some ref) →
      t'.shared.values ref = s'.shared.values ref)
    (hstore : ∀ d : DeviceId, (s.shared.persistent = true → ∀ (j : CallId) (call : Call) (pc : Pc),
      j ≠ k → s.calls[j]? = some (.running call pc) → pc.saved = true →
      ∀ cid, call.op.target ≠ some (d, cid)) → t'.shared.store d = s'.shared.store d)
    (hother : ∀ (j : CallId) (call' : Call) (pc'' : Pc), j ≠ k →
      s.calls[j]? = some (.running call' pc'') → Pending s'.shared t'.shared call' pc'') :
    Sim s' t' := by
  have hrun : ∀ {j : CallId} {call' : Call} {pc' : Pc},
      s'.calls[j]? = some (.running call' pc') → j ≠ k ∧ s.calls[j]? = some (.running call' pc') := by
    intro j call' pc' hj
    obtain ⟨-, hu⟩ | h := running_insert hcalls hj
    · exact Thread.noConfusion hu
    · exact h
  refine ⟨?_, ?_, ?_, hp, hst, hn, ?_, ?_, ?_, hch⟩
  · intro j call' pc' hj
    obtain ⟨-, hu⟩ | h := running_insert hcalls' hj
    · exact Thread.noConfusion hu
    · exact hsim.quiet j call' pc' h.2
  · intro j hj
    by_cases hjk : j = k
    · subst hjk
      simp only [hcalls, hcalls', getElem?_insert, if_true]
    · rw [insert_of_ne hcalls hjk] at hj ⊢
      rw [insert_of_ne hcalls' hjk]
      exact hsim.calls j hj
  · intro j call' pc' hj
    obtain ⟨hjk, hj⟩ := hrun hj
    obtain ⟨h1, h2⟩ := hsim.running j call' pc' hj
    refine ⟨fun h => h1 ?_, h2⟩
    rw [hcalls', Std.ExtTreeMap.mem_insert] at h
    exact h.resolve_left fun h => hjk (Std.LawfulEqOrd.eq_of_compare h).symm
  · intro ref href
    refine hvalues ref fun j call' pc' hjk hj => href j call' pc' ?_
    rw [insert_of_ne hcalls hjk]
    exact hj
  · intro d hd
    refine hstore d fun hp' j call' pc' hjk hj => hd (hps ▸ hp') j call' pc' ?_
    rw [insert_of_ne hcalls hjk]
    exact hj
  · intro j call' pc' hj
    obtain ⟨hjk, hj⟩ := hrun hj
    exact hother j call' pc' hjk hj

/-- A call without an effect that returns before it has saved anything. -/
theorem sim_return_early {s s' t t' : Sys} (hsim : Sim s t) {k : CallId} {call : Call} {pc : Pc}
    {o : Outcome} (hk : s.calls[k]? = some (.running call pc)) (he : pc.early)
    (hcalls : s'.calls = s.calls.insert k (.returned call o))
    (hcalls' : t'.calls = t.calls.insert k (.returned call o)) (hsh : s'.shared = s.shared)
    (hsh' : t'.shared = t.shared) (hch : changes s'.history = changes s.history)
    (hch' : changes t'.history = changes t.history) : Sim s' t' := by
  refine sim_return hsim hk hcalls hcalls' ?_ (by rw [hsh]) ?_ ?_ ?_ ?_ ?_ ?_
  · rw [hsh, hsh', hsim.persistent]
  · rw [hsh, hsh', hsim.state]
  · rw [hsh, hsh', hsim.nextRef]
  · rw [hch, hch', hsim.changes]
  · intro ref href
    rw [hsh, hsh']
    refine hsim.values ref fun j call' pc' hj => ?_
    obtain ⟨rfl, rfl, rfl⟩ | hjk := running_cases hk hj
    · simp [he.2]
    · exact href j call' pc' hjk hj
  · intro d hd
    rw [hsh, hsh']
    refine hsim.store d fun hp j call' pc' hj hs => ?_
    obtain ⟨rfl, rfl, rfl⟩ | hjk := running_cases hk hj
    · simp [he.1] at hs
    · exact hd hp j call' pc' hjk hj hs
  · intro j call' pc' _ hj
    rw [hsh, hsh']
    exact hsim.pending j call' pc' hj

/-- The serial run of a call that ends in an error. -/
theorem run_alone_fail {t : Sys} (hq : t.Quiet) {k : CallId} {call : Call} {pc₀ pc : Pc}
    {sh : Shared} {e : RuntimeError} (hk : k ∉ t.calls) (hb : begin call = .ok pc₀)
    (h : Reaches call t.shared pc₀ sh pc) (hf : body sh call pc = some (.error e)) :
    ∃ n t', run t (alone k call n) = some t' ∧ t'.shared = sh ∧
      t'.calls = t.calls.insert k (.returned call (.error e)) ∧
      changes t'.history = changes t.history := by
  obtain ⟨n, t', hrun, rfl, hcalls, hch⟩ := run_reaches hq hk hb h
  have hthread : t'.calls[k]? = some (.running call pc) := by
    rw [hcalls, getElem?_insert, if_pos rfl]
  have hstep := step_fail hthread (ready_of_quiet hq hcalls) hf
  have hrun' := alone_succ k call n ▸ Machine.run_snoc_eq_some.mpr ⟨t', hrun, hstep⟩
  refine ⟨n + 1, _, hrun', rfl, ?_, ?_⟩
  · simp only [hcalls, insert_insert]
  · simp [hch]

/-- The serial run of a call that returns. -/
theorem run_alone_ret {t : Sys} (hq : t.Quiet) {k : CallId} {call : Call} {pc₀ pc : Pc}
    {sh : Shared} {e : Effect} {reply : Reply} (hk : k ∉ t.calls) (hb : begin call = .ok pc₀)
    (h : Reaches call t.shared pc₀ sh pc) (hm : Move sh call pc e (.ret reply)) :
    ∃ n t', run t (alone k call n) = some t' ∧ t'.shared = e.apply sh ∧
      t'.calls = t.calls.insert k (.returned call (.ok reply)) ∧
      changes t'.history = changes t.history ++ changes (e.observe sh) := by
  obtain ⟨n, t', hrun, rfl, hcalls, hch⟩ := run_reaches hq hk hb h
  obtain ⟨t'', hrun', hsh, hcalls', hh⟩ := run_alone_succ hq hrun hcalls hm
  have hret : changes ((Next.ret reply).observe k call.op pc) = [] := rfl
  exact ⟨n + 1, t'', hrun', hsh, hcalls', by simp [hh, hch, hret]⟩

/-- What a call that has saved nothing does next depends only on what the serial run agrees on. -/
theorem body_congr {sh sh' : Shared} {call : Call} {pc : Pc} (hd : call.op.data = true)
    (hpc : PcOk sh call pc) (hs : pc.saved = false) (hst : sh'.state = sh.state)
    (hp : sh'.persistent = sh.persistent)
    (hv : ∀ ref, pc.needs call.op = some (.values ref) → sh'.values ref = sh.values ref) :
    body sh' call pc = body sh call pc := by
  cases pc with
  | enter =>
    cases hop : call.op <;>
      simp_all [body, enterRead, enterWriteValue, enterPublish, Op.data]
  | readValues r => simp only [body, hv r.ref rfl]
  | confirm r c => simp only [body, hst]
  | commit r c v => simp only [body, hv r.ref rfl, hp]
  | confirmSaved r c v next | advance r c v => simp [Pc.saved] at hs
  | lifecycle | commandSerial r c | handling r c | saving r c v next | unregisterSerial r => rfl
  | loading | savingInitial values =>
    obtain ⟨d, handler, hop, -⟩ := hpc
    simp [hop, Op.data] at hd
  | insert values =>
    obtain ⟨d, handler, hop, -⟩ := hpc
    simp [hop, Op.data] at hd
  | remove r =>
    obtain ⟨d, hop, -⟩ := hpc
    simp [hop, Op.data] at hd
  | snapshotState | snapshotValues s r todo =>
    simp [show call.op = .snapshot from hpc, Op.data] at hd
  | cancelState =>
    obtain ⟨topic, id, hop⟩ := hpc
    simp [hop, Op.data] at hd

/-- A commit that has saved its record does not fail. -/
theorem body_saved {sh : Shared} {call : Call} {pc : Pc} {e : RuntimeError}
    (hpc : PcOk sh call pc) (hb : body sh call pc = some (.error e)) : pc.saved = false := by
  cases pc with
  | confirmSaved r c v next =>
    obtain ⟨d, cid, ht, -⟩ := lookup_of_entered hpc.1
    have hr : confirmRegistration sh.state d r = .ok () :=
      confirmRegistration_ok.mpr (registered_of_entered hpc.1 ht)
    simp [body, ht, hr, bind, Except.bind] at hb
  | advance r c v =>
    simp only [body] at hb
    split at hb <;> simp at hb
  | _ => rfl

/-- The serial run agrees on what the locks of a call protect, until the call has changed the
    values itself. -/
theorem sim_agree {s t : Sys} (hok : s.Ok) (hsim : Sim s t) {k : CallId} {call : Call} {pc : Pc}
    (hk : s.calls[k]? = some (.running call pc)) (hu : pc.updated = none) :
    Agree s.shared t.shared call.op pc := by
  refine ⟨hsim.persistent, fun _ _ _ => by rw [hsim.state]; exact ⟨rfl, rfl⟩, fun ref hl => ?_⟩
  have hc : ∃ r, pc.committing = some r ∧ r.ref = ref := by
    have hno := not_values_lifecycle call.op ref
    cases pc <;> simp_all [Pc.holds, Pc.committing]
  obtain ⟨r, hr, rfl⟩ := hc
  exact sim_values hok hsim hk hr hu

theorem updated_of_saved {pc : Pc} (h : pc.saved = false) : pc.updated = none := by
  cases pc <;> simp_all [Pc.saved, Pc.updated]

/-- A call that fails in the machine fails alone, with the same error. -/
theorem sim_fail {s t : Sys} (hok : s.Ok) (hsim : Sim s t) {k : CallId} {call : Call} {pc : Pc}
    {e : RuntimeError} (hk : s.calls[k]? = some (.running call pc)) (hr : s.ready call pc = true)
    (hb : body s.shared call pc = some (.error e)) :
    ∃ n t', run t (alone k call n) = some t' ∧
      Sim { s with
        calls := s.calls.insert k (.returned call (.error e))
        history := s.history ++ [.returned k (.error e)] } t' := by
  obtain ⟨hnew, hd⟩ := hsim.running k call pc hk
  have hpc := hok.pc k call pc hk
  have hs := body_saved hpc hb
  have hpc' := pcOk_congr (sim_agree hok hsim hk (updated_of_saved hs)) hpc
  have hreach := reaches_of_pcOk hd hpc' (by rintro _ _ _ _ rfl; simp [Pc.saved] at hs)
    (by rintro _ _ _ rfl; simp [Pc.saved] at hs)
  have hb' : body t.shared call pc = some (.error e) := by
    rw [← hb]
    refine body_congr hd hpc hs hsim.state hsim.persistent fun ref hn => ?_
    exact sim_values_free hsim (ready_free hr hn)
  obtain ⟨n, t', hrun, hsh, hcalls, hch⟩ :=
    run_alone_fail hsim.quiet hnew (begin_data hd) hreach hb'
  exact ⟨n, t', hrun, sim_return_early hsim hk ⟨hs, updated_of_saved hs⟩ rfl hcalls rfl hsh
    (by simp) hch⟩

/-- A commit that returns in the machine makes the same commit alone. -/
theorem sim_commit {s t : Sys} (hok : s.Ok) (hsim : Sim s t) {k : CallId} {call : Call}
    {r : RegisteredDevice} {c : Capability} {v : Value} {d : DeviceId} {cid : CapabilityId}
    (hk : s.calls[k]? = some (.running call (.advance r c v)))
    (ht : call.op.target = some (d, cid)) {h : List Obs}
    (hh : changes h = changes s.history ++
      changes ((Effect.commit d r c v call.now).observe s.shared)) :
    ∃ n t', run t (alone k call n) = some t' ∧
      Sim { s with
        shared := (Effect.commit d r c v call.now).apply s.shared
        calls := s.calls.insert k (.returned call (.ok (call.op.committed v)))
        history := h } t' := by
  obtain ⟨hnew, hd⟩ := hsim.running k call _ hk
  obtain ⟨he, hv⟩ := hok.pc k call _ hk
  obtain ⟨next, hdiff, hvals, hsaved⟩ := hsim.pending k call _ hk
  have he' : Entered t.shared call.op r c :=
    entered_congr (by rw [hsim.state]) (by rw [hsim.state]) he
  have hp := hsim.persistent
  have hreach := reaches_advance he' hv hdiff (fun h => (hsaved (hp ▸ h)).1) ht
  obtain ⟨n, t', hrun, hsh, hcalls, hch⟩ :=
    run_alone_ret hsim.quiet hnew (begin_data hd) hreach (.commit ht)
  have hstate : t'.shared.state = ((Effect.commit d r c v call.now).apply s.shared).state := by
    rw [hsh]
    exact commit_state ((afterSave_state t.shared d next).trans hsim.state)
  have htv : ∀ ref, ref ≠ r.ref → t'.shared.values ref = t.shared.values ref := by
    intro ref href
    rw [hsh]
    exact (Function.update_of_ne href _ _).trans (by rw [afterSave_values])
  have htr : t'.shared.values r.ref = s.shared.values r.ref := by
    rw [hsh, hvals]
    exact Function.update_self _ _ _
  refine ⟨n, t', hrun, sim_return hsim hk rfl hcalls ?_ rfl hstate ?_ ?_ ?_ ?_ ?_⟩
  · rw [hsh, apply_persistent, apply_persistent, afterSave_persistent, hp]
    rfl
  · rw [hsh]
    exact (afterSave_nextRef _ _ _).trans hsim.nextRef
  · rw [hch, hh, hsim.changes]
    congr 1
    exact commit_changes ((afterSave_state _ _ _).trans hsim.state)
  · intro ref href
    by_cases hr : ref = r.ref
    · exact hr ▸ htr
    · rw [htv ref hr]
      refine hsim.values ref fun j call' pc' hj => ?_
      obtain ⟨rfl, rfl, rfl⟩ | hjk := running_cases hk hj
      · simpa [Pc.updated] using Ne.symm hr
      · exact href j call' pc' hjk hj
  · intro d' hd'
    have hts : t'.shared.store d' = (afterSave t.shared d next).store d' := by rw [hsh]; rfl
    rw [hts]
    unfold afterSave
    split
    · rename_i hpt
      by_cases hdd : d' = d
      · subst hdd
        exact (Function.update_self _ _ _).trans ((hsaved (hp ▸ hpt)).2 d' cid ht).symm
      · refine (Function.update_of_ne hdd _ _).trans (hsim.store d' fun hps j call' pc' hj hs => ?_)
        obtain ⟨rfl, rfl, rfl⟩ | hjk := running_cases hk hj
        · intro cid' ht'
          rw [ht, Option.some.injEq, Prod.mk.injEq] at ht'
          exact hdd ht'.1.symm
        · exact hd' hps j call' pc' hjk hj hs
    · rename_i hpt
      exact hsim.store d' fun hps => absurd (hp.trans hps) hpt
  · intro j call' pc' hjk hj
    refine pending_congr (hsim.pending j call' pc' hj) rfl (fun _ _ => rfl) (fun r' hr' => ?_)
      (fun _ _ _ _ => rfl)
    exact htv r'.ref (committing_ne hok hjk hj hk hr' rfl).1

/-- A call that returns without a commit returns the same alone. -/
theorem sim_plain {s t : Sys} (hok : s.Ok) (hsim : Sim s t) {k : CallId} {call : Call} {pc : Pc}
    {reply : Reply} (hk : s.calls[k]? = some (.running call pc)) (hs : pc.saved = false)
    (hm : Move t.shared call pc .none (.ret reply)) {h : List Obs}
    (hh : changes h = changes s.history) :
    ∃ n t', run t (alone k call n) = some t' ∧
      Sim { s with
        calls := s.calls.insert k (.returned call (.ok reply))
        history := h } t' := by
  obtain ⟨hnew, hd⟩ := hsim.running k call pc hk
  have hpc' := pcOk_congr (sim_agree hok hsim hk (updated_of_saved hs)) (hok.pc k call pc hk)
  have hreach := reaches_of_pcOk hd hpc' (by rintro _ _ _ _ rfl; simp [Pc.saved] at hs)
    (by rintro _ _ _ rfl; simp [Pc.saved] at hs)
  obtain ⟨n, t', hrun, hsh, hcalls, hch⟩ :=
    run_alone_ret hsim.quiet hnew (begin_data hd) hreach hm
  exact ⟨n, t', hrun, sim_return_early hsim hk ⟨hs, updated_of_saved hs⟩ rfl hcalls rfl hsh
    hh (by simpa [Effect.observe] using hch)⟩

/-! ## Runs -/

def Obs.invocation? : Obs → Option (CallId × Call)
  | .invoked k call => some (k, call)
  | _ => none

def Obs.return? : Obs → Option CallId
  | .returned k _ => some k
  | _ => none

/-- The calls made, in order. -/
def invocations (h : List Obs) : List (CallId × Call) := h.filterMap Obs.invocation?

/-- The calls that returned, in order. -/
def returns (h : List Obs) : List CallId := h.filterMap Obs.return?

@[simp] theorem invocations_append (h m : List Obs) :
    invocations (h ++ m) = invocations h ++ invocations m := List.filterMap_append

@[simp] theorem returns_append (h m : List Obs) : returns (h ++ m) = returns h ++ returns m :=
  List.filterMap_append

/-- The steps of `read`, `write_value` and `publish` calls. -/
def Action.data : Action → Bool
  | .invoke _ call => call.op.data
  | .advance _ => true
  | _ => false

/-- How the serial run `t` follows a step from `s` to `s'`. -/
inductive Follows (s t : Sys) : Action → Sys → Sys → Prop where
  | invoke {k : CallId} {call : Call} {s' : Sys} (hk : k ∉ s.calls) (hd : call.op.data = true)
    (hcalls : s'.calls = s.calls.insert k (.running call .lifecycle))
    (hh : s'.history = s.history ++ [.invoked k call]) : Follows s t (.invoke k call) s' t
  | stay {k : CallId} {call : Call} {pc pc' : Pc} {s' : Sys} {m : List Obs}
    (hk : s.calls[k]? = some (.running call pc))
    (hcalls : s'.calls = s.calls.insert k (.running call pc'))
    (hh : s'.history = s.history ++ m) (hi : invocations m = []) (hr : returns m = []) :
    Follows s t (.advance k) s' t
  | extend {k : CallId} {call : Call} {pc : Pc} {o : Outcome} {n : Nat} {s' t' : Sys}
    {m : List Obs} (hk : s.calls[k]? = some (.running call pc))
    (hrun : run t (alone k call n) = some t')
    (hcalls : s'.calls = s.calls.insert k (.returned call o))
    (hh : s'.history = s.history ++ m) (hi : invocations m = []) (hr : returns m = [k]) :
    Follows s t (.advance k) s' t'

/-- The effects of a step are no invocations and no returns. -/
theorem observe_calls (sh : Shared) (e : Effect) :
    invocations (e.observe sh) = [] ∧ returns (e.observe sh) = [] := by
  cases e with
  | subscribe topic buffer => cases topic <;> exact ⟨rfl, rfl⟩
  | cancel topic id => cases topic <;> exact ⟨rfl, rfl⟩
  | commit d r c v now =>
    simp only [Effect.observe]
    split <;> simp [invocations, returns, Obs.invocation?, Obs.return?]
  | _ => simp [Effect.observe, invocations, returns, Obs.invocation?, Obs.return?]

theorem sim_invoke {s t : Sys} (hsim : Sim s t) {k : CallId} {call : Call} (hk : k ∉ s.calls)
    (hd : call.op.data = true) :
    Sim { s with
      calls := s.calls.insert k (.running call .lifecycle)
      history := s.history ++ [.invoked k call] } t := by
  have hnone : s.calls[k]? = none := Std.ExtTreeMap.getElem?_eq_none hk
  have hrun : ∀ {j : CallId} {call' : Call} {pc' : Pc},
      (s.calls.insert k (.running call .lifecycle))[j]? = some (.running call' pc') →
      (j = k ∧ call' = call ∧ pc' = .lifecycle) ∨ s.calls[j]? = some (.running call' pc') := by
    intro j call' pc' hj
    rw [getElem?_insert] at hj
    split at hj
    · rename_i hjk
      obtain ⟨rfl, rfl⟩ := Thread.running.inj (Option.some.inj hj)
      exact .inl ⟨hjk.symm, rfl, rfl⟩
    · exact .inr hj
  have hold : ∀ {j : CallId} {call' : Call} {pc' : Pc}, s.calls[j]? = some (.running call' pc') →
      (s.calls.insert k (.running call .lifecycle))[j]? = some (.running call' pc') := by
    intro j call' pc' hj
    rw [getElem?_insert, if_neg, hj]
    rintro rfl
    simp [hnone] at hj
  refine ⟨hsim.quiet, ?_, ?_, hsim.persistent, hsim.state, hsim.nextRef, ?_, ?_, ?_, ?_⟩
  · intro j hj
    by_cases hjk : j = k
    · subst hjk
      exact absurd (by rw [getElem?_insert, if_pos rfl]) (hj call .lifecycle)
    · have hne : (s.calls.insert k (.running call .lifecycle))[j]? = s.calls[j]? := by
        rw [getElem?_insert, if_neg (Ne.symm hjk)]
      rw [hne] at hj ⊢
      exact hsim.calls j hj
  · intro j call' pc' hj
    obtain ⟨rfl, rfl, rfl⟩ | hj := hrun hj
    · refine ⟨fun hmem => ?_, hd⟩
      have := hsim.calls j fun call pc h => by simp [hnone] at h
      rw [Std.ExtTreeMap.mem_iff_isSome_getElem?, this, hnone] at hmem
      exact Bool.noConfusion hmem
    · exact hsim.running j call' pc' hj
  · exact fun ref href => hsim.values ref fun j call' pc' hj => href j call' pc' (hold hj)
  · exact fun d hd => hsim.store d fun hp j call' pc' hj => hd hp j call' pc' (hold hj)
  · intro j call' pc' hj
    obtain ⟨-, -, rfl⟩ | hj := hrun hj
    · trivial
    · exact hsim.pending j call' pc' hj
  · simpa using hsim.changes

/-- A move that does not return: the serial run stays. -/
theorem sim_move_goto {s t : Sys} (hok : s.Ok) (hsim : Sim s t) {k : CallId} {call : Call}
    {pc pc' : Pc} {e : Effect} {n : Next} (hk : s.calls[k]? = some (.running call pc))
    (hm : Move s.shared call pc e n) (hn : n = .goto pc') {h : List Obs}
    (hh : changes h = changes s.history) :
    Sim { s with
      shared := e.apply s.shared
      calls := s.calls.insert k (.running call pc')
      history := h } t := by
  have hd := (hsim.running k call pc hk).2
  have hpc := hok.pc k call pc hk
  cases hm with
  | lifecycle | enterRead | enterCommand | commandSerial | confirmCommand | confirmPublish | handle
  | save =>
    obtain rfl := Next.goto.inj hn
    exact sim_early hsim hk ⟨rfl, rfl⟩ ⟨rfl, rfl⟩ rfl rfl hh
  | noStore hv hp =>
    obtain rfl := Next.goto.inj hn
    exact sim_noStore hsim hk hp rfl rfl hh
  | saved ht hs =>
    obtain rfl := Next.goto.inj hn
    exact sim_saved hok hsim hk ht rfl rfl hh
  | update ht hr =>
    obtain rfl := Next.goto.inj hn
    exact sim_update hok hsim hk rfl rfl hh
  | enterRegister hop | restoreNew hop | restore hop | saveInitial hop | enterUnregister hop =>
    simp [hop, Op.data] at hd
  | unregisterSerial =>
    obtain ⟨d, hop, -⟩ := hpc
    simp [hop, Op.data] at hd
  | snapshotState | snapshotValues => simp [show call.op = .snapshot from hpc, Op.data] at hd
  | _ => exact Next.noConfusion hn

theorem sim_move_ret {s t : Sys} (hok : s.Ok) (hsim : Sim s t) {k : CallId} {call : Call}
    {pc : Pc} {e : Effect} {n : Next} {reply : Reply}
    (hk : s.calls[k]? = some (.running call pc)) (hr : s.ready call pc = true)
    (hm : Move s.shared call pc e n) (hn : n = .ret reply) {h : List Obs}
    (hh : changes h = changes s.history ++ changes (e.observe s.shared)) :
    ∃ n t', run t (alone k call n) = some t' ∧
      Sim { s with
        shared := e.apply s.shared
        calls := s.calls.insert k (.returned call (.ok reply))
        history := h } t' := by
  have hd := (hsim.running k call pc hk).2
  have hpc := hok.pc k call pc hk
  cases hm with
  | read hop hv =>
    obtain rfl := Next.ret.inj hn
    have hsame := sim_values_free hsim (ready_free hr rfl)
    exact sim_plain hok hsim hk rfl (.read hop (hsame ▸ hv)) (by simpa [Effect.observe] using hh)
  | unchanged hv =>
    obtain rfl := Next.ret.inj hn
    have hsame := sim_values_free hsim (ready_free hr rfl)
    exact sim_plain hok hsim hk rfl (.unchanged (hsame ▸ hv)) (by simpa [Effect.observe] using hh)
  | commit ht =>
    obtain rfl := Next.ret.inj hn
    exact sim_commit hok hsim hk ht hh
  | start hop | stop hop | stopped hop | insert hop | remove hop | subscribe hop
  | subscribeTopology hop | cancel hop => simp [hop, Op.data] at hd
  | snapshotState | snapshotValues => simp [show call.op = .snapshot from hpc, Op.data] at hd
  | _ => exact Next.noConfusion hn

/-- A step that does not return changes nothing that takes a revision. -/
theorem observe_goto {sh : Shared} {call : Call} {pc pc' : Pc} {e : Effect} {n : Next}
    (hm : Move sh call pc e n) (hn : n = .goto pc') : e.observe sh = [] := by
  cases hm with
  | start | stop | insert | remove | commit | subscribe | subscribeTopology | cancel =>
    exact Next.noConfusion hn
  | _ => rfl

theorem sim_step {s s' t : Sys} {a : Action} (hok : s.Ok) (hsim : Sim s t) (ha : a.data = true)
    (h : step s a = some s') : ∃ t', Sim s' t' ∧ Follows s t a s' t' := by
  cases step_cases h with
  | reject hk hb => simp [begin_data ha] at hb
  | invoke hk hb =>
    rw [begin_data ha, Except.ok.injEq] at hb
    subst hb
    exact ⟨t, sim_invoke hsim hk ha, .invoke hk ha rfl rfl⟩
  | fail hk hr hb =>
    obtain ⟨n, t', hrun, hsim'⟩ := sim_fail hok hsim hk hr hb
    exact ⟨t', hsim', .extend hk hrun rfl rfl rfl rfl⟩
  | @move k call pc e n hk hr hm =>
    have hobs : invocations (e.observe s.shared) = [] ∧ returns (e.observe s.shared) = [] :=
      observe_calls _ _
    cases n with
    | goto pc' =>
      have hturn : invocations (turnOf k call.op pc) = [] ∧ returns (turnOf k call.op pc) = [] := by
        cases pc <;> simp only [turnOf] <;> try exact ⟨rfl, rfl⟩
        cases call.op.target <;> exact ⟨rfl, rfl⟩
      refine ⟨t, sim_move_goto hok hsim hk hm rfl ?_, .stay hk rfl rfl ?_ ?_⟩
      · rw [changes_append, observe_goto hm rfl, List.nil_append]
        simp [Next.observe, changes_turnOf]
      · simp [Next.observe, hobs, hturn]
      · simp [Next.observe, hobs, hturn]
    | ret reply =>
      obtain ⟨n, t', hrun, hsim'⟩ := sim_move_ret hok hsim hk hr hm rfl
        (h := s.history ++ (e.observe s.shared ++ (Next.ret reply).observe k call.op pc)) (by
          simp [Next.observe])
      exact ⟨t', hsim', .extend hk hrun rfl rfl (by simp [hobs, Next.observe]; rfl)
        (by simp [hobs, Next.observe]; rfl)⟩
  | states hs hop =>
    obtain ⟨id, rfl, -⟩ | ⟨id, rfl, -⟩ | ⟨id, rfl, -⟩ := hop <;> simp [Action.data] at ha
  | topology hs hop =>
    obtain ⟨id, rfl, -⟩ | ⟨id, rfl, -⟩ | ⟨id, rfl, -⟩ := hop <;> simp [Action.data] at ha
  | _ => simp [Action.data] at ha

/-- The calls of a list executed one at a time. -/
inductive Serial (s₀ : Sys) : List (CallId × Call) → Sys → Prop where
  | nil : Serial s₀ [] s₀
  | snoc {order : List (CallId × Call)} {t t' : Sys} {k : CallId} {call : Call} {n : Nat}
    {o : Outcome} (h : Serial s₀ order t) (hrun : run t (alone k call n) = some t')
    (hret : t'.calls[k]? = some (.returned call o)) : Serial s₀ (order ++ [(k, call)]) t'

/-- A run of the machine from `s₀` to `s` and the serial run of the calls that returned. -/
structure Linear (s₀ s t : Sys) (order : List (CallId × Call)) (h : List Obs) : Prop where
  serial : Serial s₀ order t
  sim : Sim s t
  history : s.history = s₀.history ++ h
  returned : returns h = order.map Prod.fst
  ordered : ∀ (k : CallId) (call : Call), (k, call) ∈ order ↔
    k ∉ s₀.calls ∧ ∃ o, s.calls[k]? = some (.returned call o)
  invoked : ∀ (k : CallId) (call : Call), (k, call) ∈ invocations h ↔ k ∉ s₀.calls ∧
    ((∃ o, s.calls[k]? = some (.returned call o)) ∨ ∃ pc, s.calls[k]? = some (.running call pc))
  nodup : (order.map Prod.fst).Nodup
  once : ((invocations h).map Prod.fst).Nodup
  before : ∀ p k call q, h = p ++ .invoked k call :: q → k ∉ returns p
  old : ∀ k : CallId, k ∈ s₀.calls → s.calls[k]? = s₀.calls[k]?

theorem linear_refl {s₀ : Sys} (hq : s₀.Quiet) : Linear s₀ s₀ s₀ [] [] where
  serial := .nil
  sim := by
    refine ⟨hq, fun _ _ => rfl, fun k call pc hk => absurd hk (hq k call pc), rfl, rfl, rfl,
      fun _ _ => rfl, fun _ _ => rfl, fun k call pc hk => absurd hk (hq k call pc), rfl⟩
  history := (List.append_nil _).symm
  returned := rfl
  ordered k call := by
    simp only [List.not_mem_nil, false_iff, not_and, not_exists]
    intro hk o ho
    exact hk (Std.ExtTreeMap.mem_iff_isSome_getElem?.mpr (by simp [ho]))
  invoked k call := by
    simp only [invocations, List.filterMap_nil, List.not_mem_nil, false_iff, not_and, not_or,
      not_exists]
    intro hk
    exact ⟨fun o ho => hk (Std.ExtTreeMap.mem_iff_isSome_getElem?.mpr (by simp [ho])),
      fun pc hp => hq k call pc hp⟩
  nodup := by simp
  once := by simp [invocations]
  before p k call q h := by simp at h
  old _ _ := rfl

section LinearStep

variable {s₀ s s' t : Sys} {order : List (CallId × Call)} {h m : List Obs} {k : CallId}

theorem Linear.new (hl : Linear s₀ s t order h) (hq : s₀.Quiet) {call : Call} {pc : Pc}
    (hk : s.calls[k]? = some (.running call pc)) : k ∉ s₀.calls :=
  fun hmem => hq k call pc (hl.old k hmem ▸ hk)

/-- A thread of a new call may be replaced as far as the old calls are concerned. -/
theorem Linear.old_insert (hl : Linear s₀ s t order h) {u : Thread} (hnew : k ∉ s₀.calls)
    (hcalls : s'.calls = s.calls.insert k u) (j : CallId) (hj : j ∈ s₀.calls) :
    s'.calls[j]? = s₀.calls[j]? := by
  rw [insert_of_ne hcalls fun e => hnew (e ▸ hj)]
  exact hl.old j hj

/-- The order does not mention a call that has not returned. -/
theorem Linear.ordered_running (hl : Linear s₀ s t order h) {call : Call} {pc : Pc}
    (hk : ∀ call' o, s.calls[k]? ≠ some (.returned call' o))
    (hcalls : s'.calls = s.calls.insert k (.running call pc)) (j : CallId) (call' : Call) :
    (j, call') ∈ order ↔ j ∉ s₀.calls ∧ ∃ o, s'.calls[j]? = some (.returned call' o) := by
  rw [hl.ordered]
  refine and_congr_right fun _ => exists_congr fun o => ?_
  by_cases hjk : j = k
  · subst hjk
    rw [hcalls, getElem?_insert, if_pos rfl]
    exact ⟨fun h => absurd h (hk call' o), fun h => by simp at h⟩
  · rw [insert_of_ne hcalls hjk]

theorem Linear.before_append (hl : Linear s₀ s t order h) (hi : invocations m = []) :
    ∀ p j call q, h ++ m = p ++ .invoked j call :: q → j ∉ returns p := by
  intro p j call q heq
  have hno : Obs.invoked j call ∉ m := fun hmem => by
    have : (j, call) ∈ invocations m := List.mem_filterMap.mpr ⟨_, hmem, rfl⟩
    simp [hi] at this
  obtain ⟨q', hq'⟩ := Broadcast.split_of_not_mem hno heq
  exact hl.before p j call q' hq'

theorem linear_invoke (hl : Linear s₀ s t order h) (hsim : Sim s' t) {call : Call}
    (hk : k ∉ s.calls) (hcalls : s'.calls = s.calls.insert k (.running call .lifecycle))
    (hh : s'.history = s.history ++ [.invoked k call]) :
    Linear s₀ s' t order (h ++ [.invoked k call]) := by
  have hnone : s.calls[k]? = none := Std.ExtTreeMap.getElem?_eq_none hk
  have hnew : k ∉ s₀.calls := by
    intro hmem
    have h0 := hl.old k hmem
    rw [hnone] at h0
    rw [Std.ExtTreeMap.mem_iff_isSome_getElem?, ← h0] at hmem
    exact Bool.noConfusion hmem
  have hnoret : k ∉ returns h := by
    rw [hl.returned]
    intro hmem
    obtain ⟨⟨k', call'⟩, hin, rfl⟩ := List.mem_map.mp hmem
    obtain ⟨-, o, ho⟩ := (hl.ordered k' call').mp hin
    simp [hnone] at ho
  have hnoinv : k ∉ (invocations h).map Prod.fst := by
    intro hmem
    obtain ⟨⟨k', call'⟩, hin, rfl⟩ := List.mem_map.mp hmem
    obtain ⟨-, ⟨o, ho⟩ | ⟨pc, ho⟩⟩ := (hl.invoked k' call').mp hin <;> simp [hnone] at ho
  have hinv : invocations (h ++ [Obs.invoked k call]) = invocations h ++ [(k, call)] := by
    simp [invocations, Obs.invocation?]
  refine ⟨hl.serial, hsim, ?_, ?_, ?_, ?_, hl.nodup, ?_, ?_, hl.old_insert hnew hcalls⟩
  · rw [hh, hl.history, List.append_assoc]
  · rw [returns_append, hl.returned]
    exact List.append_nil _
  · exact hl.ordered_running (by simp [hnone]) hcalls
  · intro j call'
    rw [hinv, List.mem_append, hl.invoked, List.mem_singleton, Prod.mk.injEq]
    by_cases hjk : j = k
    · subst hjk
      simp [hcalls, hnone, hnew, eq_comm]
    · simp [insert_of_ne hcalls hjk, hjk]
  · rw [hinv, List.map_append, List.nodup_append]
    refine ⟨hl.once, by simp, ?_⟩
    rintro a ha b hb rfl
    rw [List.map_singleton, List.mem_singleton] at hb
    subst hb
    exact hnoinv ha
  · intro p j call' q heq
    rcases Broadcast.split_append heq with ⟨q', hq'⟩ | ⟨l, rfl, hl'⟩
    · exact hl.before p j call' q' hq'
    · cases l with
      | nil =>
        rw [List.nil_append, List.cons.injEq] at hl'
        obtain ⟨rfl, -⟩ := Obs.invoked.inj hl'.1
        simpa using hnoret
      | cons x l => simp at hl'

theorem linear_stay (hl : Linear s₀ s t order h) (hq : s₀.Quiet) (hsim : Sim s' t) {call : Call}
    {pc pc' : Pc} (hk : s.calls[k]? = some (.running call pc))
    (hcalls : s'.calls = s.calls.insert k (.running call pc'))
    (hh : s'.history = s.history ++ m) (hi : invocations m = []) (hr : returns m = []) :
    Linear s₀ s' t order (h ++ m) := by
  refine ⟨hl.serial, hsim, ?_, ?_, ?_, ?_, hl.nodup, ?_, hl.before_append hi,
    hl.old_insert (hl.new hq hk) hcalls⟩
  · rw [hh, hl.history, List.append_assoc]
  · rw [returns_append, hr, List.append_nil, hl.returned]
  · exact hl.ordered_running (by simp [hk]) hcalls
  · intro j call'
    rw [invocations_append, hi, List.append_nil, hl.invoked]
    by_cases hjk : j = k
    · subst hjk
      simp [hcalls, hk]
    · simp [insert_of_ne hcalls hjk]
  · rw [invocations_append, hi, List.append_nil]
    exact hl.once

theorem linear_extend (hl : Linear s₀ s t order h) (hq : s₀.Quiet) {t' : Sys} (hsim : Sim s' t')
    {call : Call} {pc : Pc} {o : Outcome} {n : Nat}
    (hk : s.calls[k]? = some (.running call pc)) (hrun : run t (alone k call n) = some t')
    (hcalls : s'.calls = s.calls.insert k (.returned call o))
    (hh : s'.history = s.history ++ m) (hi : invocations m = []) (hr : returns m = [k]) :
    Linear s₀ s' t' (order ++ [(k, call)]) (h ++ m) := by
  have hnew := hl.new hq hk
  have hself : s'.calls[k]? = some (.returned call o) := by
    rw [hcalls, getElem?_insert, if_pos rfl]
  have hnot : k ∉ order.map Prod.fst := by
    intro hmem
    obtain ⟨⟨k', call'⟩, hin, rfl⟩ := List.mem_map.mp hmem
    obtain ⟨-, o', ho⟩ := (hl.ordered k' call').mp hin
    simp [hk] at ho
  have hret : t'.calls[k]? = some (.returned call o) := by
    rw [hsim.calls k (by simp [hself]), hself]
  refine ⟨.snoc hl.serial hrun hret, hsim, ?_, ?_, ?_, ?_, ?_, ?_, hl.before_append hi,
    hl.old_insert hnew hcalls⟩
  · rw [hh, hl.history, List.append_assoc]
  · rw [returns_append, hr, hl.returned, List.map_append]
    rfl
  · intro j call'
    rw [List.mem_append, List.mem_singleton, hl.ordered, Prod.mk.injEq]
    by_cases hjk : j = k
    · subst hjk
      simp [hself, hk, hnew, eq_comm]
    · simp [insert_of_ne hcalls hjk, hjk]
  · intro j call'
    rw [invocations_append, hi, List.append_nil, hl.invoked]
    by_cases hjk : j = k
    · subst hjk
      simp [hself, hk]
    · simp [insert_of_ne hcalls hjk]
  · rw [List.map_append, List.nodup_append]
    refine ⟨hl.nodup, by simp, ?_⟩
    rintro a ha b hb rfl
    rw [List.map_singleton, List.mem_singleton] at hb
    subst hb
    exact hnot ha
  · rw [invocations_append, hi, List.append_nil]
    exact hl.once

end LinearStep

theorem linear_step {s₀ s s' t : Sys} {a : Action} {order : List (CallId × Call)} {h : List Obs}
    (hq : s₀.Quiet) (hok : s.Ok) (hl : Linear s₀ s t order h) (ha : a.data = true)
    (hs : step s a = some s') : ∃ t' order' h', Linear s₀ s' t' order' h' := by
  obtain ⟨t', hsim, hf⟩ := sim_step hok hl.sim ha hs
  cases hf with
  | invoke hk hd hcalls hh => exact ⟨_, _, _, linear_invoke hl hsim hk hcalls hh⟩
  | stay hk hcalls hh hi hr => exact ⟨_, _, _, linear_stay hl hq hsim hk hcalls hh hi hr⟩
  | extend hk hrun hcalls hh hi hr =>
    exact ⟨_, _, _, linear_extend hl hq hsim hk hrun hcalls hh hi hr⟩

theorem shared_eq_of_sim {s t : Sys} (hsim : Sim s t) (hq : s.Quiet) : t.shared = s.shared := by
  have hv : t.shared.values = s.shared.values := by
    funext ref
    exact hsim.values ref fun k call pc hk => absurd hk (hq k call pc)
  have hs : t.shared.store = s.shared.store := by
    funext d
    exact hsim.store d fun _ k call pc hk => absurd hk (hq k call pc)
  have hp := hsim.persistent
  have hst := hsim.state
  have hn := hsim.nextRef
  cases ht : t.shared
  cases hs' : s.shared
  simp_all

/-- Any interleaving of `read`, `write_value` and `publish` calls ends as the calls made one at a
    time, in the order in which they returned: with the same results, the same values in memory and
    in the store, and the same commits with increasing revisions. -/
theorem linearizable {s₀ s : Sys} {as : List Action} (hr : Reachable s₀) (hq : s₀.Quiet)
    (ha : ∀ a ∈ as, a.data = true) (hrun : run s₀ as = some s) (hdone : s.Quiet) :
    ∃ h order t, s.history = s₀.history ++ h ∧ order.Perm (invocations h) ∧
      (∀ j k o call p q, h = p ++ .invoked k call :: q → .returned j o ∈ p →
        ∃ a b, order.map Prod.fst = a ++ k :: b ∧ j ∈ a) ∧
      Serial s₀ order t ∧ t.calls = s.calls ∧ t.shared = s.shared ∧
      changes t.history = changes s.history ∧
      ((changes s.history).map Change.revision).Pairwise (· < ·) := by
  have hok₀ := reachable_ok hr
  have hlin : s.Ok ∧ ∃ t order h, Linear s₀ s t order h := by
    have hstep : ∀ s a s', (s.Ok ∧ ∃ t order h, Linear s₀ s t order h) → Action.data a = true →
        step s a = some s' → s'.Ok ∧ ∃ t order h, Linear s₀ s' t order h := by
      rintro s a s' ⟨hok, t, order, h, hl⟩ ha hs
      exact ⟨step_ok hok hs, linear_step hq hok hl ha hs⟩
    exact Machine.run_inv_of_meets hstep ⟨hok₀, s₀, [], [], linear_refl hq⟩
      (Machine.meets_of_forall ha) hrun
  obtain ⟨-, t, order, h, hl⟩ := hlin
  have hrev : s.StreamsOk := Machine.run_inv (fun _ _ _ hok => step_streams hok)
    (reachable_streams hr) hrun
  have hperm : order.Perm (invocations h) := by
    refine (List.perm_ext_iff_of_nodup (List.Nodup.of_map _ hl.nodup)
      (List.Nodup.of_map _ hl.once)).mpr fun ⟨k, call⟩ => ?_
    rw [hl.ordered, hl.invoked]
    refine and_congr_right fun _ => (or_iff_left ?_).symm
    rintro ⟨pc, hpc⟩
    exact hdone k call pc hpc
  refine ⟨h, order, t, hl.history, hperm, ?_, hl.serial, ?_, shared_eq_of_sim hl.sim hdone,
    hl.sim.changes, hrev.revisions.increasing⟩
  · intro j k o call p q heq hj
    have hjp : j ∈ returns p := List.mem_filterMap.mpr ⟨_, hj, rfl⟩
    have hkp := hl.before p k call q heq
    have hk : k ∈ returns h := by
      rw [hl.returned]
      have : (k, call) ∈ order := hperm.mem_iff.mpr (List.mem_filterMap.mpr ⟨.invoked k call,
        by simp [heq], rfl⟩)
      exact List.mem_map.mpr ⟨_, this, rfl⟩
    have hsplit : returns h = returns p ++ returns q := by rw [heq, returns_append]; rfl
    rw [hsplit, List.mem_append] at hk
    obtain ⟨a, b, hab⟩ := List.append_of_mem (hk.resolve_left hkp)
    exact ⟨returns p ++ a, b, by rw [← hl.returned, hsplit, hab, List.append_assoc],
      List.mem_append_left _ hjp⟩
  · refine Std.ExtTreeMap.ext_getElem? fun k => ?_
    exact hl.sim.calls k fun call pc hk => hdone k call pc hk

def Thread.settled : Thread → Bool
  | .running .. => false
  | _ => true

theorem quiet_of_settled {s : Sys} (h : s.calls.toList.all (·.2.settled) = true) : s.Quiet := by
  intro k call pc hk
  have hmem := Std.ExtTreeMap.mem_toList_iff_getElem?_eq_some.mpr hk
  simpa [Thread.settled] using List.all_eq_true.mp h _ hmem

/-- The lamp after its registration, and after two publications that overlap. -/
def lampReady : Sys := (run (Sys.new true fun _ => none) lampStart).get (by decide)

def lampOverlap : List Action :=
  [.invoke 2 (publishLamp true), .invoke 3 (publishLamp false)] ++
    [2, 3, 2, 3, 2, 2, 2, 2, 2, 2, 3, 3, 3, 3, 3, 3].map Action.advance

theorem linearizable_lampOverlap :
    ∃ h order t, ((run lampReady lampOverlap).get (by decide)).history = lampReady.history ++ h ∧
      order.Perm (invocations h) ∧ Serial lampReady order t ∧
      t.shared = ((run lampReady lampOverlap).get (by decide)).shared := by
  have hr : Reachable lampReady := ⟨true, _, lampStart, (Option.some_get _).symm⟩
  have hrun : run lampReady lampOverlap = some ((run lampReady lampOverlap).get (by decide)) :=
    (Option.some_get _).symm
  obtain ⟨h, order, t, h1, h2, -, h3, -, h4, -⟩ := linearizable hr (quiet_of_settled (by decide))
    (by decide) hrun (quiet_of_settled (by decide))
  exact ⟨h, order, t, h1, h2, h3, h4⟩

end Oikade.Core
