/-
  `Runtime::snapshot` and the replay of events on top of it.

  A snapshot reads the revision under the state lock and the values of each device later, each under
  its own lock, so it may mix values older and newer than its revision. `Sampled` says what each of
  its entries is: the replay of the ledger for that registration up to some revision that is not
  below the snapshot's. `snapshot_replay` assembles the three statements: a snapshot includes every
  commit up to its revision, the events above its revision complete it, and a read or a snapshot
  started after an event was received reflects its commit.

  `commit` changes the values first and waits for the state lock then. A call that is dropped there
  leaves a value that no revision and no event stands for, so the statements are about the runs in
  which every call is `whole`, and `not_snapshot_replay_lampTorn` is a run in which one is not.
-/
import Oikade.Core.Ledger

namespace Oikade.Core

open Broadcast (Entry receivedBy Ended)

/-! ## What a caller has seen before its call -/

/-- All changes and all received events of `p` have a revision up to `n`. -/
def Seen (p : List Obs) (n : Nat) : Prop :=
  (∀ c ∈ changes p, c.revision ≤ n) ∧
    ∀ id event, .states (.received id event) ∈ p → event.revision ≤ n

theorem Seen.mono {p : List Obs} {n m : Nat} (h : Seen p n) (hnm : n ≤ m) : Seen p m :=
  ⟨fun c hc => Nat.le_trans (h.1 c hc) hnm, fun id event he => Nat.le_trans (h.2 id event he) hnm⟩

theorem Seen.of_append {p q : List Obs} {n : Nat} (h : Seen (p ++ q) n) : Seen p n :=
  ⟨fun c hc => h.1 c (by simp [hc]), fun id event he => h.2 id event (List.mem_append_left q he)⟩

theorem mem_log_states {h : List Obs} {e : Entry Event RuntimeError} :
    e ∈ statesView.log h ↔ .states e ∈ h := by
  rw [View.log, List.mem_filterMap]
  constructor
  · rintro ⟨o, ho, he⟩
    cases o with
    | states e' => exact Option.some.inj he ▸ ho
    | _ => simp [statesView] at he
  · exact fun he => ⟨_, he, rfl⟩

/-- Whatever happened so far has a revision up to the current one. -/
theorem seen_of_streams {s : Sys} (h : s.StreamsOk) : Seen s.history s.shared.state.revision := by
  refine ⟨h.revisions.le, fun id event he => ?_⟩
  obtain ⟨c, hc, hrev⟩ :=
    change_of_received h.states (Broadcast.mem_receivedBy.mpr (mem_log_states.mpr he))
  rw [show event.revision = c.revision from hrev]
  exact h.revisions.le c hc

/-! ## Growth -/

/-- What every step does to the ledger and the table. -/
structure Grows (s s' : Sys) : Prop where
  ledger : ∃ cs, changes s'.history = changes s.history ++ cs ∧
    ∀ c ∈ cs, s.shared.state.revision < c.revision
  revision : s.shared.state.revision ≤ s'.shared.state.revision
  nextRef : s.shared.nextRef ≤ s'.shared.nextRef
  devices : ∀ (d : DeviceId) (r : RegisteredDevice), s'.shared.state.devices[d]? = some r →
    s.shared.state.devices[d]? = some r ∨ r.ref = s.shared.nextRef

theorem grows_of_ledger {s s' : Sys} (h : LedgerStep s s') : Grows s s' := by
  cases h with
  | keep hch hdev hval hn hrev hup =>
    exact ⟨⟨[], by simp [hch], by simp⟩, Nat.le_of_eq hrev.symm, Nat.le_of_eq hn.symm,
      fun d r hr => .inl (hdev d r hr)⟩
  | update hk hcalls hch hsh =>
    exact ⟨⟨[], by simp [hch], by simp⟩, by rw [hsh]; exact Nat.le_refl _,
      by rw [hsh]; exact Nat.le_refl _, fun d r hr => .inl (by rw [hsh] at hr; exact hr)⟩
  | @commit k call d cid r c v o hk ht hcalls hch hsh =>
    have hst : s'.shared.state.revision = s.shared.state.revision + 1 ∧
        s'.shared.state.devices = s.shared.state.devices := by
      rw [hsh]
      simp only [Effect.apply]
      split <;> exact ⟨rfl, rfl⟩
    refine ⟨⟨_, hch, by simp [Change.revision, commitEvent]⟩, by rw [hst.1]; exact Nat.le_succ _,
      by rw [hsh]; exact Nat.le_refl _, fun d' r' hr => .inl (by rw [hst.2] at hr; exact hr)⟩
  | insert hk hop hd hcalls hch hsh =>
    refine ⟨⟨_, hch, by simp [Change.revision]⟩, by rw [hsh]; exact Nat.le_succ _,
      by rw [hsh]; exact Nat.le_succ _, fun d' r' hr => ?_⟩
    rw [hsh] at hr
    simp only [Effect.apply, dispatchTopology, getElem?_insert] at hr
    split at hr
    · exact .inr (by rw [← Option.some.inj hr])
    · exact .inl hr
  | remove hk hop hcalls hch hsh =>
    refine ⟨⟨_, hch, by simp [Change.revision]⟩, by rw [hsh]; exact Nat.le_succ _,
      by rw [hsh]; exact Nat.le_refl _, fun d' r' hr => .inl ?_⟩
    rw [hsh] at hr
    simp only [Effect.apply, dispatchTopology, getElem?_erase] at hr
    split at hr
    · simp at hr
    · exact hr

theorem Grows.upTo {s s' : Sys} (h : Grows s s') {n : Nat} (hn : n ≤ s.shared.state.revision) :
    upTo n (changes s'.history) = upTo n (changes s.history) := by
  obtain ⟨cs, hcs, hlt⟩ := h.ledger
  rw [hcs]
  exact upTo_append fun c hc => Nat.lt_of_le_of_lt hn (hlt c hc)

/-! ## The entries of a snapshot -/

/-- An entry of a snapshot at revision `n₀`: the record of a registration, not older than `n₀`. -/
def Sampled (s : Sys) (n₀ : Nat) (r : RegisteredDevice) (state : DeviceState) : Prop :=
  state.device = r.definition ∧
    registrationOf r.definition.id (upTo n₀ (changes s.history)) = some r ∧
    ∃ n, n₀ ≤ n ∧ n ≤ s.shared.state.revision ∧
      state.values = recordOf r.ref (upTo n (changes s.history))

/-- A snapshot that has read the devices `done` and has still to read `todo`. -/
structure Snapped (s : Sys) (snapshot : Snapshot) (done rest : List RegisteredDevice) : Prop where
  revision : snapshot.revision ≤ s.shared.state.revision
  sampled : List.Forall₂ (Sampled s snapshot.revision) done snapshot.devices
  todo : ∀ r ∈ rest, r.ref < s.shared.nextRef ∧
    registrationOf r.definition.id (upTo snapshot.revision (changes s.history)) = some r
  complete : ∀ (d : DeviceId) (r : RegisteredDevice) (n : Nat) (current : Record),
    s.shared.state.devices[d]? = some r → .registered n r current ∈ changes s.history →
    n ≤ snapshot.revision → r ∈ done ++ rest

theorem sampled_grows {s s' : Sys} (hg : Grows s s') {n₀ : Nat} {r : RegisteredDevice}
    {state : DeviceState} (hn₀ : n₀ ≤ s.shared.state.revision) (h : Sampled s n₀ r state) :
    Sampled s' n₀ r state := by
  obtain ⟨h1, h2, n, h3, h4, h5⟩ := h
  refine ⟨h1, by rw [hg.upTo hn₀]; exact h2, n, h3,
    Nat.le_trans h4 hg.revision, ?_⟩
  rw [hg.upTo h4]
  exact h5

theorem snapped_grows {s s' : Sys} (hl : LedgerOk s) (hg : Grows s s') {snapshot : Snapshot}
    {done todo : List RegisteredDevice} (h : Snapped s snapshot done todo) :
    Snapped s' snapshot done todo := by
  refine ⟨Nat.le_trans h.revision hg.revision, ?_, ?_, ?_⟩
  · exact h.sampled.imp fun _ _ hs => sampled_grows hg h.revision hs
  · intro r hr
    rw [hg.upTo h.revision]
    exact ⟨Nat.lt_of_lt_of_le (h.todo r hr).1 hg.nextRef, (h.todo r hr).2⟩
  · intro d r n current hr hreg hn
    obtain ⟨cs, hcs, hlt⟩ := hg.ledger
    rw [hcs, List.mem_append] at hreg
    have hold : .registered n r current ∈ changes s.history := by
      refine hreg.resolve_right fun hc => ?_
      have h1 := hlt _ hc
      have h2 := h.revision
      simp only [Change.revision] at h1
      omega
    rcases hg.devices d r hr with hr | hr
    · exact h.complete d r n current hr hold hn
    · exact absurd hr (Nat.ne_of_lt (hl.bounded n r current hold))

/-- The state section of a snapshot. -/
theorem snapped_start {s : Sys} (hok : s.Ok) (hl : LedgerOk s) (hs : s.StreamsOk)
    (started : Bool) (subscriptions : Nat) :
    Snapped s ⟨started, s.shared.state.revision, [], subscriptions⟩ []
      (s.shared.state.devices.toList.map Prod.snd) := by
  have hup : upTo s.shared.state.revision (changes s.history) = changes s.history :=
    upTo_eq_self hs.revisions.le
  refine ⟨Nat.le_refl _, .nil, ?_, ?_⟩
  · intro r hr
    obtain ⟨⟨d, r'⟩, hmem, rfl⟩ := List.mem_map.mp hr
    have hr := Std.ExtTreeMap.mem_toList_iff_getElem?_eq_some.mp hmem
    rw [hup]
    exact ⟨hok.shared.fresh d r' hr, by rw [hok.shared.key d r' hr]; exact (hl.table d r' hr).1⟩
  · intro d r n current hr _ _
    exact List.mem_map.mpr ⟨(d, r), Std.ExtTreeMap.mem_toList_iff_getElem?_eq_some.mpr hr, rfl⟩

theorem settled_of_free {s : Sys} {ref : Ref} (h : s.free (.values ref) = true) :
    s.Settled ref := by
  intro j call pc hj hup
  obtain ⟨r, hr, rfl⟩ := committing_of_updated hup
  have := free_iff.mp h j _ hj _ (holds_of_committing hr)
  simp [Lock.excludes] at this

/-- The section of a snapshot under the values lock of one device. -/
theorem snapped_read {s : Sys} (hl : LedgerOk s) (hs : s.StreamsOk) {snapshot : Snapshot}
    {r : RegisteredDevice} {done todo : List RegisteredDevice}
    (h : Snapped s snapshot done (r :: todo)) (hf : s.free (.values r.ref) = true) :
    Snapped s
      { snapshot with
        devices := snapshot.devices ++ [⟨r.definition, (s.shared.values r.ref).current⟩] }
      (done ++ [r]) todo := by
  obtain ⟨hlt, hreg⟩ := h.todo r (by simp)
  refine ⟨h.revision, ?_, fun r' hr' => h.todo r' (by simp [hr']), ?_⟩
  · refine List.rel_append h.sampled (.cons ⟨rfl, hreg, s.shared.state.revision, h.revision,
      Nat.le_refl _, ?_⟩ .nil)
    rw [upTo_eq_self hs.revisions.le]
    exact hl.values r.ref hlt (settled_of_free hf)
  · intro d r' n current hr' hreg' hn
    have := h.complete d r' n current hr' hreg' hn
    simpa using this

/-! ## Snapshots and reads of a run -/

/-- A value that `read` returned is the one the ledger gives at some revision that covers all the
    caller had seen. -/
def ReadAt (s : Sys) (p : List Obs) (d : DeviceId) (cid : CapabilityId) (v : Value) : Prop :=
  ∃ r n, Seen p n ∧ n ≤ s.shared.state.revision ∧
    registrationOf d (upTo n (changes s.history)) = some r ∧
    (recordOf r.ref (upTo n (changes s.history)))[cid]? = some v

structure SnapshotOk (s : Sys) : Prop where
  called : ∀ p k call q, s.history = p ++ .invoked k call :: q →
    ∃ u : Thread, s.calls[k]? = some u ∧ u.call = call
  running : ∀ (k : CallId) (call : Call) (snapshot : Snapshot) (r : RegisteredDevice)
    (todo : List RegisteredDevice),
    s.calls[k]? = some (.running call (.snapshotValues snapshot r todo)) →
    (∃ done, Snapped s snapshot done (r :: todo)) ∧
      ∀ p call' q, s.history = p ++ .invoked k call' :: q → Seen p snapshot.revision
  snapshots : ∀ p k call q snapshot, s.history = p ++ .invoked k call :: q →
    .returned k (.ok (.snapshot snapshot)) ∈ q →
    (∃ done, Snapped s snapshot done []) ∧ Seen p snapshot.revision
  reads : ∀ p k call q d cid v, s.history = p ++ .invoked k call :: q → call.op = .read d cid →
    .returned k (.ok (.value v)) ∈ q → ReadAt s p d cid v

theorem readAt_grows {s s' : Sys} (hg : Grows s s') {p : List Obs} {d : DeviceId}
    {cid : CapabilityId} {v : Value} (h : ReadAt s p d cid v) : ReadAt s' p d cid v := by
  obtain ⟨r, n, h1, h2, h3, h4⟩ := h
  refine ⟨r, n, h1, Nat.le_trans h2 hg.revision, ?_, ?_⟩
  · rw [hg.upTo h2]
    exact h3
  · rw [hg.upTo h2]
    exact h4

/-- The next await point of a snapshot, or its return, after it has read `done`. -/
theorem snapshotNext_goto {snapshot snapshot' : Snapshot} {rest todo : List RegisteredDevice}
    {r : RegisteredDevice} (h : snapshotNext snapshot rest = .goto (.snapshotValues snapshot' r todo)) :
    snapshot' = snapshot ∧ rest = r :: todo := by
  unfold snapshotNext at h
  split at h
  · exact Next.noConfusion h
  · obtain ⟨rfl, rfl, rfl⟩ := Pc.snapshotValues.inj (Next.goto.inj h)
    exact ⟨rfl, rfl⟩

theorem snapshotNext_ret {snapshot snapshot' : Snapshot} {rest : List RegisteredDevice}
    (h : snapshotNext snapshot rest = .ret (.snapshot snapshot')) :
    snapshot' = snapshot ∧ rest = [] := by
  unfold snapshotNext at h
  split at h
  · exact ⟨(Reply.snapshot.inj (Next.ret.inj h)).symm, rfl⟩
  · exact Next.noConfusion h

section SnapshotStep

variable {s s' : Sys} {k : CallId} {call : Call} {pc : Pc} {e : Effect} {n : Next}

/-- One section of a snapshot: what it has read so far and what it has left. -/
theorem snapped_move (hok : s.Ok) (hl : LedgerOk s) (hs : s.StreamsOk) (hsnap : SnapshotOk s)
    (hk : s.calls[k]? = some (.running call pc)) (hr : s.ready call pc = true)
    (hm : Move s.shared call pc e n) {snapshot : Snapshot} {rest : List RegisteredDevice}
    (hn : (∃ r todo, rest = r :: todo ∧ n = .goto (.snapshotValues snapshot r todo)) ∨
      (rest = [] ∧ n = .ret (.snapshot snapshot))) :
    (∃ done, Snapped s snapshot done rest) ∧
      ∀ p call' q, s.history = p ++ .invoked k call' :: q → Seen p snapshot.revision := by
  have hnext : ∀ snap l, n = snapshotNext snap l → snapshot = snap ∧ rest = l := by
    rintro snap l rfl
    rcases hn with ⟨r, todo, rfl, h⟩ | ⟨rfl, h⟩
    · obtain ⟨h1, h2⟩ := snapshotNext_goto h
      exact ⟨h1, h2.symm⟩
    · obtain ⟨h1, h2⟩ := snapshotNext_ret h
      exact ⟨h1, h2.symm⟩
  generalize hn' : n = n' at hm
  cases hm with
  | snapshotState =>
    obtain ⟨rfl, rfl⟩ := hnext _ _ hn'
    refine ⟨⟨[], snapped_start hok hl hs _ _⟩, fun p call' q hp => ?_⟩
    have hseen := seen_of_streams hs
    rw [hp] at hseen
    exact hseen.of_append
  | @snapshotValues snap r todo =>
    obtain ⟨rfl, rfl⟩ := hnext _ _ hn'
    obtain ⟨⟨done, hd⟩, hseen⟩ := hsnap.running k call snap r _ hk
    exact ⟨⟨done ++ [r], snapped_read hl hs hd (ready_free hr rfl)⟩, hseen⟩
  | restoreNew | restore =>
    rcases hn with ⟨r, todo, -, h⟩ | ⟨-, h⟩
    · rw [h] at hn'
      have := Next.goto.inj hn'
      simp only [Restored.next] at this
      split at this <;> exact Pc.noConfusion this
    · rw [h] at hn'
      exact Next.noConfusion hn'
  | unchanged | commit =>
    rcases hn with ⟨r, todo, -, h⟩ | ⟨-, h⟩
    · rw [h] at hn'
      exact Next.noConfusion hn'
    · rw [h] at hn'
      have := Next.ret.inj hn'
      unfold Op.committed at this
      split at this <;> exact Reply.noConfusion this
  | _ =>
    rcases hn with ⟨r, todo, -, h⟩ | ⟨-, h⟩
    · rw [h] at hn'
      first | exact Next.noConfusion hn' | exact Pc.noConfusion (Next.goto.inj hn')
    · rw [h] at hn'
      first | exact Next.noConfusion hn' | exact Reply.noConfusion (Next.ret.inj hn')

/-- The value that `read` returns. -/
theorem readAt_move (hok : s.Ok) (hl : LedgerOk s) (hs : s.StreamsOk)
    (hk : s.calls[k]? = some (.running call pc)) (hr : s.ready call pc = true)
    (hm : Move s.shared call pc e n) {d : DeviceId} {cid : CapabilityId} {v : Value}
    (hop : call.op = .read d cid) (hn : n = .ret (.value v)) {p q : List Obs} {call' : Call}
    (hp : s.history = p ++ .invoked k call' :: q) : ReadAt s p d cid v := by
  have hpc := hok.pc k call pc hk
  have hup : upTo s.shared.state.revision (changes s.history) = changes s.history :=
    upTo_eq_self hs.revisions.le
  cases hm with
  | @read d' cid' r v' hop' hv =>
    obtain rfl := Reply.value.inj (Next.ret.inj hn)
    obtain ⟨d'', cid'', c, hop'', hlook, -⟩ := hpc
    rw [hop, Op.read.injEq] at hop' hop''
    obtain ⟨rfl, rfl⟩ := hop'
    obtain ⟨rfl, rfl⟩ := hop''
    obtain ⟨-, hreg, -⟩ := lookup_ok.mp hlook
    have hcur := hl.values r.ref (hok.shared.fresh d r hreg) (settled_of_free (ready_free hr rfl))
    have hseen := seen_of_streams hs
    rw [hp] at hseen
    refine ⟨r, s.shared.state.revision, hseen.of_append, Nat.le_refl _, ?_, ?_⟩
    · rw [hup]
      exact (hl.table d r hreg).1
    · rw [hup, ← hcur]
      exact hv
  | unchanged hv =>
    obtain ⟨he, -⟩ := hpc
    simp [Entered, hop] at he
  | commit ht => simp [hop, Op.target] at ht
  | snapshotState =>
    simp [show call.op = .snapshot from hpc] at hop
  | snapshotValues => simp [show call.op = .snapshot from hpc] at hop
  | _ => simp at hn

end SnapshotStep

theorem step_snapshot {s s' : Sys} {a : Action} (hok : s.Ok) (hl : LedgerOk s) (hs : s.StreamsOk)
    (hsnap : SnapshotOk s) (hw : whole s a) (h : step s a = some s') : SnapshotOk s' := by
  obtain ⟨m, ht⟩ := step_traced h
  have hg := grows_of_ledger (ledger_step hw h)
  refine ⟨?_, ?_, ?_, ?_⟩
  · intro p k call q hp
    rcases ht.split hp with ⟨rfl, hk, hq⟩ | ⟨q', hp', rfl⟩
    · have hmem : .invoked k call ∈ m := by
        have hm := ht.history
        rw [hp] at hm
        rw [← List.append_cancel_left hm]
        simp
      exact (ht.invoked k call hmem).2.2
    · obtain ⟨u, hu, hc⟩ := hsnap.called p k call q' hp'
      obtain ⟨u', hu', hc'⟩ := ht.kept k u hu
      exact ⟨u', hu', hc'.trans hc⟩
  · intro k call snapshot r todo hk
    rcases ht.running k call _ hk with hk | ⟨-, hb⟩ | ⟨pc₀, e, hk, hr, hm⟩
    · obtain ⟨⟨done, hd⟩, hseen⟩ := hsnap.running k call snapshot r todo hk
      refine ⟨⟨done, snapped_grows hl hg hd⟩, fun p call' q hp => ?_⟩
      rcases ht.split hp with ⟨-, hnew, -⟩ | ⟨q', hp', -⟩
      · simp [Std.ExtTreeMap.getElem?_eq_none hnew] at hk
      · exact hseen p call' q' hp'
    · obtain ⟨h, -⟩ | ⟨h, -⟩ | ⟨h, -⟩ := begin_ok hb <;> exact Pc.noConfusion h
    · obtain ⟨⟨done, hd⟩, hseen⟩ :=
        snapped_move hok hl hs hsnap hk hr hm (.inl ⟨r, todo, rfl, rfl⟩)
      refine ⟨⟨done, snapped_grows hl hg hd⟩, fun p call' q hp => ?_⟩
      rcases ht.split hp with ⟨-, hnew, -⟩ | ⟨q', hp', -⟩
      · simp [Std.ExtTreeMap.getElem?_eq_none hnew] at hk
      · exact hseen p call' q' hp'
  · intro p k call q snapshot hp hret
    rcases ht.split hp with ⟨-, -, hq⟩ | ⟨q', hp', rfl⟩
    · obtain ⟨e, he⟩ := hq _ hret
      simp at he
    · rcases List.mem_append.mp hret with hret | hret
      · obtain ⟨⟨done, hd⟩, hseen⟩ := hsnap.snapshots p k call q' snapshot hp' hret
        exact ⟨⟨done, snapped_grows hl hg hd⟩, hseen⟩
      · obtain ⟨call', pc, e, hk, hr, hm⟩ := ht.returned k _ hret
        obtain ⟨⟨done, hd⟩, hseen⟩ := snapped_move hok hl hs hsnap hk hr hm (.inr ⟨rfl, rfl⟩)
        exact ⟨⟨done, snapped_grows hl hg hd⟩, hseen p call q' hp'⟩
  · intro p k call q d cid v hp hop hret
    rcases ht.split hp with ⟨-, -, hq⟩ | ⟨q', hp', rfl⟩
    · obtain ⟨e, he⟩ := hq _ hret
      simp at he
    · rcases List.mem_append.mp hret with hret | hret
      · exact readAt_grows hg (hsnap.reads p k call q' d cid v hp' hop hret)
      · obtain ⟨call', pc, e, hk, hr, hm⟩ := ht.returned k _ hret
        obtain ⟨u, hu, hc⟩ := hsnap.called p k call q' hp'
        rw [hk, Option.some.injEq] at hu
        obtain rfl : call' = call := by rw [← hc, ← hu]; rfl
        exact readAt_grows hg (readAt_move hok hl hs hk hr hm hop rfl hp')

/-! ## Events on top of a snapshot -/

/-- The events of device `d` above revision `n`, applied in order. -/
def applyEvents (n : Nat) (d : DeviceId) (record : Record) (events : List Event) : Record :=
  events.foldl (fun record event =>
    if event.deviceId = d ∧ n < event.revision then
      record.insert event.capabilityId event.value
    else record) record

/-- The last value that a list of changes commits to a capability of a registration. -/
def lastValue (ref : Ref) (cid : CapabilityId) : List Change → Option Value
  | [] => none
  | .committed r c event :: cs =>
    (lastValue ref cid cs).or (if r.ref = ref ∧ c.id = cid then some event.value else none)
  | _ :: cs => lastValue ref cid cs

theorem lastValue_append (ref : Ref) (cid : CapabilityId) (cs ds : List Change) :
    lastValue ref cid (cs ++ ds) = (lastValue ref cid ds).or (lastValue ref cid cs) := by
  induction cs with
  | nil => simp [lastValue]
  | cons c cs ih =>
    cases c with
    | committed r c event =>
      rw [List.cons_append, lastValue, lastValue, ih, Option.or_assoc]
    | _ =>
      rw [List.cons_append, lastValue, lastValue]
      · exact ih
      · simp
      · simp

/-- Without a registration, replaying changes is the last value or what was there. -/
theorem replay_lastValue {ref : Ref} {cs : List Change}
    (h : ∀ n r current, .registered n r current ∈ cs → r.ref ≠ ref) (record : Record)
    (cid : CapabilityId) :
    (cs.foldl (Change.replay ref) record)[cid]? = (lastValue ref cid cs).or record[cid]? := by
  induction cs generalizing record with
  | nil => simp [lastValue]
  | cons c cs ih =>
    rw [List.foldl_cons, ih fun n r current hr => h n r current (List.mem_cons_of_mem _ hr)]
    cases c with
    | committed r c event =>
      rw [lastValue, Option.or_assoc]
      congr 1
      rw [Change.replay]
      by_cases hr : r.ref = ref
      · rw [if_pos hr, getElem?_insert]
        by_cases hc : c.id = cid <;> simp [hr, hc]
      · simp [hr]
    | registered n r current =>
      rw [Change.replay, if_neg (h n r current (by simp)), lastValue]
      simp
    | unregistered n r =>
      rw [Change.replay, lastValue]
      simp

/-- The events of a list of changes carry the same last values to the observable capabilities. -/
theorem applyEvents_lastValue {n : Nat} {r : RegisteredDevice} {c : Capability}
    {cs : List Change} (hobs : c.permissions.observe = true) (hn : ∀ x ∈ cs, n < x.revision)
    (hown : ∀ r' c' event, .committed r' c' event ∈ cs → event.deviceId = r'.definition.id ∧
      event.capabilityId = c'.id ∧
      (event.deviceId = r.definition.id → r' = r) ∧ (r'.ref = r.ref → r' = r) ∧
      (r' = r → c'.id = c.id → c' = c))
    (record : Record) :
    (applyEvents n r.definition.id record (cs.filterMap statesView.sent))[c.id]? =
      (lastValue r.ref c.id cs).or record[c.id]? := by
  induction cs generalizing record with
  | nil => simp [applyEvents, lastValue]
  | cons x cs ih =>
    have ih := ih (fun x hx => hn x (List.mem_cons_of_mem _ hx))
      fun r' c' event h => hown r' c' event (List.mem_cons_of_mem _ h)
    cases x with
    | committed r' c' event =>
      obtain ⟨hd, hcap, hdev, href, hc'⟩ := hown r' c' event (by simp)
      have hrev : n < event.revision := hn (.committed r' c' event) (by simp)
      rw [lastValue, Option.or_assoc]
      by_cases ho : c'.permissions.observe = true
      · have hcons : (Change.committed r' c' event :: cs).filterMap statesView.sent =
            event :: cs.filterMap statesView.sent := by
          simp [ho]
        rw [hcons, applyEvents, List.foldl_cons]
        refine (ih _).trans (congrArg _ ?_)
        by_cases hdd : event.deviceId = r.definition.id
        · obtain rfl := hdev hdd
          rw [if_pos ⟨hdd, hrev⟩, getElem?_insert, hcap]
          by_cases hcc : c'.id = c.id <;> simp [hcc]
        · have hrr : r'.ref ≠ r.ref := fun h => hdd (by rw [hd, href h])
          rw [if_neg (fun h => hdd h.1)]
          simp [hrr]
      · have hcons : (Change.committed r' c' event :: cs).filterMap statesView.sent =
            cs.filterMap statesView.sent := by
          simp [ho]
        rw [hcons, ih]
        congr 1
        have hno : ¬ (r'.ref = r.ref ∧ c'.id = c.id) := by
          rintro ⟨h1, h2⟩
          exact ho (hc' (href h1) h2 ▸ hobs)
        simp [hno]
    | registered m r' current | unregistered m r' =>
      rw [lastValue]
      · exact ih record
      · simp

/-- The changes above a revision. -/
def above (n : Nat) (cs : List Change) : List Change := cs.filter (n < ·.revision)

theorem mem_above {n : Nat} {cs : List Change} {c : Change} :
    c ∈ above n cs ↔ c ∈ cs ∧ n < c.revision := by
  simp [above]

theorem above_append (n : Nat) (cs ds : List Change) :
    above n (cs ++ ds) = above n cs ++ above n ds :=
  List.filter_append cs ds

theorem mem_upTo {n : Nat} {cs : List Change} {c : Change} :
    c ∈ upTo n cs ↔ c ∈ cs ∧ c.revision ≤ n := by
  simp [upTo]

/-- Revisions increase, so a ledger is its changes up to a revision followed by those above. -/
theorem upTo_append_above {cs : List Change}
    (h : (cs.map Change.revision).Pairwise (· < ·)) (n : Nat) : upTo n cs ++ above n cs = cs := by
  induction cs with
  | nil => rfl
  | cons c cs ih =>
    rw [List.map_cons, List.pairwise_cons] at h
    have ih := ih h.2
    by_cases hc : c.revision ≤ n
    · have hc' : ¬ n < c.revision := by omega
      simpa [upTo, above, hc, hc'] using ih
    · have hall : ∀ x ∈ cs, n < x.revision := fun x hx => by
        have := h.1 _ (List.mem_map.mpr ⟨x, hx, rfl⟩)
        omega
      have hup : upTo n cs = [] :=
        List.filter_eq_nil_iff.mpr fun x hx => by simpa using hall x hx
      have hab : above n cs = cs :=
        List.filter_eq_self.mpr fun x hx => by simpa using hall x hx
      have hc' : n < c.revision := by omega
      rw [upTo, above, List.filter_cons_of_neg (by simpa using hc'),
        List.filter_cons_of_pos (by simpa using hc')]
      show upTo n cs ++ c :: above n cs = c :: cs
      rw [hup, hab]
      rfl

/-- Events up to the revision of the snapshot are not applied. -/
theorem applyEvents_above (n : Nat) (d : DeviceId) (record : Record) (cs : List Change) :
    applyEvents n d record (cs.filterMap statesView.sent) =
      applyEvents n d record ((above n cs).filterMap statesView.sent) := by
  induction cs generalizing record with
  | nil => rfl
  | cons c cs ih =>
    by_cases hc : n < c.revision
    · rw [above, List.filter_cons_of_pos (by simpa using hc)]
      cases hs : statesView.sent c with
      | none =>
        rw [List.filterMap_cons_none hs, List.filterMap_cons_none hs]
        exact ih record
      | some event =>
        rw [List.filterMap_cons_some hs, List.filterMap_cons_some hs, applyEvents,
          List.foldl_cons]
        exact ih _
    · rw [above, List.filter_cons_of_neg (by simpa using hc)]
      cases hs : statesView.sent c with
      | none =>
        rw [List.filterMap_cons_none hs]
        exact ih record
      | some event =>
        have hrev : event.revision = c.revision := statesView.revision_sent c event hs
        rw [List.filterMap_cons_some hs, applyEvents, List.foldl_cons,
          if_neg (fun h => hc (hrev ▸ h.2))]
        exact ih record

/-- The part of the ledger above the snapshot, on top of a record that already has some of it. -/
theorem replay_complete {s : Sys} (hl : LedgerOk s) (hs : s.StreamsOk) {d : DeviceId}
    {r : RegisteredDevice} {n₀ n n' : Nat} {current : Record} {c : Capability}
    (hr : s.shared.state.devices[d]? = some r) (hd : r.definition.id = d)
    (hreg : .registered n₀ r current ∈ changes s.history) (hn₀ : n₀ ≤ n) (hn : n ≤ n')
    (hc : r.capabilities[c.id]? = some c) (hobs : c.permissions.observe = true) :
    (applyEvents n d (recordOf r.ref (upTo n' (changes s.history)))
      ((above n (changes s.history)).filterMap statesView.sent))[c.id]? =
      (recordOf r.ref (changes s.history))[c.id]? := by
  have hnoreg : ∀ m r' current', .registered m r' current' ∈ above n (changes s.history) →
      r'.ref ≠ r.ref := by
    intro m r' current' hm href
    obtain ⟨hmem, hlt⟩ := mem_above.mp hm
    have heq := (hl.once _ _ _ _ _ _ hmem hreg href).1
    simp only [Change.revision] at hlt
    omega
  have hown : ∀ r' c' event, .committed r' c' event ∈ above n (changes s.history) →
      event.deviceId = r'.definition.id ∧ event.capabilityId = c'.id ∧
      (event.deviceId = r.definition.id → r' = r) ∧ (r'.ref = r.ref → r' = r) ∧
      (r' = r → c'.id = c.id → c' = c) := by
    intro r' c' event hm
    obtain ⟨hmem, hlt⟩ := mem_above.mp hm
    simp only [Change.revision] at hlt
    obtain ⟨h1, h2, h3, m, current', h4⟩ := hl.commits r' c' event hmem
    refine ⟨h1, h2, fun h => ?_, fun h => (hl.once _ _ _ _ _ _ h4 hreg h).2, ?_⟩
    · exact hl.own d r n₀ current hr hreg r' c' event hmem (h.trans hd) (by omega)
    · rintro rfl hid
      rw [hid, hc, Option.some.injEq] at h3
      exact h3.symm
  generalize hlo : upTo n (changes s.history) = lo
  generalize hhi : above n (changes s.history) = hi at hnoreg hown
  have hcs : changes s.history = lo ++ hi := by
    rw [← hlo, ← hhi, upTo_append_above hs.revisions.increasing]
  have hhigh : ∀ x ∈ hi, n < x.revision := fun x hx => (mem_above.mp (hhi ▸ hx)).2
  have hlow : upTo n' lo = lo := upTo_eq_self fun x hx => by
    rw [← hlo] at hx
    have := (mem_upTo.mp hx).2
    omega
  -- the changes above `n` are those up to `n'`, which the record already has, and the rest
  have hsplit : upTo n' hi ++ above n' hi = hi := by
    refine upTo_append_above ?_ n'
    have hinc := hs.revisions.increasing
    rw [hcs, List.map_append, List.pairwise_append] at hinc
    exact hinc.2.1
  have hmid : ∀ m r' current', .registered m r' current' ∈ upTo n' hi → r'.ref ≠ r.ref :=
    fun m r' current' hm => hnoreg m r' current' (mem_upTo.mp hm).1
  have hrecord : (recordOf r.ref (upTo n' (changes s.history)))[c.id]? =
      (lastValue r.ref c.id (upTo n' hi)).or (recordOf r.ref lo)[c.id]? := by
    have : upTo n' (lo ++ hi) = lo ++ upTo n' hi := by
      rw [upTo, List.filter_append]
      exact congrArg (· ++ _) hlow
    rw [hcs, this, recordOf, List.foldl_append, replay_lastValue hmid]
    rfl
  have hall : (recordOf r.ref (lo ++ hi))[c.id]? =
      (lastValue r.ref c.id hi).or (recordOf r.ref lo)[c.id]? := by
    rw [recordOf, List.foldl_append, replay_lastValue hnoreg]
    rfl
  rw [← hd, applyEvents_lastValue hobs hhigh hown, hrecord, hcs, hall, ← hsplit,
    lastValue_append, hsplit]
  cases lastValue r.ref c.id (above n' hi) <;> cases lastValue r.ref c.id (upTo n' hi) <;> simp

/-! ## Every run -/

/-- What holds in a run in which no commit is torn. -/
structure Sys.Whole (s : Sys) : Prop where
  ok : s.Ok
  streams : s.StreamsOk
  ledger : LedgerOk s
  snapshot : SnapshotOk s

theorem step_whole {s s' : Sys} {a : Action} (h : s.Whole) (hw : whole s a)
    (hs : step s a = some s') : s'.Whole :=
  ⟨step_ok h.ok hs, step_streams h.streams hs,
    step_ledger h.ledger h.ok h.streams.revisions hw hs,
    step_snapshot h.ok h.ledger h.streams h.snapshot hw hs⟩

theorem new_whole (persistent : Bool) (store : DeviceId → Option Record) :
    (Sys.new persistent store).Whole :=
  ⟨new_ok persistent store, new_streams persistent store, new_ledger persistent store,
    by constructor <;> simp [Sys.new]⟩

theorem run_whole {persistent : Bool} {store : DeviceId → Option Record} {as : List Action}
    {s : Sys} (hw : Machine.Meets step whole (Sys.new persistent store) as)
    (hrun : run (Sys.new persistent store) as = some s) : s.Whole :=
  Machine.run_inv_of_meets (fun _ _ _ h hw hs => step_whole h hw hs)
    (new_whole persistent store) hw hrun

/-- The values of every device of a snapshot include every commit up to its revision: they are
    the replay of the ledger, for the registration at that revision, up to a revision not below. -/
def Snapshot.Includes (s : Sys) (snapshot : Snapshot) : Prop :=
  ∀ state ∈ snapshot.devices, ∃ r n,
    registrationOf state.device.id (upTo snapshot.revision (changes s.history)) = some r ∧
      r.definition = state.device ∧ snapshot.revision ≤ n ∧
      state.values = recordOf r.ref (upTo n (changes s.history))

/-- For a subscriber `id` that has received all there is, the events above the revision of the
    snapshot turn its values into the current ones, on every observable capability of every device
    that was registered before the snapshot and still is. -/
def Snapshot.CompletedBy (s : Sys) (snapshot : Snapshot) (id : Nat) : Prop :=
  ¬ Ended id (statesView.log s.history) → (s.shared.state.subscriptions.chan id).queue = [] →
  ∀ (d : DeviceId) (r : RegisteredDevice) (n : Nat) (current : Record),
    s.shared.state.devices[d]? = some r → .registered n r current ∈ changes s.history →
    n ≤ snapshot.revision → s.Settled r.ref →
    ∃ state ∈ snapshot.devices, state.device = r.definition ∧
      ∀ c : Capability, r.capabilities[c.id]? = some c → c.permissions.observe = true →
        (applyEvents snapshot.revision d state.values
          (receivedBy id (statesView.log s.history)))[c.id]? =
          (s.shared.values r.ref).current[c.id]?

theorem mem_forall₂ {α β : Type} {R : α → β → Prop} {l : List α} {m : List β}
    (h : List.Forall₂ R l m) :
    (∀ a ∈ l, ∃ b ∈ m, R a b) ∧ ∀ b ∈ m, ∃ a ∈ l, R a b := by
  induction h with
  | nil => simp
  | cons hab _ ih => simp_all

theorem includes_of_snapped {s : Sys} {snapshot : Snapshot} {done : List RegisteredDevice}
    (h : Snapped s snapshot done []) : snapshot.Includes s := by
  intro state hstate
  obtain ⟨r, -, h1, h2, n, h3, -, h4⟩ := (mem_forall₂ h.sampled).2 state hstate
  exact ⟨r, n, by rw [h1]; exact h2, h1.symm, h3, h4⟩

theorem completedBy_of_snapped {s : Sys} (hw : s.Whole) {snapshot : Snapshot}
    {done : List RegisteredDevice} (h : Snapped s snapshot done []) {p q : List Obs} {k : CallId}
    {call : Call} (hp : s.history = p ++ .invoked k call :: q) (hseen : Seen p snapshot.revision)
    {id : Nat} (hid : .states (.subscribed id) ∈ p) : snapshot.CompletedBy s id := by
  intro hend hqueue d r n current hr hreg hn hset
  have hsub : .subscribed id ∈ statesView.log p := mem_log_states.mpr hid
  have hsub' : .subscribed id ∈ statesView.log s.history := by
    rw [hp, View.log_append]
    exact List.mem_append_left _ hsub
  have hdel := delivered_of_streams hw.streams.states hw.streams.revisions hsub'
  have hall := hdel.whole hend
  rw [show (statesView.hub s.shared.state).chan id = s.shared.state.subscriptions.chan id from rfl,
    hqueue, List.append_nil] at hall
  have hrdone : r ∈ done := by simpa using h.complete d r n current hr hreg hn
  obtain ⟨state, hstate, h1, -, n', h3, -, h5⟩ := (mem_forall₂ h.sampled).1 r hrdone
  refine ⟨state, hstate, h1, fun c hc hobs => ?_⟩
  rw [hw.ledger.values r.ref (hw.ok.shared.fresh d r hr) hset, hall, h5]
  -- what was announced before the call has a revision up to the snapshot's
  have hnil : ∀ x : List Obs, x <:+ p → above snapshot.revision (changes x) = [] := by
    rintro x ⟨l, rfl⟩
    refine List.filter_eq_nil_iff.mpr fun y hy => ?_
    have := hseen.1 y (by rw [changes_append]; exact List.mem_append_right _ hy)
    simp only [decide_eq_true_eq]
    omega
  have habove : above snapshot.revision (changes (statesView.since id s.history)) =
      above snapshot.revision (changes s.history) := by
    rw [hp, View.since_append_of_mem _ hsub, changes_append, changes_append, above_append,
      above_append, hnil _ (statesView.since_suffix id p), hnil _ List.suffix_rfl]
  rw [View.announced, applyEvents_above, habove]
  exact replay_complete hw.ledger hw.streams hr (hw.ok.shared.key d r hr) hreg hn h3 hc hobs

/-- In a run in which no call is dropped between the change of the values and its revision: a
    snapshot includes every commit up to its revision, the later events of a subscriber that was
    there before complete it, and a snapshot or a read that starts after an event was received
    reflects the commit of that event. -/
theorem snapshot_replay {persistent : Bool} {store : DeviceId → Option Record} {as : List Action}
    {s : Sys} (hw : Machine.Meets step whole (Sys.new persistent store) as)
    (hrun : run (Sys.new persistent store) as = some s) :
    (∀ p k call q snapshot, s.history = p ++ .invoked k call :: q →
      .returned k (.ok (.snapshot snapshot)) ∈ q →
      snapshot.Includes s ∧ (∀ id, .states (.subscribed id) ∈ p → snapshot.CompletedBy s id) ∧
        ∀ id event, .states (.received id event) ∈ p → event.revision ≤ snapshot.revision) ∧
    ∀ p k call q d cid v, s.history = p ++ .invoked k call :: q → call.op = .read d cid →
      .returned k (.ok (.value v)) ∈ q → ∀ id event, .states (.received id event) ∈ p →
      ∃ r n, event.revision ≤ n ∧ registrationOf d (upTo n (changes s.history)) = some r ∧
        (recordOf r.ref (upTo n (changes s.history)))[cid]? = some v := by
  have h := run_whole hw hrun
  refine ⟨fun p k call q snapshot hp hret => ?_, fun p k call q d cid v hp hop hret id event he => ?_⟩
  · obtain ⟨⟨done, hd⟩, hseen⟩ := h.snapshot.snapshots p k call q snapshot hp hret
    exact ⟨includes_of_snapped hd, fun id hid => completedBy_of_snapped h hd hp hseen hid, hseen.2⟩
  · obtain ⟨r, n, hseen, -, h1, h2⟩ := h.snapshot.reads p k call q d cid v hp hop hret
    exact ⟨r, n, hseen.2 id event he, h1, h2⟩

def Action.isAbandon : Action → Bool
  | .abandon _ => true
  | _ => false

theorem whole_of_isAbandon {s : Sys} {a : Action} (h : a.isAbandon = false) : whole s a := by
  rintro k call pc rfl
  simp [Action.isAbandon] at h

theorem whole_of_not_abandon {s : Sys} {as : List Action}
    (h : ∀ a ∈ as, a.isAbandon = false) : Machine.Meets step whole s as :=
  Machine.meets_mono (fun _ _ ha => whole_of_isAbandon ha) (Machine.meets_of_forall h)

/-- A snapshot between the subscription and a publication whose event is received. -/
def lampSnapshot : List Action :=
  lampStart ++ alone 2 { op := .subscribe 4 } 2 ++ alone 4 { op := .snapshot } 2 ++
    alone 3 (publishLamp true) 8 ++ [.recv .states 1]

def lampReplayed : Sys := (run (Sys.new true fun _ => none) lampSnapshot).get (by decide)

def lampSampled : Snapshot := ⟨true, 1, [⟨lamp, (∅ : Record).insert lampOn.id (.bool false)⟩], 1⟩

theorem snapshot_replay_lamp :
    lampSampled.Includes lampReplayed ∧ lampSampled.CompletedBy lampReplayed 1 := by
  have hrun : run (Sys.new true fun _ => none) lampSnapshot = some lampReplayed :=
    (Option.some_get _).symm
  have hp : lampReplayed.history = lampReplayed.history.take 9 ++
      .invoked 4 { op := .snapshot } :: lampReplayed.history.drop 10 := rfl
  have hret : .returned 4 (.ok (.snapshot lampSampled)) ∈ lampReplayed.history.drop 10 :=
    List.mem_of_getElem? (i := 0) rfl
  have hsub : .states (.subscribed 1) ∈ lampReplayed.history.take 9 :=
    List.mem_of_getElem? (i := 7) rfl
  obtain ⟨h1, h2, -⟩ := (snapshot_replay (whole_of_not_abandon (by decide)) hrun).1 _ _ _ _ _ hp hret
  exact ⟨h1, h2 1 hsub⟩

/-- The same run, but the publication is dropped while it waits for the state lock under which it
    takes its revision. -/
def lampTorn : List Action :=
  lampStart ++ alone 2 { op := .subscribe 4 } 2 ++ alone 4 { op := .snapshot } 2 ++
    alone 3 (publishLamp true) 7 ++ [.abandon 3]

def lampTornState : Sys := (run (Sys.new true fun _ => none) lampTorn).get (by decide)

theorem not_snapshot_replay_lampTorn :
    ∃ s p q, run (Sys.new true fun _ => none) lampTorn = some s ∧ s.Quiet ∧
      s.history = p ++ .invoked 4 { op := .snapshot } :: q ∧
      .returned 4 (.ok (.snapshot lampSampled)) ∈ q ∧ .states (.subscribed 1) ∈ p ∧
      ¬ lampSampled.CompletedBy s 1 := by
  have hquiet : lampTornState.Quiet := quiet_of_settled (by decide)
  refine ⟨lampTornState, lampTornState.history.take 9, lampTornState.history.drop 10,
    (Option.some_get _).symm, hquiet, rfl, List.mem_of_getElem? (i := 0) rfl,
    List.mem_of_getElem? (i := 7) rfl, fun h => ?_⟩
  have hreg : Change.registered 1 ⟨0, lamp, capabilityMap lamp.capabilities, true⟩
      ((∅ : Record).insert lampOn.id (.bool false)) ∈ changes lampTornState.history :=
    List.mem_of_getElem? (i := 0) rfl
  have hset : lampTornState.Settled 0 := fun k call pc hk => absurd hk (hquiet k call pc)
  obtain ⟨state, hstate, -, hvalues⟩ :=
    h (by unfold Ended; decide) rfl lamp.id _ 1 _ rfl hreg (by decide) hset
  obtain rfl := List.mem_singleton.mp hstate
  -- No event has come, so the replay is false, while the lamp is on.
  have hon := hvalues lampOn rfl rfl
  revert hon
  decide

end Oikade.Core
