/-
  The changes of a run as a ledger that the values in memory can be replayed from.

  `recordOf ref cs` replays the registration `ref` and its commits; `registrationOf d cs` is the
  registration of device `d` after the changes `cs`. `LedgerStep` says what a step of the machine
  does to the ledger, the device table and the values. `LedgerOk` holds in every state of a run in
  which no call is dropped between the change of the values and its revision (`whole`): the values
  in memory are the replay of the ledger (`LedgerOk.values`), up to the one commit that is just
  between the two.
-/
import Oikade.Core.Linear

namespace Oikade.Core

/-! ## Replaying changes -/

/-- What a change does to the record of registration `ref`. -/
def Change.replay (ref : Ref) (record : Record) : Change → Record
  | .registered _ r current => if r.ref = ref then current else record
  | .committed r c event => if r.ref = ref then record.insert c.id event.value else record
  | .unregistered .. => record

def recordOf (ref : Ref) (cs : List Change) : Record := cs.foldl (Change.replay ref) ∅

/-- What a change does to the registration of device `d`. -/
def Change.register (d : DeviceId) (registration : Option RegisteredDevice) :
    Change → Option RegisteredDevice
  | .registered _ r _ => if r.definition.id = d then some r else registration
  | .unregistered _ r => if r.definition.id = d then none else registration
  | .committed .. => registration

def registrationOf (d : DeviceId) (cs : List Change) : Option RegisteredDevice :=
  cs.foldl (Change.register d) none

/-- The changes up to a revision. -/
def upTo (n : Nat) (cs : List Change) : List Change := cs.filter (·.revision ≤ n)

@[simp] theorem recordOf_snoc (ref : Ref) (cs : List Change) (c : Change) :
    recordOf ref (cs ++ [c]) = c.replay ref (recordOf ref cs) := by
  simp [recordOf]

@[simp] theorem registrationOf_snoc (d : DeviceId) (cs : List Change) (c : Change) :
    registrationOf d (cs ++ [c]) = c.register d (registrationOf d cs) := by
  simp [registrationOf]

theorem upTo_eq_self {n : Nat} {cs : List Change} (h : ∀ c ∈ cs, c.revision ≤ n) :
    upTo n cs = cs :=
  List.filter_eq_self.mpr fun c hc => by simpa using h c hc

/-- Later changes do not show below. -/
theorem upTo_append {n : Nat} {cs ds : List Change} (h : ∀ c ∈ ds, n < c.revision) :
    upTo n (cs ++ ds) = upTo n cs := by
  have hnil : ds.filter (·.revision ≤ n) = [] :=
    List.filter_eq_nil_iff.mpr fun c hc => by simpa using h c hc
  rw [upTo, List.filter_append, hnil, List.append_nil, upTo]

/-! ## One step and the ledger -/

/-- No call is dropped between the change of the values and its revision. -/
def whole (s : Sys) (a : Action) : Prop :=
  ∀ k call pc, a = .abandon k → s.calls[k]? = some (.running call pc) → pc.updated = none

/-- What a step does to the ledger, the device table and the values. -/
inductive LedgerStep (s s' : Sys) : Prop where
  | keep (hch : changes s'.history = changes s.history)
    (hdev : ∀ (d : DeviceId) (r : RegisteredDevice), s'.shared.state.devices[d]? = some r →
      s.shared.state.devices[d]? = some r)
    (hval : s'.shared.values = s.shared.values) (hn : s'.shared.nextRef = s.shared.nextRef)
    (hrev : s'.shared.state.revision = s.shared.state.revision)
    (hup : ∀ (k : CallId) (call : Call) (pc : Pc) (ref : Ref), pc.updated = some ref →
      (s'.calls[k]? = some (.running call pc) ↔ s.calls[k]? = some (.running call pc)))
  | update {k : CallId} {call : Call} {r : RegisteredDevice} {c : Capability} {v : Value}
    {next : Record} (hk : s.calls[k]? = some (.running call (.confirmSaved r c v next)))
    (hcalls : s'.calls = s.calls.insert k (.running call (.advance r c v)))
    (hch : changes s'.history = changes s.history)
    (hsh : s'.shared = (Effect.update r.ref
      ⟨(s.shared.values r.ref).current.insert c.id v, next⟩).apply s.shared)
  | commit {k : CallId} {call : Call} {d : DeviceId} {cid : CapabilityId} {r : RegisteredDevice}
    {c : Capability} {v : Value} {o : Outcome}
    (hk : s.calls[k]? = some (.running call (.advance r c v)))
    (ht : call.op.target = some (d, cid))
    (hcalls : s'.calls = s.calls.insert k (.returned call o))
    (hch : changes s'.history = changes s.history ++
      [.committed r c (commitEvent s.shared.state d c v call.now)])
    (hsh : s'.shared = (Effect.commit d r c v call.now).apply s.shared)
  | insert {k : CallId} {call : Call} {d : Device} {handler : Bool} {values : DeviceValues}
    {o : Outcome} (hk : s.calls[k]? = some (.running call (.insert values)))
    (hop : call.op = .register d handler) (hd : d.id ∉ s.shared.state.devices)
    (hcalls : s'.calls = s.calls.insert k (.returned call o))
    (hch : changes s'.history = changes s.history ++
      [.registered (s.shared.state.revision + 1)
        ⟨s.shared.nextRef, d, capabilityMap d.capabilities, handler⟩ values.current])
    (hsh : s'.shared = (Effect.insert
      ⟨s.shared.nextRef, d, capabilityMap d.capabilities, handler⟩ values).apply s.shared)
  | remove {k : CallId} {call : Call} {d : DeviceId} {r : RegisteredDevice} {o : Outcome}
    (hk : s.calls[k]? = some (.running call (.remove r))) (hop : call.op = .unregister d)
    (hcalls : s'.calls = s.calls.insert k (.returned call o))
    (hch : changes s'.history = changes s.history ++
      [.unregistered (s.shared.state.revision + 1) r])
    (hsh : s'.shared = (Effect.remove d r).apply s.shared)

/-- A thread that is not between the change of the values and the revision. -/
def Thread.Steady (u : Thread) : Prop := ∀ call pc, u = .running call pc → pc.updated = none

theorem updated_insert {s s' : Sys} {k : CallId} {u : Thread}
    (hcalls : s'.calls = s.calls.insert k u) (hu : u.Steady)
    (hold : ∀ u', s.calls[k]? = some u' → u'.Steady) (j : CallId) (call : Call) (pc : Pc)
    (ref : Ref) (hp : pc.updated = some ref) :
    s'.calls[j]? = some (.running call pc) ↔ s.calls[j]? = some (.running call pc) := by
  by_cases hjk : j = k
  · subst hjk
    rw [hcalls, getElem?_insert, if_pos rfl]
    constructor
    · intro h
      have := hu call pc (Option.some.inj h)
      simp [hp] at this
    · intro h
      have := hold _ h call pc rfl
      simp [hp] at this
  · rw [insert_of_ne hcalls hjk]

/-- The effects that change neither the ledger nor the values. -/
def Effect.quiet : Effect → Bool
  | .update .. | .commit .. | .insert .. | .remove .. => false
  | _ => true

theorem quiet_effect {sh : Shared} {e : Effect} (he : e.quiet = true) :
    changes (e.observe sh) = [] ∧ (e.apply sh).values = sh.values ∧
      (e.apply sh).nextRef = sh.nextRef ∧ (e.apply sh).state.revision = sh.state.revision ∧
      ∀ (d : DeviceId) (r : RegisteredDevice), (e.apply sh).state.devices[d]? = some r →
        sh.state.devices[d]? = some r := by
  cases e with
  | stop =>
    exact ⟨by simp [Effect.observe], rfl, rfl, rfl, fun d r hr => by simp [Effect.apply] at hr⟩
  | subscribe topic buffer => cases topic <;> exact ⟨rfl, rfl, rfl, rfl, fun _ _ hr => hr⟩
  | cancel topic id => cases topic <;> exact ⟨rfl, rfl, rfl, rfl, fun _ _ hr => hr⟩
  | none | start | save => exact ⟨rfl, rfl, rfl, rfl, fun _ _ hr => hr⟩
  | _ => simp [Effect.quiet] at he

/-- Only a commit goes through the await point between its values and its revision. -/
theorem steady_of_quiet {sh : Shared} {call : Call} {pc : Pc} {e : Effect} {n : Next}
    (hm : Move sh call pc e n) (he : e.quiet = true) :
    pc.updated = none ∧ (n.thread call).Steady := by
  cases hm with
  | update | commit | insert | remove => simp [Effect.quiet] at he
  | restoreNew | restore =>
    refine ⟨rfl, ?_⟩
    simp only [Next.thread, Restored.next]
    split <;> · rintro _ _ ⟨⟩; rfl
  | snapshotState | snapshotValues =>
    refine ⟨rfl, ?_⟩
    unfold snapshotNext
    split <;> · rintro _ _ ⟨⟩; try rfl
  | _ => exact ⟨rfl, by rintro _ _ ⟨⟩; try rfl⟩

theorem ledger_step {s s' : Sys} {a : Action} (hw : whole s a) (h : step s a = some s') :
    LedgerStep s s' := by
  cases step_cases h with
  | @reject k call e hk hb =>
    refine .keep (by simp) (fun _ _ hr => hr) rfl rfl rfl (updated_insert rfl (by rintro _ _ ⟨⟩) ?_)
    intro u hu
    simp [Std.ExtTreeMap.getElem?_eq_none hk] at hu
  | @invoke k call pc hk hb =>
    refine .keep (by simp) (fun _ _ hr => hr) rfl rfl rfl (updated_insert rfl ?_ ?_)
    · rintro _ _ ⟨⟩
      obtain ⟨rfl, -⟩ | ⟨rfl, -⟩ | ⟨rfl, -⟩ := begin_ok hb <;> rfl
    · intro u hu
      simp [Std.ExtTreeMap.getElem?_eq_none hk] at hu
  | @fail k call pc e hk hr hb =>
    refine .keep (by simp) (fun _ _ hr => hr) rfl rfl rfl (updated_insert rfl (by rintro _ _ ⟨⟩) ?_)
    intro u hu call' pc' he
    subst he
    obtain ⟨rfl, rfl⟩ := running_inj hk hu
    cases pc with
    | advance r c v =>
      simp only [body] at hb
      split at hb <;> simp at hb
    | _ => rfl
  | @abandon k call pc hk =>
    refine .keep (by simp [changes, Obs.change?]) (fun _ _ hr => hr) rfl rfl rfl
      (updated_insert rfl (by rintro _ _ ⟨⟩) ?_)
    intro u hu call' pc' he
    subst he
    obtain ⟨rfl, rfl⟩ := running_inj hk hu
    exact hw k call pc rfl hk
  | orphan ho =>
    refine .keep rfl ?_ ?_ ?_ ?_ (fun _ _ _ _ _ => Iff.rfl) <;> simp only [Orphan.apply] <;>
      split <;> first | rfl | exact fun _ _ hr => hr
  | states hs hop =>
    exact .keep (by simp) (fun _ _ hr => hr) rfl rfl rfl (fun _ _ _ _ _ => Iff.rfl)
  | topology hs hop =>
    exact .keep (by simp) (fun _ _ hr => hr) rfl rfl rfl (fun _ _ _ _ _ => Iff.rfl)
  | @move k call pc e n hk hr hm =>
    cases he : e.quiet with
    | true =>
      obtain ⟨h1, h2, h3, h4, h5⟩ := quiet_effect he
      obtain ⟨hold, hnew⟩ := steady_of_quiet hm he
      have hobs : changes (n.observe k call.op pc) = [] := by
        cases n with
        | goto pc' => exact changes_turnOf k call.op pc
        | ret reply => rfl
      refine .keep (by simp [h1, hobs]) h5 h2 h3 h4 (updated_insert rfl hnew ?_)
      intro u hu call' pc' he'
      subst he'
      obtain ⟨rfl, rfl⟩ := running_inj hk hu
      exact hold
    | false =>
      cases hm with
      | update hop hr => exact .update hk rfl (by simp [Effect.observe, Next.observe, turnOf]) rfl
      | commit ht =>
        refine .commit hk ht rfl ?_ rfl
        simp only [Next.observe, Effect.observe]
        split <;> simp
      | insert hop hs hd => exact .insert hk hop hd rfl (by simp [Effect.observe, Next.observe]) rfl
      | remove hop hd hr => exact .remove hk hop rfl (by simp [Effect.observe, Next.observe]) rfl
      | _ => simp [Effect.quiet] at he

/-! ## The ledger of a run -/

/-- No call is between the change of the values of `ref` and its revision. -/
def Sys.Settled (s : Sys) (ref : Ref) : Prop :=
  ∀ (k : CallId) (call : Call) (pc : Pc), s.calls[k]? = some (.running call pc) →
    pc.updated ≠ some ref

structure LedgerOk (s : Sys) : Prop where
  bounded : ∀ n r current, .registered n r current ∈ changes s.history → r.ref < s.shared.nextRef
  once : ∀ n r current n' r' current', .registered n r current ∈ changes s.history →
    .registered n' r' current' ∈ changes s.history → r.ref = r'.ref → n = n' ∧ r = r'
  commits : ∀ r c event, .committed r c event ∈ changes s.history →
    event.deviceId = r.definition.id ∧ event.capabilityId = c.id ∧
      r.capabilities[c.id]? = some c ∧
      ∃ n current, .registered n r current ∈ changes s.history
  table : ∀ (d : DeviceId) (r : RegisteredDevice), s.shared.state.devices[d]? = some r →
    registrationOf d (changes s.history) = some r ∧
      ∃ n current, .registered n r current ∈ changes s.history
  own : ∀ (d : DeviceId) (r : RegisteredDevice) (n : Nat) (current : Record),
    s.shared.state.devices[d]? = some r → .registered n r current ∈ changes s.history →
    ∀ r' c event, .committed r' c event ∈ changes s.history → event.deviceId = d →
      n < event.revision → r' = r
  values : ∀ ref, ref < s.shared.nextRef → s.Settled ref →
    (s.shared.values ref).current = recordOf ref (changes s.history)
  pending : ∀ (k : CallId) (call : Call) (r : RegisteredDevice) (c : Capability) (v : Value),
    s.calls[k]? = some (.running call (.advance r c v)) →
    (s.shared.values r.ref).current = (recordOf r.ref (changes s.history)).insert c.id v

theorem ledgerOk_keep {s s' : Sys} (hl : LedgerOk s)
    (hch : changes s'.history = changes s.history)
    (hdev : ∀ (d : DeviceId) (r : RegisteredDevice), s'.shared.state.devices[d]? = some r →
      s.shared.state.devices[d]? = some r)
    (hval : s'.shared.values = s.shared.values) (hn : s'.shared.nextRef = s.shared.nextRef)
    (hup : ∀ (k : CallId) (call : Call) (pc : Pc) (ref : Ref), pc.updated = some ref →
      (s'.calls[k]? = some (.running call pc) ↔ s.calls[k]? = some (.running call pc))) :
    LedgerOk s' := by
  refine ⟨?_, ?_, ?_, ?_, ?_, ?_, ?_⟩
  · rw [hch, hn]
    exact hl.bounded
  · rw [hch]
    exact hl.once
  · rw [hch]
    exact hl.commits
  · rw [hch]
    exact fun d r hr => hl.table d r (hdev d r hr)
  · rw [hch]
    exact fun d r n current hr => hl.own d r n current (hdev d r hr)
  · rw [hch, hn, hval]
    intro ref href hs
    refine hl.values ref href fun k call pc hk hu => ?_
    exact hs k call pc ((hup k call pc ref hu).mpr hk) hu
  · rw [hch, hval]
    intro k call r c v hk
    exact hl.pending k call r c v ((hup k call _ r.ref rfl).mp hk)

/-- Who holds the values of a device and has not changed them sees the replay. -/
theorem LedgerOk.current {s : Sys} (hl : LedgerOk s) (hok : s.Ok) {k : CallId} {call : Call}
    {pc : Pc} {r : RegisteredDevice} (hk : s.calls[k]? = some (.running call pc))
    (hr : pc.committing = some r) (hu : pc.updated = none) :
    (s.shared.values r.ref).current = recordOf r.ref (changes s.history) := by
  refine hl.values r.ref (held_values_lt hok.shared (hok.pc k call pc hk)
    (holds_of_committing hr)) fun j call' pc' hj hup => ?_
  obtain ⟨rfl, rfl, rfl⟩ | hjk := running_cases hk hj
  · simp [hu] at hup
  · obtain ⟨r', hr', href⟩ := committing_of_updated hup
    exact (committing_ne hok hjk hj hk hr' hr).1 href

theorem ledgerOk_update {s s' : Sys} (hl : LedgerOk s) (hok : s.Ok) {k : CallId} {call : Call}
    {r : RegisteredDevice} {c : Capability} {v : Value} {next : Record}
    (hk : s.calls[k]? = some (.running call (.confirmSaved r c v next)))
    (hcalls : s'.calls = s.calls.insert k (.running call (.advance r c v)))
    (hch : changes s'.history = changes s.history)
    (hsh : s'.shared = (Effect.update r.ref
      ⟨(s.shared.values r.ref).current.insert c.id v, next⟩).apply s.shared) : LedgerOk s' := by
  have hcur := hl.current hok hk rfl rfl
  have hself : s'.calls[k]? = some (.running call (.advance r c v)) := by
    rw [hcalls, getElem?_insert, if_pos rfl]
  have hval : ∀ ref, ref ≠ r.ref → s'.shared.values ref = s.shared.values ref := by
    intro ref href
    rw [hsh]
    exact Function.update_of_ne href _ _
  have hdev : s'.shared.state = s.shared.state := by rw [hsh]; rfl
  have hn : s'.shared.nextRef = s.shared.nextRef := by rw [hsh]; rfl
  refine ⟨?_, ?_, ?_, ?_, ?_, ?_, ?_⟩
  · rw [hch, hn]
    exact hl.bounded
  · rw [hch]
    exact hl.once
  · rw [hch]
    exact hl.commits
  · rw [hch, hdev]
    exact hl.table
  · rw [hch, hdev]
    exact hl.own
  · rw [hch, hn]
    intro ref href hs
    have hne : ref ≠ r.ref := fun h => hs k call _ hself (by rw [h, Pc.updated])
    rw [hval ref hne]
    refine hl.values ref href fun j call' pc' hj hu => ?_
    obtain ⟨rfl, rfl, rfl⟩ | hjk := running_cases hk hj
    · simp [Pc.updated] at hu
    · exact hs j call' pc' (insert_of_ne hcalls hjk ▸ hj) hu
  · rw [hch]
    intro j call' r' c' v' hj
    obtain ⟨-, hu⟩ | ⟨hjk, hj⟩ := running_insert hcalls hj
    · obtain ⟨-, hpc⟩ := Thread.running.inj hu
      obtain ⟨rfl, rfl, rfl⟩ := Pc.advance.inj hpc
      rw [← hcur, hsh]
      simp [Effect.apply]
    · rw [hval r'.ref (committing_ne hok hjk hj hk rfl rfl).1]
      exact hl.pending j call' r' c' v' hj

theorem mem_changes_snoc {s s' : Sys} {x y : Change}
    (hch : changes s'.history = changes s.history ++ [x]) :
    y ∈ changes s'.history ↔ y ∈ changes s.history ∨ y = x := by
  rw [hch, List.mem_append, List.mem_singleton]

theorem ledgerOk_commit {s s' : Sys} (hl : LedgerOk s) (hok : s.Ok) {k : CallId} {call : Call}
    {d : DeviceId} {cid : CapabilityId} {r : RegisteredDevice} {c : Capability} {v : Value}
    {o : Outcome} (hk : s.calls[k]? = some (.running call (.advance r c v)))
    (ht : call.op.target = some (d, cid))
    (hcalls : s'.calls = s.calls.insert k (.returned call o))
    (hch : changes s'.history = changes s.history ++
      [.committed r c (commitEvent s.shared.state d c v call.now)])
    (hsh : s'.shared = (Effect.commit d r c v call.now).apply s.shared) : LedgerOk s' := by
  obtain ⟨-, hdev, hn⟩ : s'.shared.state.started = s.shared.state.started ∧
      s'.shared.state.devices = s.shared.state.devices ∧
      s'.shared.nextRef = s.shared.nextRef := by
    rw [hsh]
    exact apply_state rfl
  have hval : s'.shared.values = s.shared.values := by rw [hsh]; rfl
  obtain ⟨he, -⟩ := hok.pc k call _ hk
  obtain ⟨hr, hc⟩ := lookup_of_target he ht
  have hkey := hok.shared.key d r hr
  have hid : c.id = cid := capabilityMap_id (hok.shared.capabilities d r hr ▸ hc)
  have hreg : ∀ n r' current, .registered n r' current ∈ changes s'.history →
      .registered n r' current ∈ changes s.history := by
    intro n r' current h
    exact ((mem_changes_snoc hch).mp h).resolve_right (by simp)
  refine ⟨?_, ?_, ?_, ?_, ?_, ?_, ?_⟩
  · rw [hn]
    exact fun n r' current h => hl.bounded n r' current (hreg _ _ _ h)
  · exact fun n r₁ c₁ n' r₂ c₂ h h' => hl.once n r₁ c₁ n' r₂ c₂ (hreg _ _ _ h) (hreg _ _ _ h')
  · intro r' c' event h
    rcases (mem_changes_snoc hch).mp h with h | h
    · obtain ⟨h1, h2, h3, n, current, h4⟩ := hl.commits r' c' event h
      exact ⟨h1, h2, h3, n, current, (mem_changes_snoc hch).mpr (.inl h4)⟩
    · obtain ⟨rfl, rfl, rfl⟩ := Change.committed.inj h
      obtain ⟨-, n, current, hreg'⟩ := hl.table d r' hr
      exact ⟨hkey.symm, rfl, hid ▸ hc, n, current, (mem_changes_snoc hch).mpr (.inl hreg')⟩
  · rw [hdev, hch]
    intro d' r' hr'
    obtain ⟨h1, n, current, h2⟩ := hl.table d' r' hr'
    exact ⟨by simpa [Change.register] using h1, n, current, by simp [h2]⟩
  · rw [hdev]
    intro d' r₁ n current hr₁ hreg₁ r' c' event h hd hlt'
    rcases (mem_changes_snoc hch).mp h with h | h
    · exact hl.own d' r₁ n current hr₁ (hreg _ _ _ hreg₁) r' c' event h hd hlt'
    · obtain ⟨rfl, rfl, rfl⟩ := Change.committed.inj h
      have hdd : d = d' := hd
      rw [hdd, hr₁, Option.some.injEq] at hr
      exact hr.symm
  · rw [hval, hn, hch]
    intro ref href hs
    rw [recordOf_snoc]
    by_cases hrr : r.ref = ref
    · rw [← hrr, hl.pending k call r c v hk]
      simp [Change.replay, commitEvent]
    · rw [Change.replay, if_neg hrr]
      refine hl.values ref href fun j call' pc' hj hu => ?_
      obtain ⟨rfl, rfl, rfl⟩ | hjk := running_cases hk hj
      · exact hrr (Option.some.inj hu)
      · exact hs j call' pc' (insert_of_ne hcalls hjk ▸ hj) hu
  · rw [hval, hch]
    intro j call' r' c' v' hj
    obtain ⟨-, hu⟩ | ⟨hjk, hj⟩ := running_insert hcalls hj
    · exact Thread.noConfusion hu
    · have hne := (committing_ne hok hjk hj hk rfl rfl).1
      rw [recordOf_snoc, Change.replay, if_neg (Ne.symm hne)]
      exact hl.pending j call' r' c' v' hj

theorem ledgerOk_insert {s s' : Sys} (hl : LedgerOk s) (hok : s.Ok)
    (hrev : Revisions s.shared.state s.history) {k : CallId} {call : Call} {d : Device}
    {handler : Bool} {values : DeviceValues} {o : Outcome}
    (hk : s.calls[k]? = some (.running call (.insert values)))
    (hcalls : s'.calls = s.calls.insert k (.returned call o))
    (hch : changes s'.history = changes s.history ++
      [.registered (s.shared.state.revision + 1)
        ⟨s.shared.nextRef, d, capabilityMap d.capabilities, handler⟩ values.current])
    (hsh : s'.shared = (Effect.insert
      ⟨s.shared.nextRef, d, capabilityMap d.capabilities, handler⟩ values).apply s.shared) :
    LedgerOk s' := by
  generalize hr₀ : (⟨s.shared.nextRef, d, capabilityMap d.capabilities, handler⟩ :
    RegisteredDevice) = r₀ at hch hsh
  have href₀ : r₀.ref = s.shared.nextRef := by rw [← hr₀]
  have hn : s'.shared.nextRef = s.shared.nextRef + 1 := by rw [hsh]; rfl
  have hdev : ∀ (d' : DeviceId) (r : RegisteredDevice), s'.shared.state.devices[d']? = some r →
      (r₀.definition.id = d' ∧ r = r₀) ∨
        (r₀.definition.id ≠ d' ∧ s.shared.state.devices[d']? = some r) := by
    intro d' r hr
    rw [hsh] at hr
    simp only [Effect.apply, dispatchTopology, getElem?_insert] at hr
    split at hr
    · rename_i h
      exact .inl ⟨h, (Option.some.inj hr).symm⟩
    · rename_i h
      exact .inr ⟨h, hr⟩
  have hval : ∀ ref, ref ≠ s.shared.nextRef → s'.shared.values ref = s.shared.values ref := by
    intro ref href
    rw [hsh]
    exact Function.update_of_ne (by rw [href₀]; exact href) _ _
  have hnew : (s'.shared.values s.shared.nextRef).current = values.current := by
    rw [hsh, ← href₀]
    simp [Effect.apply]
  have hold : ∀ {j : CallId} {call' : Call} {pc' : Pc}, s'.calls[j]? = some (.running call' pc') →
      s.calls[j]? = some (.running call' pc') := by
    intro j call' pc' hj
    obtain ⟨-, hu⟩ | ⟨-, hj⟩ := running_insert hcalls hj
    · exact Thread.noConfusion hu
    · exact hj
  refine ⟨?_, ?_, ?_, ?_, ?_, ?_, ?_⟩
  · rw [hn]
    intro n r current h
    rcases (mem_changes_snoc hch).mp h with h | h
    · exact Nat.lt_succ_of_lt (hl.bounded n r current h)
    · obtain ⟨-, rfl, -⟩ := Change.registered.inj h
      rw [href₀]
      exact Nat.lt_succ_self _
  · intro n r current n' r' current' h h' href
    rcases (mem_changes_snoc hch).mp h with h | h <;> rcases (mem_changes_snoc hch).mp h' with h' | h'
    · exact hl.once n r current n' r' current' h h' href
    · obtain ⟨-, rfl, -⟩ := Change.registered.inj h'
      exact absurd (href.trans href₀) (Nat.ne_of_lt (hl.bounded n r current h))
    · obtain ⟨-, rfl, -⟩ := Change.registered.inj h
      exact absurd (href.symm.trans href₀) (Nat.ne_of_lt (hl.bounded n' r' current' h'))
    · obtain ⟨rfl, rfl, -⟩ := Change.registered.inj h
      obtain ⟨rfl, rfl, -⟩ := Change.registered.inj h'
      exact ⟨rfl, rfl⟩
  · intro r c event h
    obtain ⟨h1, h2, h3, n, current, h4⟩ :=
      hl.commits r c event (((mem_changes_snoc hch).mp h).resolve_right (by simp))
    exact ⟨h1, h2, h3, n, current, (mem_changes_snoc hch).mpr (.inl h4)⟩
  · intro d' r hr
    rw [hch, registrationOf_snoc]
    obtain ⟨hd', rfl⟩ | ⟨hd', hr⟩ := hdev d' r hr
    · exact ⟨by simp [Change.register, hd'], _, _, by simp; exact .inr ⟨rfl, rfl⟩⟩
    · obtain ⟨h1, n, current, h2⟩ := hl.table d' r hr
      exact ⟨by simpa [Change.register, hd'] using h1, n, current, by simp [h2]⟩
  · intro d' r n current hr hreg r' c event h hd' hlt
    have h := ((mem_changes_snoc hch).mp h).resolve_right (by simp)
    have hle := hrev.le _ h
    rcases (mem_changes_snoc hch).mp hreg with hreg | hreg
    · obtain ⟨-, rfl⟩ | ⟨-, hr⟩ := hdev d' r hr
      · exact absurd href₀ (Nat.ne_of_lt (hl.bounded n r current hreg))
      · exact hl.own d' r n current hr hreg r' c event h hd' hlt
    · obtain ⟨rfl, -, -⟩ := Change.registered.inj hreg
      simp only [Change.revision] at hle
      omega
  · intro ref href hs
    rw [hch, recordOf_snoc]
    by_cases hrr : ref = s.shared.nextRef
    · rw [hrr, hnew, Change.replay, if_pos href₀]
    · rw [hval ref hrr, Change.replay, if_neg (by rw [href₀]; exact Ne.symm hrr)]
      rw [hn] at href
      refine hl.values ref (by simp only [Ref] at *; omega) fun j call' pc' hj hu => ?_
      refine hs j call' pc' ?_ hu
      have hjk : j ≠ k := by
        rintro rfl
        obtain ⟨rfl, rfl⟩ := running_inj hk hj
        simp [Pc.updated] at hu
      exact insert_of_ne hcalls hjk ▸ hj
  · intro j call' r c v hj
    have hj := hold hj
    have hlt : r.ref < s.shared.nextRef := held_values_lt hok.shared (hok.pc j call' _ hj)
      (holds_of_committing rfl)
    rw [hch, recordOf_snoc, Change.replay, if_neg (by rw [href₀]; exact Nat.ne_of_gt hlt),
      hval r.ref (Nat.ne_of_lt hlt)]
    exact hl.pending j call' r c v hj

theorem ledgerOk_remove {s s' : Sys} (hl : LedgerOk s) (hok : s.Ok) {k : CallId} {call : Call}
    {d : DeviceId} {r : RegisteredDevice} {o : Outcome}
    (hk : s.calls[k]? = some (.running call (.remove r))) (hop : call.op = .unregister d)
    (hcalls : s'.calls = s.calls.insert k (.returned call o))
    (hch : changes s'.history = changes s.history ++
      [.unregistered (s.shared.state.revision + 1) r])
    (hsh : s'.shared = (Effect.remove d r).apply s.shared) : LedgerOk s' := by
  have hn : s'.shared.nextRef = s.shared.nextRef := by rw [hsh]; rfl
  have hval : s'.shared.values = s.shared.values := by rw [hsh]; rfl
  have hkey : r.definition.id = d := by
    obtain ⟨d₀, hop', -, hd₀⟩ := hok.pc k call _ hk
    rw [hop, Op.unregister.injEq] at hop'
    exact hop' ▸ hok.shared.key d₀ r hd₀
  have hdev : ∀ (d' : DeviceId) (r' : RegisteredDevice), s'.shared.state.devices[d']? = some r' →
      r.definition.id ≠ d' ∧ s.shared.state.devices[d']? = some r' := by
    intro d' r' hr
    rw [hsh] at hr
    simp only [Effect.apply, dispatchTopology, getElem?_erase] at hr
    split at hr
    · simp at hr
    · rename_i h
      exact ⟨hkey ▸ h, hr⟩
  have hreg : ∀ n r' current, .registered n r' current ∈ changes s'.history →
      .registered n r' current ∈ changes s.history := by
    intro n r' current h
    exact ((mem_changes_snoc hch).mp h).resolve_right (by simp)
  have hcom : ∀ r' c event, .committed r' c event ∈ changes s'.history →
      .committed r' c event ∈ changes s.history := by
    intro r' c event h
    exact ((mem_changes_snoc hch).mp h).resolve_right (by simp)
  refine ⟨?_, ?_, ?_, ?_, ?_, ?_, ?_⟩
  · rw [hn]
    exact fun n r' current h => hl.bounded n r' current (hreg _ _ _ h)
  · exact fun n r₁ c₁ n' r₂ c₂ h h' => hl.once n r₁ c₁ n' r₂ c₂ (hreg _ _ _ h) (hreg _ _ _ h')
  · intro r' c event h
    obtain ⟨h1, h2, h3, n, current, h4⟩ := hl.commits r' c event (hcom _ _ _ h)
    exact ⟨h1, h2, h3, n, current, (mem_changes_snoc hch).mpr (.inl h4)⟩
  · intro d' r' hr'
    obtain ⟨hne, hr'⟩ := hdev d' r' hr'
    obtain ⟨h1, n, current, h2⟩ := hl.table d' r' hr'
    rw [hch, registrationOf_snoc]
    exact ⟨by simpa [Change.register, hne] using h1, n, current, by simp [h2]⟩
  · intro d' r' n current hr' hreg' r'' c event h
    exact hl.own d' r' n current (hdev d' r' hr').2 (hreg _ _ _ hreg') r'' c event (hcom _ _ _ h)
  · rw [hval, hn, hch]
    intro ref href hs
    rw [recordOf_snoc, Change.replay]
    refine hl.values ref href fun j call' pc' hj hu => ?_
    refine hs j call' pc' ?_ hu
    have hjk : j ≠ k := by
      rintro rfl
      obtain ⟨rfl, rfl⟩ := running_inj hk hj
      simp [Pc.updated] at hu
    exact insert_of_ne hcalls hjk ▸ hj
  · rw [hval, hch]
    intro j call' r' c v hj
    obtain ⟨-, hu⟩ | ⟨-, hj⟩ := running_insert hcalls hj
    · exact Thread.noConfusion hu
    · rw [recordOf_snoc, Change.replay]
      exact hl.pending j call' r' c v hj

theorem step_ledger {s s' : Sys} {a : Action} (hl : LedgerOk s) (hok : s.Ok)
    (hrev : Revisions s.shared.state s.history) (hw : whole s a) (h : step s a = some s') :
    LedgerOk s' := by
  cases ledger_step hw h with
  | keep hch hdev hval hn hrev' hup => exact ledgerOk_keep hl hch hdev hval hn hup
  | update hk hcalls hch hsh => exact ledgerOk_update hl hok hk hcalls hch hsh
  | commit hk ht hcalls hch hsh => exact ledgerOk_commit hl hok hk ht hcalls hch hsh
  | insert hk hop hd hcalls hch hsh => exact ledgerOk_insert hl hok hrev hk hcalls hch hsh
  | remove hk hop hcalls hch hsh => exact ledgerOk_remove hl hok hk hop hcalls hch hsh

theorem new_ledger (persistent : Bool) (store : DeviceId → Option Record) :
    LedgerOk (Sys.new persistent store) := by
  constructor <;> simp [Sys.new]

end Oikade.Core
