/-
  Which responses the read loop takes for responses to unknown requests.

  `abandon` moves an identifier from `pending` to `ignored` under two mutexes, one after the other,
  and the read loop looks for an identifier in `ignored` and then in `pending`, under the same two
  mutexes. A response that is looked for in `ignored` before `abandon` puts its identifier there,
  and in `pending` after `abandon` took it from there, is found in neither map: the first response
  to a request that the host made fails the session (`lateResponse`).

  `KnownOk` follows every request that went out and has not been answered: it is in one of the maps,
  or on its way between them, or the session has failed. It holds in every run in which the two
  sequences do not interleave (`separate`), and then no first response is misclassified
  (`tolerant_of_separate`).
-/
import Oikade.Session.Model

namespace Oikade.Session

/-! ## The property -/

/-- The only response to `id` so far came after the request went out. -/
def First (h : List Obs) (id : Nat) : Prop :=
  ∃ p q, h = p ++ .response id :: q ∧ .issued id ∈ p ∧ .response id ∉ p ∧ .response id ∉ q

/-- The first response to a request that the host issued was classified as a response to an unknown
    request. -/
def Misclassified (h : List Obs) (id : Nat) : Prop :=
  ∃ p q, h = p ++ .unknown id :: q ∧ First p id

/-- No first response to a request of the host is classified as a response to an unknown request,
    and the session has not failed because of one. -/
def Sys.Tolerant (s : Sys) : Prop :=
  (∀ id, ¬ Misclassified s.history id) ∧
    ∀ id, s.failure = some (.unknownRequest id) →
      ∃ p q, s.history = p ++ .unknown id :: q ∧ ¬ First p id

theorem snoc_split {h p q : List Obs} {o r : Obs} (heq : h ++ [o] = p ++ r :: q) :
    (q = [] ∧ h = p ∧ o = r) ∨ ∃ q', q = q' ++ [o] ∧ h = p ++ r :: q' := by
  rcases List.eq_nil_or_concat q with rfl | ⟨q', x, rfl⟩
  · obtain ⟨h1, h2⟩ := List.append_inj' heq rfl
    exact .inl ⟨rfl, h1, (List.cons.inj h2).1⟩
  · rw [List.concat_eq_append, ← List.cons_append, ← List.append_assoc] at heq
    obtain ⟨h1, h2⟩ := List.append_inj' heq rfl
    exact .inr ⟨q', by rw [List.concat_eq_append, (List.cons.inj h2).1], h1⟩

/-- What is not a response makes no response the first one. -/
theorem first_snoc {h : List Obs} {o : Obs} {id : Nat} (ho : o ≠ .response id)
    (hf : First (h ++ [o]) id) : First h id := by
  obtain ⟨p, q, heq, h1, h2, h3⟩ := hf
  rcases snoc_split heq with ⟨-, -, rfl⟩ | ⟨q', rfl, rfl⟩
  · exact absurd rfl ho
  · exact ⟨p, q', rfl, h1, h2, fun hm => h3 (List.mem_append_left _ hm)⟩

/-- A response that comes in is the first one to a request that went out without one. -/
theorem first_response {h : List Obs} {id : Nat} (hf : First (h ++ [.response id]) id) :
    .issued id ∈ h ∧ .response id ∉ h := by
  obtain ⟨p, q, heq, h1, h2, h3⟩ := hf
  rcases snoc_split heq with ⟨-, rfl, -⟩ | ⟨q', rfl, rfl⟩
  · exact ⟨h1, h2⟩
  · exact absurd (by simp) h3

theorem misclassified_snoc {h : List Obs} {o : Obs} {id : Nat} (hm : Misclassified (h ++ [o]) id) :
    Misclassified h id ∨ (o = .unknown id ∧ First h id) := by
  obtain ⟨p, q, heq, hf⟩ := hm
  rcases snoc_split heq with ⟨-, rfl, rfl⟩ | ⟨q', rfl, rfl⟩
  · exact .inr ⟨rfl, hf⟩
  · exact .inl ⟨p, q', rfl, hf⟩

/-! ## Where a request is -/

/-- `id` is on its way from `pending` to `ignored`. -/
def Sys.Moving (s : Sys) (id : Nat) : Prop :=
  ∃ (k : CallId) (request : Request), s.calls[k]? = some (.running request (.ignore id))

/-- The read loop will find `id`, or the session has failed. -/
def Sys.Held (s : Sys) (id : Nat) : Prop :=
  id ∈ s.pending ∨ id ∈ s.ignored ∨ s.Moving id ∨ s.failure.isSome = true

/-- The identifier of a request that has not gone out yet. -/
def Pc.unissued : Pc → Option Nat
  | .insert id | .send id | .unsend id | .cancel id | .cancelSend id | .cancelUndo id => some id
  | _ => none

/-- The identifier of a request that has gone out. -/
def Pc.issued : Pc → Option Nat
  | .wait id | .abandon id | .ignore id => some id
  | _ => none

/-- The request that goes out next can be found. -/
def Pc.Ready (s : Sys) : Pc → Prop
  | .send id => id ∈ s.pending ∨ .response id ∈ s.history ∨ s.failure.isSome = true
  | .cancelSend id => id ∈ s.ignored ∨ .response id ∈ s.history
  | _ => True

/-- What the read loop relies on. -/
def ReaderOk (s : Sys) : Reader → Prop
  | .ignored e => .response e.id ∈ s.history ∧ (First s.history e.id → s.Held e.id)
  | .pending e => .response e.id ∈ s.history ∧
      (First s.history e.id → e.id ∈ s.pending ∨ s.failure.isSome = true)
  | _ => True

structure KnownOk (s : Sys) : Prop where
  bounded : ∀ id, .issued id ∈ s.history → id ≤ s.nextId
  unissued : ∀ (k : CallId) (request : Request) (pc : Pc) (id : Nat),
    s.calls[k]? = some (.running request pc) → pc.unissued = some id →
    id ≤ s.nextId ∧ .issued id ∉ s.history
  distinct : ∀ (j k : CallId) (request request' : Request) (pc pc' : Pc) (id : Nat), j ≠ k →
    s.calls[j]? = some (.running request pc) → s.calls[k]? = some (.running request' pc') →
    pc.unissued = some id → pc'.unissued ≠ some id
  issued : ∀ (k : CallId) (request : Request) (pc : Pc) (id : Nat),
    s.calls[k]? = some (.running request pc) → pc.issued = some id → .issued id ∈ s.history
  ready : ∀ (k : CallId) (request : Request) (pc : Pc),
    s.calls[k]? = some (.running request pc) → pc.Ready s
  held : ∀ id, .issued id ∈ s.history → .response id ∉ s.history → s.Held id
  reader : ReaderOk s s.reader
  classified : ∀ id, ¬ Misclassified s.history id
  failed : ∀ id, s.failure = some (.unknownRequest id) →
    ∃ p q, s.history = p ++ .unknown id :: q ∧ ¬ First p id

theorem getElem?_calls_insert (m : Std.ExtTreeMap CallId Thread) (k j : CallId) (t : Thread) :
    (m.insert k t)[j]? = if k = j then some t else m[j]? := by
  rw [Std.ExtTreeMap.getElem?_insert]
  simp only [Std.compare_eq_iff_eq]

theorem mem_set_insert {s : Std.ExtTreeSet Nat} {a b : Nat} : b ∈ s.insert a ↔ a = b ∨ b ∈ s := by
  simp [Std.ExtTreeSet.mem_insert]

theorem mem_set_erase {s : Std.ExtTreeSet Nat} {a b : Nat} : b ∈ s.erase a ↔ a ≠ b ∧ b ∈ s := by
  simp [Std.ExtTreeSet.mem_erase]

/-! ## Steps of a call -/

/-- How `fail` may change the failure. -/
def Fails (s s' : Sys) : Prop :=
  s'.failure = s.failure ∨
    (s.failure = none ∧ ∃ f, s'.failure = some f ∧ ∀ id, f ≠ .unknownRequest id)

theorem Fails.isSome {s s' : Sys} (h : Fails s s') (hs : s.failure.isSome = true) :
    s'.failure.isSome = true := by
  rcases h with h | ⟨h, -⟩
  · rw [h]
    exact hs
  · simp [h] at hs

/-- A step of call `k`, whose request `old` has not gone out, that lets no request out: what it does
    to its own request, and what it leaves to the others. -/
structure Changed (s : Sys) (k : CallId) (old : Option Nat) (s' : Sys) : Prop where
  reader : s'.reader = s.reader
  history : s'.history = s.history
  nextId : s.nextId ≤ s'.nextId
  failure : Fails s s'
  calls : ∃ t, s'.calls = s.calls.insert k t ∧ ∀ request pc', t = .running request pc' →
    (∀ id, pc'.issued = some id → .issued id ∈ s.history) ∧ pc'.Ready s' ∧
      ∀ id, pc'.unissued = some id → old = some id ∨ (s.nextId < id ∧ id ≤ s'.nextId)
  held : ∀ id, .issued id ∈ s.history → s.Held id → s'.Held id
  read : ∀ e, s.reader = .pending e → .issued e.id ∈ s.history → e.id ∈ s.pending →
    e.id ∈ s'.pending ∨ s'.failure.isSome = true
  others : ∀ id, .issued id ∉ s.history → old ≠ some id →
    (id ∈ s.pending → id ∈ s'.pending ∨ s'.failure.isSome = true) ∧
      (id ∈ s.ignored → id ∈ s'.ignored)

theorem knownOk_changed {s s' : Sys} (h : KnownOk s) {k : CallId} {old : Option Nat}
    (hold : ∀ id, old = some id → ∃ (request : Request) (pc : Pc),
      s.calls[k]? = some (.running request pc) ∧ pc.unissued = some id)
    (hc : Changed s k old s') : KnownOk s' := by
  obtain ⟨t, hcalls, ht⟩ := hc.calls
  have hget : ∀ j, s'.calls[j]? = if k = j then some t else s.calls[j]? := fun j => by
    rw [hcalls, getElem?_calls_insert]
  -- what the new thread of `k` waits to send is its own or new
  have hown : ∀ request' pc' id, t = .running request' pc' → pc'.unissued = some id →
      id ≤ s'.nextId ∧ .issued id ∉ s.history ∧ ∀ (j : CallId) (request'' : Request) (pc'' : Pc),
        j ≠ k → s.calls[j]? = some (.running request'' pc'') → pc''.unissued ≠ some id := by
    intro request' pc' id hpc hid
    rcases (ht request' pc' hpc).2.2 id hid with heq | ⟨hlt, hle⟩
    · obtain ⟨request, pc, hk, hu⟩ := hold id heq
      obtain ⟨h1, h2⟩ := h.unissued k request pc id hk hu
      exact ⟨Nat.le_trans h1 hc.nextId, h2, fun j request'' pc'' hj hjc hjid =>
        h.distinct k j request request'' pc pc'' id (Ne.symm hj) hk hjc hu hjid⟩
    · refine ⟨hle, fun hm => absurd (h.bounded id hm) (by omega), ?_⟩
      intro j request'' pc'' hj hjc hjid
      have := (h.unissued j request'' pc'' id hjc hjid).1
      omega
  refine ⟨?_, ?_, ?_, ?_, ?_, ?_, ?_, ?_, ?_⟩
  · intro id hid
    rw [hc.history] at hid
    exact Nat.le_trans (h.bounded id hid) hc.nextId
  · intro j request' pc' id hj hid
    rw [hc.history]
    rw [hget] at hj
    split at hj
    · exact ⟨(hown request' pc' id (Option.some.inj hj) hid).1,
        (hown request' pc' id (Option.some.inj hj) hid).2.1⟩
    · obtain ⟨h1, h2⟩ := h.unissued j request' pc' id hj hid
      exact ⟨Nat.le_trans h1 hc.nextId, h2⟩
  · intro i j request' request'' pc' pc'' id hij hi hj hid hid'
    rw [hget] at hi hj
    split at hi
    · rename_i hki
      subst hki
      rw [if_neg hij] at hj
      exact (hown request' pc' id (Option.some.inj hi) hid).2.2 j request'' pc'' (Ne.symm hij) hj hid'
    · split at hj
      · rename_i hki hkj
        subst hkj
        exact (hown request'' pc'' id (Option.some.inj hj) hid').2.2 i request' pc' hij hi hid
      · exact h.distinct i j request' request'' pc' pc'' id hij hi hj hid hid'
  · intro j request' pc' id hj hid
    rw [hc.history]
    rw [hget] at hj
    split at hj
    · exact (ht request' pc' (Option.some.inj hj)).1 id hid
    · exact h.issued j request' pc' id hj hid
  · intro j request' pc' hj
    rw [hget] at hj
    split at hj
    · exact (ht request' pc' (Option.some.inj hj)).2.1
    · rename_i hkj
      have hr := h.ready j request' pc' hj
      have hfresh : ∀ id, pc'.unissued = some id → .issued id ∉ s.history ∧
          old ≠ some id := by
        refine fun id hid => ⟨(h.unissued j request' pc' id hj hid).2, fun heq => ?_⟩
        obtain ⟨request, pc, hk, hu⟩ := hold id heq
        exact h.distinct k j request request' pc pc' id hkj hk hj hu hid
      cases pc' with
      | send id =>
        obtain ⟨h1, h2⟩ := hfresh id rfl
        simp only [Pc.Ready, hc.history] at hr ⊢
        rcases hr with hr | hr | hr
        · rcases (hc.others id h1 h2).1 hr with hr | hr
          · exact .inl hr
          · exact .inr (.inr hr)
        · exact .inr (.inl hr)
        · exact .inr (.inr (hc.failure.isSome hr))
      | cancelSend id =>
        obtain ⟨h1, h2⟩ := hfresh id rfl
        simp only [Pc.Ready, hc.history] at hr ⊢
        exact hr.imp (hc.others id h1 h2).2 fun hr => hr
      | _ => trivial
  · intro id hid hno
    rw [hc.history] at hid hno
    exact hc.held id hid (h.held id hid hno)
  · have hr := h.reader
    rw [hc.reader]
    have hissued : ∀ id, First s.history id → .issued id ∈ s.history := by
      rintro id ⟨p, q, heq, h1, -⟩
      rw [heq]
      exact List.mem_append_left _ h1
    cases hrd : s.reader with
    | ignored e =>
      simp only [hrd, ReaderOk, hc.history] at hr ⊢
      exact ⟨hr.1, fun hf => hc.held e.id (hissued e.id hf) (hr.2 hf)⟩
    | pending e =>
      simp only [hrd, ReaderOk, hc.history] at hr ⊢
      refine ⟨hr.1, fun hf => ?_⟩
      rcases hr.2 hf with hp | hp
      · exact hc.read e hrd (hissued e.id hf) hp
      · exact .inr (hc.failure.isSome hp)
    | _ => trivial
  · rw [hc.history]
    exact h.classified
  · intro id hid
    rw [hc.history]
    rcases hc.failure with hf | ⟨-, f, hf, hne⟩
    · exact h.failed id (hf ▸ hid)
    · rw [hf, Option.some.injEq] at hid
      exact absurd hid (hne id)

/-- The ends of a step of call `k`: it returns, fails the session, or goes on to cancel its request
    under a new identifier. -/
structure Settled (s : Sys) (k : CallId) (s' : Sys) : Prop where
  pending : s'.pending = s.pending
  ignored : s'.ignored = s.ignored
  reader : s'.reader = s.reader
  history : s'.history = s.history
  nextId : s.nextId ≤ s'.nextId
  failure : Fails s s'
  calls : ∃ t, s'.calls = s.calls.insert k t ∧ ∀ request pc', t = .running request pc' →
    pc'.issued = none ∧ pc'.Ready s' ∧
      ∀ id, pc'.unissued = some id → s.nextId < id ∧ id ≤ s'.nextId

theorem settled_ret (s : Sys) (k : CallId) (request : Request) (outcome : Outcome) :
    Settled s k (s.ret k request outcome) :=
  ⟨rfl, rfl, rfl, rfl, Nat.le_refl _, .inl rfl, _, rfl, by simp⟩

theorem settled_abandoned (s : Sys) (k : CallId) (request : Request) :
    Settled s k (s.abandoned k request) := by
  unfold Sys.abandoned
  split
  · refine ⟨rfl, rfl, rfl, rfl, Nat.le_succ _, .inl rfl, _, rfl, ?_⟩
    rintro _ _ ⟨⟩
    refine ⟨rfl, trivial, ?_⟩
    rintro id ⟨⟩
    exact ⟨Nat.lt_succ_self _, Nat.le_refl _⟩
  · exact settled_ret s k request _

theorem settled_resume (s : Sys) (k : CallId) (request : Request) (r : Resume) :
    Settled s k (s.resume k request r) := by
  cases r with
  | abandoned => exact settled_abandoned s k request
  | ret outcome => exact settled_ret s k request outcome

theorem settled_failCall (s : Sys) (k : CallId) (request : Request) {f : Failure} (r : Resume)
    (hf : ∀ id, f ≠ .unknownRequest id) : Settled s k (s.failCall k request f r) := by
  unfold Sys.failCall Sys.fail
  cases hs : s.failure with
  | some f' => exact settled_resume s k request r
  | none =>
    refine ⟨rfl, rfl, rfl, rfl, Nat.le_refl _, .inr ⟨hs, f, rfl, hf⟩, _, rfl, ?_⟩
    rintro _ _ ⟨⟩
    exact ⟨rfl, trivial, by simp [Pc.unissued]⟩

/-- After `fail` in a call the session has failed. -/
theorem failCall_failure (s : Sys) (k : CallId) (request : Request) (f : Failure) (r : Resume) :
    (s.failCall k request f r).failure.isSome = true := by
  unfold Sys.failCall Sys.fail
  cases hs : s.failure with
  | none => rfl
  | some f' =>
    have : ∀ r : Resume, (s.resume k request r).failure = s.failure := by
      intro r
      cases r with
      | abandoned =>
        simp only [Sys.resume, Sys.abandoned]
        split <;> rfl
      | ret outcome => rfl
    simp [this, hs]

theorem settled_respond (s : Sys) (k : CallId) (request : Request) (e : Envelope) :
    Settled s k (s.respond k request e) := by
  unfold Sys.respond
  split
  · exact settled_failCall s k request _ (by simp)
  · split <;> exact settled_ret s k request _

section Calls

variable {s s₁ s' : Sys} {k : CallId} {request : Request} {pc : Pc}

theorem knownOk_running (h : KnownOk s) (hk : s.calls[k]? = some (.running request pc))
    (hc : Changed s k pc.unissued s') : KnownOk s' :=
  knownOk_changed h (fun _ hu => ⟨_, _, hk, hu⟩) hc

/-- A request on its way stays there while another call takes a step. -/
theorem moving_insert {t : Thread} (hk : s.calls[k]? = some (.running request pc))
    (hcalls : s'.calls = s.calls.insert k t) {id : Nat} (hm : s.Moving id)
    (hpc : pc ≠ .ignore id) : s'.Moving id := by
  obtain ⟨j, request', hj⟩ := hm
  refine ⟨j, request', ?_⟩
  rw [hcalls, getElem?_calls_insert, if_neg]
  · exact hj
  · rintro rfl
    rw [hk, Option.some.injEq] at hj
    exact hpc (Thread.running.inj hj).2

theorem changed_of {t : Thread} (hk : s.calls[k]? = some (.running request pc))
    (hreader : s'.reader = s.reader) (hhist : s'.history = s.history)
    (hn : s.nextId ≤ s'.nextId) (hf : Fails s s') (hcalls : s'.calls = s.calls.insert k t)
    (ht : ∀ request pc', t = .running request pc' →
      (∀ id, pc'.issued = some id → .issued id ∈ s.history) ∧ pc'.Ready s' ∧
        ∀ id, pc'.unissued = some id → pc.unissued = some id ∨ (s.nextId < id ∧ id ≤ s'.nextId))
    (hheld : ∀ id, .issued id ∈ s.history →
      id ∈ s.pending ∨ id ∈ s.ignored ∨ pc = .ignore id → s'.Held id)
    (hread : ∀ e, s.reader = .pending e → .issued e.id ∈ s.history → e.id ∈ s.pending →
      e.id ∈ s'.pending ∨ s'.failure.isSome = true)
    (hothers : ∀ id, .issued id ∉ s.history → pc.unissued ≠ some id →
      (id ∈ s.pending → id ∈ s'.pending ∨ s'.failure.isSome = true) ∧
        (id ∈ s.ignored → id ∈ s'.ignored)) : Changed s k pc.unissued s' where
  reader := hreader
  history := hhist
  nextId := hn
  failure := hf
  calls := ⟨t, hcalls, ht⟩
  held := by
    rintro id hid (h | h | h | h)
    · exact hheld id hid (.inl h)
    · exact hheld id hid (.inr (.inl h))
    · by_cases hpc : pc = .ignore id
      · exact hheld id hid (.inr (.inr hpc))
      · exact .inr (.inr (.inl (moving_insert hk hcalls h hpc)))
    · exact .inr (.inr (.inr (hf.isSome h)))
  read := hread
  others := hothers

/-- A call changes the maps and settles. -/
theorem changed_of_settled (hk : s.calls[k]? = some (.running request pc)) (hs : Settled s₁ k s')
    (hcalls : s₁.calls = s.calls) (hreader : s₁.reader = s.reader)
    (hhist : s₁.history = s.history) (hn : s₁.nextId = s.nextId)
    (hf : s₁.failure = s.failure)
    (hheld : ∀ id, .issued id ∈ s.history → id ∈ s.pending ∨ id ∈ s.ignored ∨ pc = .ignore id →
      id ∈ s₁.pending ∨ id ∈ s₁.ignored ∨ s'.failure.isSome = true)
    (hread : ∀ e, s.reader = .pending e → .issued e.id ∈ s.history → e.id ∈ s.pending →
      e.id ∈ s₁.pending ∨ s'.failure.isSome = true)
    (hothers : ∀ id, .issued id ∉ s.history → pc.unissued ≠ some id →
      (id ∈ s.pending → id ∈ s₁.pending ∨ s'.failure.isSome = true) ∧
        (id ∈ s.ignored → id ∈ s₁.ignored)) : Changed s k pc.unissued s' := by
  obtain ⟨t, ht, hpc⟩ := hs.calls
  have hfails : Fails s s' := by
    have := hs.failure
    simpa only [Fails, hf] using this
  refine changed_of hk (hs.reader.trans hreader) (hs.history.trans hhist) (hn ▸ hs.nextId) hfails
    (hcalls ▸ ht) ?_ ?_ ?_ ?_
  · intro request' pc' hpc'
    obtain ⟨h1, h2, h3⟩ := hpc request' pc' hpc'
    exact ⟨by simp [h1], h2, fun id hid => .inr (hn ▸ h3 id hid)⟩
  · intro id hid h
    simp only [Sys.Held, hs.pending, hs.ignored]
    rcases hheld id hid h with h | h | h
    · exact .inl h
    · exact .inr (.inl h)
    · exact .inr (.inr (.inr h))
  · rw [hs.pending]
    exact hread
  · rw [hs.pending, hs.ignored]
    exact hothers

/-- A call that leaves the maps as they are. -/
theorem changed_same (hk : s.calls[k]? = some (.running request pc)) (hs : Settled s k s')
    (hpc : ∀ id, pc ≠ .ignore id) : Changed s k pc.unissued s' := by
  refine changed_of_settled hk hs rfl rfl rfl rfl rfl ?_ ?_ ?_
  · rintro id - (h | h | h)
    · exact .inl h
    · exact .inr (.inl h)
    · exact absurd h (hpc id)
  · exact fun e _ _ h => .inl h
  · exact fun id _ _ => ⟨.inl, fun h => h⟩

/-- A call that only goes to another await point. -/
theorem changed_goto {pc' : Pc} (hk : s.calls[k]? = some (.running request pc))
    (hpc : ∀ id, pc ≠ .ignore id) (hi : ∀ id, pc'.issued = some id → .issued id ∈ s.history)
    (hr : pc'.Ready s) (hu : ∀ id, pc'.unissued = some id → pc.unissued = some id) :
    Changed s k pc.unissued (s.goto k request pc') := by
  refine changed_of hk rfl rfl (Nat.le_refl _) (.inl rfl) rfl ?_ ?_ ?_ ?_
  · rintro _ _ ⟨⟩
    refine ⟨hi, ?_, fun id hid => .inl (hu id hid)⟩
    cases pc' <;> exact hr
  · rintro id - (h | h | h)
    · exact .inl h
    · exact .inr (.inl h)
    · exact absurd h (hpc id)
  · exact fun e _ _ h => .inl h
  · exact fun id _ _ => ⟨.inl, fun h => h⟩

/-- A request goes out. -/
theorem knownOk_issue (h : KnownOk s) (hk : s.calls[k]? = some (.running request pc)) {id : Nat}
    (hid : pc.unissued = some id)
    (hready : id ∈ s.pending ∨ id ∈ s.ignored ∨ .response id ∈ s.history ∨
      s.failure.isSome = true) {t : Thread}
    (ht : ∀ request' pc', t = .running request' pc' → pc' = .wait id) :
    KnownOk { s with
      calls := s.calls.insert k t
      history := s.history ++ [.issued id] } := by
  obtain ⟨hle, hnew⟩ := h.unissued k request pc id hk hid
  have hmem : ∀ {o : Obs}, o ∈ s.history ++ [.issued id] ↔ o ∈ s.history ∨ o = .issued id := by
    simp
  have hrun : ∀ {j : CallId} {request' : Request} {pc' : Pc},
      (s.calls.insert k t)[j]? = some (.running request' pc') →
      (j = k ∧ pc' = .wait id) ∨ (j ≠ k ∧ s.calls[j]? = some (.running request' pc')) := by
    intro j request' pc' hj
    rw [getElem?_calls_insert] at hj
    split at hj
    · rename_i hkj
      exact .inl ⟨hkj.symm, ht request' pc' (Option.some.inj hj)⟩
    · rename_i hkj
      exact .inr ⟨Ne.symm hkj, hj⟩
  have hheld : ∀ id', s.Held id' → Sys.Held { s with
      calls := s.calls.insert k t
      history := s.history ++ [.issued id] } id' := by
    rintro id' (h1 | h1 | h1 | h1)
    · exact .inl h1
    · exact .inr (.inl h1)
    · refine .inr (.inr (.inl (moving_insert hk rfl h1 ?_)))
      rintro rfl
      simp [Pc.unissued] at hid
    · exact .inr (.inr (.inr h1))
  refine ⟨?_, ?_, ?_, ?_, ?_, ?_, ?_, ?_, ?_⟩
  · intro id' h1
    rcases hmem.mp h1 with h1 | h1
    · exact h.bounded id' h1
    · rw [Obs.issued.injEq] at h1
      exact h1 ▸ hle
  · intro j request' pc' id' hj hid'
    rcases hrun hj with ⟨-, rfl⟩ | ⟨hjk, hj⟩
    · simp [Pc.unissued] at hid'
    · obtain ⟨h1, h2⟩ := h.unissued j request' pc' id' hj hid'
      refine ⟨h1, fun hm => ?_⟩
      rcases hmem.mp hm with hm | hm
      · exact h2 hm
      · rw [Obs.issued.injEq] at hm
        exact h.distinct j k request' request pc' pc id' hjk hj hk hid' (hm ▸ hid)
  · intro i j request' request'' pc' pc'' id' hij hi hj hid' hid''
    rcases hrun hi with ⟨-, rfl⟩ | ⟨-, hi⟩
    · simp [Pc.unissued] at hid'
    · rcases hrun hj with ⟨-, rfl⟩ | ⟨-, hj⟩
      · simp [Pc.unissued] at hid''
      · exact h.distinct i j request' request'' pc' pc'' id' hij hi hj hid' hid''
  · intro j request' pc' id' hj hid'
    rw [hmem]
    rcases hrun hj with ⟨-, rfl⟩ | ⟨-, hj⟩
    · simp only [Pc.issued, Option.some.injEq] at hid'
      exact .inr (by rw [hid'])
    · exact .inl (h.issued j request' pc' id' hj hid')
  · intro j request' pc' hj
    rcases hrun hj with ⟨-, rfl⟩ | ⟨-, hj⟩
    · trivial
    · have hr := h.ready j request' pc' hj
      cases pc' with
      | send id' =>
        simp only [Pc.Ready, hmem] at hr ⊢
        exact hr.imp_right fun hr => hr.imp_left .inl
      | cancelSend id' =>
        simp only [Pc.Ready, hmem] at hr ⊢
        exact hr.imp_right .inl
      | _ => trivial
  · intro id' h1 h2
    have hno : .response id' ∉ s.history := fun hm => h2 (hmem.mpr (.inl hm))
    rcases hmem.mp h1 with h1 | h1
    · exact hheld id' (h.held id' h1 hno)
    · rw [Obs.issued.injEq] at h1
      subst h1
      refine hheld id' ?_
      rcases hready with hr | hr | hr | hr
      · exact .inl hr
      · exact .inr (.inl hr)
      · exact absurd hr hno
      · exact .inr (.inr (.inr hr))
  · have hr := h.reader
    cases hrd : s.reader with
    | ignored e =>
      simp only [hrd, ReaderOk] at hr ⊢
      exact ⟨hmem.mpr (.inl hr.1), fun hf => hheld e.id (hr.2 (first_snoc (by simp) hf))⟩
    | pending e =>
      simp only [hrd, ReaderOk] at hr ⊢
      exact ⟨hmem.mpr (.inl hr.1), fun hf => hr.2 (first_snoc (by simp) hf)⟩
    | _ => trivial
  · intro id' hm
    rcases misclassified_snoc hm with hm | ⟨hm, -⟩
    · exact h.classified id' hm
    · simp at hm
  · intro id' hf
    obtain ⟨p, q, heq, hno⟩ := h.failed id' hf
    exact ⟨p, q ++ [.issued id], by rw [heq, List.append_assoc, List.cons_append], hno⟩

theorem knownOk_insert (h : KnownOk s) {id : Nat}
    (hk : s.calls[k]? = some (.running request (.insert id))) {refuse : Bool}
    (hs : s.callStep k request refuse (.insert id) = some s') : KnownOk s' := by
  simp only [Sys.callStep, Option.some.injEq] at hs
  subst hs
  split
  · exact knownOk_running h hk (changed_same hk (settled_ret _ _ _ _) (by simp))
  · have hset : ∀ s', Settled { s with pending := s.pending.insert id } k s' →
        KnownOk s' := by
      intro s' hset
      refine knownOk_running h hk (changed_of_settled hk hset rfl rfl rfl rfl rfl ?_ ?_ ?_)
      · rintro id' - (h1 | h1 | h1)
        · exact .inl (mem_set_insert.mpr (.inr h1))
        · exact .inr (.inl h1)
        · simp at h1
      · exact fun e _ _ he => .inl (mem_set_insert.mpr (.inr he))
      · exact fun id' _ _ => ⟨fun h1 => .inl (mem_set_insert.mpr (.inr h1)), fun h1 => h1⟩
    split
    · exact hset _ (settled_ret _ _ _ _)
    · refine knownOk_running h hk (changed_of hk rfl rfl (Nat.le_refl _) (.inl rfl) rfl ?_ ?_ ?_ ?_)
      · rintro _ _ ⟨⟩
        exact ⟨by simp [Pc.issued], .inl (mem_set_insert.mpr (.inl rfl)), fun _ hid => .inl hid⟩
      · rintro id' - (h1 | h1 | h1)
        · exact .inl (mem_set_insert.mpr (.inr h1))
        · exact .inr (.inl h1)
        · simp at h1
      · exact fun e _ _ he => .inl (mem_set_insert.mpr (.inr he))
      · exact fun id' _ _ => ⟨fun h1 => .inl (mem_set_insert.mpr (.inr h1)), fun h1 => h1⟩

theorem knownOk_send (h : KnownOk s) {id : Nat}
    (hk : s.calls[k]? = some (.running request (.send id))) {refuse : Bool}
    (hs : s.callStep k request refuse (.send id) = some s') : KnownOk s' := by
  simp only [Sys.callStep, Option.some.injEq] at hs
  subst hs
  split
  · exact knownOk_running h hk (changed_goto hk (by simp) (by simp [Pc.issued]) trivial
      fun _ hid => hid)
  · refine knownOk_issue h hk rfl ?_ (by rintro _ _ ⟨⟩; rfl)
    rcases h.ready k request _ hk with hr | hr | hr
    · exact .inl hr
    · exact .inr (.inr (.inl hr))
    · exact .inr (.inr (.inr hr))

theorem knownOk_unsend (h : KnownOk s) {id : Nat}
    (hk : s.calls[k]? = some (.running request (.unsend id))) {refuse : Bool}
    (hs : s.callStep k request refuse (.unsend id) = some s') : KnownOk s' := by
  simp only [Sys.callStep, Option.some.injEq] at hs
  subst hs
  have hnew := (h.unissued k request _ id hk rfl).2
  refine knownOk_running h hk (changed_of_settled hk (settled_ret _ _ _ _) rfl rfl rfl rfl rfl
    ?_ ?_ ?_)
  · rintro id' hid' (h1 | h1 | h1)
    · exact .inl (mem_set_erase.mpr ⟨fun he => hnew (he ▸ hid'), h1⟩)
    · exact .inr (.inl h1)
    · simp at h1
  · exact fun e _ he h1 => .inl (mem_set_erase.mpr ⟨fun heq => hnew (heq ▸ he), h1⟩)
  · intro id' _ hne
    exact ⟨fun h1 => .inl (mem_set_erase.mpr ⟨fun heq => hne (by simp [Pc.unissued, heq]), h1⟩),
      fun h1 => h1⟩

theorem knownOk_wait (h : KnownOk s) {id : Nat}
    (hk : s.calls[k]? = some (.running request (.wait id))) {refuse : Bool}
    (hs : s.callStep k request refuse (.wait id) = some s') : KnownOk s' := by
  simp only [Sys.callStep] at hs
  have hpost := h.issued k request _ id hk rfl
  split at hs
  · split at hs
    · simp at hs
    · rw [Option.some.injEq] at hs
      subst hs
      exact knownOk_running h hk (changed_same hk (settled_respond _ _ _ _) (by simp))
  · split at hs
    · simp at hs
    · rw [Option.some.injEq] at hs
      subst hs
      exact knownOk_running h hk (changed_same hk (settled_ret _ _ _ _) (by simp))
  · split at hs
    · rw [Option.some.injEq] at hs
      subst hs
      refine knownOk_running h hk (changed_goto hk (by simp) ?_ trivial (by simp [Pc.unissued]))
      rintro id' ⟨⟩
      exact hpost
    · simp at hs

/-- `abandon` may take its identifier from `pending` only while the read loop is not between its two
    lookups of it. -/
theorem knownOk_abandon (h : KnownOk s) {id : Nat}
    (hk : s.calls[k]? = some (.running request (.abandon id))) {refuse : Bool}
    (hsep : ∀ e, s.reader = .pending e → e.id ≠ id)
    (hs : s.callStep k request refuse (.abandon id) = some s') : KnownOk s' := by
  simp only [Sys.callStep, Option.some.injEq] at hs
  subst hs
  have hpost := h.issued k request _ id hk rfl
  split
  · refine knownOk_running h hk (changed_of hk rfl rfl (Nat.le_refl _) (.inl rfl) rfl ?_ ?_ ?_ ?_)
    · rintro _ _ ⟨⟩
      refine ⟨?_, trivial, by simp [Pc.unissued]⟩
      rintro id' ⟨⟩
      exact hpost
    · rintro id' - (h1 | h1 | h1)
      · by_cases heq : id = id'
        · subst heq
          refine .inr (.inr (.inl ⟨k, request, ?_⟩))
          simp only [Sys.goto, getElem?_calls_insert, if_true]
        · exact .inl (mem_set_erase.mpr ⟨heq, h1⟩)
      · exact .inr (.inl h1)
      · simp at h1
    · exact fun e he _ h1 => .inl (mem_set_erase.mpr ⟨Ne.symm (hsep e he), h1⟩)
    · intro id' hid' _
      exact ⟨fun h1 => .inl (mem_set_erase.mpr ⟨fun heq => hid' (heq ▸ hpost), h1⟩),
        fun h1 => h1⟩
  · exact knownOk_running h hk (changed_same hk (settled_abandoned _ _ _) (by simp))

theorem knownOk_ignore (h : KnownOk s) {id : Nat}
    (hk : s.calls[k]? = some (.running request (.ignore id))) {refuse : Bool}
    (hs : s.callStep k request refuse (.ignore id) = some s') : KnownOk s' := by
  simp only [Sys.callStep, Option.some.injEq] at hs
  subst hs
  split
  · have hfail := failCall_failure s k request .abandonedLimit .abandoned
    exact knownOk_running h hk (changed_of_settled hk
      (settled_failCall _ _ _ _ (by simp)) rfl rfl rfl rfl rfl (fun _ _ _ => .inr (.inr hfail))
      (fun _ _ _ _ => .inr hfail) (fun _ _ _ => ⟨.inl, fun h1 => h1⟩))
  · refine knownOk_running h hk (changed_of_settled hk
      (settled_abandoned { s with ignored := s.ignored.insert id } _ _) rfl rfl rfl rfl rfl ?_ ?_ ?_)
    · rintro id' - (h1 | h1 | h1)
      · exact .inl h1
      · exact .inr (.inl (mem_set_insert.mpr (.inr h1)))
      · exact .inr (.inl (mem_set_insert.mpr (.inl (Pc.ignore.inj h1))))
    · exact fun e _ _ he => .inl he
    · exact fun id' _ _ => ⟨.inl, fun h1 => mem_set_insert.mpr (.inr h1)⟩

theorem knownOk_cancel (h : KnownOk s) {id : Nat}
    (hk : s.calls[k]? = some (.running request (.cancel id))) {refuse : Bool}
    (hs : s.callStep k request refuse (.cancel id) = some s') : KnownOk s' := by
  simp only [Sys.callStep, Option.some.injEq] at hs
  subst hs
  split
  · exact knownOk_running h hk (changed_same hk (settled_failCall _ _ _ _ (by simp)) (by simp))
  · refine knownOk_running h hk (changed_of hk rfl rfl (Nat.le_refl _) (.inl rfl) rfl ?_ ?_ ?_ ?_)
    · rintro _ _ ⟨⟩
      exact ⟨by simp [Pc.issued], .inl (mem_set_insert.mpr (.inl rfl)), fun _ hid => .inl hid⟩
    · rintro id' - (h1 | h1 | h1)
      · exact .inl h1
      · exact .inr (.inl (mem_set_insert.mpr (.inr h1)))
      · simp at h1
    · exact fun e _ _ he => .inl he
    · exact fun id' _ _ => ⟨.inl, fun h1 => mem_set_insert.mpr (.inr h1)⟩

theorem knownOk_cancelSend (h : KnownOk s) {id : Nat}
    (hk : s.calls[k]? = some (.running request (.cancelSend id))) {refuse : Bool}
    (hs : s.callStep k request refuse (.cancelSend id) = some s') : KnownOk s' := by
  simp only [Sys.callStep, Option.some.injEq] at hs
  subst hs
  split
  · exact knownOk_running h hk (changed_goto hk (by simp) (by simp [Pc.issued]) trivial
      fun _ hid => hid)
  · refine knownOk_issue h hk rfl ?_ (by simp)
    rcases h.ready k request _ hk with hr | hr
    · exact .inr (.inl hr)
    · exact .inr (.inr (.inl hr))

theorem knownOk_cancelUndo (h : KnownOk s) {id : Nat}
    (hk : s.calls[k]? = some (.running request (.cancelUndo id))) {refuse : Bool}
    (hs : s.callStep k request refuse (.cancelUndo id) = some s') : KnownOk s' := by
  simp only [Sys.callStep, Option.some.injEq] at hs
  subst hs
  have hnew := (h.unissued k request _ id hk rfl).2
  refine knownOk_running h hk (changed_of_settled hk (settled_ret _ _ _ _) rfl rfl rfl rfl rfl
    ?_ ?_ ?_)
  · rintro id' hid' (h1 | h1 | h1)
    · exact .inl h1
    · exact .inr (.inl (mem_set_erase.mpr ⟨fun he => hnew (he ▸ hid'), h1⟩))
    · simp at h1
  · exact fun e _ _ he => .inl he
  · intro id' _ hne
    exact ⟨.inl, fun h1 => mem_set_erase.mpr ⟨fun heq => hne (by simp [Pc.unissued, heq]), h1⟩⟩

theorem knownOk_drain (h : KnownOk s) {r : Resume}
    (hk : s.calls[k]? = some (.running request (.drain r))) {refuse : Bool}
    (hs : s.callStep k request refuse (.drain r) = some s') : KnownOk s' := by
  simp only [Sys.callStep, Option.map_eq_some_iff] at hs
  obtain ⟨f, hf, rfl⟩ := hs
  have hset := settled_resume (s.drain f) k request r
  have hfail : ((s.drain f).resume k request r).failure.isSome = true :=
    hset.failure.isSome (by simp [Sys.drain, hf])
  exact knownOk_running h hk (changed_of_settled hk hset rfl rfl rfl rfl rfl
    (fun _ _ _ => .inr (.inr hfail)) (fun _ _ _ _ => .inr hfail)
    (fun _ _ _ => ⟨fun _ => .inr hfail, fun h1 => h1⟩))

theorem knownOk_call (h : KnownOk s) (hk : s.calls[k]? = some (.running request pc))
    {refuse : Bool} (hsep : ∀ id e, pc = .abandon id → s.reader = .pending e → e.id ≠ id)
    (hs : s.callStep k request refuse pc = some s') : KnownOk s' := by
  cases pc with
  | insert id => exact knownOk_insert h hk hs
  | send id => exact knownOk_send h hk hs
  | unsend id => exact knownOk_unsend h hk hs
  | wait id => exact knownOk_wait h hk hs
  | abandon id => exact knownOk_abandon h hk (fun e => hsep id e rfl) hs
  | ignore id => exact knownOk_ignore h hk hs
  | cancel id => exact knownOk_cancel h hk hs
  | cancelSend id => exact knownOk_cancelSend h hk hs
  | cancelUndo id => exact knownOk_cancelUndo h hk hs
  | drain r => exact knownOk_drain h hk hs

end Calls

/-! ## Steps of the read loop and of other tasks -/

/-- A step that leaves the calls and the history as they are. -/
theorem knownOk_quiet {s s' : Sys} (h : KnownOk s) (hcalls : s'.calls = s.calls)
    (hhist : s'.history = s.history) (hn : s'.nextId = s.nextId) (hf : Fails s s')
    (hpend : ∀ id, .response id ∉ s.history → id ∈ s.pending →
      id ∈ s'.pending ∨ s'.failure.isSome = true)
    (hign : ∀ id, .response id ∉ s.history → id ∈ s.ignored → id ∈ s'.ignored)
    (hreader : ReaderOk s' s'.reader) : KnownOk s' := by
  refine ⟨?_, ?_, ?_, ?_, ?_, ?_, hreader, ?_, ?_⟩
  · rw [hhist, hn]
    exact h.bounded
  · rw [hhist, hn, hcalls]
    exact h.unissued
  · rw [hcalls]
    exact h.distinct
  · rw [hhist, hcalls]
    exact h.issued
  · rw [hcalls]
    intro k request pc hk
    have hr := h.ready k request pc hk
    cases pc with
    | send id =>
      simp only [Pc.Ready, hhist] at hr ⊢
      by_cases hres : .response id ∈ s.history
      · exact .inr (.inl hres)
      · rcases hr with hr | hr | hr
        · exact (hpend id hres hr).imp_right .inr
        · exact .inr (.inl hr)
        · exact .inr (.inr (hf.isSome hr))
    | cancelSend id =>
      simp only [Pc.Ready, hhist] at hr ⊢
      by_cases hres : .response id ∈ s.history
      · exact .inr hres
      · exact hr.imp_left (hign id hres)
    | _ => trivial
  · intro id h1 h2
    rw [hhist] at h1 h2
    rcases h.held id h1 h2 with hh | hh | hh | hh
    · rcases hpend id h2 hh with hh | hh
      · exact .inl hh
      · exact .inr (.inr (.inr hh))
    · exact .inr (.inl (hign id h2 hh))
    · exact .inr (.inr (.inl (by simpa only [Sys.Moving, hcalls] using hh)))
    · exact .inr (.inr (.inr (hf.isSome hh)))
  · rw [hhist]
    exact h.classified
  · intro id hid
    rw [hhist]
    rcases hf with hf | ⟨-, f, hf, hne⟩
    · exact h.failed id (hf ▸ hid)
    · rw [hf, Option.some.injEq] at hid
      exact absurd hid (hne id)

/-- The read loop while another task fails the session. -/
theorem readerOk_fails {s s' : Sys} (h : ReaderOk s s.reader) (hr : s'.reader = s.reader)
    (hcalls : s'.calls = s.calls) (hhist : s'.history = s.history) (hf : Fails s s')
    (hp : s'.pending = s.pending ∨ s'.failure.isSome = true) (hi : s'.ignored = s.ignored) :
    ReaderOk s' s'.reader := by
  rw [hr]
  cases hrd : s.reader with
  | ignored e =>
    simp only [hrd, ReaderOk, hhist, Sys.Held, Sys.Moving, hcalls, hi] at h ⊢
    refine ⟨h.1, fun hfirst => ?_⟩
    rcases hp with hp | hp
    · rw [hp]
      exact (h.2 hfirst).imp_right fun h => h.imp_right fun h => h.imp_right hf.isSome
    · exact .inr (.inr (.inr hp))
  | pending e =>
    simp only [hrd, ReaderOk, hhist] at h ⊢
    refine ⟨h.1, fun hfirst => ?_⟩
    rcases hp with hp | hp
    · rw [hp]
      exact (h.2 hfirst).imp_right hf.isSome
    · exact .inr hp
  | _ => trivial

/-- `fail` in the read loop for another reason than an unknown request. -/
theorem knownOk_failReader {s : Sys} (h : KnownOk s) {f : Failure}
    (hf : ∀ id, f ≠ .unknownRequest id) : KnownOk (s.failReader f) := by
  unfold Sys.failReader Sys.fail
  cases hs : s.failure with
  | some f' =>
    exact knownOk_quiet h rfl rfl rfl (.inl rfl) (fun _ _ => .inl) (fun _ _ h1 => h1) trivial
  | none =>
    exact knownOk_quiet h rfl rfl rfl (.inr ⟨hs, f, rfl, hf⟩) (fun _ _ => .inl)
      (fun _ _ h1 => h1) trivial

/-- The read loop observes something: no request is issued by that. -/
theorem knownOk_observe {s : Sys} (h : KnownOk s) {o : Obs} (ho : ∀ id, .issued id ≠ o)
    {f : Option Failure} (hmono : s.failure.isSome = true → f.isSome = true) {r : Reader}
    (hreader : ReaderOk { s.observe o with failure := f, reader := r } r)
    (hclassified : ∀ id, o = .unknown id → ¬ First s.history id)
    (hfailed : ∀ id, f = some (.unknownRequest id) →
      ∃ p q, s.history ++ [o] = p ++ .unknown id :: q ∧ ¬ First p id) :
    KnownOk { s.observe o with failure := f, reader := r } := by
  have hmem : ∀ {o' : Obs}, o' ∈ s.history ++ [o] ↔ o' ∈ s.history ∨ o' = o := by simp
  have hissued : ∀ {id}, .issued id ∈ s.history ++ [o] → .issued id ∈ s.history :=
    fun h1 => (hmem.mp h1).resolve_right (ho _)
  refine ⟨?_, ?_, h.distinct, ?_, ?_, ?_, hreader, ?_, hfailed⟩
  · exact fun id hid => h.bounded id (hissued hid)
  · intro k request pc id hk hid
    obtain ⟨h1, h2⟩ := h.unissued k request pc id hk hid
    exact ⟨h1, fun h3 => h2 (hissued h3)⟩
  · intro k request pc id hk hid
    exact hmem.mpr (.inl (h.issued k request pc id hk hid))
  · intro k request pc hk
    have hrdy := h.ready k request pc hk
    cases pc with
    | send id => exact hrdy.imp_right fun hr => hr.imp (fun hr => hmem.mpr (.inl hr)) hmono
    | cancelSend id => exact hrdy.imp_right fun hr => hmem.mpr (.inl hr)
    | _ => trivial
  · intro id h1 h2
    exact (h.held id (hissued h1) fun hm => h2 (hmem.mpr (.inl hm))).imp_right
      fun hr => hr.imp_right fun hr => hr.imp_right hmono
  · intro id hm
    rcases misclassified_snoc hm with hm | ⟨hm, hfirst⟩
    · exact h.classified id hm
    · exact hclassified id hm hfirst

theorem KnownOk.failed_snoc {s : Sys} (h : KnownOk s) (o : Obs) {id : Nat}
    (hid : s.failure = some (.unknownRequest id)) :
    ∃ p q, s.history ++ [o] = p ++ .unknown id :: q ∧ ¬ First p id := by
  obtain ⟨p, q, heq, hno⟩ := h.failed id hid
  exact ⟨p, q ++ [o], by simp [heq], hno⟩

/-- A response comes in. -/
theorem knownOk_response {s : Sys} (h : KnownOk s) {e : Envelope} {r : Reader}
    (hr : r = .ignored e ∨ r = .decoding) :
    KnownOk { s.observe (.response e.id) with reader := r } := by
  refine knownOk_observe h (by simp) (fun hf => hf) ?_ (by simp) fun id => h.failed_snoc _
  rcases hr with rfl | rfl
  · refine ⟨by simp [Sys.observe], fun hfirst => ?_⟩
    obtain ⟨h1, h2⟩ := first_response hfirst
    exact h.held e.id h1 h2
  · trivial

/-- A response that no request is found for. -/
theorem knownOk_unknown {s : Sys} (h : KnownOk s) {e : Envelope} (hno : ¬ First s.history e.id) :
    KnownOk ((s.observe (.unknown e.id)).failReader (.unknownRequest e.id)) := by
  have hobs : ∀ f : Option Failure, (f = s.failure ∨ f = some (.unknownRequest e.id)) →
      (s.failure.isSome = true → f.isSome = true) → ∀ r : Reader, (r = .draining ∨ r = .stopped) →
      KnownOk { s.observe (.unknown e.id) with failure := f, reader := r } := by
    intro f hf hmono r hr
    refine knownOk_observe h (by simp) hmono ?_ ?_ ?_
    · rcases hr with rfl | rfl <;> trivial
    · intro id hid hfirst
      rw [Obs.unknown.injEq] at hid
      exact hno (hid ▸ hfirst)
    · intro id hid
      rcases hf with rfl | rfl
      · exact h.failed_snoc _ hid
      · rw [Option.some.injEq, Failure.unknownRequest.injEq] at hid
        subst hid
        exact ⟨s.history, [], rfl, hno⟩
  unfold Sys.failReader Sys.fail
  cases hs : s.failure with
  | some f =>
    have : (s.observe (.unknown e.id)).failure.isSome = true := by simp [Sys.observe, hs]
    simp only [this, if_true]
    exact hobs s.failure (.inl rfl) (fun h => h) .stopped (.inr rfl)
  | none =>
    have : (s.observe (.unknown e.id)).failure.isSome = false := by simp [Sys.observe, hs]
    simp only [this, Bool.false_eq_true, if_false]
    exact hobs _ (.inr rfl) (fun _ => rfl) .draining (.inl rfl)

/-! ## Runs -/

def Thread.moves (id : Nat) : Thread → Bool
  | .running _ (.ignore id') => id' == id
  | _ => false

/-- The read loop is between its two lookups of `id`. -/
def Reader.between (id : Nat) : Reader → Bool
  | .pending e => e.id == id
  | _ => false

/-- The two lookups of the read loop and the two steps of `abandon` for one identifier do not
    interleave: the read loop does not look an identifier up in `ignored` while it is on its way
    there, and `abandon` does not take it from `pending` between the two lookups. No call is dropped
    on the way, and the read loop looks in `pending` only while the session has not failed. -/
def separate (s : Sys) : Action → Bool
  | .advance k => match s.calls[k]? with
    | some (.running _ (.abandon id)) => !s.reader.between id
    | _ => true
  | .drop k => match s.calls[k]? with
    | some (.running _ (.ignore _)) => false
    | _ => true
  | .read => match s.reader with
    | .ignored e => s.calls.toList.all fun p => !p.2.moves e.id
    | .pending _ => s.failure.isNone
    | _ => true
  | _ => true

theorem not_moving {s : Sys} {id : Nat} (h : s.calls.toList.all (fun p => !p.2.moves id) = true) :
    ¬ s.Moving id := by
  rintro ⟨k, request, hk⟩
  have := List.all_eq_true.mp h _ (Std.ExtTreeMap.mem_toList_iff_getElem?_eq_some.mpr hk)
  simp [Thread.moves] at this

theorem knownOk_read {s s' : Sys} (h : KnownOk s) (hsep : separate s .read = true)
    (hs : s.readStep = some s') : KnownOk s' := by
  have hr := h.reader
  unfold Sys.readStep at hs
  cases hrd : s.reader with
  | ignored e =>
    simp only [hrd, ReaderOk] at hr
    simp only [separate, hrd] at hsep
    simp only [hrd, Option.some.injEq] at hs
    subst hs
    split
    · refine knownOk_quiet h rfl rfl rfl (.inl rfl) (fun _ _ => .inl) (fun id hid h1 => ?_) trivial
      exact mem_set_erase.mpr ⟨fun heq => hid (heq ▸ hr.1), h1⟩
    · rename_i hno
      refine knownOk_quiet h rfl rfl rfl (.inl rfl) (fun _ _ => .inl) (fun _ _ h1 => h1)
        ⟨hr.1, fun hfirst => ?_⟩
      rcases hr.2 hfirst with hh | hh | hh | hh
      · exact .inl hh
      · exact absurd hh hno
      · exact absurd hh (not_moving hsep)
      · exact .inr hh
  | pending e =>
    simp only [hrd, ReaderOk] at hr
    simp only [separate, hrd, Option.isNone_iff_eq_none] at hsep
    simp only [hrd, Option.some.injEq] at hs
    subst hs
    split
    · refine knownOk_quiet h rfl rfl rfl (.inl rfl) (fun id hid h1 => .inl ?_) (fun _ _ h1 => h1)
        trivial
      exact mem_set_erase.mpr ⟨fun heq => hid (heq ▸ hr.1), h1⟩
    · rename_i hno
      refine knownOk_unknown h fun hfirst => ?_
      rcases hr.2 hfirst with hh | hh
      · exact hno hh
      · simp [hsep] at hh
  | draining =>
    simp only [hrd, Option.map_eq_some_iff] at hs
    obtain ⟨f, hf, rfl⟩ := hs
    exact knownOk_quiet h rfl rfl rfl (.inl rfl) (fun _ _ _ => .inr (by simp [Sys.drain, hf]))
      (fun _ _ h1 => h1) trivial
  | decoding | stopped => simp [hrd] at hs

theorem handleNotification_error {host : Host} {hello : Bool} {n : Notification} {f : Failure}
    (h : handleNotification host hello n = .error f) : ∀ id, f ≠ .unknownRequest id := by
  rintro id rfl
  have hdecoded : ∀ decoded : Except String Unit,
      (decoded.mapError Failure.other).map (fun _ => true) ≠ .error (.unknownRequest id) := by
    intro decoded
    cases decoded <;> simp [Except.mapError, Except.map]
  unfold handleNotification at h
  grind

theorem knownOk_receive {s s' : Sys} (h : KnownOk s) {frame : Frame} (hrd : s.reader = .decoding)
    (hs : s.receive frame = some s') : KnownOk s' := by
  cases frame with
  | notification n =>
    simp only [Sys.receive, Option.some.injEq] at hs
    subst hs
    split
    · exact knownOk_quiet h rfl rfl rfl (.inl rfl) (fun _ _ => .inl) (fun _ _ h1 => h1)
        (by rw [hrd]; trivial)
    · rename_i f hf
      exact knownOk_failReader h (handleNotification_error hf)
  | response e =>
    simp only [Sys.receive, Option.some.injEq] at hs
    subst hs
    split
    · refine knownOk_failReader ?_ (by simp)
      have := knownOk_response h (e := e) (.inr hrd)
      exact this
    · exact knownOk_response h (.inl rfl)
  | request id command =>
    simp only [Sys.receive] at hs
    split at hs
    · simp at hs
    · rw [Option.some.injEq] at hs
      subst hs
      split
      · exact h
      · exact knownOk_failReader h (by simp)
  | closed | invalid message =>
    simp only [Sys.receive, Option.some.injEq] at hs
    subst hs
    exact knownOk_failReader h (by simp)

theorem settled_start (s : Sys) (k : CallId) (request : Request) :
    Settled s k (s.start k request) := by
  unfold Sys.start
  split
  · exact settled_ret s k request _
  · refine ⟨rfl, rfl, rfl, rfl, Nat.le_succ _, .inl rfl, _, rfl, ?_⟩
    rintro _ _ ⟨⟩
    refine ⟨rfl, trivial, ?_⟩
    rintro id ⟨⟩
    exact ⟨Nat.lt_succ_self _, Nat.le_refl _⟩

/-- A new call. -/
theorem knownOk_start {s : Sys} (h : KnownOk s) {k : CallId} (hk : k ∉ s.calls)
    (request : Request) : KnownOk (s.start k request) := by
  have hs := settled_start s k request
  obtain ⟨t, hcalls, ht⟩ := hs.calls
  refine @knownOk_changed s _ h k none (by simp) ⟨hs.reader, hs.history, hs.nextId, hs.failure,
    ⟨t, hcalls, fun request' pc' hpc => ?_⟩, fun id _ hid => ?_, ?_, ?_⟩
  · obtain ⟨h1, h2, h3⟩ := ht request' pc' hpc
    exact ⟨by simp [h1], h2, fun id hid => .inr (h3 id hid)⟩
  · rcases hid with hid | hid | ⟨j, request', hj⟩ | hid
    · exact .inl (hs.pending ▸ hid)
    · exact .inr (.inl (hs.ignored ▸ hid))
    · refine .inr (.inr (.inl ⟨j, request', ?_⟩))
      rw [hcalls, getElem?_calls_insert, if_neg]
      · exact hj
      · rintro rfl
        simp [Std.ExtTreeMap.getElem?_eq_none hk] at hj
    · exact .inr (.inr (.inr (hs.failure.isSome hid)))
  · exact fun e _ _ he => .inl (hs.pending ▸ he)
  · exact fun id _ _ => ⟨fun hid => .inl (hs.pending ▸ hid), fun hid => hs.ignored ▸ hid⟩

theorem step_known {s s' : Sys} {a : Action} (h : KnownOk s) (hsep : separate s a = true)
    (hs : step s a = some s') : KnownOk s' := by
  cases a with
  | start k request =>
    simp only [step, Option.ite_none_left_eq_some, Option.some.injEq] at hs
    obtain ⟨hk, rfl⟩ := hs
    exact knownOk_start h hk request
  | advance k =>
    simp only [step] at hs
    split at hs
    · rename_i request pc hk
      refine knownOk_call h hk ?_ hs
      rintro id e rfl hrd
      simpa [separate, hk, hrd, Reader.between] using hsep
    · simp at hs
  | refuse k =>
    simp only [step] at hs
    split at hs
    · rename_i request pc hk
      cases pc with
      | send id | wait id | cancelSend id => exact knownOk_call h hk (by simp) hs
      | _ => simp at hs
    · simp at hs
  | drop k =>
    simp only [step] at hs
    split at hs
    · rename_i request pc hk
      rw [Option.some.injEq] at hs
      subst hs
      refine knownOk_running h hk (changed_same hk
        ⟨rfl, rfl, rfl, rfl, Nat.le_refl _, .inl rfl, _, rfl, by simp⟩ ?_)
      rintro id rfl
      simp [separate, hk] at hsep
    · simp at hs
  | receive frame =>
    simp only [step] at hs
    split at hs
    · rename_i hrd
      exact knownOk_receive h hrd hs
    · simp at hs
  | read => exact knownOk_read h hsep hs
  | fail message =>
    simp only [step, Option.some.injEq, Sys.fail] at hs
    subst hs
    cases hf : s.failure with
    | some f => exact h
    | none =>
      have hfails : Fails s { s with failure := some (.other message), failing := s.failing + 1 } :=
        .inr ⟨hf, _, rfl, by simp⟩
      exact knownOk_quiet h rfl rfl rfl hfails (fun _ _ => .inl) (fun _ _ h1 => h1)
        (readerOk_fails h.reader rfl rfl rfl hfails (.inl rfl) rfl)
  | drain =>
    simp only [step] at hs
    split at hs
    · rename_i f n hf hn
      rw [Option.some.injEq] at hs
      subst hs
      have hfail : (s.drain f).failure.isSome = true := by simp [Sys.drain, hf]
      exact knownOk_quiet h rfl rfl rfl (.inl rfl) (fun _ _ _ => .inr hfail) (fun _ _ h1 => h1)
        (readerOk_fails h.reader rfl rfl rfl (.inl rfl) (.inr hfail) rfl)
    · simp at hs
  | setPid pid =>
    simp only [step, Option.some.injEq] at hs
    subst hs
    exact knownOk_quiet h rfl rfl rfl (.inl rfl) (fun _ _ => .inl) (fun _ _ h1 => h1)
      (readerOk_fails h.reader rfl rfl rfl (.inl rfl) (.inl rfl) rfl)

theorem spawn_known (host : Host) : KnownOk (Sys.spawn host) := by
  refine ⟨?_, ?_, ?_, ?_, ?_, ?_, trivial, ?_, ?_⟩ <;> simp [Sys.spawn, Misclassified]

/-- In every state of a run of separate steps no first response to a request of the host has been
    taken for a response to an unknown request. -/
theorem tolerant_of_separate {host : Host} {as : List Action} {s : Sys}
    (hrun : run (Sys.spawn host) as = some s)
    (hsep : Machine.Meets step (fun s a => separate s a = true) (Sys.spawn host) as) :
    s.Tolerant := by
  have h : KnownOk s :=
    Machine.run_inv_of_meets (fun _ _ _ h hsep hs => step_known h hsep hs) (spawn_known host) hsep
      hrun
  exact ⟨h.classified, h.failed⟩

/-- A health request and its response. -/
def health : Request := ⟨"health", .ok (), .ok⟩

def healthy : Envelope := ⟨1, "health", some "", none⟩

/-- A session that has received hello, and a health request whose deadline has passed. -/
def overdue : List Action :=
  [.setPid 7, .receive (.notification ⟨.hello, some (.ok ()), true⟩), .start 0 health, .advance 0,
    .advance 0, .refuse 0]

/-- The response is looked up while its identifier is on the way from `pending` to `ignored`. -/
def lateResponse : List Action :=
  overdue ++ [.advance 0, .receive (.response healthy), .read, .read, .read]

theorem not_tolerant_lateResponse :
    (∃ s, run (Sys.spawn .plugin) lateResponse = some s ∧ Misclassified s.history 1 ∧
      s.failure = some (.unknownRequest 1) ∧ s.killed = true ∧ ¬ s.Tolerant) ∧
    ∃ s, run (Sys.spawn .adapter) lateResponse = some s ∧ Misclassified s.history 1 ∧
      s.failure = some (.unknownRequest 1) ∧ s.killed = true ∧ ¬ s.Tolerant := by
  have hmis : Misclassified [.issued 1, .response 1, .unknown 1] 1 :=
    ⟨[.issued 1, .response 1], [], rfl, [.issued 1], [], rfl, by decide, by decide, by decide⟩
  exact ⟨⟨(run (Sys.spawn .plugin) lateResponse).get (by decide), (Option.some_get _).symm, hmis,
      rfl, rfl, fun h => h.1 1 hmis⟩,
    (run (Sys.spawn .adapter) lateResponse).get (by decide), (Option.some_get _).symm, hmis,
      rfl, rfl, fun h => h.1 1 hmis⟩

/-- The response comes after `abandon`: it is ignored. -/
def ignoredResponse : List Action :=
  overdue ++ [.advance 0, .advance 0, .receive (.response healthy), .read]

theorem tolerant_ignoredResponse :
    ∃ s, run (Sys.spawn .plugin) ignoredResponse = some s ∧ First s.history 1 ∧
      s.reader = .decoding ∧ s.failure = none ∧ s.Tolerant :=
  ⟨(run (Sys.spawn .plugin) ignoredResponse).get (by decide), (Option.some_get _).symm,
    ⟨[.issued 1], [], rfl, by decide, by decide, by decide⟩, rfl, rfl,
    tolerant_of_separate (Option.some_get _).symm (Machine.meets_of_allows (by decide))⟩

end Oikade.Session
