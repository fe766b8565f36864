/-
  The calls of the host: whose response each of them gets.

  `HostOk` follows the identifiers: each is used by one call, and what the receiver of a request has
  been sent is the adapter's answer to that request. `FlowOk` follows the frames: a request is
  answered at most once, and the read loop is done with a response at most once.
-/
import Oikade.Rpc.Model
import Oikade.Session.Stepped
import Mathlib.Data.List.Perm.Subperm

namespace Oikade.Rpc

open Session

/-! ## Identifiers -/

/-- The identifiers of the requests that calls have sent or are about to send, and what their
    receivers have been sent. -/
structure HostOk (s : Sys) (issued : List (CallId × Nat)) (handled : List (CallId × Envelope)) :
    Prop where
  sound : ∀ (k : CallId) t, s.calls[k]? = some t → t.Sound
  unsent : ∀ (k : CallId) t id, s.calls[k]? = some t → t.unsent = some id →
    id ≤ s.nextId ∧ id ∉ issued.map Prod.snd ∧ k ∉ issued.map Prod.fst
  distinct : ∀ (j k : CallId) t t' id, j ≠ k → s.calls[j]? = some t → s.calls[k]? = some t' →
    t.unsent = some id → t'.unsent ≠ some id
  known : ∀ k : CallId, s.calls[k]? = none → k ∉ issued.map Prod.fst
  bounded : ∀ r ∈ issued, r.2 ≤ s.nextId
  once : (issued.map Prod.fst).Nodup
  ids : (issued.map Prod.snd).Nodup
  awaits : ∀ (k : CallId) t id, s.calls[k]? = some t → t.awaits = some id → (k, id) ∈ issued
  slots : ∀ id e, s.slots id = some (.ok e) → ∃ k, (k, id) ∈ issued ∧ (k, e) ∈ handled
  returned : ∀ (k : CallId) request body, s.calls[k]? = some (.returned request (.ok body)) →
    ∃ e, (k, e) ∈ handled ∧ Accepts request e body

section Host

variable {s s' : Sys} {issued : List (CallId × Nat)} {handled : List (CallId × Envelope)}

/-- An identifier belongs to one request. -/
theorem HostOk.call_eq (h : HostOk s issued handled) {j k : CallId} {id : Nat}
    (hj : (j, id) ∈ issued) (hk : (k, id) ∈ issued) : j = k :=
  congrArg Prod.fst (List.inj_on_of_nodup_map h.ids hj hk rfl)

theorem hostOk_others (h : HostOk s issued handled) (ho : Others s s') : HostOk s' issued handled where
  sound k t hk := h.sound k t (ho.calls ▸ hk)
  unsent k t id hk hid := by
    obtain ⟨h1, h2⟩ := h.unsent k t id (ho.calls ▸ hk) hid
    exact ⟨Nat.le_trans h1 ho.nextId, h2⟩
  distinct j k t t' id hjk hj hk := h.distinct j k t t' id hjk (ho.calls ▸ hj) (ho.calls ▸ hk)
  known k hk := h.known k (ho.calls ▸ hk)
  bounded r hr := Nat.le_trans (h.bounded r hr) ho.nextId
  once := h.once
  ids := h.ids
  awaits k t id hk := h.awaits k t id (ho.calls ▸ hk)
  slots id e he := h.slots id e (ho.slots id e he)
  returned k request body hk := h.returned k request body (ho.calls ▸ hk)

/-- The read loop hands a response to the receiver of its request. -/
theorem hostOk_handed (h : HostOk s issued handled) {k : CallId} {e : Envelope}
    (hissued : (k, e.id) ∈ issued) (hhandled : (k, e) ∈ handled) (pending : Std.ExtTreeSet Nat)
    (reader : Reader) :
    HostOk { s with pending, slots := Function.update s.slots e.id (some (.ok e)), reader }
      issued handled where
  __ := h
  slots id e' he := by
    replace he : Function.update s.slots e.id (some (.ok e)) id = some (.ok e') := he
    by_cases hid : id = e.id
    · subst hid
      rw [Function.update_self, Option.some.injEq, Except.ok.injEq] at he
      subst he
      exact ⟨k, hissued, hhandled⟩
    · rw [Function.update_of_ne hid] at he
      exact h.slots id e' he

theorem hostOk_handled (h : HostOk s issued handled) (r : CallId × Envelope) :
    HostOk s issued (handled ++ [r]) where
  __ := h
  slots id e he := by
    obtain ⟨k, h1, h2⟩ := h.slots id e he
    exact ⟨k, h1, List.mem_append_left _ h2⟩
  returned k request body hk := by
    obtain ⟨e, h1, h2⟩ := h.returned k request body hk
    exact ⟨e, List.mem_append_left _ h1, h2⟩

/-- A step of a call that sends no request. -/
theorem hostOk_stepped (h : HostOk s issued handled) {k : CallId} (hs : Stepped s k s')
    (hquiet : ∀ t, s'.calls[k]? = some t → t.awaits = none) : HostOk s' issued handled := by
  obtain ⟨t', hcalls, hafter⟩ := hs.thread
  have hget : ∀ j : CallId, s'.calls[j]? = if k = j then some t' else s.calls[j]? := fun j => by
    rw [hcalls, getElem?_calls_insert]
  have hself : s'.calls[k]? = some t' := by rw [hget, if_pos rfl]
  -- what a call is about to send is its own of before, or new
  have hown : ∀ id, t'.unsent = some id → id ≤ s'.nextId ∧ id ∉ issued.map Prod.snd ∧
      k ∉ issued.map Prod.fst ∧
      ∀ (j : CallId) t, j ≠ k → s.calls[j]? = some t → t.unsent ≠ some id := by
    intro id hid
    obtain hold | ⟨hnone, hlt, hle⟩ := hafter.unsent id hid
    · obtain ⟨t, ht, hu⟩ := Option.bind_eq_some_iff.mp hold
      obtain ⟨h1, h2, h3⟩ := h.unsent k t id ht hu
      exact ⟨Nat.le_trans h1 hs.nextId, h2, h3, fun j t'' hj hjt hju =>
        h.distinct k j t t'' id (Ne.symm hj) ht hjt hu hju⟩
    · refine ⟨hle, fun hm => ?_, h.known k hnone, fun j t hj hjt hju => ?_⟩
      · obtain ⟨r, hr, rfl⟩ := List.mem_map.mp hm
        have := h.bounded r hr
        omega
      · have := (h.unsent j t id hjt hju).1
        omega
  refine ⟨?_, ?_, ?_, ?_, ?_, h.once, h.ids, ?_, ?_, ?_⟩
  · intro j t hj
    rw [hget] at hj
    by_cases hkj : k = j
    · rw [if_pos hkj, Option.some.injEq] at hj
      exact hj ▸ hafter.sound
    · rw [if_neg hkj] at hj
      exact h.sound j t hj
  · intro j t id hj hid
    rw [hget] at hj
    by_cases hkj : k = j
    · rw [if_pos hkj, Option.some.injEq] at hj
      subst hj hkj
      obtain ⟨h1, h2, h3, -⟩ := hown id hid
      exact ⟨h1, h2, h3⟩
    · rw [if_neg hkj] at hj
      obtain ⟨h1, h2⟩ := h.unsent j t id hj hid
      exact ⟨Nat.le_trans h1 hs.nextId, h2⟩
  · intro i j t t'' id hij hi hj hid hid'
    rw [hget] at hi hj
    by_cases hki : k = i
    · subst hki
      rw [if_pos rfl, Option.some.injEq] at hi
      rw [if_neg hij] at hj
      subst hi
      exact (hown id hid).2.2.2 j t'' (Ne.symm hij) hj hid'
    · rw [if_neg hki] at hi
      by_cases hkj : k = j
      · subst hkj
        rw [if_pos rfl, Option.some.injEq] at hj
        subst hj
        exact (hown id hid').2.2.2 i t hij hi hid
      · rw [if_neg hkj] at hj
        exact h.distinct i j t t'' id hij hi hj hid hid'
  · intro j hj
    rw [hget] at hj
    by_cases hkj : k = j
    · simp [hkj] at hj
    · rw [if_neg hkj] at hj
      exact h.known j hj
  · exact fun r hr => Nat.le_trans (h.bounded r hr) hs.nextId
  · intro j t id hj hid
    by_cases hkj : k = j
    · subst hkj
      rw [hquiet t hj] at hid
      cases hid
    · rw [hget, if_neg hkj] at hj
      exact h.awaits j t id hj hid
  · exact fun id e he => h.slots id e (hs.slots id e he)
  · intro j request body hj
    rw [hget] at hj
    by_cases hkj : k = j
    · subst hkj
      rw [if_pos rfl, Option.some.injEq] at hj
      obtain ⟨id, e, hwait, hslot, hacc⟩ := hafter.returned request body hj
      -- the receiver belongs to the call, so its response answers the call's request
      obtain ⟨j, hj1, hj2⟩ := h.slots id e hslot
      have hjk : j = k := h.call_eq hj1 (h.awaits k _ id hwait rfl)
      exact ⟨e, hjk ▸ hj2, hacc⟩
    · rw [if_neg hkj] at hj
      exact h.returned j request body hj

/-- A call sends its request. -/
theorem hostOk_issue (h : HostOk s issued handled) {k : CallId} {request : Request} {id : Nat}
    (hk : s.calls[k]? = some (.running request (.send id))) :
    HostOk ((s.observe (.issued id)).goto k request (.wait id)) (issued ++ [(k, id)]) handled := by
  obtain ⟨hle, hid, hcall⟩ := h.unsent k _ id hk rfl
  have hget : ∀ j : CallId, ((s.observe (.issued id)).goto k request (.wait id)).calls[j]? =
      if k = j then some (.running request (.wait id)) else s.calls[j]? :=
    fun j => getElem?_calls_insert _ _ _ _
  have hother : ∀ (j : CallId) t id', k ≠ j → s.calls[j]? = some t → t.unsent = some id' →
      id' ∉ (issued ++ [(k, id)]).map Prod.snd ∧ j ∉ (issued ++ [(k, id)]).map Prod.fst := by
    intro j t id' hkj hj hid'
    obtain ⟨-, h2, h3⟩ := h.unsent j t id' hj hid'
    simp only [List.map_append, List.map_cons, List.map_nil, List.mem_append, List.mem_singleton,
      not_or]
    refine ⟨⟨h2, fun he => ?_⟩, h3, Ne.symm hkj⟩
    subst he
    exact h.distinct k j _ t id' hkj hk hj rfl hid'
  refine ⟨?_, ?_, ?_, ?_, ?_, ?_, ?_, ?_, ?_, ?_⟩
  · intro j t hj
    rw [hget] at hj
    by_cases hkj : k = j
    · rw [if_pos hkj, Option.some.injEq] at hj
      subst hj
      simp [Thread.Sound]
    · rw [if_neg hkj] at hj
      exact h.sound j t hj
  · intro j t id' hj hid'
    rw [hget] at hj
    by_cases hkj : k = j
    · rw [if_pos hkj, Option.some.injEq] at hj
      subst hj
      cases hid'
    · rw [if_neg hkj] at hj
      exact ⟨(h.unsent j t id' hj hid').1, hother j t id' hkj hj hid'⟩
  · intro i j t t' id' hij hi hj hid' hid''
    rw [hget] at hi hj
    by_cases hki : k = i
    · rw [if_pos hki, Option.some.injEq] at hi
      subst hi
      cases hid'
    · by_cases hkj : k = j
      · rw [if_pos hkj, Option.some.injEq] at hj
        subst hj
        cases hid''
      · rw [if_neg hki] at hi
        rw [if_neg hkj] at hj
        exact h.distinct i j t t' id' hij hi hj hid' hid''
  · intro j hj
    rw [hget] at hj
    by_cases hkj : k = j
    · simp [hkj] at hj
    · rw [if_neg hkj] at hj
      simp only [List.map_append, List.map_cons, List.map_nil, List.mem_append, List.mem_singleton,
        not_or]
      exact ⟨h.known j hj, Ne.symm hkj⟩
  · intro r hr
    obtain hr | hr := List.mem_append.mp hr
    · exact h.bounded r hr
    · rw [List.mem_singleton.mp hr]
      exact hle
  · rw [List.map_append]
    exact List.concat_eq_append ▸ h.once.concat hcall
  · rw [List.map_append]
    exact List.concat_eq_append ▸ h.ids.concat hid
  · intro j t id' hj hid'
    rw [hget] at hj
    by_cases hkj : k = j
    · rw [if_pos hkj, Option.some.injEq] at hj
      subst hj
      simp only [Thread.awaits, Option.some.injEq] at hid'
      subst hid' hkj
      exact List.mem_append_right _ (List.mem_singleton_self _)
    · rw [if_neg hkj] at hj
      exact List.mem_append_left _ (h.awaits j t id' hj hid')
  · intro id' e he
    obtain ⟨j, h1, h2⟩ := h.slots id' e he
    exact ⟨j, List.mem_append_left _ h1, h2⟩
  · intro j request' body hj
    rw [hget] at hj
    by_cases hkj : k = j
    · rw [if_pos hkj, Option.some.injEq] at hj
      cases hj
    · rw [if_neg hkj] at hj
      exact h.returned j request' body hj

end Host

/-! ## Frames -/

/-- Requests that the adapter has not answered and responses that the read loop is not done with.
    A request is answered at most once, and a response is consumed at most once. -/
structure FlowOk (requests : List (CallId × Nat)) (responses : List (CallId × Envelope))
    (issued : List (CallId × Nat)) (handled : List (CallId × Envelope))
    (consumed : List (CallId × Option Nat)) : Prop where
  ofCall : ∀ r ∈ requests, r ∈ issued
  answers : ∀ r ∈ handled, (r.1, r.2.id) ∈ issued
  handledOnce : (requests.map Prod.fst ++ handled.map Prod.fst).Nodup
  inLedger : ∀ r ∈ responses, r ∈ handled
  consumedOnce : (responses.map Prod.fst ++ consumed.map Prod.fst).Nodup
  receivers : ∀ r ∈ consumed, r.1 ∈ handled.map Prod.fst ∧ ∀ id, r.2 = some id → (r.1, id) ∈ issued

section Flow

variable {requests requests' issued : List (CallId × Nat)}
  {responses responses' handled : List (CallId × Envelope)} {consumed : List (CallId × Option Nat)}

theorem nodup_map_append {α β : Type} {f : α → β} {xs xs' : List α} {ys : List β}
    (h : List.Subperm xs' xs) (hn : (xs.map f ++ ys).Nodup) : (xs'.map f ++ ys).Nodup := by
  obtain ⟨l, hperm, hsub⟩ := h
  exact ((hperm.map f).append_right ys).nodup_iff.mp (hn.sublist ((hsub.map f).append_right ys))

theorem perm_snoc {α : Type} (xs ys : List α) (a : α) :
    List.Perm (xs ++ (ys ++ [a])) (a :: (xs ++ ys)) := by
  rw [← List.append_assoc]
  exact List.perm_append_singleton a (xs ++ ys)

/-- Frames go from one queue to another, or are lost. -/
theorem flowOk_subperm (h : FlowOk requests responses issued handled consumed)
    (hreq : List.Subperm requests' requests) (hresp : List.Subperm responses' responses) :
    FlowOk requests' responses' issued handled consumed where
  ofCall r hr := h.ofCall r (hreq.subset hr)
  answers := h.answers
  handledOnce := nodup_map_append hreq h.handledOnce
  inLedger r hr := h.inLedger r (hresp.subset hr)
  consumedOnce := nodup_map_append hresp h.consumedOnce
  receivers := h.receivers

theorem flowOk_issue (h : FlowOk requests responses issued handled consumed) {k : CallId} {id : Nat}
    (hk : k ∉ issued.map Prod.fst) :
    FlowOk ((k, id) :: requests) responses (issued ++ [(k, id)]) handled consumed where
  ofCall r hr := by
    obtain rfl | hr := List.mem_cons.mp hr
    · exact List.mem_append_right _ (List.mem_singleton_self _)
    · exact List.mem_append_left _ (h.ofCall r hr)
  answers r hr := List.mem_append_left _ (h.answers r hr)
  handledOnce := by
    rw [List.map_cons, List.cons_append, List.nodup_cons]
    refine ⟨fun hm => ?_, h.handledOnce⟩
    obtain hm | hm := List.mem_append.mp hm
    · obtain ⟨r, hr, rfl⟩ := List.mem_map.mp hm
      exact hk (List.mem_map_of_mem (h.ofCall r hr))
    · obtain ⟨r, hr, rfl⟩ := List.mem_map.mp hm
      exact hk (List.mem_map_of_mem (f := Prod.fst) (h.answers r hr))
  inLedger := h.inLedger
  consumedOnce := h.consumedOnce
  receivers r hr := ⟨(h.receivers r hr).1, fun id' hid =>
    List.mem_append_left _ ((h.receivers r hr).2 id' hid)⟩

/-- The adapter answers a request. -/
theorem flowOk_answer {k : CallId} {e : Envelope}
    (h : FlowOk ((k, e.id) :: requests) responses issued handled consumed) :
    FlowOk requests ((k, e) :: responses) issued (handled ++ [(k, e)]) consumed := by
  have hnew : k ∉ handled.map Prod.fst ∧ (requests.map Prod.fst ++ handled.map Prod.fst).Nodup := by
    have h' := h.handledOnce
    rw [List.map_cons, List.cons_append, List.nodup_cons, List.mem_append, not_or] at h'
    exact ⟨h'.1.2, h'.2⟩
  refine ⟨fun r hr => h.ofCall r (List.mem_cons_of_mem _ hr), ?_, ?_, ?_, ?_, ?_⟩
  · intro r hr
    obtain hr | hr := List.mem_append.mp hr
    · exact h.answers r hr
    · rw [List.mem_singleton.mp hr]
      exact h.ofCall _ List.mem_cons_self
  · have hperm : List.Perm (requests.map Prod.fst ++ (handled ++ [(k, e)]).map Prod.fst)
        (((k, e.id) :: requests).map Prod.fst ++ handled.map Prod.fst) := by
      rw [List.map_append]
      exact perm_snoc _ _ k
    exact hperm.nodup_iff.mpr h.handledOnce
  · intro r hr
    obtain rfl | hr := List.mem_cons.mp hr
    · exact List.mem_append_right _ (List.mem_singleton_self _)
    · exact List.mem_append_left _ (h.inLedger r hr)
  · rw [List.map_cons, List.cons_append, List.nodup_cons]
    refine ⟨fun hm => ?_, h.consumedOnce⟩
    obtain hm | hm := List.mem_append.mp hm
    · obtain ⟨r, hr, rfl⟩ := List.mem_map.mp hm
      exact hnew.1 (List.mem_map_of_mem (h.inLedger r hr))
    · obtain ⟨r, hr, rfl⟩ := List.mem_map.mp hm
      exact hnew.1 (h.receivers r hr).1
  · intro r hr
    obtain ⟨h1, h2⟩ := h.receivers r hr
    exact ⟨by rw [List.map_append]; exact List.mem_append_left _ h1, h2⟩

/-- The read loop is done with a response. -/
theorem flowOk_consume {k : CallId} {e : Envelope} {receiver : Option Nat}
    (h : FlowOk requests ((k, e) :: responses) issued handled consumed)
    (hreceiver : ∀ id, receiver = some id → id = e.id) :
    FlowOk requests responses issued handled (consumed ++ [(k, receiver)]) where
  ofCall := h.ofCall
  answers := h.answers
  handledOnce := h.handledOnce
  inLedger r hr := h.inLedger r (List.mem_cons_of_mem _ hr)
  consumedOnce := by
    have hperm : List.Perm (responses.map Prod.fst ++ (consumed ++ [(k, receiver)]).map Prod.fst)
        (((k, e) :: responses).map Prod.fst ++ consumed.map Prod.fst) := by
      rw [List.map_append]
      exact perm_snoc _ _ k
    exact hperm.nodup_iff.mpr h.consumedOnce
  receivers r hr := by
    obtain hr | hr := List.mem_append.mp hr
    · exact h.receivers r hr
    · rw [List.mem_singleton.mp hr]
      have hmem := h.inLedger _ List.mem_cons_self
      refine ⟨List.mem_map_of_mem (f := Prod.fst) hmem, fun id hid => ?_⟩
      rw [hreceiver id hid]
      exact h.answers _ hmem

end Flow

/-! ## The calls of a world -/

/-- The request of a call. -/
def HostFrame.call : HostFrame → Option (CallId × Nat)
  | .request id _ k => some (k, id)
  | .response .. => none

/-- The response to a call. -/
def AdapterFrame.call : AdapterFrame → Option (CallId × Envelope)
  | .response e k => some (k, e)
  | .hello | .request .. => none

def Loop.call : Loop → Option (CallId × Nat)
  | .handling id _ k => some (k, id)
  | .select | .exited => none

/-- The response in the hands of the read loop. -/
def World.inHand (w : World) : List (CallId × Envelope) :=
  match w.host.reader, w.reading with
  | .ignored e, some k | .pending e, some k => [(k, e)]
  | _, _ => []

def World.requests (w : World) : List (CallId × Nat) :=
  w.outbound.filterMap HostFrame.call ++ w.toAdapter.filterMap HostFrame.call ++
    w.adapter.loop.call.toList

def World.responses (w : World) : List (CallId × Envelope) :=
  w.toHost.filterMap AdapterFrame.call ++ w.inHand

def Holds : Reader → Prop
  | .ignored _ | .pending _ => True
  | .decoding | .draining | .stopped => False

structure CallsOk (w : World) : Prop where
  host : HostOk w.host w.ledger.issued w.ledger.handled
  flow : FlowOk w.requests w.responses w.ledger.issued w.ledger.handled w.ledger.consumed
  hello : w.host.hello = false → ∃ rest, w.toHost = .hello :: rest
  reading : w.reading.isSome = true ↔ Holds w.host.reader

section Calls

variable {w w' : World} {F : Formats}

/-! ## Steps of a task -/

theorem dispatch_eq_some {i : Nat} : step F w (.dispatch i) = some w' ↔
    ∃ t, w.tasks[i]? = some t ∧ t.pc = .spawned ∧ w.dispatch F i t = w' := by
  simp only [step]
  cases w.tasks[i]? with
  | none => simp
  | some t => cases hpc : t.pc <;> simp [hpc]

theorem written_eq_some {i : Nat} {result : Except Core.RuntimeError Core.Value} :
    step F w (.written i result) = some w' ↔
      ∃ t command, w.tasks[i]? = some t ∧ t.pc = .writing command ∧
        w.written F i t command result = some w' := by
  simp only [step]
  cases w.tasks[i]? with
  | none => simp
  | some t => cases hpc : t.pc <;> simp [hpc]

theorem reply_eq_some {i : Nat} : step F w (.reply i) = some w' ↔
    ∃ t e permit, w.tasks[i]? = some t ∧ t.pc = .sending e permit ∧ w.reply i t e = some w' := by
  simp only [step]
  cases w.tasks[i]? with
  | none => simp
  | some t =>
    cases hpc : t.pc with
    | spawned | writing command | ended => simp [hpc]
    | sending e permit =>
      simp only [hpc]
      constructor
      · intro h
        exact ⟨t, e, permit, rfl, hpc, h⟩
      · rintro ⟨_, e', permit', ⟨⟩, hpc', h⟩
        rw [hpc] at hpc'
        cases hpc'
        exact h

/-! ## Steps of the session -/

/-- The session takes a step that leaves its frames alone. -/
theorem callsOk_host (h : CallsOk w) {host : Sys}
    (hhost : HostOk host w.ledger.issued w.ledger.handled) (hreader : host.reader = w.host.reader)
    (hhello : w.host.hello = true → host.hello = true) : CallsOk { w with host } where
  host := hhost
  flow := by
    have hhand : World.inHand { w with host } = w.inHand := by
      simp only [World.inHand, hreader]
    have hresp : World.responses { w with host } = w.responses := by
      simp only [World.responses, hhand]
    rw [hresp]
    exact h.flow
  hello hf := h.hello (Bool.eq_false_iff.mpr fun ht => by simp [hhello ht] at hf)
  reading := by
    rw [h.reading, hreader]

theorem callsOk_others (h : CallsOk w) {a : Session.Action}
    (ha : (∃ message, a = .fail message) ∨ a = .drain ∨ ∃ pid, a = .setPid pid)
    (hs : w.session a = some w') : CallsOk w' := by
  obtain ⟨host, hstep, rfl⟩ := Option.map_eq_some_iff.mp hs
  obtain ⟨ho, hreader⟩ := others_step ha hstep
  exact callsOk_host h (hostOk_others h.host ho) hreader ho.hello

/-- A step of a call that sends no request. -/
theorem callsOk_call (h : CallsOk w) {a : Session.Action} {k : CallId} (ha : a.OfCall k)
    (hquiet : ∀ host, Session.step w.host a = some host →
      ∀ t, host.calls[k]? = some t → t.awaits = none)
    (hs : w.session a = some w') : CallsOk w' := by
  obtain ⟨host, hstep, rfl⟩ := Option.map_eq_some_iff.mp hs
  have hstepped := stepped_step ha (h.host.sound k) hstep
  exact callsOk_host h (hostOk_stepped h.host hstepped (hquiet host hstep)) hstepped.reader
    hstepped.hello

/-- Only the step that sends a request goes to `wait`. -/
theorem awaits_none {s s' : Sys} {k : CallId} {a : Session.Action} (ha : a.OfCall k)
    (hsound : ∀ t, s.calls[k]? = some t → t.Sound) (hs : Session.step s a = some s')
    (hsend : ∀ request id, s.calls[k]? ≠ some (.running request (.send id))) (t : Thread)
    (ht : s'.calls[k]? = some t) : t.awaits = none := by
  obtain ⟨t', hcalls, hafter⟩ := (stepped_step ha hsound hs).thread
  rw [hcalls, getElem?_calls_insert, if_pos rfl, Option.some.injEq] at ht
  subst ht
  cases haw : t'.awaits with
  | none => rfl
  | some id =>
    obtain ⟨request, hreq⟩ := hafter.awaits id haw
    exact absurd hreq (hsend request id)

theorem callsOk_advance (h : CallsOk w) {k : CallId} (hs : w.advance k = some w') : CallsOk w' := by
  have hquiet : (∀ request id, w.host.calls[k]? ≠ some (.running request (.send id))) →
      w.session (.advance k) = some w' → CallsOk w' := fun hno hs =>
    callsOk_call h (.inr (.inl rfl))
      (fun host hstep => awaits_none (.inr (.inl rfl)) (h.host.sound k) hstep hno) hs
  unfold World.advance at hs
  cases hk : w.host.calls[k]? with
  | none =>
    simp only [hk] at hs
    exact hquiet (by simp [hk]) hs
  | some t =>
    cases t with
    | returned request outcome | dropped request =>
      simp only [hk] at hs
      exact hquiet (by simp [hk]) hs
    | running request pc =>
      cases pc with
      | insert id | unsend id | wait id | abandon id | ignore id | cancel id | cancelSend id
      | cancelUndo id | drain r =>
        simp only [hk] at hs
        exact hquiet (by simp [hk]) hs
      | send id =>
        simp only [hk] at hs
        by_cases hroom : w.writing = true ∧ w.outbound.length < outboundQueue
        · rw [if_pos hroom] at hs
          obtain ⟨host, hstep, rfl⟩ := Option.map_eq_some_iff.mp hs
          simp only [Session.step, hk, Sys.callStep, Bool.false_eq_true, if_false,
            Option.some.injEq] at hstep
          subst hstep
          refine ⟨hostOk_issue h.host hk, ?_, h.hello, h.reading⟩
          refine flowOk_subperm (flowOk_issue h.flow (h.host.unsent k _ id hk rfl).2.2) ?_
            (List.Subperm.refl _)
          refine List.Perm.subperm ?_
          simp only [World.requests, List.filterMap_append, List.filterMap_cons, HostFrame.call,
            List.filterMap_nil, List.append_assoc, List.singleton_append]
          exact List.perm_middle
        · rw [if_neg hroom] at hs
          cases hs

theorem callsOk_refuse (h : CallsOk w) {k : CallId} (hs : w.refuse k = some w') : CallsOk w' := by
  have hs' : w.session (.refuse k) = some w' := by
    unfold World.refuse at hs
    split at hs
    · split at hs
      · cases hs
      · exact hs
    · exact hs
  refine callsOk_call h (.inr (.inr (.inl rfl))) (fun host hstep => ?_) hs'
  by_cases hno : ∀ request id, w.host.calls[k]? ≠ some (.running request (.send id))
  · exact awaits_none (.inr (.inr (.inl rfl))) (h.host.sound k) hstep hno
  · simp only [not_forall, not_not] at hno
    obtain ⟨request, id, hk⟩ := hno
    simp only [Session.step, hk, Sys.callStep, if_true, Option.some.injEq] at hstep
    subst hstep
    intro t ht
    simp only [Sys.goto, getElem?_calls_insert, if_true, Option.some.injEq] at ht
    subst ht
    rfl

theorem callsOk_start (h : CallsOk w) {k : CallId} {request : Request}
    (hs : w.session (.start k request) = some w') : CallsOk w' := by
  refine callsOk_call h (.inl ⟨request, rfl⟩) (fun host hstep => ?_) hs
  refine awaits_none (.inl ⟨request, rfl⟩) (h.host.sound k) hstep fun request' id hk => ?_
  have hmem : k ∈ w.host.calls := Std.ExtTreeMap.isSome_getElem?_iff_mem.mp (by simp [hk])
  simp [Session.step, hmem] at hstep

theorem callsOk_drop (h : CallsOk w) {k : CallId} (hs : w.session (.drop k) = some w') :
    CallsOk w' := by
  refine callsOk_call h (.inr (.inr (.inr rfl))) (fun host hstep t ht => ?_) hs
  simp only [Session.step] at hstep
  cases hk : w.host.calls[k]? with
  | none => simp [hk] at hstep
  | some t' =>
    cases t' with
    | returned request outcome | dropped request => simp [hk] at hstep
    | running request pc =>
      simp only [hk, Option.some.injEq] at hstep
      subst hstep
      simp only [getElem?_calls_insert, if_true, Option.some.injEq] at ht
      subst ht
      rfl

/-! ## The read loop -/

theorem inHand_nil (h : ¬ Holds w.host.reader) : w.inHand = [] := by
  unfold World.inHand
  cases hr : w.host.reader with
  | decoding | draining | stopped => rfl
  | ignored e | pending e => simp [hr, Holds] at h

/-- The read loop fails the session with no response in its hands. -/
theorem callsOk_failReader (h : CallsOk w) (hreader : w.host.reader = .decoding) (f : Failure) :
    CallsOk { w with host := w.host.failReader f } := by
  have hquiet : ¬ Holds (w.host.failReader f).reader := by
    rcases reader_failReader w.host f with hr | hr <;> simp [hr, Holds]
  have ho := others_failReader w.host f
  have hresp : World.responses { w with host := w.host.failReader f } = w.responses := by
    simp only [World.responses]
    rw [inHand_nil (w := w) (by simp [hreader, Holds]), inHand_nil hquiet]
  refine ⟨hostOk_others h.host ho, hresp ▸ h.flow, ?_, ?_⟩
  · intro hf
    exact h.hello (Bool.eq_false_iff.mpr fun ht => by simp [ho.hello ht] at hf)
  · rw [h.reading, hreader]
    exact ⟨False.elim, hquiet⟩

theorem callsOk_lose (h : CallsOk w) {message : Option String}
    (hs : w.session (.receive (lost message)) = some w') : CallsOk w' := by
  obtain ⟨host, hstep, rfl⟩ := Option.map_eq_some_iff.mp hs
  cases hr : w.host.reader with
  | ignored e | pending e | draining | stopped => simp [Session.step, hr] at hstep
  | decoding =>
    cases message with
    | none =>
      simp only [Session.step, hr, lost, Sys.receive, Option.some.injEq] at hstep
      exact hstep ▸ callsOk_failReader h hr _
    | some message =>
      simp only [Session.step, hr, lost, Sys.receive, Option.some.injEq] at hstep
      exact hstep ▸ callsOk_failReader h hr _

/-- Frames at the head of the stream that concern no call. -/
theorem callsOk_skip (h : CallsOk w) {frame : AdapterFrame} {rest : List AdapterFrame}
    (hto : w.toHost = frame :: rest) (hframe : frame.call = none) (hhello : w.host.hello = true)
    (tasks : List Task) : CallsOk { w with toHost := rest, tasks } where
  host := h.host
  flow := by
    have hresp : World.responses { w with toHost := rest, tasks } = w.responses := by
      simp only [World.responses, hto, List.filterMap_cons, hframe]
      rfl
    exact hresp ▸ h.flow
  hello hf := by simp [hhello] at hf
  reading := h.reading

theorem hello_of_head (h : CallsOk w) {frame : AdapterFrame} {rest : List AdapterFrame}
    (hto : w.toHost = frame :: rest) (hframe : frame ≠ .hello) : w.host.hello = true := by
  by_contra hf
  obtain ⟨rest', hto'⟩ := h.hello (Bool.eq_false_iff.mpr hf)
  rw [hto, List.cons.injEq] at hto'
  exact hframe hto'.1

theorem callsOk_receive (h : CallsOk w) (hs : w.receive = some w') : CallsOk w' := by
  unfold World.receive at hs
  cases hr : w.host.reader with
  | ignored e | pending e | draining | stopped => simp [hr] at hs
  | decoding =>
    cases hto : w.toHost with
    | nil => simp [hr, hto] at hs
    | cons frame rest =>
      cases frame with
      | hello =>
        simp only [hr, hto, World.session, step_receive _ _ hr] at hs
        obtain ⟨host, hstep, rfl⟩ := Option.map_eq_some_iff.mp hs
        obtain rfl | ⟨hh, f, rfl⟩ := receive_hello hstep
        · refine ⟨hostOk_others h.host ⟨⟨Nat.le_refl _, fun _ _ h => h, fun _ => rfl, fun h => h⟩, rfl⟩,
            ?_, by simp, h.reading⟩
          have hresp : World.responses
              { w with host := { w.host with hello := true }, toHost := rest } = w.responses := by
            simp only [World.responses, hto, List.filterMap_cons, AdapterFrame.call]
            rfl
          exact hresp ▸ h.flow
        · exact callsOk_failReader (callsOk_skip h hto rfl hh w.tasks) hr f
      | request id method body c =>
        simp only [hr, hto, World.session, step_receive _ _ hr] at hs
        obtain ⟨host, hstep, rfl⟩ := Option.map_eq_some_iff.mp hs
        have h' := callsOk_skip h hto rfl (hello_of_head h hto (by simp))
          (if w.host.hello = true ∧ method = methodCommand then
            w.tasks ++ [⟨id, method, body, c, .spawned⟩] else w.tasks)
        obtain ⟨-, -, rfl⟩ | ⟨-, f, rfl⟩ := receive_request hstep
        · exact h'
        · exact callsOk_failReader h' hr f
      | response e k =>
        have hhello := hello_of_head h hto (by simp)
        simp only [hr, hto, World.session, step_receive _ _ hr] at hs
        obtain ⟨host, hstep, rfl⟩ := Option.map_eq_some_iff.mp hs
        obtain rfl := receive_response hhello hstep
        refine ⟨hostOk_others h.host ⟨⟨Nat.le_refl _, fun _ _ h => h, fun h => h, fun h => h⟩, rfl⟩,
          ?_, ?_, ?_⟩
        · refine flowOk_subperm h.flow (List.Subperm.refl _) (List.Perm.subperm ?_)
          simp only [World.responses, World.inHand, hto, hr, List.filterMap_cons, AdapterFrame.call,
            List.append_nil]
          exact List.perm_append_singleton _ _
        · intro hf
          rw [show w.host.hello = false from hf] at hhello
          cases hhello
        · simp [Holds]

theorem callsOk_read (h : CallsOk w) (hs : w.read = some w') : CallsOk w' := by
  obtain ⟨host, hstep, rfl⟩ := Option.map_eq_some_iff.mp hs
  -- the read loop is done with the response in its hands
  have hdone : ∀ k e, w.reading = some k → w.inHand = [(k, e)] → ¬ Holds host.reader →
      HostOk host w.ledger.issued w.ledger.handled → (w.host.hello = true → host.hello = true) →
      (∀ id, World.receiver w.host = some id → id = e.id) →
      CallsOk { w with
        host
        reading := none
        ledger := { w.ledger with consumed := w.ledger.consumed ++ [(k, World.receiver w.host)] } } := by
    intro k e hk hhand hquiet hhost hhello hreceiver
    refine ⟨hhost, ?_, ?_, ?_⟩
    · refine @flowOk_consume _ _ _ _ _ k e _ (flowOk_subperm h.flow (List.Subperm.refl _) ?_) hreceiver
      refine List.Perm.subperm ?_
      simp only [World.responses]
      rw [hhand, inHand_nil hquiet, List.append_nil]
      exact (List.perm_append_singleton _ _).symm
    · exact fun hf => h.hello (Bool.eq_false_iff.mpr fun ht => by simp [hhello ht] at hf)
    · simp [hquiet]
  have hreading : ∀ e, w.host.reader = .ignored e ∨ w.host.reader = .pending e →
      ∃ k, w.reading = some k ∧ w.inHand = [(k, e)] := by
    intro e he
    have hk : w.reading.isSome = true := h.reading.mpr (by rcases he with he | he <;> simp [he, Holds])
    obtain ⟨k, hk⟩ := Option.isSome_iff_exists.mp hk
    refine ⟨k, hk, ?_⟩
    rcases he with he | he <;> simp [World.inHand, he, hk]
  cases reads_step hstep with
  | passed e hr hr' ho =>
    obtain ⟨k, hk, hhand⟩ := hreading e (.inl hr)
    simp only [hr']
    refine ⟨hostOk_others h.host ho, ?_, ?_, ?_⟩
    · have hresp : World.responses { w with host } = w.responses := by
        simp only [World.responses, World.inHand, hr, hr', hk]
      exact hresp ▸ h.flow
    · exact fun hf => h.hello (Bool.eq_false_iff.mpr fun ht => by simp [ho.hello ht] at hf)
    · simp [hr', hk, Holds]
  | ignored e hr hr' ho =>
    obtain ⟨k, hk, hhand⟩ := hreading e (.inl hr)
    simp only [hr', hk]
    exact hdone k e hk hhand (by simp [hr', Holds]) (hostOk_others h.host ho) ho.hello
      (by simp [World.receiver, hr])
  | handed e hr hid heq =>
    obtain ⟨k, hk, hhand⟩ := hreading e (.inr hr)
    have hmem := h.flow.inLedger (k, e) (by simp [World.responses, hhand])
    subst heq
    simp only [hk]
    exact hdone k e hk hhand (by simp [Holds])
      (hostOk_handed h.host (h.flow.answers _ hmem) hmem _ _) (fun h => h)
      (by simp [World.receiver, hr, hid])
  | unknown e hr hid hr' ho hf =>
    obtain ⟨k, hk, hhand⟩ := hreading e (.inr hr)
    have hquiet : ¬ Holds host.reader := by rcases hr' with hr' | hr' <;> simp [hr', Holds]
    have h' := hdone k e hk hhand hquiet (hostOk_others h.host ho) ho.hello
      (by simp [World.receiver, hr, hid])
    rcases hr' with hr' | hr' <;> simpa only [hr', hk] using h'
  | drained hr hr' ho =>
    have hk : w.reading = none := by
      rw [← Option.not_isSome_iff_eq_none, h.reading, hr]
      simp [Holds]
    simp only [hr', hk]
    refine ⟨hostOk_others h.host ho, ?_, ?_, ?_⟩
    · refine flowOk_subperm h.flow (List.Subperm.refl _) (List.Perm.subperm ?_)
      have hnil : w.inHand = [] := inHand_nil (by simp [hr, Holds])
      simp only [World.responses]
      rw [hnil, inHand_nil (by simp [hr', Holds])]
    · exact fun hf => h.hello (Bool.eq_false_iff.mpr fun ht => by simp [ho.hello ht] at hf)
    · simp [hr', Holds]

/-! ## Frames between the processes -/

/-- A step that leaves the session alone. New frames of the adapter are behind the others. -/
theorem callsOk_moved (h : CallsOk w) (hhost : w'.host = w.host) (hreading : w'.reading = w.reading)
    (hissued : w'.ledger.issued = w.ledger.issued) (hhandled : w'.ledger.handled = w.ledger.handled)
    (hconsumed : w'.ledger.consumed = w.ledger.consumed)
    (hreq : List.Subperm w'.requests w.requests) (frames : List AdapterFrame)
    (hto : w'.toHost = w.toHost ++ frames) (hframes : frames.filterMap AdapterFrame.call = []) :
    CallsOk w' where
  host := by
    rw [hhost, hissued, hhandled]
    exact h.host
  flow := by
    have hresp : w'.responses = w.responses := by
      simp only [World.responses, World.inHand, hhost, hreading, hto, List.filterMap_append, hframes,
        List.append_nil]
    rw [hissued, hhandled, hconsumed, hresp]
    exact flowOk_subperm h.flow hreq (List.Subperm.refl _)
  hello hf := by
    rw [hhost] at hf
    obtain ⟨rest, hrest⟩ := h.hello hf
    exact ⟨rest ++ frames, by rw [hto, hrest, List.cons_append]⟩
  reading := by
    rw [hreading, hhost]
    exact h.reading

/-- The same, with the frames of the host and of the request loop where they were. -/
theorem callsOk_same (h : CallsOk w) (hhost : w'.host = w.host) (hreading : w'.reading = w.reading)
    (hissued : w'.ledger.issued = w.ledger.issued) (hhandled : w'.ledger.handled = w.ledger.handled)
    (hconsumed : w'.ledger.consumed = w.ledger.consumed) (hreq : w'.requests = w.requests)
    (hto : w'.toHost = w.toHost) : CallsOk w' :=
  callsOk_moved h hhost hreading hissued hhandled hconsumed (hreq ▸ List.Subperm.refl _)
    [] (by simp [hto]) rfl

theorem callsOk_write (h : CallsOk w) (hs : w.write = some w') : CallsOk w' := by
  unfold World.write at hs
  cases hw : w.writing with
  | false => simp [hw] at hs
  | true =>
    cases hout : w.outbound with
    | nil => simp [hw, hout] at hs
    | cons frame rest =>
      simp only [hw, hout, Option.some.injEq] at hs
      subst hs
      refine callsOk_moved h rfl rfl rfl rfl rfl (List.Perm.subperm ?_) [] (by simp) rfl
      simp only [World.requests, hout, List.filterMap_append, List.filterMap_cons, List.filterMap_nil]
      refine List.Perm.append_right _ ?_
      cases frame.call with
      | none => simp
      | some r =>
        simp only [List.cons_append, ← List.append_assoc]
        exact List.perm_append_singleton r _

theorem callsOk_exit (h : CallsOk w) : CallsOk w.exit := by
  refine callsOk_moved h rfl rfl rfl rfl rfl (List.Sublist.subperm ?_) [] (by simp [World.exit]) rfl
  simp only [World.requests, World.exit, Loop.call, Option.toList_none, List.append_nil]
  exact List.sublist_append_left _ _

theorem callsOk_take (h : CallsOk w) (hs : w.take F = some w') : CallsOk w' := by
  unfold World.take at hs
  cases hl : w.adapter.loop with
  | handling id method k => simp [hl] at hs
  | exited => simp [hl] at hs
  | select =>
    cases hto : w.toAdapter with
    | nil => simp [hl, hto] at hs
    | cons frame rest =>
      cases frame with
      | request id method k =>
        simp only [hl, hto, Option.some.injEq] at hs
        subst hs
        refine callsOk_moved h rfl rfl rfl rfl rfl (List.Perm.subperm ?_) [] (by simp) rfl
        simp only [World.requests, hl, hto, List.filterMap_cons, HostFrame.call, Loop.call,
          Option.toList_some, Option.toList_none, List.append_nil, List.append_assoc]
        exact List.Perm.append_left _ (List.perm_append_singleton _ _)
      | response e c =>
        simp only [hl, hto, Option.some.injEq] at hs
        subst hs
        have h' : CallsOk { w with toAdapter := rest } := by
          refine callsOk_same h rfl rfl rfl rfl rfl ?_ rfl
          simp only [World.requests, hto, List.filterMap_cons, HostFrame.call]
        by_cases hm : e.method ≠ methodCommand
        · rw [if_pos hm]
          exact callsOk_exit h'
        · rw [if_neg hm]
          cases w.adapter.pending.find? fun p => p.1 = e.id with
          | none => exact callsOk_exit h'
          | some p =>
            exact callsOk_same h' rfl rfl rfl rfl rfl (by simp [World.requests, World.complete, hl]) rfl

theorem callsOk_answer (h : CallsOk w) {outcome : Except ProtocolError String}
    (hs : w.answer outcome = some w') : CallsOk w' := by
  unfold World.answer at hs
  cases hl : w.adapter.loop with
  | select => simp [hl] at hs
  | exited => simp [hl] at hs
  | handling id method k =>
    simp only [hl, Option.some.injEq] at hs
    subst hs
    by_cases hwriter : w.adapter.writer = true
    · rw [if_pos hwriter]
      have hid : (World.responseTo id method outcome).id = id := by
        cases outcome <;> rfl
      have hflow : FlowOk ((k, (World.responseTo id method outcome).id) :: (w.outbound.filterMap HostFrame.call ++
          w.toAdapter.filterMap HostFrame.call)) w.responses w.ledger.issued w.ledger.handled
          w.ledger.consumed := by
        refine flowOk_subperm h.flow (List.Perm.subperm ?_) (List.Subperm.refl _)
        simp only [World.requests, hl, Loop.call, Option.toList_some, hid]
        exact (List.perm_append_singleton _ _).symm
      refine ⟨hostOk_handled h.host _, ?_, ?_, h.reading⟩
      · refine flowOk_subperm (flowOk_answer hflow) (List.Perm.subperm ?_) (List.Perm.subperm ?_)
        · have hnone : (if method = methodShutdown then Loop.exited else Loop.select).call = none := by
            by_cases hm : method = methodShutdown
            · rw [if_pos hm]
              rfl
            · rw [if_neg hm]
              rfl
          simp only [World.requests, hnone, Option.toList_none, List.append_nil]
          exact List.Perm.refl _
        · simp only [World.responses, World.inHand, List.filterMap_append, List.filterMap_cons,
            AdapterFrame.call, List.filterMap_nil, List.append_assoc, List.singleton_append]
          exact List.perm_middle
      · intro hf
        obtain ⟨rest, hrest⟩ := h.hello hf
        exact ⟨rest ++ [.response (World.responseTo id method outcome) k], by simp [hrest]⟩
    · rw [if_neg hwriter]
      exact callsOk_exit h

/-- The steps of a task leave the session alone or fail it. -/
theorem callsOk_tasks (h : CallsOk w) (tasks : List Task)
    (executed : Token → Option (Core.Command × Except Core.RuntimeError Core.Value)) :
    CallsOk { w with tasks, ledger := { w.ledger with executed } } :=
  callsOk_same h rfl rfl rfl rfl rfl rfl rfl

theorem callsOk_forward (h : CallsOk w) (hs : w.forward F = some w') : CallsOk w' := by
  unfold World.forward at hs
  cases hl : w.adapter.loop with
  | handling id method k => simp [hl] at hs
  | exited => simp [hl] at hs
  | select =>
    cases hc : w.adapter.commands with
    | nil => simp [hl, hc] at hs
    | cons command rest =>
      obtain ⟨c, request⟩ := command
      simp only [hl, hc, Option.some.injEq] at hs
      subst hs
      by_cases hlim : Matter.maxPendingCommands ≤ w.adapter.pending.length
      · rw [if_pos hlim]
        exact callsOk_same h rfl rfl rfl rfl rfl (by simp [World.requests, World.complete, hl]) rfl
      · rw [if_neg hlim]
        split
        · refine callsOk_moved h rfl rfl rfl rfl rfl ?_ _ rfl rfl
          simp only [World.requests, hl]
          exact List.Subperm.refl _
        · refine callsOk_exit (callsOk_same h rfl rfl rfl rfl rfl ?_ rfl)
          simp [World.requests, World.complete, hl]

theorem callsOk_dispatch (h : CallsOk w) (i : Nat) (t : Task) : CallsOk (w.dispatch F i t) := by
  have hput : ∀ pc, CallsOk (w.putTask i t pc) := fun pc => callsOk_tasks h _ w.ledger.executed
  unfold World.dispatch
  split
  · split
    · exact hput _
    · split
      · exact hput _
      · split
        · exact hput _
        · exact hput _
  · exact hput _

theorem callsOk_written (h : CallsOk w) {i : Nat} {t : Task} {command : Core.Command}
    {result : Except Core.RuntimeError Core.Value} (hs : w.written F i t command result = some w') :
    CallsOk w' := by
  have hput : ∀ pc, CallsOk ((w.execute t.token command result).putTask i t pc) := fun pc =>
    callsOk_tasks h _ _
  simp only [World.written] at hs
  cases hresp : commandResponse F result with
  | error error =>
    simp only [hresp, Option.some.injEq] at hs
    exact hs ▸ hput _
  | ok value =>
    cases henc : F.encodeResponse value with
    | error message =>
      simp only [hresp, henc] at hs
      exact callsOk_others (hput _) (.inl ⟨message, rfl⟩) hs
    | ok body =>
      simp only [hresp, henc, Option.some.injEq] at hs
      exact hs ▸ hput _

theorem callsOk_reply (h : CallsOk w) {i : Nat} {t : Task} {e : Envelope}
    (hs : w.reply i t e = some w') : CallsOk w' := by
  unfold World.reply at hs
  by_cases hw : w.writing = true
  · rw [if_pos hw] at hs
    by_cases hroom : w.outbound.length < outboundQueue
    · rw [if_pos hroom, Option.some.injEq] at hs
      subst hs
      refine callsOk_same h rfl rfl rfl rfl rfl ?_ rfl
      simp [World.requests, HostFrame.call]
    · rw [if_neg hroom] at hs
      cases hs
  · rw [if_neg hw, Option.some.injEq] at hs
    subst hs
    exact callsOk_tasks h _ w.ledger.executed

/-! ## Every step -/

theorem callsOk_step (h : CallsOk w) {a : Action} (hs : step F w a = some w') : CallsOk w' := by
  cases a with
  | start k request => exact callsOk_start h hs
  | advance k => exact callsOk_advance h hs
  | refuse k => exact callsOk_refuse h hs
  | drop k => exact callsOk_drop h hs
  | receive => exact callsOk_receive h hs
  | lose message => exact callsOk_lose h hs
  | read => exact callsOk_read h hs
  | fail message => exact callsOk_others h (.inl ⟨message, rfl⟩) hs
  | drain => exact callsOk_others h (.inr (.inl rfl)) hs
  | setPid pid => exact callsOk_others h (.inr (.inr ⟨pid, rfl⟩)) hs
  | dispatch i =>
    obtain ⟨t, -, -, rfl⟩ := dispatch_eq_some.mp hs
    exact callsOk_dispatch h i t
  | written i result =>
    obtain ⟨t, command, -, -, hs⟩ := written_eq_some.mp hs
    exact callsOk_written h hs
  | reply i =>
    obtain ⟨t, e, permit, -, -, hs⟩ := reply_eq_some.mp hs
    exact callsOk_reply h hs
  | write => exact callsOk_write h hs
  | writeError message =>
    simp only [step] at hs
    by_cases hw : w.writing = true
    · rw [if_pos hw] at hs
      have h' : CallsOk { w with writing := false } := callsOk_same h rfl rfl rfl rfl rfl rfl rfl
      exact callsOk_others h' (.inl ⟨message, rfl⟩) hs
    · rw [if_neg hw] at hs
      cases hs
  | submit c request =>
    simp only [step, World.submit] at hs
    split at hs
    · cases hs
      exact callsOk_same h rfl rfl rfl rfl rfl rfl rfl
    · cases hs
  | take => exact callsOk_take h hs
  | answer outcome => exact callsOk_answer h hs
  | forward => exact callsOk_forward h hs
  | leave =>
    cases hs
    exact callsOk_exit h
  | sever =>
    cases hs
    exact callsOk_same h rfl rfl rfl rfl rfl rfl rfl

theorem callsOk_spawn : CallsOk World.spawn where
  host := by
    refine ⟨?_, ?_, ?_, ?_, ?_, List.nodup_nil, List.nodup_nil, ?_, ?_, ?_⟩ <;>
      simp [World.spawn, Sys.spawn]
  flow := by
    refine ⟨?_, ?_, ?_, ?_, ?_, ?_⟩ <;>
      simp [World.spawn, World.requests, World.responses, World.inHand, Loop.call, AdapterFrame.call,
        Sys.spawn, List.filterMap_cons]
  hello _ := ⟨[], rfl⟩
  reading := by simp [World.spawn, Sys.spawn, Holds]

end Calls

end Oikade.Rpc
