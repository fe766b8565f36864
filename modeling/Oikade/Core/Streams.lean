/-
  The two event streams of the runtime, tied to the changes they report.

  A `View` is one of the two hubs together with the changes that it announces: the state hub
  announces the commits of observable capabilities, the topology hub the registrations and
  unregistrations. `View.Tracks` says how one step of the machine acts on a hub: not at all, or by
  one operation of `Broadcast.step`, dispatching exactly the changes it announces. The two hubs
  are then treated alike: `reachable_streams` lifts `Broadcast.step_ok` to every run and
  `delivered_of_reachable` reads off what a subscriber sees.
-/
import Oikade.Core.Invariant

namespace Oikade.Core

open Broadcast (Hub Entry receivedBy dispatchedIn dispatchedSince terminals Ended)

/-! ## Reading a history -/

def Obs.change? : Obs → Option Change
  | .changed c => some c
  | _ => none

/-- Everything that took a revision, in order. -/
def changes (h : List Obs) : List Change := h.filterMap Obs.change?

/-- A hub and the changes it announces. -/
structure View (α : Type) where
  hub : RuntimeState → Hub α RuntimeError
  entry : Obs → Option (Entry α RuntimeError)
  sent : Change → Option α
  revision : α → Nat
  revision_sent : ∀ c x, sent c = some x → revision x = c.revision
  entry_change : ∀ c, entry (.changed c) = none

variable {α : Type}

def View.log (V : View α) (h : List Obs) : List (Entry α RuntimeError) := h.filterMap V.entry

/-- What the hub has to announce. -/
def View.announced (V : View α) (h : List Obs) : List α := (changes h).filterMap V.sent

/-- The history after `id` subscribed. -/
def View.since (V : View α) (id : Nat) : List Obs → List Obs
  | [] => []
  | o :: h =>
    match V.entry o with
    | some (.subscribed j) => if j = id then h else V.since id h
    | _ => V.since id h

def statesView : View Event where
  hub := RuntimeState.subscriptions
  entry
    | .states e => some e
    | _ => none
  sent
    | .committed _ c event => if c.permissions.observe then some event else none
    | _ => none
  revision := Event.revision
  revision_sent c x h := by
    cases c with
    | committed r c event =>
      simp only [Option.ite_none_right_eq_some, Option.some.injEq] at h
      rw [← h.2]
      rfl
    | _ => simp at h
  entry_change _ := rfl

def topologyView : View TopologyEvent where
  hub := RuntimeState.topologySubscriptions
  entry
    | .topology e => some e
    | _ => none
  sent
    | .registered n .. => some ⟨n⟩
    | .unregistered n _ => some ⟨n⟩
    | _ => none
  revision := TopologyEvent.revision
  revision_sent c x h := by cases c <;> simp at h <;> rw [← h] <;> rfl
  entry_change _ := rfl

@[simp] theorem changes_append (h m : List Obs) : changes (h ++ m) = changes h ++ changes m :=
  List.filterMap_append

@[simp] theorem View.log_append (V : View α) (h m : List Obs) :
    V.log (h ++ m) = V.log h ++ V.log m :=
  List.filterMap_append

@[simp] theorem View.announced_append (V : View α) (h m : List Obs) :
    V.announced (h ++ m) = V.announced h ++ V.announced m := by
  simp [View.announced]

theorem View.since_append_of_mem (V : View α) {id : Nat} {h : List Obs}
    (hs : .subscribed id ∈ V.log h) (m : List Obs) : V.since id (h ++ m) = V.since id h ++ m := by
  induction h with
  | nil => simp [View.log] at hs
  | cons o h ih =>
    simp only [View.log, List.filterMap_cons] at hs
    simp only [List.cons_append, View.since]
    cases ho : V.entry o with
    | none =>
      simp only [ho] at hs
      exact ih hs
    | some e =>
      simp only [ho, List.mem_cons] at hs
      cases e with
      | subscribed j =>
        simp only
        split
        · rfl
        · rename_i hj
          refine ih (hs.resolve_left fun he => hj ?_)
          exact (Entry.subscribed.inj he).symm
      | _ => exact ih (hs.resolve_left (by simp))

theorem View.since_append_of_not_mem (V : View α) {id : Nat} {h : List Obs}
    (hs : .subscribed id ∉ V.log h) (m : List Obs) : V.since id (h ++ m) = V.since id m := by
  induction h with
  | nil => rfl
  | cons o h ih =>
    simp only [View.log, List.filterMap_cons] at hs
    simp only [List.cons_append, View.since]
    cases ho : V.entry o with
    | none =>
      simp only [ho] at hs
      exact ih hs
    | some e =>
      simp only [ho, List.mem_cons, not_or] at hs
      cases e with
      | subscribed j =>
        simp only
        rw [if_neg fun hj => hs.1 (by rw [hj])]
        exact ih hs.2
      | _ => exact ih hs.2

theorem View.since_suffix (V : View α) (id : Nat) (h : List Obs) : V.since id h <:+ h := by
  induction h with
  | nil => exact List.suffix_rfl
  | cons o h ih =>
    simp only [View.since]
    split
    · split
      · exact List.suffix_cons o h
      · exact ih.trans (List.suffix_cons o h)
    · exact ih.trans (List.suffix_cons o h)

/-! ## One step and the hubs -/

/-- An overflow is reported as such, and so is a stop. -/
def Named : Entry α RuntimeError → Prop
  | .overflowed _ e => e = .slowConsumer
  | .terminated _ e => e = .stopped
  | _ => True

/-- How a step that adds `m` to the history acts on a hub. -/
inductive View.Tracks (V : View α) (st st' : RuntimeState) (m : List Obs) : Prop where
  | idle (hub : V.hub st' = V.hub st) (log : V.log m = []) (sent : V.announced m = [])
  | act (op : Broadcast.Op α RuntimeError)
    (step : Broadcast.step (V.hub st) op = some (V.hub st', V.log m))
    (sent : V.announced m = dispatchedIn (V.log m)) (named : ∀ e ∈ V.log m, Named e)

/-- How a step that adds `m` to the history acts on the hubs and the revision. -/
structure Tracked (st st' : RuntimeState) (m : List Obs) : Prop where
  states : statesView.Tracks st st' m
  topology : topologyView.Tracks st st' m
  revision : (changes m = [] ∧ st'.revision = st.revision) ∨
    ∃ c, changes m = [c] ∧ c.revision = st.revision + 1 ∧ st'.revision = st.revision + 1

@[simp] theorem statesView_sent (c : Change) : statesView.sent c = match c with
    | .committed _ c event => if c.permissions.observe then some event else none
    | _ => none := rfl

@[simp] theorem topologyView_sent (c : Change) : topologyView.sent c = match c with
    | .registered n .. => some ⟨n⟩
    | .unregistered n _ => some ⟨n⟩
    | _ => none := rfl

@[simp] theorem log_states (l : List (Entry Event RuntimeError)) :
    statesView.log (l.map .states) = l := by
  induction l with
  | nil => rfl
  | cons e l ih => simp [View.log, statesView]

@[simp] theorem log_topology (l : List (Entry TopologyEvent RuntimeError)) :
    topologyView.log (l.map .topology) = l := by
  induction l with
  | nil => rfl
  | cons e l ih => simp [View.log, topologyView]

@[simp] theorem statesView_log_topology (l : List (Entry TopologyEvent RuntimeError)) :
    statesView.log (l.map .topology) = [] := by
  simp [View.log, statesView]

@[simp] theorem topologyView_log_states (l : List (Entry Event RuntimeError)) :
    topologyView.log (l.map .states) = [] := by
  simp [View.log, topologyView]

@[simp] theorem changes_states (l : List (Entry Event RuntimeError)) :
    changes (l.map .states) = [] := by
  simp [changes, Obs.change?]

@[simp] theorem changes_topology (l : List (Entry TopologyEvent RuntimeError)) :
    changes (l.map .topology) = [] := by
  simp [changes, Obs.change?]

@[simp] theorem changes_changed (c : Change) (m : List Obs) :
    changes (.changed c :: m) = c :: changes m := rfl

@[simp] theorem changes_invoked (k : CallId) (call : Call) (m : List Obs) :
    changes (.invoked k call :: m) = changes m := rfl

@[simp] theorem changes_returned (k : CallId) (o : Outcome) (m : List Obs) :
    changes (.returned k o :: m) = changes m := rfl

theorem changes_turnOf (k : CallId) (op : Op) (pc : Pc) : changes (turnOf k op pc) = [] := by
  cases pc <;> simp only [turnOf] <;> try rfl
  cases op.target <;> rfl

@[simp] theorem View.log_changed (V : View α) (c : Change) (m : List Obs) :
    V.log (.changed c :: m) = V.log m := by
  simp [View.log, V.entry_change]

@[simp] theorem changes_nil : changes [] = [] := rfl

@[simp] theorem View.log_nil (V : View α) : V.log [] = [] := rfl

theorem View.Tracks.quiet (V : View α) {st st' : RuntimeState} {m : List Obs}
    (hub : V.hub st' = V.hub st) (hl : V.log m = []) (hc : changes m = []) : V.Tracks st st' m :=
  .idle hub hl (by simp [View.announced, hc])

theorem named_dispatchLog (h : Hub α RuntimeError) (x : α) :
    ∀ e ∈ Broadcast.dispatchLog h .slowConsumer x, Named e := by
  intro e he
  rcases List.mem_cons.mp he with rfl | he
  · trivial
  · obtain ⟨j, -, rfl⟩ := List.mem_map.mp he
    rfl

theorem named_closeAllLog (h : Hub α RuntimeError) :
    ∀ e ∈ Broadcast.closeAllLog h .stopped, Named e := by
  intro e he
  obtain ⟨j, -, rfl⟩ := List.mem_map.mp he
  rfl

/-- The effect of a move on the hubs and the revision. -/
theorem effect_tracked {sh : Shared} {call : Call} {pc : Pc} {e : Effect} {n : Next}
    (hm : Move sh call pc e n) : Tracked sh.state (e.apply sh).state (e.observe sh) := by
  cases e with
  | none | start | save d record | update ref values =>
    exact ⟨.quiet _ rfl rfl rfl, .quiet _ rfl rfl rfl, .inl ⟨rfl, rfl⟩⟩
  | stop =>
    have hlog : statesView.log (Effect.stop.observe sh) =
        Broadcast.closeAllLog sh.state.subscriptions .stopped := by simp [Effect.observe]
    have htop : topologyView.log (Effect.stop.observe sh) =
        Broadcast.closeAllLog sh.state.topologySubscriptions .stopped := by simp [Effect.observe]
    have hch : changes (Effect.stop.observe sh) = [] := by simp [Effect.observe]
    refine ⟨.act (.closeAll .stopped) ?_ ?_ ?_, .act (.closeAll .stopped) ?_ ?_ ?_,
      .inl ⟨hch, rfl⟩⟩
    · rw [hlog]
      rfl
    · rw [hlog, Broadcast.dispatchedIn_closeAllLog, View.announced, hch]
      rfl
    · rw [hlog]
      exact named_closeAllLog _
    · rw [htop]
      rfl
    · rw [htop, Broadcast.dispatchedIn_closeAllLog, View.announced, hch]
      rfl
    · rw [htop]
      exact named_closeAllLog _
  | commit d r c v now =>
    cases hobs : c.permissions.observe with
    | false =>
      simp only [Effect.apply, Effect.observe, hobs]
      refine ⟨.idle rfl (by simp) (by simp [View.announced, hobs]),
        .idle rfl (by simp) (by simp [View.announced]),
        .inr ⟨_, by simp; rfl, rfl, rfl⟩⟩
    | true =>
      simp only [Effect.apply, Effect.observe, hobs, if_true]
      refine ⟨.act (.dispatch .slowConsumer (commitEvent sh.state d c v now)) ?_ ?_ ?_,
        .idle rfl (by simp) (by simp [View.announced]),
        .inr ⟨_, by simp; rfl, rfl, rfl⟩⟩
      · simp only [View.log_changed, log_states]
        rfl
      · simp [View.announced, hobs, Broadcast.dispatchedIn_dispatchLog]
      · simpa using named_dispatchLog _ _
  | insert _ _ | remove _ _ =>
    refine ⟨.idle rfl (by simp [Effect.observe])
      (by simp [Effect.observe, View.announced]),
      .act (.dispatch .slowConsumer ⟨sh.state.revision + 1⟩) ?_ ?_ ?_,
      .inr ⟨_, by simp [Effect.observe]; rfl, rfl, rfl⟩⟩
    · simp only [Effect.observe, View.log_changed, log_topology]
      rfl
    · simp [Effect.observe, View.announced, Broadcast.dispatchedIn_dispatchLog]
    · simpa [Effect.observe] using named_dispatchLog _ _
  | subscribe topic buffer =>
    cases topic with
    | states =>
      exact ⟨.act (.subscribe buffer) rfl rfl (by simp [Effect.observe, View.log, statesView, Named]),
        .quiet _ rfl rfl rfl, .inl ⟨rfl, rfl⟩⟩
    | topology =>
      exact ⟨.quiet _ rfl rfl rfl,
        .act (.subscribe buffer) rfl rfl (by simp [Effect.observe, View.log, topologyView, Named]),
        .inl ⟨rfl, rfl⟩⟩
  | cancel topic id =>
    cases hm with
    | cancel hop hd =>
      cases topic with
      | states =>
        refine ⟨.act (.cancel id) ?_ rfl (by simp [Effect.observe, View.log, statesView, Named]),
          .quiet _ rfl rfl rfl, .inl ⟨rfl, rfl⟩⟩
        exact if_neg (Bool.eq_false_iff.mp hd)
      | topology =>
        refine ⟨.quiet _ rfl rfl rfl,
          .act (.cancel id) ?_ rfl (by simp [Effect.observe, View.log, topologyView, Named]),
          .inl ⟨rfl, rfl⟩⟩
        exact if_neg (Bool.eq_false_iff.mp hd)

/-- The observations that are about calls only. -/
def Obs.inert : Obs → Bool
  | .invoked .. | .returned .. | .abandoned _ | .turn .. => true
  | _ => false

theorem inert_nil {x : List Obs} (hx : ∀ o ∈ x, o.inert = true) :
    statesView.log x = [] ∧ topologyView.log x = [] ∧ changes x = [] := by
  refine ⟨List.filterMap_eq_nil_iff.mpr fun o ho => ?_,
    List.filterMap_eq_nil_iff.mpr fun o ho => ?_, List.filterMap_eq_nil_iff.mpr fun o ho => ?_⟩
  all_goals
    have := hx o ho
    cases o <;> simp_all [Obs.inert] <;> rfl

theorem tracked_append {st st' : RuntimeState} {m x : List Obs} (h : Tracked st st' m)
    (hx : ∀ o ∈ x, o.inert = true) : Tracked st st' (m ++ x) := by
  obtain ⟨h1, h2, h3⟩ := inert_nil hx
  have hs : statesView.log (m ++ x) = statesView.log m := by simp [h1]
  have ht : topologyView.log (m ++ x) = topologyView.log m := by simp [h2]
  have hc : changes (m ++ x) = changes m := by simp [h3]
  obtain ⟨hstates, htopology, hrevision⟩ := h
  refine ⟨?_, ?_, by rwa [hc]⟩
  · cases hstates with
    | idle hub log sent => exact .idle hub (hs ▸ log) (by rwa [View.announced, hc])
    | act op step sent named =>
      exact .act op (hs ▸ step) (by rwa [View.announced, hc, hs]) (hs ▸ named)
  · cases htopology with
    | idle hub log sent => exact .idle hub (ht ▸ log) (by rwa [View.announced, hc])
    | act op step sent named =>
      exact .act op (ht ▸ step) (by rwa [View.announced, hc, ht]) (ht ▸ named)

theorem tracked_nil {st st' : RuntimeState} (h1 : st'.subscriptions = st.subscriptions)
    (h2 : st'.topologySubscriptions = st.topologySubscriptions)
    (h3 : st'.revision = st.revision) : Tracked st st' [] :=
  ⟨.quiet _ h1 rfl rfl, .quiet _ h2 rfl rfl, .inl ⟨rfl, h3⟩⟩

/-- The operations of a receiver neither dispatch nor report an error. -/
theorem receiver_log {h h' : Hub α RuntimeError} {log : List (Entry α RuntimeError)}
    {op : Broadcast.Op α RuntimeError} (hs : Broadcast.step h op = some (h', log))
    (hop : (∃ id, op = .recv id) ∨ (∃ id, op = .drop id) ∨ ∃ id, op = .remove id) :
    dispatchedIn log = [] ∧ ∀ e ∈ log, Named e := by
  obtain ⟨id, rfl⟩ | ⟨id, rfl⟩ | ⟨id, rfl⟩ := hop
  · simp only [Broadcast.step, Option.ite_none_left_eq_some] at hs
    obtain ⟨-, hs⟩ := hs
    split at hs
    · simp only [Option.some.injEq, Prod.mk.injEq] at hs
      obtain ⟨-, rfl⟩ := hs
      simp [Named]
    · simp only [Option.ite_none_left_eq_some, Option.some.injEq, Prod.mk.injEq] at hs
      obtain ⟨-, -, rfl⟩ := hs
      simp
  · simp only [Broadcast.step, Option.ite_none_left_eq_some, Option.some.injEq,
      Prod.mk.injEq] at hs
    obtain ⟨-, -, rfl⟩ := hs
    simp [Named]
  · simp only [Broadcast.step, Option.ite_none_right_eq_some, Option.some.injEq,
      Prod.mk.injEq] at hs
    obtain ⟨-, -, rfl⟩ := hs
    simp

theorem step_tracked {s s' : Sys} {a : Action} (h : step s a = some s') :
    ∃ m, s'.history = s.history ++ m ∧ Tracked s.shared.state s'.shared.state m := by
  cases step_cases h with
  | reject hk hb => exact ⟨_, rfl, tracked_append (tracked_nil rfl rfl rfl) (by simp [Obs.inert])⟩
  | invoke hk hb => exact ⟨_, rfl, tracked_append (tracked_nil rfl rfl rfl) (by simp [Obs.inert])⟩
  | fail hk hr hb => exact ⟨_, rfl, tracked_append (tracked_nil rfl rfl rfl) (by simp [Obs.inert])⟩
  | @move k call pc e n hk hr hm =>
    refine ⟨_, rfl, tracked_append (effect_tracked hm) ?_⟩
    cases n with
    | goto pc' =>
      intro o ho
      cases pc <;> simp only [Next.observe, turnOf, List.not_mem_nil] at ho
      rw [Option.mem_toList, Option.map_eq_some_iff] at ho
      obtain ⟨x, -, rfl⟩ := ho
      rfl
    | ret reply => simp [Next.observe, Obs.inert]
  | abandon hk => exact ⟨_, rfl, tracked_append (tracked_nil rfl rfl rfl) (by simp [Obs.inert])⟩
  | orphan ho =>
    refine ⟨[], (List.append_nil _).symm, ?_⟩
    simp only [Orphan.apply]
    split <;> exact tracked_nil rfl rfl rfl
  | states hs hop =>
    obtain ⟨hd, hn⟩ := receiver_log hs (by grind)
    refine ⟨_, rfl, .act _ (by rw [log_states]; exact hs) ?_ (by simpa using hn), ?_,
      .inl ⟨by simp, rfl⟩⟩
    · simp [View.announced, hd]
    · exact .quiet _ rfl (by simp) (by simp)
  | topology hs hop =>
    obtain ⟨hd, hn⟩ := receiver_log hs (by grind)
    refine ⟨_, rfl, ?_, .act _ (by rw [log_topology]; exact hs) ?_ (by simpa using hn),
      .inl ⟨by simp, rfl⟩⟩
    · exact .quiet _ rfl (by simp) (by simp)
    · simp [View.announced, hd]

/-! ## Every run -/

/-- A hub, its log and what it had to announce. -/
structure Streams (V : View α) (st : RuntimeState) (h : List Obs) : Prop where
  hub : Broadcast.Ok (V.hub st) (V.log h)
  named : ∀ e ∈ V.log h, Named e
  announced : ∀ id, .subscribed id ∈ V.log h →
    dispatchedSince id (V.log h) = V.announced (V.since id h)

/-- The revisions given out so far. -/
structure Revisions (st : RuntimeState) (h : List Obs) : Prop where
  increasing : ((changes h).map Change.revision).Pairwise (· < ·)
  le : ∀ c ∈ changes h, c.revision ≤ st.revision

theorem View.announced_nil_of_suffix (V : View α) {m n : List Obs} (hn : n <:+ m)
    (h : V.announced m = []) : V.announced n = [] := by
  obtain ⟨l, rfl⟩ := hn
  rw [View.announced_append, List.append_eq_nil_iff] at h
  exact h.2

theorem streams_append {V : View α} {st st' : RuntimeState} {h m : List Obs}
    (hs : Streams V st h) (ht : V.Tracks st st' m) : Streams V st' (h ++ m) := by
  -- a subscription in the old history sees what the step announces
  have hold : V.announced m = dispatchedIn (V.log m) → ∀ id, .subscribed id ∈ V.log h →
      dispatchedSince id (V.log (h ++ m)) = V.announced (V.since id (h ++ m)) := by
    intro hsent id hid
    rw [V.log_append, Broadcast.dispatchedSince_append hid, V.since_append_of_mem hid,
      V.announced_append, hs.announced id hid, hsent]
  cases ht with
  | idle hub log sent =>
    have hlog : V.log (h ++ m) = V.log h := by rw [V.log_append, log, List.append_nil]
    refine ⟨by rw [hlog, hub]; exact hs.hub, by rw [hlog]; exact hs.named, fun id hid => ?_⟩
    rw [hlog] at hid
    exact hold (by rw [sent, log]; rfl) id hid
  | act op step sent named =>
    refine ⟨?_, ?_, fun id hid => ?_⟩
    · rw [V.log_append]
      exact Broadcast.step_ok hs.hub step
    · intro e he
      rw [V.log_append, List.mem_append] at he
      exact he.elim (hs.named e) (named e)
    · by_cases hid' : .subscribed id ∈ V.log h
      · exact hold sent id hid'
      · rw [V.log_append, List.mem_append] at hid
        have hlog := Broadcast.step_subscribed step (hid.resolve_left hid')
        have hnil : V.announced m = [] := by rw [sent, hlog]; rfl
        rw [V.since_append_of_not_mem hid',
          V.announced_nil_of_suffix (V.since_suffix id m) hnil, V.log_append, dispatchedSince,
          Broadcast.since_append_of_not_mem hid', hlog]
        simp

/-- What a subscriber received announces a change. -/
theorem sent_of_received {V : View α} {st : RuntimeState} {h : List Obs} (hs : Streams V st h)
    {id : Nat} {x : α} (hx : x ∈ receivedBy id (V.log h)) : ∃ c ∈ changes h, V.sent c = some x := by
  obtain ⟨hid, hd⟩ := hs.hub.dispatched_of_received (Broadcast.mem_receivedBy.mp hx)
  rw [hs.announced id hid, View.announced, List.mem_filterMap] at hd
  obtain ⟨c, hc, hsent⟩ := hd
  obtain ⟨l, hl⟩ := V.since_suffix id h
  refine ⟨c, ?_, hsent⟩
  rw [← hl, changes_append]
  exact List.mem_append_right _ hc

theorem change_of_received {V : View α} {st : RuntimeState} {h : List Obs} (hs : Streams V st h)
    {id : Nat} {x : α} (hx : x ∈ receivedBy id (V.log h)) :
    ∃ c ∈ changes h, V.revision x = c.revision := by
  obtain ⟨c, hc, hsent⟩ := sent_of_received hs hx
  exact ⟨c, hc, V.revision_sent c x hsent⟩

theorem revisions_append {st st' : RuntimeState} {h m : List Obs} (hr : Revisions st h)
    (ht : Tracked st st' m) : Revisions st' (h ++ m) := by
  rcases ht.revision with ⟨hm, hst⟩ | ⟨c, hm, hc, hst⟩
  · have hch : changes (h ++ m) = changes h := by rw [changes_append, hm, List.append_nil]
    exact ⟨by rw [hch]; exact hr.increasing, fun c hc => by rw [hst]; exact hr.le c (hch ▸ hc)⟩
  · have hch : changes (h ++ m) = changes h ++ [c] := by rw [changes_append, hm]
    refine ⟨?_, ?_⟩
    · rw [hch, List.map_append, List.pairwise_append]
      refine ⟨hr.increasing, by simp, ?_⟩
      intro a ha b hb
      obtain ⟨c', hc', rfl⟩ := List.mem_map.mp ha
      rw [List.map_singleton, List.mem_singleton] at hb
      have := hr.le c' hc'
      omega
    · intro c' hc'
      rw [hch, List.mem_append, List.mem_singleton] at hc'
      rcases hc' with hc' | rfl
      · have := hr.le c' hc'
        omega
      · omega

structure Sys.StreamsOk (s : Sys) : Prop where
  states : Streams statesView s.shared.state s.history
  topology : Streams topologyView s.shared.state s.history
  revisions : Revisions s.shared.state s.history

theorem step_streams {s s' : Sys} {a : Action} (hok : s.StreamsOk) (h : step s a = some s') :
    s'.StreamsOk := by
  obtain ⟨m, hm, ht⟩ := step_tracked h
  exact ⟨hm ▸ streams_append hok.states ht.states, hm ▸ streams_append hok.topology ht.topology,
    hm ▸ revisions_append hok.revisions ht⟩

theorem new_streams (persistent : Bool) (store : DeviceId → Option Record) :
    (Sys.new persistent store).StreamsOk where
  states := ⟨Broadcast.ok_empty, by simp [Sys.new], by simp [Sys.new]⟩
  topology := ⟨Broadcast.ok_empty, by simp [Sys.new], by simp [Sys.new]⟩
  revisions := ⟨by simp [Sys.new], by simp [Sys.new]⟩

theorem reachable_streams {s : Sys} (h : Reachable s) : s.StreamsOk := by
  obtain ⟨persistent, store, as, hrun⟩ := h
  exact Machine.run_inv (fun _ _ _ hok => step_streams hok) (new_streams persistent store) hrun

/-! ## What a subscriber sees -/

/-- The stream of subscriber `id`, against what its hub had to announce since it subscribed. -/
structure Delivered (V : View α) (s : Sys) (id : Nat) : Prop where
  isPrefix : receivedBy id (V.log s.history) <+: V.announced (V.since id s.history)
  whole : ¬ Ended id (V.log s.history) →
    receivedBy id (V.log s.history) ++ ((V.hub s.shared.state).chan id).queue =
      V.announced (V.since id s.history)
  increasing : ((V.announced (V.since id s.history)).map V.revision).Pairwise (· < ·)
  once : (terminals id (V.log s.history)).length ≤ 1
  terminal : ((V.hub s.shared.state).chan id).terminal = (terminals id (V.log s.history)).head?
  /-- an overflow happens only when the subscriber's own buffer is full -/
  overflow : ∀ l e m, V.log s.history = l ++ .overflowed id e :: m → e = .slowConsumer ∧
    (receivedBy id l).length + ((V.hub s.shared.state).chan id).capacity <
      (dispatchedSince id l).length

theorem announced_increasing {V : View α} {st : RuntimeState} {h n : List Obs}
    (hr : Revisions st h) (hn : n <:+ h) : ((V.announced n).map V.revision).Pairwise (· < ·) := by
  have hsub : ∀ l : List Change, ((l.filterMap V.sent).map V.revision).Sublist
      (l.map Change.revision) := by
    intro l
    induction l with
    | nil => exact List.Sublist.refl _
    | cons c l ih =>
      cases hc : V.sent c with
      | none =>
        rw [List.filterMap_cons_none hc, List.map_cons]
        exact ih.cons _
      | some x =>
        rw [List.filterMap_cons_some hc, List.map_cons, List.map_cons, V.revision_sent c x hc]
        exact ih.cons_cons _
  obtain ⟨l, rfl⟩ := hn
  have hinc := hr.increasing
  rw [changes_append, List.map_append, List.pairwise_append] at hinc
  exact hinc.2.1.sublist (hsub _)

theorem delivered_of_streams {V : View α} {s : Sys} (hs : Streams V s.shared.state s.history)
    (hr : Revisions s.shared.state s.history) {id : Nat}
    (hid : .subscribed id ∈ V.log s.history) : Delivered V s id := by
  have hch := hs.hub.channel id hid
  have hann := hs.announced id hid
  refine ⟨?_, ?_, ?_, hch.once, hch.terminal, ?_⟩
  · rw [← hann]
    exact (List.prefix_append _ _).trans hch.isPrefix
  · intro hend
    rw [← hann]
    refine hch.stream ?_ ?_
    · by_contra hl
      exact hend (hch.ended (.inl hl))
    · cases hc : ((V.hub s.shared.state).chan id).closed with
      | false => rfl
      | true => exact absurd (hch.ended (.inr hc)) hend
  · exact announced_increasing hr (V.since_suffix id _)
  · intro l e m hl
    exact ⟨hs.named (.overflowed id e) (by rw [hl]; simp), hch.overflow l e m hl⟩

/-- Every subscriber of either hub receives a prefix of what was announced since it subscribed, the
    whole of it unless its own subscription ended, and no revision is used twice. -/
theorem delivered_of_reachable {s : Sys} (h : Reachable s) :
    (∀ id, .subscribed id ∈ statesView.log s.history → Delivered statesView s id) ∧
      (∀ id, .subscribed id ∈ topologyView.log s.history → Delivered topologyView s id) ∧
      ((changes s.history).map Change.revision).Pairwise (· < ·) := by
  have hok := reachable_streams h
  exact ⟨fun id hid => delivered_of_streams hok.states hok.revisions hid,
    fun id hid => delivered_of_streams hok.topology hok.revisions hid, hok.revisions.increasing⟩

/-- One subscriber, one publication, one delivery. -/
def lampStream : List Action :=
  lampStart ++ alone 2 { op := .subscribe 4 } 2 ++ alone 3 (publishLamp true) 8 ++
    [.recv .states 1]

theorem delivered_lampStream :
    Delivered statesView ((run (Sys.new true fun _ => none) lampStream).get (by decide)) 1 :=
  (delivered_of_reachable ⟨true, _, lampStream, (Option.some_get _).symm⟩).1 1 (by decide)

end Oikade.Core
