/-
  A call that fails leaves no trace.

  `Sys.without s k` is the state without call `k`: its future and its entries of the history are
  gone, everything shared is as it is. `run_without`: if call `k` has returned an error, the run
  without the actions of `k` leads to exactly that state. So the device table, the values, the
  revision, the subscriptions with their queues, the store, and what every other call has done and
  returned are as if the call had not been made.

  A call has no effect before the last await point at which it can fail (`Pc.untouched`). Beyond
  that point only the lifecycle lock keeps the remaining checks from failing: the second check of
  `register` and the `confirm_registration` after a save (`not_fail_of_touched`).
-/
import Oikade.Core.Invariant

namespace Oikade.Core

open Fallible (bind_ok)

/-! ## The state without a call -/

def Obs.caller : Obs → Option CallId
  | .invoked k _ | .returned k _ | .abandoned k | .turn k _ _ => some k
  | _ => none

def Action.caller : Action → Option CallId
  | .invoke k _ | .advance k | .abandon k => some k
  | _ => none

def Sys.without (s : Sys) (k : CallId) : Sys :=
  { s with
    calls := s.calls.erase k
    history := s.history.filter fun o => o.caller ≠ some k }

theorem erase_insert {m : Std.ExtTreeMap CallId Thread} {j k : CallId} (u : Thread) (hjk : j ≠ k) :
    (m.insert j u).erase k = (m.erase k).insert j u := by
  refine Std.ExtTreeMap.ext_getElem? fun i => ?_
  simp only [getElem?_erase, getElem?_insert]
  by_cases hji : j = i
  · subst hji
    simp [Ne.symm hjk]
  · simp [hji]

theorem erase_insert_self {m : Std.ExtTreeMap CallId Thread} {k : CallId} (u : Thread) :
    (m.insert k u).erase k = m.erase k := by
  refine Std.ExtTreeMap.ext_getElem? fun i => ?_
  simp only [getElem?_erase, getElem?_insert]
  by_cases hki : k = i <;> simp [hki]

/-- Entries of another call, or of none, stay in the history. -/
theorem filter_caller {h m : List Obs} {k : CallId} (hm : ∀ o ∈ m, o.caller ≠ some k) :
    (h ++ m).filter (fun o => o.caller ≠ some k) = h.filter (fun o => o.caller ≠ some k) ++ m := by
  rw [List.filter_append, List.filter_eq_self.mpr fun o ho => decide_eq_true (hm o ho)]

theorem observe_caller {sh : Shared} {e : Effect} {o : Obs} (ho : o ∈ e.observe sh) :
    o.caller = none := by
  cases e with
  | subscribe topic buffer => cases topic <;> simp_all [Effect.observe, Obs.caller]
  | cancel topic id => cases topic <;> simp_all [Effect.observe, Obs.caller]
  | commit d r c v now =>
    simp only [Effect.observe, List.mem_cons] at ho
    rcases ho with rfl | ho
    · rfl
    · split at ho
      · obtain ⟨x, -, rfl⟩ := List.mem_map.mp ho
        rfl
      · simp at ho
  | insert r values | remove d r =>
    simp only [Effect.observe, List.mem_cons, List.mem_map] at ho
    rcases ho with rfl | ⟨x, -, rfl⟩ <;> rfl
  | stop =>
    simp only [Effect.observe, List.mem_append, List.mem_map] at ho
    rcases ho with ⟨x, -, rfl⟩ | ⟨x, -, rfl⟩ <;> rfl
  | _ => simp [Effect.observe] at ho

theorem turnOf_caller {j : CallId} {op : Op} {pc : Pc} {o : Obs} (ho : o ∈ turnOf j op pc) :
    o.caller = some j := by
  cases pc <;> simp only [turnOf, List.not_mem_nil] at ho
  rw [Option.mem_toList, Option.map_eq_some_iff] at ho
  obtain ⟨x, -, rfl⟩ := ho
  rfl

theorem free_without {s : Sys} {l : Lock} (k : CallId) (h : s.free l = true) :
    (s.without k).free l = true := by
  refine free_iff.mpr fun j t hj => ?_
  simp only [Sys.without, getElem?_erase] at hj
  split at hj
  · simp at hj
  · exact free_iff.mp h j t hj

theorem ready_without {s : Sys} {call : Call} {pc : Pc} (k : CallId)
    (h : s.ready call pc = true) : (s.without k).ready call pc = true := by
  unfold Sys.ready at h ⊢
  split
  · rfl
  · rename_i l hl
    rw [hl] at h
    exact free_without k h

/-- What another call does to its own future and to the history. -/
theorem without_insert {s : Sys} {j k : CallId} (hjk : j ≠ k) (sh : Shared) (u : Thread)
    (os : List Orphan) {m : List Obs} (hm : ∀ o ∈ m, o.caller ≠ some k) :
    (Sys.mk sh (s.calls.insert j u) os (s.history ++ m)).without k =
      Sys.mk sh ((s.without k).calls.insert j u) os ((s.without k).history ++ m) := by
  simp only [Sys.without, erase_insert u hjk, filter_caller hm]

theorem subscriber_without {s s' : Sys} (k : CallId) {topic : Topic}
    {eventOp : Broadcast.Op Event RuntimeError} {topologyOp : Broadcast.Op TopologyEvent RuntimeError}
    (h : s.subscriber topic eventOp topologyOp = some s') :
    (s.without k).subscriber topic eventOp topologyOp = some (s'.without k) := by
  cases topic with
  | states | topology =>
    simp only [Sys.subscriber, Option.map_eq_some_iff, Prod.exists] at h ⊢
    obtain ⟨hub, log, hs, rfl⟩ := h
    refine ⟨hub, log, hs, ?_⟩
    simp only [Sys.without]
    rw [filter_caller fun o ho => by obtain ⟨x, -, rfl⟩ := List.mem_map.mp ho; simp [Obs.caller]]

/-- The other calls, the orphaned saves and the subscribers step as they would without `k`. -/
theorem step_without {s s' : Sys} {a : Action} {k : CallId} (ha : a.caller ≠ some k)
    (h : step s a = some s') : step (s.without k) a = some (s'.without k) := by
  have hget : ∀ j, j ≠ k → (s.without k).calls[j]? = s.calls[j]? := fun j hj => by
    simp only [Sys.without, getElem?_erase, if_neg (Ne.symm hj)]
  cases a with
  | invoke j call =>
    have hjk : j ≠ k := fun e => ha (congrArg some e)
    simp only [step, Option.ite_none_left_eq_some, Option.some.injEq] at h
    obtain ⟨hj, rfl⟩ := h
    have hj' : j ∉ (s.without k).calls := fun hm => hj (Std.ExtTreeMap.mem_of_mem_erase hm)
    simp only [step, if_neg hj', Option.some.injEq]
    cases begin call with
    | error e => simp [Sys.fail, Sys.without, erase_insert _ hjk, Obs.caller, hjk]
    | ok pc => simp [Sys.without, erase_insert _ hjk, Obs.caller, hjk]
  | advance j =>
    have hjk : j ≠ k := fun e => ha (congrArg some e)
    simp only [step] at h ⊢
    split at h
    · rename_i call pc hj
      rw [hget j hjk, hj]
      simp only [Option.ite_none_right_eq_some, Option.map_eq_some_iff] at h ⊢
      obtain ⟨hr, x, hb, h⟩ := h
      refine ⟨ready_without k hr, x, hb, ?_⟩
      have hret : ∀ r, ∀ o ∈ [Obs.returned j r], o.caller ≠ some k := fun r o ho => by
        rw [List.mem_singleton.mp ho]
        exact fun e => hjk (Option.some.inj e)
      split at h
      · subst h
        exact (without_insert hjk _ _ _ (hret _)).symm
      · rename_i effect next
        subst h
        have hobs : ∀ o ∈ effect.observe s.shared, o.caller ≠ some k := fun o ho => by
          rw [observe_caller ho]
          exact Option.some_ne_none _ |>.symm
        cases next with
        | goto pc' =>
          have hturn : ∀ o ∈ turnOf j call.op pc, o.caller ≠ some k := fun o ho => by
            rw [turnOf_caller ho]
            exact fun e => hjk (Option.some.inj e)
          simp only [Sys.settle, List.append_assoc]
          exact (without_insert hjk _ _ _ (List.forall_mem_append.mpr ⟨hobs, hturn⟩)).symm
        | ret reply =>
          simp only [Sys.settle, List.append_assoc]
          exact (without_insert hjk _ _ _ (List.forall_mem_append.mpr ⟨hobs, hret _⟩)).symm
    · simp at h
  | abandon j =>
    have hjk : j ≠ k := fun e => ha (congrArg some e)
    simp only [step] at h ⊢
    split at h
    · rename_i call pc hj
      rw [hget j hjk, hj]
      simp only [Option.some.injEq] at h ⊢
      subst h
      refine (without_insert hjk _ _ _ fun o ho => ?_).symm
      rw [List.mem_singleton.mp ho]
      exact fun e => hjk (Option.some.inj e)
    · simp at h
  | orphan i =>
    simp only [step] at h ⊢
    split at h
    · rename_i o ho
      rw [show (s.without k).orphans = s.orphans from rfl, ho]
      simp only [Option.some.injEq] at h ⊢
      subst h
      rfl
    · simp at h
  | recv topic id => exact subscriber_without k h
  | drop topic id => exact subscriber_without k h
  | cleanup topic id => exact subscriber_without k h

/-! ## Where a call can fail -/

/-- The call has had no effect yet. -/
def Pc.untouched : Pc → Bool
  | .confirmSaved .. | .advance .. | .insert _ => false
  | _ => true

/-- Beyond its last effect but one a call cannot fail. -/
theorem not_fail_of_touched {sh : Shared} {call : Call} {pc : Pc} (hpc : PcOk sh call pc)
    (ht : pc.untouched = false) (e : RuntimeError) : body sh call pc ≠ some (.error e) := by
  intro hb
  cases pc with
  | confirmSaved r c v next =>
    obtain ⟨d, cid, htarget, hl⟩ := lookup_of_entered hpc.1
    obtain ⟨hs, hr, -⟩ := lookup_ok.mp hl
    have hconfirm : confirmRegistration sh.state d r = .ok () :=
      confirmRegistration_ok.mpr ⟨hs, r, hr, rfl⟩
    simp [body, htarget, hconfirm, bind, Except.bind] at hb
  | advance r c v =>
    obtain ⟨d, cid, htarget, -⟩ := lookup_of_entered hpc.1
    simp [body, htarget] at hb
  | insert values =>
    obtain ⟨d, handler, hop, hs, hd⟩ := hpc
    simp [body, hop, ensureStarted, hs, hd, bind, Except.bind] at hb
  | _ => simp [Pc.untouched] at ht

/-- Up to there a call has no effect and only adds entries of its own. -/
theorem effect_of_untouched {sh : Shared} {call : Call} {pc pc' : Pc} {e : Effect}
    (hm : Move sh call pc e (.goto pc')) (ht : pc'.untouched = true) : e = .none := by
  generalize hn : Next.goto pc' = n at hm
  cases hm with
  | saveInitial | saved | update =>
    cases hn
    simp [Pc.untouched] at ht
  | start | stop | insert | remove | commit | subscribe | subscribeTopology | cancel => cases hn
  | _ => rfl

/-- A call that is beyond that point does not come back. -/
theorem touched_move {sh : Shared} {call : Call} {pc pc' : Pc} {e : Effect}
    (hm : Move sh call pc e (.goto pc')) (ht : pc.untouched = false) : pc'.untouched = false := by
  generalize hn : Next.goto pc' = n at hm
  cases hm with
  | update =>
    cases hn
    rfl
  | insert | commit => cases hn
  | _ => simp [Pc.untouched] at ht

/-! ## Runs without a failed call -/

/-- Call `k` has not been made, or has had no effect yet, or has failed. -/
def Sys.Traceless (s : Sys) (k : CallId) : Prop :=
  ∀ u, s.calls[k]? = some u →
    (∃ call pc, u = .running call pc ∧ pc.untouched = true) ∨ ∃ call e, u = .returned call (.error e)

/-- A step of call `k` that only changes its own future and adds entries of its own. -/
theorem without_own {s : Sys} {k : CallId} (u : Thread) {m : List Obs}
    (hm : ∀ o ∈ m, o.caller = some k) :
    (Sys.mk s.shared (s.calls.insert k u) s.orphans (s.history ++ m)).without k = s.without k := by
  have hnil : m.filter (fun o => o.caller ≠ some k) = [] :=
    List.filter_eq_nil_iff.mpr fun o ho => by simp [hm o ho]
  simp only [Sys.without, erase_insert_self, List.filter_append, hnil, List.append_nil]

/-- A call without a trace after a step had none before it, and the step left none. -/
theorem traceless_back {s s' : Sys} {a : Action} {k : CallId} (hok : s.Ok)
    (h : step s a = some s') (ht : s'.Traceless k) :
    s.Traceless k ∧ (a.caller = some k → s'.without k = s.without k) := by
  have hother : ∀ {j : CallId} {u : Thread}, s'.calls = s.calls.insert j u → j ≠ k →
      s.Traceless k := fun {j u} hcalls hjk v hv => by
    refine ht v ?_
    rw [hcalls, getElem?_insert, if_neg hjk]
    exact hv
  have hnone : k ∉ s.calls → s.Traceless k := fun hk u hu => by
    rw [Std.ExtTreeMap.getElem?_eq_none hk] at hu
    cases hu
  cases step_cases h with
  | @reject j call e hj hb | @invoke j call pc hj hb =>
    by_cases hjk : j = k
    · subst hjk
      exact ⟨hnone hj, fun _ => without_own _ (by simp [Obs.caller])⟩
    · exact ⟨hother rfl hjk, fun hc => absurd (Option.some.inj hc) hjk⟩
  | @fail j call pc e hj hr hb =>
    by_cases hjk : j = k
    · subst hjk
      refine ⟨fun u hu => .inl ⟨call, pc, ?_, ?_⟩, fun _ => without_own _ (by simp [Obs.caller])⟩
      · rw [hj, Option.some.injEq] at hu
        exact hu.symm
      · by_contra hpc
        exact not_fail_of_touched (hok.pc j call pc hj) (Bool.eq_false_iff.mpr hpc) e hb
    · exact ⟨hother rfl hjk, fun hc => absurd (Option.some.inj hc) hjk⟩
  | @move j call pc e n hj hr hm =>
    by_cases hjk : j = k
    · subst hjk
      have hnew := ht (n.thread call) (by rw [getElem?_insert, if_pos rfl])
      cases n with
      | ret reply =>
        obtain ⟨_, _, hu, -⟩ | ⟨_, _, hu⟩ := hnew
        · cases hu
        · cases hu
      | goto pc' =>
        have hpc' : pc'.untouched = true := by
          obtain ⟨_, _, hu, hpc'⟩ | ⟨_, _, hu⟩ := hnew
          · cases hu
            exact hpc'
          · cases hu
        have he : e = .none := effect_of_untouched hm hpc'
        subst he
        refine ⟨fun u hu => .inl ⟨call, pc, ?_, ?_⟩, fun _ => without_own _ ?_⟩
        · rw [hj, Option.some.injEq] at hu
          exact hu.symm
        · by_contra hpc
          rw [touched_move hm (Bool.eq_false_iff.mpr hpc)] at hpc'
          cases hpc'
        · exact fun o ho => turnOf_caller ho
    · exact ⟨hother rfl hjk, fun hc => absurd (Option.some.inj hc) hjk⟩
  | @abandon j call pc hj =>
    by_cases hjk : j = k
    · subst hjk
      have hnew := ht (.abandoned call) (by rw [getElem?_insert, if_pos rfl])
      obtain ⟨_, _, hu, -⟩ | ⟨_, _, hu⟩ := hnew
      · cases hu
      · cases hu
    · exact ⟨hother rfl hjk, fun hc => absurd (Option.some.inj hc) hjk⟩
  | orphan ho => exact ⟨ht, fun hc => by cases hc⟩
  | states hs hop =>
    refine ⟨ht, fun hc => ?_⟩
    obtain ⟨id, rfl, -⟩ | ⟨id, rfl, -⟩ | ⟨id, rfl, -⟩ := hop <;> cases hc
  | topology hs hop =>
    refine ⟨ht, fun hc => ?_⟩
    obtain ⟨id, rfl, -⟩ | ⟨id, rfl, -⟩ | ⟨id, rfl, -⟩ := hop <;> cases hc

theorem run_without {s s' : Sys} {as : List Action} {k : CallId} (hok : s.Ok)
    (h : run s as = some s') (ht : s'.Traceless k) :
    s.Traceless k ∧
      run (s.without k) (as.filter fun a => a.caller ≠ some k) = some (s'.without k) := by
  induction as generalizing s with
  | nil =>
    cases Option.some.inj h
    exact ⟨ht, rfl⟩
  | cons a as ih =>
    obtain ⟨t, hstep, h⟩ := Machine.run_cons_eq_some.mp h
    obtain ⟨htt, hrun⟩ := ih (step_ok hok hstep) h
    obtain ⟨hts, hown⟩ := traceless_back hok hstep htt
    refine ⟨hts, ?_⟩
    by_cases ha : a.caller = some k
    · rw [List.filter_cons_of_neg (by simp [ha]), ← hown ha]
      exact hrun
    · rw [List.filter_cons_of_pos (by simp [ha])]
      exact Machine.run_cons_eq_some.mpr ⟨_, step_without ha hstep, hrun⟩

/-- In every run in which call `k` has returned an error, the same run without the actions of `k`
    leads to the same state without call `k`. -/
theorem run_without_failed {persistent : Bool} {store : DeviceId → Option Record}
    {as : List Action} {s : Sys} {k : CallId} {call : Call} {e : RuntimeError}
    (h : run (Sys.new persistent store) as = some s)
    (hk : s.calls[k]? = some (.returned call (.error e))) :
    run (Sys.new persistent store) (as.filter fun a => a.caller ≠ some k) = some (s.without k) := by
  have ht : s.Traceless k := fun u hu => by
    rw [hk, Option.some.injEq] at hu
    exact .inr ⟨call, e, hu.symm⟩
  have hnew : (Sys.new persistent store).without k = Sys.new persistent store := by
    simp [Sys.without, Sys.new]
  exact hnew ▸ (run_without (new_ok persistent store) h ht).2

/-- A publication of the lamp whose save fails while another one waits for its turn. -/
def lampUnsaved : List Action :=
  lampStart ++ [.invoke 2 { publishLamp true with saved := .error "disk full" }] ++
    List.replicate 5 (.advance 2) ++ [.invoke 3 (publishLamp true), .advance 3, .advance 3] ++
    [.advance 2] ++ List.replicate 6 (.advance 3)

theorem run_without_failed_lamp :
    ∃ s, run (Sys.new true fun _ => none) lampUnsaved = some s ∧
      s.calls[2]? = some (.returned { publishLamp true with saved := .error "disk full" }
        (.error (.persist "lamp" "on" "disk full"))) ∧
      run (Sys.new true fun _ => none) (lampUnsaved.filter fun a => a.caller ≠ some 2) =
        some (s.without 2) :=
  ⟨_, rfl, rfl, run_without_failed rfl rfl⟩

end Oikade.Core
