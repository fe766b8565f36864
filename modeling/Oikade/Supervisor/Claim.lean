/-
  What holds in every reachable state of a supervisor's handle.

  `Ok`: at most one task is between its claim and its `finish`, the last one; while there is one, the
  supervisor is running and `cancel` and `done` are that task's; otherwise the status shows no
  process. What a caller has been told stays true (`CallerOk`), because a task only goes forward
  (`Forward`).
-/
import Oikade.Supervisor.Handle

namespace Oikade.Supervisor.Handle

/-! ## Tasks -/

structure TaskOk (spec : ProcessSpec) (t : Task) : Prop where
  /-- the loop is one of `Model` -/
  reachable : ∃ as, Machine.run (Supervisor.step spec) (Loop.init spec) as = some t.loop
  sent : Sent t.loop
  running : t.loop.phase ≠ .finished → t.loop.running = true
  ready : ∀ r, t.ready = some r → t.loop.initialReady = some r
  finished : t.finished = true → t.loop.phase = .finished ∧ t.delivered = true
  done : t.done = true → t.finished = true ∧ t.child = none

/-- What a task does not take back. -/
structure Forward (t t' : Task) : Prop where
  ready : ∀ r, t.ready = some r → t'.ready = some r
  cancelled : t.loop.cancelled = true → t'.loop.cancelled = true
  phase : t.loop.phase = .finished → t'.loop.phase = .finished
  finished : t.finished = true → t'.finished = true
  done : t.done = true → t'.done = true

theorem forward_refl (t : Task) : Forward t t :=
  ⟨fun _ h => h, fun h => h, fun h => h, fun h => h, fun h => h⟩

theorem taskOk_new (spec : ProcessSpec) : TaskOk spec (Task.new spec) where
  reachable := ⟨[], rfl⟩
  sent := trivial
  running := fun _ => rfl
  ready := by simp [Task.new]
  finished := by simp [Task.new]
  done := by simp [Task.new]

/-- A task that has ended has told its caller how it began. -/
theorem TaskOk.ready_of_finished {spec : ProcessSpec} {t : Task} (h : TaskOk spec t)
    (hf : t.finished = true) : ∃ r, t.ready = some r := by
  obtain ⟨hphase, hdel⟩ := h.finished hf
  have hsent := h.sent
  simp only [Sent, hphase] at hsent
  simp only [Task.delivered, hsent, decide_eq_true_eq] at hdel
  exact Option.isSome_iff_exists.mp hdel

section Tasks

variable {spec : ProcessSpec} {t : Task} {l : Loop}

theorem reachable_step {a : Supervisor.Action}
    (h : ∃ as, Machine.run (Supervisor.step spec) (Loop.init spec) as = some t.loop)
    (hstep : Supervisor.step spec t.loop a = some l) :
    ∃ as, Machine.run (Supervisor.step spec) (Loop.init spec) as = some l := by
  obtain ⟨as, has⟩ := h
  exact ⟨as ++ [a], Machine.run_snoc_eq_some.mpr ⟨t.loop, has, hstep⟩⟩

/-- A stretch of the loop is taken by a task that has not ended. -/
theorem not_finished_of_stretch (h : TaskOk spec t) (hs : Stretch t.loop l) :
    t.finished = false := by
  cases hf : t.finished with
  | false => rfl
  | true => exact absurd (h.finished hf).1 hs.going

theorem not_done_of_not_finished (h : TaskOk spec t) (hf : t.finished = false) :
    t.done = false := by
  cases hd : t.done with
  | false => rfl
  | true => exact absurd (hf.symm.trans (h.done hd).1) Bool.false_ne_true

theorem taskOk_stretch {a : Supervisor.Action} (h : TaskOk spec t)
    (hstep : Supervisor.step spec t.loop a = some l) (hs : Stretch t.loop l)
    (child : Option Child) : TaskOk spec { t with loop := l, child } := by
  have hf := not_finished_of_stretch h hs
  have hd := not_done_of_not_finished h hf
  exact ⟨reachable_step h.reachable hstep, hs.sent h.sent,
    fun hne => (hs.running hne).trans (h.running hs.going), fun r hr => hs.kept r (h.ready r hr), by simp [hf], by simp [hd]⟩

theorem forward_stretch (hs : Stretch t.loop l) (child : Option Child) :
    Forward t { t with loop := l, child } :=
  ⟨fun _ h => h, fun h => hs.cancelled.trans h, fun h => absurd h hs.going, fun h => h, fun h => h⟩

/-- The loop after `cancel.send(true)`. -/
theorem stop_spec (spec : ProcessSpec) (l : Loop) :
    ∃ l', Supervisor.step spec l .stop = some l' ∧ l'.phase = l.phase ∧
      l'.initialReady = l.initialReady ∧ l'.running = l.running ∧
      (l.cancelled = true → l'.cancelled = true) ∧ (l.running = true → l'.cancelled = true) := by
  refine ⟨_, rfl, ?_⟩
  split
  · exact ⟨rfl, rfl, rfl, fun _ => rfl, fun _ => rfl⟩
  · rename_i hr
    exact ⟨rfl, rfl, rfl, fun h => h, fun h => absurd h hr⟩

/-- A task that has been asked to stop. -/
theorem taskOk_request (h : TaskOk spec t) (hstep : Supervisor.step spec t.loop .stop = some l)
    (hp : l.phase = t.loop.phase) (hr : l.initialReady = t.loop.initialReady)
    (hrun : l.running = t.loop.running) : TaskOk spec { t with loop := l } where
  reachable := reachable_step h.reachable hstep
  sent := by
    have hs := h.sent
    simpa [Sent, hp, hr] using hs
  running hne := hrun.trans (h.running fun he => hne (hp.trans he))
  ready r hr' := hr.trans (h.ready r hr')
  finished hf := by simpa [hp, hr, Task.delivered] using h.finished hf
  done := h.done

end Tasks

/-! ## The invariant -/

/-- What a caller knows, or has been told. -/
def CallerOk (s : Sys) : Caller → Prop
  | .readying i => i < s.tasks.length
  | .failing i message => ∃ t, s.tasks[i]? = some t ∧ t.ready = some (.error message)
  | .started i => ∃ t, s.tasks[i]? = some t ∧ t.ready = some (.ok ())
  | .failed i message => ∃ t, s.tasks[i]? = some t ∧ t.ready = some (.error message) ∧ t.done = true
  | .stopping i claims => i + 1 = claims ∧ (∃ t, s.tasks[i]? = some t ∧
      (t.loop.cancelled = true ∨ t.loop.phase = .finished)) ∧
      ∀ j t, j < i → s.tasks[j]? = some t → t.finished = true
  | .stopped asked claims => (∀ i ∈ asked, ∃ t, s.tasks[i]? = some t ∧ t.done = true) ∧
      claims ≤ s.tasks.length ∧ ∀ j t, j < claims → s.tasks[j]? = some t → t.finished = true
  | .refused | .timedOut _ => True

structure Sys.Ok (s : Sys) : Prop where
  tasks : ∀ (i : Nat) (t : Task), s.tasks[i]? = some t → TaskOk s.spec t
  /-- a task that has not ended is the last one, and the supervisor is running -/
  last : ∀ (i : Nat) (t : Task), s.tasks[i]? = some t → t.finished = false →
    i + 1 = s.tasks.length ∧ s.shared.running = true
  claimed : s.shared.running = true → ∃ (i : Nat) (t : Task), s.tasks[i]? = some t ∧ t.finished = false ∧
    s.shared.cancel = some i ∧ s.shared.done = some i
  /-- a supervisor that is not running shows no process -/
  idle : s.shared.running = false → Idle s.shared.status
  /-- nor does one whose loop has come to its end -/
  ending : ∀ (i : Nat) (t : Task), s.tasks[i]? = some t → t.finished = false → t.loop.phase = .finished →
    Idle s.shared.status
  callers : ∀ k caller, s.callers k = some caller → CallerOk s caller

theorem ok_ofProcess (spec : ProcessSpec) : (Sys.ofProcess spec).Ok where
  tasks := by simp [Sys.ofProcess]
  last := by simp [Sys.ofProcess]
  claimed := by simp [Sys.ofProcess]
  idle := by simp [Sys.ofProcess, Idle]
  ending := by simp [Sys.ofProcess]
  callers := by simp [Sys.ofProcess]

/-! ## The steps -/

section Steps

variable {s s' : Sys}

theorem getElem?_setTask {i : Nat} {t : Task} (ht : s.tasks[i]? = some t) (t' : Task) (j : Nat) :
    (s.setTask i t').tasks[j]? = if i = j then some t' else s.tasks[j]? := by
  obtain ⟨hi, -⟩ := List.getElem?_eq_some_iff.mp ht
  simp only [Sys.setTask, List.getElem?_set, hi, if_true]

/-- What a caller has been told stays true when the tasks go forward. -/
theorem callerOk_forward (hlen : s.tasks.length ≤ s'.tasks.length)
    (hfwd : ∀ (j : Nat) (u : Task), s.tasks[j]? = some u →
      ∃ u', s'.tasks[j]? = some u' ∧ Forward u u') {caller : Caller} (h : CallerOk s caller) :
    CallerOk s' caller := by
  -- a task that was there before is found again
  have hfinished : ∀ n, n ≤ s.tasks.length →
      (∀ (j : Nat) (t : Task), j < n → s.tasks[j]? = some t → t.finished = true) →
      ∀ (j : Nat) (t : Task), j < n → s'.tasks[j]? = some t → t.finished = true := by
    intro n hn hall j t hj ht
    have hj' : j < s.tasks.length := Nat.lt_of_lt_of_le hj hn
    obtain ⟨u, hu, hf⟩ := hfwd j s.tasks[j] (List.getElem?_eq_getElem hj')
    rw [ht, Option.some.injEq] at hu
    rw [hu]
    exact hf.finished (hall j _ hj (List.getElem?_eq_getElem hj'))
  cases caller with
  | readying i => exact Nat.lt_of_lt_of_le h hlen
  | failing i message =>
    obtain ⟨t, ht, hr⟩ := h
    obtain ⟨t', ht', hf⟩ := hfwd i t ht
    exact ⟨t', ht', hf.ready _ hr⟩
  | started i =>
    obtain ⟨t, ht, hr⟩ := h
    obtain ⟨t', ht', hf⟩ := hfwd i t ht
    exact ⟨t', ht', hf.ready _ hr⟩
  | failed i message =>
    obtain ⟨t, ht, hr, hd⟩ := h
    obtain ⟨t', ht', hf⟩ := hfwd i t ht
    exact ⟨t', ht', hf.ready _ hr, hf.done hd⟩
  | stopping i claims =>
    obtain ⟨hi, ⟨t, ht, hc⟩, hall⟩ := h
    obtain ⟨t', ht', hf⟩ := hfwd i t ht
    have hlt := (List.getElem?_eq_some_iff.mp ht).1
    exact ⟨hi, ⟨t', ht', hc.imp hf.cancelled hf.phase⟩, hfinished i (Nat.le_of_lt hlt) hall⟩
  | stopped asked claims =>
    obtain ⟨hasked, hle, hall⟩ := h
    refine ⟨fun i hi => ?_, Nat.le_trans hle hlen, hfinished claims hle hall⟩
    obtain ⟨t, ht, hd⟩ := hasked i hi
    obtain ⟨t', ht', hf⟩ := hfwd i t ht
    exact ⟨t', ht', hf.done hd⟩
  | refused | timedOut => trivial

theorem forward_setTask {i : Nat} {t t' : Task} (ht : s.tasks[i]? = some t) (hf : Forward t t')
    (j : Nat) (u : Task) (hu : s.tasks[j]? = some u) :
    ∃ u', (s.setTask i t').tasks[j]? = some u' ∧ Forward u u' := by
  rw [getElem?_setTask ht]
  split
  · rename_i hij
    subst hij
    rw [ht, Option.some.injEq] at hu
    exact ⟨t', rfl, hu ▸ hf⟩
  · exact ⟨u, hu, forward_refl u⟩

/-- A caller goes on. -/
theorem ok_setCaller (h : s.Ok) (k : Nat) {caller : Option Caller}
    (hc : ∀ c, caller = some c → CallerOk s c) : (s.setCaller k caller).Ok where
  tasks := h.tasks
  last := h.last
  claimed := h.claimed
  idle := h.idle
  ending := h.ending
  callers := by
    intro j c hj
    simp only [Sys.setCaller, Function.update_apply] at hj
    split at hj
    · exact hc c hj
    · exact h.callers j c hj

/-- A task that has not ended is the only one. -/
theorem Sys.Ok.eq_of_not_finished (h : s.Ok) {i j : Nat} {t u : Task} (ht : s.tasks[i]? = some t)
    (hu : s.tasks[j]? = some u) (hft : t.finished = false) (hfu : u.finished = false) : i = j := by
  have hi := (h.last i t ht hft).1
  have hj := (h.last j u hu hfu).1
  omega

/-- A task goes on without ending. Its loop may report a status, which shows no process when the
    loop is at its end. -/
theorem ok_setTask (h : s.Ok) {i : Nat} {t t' : Task} (ht : s.tasks[i]? = some t)
    (hok : TaskOk s.spec t') (hf : Forward t t') (hfin : t'.finished = t.finished) {status : Status}
    (hst : (status = s.shared.status ∧ t'.loop.phase = t.loop.phase) ∨
      (t.finished = false ∧ (t'.loop.phase = .finished → Idle status))) :
    ({ s.setTask i t' with shared := { s.shared with status } } : Sys).Ok := by
  have hget := getElem?_setTask ht t'
  refine ⟨?_, ?_, ?_, ?_, ?_, ?_⟩
  · intro j u hu
    rw [hget] at hu
    split at hu
    · exact Option.some.inj hu ▸ hok
    · exact h.tasks j u hu
  · intro j u hu hfu
    have hlen : (s.setTask i t').tasks.length = s.tasks.length := List.length_set
    rw [hget] at hu
    rw [hlen]
    split at hu
    · rename_i hij
      subst hij
      exact h.last i t ht (hfin ▸ Option.some.inj hu ▸ hfu)
    · exact h.last j u hu hfu
  · intro hr
    obtain ⟨j, u, hu, hfu, hc, hd⟩ := h.claimed hr
    by_cases hij : i = j
    · subst hij
      rw [ht, Option.some.injEq] at hu
      refine ⟨i, t', ?_, ?_, hc, hd⟩
      · rw [hget, if_pos rfl]
      · rw [hfin, hu]
        exact hfu
    · refine ⟨j, u, ?_, hfu, hc, hd⟩
      rw [hget, if_neg hij]
      exact hu
  · intro hr
    rcases hst with ⟨rfl, -⟩ | ⟨hft, -⟩
    · exact h.idle hr
    · exact absurd (hr.symm.trans (h.last i t ht hft).2) Bool.false_ne_true
  · intro j u hu hfu hphase
    rw [hget] at hu
    split at hu
    · rename_i hij
      subst hij
      rw [Option.some.injEq] at hu
      subst hu
      rcases hst with ⟨rfl, hp⟩ | ⟨-, hidle⟩
      · exact h.ending i t ht (hfin ▸ hfu) (hp ▸ hphase)
      · exact hidle hphase
    · rename_i hij
      rcases hst with ⟨rfl, -⟩ | ⟨hft, -⟩
      · exact h.ending j u hu hfu hphase
      · exact absurd (h.eq_of_not_finished ht hu hft hfu) hij
  · intro k caller hk
    exact callerOk_forward (Nat.le_of_eq List.length_set.symm) (forward_setTask ht hf)
      (h.callers k caller hk)

theorem ok_claim (h : s.Ok) (k : Nat) : (s.claim k).Ok := by
  unfold Sys.claim
  split
  · exact ok_setCaller h k (by rintro c ⟨⟩; trivial)
  · rename_i hr
    -- every task has ended, so the new one is the only one that has not
    have hall : ∀ (j : Nat) (t : Task), s.tasks[j]? = some t → t.finished = true := by
      intro j t ht
      cases hf : t.finished with
      | true => rfl
      | false => exact absurd (h.last j t ht hf).2 hr
    have hold : ∀ (j : Nat) (t : Task), (s.tasks ++ [Task.new s.spec])[j]? = some t →
        s.tasks[j]? = some t ∨ j = s.tasks.length ∧ t = Task.new s.spec := by
      intro j t ht
      rw [List.getElem?_append] at ht
      split at ht
      · exact .inl ht
      · rename_i hj
        obtain ⟨hlt, heq⟩ := List.getElem?_eq_some_iff.mp ht
        simp only [List.length_singleton] at hlt
        simp only [List.getElem_singleton] at heq
        exact .inr ⟨by omega, heq.symm⟩
    refine ok_setCaller (s := { s with
      shared := { s.shared with
        running := true
        cancel := some s.tasks.length
        done := some s.tasks.length }
      tasks := s.tasks ++ [Task.new s.spec] }) ⟨?_, ?_, ?_, ?_, ?_, ?_⟩ k ?_
    · intro j t ht
      rcases hold j t ht with ht | ⟨-, rfl⟩
      · exact h.tasks j t ht
      · exact taskOk_new s.spec
    · intro j t ht hf
      rcases hold j t ht with ht | ⟨rfl, -⟩
      · exact absurd ((hall j t ht).symm.trans hf) (by decide)
      · exact ⟨by simp, rfl⟩
    · intro _
      exact ⟨s.tasks.length, Task.new s.spec, by simp, rfl, rfl, rfl⟩
    · intro hr'
      exact Bool.noConfusion hr'
    · intro j t ht hf hphase
      rcases hold j t ht with ht | ⟨-, rfl⟩
      · exact absurd ((hall j t ht).symm.trans hf) (by decide)
      · exact Phase.noConfusion hphase
    · intro j c hj
      refine callerOk_forward (by simp) (fun i u hu => ?_) (h.callers j c hj)
      refine ⟨u, ?_, forward_refl u⟩
      rw [List.getElem?_append_left (List.getElem?_eq_some_iff.mp hu).1]
      exact hu
    · rintro c ⟨⟩
      simp [CallerOk]

/-- A `stop` that finds the supervisor running asks the task that has not ended. -/
theorem ok_ask (h : s.Ok) (k : Nat) : (s.ask k).Ok := by
  unfold Sys.ask
  split
  · rename_i hr
    obtain ⟨i, t, ht, hft, hc, hd⟩ := h.claimed hr
    obtain ⟨l, hl, hp, hready, hrun, hcan, hcan'⟩ := stop_spec s.spec t.loop
    have hok := taskOk_request (h.tasks i t ht) hl hp hready hrun
    have hf : Forward t { t with loop := l } :=
      ⟨fun _ hr => hr, hcan, fun hp' => hp.trans hp', fun hf => hf, fun hd => hd⟩
    have hreq : s.request i = s.setTask i { t with loop := l } := by
      simp [Sys.request, ht, hl]
    have hlast := (h.last i t ht hft).1
    simp only [hc, hd]
    rw [hreq]
    refine ok_setCaller (ok_setTask h ht hok hf rfl (.inl ⟨rfl, hp⟩)) k ?_
    rintro c ⟨⟩
    refine ⟨hlast, ⟨{ t with loop := l }, ?_, ?_⟩, ?_⟩
    · have hget := getElem?_setTask ht { t with loop := l } i
      rwa [if_pos rfl] at hget
    · by_cases hfin : t.loop.phase = .finished
      · exact .inr (hp.trans hfin)
      · exact .inl (hcan' ((h.tasks i t ht).running hfin))
    · intro j u hj hu
      have hget := getElem?_setTask ht { t with loop := l } j
      rw [if_neg (by omega)] at hget
      rw [hget] at hu
      cases hfu : u.finished with
      | true => rfl
      | false => exact absurd (h.eq_of_not_finished ht hu hft hfu) (by omega)
  · rename_i hr
    refine ok_setCaller h k ?_
    rintro c ⟨⟩
    refine ⟨by simp, Nat.le_refl _, fun j t _ ht => ?_⟩
    cases hf : t.finished with
    | true => rfl
    | false => exact absurd (h.last j t ht hf).2 hr

theorem ok_stretch (h : s.Ok) {i : Nat} {t : Task} (ht : s.tasks[i]? = some t)
    {a : Supervisor.Action} (ha : a ≠ .stop) {child : Option Child}
    (hstep : s.stretch i t a child = some s') : s'.Ok := by
  obtain ⟨l, hl, rfl⟩ := Option.map_eq_some_iff.mp hstep
  have hs := stretch_of_step ha hl
  have htask := h.tasks i t ht
  have hf := not_finished_of_stretch htask hs
  refine ok_setTask h ht (taskOk_stretch htask hl hs child) (forward_stretch hs child) rfl
    (.inr ⟨hf, fun hphase => ?_⟩)
  obtain ⟨status, hst, hidle⟩ := hs.idle hphase
  unfold reported at hst
  rw [hst]
  exact hidle

theorem ok_finish (h : s.Ok) {i : Nat} {t : Task} (ht : s.tasks[i]? = some t)
    (hphase : t.loop.phase = .finished) (hdel : t.delivered = true) (hf : t.finished = false) :
    ({ s.setTask i { t with finished := true } with
      shared := { s.shared with running := false, cancel := none } } : Sys).Ok := by
  have hget := getElem?_setTask ht { t with finished := true }
  have htask := h.tasks i t ht
  have hidle := h.ending i t ht hf hphase
  have hfwd : Forward t { t with finished := true } :=
    ⟨fun _ hr => hr, fun hc => hc, fun hp => hp, fun _ => rfl, fun hd => hd⟩
  have hend : ∀ (j : Nat) (u : Task), (s.setTask i { t with finished := true }).tasks[j]? = some u →
      u.finished = true := by
    intro j u hu
    rw [hget] at hu
    split at hu
    · exact Option.some.inj hu ▸ rfl
    · rename_i hij
      cases hfu : u.finished with
      | true => rfl
      | false => exact absurd (h.eq_of_not_finished ht hu hf hfu) hij
  refine ⟨?_, ?_, ?_, fun _ => hidle, ?_, ?_⟩
  · intro j u hu
    rw [hget] at hu
    split at hu
    · rw [← Option.some.inj hu]
      exact ⟨htask.reachable, htask.sent, htask.running, htask.ready, fun _ => ⟨hphase, hdel⟩,
        fun hd => ⟨rfl, (htask.done hd).2⟩⟩
    · exact h.tasks j u hu
  · intro j u hu hfu
    exact absurd ((hend j u hu).symm.trans hfu) (by decide)
  · intro hr
    exact Bool.noConfusion hr
  · intro j u hu hfu
    exact absurd ((hend j u hu).symm.trans hfu) (by decide)
  · intro k caller hk
    exact callerOk_forward (Nat.le_of_eq List.length_set.symm) (forward_setTask ht hfwd)
      (h.callers k caller hk)

theorem ok_ready (h : s.Ok) {k i : Nat} {t : Task} (ht : s.tasks[i]? = some t) {caller : Caller}
    (hc : t.answer i = some caller) : (s.setCaller k (some caller)).Ok := by
  refine ok_setCaller h k ?_
  rintro c ⟨⟩
  unfold Task.answer at hc
  split at hc
  · rename_i hr
    cases hc
    exact ⟨t, ht, hr⟩
  · rename_i message hr
    cases hc
    exact ⟨t, ht, hr⟩
  · rename_i hr
    split at hc
    · rename_i hd
      -- a task that has returned has answered
      obtain ⟨r, hr'⟩ := (h.tasks i t ht).ready_of_finished ((h.tasks i t ht).done hd).1
      rw [hr] at hr'
      cases hr'
    · cases hc

theorem done_of_any {i : Nat} (h : (s.tasks[i]?).any Task.done = true) :
    ∃ t, s.tasks[i]? = some t ∧ t.done = true := by
  cases ht : s.tasks[i]? with
  | none => simp [ht] at h
  | some t => exact ⟨t, rfl, by simpa [ht] using h⟩

theorem ok_waited (h : s.Ok) {k : Nat} (hstep : step s (.waited k) = some s') : s'.Ok := by
  simp only [step] at hstep
  split at hstep
  · rename_i i message hk
    split at hstep
    · rename_i hd
      cases hstep
      obtain ⟨t, ht, hd⟩ := done_of_any hd
      obtain ⟨t', ht', hr⟩ := h.callers k _ hk
      rw [ht, Option.some.injEq] at ht'
      subst ht'
      exact ok_setCaller h k (by rintro c ⟨⟩; exact ⟨t, ht, hr, hd⟩)
    · cases hstep
  · rename_i i claims hk
    split at hstep
    · rename_i hd
      cases hstep
      obtain ⟨t, ht, hdone⟩ := done_of_any hd
      obtain ⟨rfl, -, hall⟩ := h.callers k _ hk
      refine ok_setCaller h k ?_
      rintro c ⟨⟩
      refine ⟨?_, (List.getElem?_eq_some_iff.mp ht).1, ?_⟩
      · rintro j ⟨⟩
        exact ⟨t, ht, hdone⟩
      · intro j u hj hu
        rcases Nat.lt_or_eq_of_le (Nat.le_of_lt_succ hj) with hj | rfl
        · exact hall j u hj hu
        · rw [ht, Option.some.injEq] at hu
          exact hu ▸ ((h.tasks j t ht).done hdone).1
    · cases hstep
  · cases hstep

theorem step_ok {a : Action} (h : s.Ok) (hstep : step s a = some s') : s'.Ok := by
  cases a with
  | start k =>
    simp only [step, Option.ite_none_left_eq_some, Option.some.injEq] at hstep
    exact hstep.2 ▸ ok_claim h k
  | stop k =>
    simp only [step, Option.ite_none_left_eq_some, Option.some.injEq] at hstep
    exact hstep.2 ▸ ok_ask h k
  | ready k =>
    simp only [step] at hstep
    split at hstep
    · obtain ⟨caller, hc, rfl⟩ := Option.map_eq_some_iff.mp hstep
      obtain ⟨t, ht, hc⟩ := Option.bind_eq_some_iff.mp hc
      exact ok_ready h ht hc
    · cases hstep
  | waited k => exact ok_waited h hstep
  | timeout k =>
    simp only [step] at hstep
    split at hstep
    · split at hstep
      · cases hstep
      · cases hstep
        exact ok_setCaller h k (by rintro c ⟨⟩; trivial)
    · cases hstep
  | drop k =>
    simp only [step] at hstep
    split at hstep
    · split at hstep
      · cases hstep
        exact ok_setCaller h k (by rintro c ⟨⟩)
      · cases hstep
    · cases hstep
  | loop i a =>
    simp only [step] at hstep
    split at hstep
    · rename_i t ht
      split at hstep
      · rename_i hg
        refine ok_stretch h ht ?_ hstep
        rintro rfl
        exact absurd hg.1 (by decide)
      · cases hstep
    · cases hstep
  | terminate i os =>
    simp only [step] at hstep
    split at hstep
    · rename_i t ht
      exact ok_stretch h ht (by simp) hstep
    · cases hstep
  | sendInitial i =>
    simp only [step] at hstep
    split at hstep
    · rename_i t ht
      have htask := h.tasks i t ht
      split at hstep
      · cases hstep
      · rename_i hdel
        cases hstep
        have htask' : TaskOk s.spec { t with ready := t.loop.initialReady } :=
          ⟨htask.reachable, htask.sent, htask.running, fun _ hr => hr,
            fun hf => absurd (htask.finished hf).2 hdel, htask.done⟩
        have hfwd : Forward t { t with ready := t.loop.initialReady } :=
          ⟨fun r hr => htask.ready r hr, fun hc => hc, fun hp => hp, fun hf => hf, fun hd => hd⟩
        exact ok_setTask h ht htask' hfwd rfl (.inl ⟨rfl, rfl⟩)
    · cases hstep
  | finish i =>
    simp only [step] at hstep
    split at hstep
    · rename_i t ht
      split at hstep
      · rename_i hg
        cases hstep
        exact ok_finish h ht hg.1 hg.2.1 hg.2.2
      · cases hstep
    · cases hstep
  | ret i =>
    simp only [step] at hstep
    split at hstep
    · rename_i t ht
      have htask := h.tasks i t ht
      split at hstep
      · rename_i hg
        cases hstep
        have htask' : TaskOk s.spec { t with child := none, done := true } :=
          ⟨htask.reachable, htask.sent, htask.running, htask.ready, htask.finished,
            fun _ => ⟨hg.1, rfl⟩⟩
        have hfwd : Forward t { t with child := none, done := true } :=
          ⟨fun _ hr => hr, fun hc => hc, fun hp => hp, fun hf => hf, fun _ => rfl⟩
        exact ok_setTask h ht htask' hfwd rfl (.inl ⟨rfl, rfl⟩)
      · cases hstep
    · cases hstep
  | die i =>
    simp only [step] at hstep
    split at hstep
    · rename_i t ht
      have htask := h.tasks i t ht
      cases hstep
      have htask' : TaskOk s.spec { t with child := t.child.map Child.reaped } :=
        ⟨htask.reachable, htask.sent, htask.running, htask.ready, htask.finished,
          fun hd => ⟨(htask.done hd).1, by rw [(htask.done hd).2]; rfl⟩⟩
      have hfwd : Forward t { t with child := t.child.map Child.reaped } :=
        ⟨fun _ hr => hr, fun hc => hc, fun hp => hp, fun hf => hf, fun hd => hd⟩
      exact ok_setTask h ht htask' hfwd rfl (.inl ⟨rfl, rfl⟩)
    · cases hstep

end Steps

theorem run_ok {s s' : Sys} {as : List Action} (hok : s.Ok) (h : run s as = some s') : s'.Ok :=
  Machine.run_inv (fun _ _ _ hok => step_ok hok) hok h

theorem new_ok {spec : Spec} {s : Sys} (h : Sys.new spec = .ok s) :
    spec.policy.Valid ∧ s = .ofProcess spec.process := by
  unfold Sys.new at h
  split at h
  · cases h
  · split at h
    · cases h
    · split at h
      · cases h
      · rename_i hv
        cases h
        exact ⟨Backoff.RestartPolicy.validate_eq_ok.mp hv, rfl⟩

theorem ok_new {spec : Spec} {s : Sys} (h : Sys.new spec = .ok s) : s.Ok := by
  obtain ⟨-, rfl⟩ := new_ok h
  exact ok_ofProcess spec.process

/-- Whatever callers start, stop, drop their calls and give up waiting, and in whatever order: at
    most one task is between its claim and its `finish`, the supervisor is running exactly while
    there is one and otherwise shows no process, every loop is one of `Model`, a `start` that
    reports a failure and a `stop` that has waited have seen the task return without a child, and
    a `stop` that found nothing running came after the `finish` of every task before it. -/
theorem handle_safe {spec : Spec} {s₀ s : Sys} {as : List Action} (hnew : Sys.new spec = .ok s₀)
    (hrun : run s₀ as = some s) :
    (∀ (i j : Nat) (t u : Task), s.tasks[i]? = some t → s.tasks[j]? = some u →
      t.finished = false → u.finished = false → i = j) ∧
    (s.shared.running = true ↔
      ∃ (i : Nat) (t : Task), s.tasks[i]? = some t ∧ t.finished = false) ∧
    (s.shared.running = false → Idle s.shared.status) ∧
    (∀ (i : Nat) (t : Task), s.tasks[i]? = some t →
      ∃ bs, Machine.run (Supervisor.step s.spec) (Loop.init s.spec) bs = some t.loop) ∧
    (∀ k i message, s.callers k = some (.failed i message) → ∃ t, s.tasks[i]? = some t ∧
      t.loop.initialReady = some (.error message) ∧ t.done = true ∧ t.child = none) ∧
    (∀ k i claims, s.callers k = some (.stopped (some i) claims) →
      ∃ t, s.tasks[i]? = some t ∧ t.done = true ∧ t.child = none) ∧
    ∀ k asked claims, s.callers k = some (.stopped asked claims) →
      ∀ (j : Nat) (t : Task), j < claims → s.tasks[j]? = some t → t.finished = true := by
  have h := run_ok (ok_new hnew) hrun
  refine ⟨fun i j t u ht hu => h.eq_of_not_finished ht hu, ⟨fun hr => ?_, ?_⟩, h.idle,
    fun i t ht => (h.tasks i t ht).reachable, ?_, ?_, ?_⟩
  · obtain ⟨i, t, ht, hf, -⟩ := h.claimed hr
    exact ⟨i, t, ht, hf⟩
  · rintro ⟨i, t, ht, hf⟩
    exact (h.last i t ht hf).2
  · intro k i message hk
    obtain ⟨t, ht, hr, hd⟩ := h.callers k _ hk
    exact ⟨t, ht, (h.tasks i t ht).ready _ hr, hd, ((h.tasks i t ht).done hd).2⟩
  · intro k i claims hk
    obtain ⟨t, ht, hd⟩ := (h.callers k _ hk).1 i rfl
    exact ⟨t, ht, hd, ((h.tasks i t ht).done hd).2⟩
  · intro k asked claims hk
    exact (h.callers k _ hk).2.2

/-- A process that needs no probe. -/
def sleeper : Spec := ⟨"sleeper", "/bin/sleep", false, {}⟩

/-- The first call starts the process, a second one is refused, a third stops it. -/
def sleeperStopped : List Action :=
  [.start 0, .loop 0 .head, .loop 0 (.launch (.ok (some 7))),
    .loop 0 (.ready (.inspected (.ok none)) 1), .start 1, .sendInitial 0, .ready 0, .stop 2,
    .loop 0 .cancel, .terminate 0 {}, .finish 0, .ret 0, .waited 2]

def sleeping : Sys := .ofProcess sleeper.process

theorem sleeper_new : Sys.new sleeper = .ok sleeping := by
  have hname : sleeper.name.isEmpty = false := by decide
  have hexe : sleeper.executable.isEmpty = false := by decide
  have hpolicy : sleeper.policy.validate = .ok () := Backoff.validate_default
  simp [Sys.new, hname, hexe, hpolicy, sleeping]

theorem handle_safe_sleeper :
    ((run sleeping sleeperStopped).get (by decide)).callers 0 = some (.started 0) ∧
    ((run sleeping sleeperStopped).get (by decide)).callers 1 = some .refused ∧
    ∃ t, ((run sleeping sleeperStopped).get (by decide)).tasks[0]? = some t ∧ t.done = true ∧
      t.child = none := by
  have hrun : run sleeping sleeperStopped = some ((run sleeping sleeperStopped).get (by decide)) :=
    (Option.some_get _).symm
  obtain ⟨-, -, -, -, -, hstopped, -⟩ := handle_safe sleeper_new hrun
  exact ⟨by decide, by decide, hstopped 2 0 1 (by decide)⟩

end Oikade.Supervisor.Handle
