/-
  The child processes of a supervisor, and the end of a `stop`.

  A step changes at most one task, and `TaskStep` says how. From it follow two results about runs.

  `one_child`: as long as the system lets `terminate` end a child and lets `wait` tell its exit, at
  most one child is alive, and none of the tasks before a `stop` that has returned has one. The
  condition is needed: `finish` comes before the child is dropped, so a child that `terminate` could
  not end can meet the child of the next task (the example after the theorem).

  `stop_completes`: once a caller waits in `stop`, the task it waits for takes at most fifteen more
  steps, whatever else happens, and it can always take the next one.
-/
import Oikade.Supervisor.Claim

namespace Oikade.Supervisor.Handle

/-! ## What a step does to a task -/

/-- The task whose step an action is. -/
def Action.task : Action → Option Nat
  | .loop i _ | .terminate i _ | .sendInitial i | .finish i | .ret i => some i
  | _ => none

inductive TaskStep (spec : ProcessSpec) (i : Nat) (t : Task) : Action → Task → Prop where
  | same {a : Action} (ha : a.task ≠ some i) : TaskStep spec i t a t
  | request {k : Nat} {l : Loop} (h : Supervisor.step spec t.loop .stop = some l) :
    TaskStep spec i t (.stop k) { t with loop := l }
  | stretch {b : Supervisor.Action} {l : Loop} (hb : isStretch b = true) (hdel : t.delivered = true)
    (h : Supervisor.step spec t.loop b = some l) :
    TaskStep spec i t (.loop i b) { t with loop := l, child := childAfter t.child b }
  | terminate {os : Termination} {l : Loop}
    (h : Supervisor.step spec t.loop (.terminated (Handle.terminate (t.child.bind Child.pid) os)) =
      some l) :
    TaskStep spec i t (.terminate i os)
      { t with
        loop := l
        child := if reaps (t.child.bind Child.pid) os then t.child.map Child.reaped else t.child }
  | sendInitial (hdel : t.delivered = false) :
    TaskStep spec i t (.sendInitial i) { t with ready := t.loop.initialReady }
  | finish (hphase : t.loop.phase = .finished) (hdel : t.delivered = true)
    (hf : t.finished = false) : TaskStep spec i t (.finish i) { t with finished := true }
  | ret (hf : t.finished = true) (hd : t.done = false) :
    TaskStep spec i t (.ret i) { t with child := none, done := true }
  | die : TaskStep spec i t (.die i) { t with child := t.child.map Child.reaped }

section Steps

variable {s s' : Sys} {a : Action} {i j : Nat} {t t' : Task}

/-- A step of one task leaves the others alone. -/
theorem taskStep_set (hu : s.tasks[j]? = some t) (ht : s.tasks[i]? = some t') {u : Task}
    (hj : TaskStep s.spec j t a u) (hne : i ≠ j → a.task ≠ some i) :
    ∃ u', (s.setTask j u).tasks[i]? = some u' ∧ TaskStep s.spec i t' a u' := by
  rw [getElem?_setTask hu]
  split
  · rename_i hji
    subst hji
    rw [hu, Option.some.injEq] at ht
    exact ⟨u, rfl, ht ▸ hj⟩
  · rename_i hji
    exact ⟨t', ht, .same (hne (Ne.symm hji))⟩

theorem step_task (h : step s a = some s') (ht : s.tasks[i]? = some t) :
    ∃ t', s'.tasks[i]? = some t' ∧ TaskStep s.spec i t a t' := by
  have hkeep : s'.tasks = s.tasks → a.task = none →
      ∃ t', s'.tasks[i]? = some t' ∧ TaskStep s.spec i t a t' := by
    intro htasks ha
    exact ⟨t, htasks ▸ ht, .same (by simp [ha])⟩
  cases a with
  | start k =>
    simp only [step, Option.ite_none_left_eq_some, Option.some.injEq] at h
    obtain ⟨-, rfl⟩ := h
    refine ⟨t, ?_, .same (by simp [Action.task])⟩
    unfold Sys.claim
    split
    · exact ht
    · exact (List.getElem?_append_left (List.getElem?_eq_some_iff.mp ht).1).trans ht
  | stop k =>
    simp only [step, Option.ite_none_left_eq_some, Option.some.injEq] at h
    obtain ⟨-, rfl⟩ := h
    have hsame : TaskStep s.spec i t (.stop k) t := .same (by simp [Action.task])
    unfold Sys.ask
    split
    · cases hc : s.shared.cancel with
      | none => exact ⟨t, ht, hsame⟩
      | some j =>
        cases hu : s.tasks[j]? with
        | none => exact ⟨t, by simpa [Sys.request, hu, Sys.setCaller] using ht, hsame⟩
        | some u =>
          obtain ⟨l, hl, -⟩ := stop_spec s.spec u.loop
          have hset := taskStep_set (a := .stop k) hu ht (.request hl) (fun _ => by simp [Action.task])
          simpa [Sys.request, hu, hl, Sys.setCaller] using hset
    · exact ⟨t, ht, hsame⟩
  | ready k =>
    simp only [step] at h
    split at h
    · obtain ⟨caller, -, rfl⟩ := Option.map_eq_some_iff.mp h
      exact hkeep rfl rfl
    · cases h
  | waited k =>
    simp only [step] at h
    split at h
    · split at h
      · cases h
        exact hkeep rfl rfl
      · cases h
    · split at h
      · cases h
        exact hkeep rfl rfl
      · cases h
    · cases h
  | timeout k | drop k =>
    simp only [step] at h
    split at h
    · split at h
      · cases h <;> exact hkeep rfl rfl
      · cases h <;> exact hkeep rfl rfl
    · cases h
  | loop j b =>
    simp only [step] at h
    split at h
    · rename_i u hu
      split at h
      · rename_i hg
        obtain ⟨l, hl, rfl⟩ := Option.map_eq_some_iff.mp h
        exact taskStep_set hu ht (.stretch hg.1 hg.2 hl) (fun hij => by simpa [Action.task] using Ne.symm hij)
      · cases h
    · cases h
  | terminate j os =>
    simp only [step] at h
    split at h
    · rename_i u hu
      obtain ⟨l, hl, rfl⟩ := Option.map_eq_some_iff.mp h
      exact taskStep_set hu ht (.terminate hl) (fun hij => by simpa [Action.task] using Ne.symm hij)
    · cases h
  | sendInitial j =>
    simp only [step] at h
    split at h
    · rename_i u hu
      split at h
      · cases h
      · rename_i hdel
        cases h
        exact taskStep_set hu ht (.sendInitial (by simpa using hdel))
          (fun hij => by simpa [Action.task] using Ne.symm hij)
    · cases h
  | finish j =>
    simp only [step] at h
    split at h
    · rename_i u hu
      split at h
      · rename_i hg
        cases h
        exact taskStep_set hu ht (.finish hg.1 hg.2.1 hg.2.2)
          (fun hij => by simpa [Action.task] using Ne.symm hij)
      · cases h
    · cases h
  | ret j =>
    simp only [step] at h
    split at h
    · rename_i u hu
      split at h
      · rename_i hg
        cases h
        exact taskStep_set hu ht (.ret hg.1 hg.2) (fun hij => by simpa [Action.task] using Ne.symm hij)
      · cases h
    · cases h
  | die j =>
    simp only [step] at h
    split at h
    · rename_i u hu
      cases h
      exact taskStep_set hu ht .die (fun _ => by simp [Action.task])
    · cases h

theorem length_request (s : Sys) (i : Nat) : (s.request i).tasks.length = s.tasks.length := by
  unfold Sys.request
  split
  · rfl
  · exact List.length_set

/-- Only `start` adds a task. -/
theorem step_tasks (h : step s a = some s') :
    s'.tasks = s.tasks ++ [Task.new s.spec] ∨ s'.tasks.length = s.tasks.length := by
  have hset : ∀ (i : Nat) (t : Task), (s.tasks.set i t).length = s.tasks.length :=
    fun _ _ => List.length_set
  cases a with
  | start k =>
    simp only [step, Option.ite_none_left_eq_some, Option.some.injEq] at h
    obtain ⟨-, rfl⟩ := h
    unfold Sys.claim
    split
    · exact .inr rfl
    · exact .inl rfl
  | stop k =>
    simp only [step, Option.ite_none_left_eq_some, Option.some.injEq] at h
    obtain ⟨-, rfl⟩ := h
    right
    unfold Sys.ask
    split
    · cases s.shared.cancel with
      | none => rfl
      | some i => exact length_request s i
    · rfl
  | ready k =>
    simp only [step] at h
    split at h
    · obtain ⟨caller, -, rfl⟩ := Option.map_eq_some_iff.mp h
      exact .inr rfl
    · cases h
  | waited k =>
    simp only [step] at h
    split at h
    · split at h
      · cases h
        exact .inr rfl
      · cases h
    · split at h
      · cases h
        exact .inr rfl
      · cases h
    · cases h
  | timeout k | drop k =>
    simp only [step] at h
    split at h
    · split at h
      · cases h <;> exact .inr rfl
      · cases h <;> exact .inr rfl
    · cases h
  | loop j b =>
    simp only [step] at h
    split at h
    · split at h
      · obtain ⟨l, hl, rfl⟩ := Option.map_eq_some_iff.mp h
        exact .inr (hset _ _)
      · cases h
    · cases h
  | terminate j os =>
    simp only [step] at h
    split at h
    · obtain ⟨l, hl, rfl⟩ := Option.map_eq_some_iff.mp h
      exact .inr (hset _ _)
    · cases h
  | sendInitial j =>
    simp only [step] at h
    split at h
    · split at h
      · cases h
      · cases h
        exact .inr (hset _ _)
    · cases h
  | finish j | ret j =>
    simp only [step] at h
    split at h
    · split at h
      · cases h
        exact .inr (hset _ _)
      · cases h
    · cases h
  | die j =>
    simp only [step] at h
    split at h
    · cases h
      exact .inr (hset _ _)
    · cases h

/-- A task after a step is a new one or has made a step. -/
theorem task_of_step (h : step s a = some s') (ht' : s'.tasks[i]? = some t') :
    t' = Task.new s.spec ∨ ∃ t, s.tasks[i]? = some t ∧ TaskStep s.spec i t a t' := by
  cases ht : s.tasks[i]? with
  | some t =>
    obtain ⟨u, hu, hstep⟩ := step_task h ht
    rw [ht', Option.some.injEq] at hu
    exact .inr ⟨t, rfl, hu ▸ hstep⟩
  | none =>
    left
    have hle := List.getElem?_eq_none_iff.mp ht
    have hlt := (List.getElem?_eq_some_iff.mp ht').1
    rcases step_tasks h with heq | hlen
    · rw [heq, List.getElem?_append_right hle] at ht'
      obtain ⟨hi, hget⟩ := List.getElem?_eq_some_iff.mp ht'
      simpa using hget.symm
    · omega

end Steps

/-! ## Children -/

def Task.alive (t : Task) : Bool := t.child.any Child.alive

/-- The places of the loop at which its child may run. -/
def harbours : Phase → Bool
  | .waiting _ | .terminating _ | .running .. | .stopping => true
  | _ => false

/-- The system lets `terminate` end the child of a task and lets `wait` tell its exit. -/
def orderly (s : Sys) : Action → Bool
  | .terminate i os => (s.tasks[i]?).all fun t => reaps (t.child.bind Child.pid) os
  | .loop _ (.exit (.failed _) ..) => false
  | _ => true

theorem not_alive_reaped (child : Option Child) : (child.map Child.reaped).any Child.alive = false := by
  cases child <;> rfl

/-- A stretch that leaves the child behind has seen it exit. -/
theorem alive_stretch {spec : ProcessSpec} {l l' : Loop} {child : Option Child}
    {b : Supervisor.Action} (hb : isStretch b = true)
    (hexit : ∀ error elapsedAt now, b ≠ .exit (.failed error) elapsedAt now)
    (h : Supervisor.step spec l b = some l') (hc : child.any Child.alive = true → harbours l.phase = true)
    (halive : (childAfter child b).any Child.alive = true) : harbours l'.phase = true := by
  cases b with
  | stop | terminated result => simp [isStretch] at hb
  | head =>
    cases hp : l.phase with
    | head =>
      have hne := hc halive
      simp [hp, harbours] at hne
    | _ => simp [Supervisor.step, hp] at h
  | launch result =>
    cases hp : l.phase with
    | launching =>
      cases result with
      | error error =>
        have hne := hc halive
        simp [hp, harbours] at hne
      | ok pid =>
        simp only [Supervisor.step, hp] at h
        cases h
        rfl
    | _ => cases result <;> simp [Supervisor.step, hp] at h
  | ready outcome startedAt =>
    cases hp : l.phase with
    | waiting pid =>
      simp only [Supervisor.step, hp] at h
      obtain ⟨result, -, h⟩ := Option.bind_eq_some_iff.mp h
      cases result with
      | error failure =>
        cases h
        rfl
      | ok u =>
        simp only at h
        split at h
        · cases h
          rfl
        · cases h
    | _ => simp [Supervisor.step, hp] at h
  | exit result elapsedAt now =>
    cases result with
    | failed error => exact absurd rfl (hexit error elapsedAt now)
    | exited success status =>
      rw [childAfter, not_alive_reaped] at halive
      exact Bool.noConfusion halive
  | cancel =>
    cases hp : l.phase with
    | running pid startedAt =>
      simp only [Supervisor.step, hp] at h
      split at h
      · cases h
        rfl
      · cases h
    | backoff delay =>
      have hne := hc halive
      simp [hp, harbours] at hne
    | _ => simp [Supervisor.step, hp] at h
  | slept => simp [childAfter] at halive

/-- A child is alive only at the places of the loop that know of it. -/
def Sys.Harboured (s : Sys) : Prop :=
  ∀ (i : Nat) (t : Task), s.tasks[i]? = some t → t.alive = true → harbours t.loop.phase = true

theorem step_harboured {s s' : Sys} {a : Action} (h : s.Harboured) (ho : orderly s a = true)
    (hstep : step s a = some s') : s'.Harboured := by
  intro i t' ht' halive
  rcases task_of_step hstep ht' with rfl | ⟨t, ht, hts⟩
  · simp [Task.new, Task.alive] at halive
  · have hc := h i t ht
    cases hts with
    | same | sendInitial | finish => exact hc halive
    | @request k l hl =>
      obtain ⟨l', hl', hp, -⟩ := stop_spec s.spec t.loop
      rw [hl, Option.some.injEq] at hl'
      subst hl'
      rw [hp]
      exact hc halive
    | @stretch b l hb hdel hl =>
      refine alive_stretch hb ?_ hl hc halive
      rintro error elapsedAt now rfl
      exact Bool.noConfusion ho
    | @terminate os l hl =>
      have hreaps : reaps (t.child.bind Child.pid) os = true := by simpa [orderly, ht] using ho
      simp only [Task.alive, hreaps, if_true, not_alive_reaped] at halive
      exact Bool.noConfusion halive
    | ret => simp [Task.alive] at halive
    | die =>
      simp only [Task.alive, not_alive_reaped] at halive
      exact Bool.noConfusion halive

/-- As long as the system lets `terminate` end a child and lets `wait` tell its exit: at most one
    child is alive, and none of the tasks that had been started when a `stop` looked has one once
    that `stop` has returned. -/
theorem one_child {spec : Spec} {s₀ s : Sys} {as : List Action} (hnew : Sys.new spec = .ok s₀)
    (ho : Machine.Meets step (fun s a => orderly s a = true) s₀ as) (hrun : run s₀ as = some s) :
    (∀ (i j : Nat) (t u : Task), s.tasks[i]? = some t → s.tasks[j]? = some u →
      t.alive = true → u.alive = true → i = j) ∧
    ∀ k asked claims, s.callers k = some (.stopped asked claims) →
      ∀ (j : Nat) (t : Task), j < claims → s.tasks[j]? = some t → t.alive = false := by
  have hok := run_ok (ok_new hnew) hrun
  have hstart : s₀.Harboured := by
    intro i t ht
    obtain ⟨-, rfl⟩ := new_ok hnew
    simp [Sys.ofProcess] at ht
  have hh := Machine.run_inv_of_meets (fun _ _ _ h ho hs => step_harboured h ho hs) hstart ho hrun
  -- a task that has ended has no child left
  have hended : ∀ (i : Nat) (t : Task), s.tasks[i]? = some t → t.alive = true →
      t.finished = false := by
    intro i t ht halive
    cases hf : t.finished with
    | false => rfl
    | true =>
      have hphase := hh i t ht halive
      rw [((hok.tasks i t ht).finished hf).1] at hphase
      exact Bool.noConfusion hphase
  refine ⟨fun i j t u ht hu hat hau =>
    hok.eq_of_not_finished ht hu (hended i t ht hat) (hended j u hu hau), ?_⟩
  intro k asked claims hk j t hj ht
  have hf := (hok.callers k _ hk).2.2 j t hj ht
  cases halive : t.alive with
  | false => rfl
  | true => exact absurd ((hended j t ht halive).symm.trans hf) Bool.false_ne_true

theorem one_child_sleeper :
    ((run sleeping sleeperStopped).get (by decide)).callers 2 = some (.stopped (some 0) 1) ∧
    ∃ t, ((run sleeping sleeperStopped).get (by decide)).tasks[0]? = some t ∧ t.alive = false := by
  have hrun : run sleeping sleeperStopped = some ((run sleeping sleeperStopped).get (by decide)) :=
    (Option.some_get _).symm
  have hk : ((run sleeping sleeperStopped).get (by decide)).callers 2 =
      some (.stopped (some 0) 1) := by decide
  have hlen : 0 < ((run sleeping sleeperStopped).get (by decide)).tasks.length := by decide
  have hstopped := (one_child sleeper_new (Machine.meets_of_allows (by decide)) hrun).2 2 _ _ hk
  exact ⟨hk, _, List.getElem?_eq_getElem hlen,
    hstopped 0 _ Nat.one_pos (List.getElem?_eq_getElem hlen)⟩

/-- The process group cannot be signalled: the task ends, and a second one starts its child before
    the first one has dropped its own. -/
example : ((run sleeping
    [.start 0, .loop 0 .head, .loop 0 (.launch (.ok (some 7))),
      .loop 0 (.ready (.inspected (.ok none)) 1), .sendInitial 0, .stop 1, .loop 0 .cancel,
      .terminate 0 { sigterm := .error "EPERM" }, .finish 0, .start 2, .loop 1 .head,
      .loop 1 (.launch (.ok (some 8)))]).map fun s => s.tasks.map Task.alive) =
    some [true, true] := by decide

/-! ## The end of a `stop` -/

/-- The steps that a task which has been asked to stop can still take. -/
def Task.left (t : Task) : Nat :=
  if t.done then 0
  else if t.finished then 1
  else 2 + 2 * rank t.loop.phase + if t.delivered then 0 else 1

/-- The task has been asked to stop, or its loop is at its end. -/
def Task.Asked (t : Task) : Prop := t.loop.cancelled = true ∨ t.loop.phase = .finished

theorem left_le (t : Task) : t.left ≤ 15 := by
  have hrank : rank t.loop.phase ≤ 6 := by cases t.loop.phase <;> simp [rank]
  unfold Task.left
  split
  · omega
  · split
    · omega
    · split <;> omega

/-- A stretch of the loop brings the task closer to its end. -/
theorem left_stretch {t : Task} {l : Loop} {child : Option Child} {spec : ProcessSpec}
    (h : TaskOk spec t) (hasked : t.Asked) (hs : Stretch t.loop l) :
    ({ t with loop := l, child } : Task).left < t.left := by
  have hf := not_finished_of_stretch h hs
  have hd := not_done_of_not_finished h hf
  have hrank := hs.rank (hasked.resolve_right hs.going)
  simp only [Task.left, hf, hd, Bool.false_eq_true, if_false]
  split <;> split <;> omega

theorem taskStep_left {spec : ProcessSpec} {i : Nat} {t t' : Task} {a : Action}
    (h : TaskOk spec t) (hasked : t.Asked) (hstep : TaskStep spec i t a t') :
    t'.Asked ∧ t'.left ≤ t.left ∧ (a.task = some i → t'.left < t.left) := by
  have hlower : t'.Asked → t'.left < t.left →
      t'.Asked ∧ t'.left ≤ t.left ∧ (a.task = some i → t'.left < t.left) :=
    fun hasked' hlt => ⟨hasked', Nat.le_of_lt hlt, fun _ => hlt⟩
  cases hstep with
  | same ha => exact ⟨hasked, Nat.le_refl _, fun ha' => absurd ha' ha⟩
  | @request k l hl =>
    obtain ⟨l', hl', hp, hr, -, hc, -⟩ := stop_spec spec t.loop
    rw [hl, Option.some.injEq] at hl'
    subst hl'
    refine ⟨hasked.imp hc fun hphase => hp.trans hphase, ?_, fun ha => by simp [Action.task] at ha⟩
    simp [Task.left, Task.delivered, hp, hr]
  | stretch hb hdel hl =>
    have hs := stretch_of_step (by rintro rfl; simp [isStretch] at hb) hl
    exact hlower (hasked.imp (fun hc => hs.cancelled.trans hc) fun hp => absurd hp hs.going)
      (left_stretch h hasked hs)
  | terminate hl =>
    have hs := stretch_of_step (by simp) hl
    exact hlower (hasked.imp (fun hc => hs.cancelled.trans hc) fun hp => absurd hp hs.going)
      (left_stretch h hasked hs)
  | sendInitial hdel =>
    have hf : t.finished = false := by
      cases hf : t.finished with
      | false => rfl
      | true => exact absurd (hdel.symm.trans (h.finished hf).2) Bool.false_ne_true
    have hd := not_done_of_not_finished h hf
    have hnow : ({ t with ready := t.loop.initialReady } : Task).delivered = true := by
      simp [Task.delivered]
    refine hlower hasked ?_
    unfold Task.left
    rw [hnow, hdel]
    simp [hf, hd]
  | finish hphase hdel hf =>
    have hd := not_done_of_not_finished h hf
    refine hlower hasked ?_
    simp [Task.left, hf, hd]
    omega
  | ret hf hd =>
    refine hlower hasked ?_
    simp [Task.left, hf, hd]
  | die => exact ⟨hasked, Nat.le_refl _, fun ha => by simp [Action.task] at ha⟩

/-- A task that has been asked to stop and has not returned can take its next step. -/
theorem asked_moves {s : Sys} {i : Nat} {t : Task} (ht : s.tasks[i]? = some t)
    (hasked : t.Asked) (hd : t.done = false) :
    ∃ a : Action, a.task = some i ∧ (step s a).isSome = true := by
  have hloop : t.delivered = true → ∀ b : Supervisor.Action, isStretch b = true →
      (Supervisor.step s.spec t.loop b).isSome = true →
      ∃ a : Action, a.task = some i ∧ (step s a).isSome = true := by
    intro hdel b hb hsome
    exact ⟨.loop i b, rfl, by simpa [step, ht, hb, hdel, Sys.stretch] using hsome⟩
  have hend : (∀ result, (Supervisor.step s.spec t.loop (.terminated result)).isSome = true) →
      ∃ a : Action, a.task = some i ∧ (step s a).isSome = true := by
    intro hsome
    exact ⟨.terminate i {}, rfl, by simpa [step, ht, Sys.stretch] using hsome _⟩
  cases hdel : t.delivered with
  | false => exact ⟨.sendInitial i, rfl, by simp [step, ht, hdel]⟩
  | true =>
    cases hp : t.loop.phase with
    | finished =>
      cases hf : t.finished with
      | false => exact ⟨.finish i, rfl, by simp [step, ht, hp, hdel, hf]⟩
      | true => exact ⟨.ret i, rfl, by simp [step, ht, hf, hd]⟩
    | head =>
      refine hloop hdel .head rfl ?_
      simp only [Supervisor.step, hp]
      split <;> rfl
    | launching => exact hloop hdel (.launch (.error "")) rfl (by simp [Supervisor.step, hp])
    | waiting pid =>
      have hc : t.loop.cancelled = true := hasked.resolve_right (by simp [hp])
      cases hpid : pid with
      | none =>
        exact hloop hdel (.ready .cancelled 0) rfl (by simp [Supervisor.step, hp, hpid, waitReady])
      | some pid =>
        cases hr : s.spec.readiness with
        | true =>
          exact hloop hdel (.ready .cancelled 0) rfl
            (by simp [Supervisor.step, hp, hpid, waitReady, hr, hc])
        | false =>
          exact hloop hdel (.ready (.inspected (.error "")) 0) rfl
            (by simp [Supervisor.step, hp, hpid, waitReady, hr])
    | terminating failure => exact hend fun result => by simp [Supervisor.step, hp]
    | stopping => exact hend fun result => by simp [Supervisor.step, hp]
    | running pid startedAt =>
      have hc : t.loop.cancelled = true := hasked.resolve_right (by simp [hp])
      exact hloop hdel .cancel rfl (by simp [Supervisor.step, hp, hc])
    | backoff delay =>
      have hc : t.loop.cancelled = true := hasked.resolve_right (by simp [hp])
      exact hloop hdel .cancel rfl (by simp [Supervisor.step, hp, hc])

/-- Once a caller waits in `stop`, the task it waits for takes at most fifteen more steps, whatever
    the other callers and tasks do, and until it has returned it can take the next one. Then the
    caller, if it still waits, can return. -/
theorem stop_completes {spec : Spec} {s₀ s s' : Sys} {as bs : List Action}
    (hnew : Sys.new spec = .ok s₀) (hrun : run s₀ as = some s) {k i claims : Nat}
    (hk : s.callers k = some (.stopping i claims)) (hrun' : run s bs = some s') :
    bs.countP (fun a => a.task = some i) ≤ 15 ∧
      ((∃ a : Action, a.task = some i ∧ (step s' a).isSome = true) ∨
        (∃ t, s'.tasks[i]? = some t ∧ t.done = true) ∧
          (s'.callers k = some (.stopping i claims) → (step s' (.waited k)).isSome = true)) := by
  have hok := run_ok (ok_new hnew) hrun
  obtain ⟨-, ⟨t, ht, hasked⟩, -⟩ := hok.callers k _ hk
  -- the rank of the system is that of the task
  have hstep : ∀ u a u', (u.Ok ∧ ∃ t, u.tasks[i]? = some t ∧ t.Asked) → True → step u a = some u' →
      (u'.Ok ∧ ∃ t, u'.tasks[i]? = some t ∧ t.Asked) ∧
        (u'.tasks[i]?).elim 0 Task.left ≤ (u.tasks[i]?).elim 0 Task.left ∧
        (a.task = some i → (u'.tasks[i]?).elim 0 Task.left < (u.tasks[i]?).elim 0 Task.left) := by
    rintro u a u' ⟨hu, t, ht, hasked⟩ - hstep
    obtain ⟨t', ht', hts⟩ := step_task hstep ht
    obtain ⟨hasked', hle, hlt⟩ := taskStep_left (hu.tasks i t ht) hasked hts
    simp only [ht, ht', Option.elim_some]
    exact ⟨⟨step_ok hu hstep, t', rfl, hasked'⟩, hle, hlt⟩
  constructor
  · have hle := Machine.count_add_rank_le (fun a : Action => a.task = some i)
      (fun u : Sys => (u.tasks[i]?).elim 0 Task.left) hstep ⟨hok, t, ht, hasked⟩
      (fun _ _ => trivial) hrun'
    simp only [ht, Option.elim_some] at hle
    have := left_le t
    omega
  · obtain ⟨-, t', ht', hasked'⟩ := Machine.run_inv
      (fun u a u' hu hs => (hstep u a u' hu trivial hs).1) ⟨hok, t, ht, hasked⟩ hrun'
    cases hd : t'.done with
    | false => exact .inl (asked_moves ht' hasked' hd)
    | true =>
      refine .inr ⟨⟨t', ht', hd⟩, fun hk' => ?_⟩
      simp [step, hk', ht', hd]

/-- The third caller waits for the task. -/
def sleeperAsked : Sys := (run sleeping (sleeperStopped.take 8)).get (by decide)

/-- The child exits before the loop has seen the request, and another caller comes. -/
def sleeperExited : Sys :=
  (run sleeperAsked [.loop 0 (.exit (.exited true "exit status: 0") 2 2), .start 3]).get (by decide)

theorem stop_completes_sleeper :
    ∃ a : Action, a.task = some 0 ∧ (step sleeperExited a).isSome = true := by
  have hrun : run sleeping (sleeperStopped.take 8) = some sleeperAsked := (Option.some_get _).symm
  have hrun' : run sleeperAsked [.loop 0 (.exit (.exited true "exit status: 0") 2 2), .start 3] =
      some sleeperExited := (Option.some_get _).symm
  have hk : sleeperAsked.callers 2 = some (.stopping 0 1) := by decide
  obtain ⟨-, h | ⟨⟨t, ht, hd⟩, -⟩⟩ := stop_completes sleeper_new hrun hk hrun'
  · exact h
  · have hno : (sleeperExited.tasks[0]?).any Task.done = false := by decide
    simp [ht, hd] at hno

end Oikade.Supervisor.Handle
