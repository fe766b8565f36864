/-
  Runs of a step function, for any state and action types.

  `step s a` is what action `a` does in state `s`, `none` when `a` is not enabled there. A run is
  a list of actions; `run step s as` is the state it ends in. Nothing here restricts the order of
  the actions, so a statement about every `as` is a statement about every interleaving of the
  parties whose moves the actions are.

  * `run_inv`: what every step keeps, every run keeps.
  * `Meets step ok s as`: every step of the run is taken from a state in which `ok` allows it.
    `run_inv_of_meets` is `run_inv` for such runs, `allows` evaluates a decidable `ok` along a run.
  * `run_append_eq_some`, `run_snoc_eq_some`: runs compose.
  * `run_rel_of_meets`: two runs go on side by side, if each allowed step does.
  * `Each law h`: in the history `h`, oldest first, `law` holds of each entry and what is before it.
-/
import Mathlib.Data.List.Basic

namespace Machine

variable {σ α : Type}

/-- The state a list of actions leads to, `none` if one of them is not enabled. -/
def run (step : σ → α → Option σ) : σ → List α → Option σ
  | s, [] => some s
  | s, a :: as => (step s a).bind fun s' => run step s' as

section Run

variable {step : σ → α → Option σ}

@[simp] theorem run_nil (s : σ) : run step s [] = some s := rfl

theorem run_cons_eq_some {s s' : σ} {a : α} {as : List α} :
    run step s (a :: as) = some s' ↔ ∃ t, step s a = some t ∧ run step t as = some s' := by
  simp [run, Option.bind_eq_some_iff]

theorem run_append_eq_some {s s' : σ} {as bs : List α} :
    run step s (as ++ bs) = some s' ↔ ∃ t, run step s as = some t ∧ run step t bs = some s' := by
  induction as generalizing s with
  | nil => simp
  | cons a as ih =>
    rw [List.cons_append, run_cons_eq_some]
    constructor
    · rintro ⟨t, ht, h⟩
      obtain ⟨u, hu, h⟩ := ih.mp h
      exact ⟨u, run_cons_eq_some.mpr ⟨t, ht, hu⟩, h⟩
    · rintro ⟨u, hu, h⟩
      obtain ⟨t, ht, hu⟩ := run_cons_eq_some.mp hu
      exact ⟨t, ht, ih.mpr ⟨u, hu, h⟩⟩

theorem run_snoc_eq_some {s s' : σ} {as : List α} {a : α} :
    run step s (as ++ [a]) = some s' ↔ ∃ t, run step s as = some t ∧ step t a = some s' := by
  rw [run_append_eq_some]
  constructor
  · rintro ⟨t, ht, h⟩
    obtain ⟨u, hu, h⟩ := run_cons_eq_some.mp h
    rw [run_nil, Option.some.injEq] at h
    exact ⟨t, ht, h ▸ hu⟩
  · rintro ⟨t, ht, h⟩
    exact ⟨t, ht, run_cons_eq_some.mpr ⟨s', h, rfl⟩⟩

/-- What one step keeps, a run keeps. -/
theorem run_inv {P : σ → Prop} (hstep : ∀ s a s', P s → step s a = some s' → P s')
    {s s' : σ} {as : List α} (hs : P s) (h : run step s as = some s') : P s' := by
  induction as generalizing s with
  | nil =>
    rw [run_nil, Option.some.injEq] at h
    exact h ▸ hs
  | cons a as ih =>
    obtain ⟨t, ht, h⟩ := run_cons_eq_some.mp h
    exact ih (hstep s a t hs ht) h

/-- Every step of the run is taken from a state in which `ok` allows it. -/
def Meets (step : σ → α → Option σ) (ok : σ → α → Prop) : σ → List α → Prop
  | _, [] => True
  | s, a :: as => ok s a ∧ ∀ s', step s a = some s' → Meets step ok s' as

theorem meets_mono {ok ok' : σ → α → Prop} (himp : ∀ s a, ok s a → ok' s a) {s : σ} {as : List α}
    (h : Meets step ok s as) : Meets step ok' s as := by
  induction as generalizing s with
  | nil => trivial
  | cons a as ih => exact ⟨himp _ _ h.1, fun s' hs' => ih (h.2 s' hs')⟩

/-- A condition on the actions alone. -/
theorem meets_of_forall {ok : α → Prop} {s : σ} {as : List α} (h : ∀ a ∈ as, ok a) :
    Meets step (fun _ a => ok a) s as := by
  induction as generalizing s with
  | nil => trivial
  | cons a as ih =>
    rw [List.forall_mem_cons] at h
    exact ⟨h.1, fun _ _ => ih h.2⟩

/-- `Meets` for a condition that can be evaluated. -/
def allows (step : σ → α → Option σ) (ok : σ → α → Bool) : σ → List α → Bool
  | _, [] => true
  | s, a :: as => ok s a && (step s a).all fun s' => allows step ok s' as

theorem meets_of_allows {ok : σ → α → Bool} {s : σ} {as : List α}
    (h : allows step ok s as = true) : Meets step (fun s a => ok s a = true) s as := by
  induction as generalizing s with
  | nil => trivial
  | cons a as ih =>
    rw [allows, Bool.and_eq_true] at h
    refine ⟨h.1, fun s' hs' => ih ?_⟩
    simpa [hs'] using h.2

/-- What one allowed step keeps, a run of allowed steps keeps. -/
theorem run_inv_of_meets {ok : σ → α → Prop} {P : σ → Prop}
    (hstep : ∀ s a s', P s → ok s a → step s a = some s' → P s')
    {s s' : σ} {as : List α} (hs : P s) (hok : Meets step ok s as)
    (h : run step s as = some s') : P s' := by
  induction as generalizing s with
  | nil =>
    rw [run_nil, Option.some.injEq] at h
    exact h ▸ hs
  | cons a as ih =>
    obtain ⟨t, ht, h⟩ := run_cons_eq_some.mp h
    exact ih (hstep s a t hs hok.1 ht) (hok.2 t ht) h

theorem rel_imp {R R' : σ → σ → Prop} (himp : ∀ s t, R s t → R' s t) {x y : Option σ}
    (h : Option.Rel R x y) : Option.Rel R' x y := by
  cases h with
  | none => exact .none
  | some h => exact .some (himp _ _ h)

theorem rel_map {τ : Type} {R : σ → σ → Prop} {R' : τ → τ → Prop} {f g : σ → τ}
    (hfg : ∀ s t, R s t → R' (f s) (g t)) {x y : Option σ} (h : Option.Rel R x y) :
    Option.Rel R' (x.map f) (y.map g) := by
  cases h with
  | none => exact .none
  | some h => exact .some (hfg _ _ h)

/-- Two runs side by side: a relation that related steps keep relates the states that related runs
    end in, and the second run goes as far as the first. -/
theorem run_rel_of_meets {ok : σ → α → Prop} {R : σ → σ → Prop} {A : α → α → Prop}
    (hstep : ∀ s t a b, R s t → A a b → ok s a → Option.Rel R (step s a) (step t b))
    {s t s' : σ} {as bs : List α} (hst : R s t) (hab : List.Forall₂ A as bs)
    (hok : Meets step ok s as) (h : run step s as = some s') :
    ∃ t', run step t bs = some t' ∧ R s' t' := by
  induction hab generalizing s t with
  | nil =>
    rw [run_nil, Option.some.injEq] at h
    exact ⟨t, rfl, h ▸ hst⟩
  | cons ha _ ih =>
    obtain ⟨u, hu, h⟩ := run_cons_eq_some.mp h
    have hrel := hstep _ _ _ _ hst ha hok.1
    rw [hu] at hrel
    generalize hv : step t _ = v at hrel
    cases hrel with
    | some huv =>
      obtain ⟨t', ht', hr⟩ := ih huv (hok.2 _ hu) h
      exact ⟨t', run_cons_eq_some.mpr ⟨_, hv, ht'⟩, hr⟩

end Run

section History

variable {ε : Type} {law : List ε → ε → Prop}

/-- A law that holds at each entry of a history, given the entries before it. -/
def Each (law : List ε → ε → Prop) (h : List ε) : Prop :=
  ∀ before e after, h = before ++ e :: after → law before e

theorem each_nil : Each law [] := by
  rintro before e after h
  simp at h

theorem each_snoc {h : List ε} {e : ε} : Each law (h ++ [e]) ↔ Each law h ∧ law h e := by
  constructor
  · intro hall
    exact ⟨fun before e' after hh => hall before e' (after ++ [e]) (by simp [hh]), hall h e [] rfl⟩
  · rintro ⟨hall, he⟩ before e' after hh
    rcases List.eq_nil_or_concat after with rfl | ⟨after, last, rfl⟩
    · obtain ⟨rfl, hlast⟩ := List.append_inj' hh rfl
      cases hlast
      exact he
    · rw [List.concat_eq_append, ← List.cons_append, ← List.append_assoc] at hh
      obtain ⟨hh, -⟩ := List.append_inj' hh rfl
      exact hall before e' after hh

end History

end Machine
