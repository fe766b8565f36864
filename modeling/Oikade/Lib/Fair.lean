/-
  Infinite runs of a step function, and what must happen in the fair ones.

  `Behaves step ρ as`: action `as n` leads from state `ρ n` to state `ρ (n + 1)`. A process is given
  by the actions that are its moves in each state. A run is fair to it (`Fair`) if the process moves
  again and again, unless there is a time after which it cannot: strong fairness.

  * `invariant_of_behaves`: what every step keeps holds throughout.
  * `eventually_of_rank`: a rank that no step raises and every move of a fair process lowers reaches
    the goal, if the process is never blocked for good before that.
  * `extend`: a finite run, and an idle action for ever after it.
-/
import Oikade.Lib.Machine
import Mathlib.Data.List.GetD
import Mathlib.Data.Nat.Init

namespace Machine

variable {σ α : Type}

/-- The states and the actions of an infinite run. -/
def Behaves (step : σ → α → Option σ) (ρ : Nat → σ) (as : Nat → α) : Prop :=
  ∀ n, step (ρ n) (as n) = some (ρ (n + 1))

/-- A process can move. -/
def Enabled (step : σ → α → Option σ) (moves : σ → α → Prop) (s : σ) : Prop :=
  ∃ a, moves s a ∧ (step s a).isSome = true

/-- A process that can move again and again does so. -/
def Fair (step : σ → α → Option σ) (moves : σ → α → Prop) (ρ : Nat → σ) (as : Nat → α) : Prop :=
  (∀ n, ∃ m, n ≤ m ∧ Enabled step moves (ρ m)) → ∀ n, ∃ m, n ≤ m ∧ moves (ρ m) (as m)

section Behaviour

variable {step : σ → α → Option σ} {ρ : Nat → σ} {as : Nat → α} {moves : σ → α → Prop}

theorem invariant_of_behaves {P : σ → Prop} (hstep : ∀ s a s', P s → step s a = some s' → P s')
    (h : Behaves step ρ as) {n : Nat} (hn : P (ρ n)) {m : Nat} (hm : n ≤ m) : P (ρ m) := by
  induction m, hm using Nat.le_induction with
  | base => exact hn
  | succ m _ ih => exact hstep _ _ _ ih (h m)

/-- Before the goal is reached no step raises the rank, the moves of the process lower it, and the
    process can always move again. -/
theorem eventually_of_rank (goal : σ → Prop) (rank : σ → Nat) (hfair : Fair step moves ρ as) {n : Nat}
    (hle : ∀ m, n ≤ m → ¬ goal (ρ m) → goal (ρ (m + 1)) ∨ rank (ρ (m + 1)) ≤ rank (ρ m))
    (hlt : ∀ m, n ≤ m → ¬ goal (ρ m) → moves (ρ m) (as m) →
      goal (ρ (m + 1)) ∨ rank (ρ (m + 1)) < rank (ρ m))
    (henabled : (∀ m, n ≤ m → ¬ goal (ρ m)) →
      ∀ m, n ≤ m → ∃ m', m ≤ m' ∧ Enabled step moves (ρ m')) :
    ∃ m, n ≤ m ∧ goal (ρ m) := by
  by_contra hnever
  have hno : ∀ m, n ≤ m → ¬ goal (ρ m) := fun m hm hg => hnever ⟨m, hm, hg⟩
  -- from any time on, the rank gets below each of its values
  have hdown : ∀ m, n ≤ m → ∃ m', n ≤ m' ∧ rank (ρ m') < rank (ρ m) := by
    intro m hm
    obtain ⟨m', hm', hmove⟩ := hfair (fun i => by
      obtain ⟨j, hj, he⟩ := henabled hno (max n i) (Nat.le_max_left _ _)
      exact ⟨j, Nat.le_trans (Nat.le_max_right _ _) hj, he⟩) m
    have hkeep : ∀ j, m ≤ j → rank (ρ j) ≤ rank (ρ m) := by
      intro j hj
      induction j, hj using Nat.le_induction with
      | base => exact Nat.le_refl _
      | succ j hj ih =>
        obtain hg | hr := hle j (Nat.le_trans hm hj) (hno j (Nat.le_trans hm hj))
        · exact absurd hg (hno (j + 1) (by omega))
        · exact Nat.le_trans hr ih
    have hn' : n ≤ m' := Nat.le_trans hm hm'
    obtain hg | hr := hlt m' hn' (hno m' hn') hmove
    · exact absurd hg (hno (m' + 1) (by omega))
    · exact ⟨m' + 1, by omega, Nat.lt_of_lt_of_le hr (hkeep m' hm')⟩
  have hall : ∀ r m, n ≤ m → rank (ρ m) = r → False := by
    intro r
    induction r using Nat.strongRecOn with
    | _ r ih =>
      intro m hm hr
      obtain ⟨m', hm', hlt'⟩ := hdown m hm
      exact ih _ (hr ▸ hlt') m' hm' rfl
  exact hall _ n (Nat.le_refl n) rfl

/-- The states of a finite run, and of one that idles after it. -/
def extend (step : σ → α → Option σ) (s : σ) (as : List α) (n : Nat) : σ :=
  (run step s (as.take n)).getD s

section Extend

variable {s s' : σ} {bs : List α} {idle : α}

theorem extend_of_le (hrun : run step s bs = some s') {n : Nat} (hn : bs.length ≤ n) :
    extend step s bs n = s' := by
  rw [extend, List.take_of_length_le hn, hrun]
  rfl

theorem behaves_extend (hrun : run step s bs = some s') (hidle : step s' idle = some s') :
    Behaves step (extend step s bs) fun n => bs.getD n idle := by
  intro n
  dsimp only
  by_cases hn : n < bs.length
  · rw [← List.take_append_drop (n + 1) bs, run_append_eq_some] at hrun
    obtain ⟨t', hrun', -⟩ := hrun
    have hsucc : extend step s bs (n + 1) = t' := by
      rw [extend, hrun']
      rfl
    rw [List.take_add_one, List.getElem?_eq_getElem hn] at hrun'
    obtain ⟨t, ht, hstep⟩ := run_snoc_eq_some.mp hrun'
    have hcur : extend step s bs n = t := by
      rw [extend, ht]
      rfl
    rw [hcur, hsucc, List.getD_eq_getElem _ _ hn]
    exact hstep
  · have hn := Nat.le_of_not_lt hn
    rw [extend_of_le hrun hn, extend_of_le hrun (Nat.le_succ_of_le hn), List.getD_eq_default _ _ hn]
    exact hidle

/-- A process that cannot move at the end is not treated unfairly. -/
theorem fair_extend (hrun : run step s bs = some s') (hstuck : ¬ Enabled step moves s') :
    Fair step moves (extend step s bs) as := by
  intro henabled
  obtain ⟨m, hm, he⟩ := henabled bs.length
  rw [extend_of_le hrun hm] at he
  exact absurd he hstuck

end Extend

end Behaviour

end Machine
