/-
  Two arguments that a system comes to an end: nobody waits in a circle, and the work is bounded.

  * `exists_unblocked`: processes that wait for a lock only while they hold locks of lower levels.
    One of them waits for nothing, or for a lock that nobody holds.
  * `count_add_rank_le`: a rank that no step of a run raises, and every counted step lowers, bounds
    the number of counted steps, in whatever order they are taken.
-/
import Oikade.Lib.Machine

namespace Machine

section Locks

variable {ι κ : Type}

/-- The lock hierarchy. `waits i` is the lock that process `i` waits for, `holds i` the locks it
    holds, and `level` grows from what is held to what is waited for. -/
theorem exists_unblocked (waits : ι → Option κ) (holds : ι → κ → Prop) (level : κ → Nat) (top : Nat)
    (hlevel : ∀ l, level l ≤ top)
    (horder : ∀ i l l', holds i l → waits i = some l' → level l < level l') (i : ι) :
    ∃ j, waits j = none ∨ ∃ l, waits j = some l ∧ ∀ k, ¬ holds k l := by
  by_contra hnone
  have hblocked : ∀ j, ∃ l, waits j = some l ∧ ∃ k, holds k l := by
    intro j
    cases hw : waits j with
    | none => exact absurd ⟨j, .inl hw⟩ hnone
    | some l =>
      refine ⟨l, rfl, ?_⟩
      by_contra hfree
      exact hnone ⟨j, .inr ⟨l, hw, fun k hk => hfree ⟨k, hk⟩⟩⟩
  -- whoever holds the lock that is waited for waits for one of a higher level
  have hclimb : ∀ n, ∃ j l, waits j = some l ∧ n ≤ level l := by
    intro n
    induction n with
    | zero =>
      obtain ⟨l, hl, -⟩ := hblocked i
      exact ⟨i, l, hl, Nat.zero_le _⟩
    | succ n ih =>
      obtain ⟨j, l, hl, hn⟩ := ih
      obtain ⟨l', hl', k, hk⟩ := hblocked j
      rw [hl, Option.some.injEq] at hl'
      subst hl'
      obtain ⟨l', hl', -⟩ := hblocked k
      have hlt := horder k l l' hk hl'
      exact ⟨k, l', hl', by omega⟩
  obtain ⟨j, l, -, hn⟩ := hclimb (top + 1)
  have hle := hlevel l
  omega

end Locks

section Rank

variable {σ α : Type} {step : σ → α → Option σ}

/-- The counted steps of a run and what is left of the rank. -/
theorem count_add_rank_le {P : σ → Prop} {ok : α → Prop} (counted : α → Prop)
    [DecidablePred counted] (rank : σ → Nat)
    (hstep : ∀ s a s', P s → ok a → step s a = some s' →
      P s' ∧ rank s' ≤ rank s ∧ (counted a → rank s' < rank s))
    {s s' : σ} {as : List α} (hs : P s) (hok : ∀ a ∈ as, ok a) (h : run step s as = some s') :
    as.countP (fun a => decide (counted a)) + rank s' ≤ rank s := by
  induction as generalizing s with
  | nil =>
    rw [run_nil, Option.some.injEq] at h
    simp [h]
  | cons a as ih =>
    obtain ⟨t, ht, h⟩ := run_cons_eq_some.mp h
    rw [List.forall_mem_cons] at hok
    obtain ⟨hP, hle, hlt⟩ := hstep s a t hs hok.1 ht
    have hrest := ih hP hok.2 h
    rw [List.countP_cons]
    by_cases hc : counted a
    · have := hlt hc
      simp only [hc, decide_true, if_true]
      omega
    · simp only [hc, decide_false, Bool.false_eq_true, if_false]
      omega

end Rank

end Machine
