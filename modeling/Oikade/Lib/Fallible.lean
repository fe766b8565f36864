/-
  Computations in `Except` that succeed: what a bind, a `mapM` and a `foldlM` over a list did when
  the result is `.ok`. The loops of a program that stop at the first error are of the last two
  forms.
-/
import Mathlib.Data.List.Basic

namespace Fallible

variable {ε α β : Type}

theorem bind_ok {x : Except ε α} {f : α → Except ε β} {b : β} :
    (x >>= f) = .ok b ↔ ∃ a, x = .ok a ∧ f a = .ok b := by
  cases x <;> simp [bind, Except.bind]

theorem bind_error {x : Except ε α} {f : α → Except ε β} {e : ε} :
    (x >>= f) = .error e ↔ x = .error e ∨ ∃ a, x = .ok a ∧ f a = .error e := by
  cases x <;> simp [bind, Except.bind]

theorem mapError_ok {δ : Type} {x : Except ε α} {f : ε → δ} {a : α} :
    x.mapError f = .ok a ↔ x = .ok a := by
  cases x <;> simp [Except.mapError]

/-- A check that throws, in front of the rest of a `do` block. -/
theorem check_ok {p : Prop} [Decidable p] {e : ε} {f : PUnit → Except ε β} {b : β} :
    (if p then throw e >>= f else f ⟨⟩) = .ok b ↔ ¬p ∧ f ⟨⟩ = .ok b := by
  by_cases h : p
  · simp [h, throw, throwThe, MonadExceptOf.throw, bind, Except.bind]
  · simp [h]

section Map

variable {f : α → Except ε β} {as : List α} {bs : List β}

theorem mapM_cons_ok {a : α} : (a :: as).mapM f = .ok bs ↔
    ∃ b bs', f a = .ok b ∧ as.mapM f = .ok bs' ∧ bs = b :: bs' := by
  rw [List.mapM_cons, bind_ok]
  constructor
  · rintro ⟨b, hb, h⟩
    obtain ⟨bs', hbs, h⟩ := bind_ok.mp h
    exact ⟨b, bs', hb, hbs, (Except.ok.inj h).symm⟩
  · rintro ⟨b, bs', hb, hbs, rfl⟩
    exact ⟨b, hb, bind_ok.mpr ⟨bs', hbs, rfl⟩⟩

theorem mapM_mem_left (h : as.mapM f = .ok bs) {a : α} (ha : a ∈ as) : ∃ b ∈ bs, f a = .ok b := by
  induction as generalizing bs with
  | nil => simp at ha
  | cons a' as ih =>
    obtain ⟨b, bs', hb, hbs, rfl⟩ := mapM_cons_ok.mp h
    rcases List.mem_cons.mp ha with rfl | ha
    · exact ⟨b, List.mem_cons_self, hb⟩
    · obtain ⟨b', hm, hb'⟩ := ih hbs ha
      exact ⟨b', List.mem_cons_of_mem _ hm, hb'⟩

theorem mapM_mem_right (h : as.mapM f = .ok bs) {b : β} (hb : b ∈ bs) : ∃ a ∈ as, f a = .ok b := by
  induction as generalizing bs with
  | nil =>
    rw [List.mapM_nil] at h
    cases Except.ok.inj h
    simp at hb
  | cons a as ih =>
    obtain ⟨b', bs', hb', hbs, rfl⟩ := mapM_cons_ok.mp h
    rcases List.mem_cons.mp hb with rfl | hb
    · exact ⟨a, List.mem_cons_self, hb'⟩
    · obtain ⟨a', hm, ha'⟩ := ih hbs hb
      exact ⟨a', List.mem_cons_of_mem _ hm, ha'⟩

theorem mapM_of_forall (h : ∀ a ∈ as, ∃ b, f a = .ok b) : ∃ bs, as.mapM f = .ok bs := by
  induction as with
  | nil => exact ⟨[], rfl⟩
  | cons a as ih =>
    rw [List.forall_mem_cons] at h
    obtain ⟨b, hb⟩ := h.1
    obtain ⟨bs, hbs⟩ := ih h.2
    exact ⟨b :: bs, mapM_cons_ok.mpr ⟨b, bs, hb, hbs, rfl⟩⟩

/-- What each element keeps, the list keeps. -/
theorem mapM_map {γ : Type} {p : α → γ} {q : β → γ} (hpq : ∀ a b, f a = .ok b → q b = p a)
    (h : as.mapM f = .ok bs) : bs.map q = as.map p := by
  induction as generalizing bs with
  | nil =>
    rw [List.mapM_nil] at h
    cases Except.ok.inj h
    rfl
  | cons a as ih =>
    obtain ⟨b, bs', hb, hbs, rfl⟩ := mapM_cons_ok.mp h
    rw [List.map_cons, List.map_cons, hpq a b hb, ih hbs]

end Map

/-- The invariant of a loop, about the elements that are done. -/
theorem foldlM_ok {f : β → α → Except ε β} {P : List α → β → Prop}
    (step : ∀ done b a b', P done b → f b a = .ok b' → P (done ++ [a]) b')
    {as : List α} {b b' : β} (h : as.foldlM f b = .ok b') (hb : P [] b) : P as b' := by
  suffices hgen : ∀ done, P done b → P (done ++ as) b' from hgen [] hb
  clear hb
  induction as generalizing b with
  | nil =>
    intro done hdone
    rw [List.foldlM_nil] at h
    cases Except.ok.inj h
    rwa [List.append_nil]
  | cons a as ih =>
    intro done hdone
    rw [List.foldlM_cons, bind_ok] at h
    obtain ⟨b₁, hb₁, h⟩ := h
    have hrest := ih h (done ++ [a]) (step done b a b₁ hdone hb₁)
    rwa [List.append_assoc, List.singleton_append] at hrest

end Fallible
