import Mathlib

/-!
# Transition systems

Steps between states that cause events, the runs that they make up, and the two ways in which the
development argues about runs: what every step preserves holds at the end of every run, and a state
that every step of some kind brings nearer to a goal can reach it. The last part is about systems of
several threads, whose states are a family of which a step changes one member: counting the members
of a kind before and after such a change.
-/

namespace CLib

/-- Steps one after another, with their events in order. -/
inductive Runs {σ ε : Type} (step : σ → List ε → σ → Prop) (s : σ) : List ε → σ → Prop
  | refl : Runs step s [] s
  | tail {e t e' u} : Runs step s e t → step t e' u → Runs step s (e ++ e') u

namespace Runs

variable {σ ε : Type} {step : σ → List ε → σ → Prop} {s t u : σ} {e e' : List ε}

/-- What every step preserves holds at the end. -/
theorem induct (P : List ε → σ → Prop) (h : Runs step s e t) (hs : P [] s)
    (hstep : ∀ e t e' u, P e t → step t e' u → P (e ++ e') u) : P e t := by
  induction h with
  | refl => exact hs
  | tail _ hlast ih => exact hstep _ _ _ _ ih hlast

/-- A run of one step. -/
theorem single (h : step s e t) : Runs step s e t := by
  simpa using Runs.refl.tail h

/-- One run after another. -/
theorem trans (h : Runs step s e t) (h' : Runs step t e' u) : Runs step s (e ++ e') u := by
  induction h' with
  | refl => simpa using h
  | tail _ hlast ih =>
    rw [← List.append_assoc]
    exact ih.tail hlast

/-- A run of steps is a run of any steps that include them. -/
theorem mono {step' : σ → List ε → σ → Prop} (h : Runs step s e t)
    (hstep : ∀ s e t, step s e t → step' s e t) : Runs step' s e t := by
  induction h with
  | refl => exact .refl
  | tail _ hlast ih => exact ih.tail (hstep _ _ _ hlast)

/-- A goal is reached when, as long as it is not, some step keeps what is known and brings a measure
down. -/
theorem exists_of_measure (P goal : σ → Prop) (μ : σ → ℕ)
    (hstep : ∀ s, P s → ¬goal s → ∃ e t, step s e t ∧ P t ∧ μ t < μ s) (hs : P s) :
    ∃ e t, Runs step s e t ∧ P t ∧ goal t := by
  induction hn : μ s using Nat.strong_induction_on generalizing s with
  | _ n ih =>
    by_cases hgoal : goal s
    · exact ⟨[], s, .refl, hs, hgoal⟩
    · obtain ⟨e, t, hfirst, ht, hlt⟩ := hstep s hs hgoal
      obtain ⟨e', u, hrest, hu, hgoal'⟩ := ih (μ t) (hn ▸ hlt) ht rfl
      exact ⟨e ++ e', u, (single hfirst).trans hrest, hu, hgoal'⟩

end Runs

/-! ## Families of threads -/

section Families

variable {ι τ : Type} [Fintype ι]

/-- How many members of a family are of a kind. -/
def count (p : ι → τ → Prop) [∀ i a, Decidable (p i a)] (f : ι → τ) : ℕ :=
  (Finset.univ.filter fun i => p i (f i)).card

variable {p : ι → τ → Prop} [∀ i a, Decidable (p i a)] {f : ι → τ} {i : ι} {a : τ}

/-- A kind without members. -/
theorem count_eq_zero : count p f = 0 ↔ ∀ i, ¬p i (f i) := by
  rw [count, Finset.card_eq_zero, Finset.filter_eq_empty_iff]
  simp

/-- More members of a wider kind. -/
theorem count_mono {q : ι → τ → Prop} [∀ i a, Decidable (q i a)]
    (h : ∀ i, p i (f i) → q i (f i)) : count p f ≤ count q f :=
  Finset.card_le_card fun i hi => by
    rw [Finset.mem_filter] at hi ⊢
    exact ⟨hi.1, h i hi.2⟩

/-- Strictly more, when some member is of the wider kind only. -/
theorem count_lt {q : ι → τ → Prop} [∀ i a, Decidable (q i a)]
    (h : ∀ i, p i (f i) → q i (f i)) {j : ι} (hnot : ¬p j (f j)) (hj : q j (f j)) :
    count p f < count q f := by
  refine Finset.card_lt_card ⟨fun i hi => ?_, fun hsub => hnot ?_⟩
  · rw [Finset.mem_filter] at hi ⊢
    exact ⟨hi.1, h i hi.2⟩
  · exact (Finset.mem_filter.mp (hsub (Finset.mem_filter.mpr ⟨Finset.mem_univ j, hj⟩))).2

variable [DecidableEq ι]

/-- A member takes its own part in the count, before a change and after it. -/
theorem count_update :
    count p (Function.update f i a) + (if p i (f i) then 1 else 0) =
      count p f + (if p i a then 1 else 0) := by
  have hcount (g : ι → τ) : count p g = ∑ j, if p j (g j) then 1 else 0 := by
    rw [count, Finset.card_filter]
  rw [hcount, hcount, ← Finset.add_sum_erase _ _ (Finset.mem_univ i),
    ← Finset.add_sum_erase _ (fun j => if p j (f j) then 1 else 0) (Finset.mem_univ i)]
  have hrest : (∑ j ∈ Finset.univ.erase i, if p j (Function.update f i a j) then 1 else 0) =
      ∑ j ∈ Finset.univ.erase i, if p j (f j) then 1 else 0 := by
    refine Finset.sum_congr rfl fun j hj => ?_
    rw [Function.update_of_ne (Finset.ne_of_mem_erase hj)]
  rw [hrest, Function.update_self]
  ring

/-- A change of one member changes a sum by the change of its part. -/
theorem sum_update (rank : τ → ℕ) :
    (∑ j, rank (Function.update f i a j)) + rank (f i) = (∑ j, rank (f j)) + rank a := by
  rw [← Finset.add_sum_erase _ _ (Finset.mem_univ i),
    ← Finset.add_sum_erase _ (fun j => rank (f j)) (Finset.mem_univ i), Function.update_self]
  have hrest : (∑ j ∈ Finset.univ.erase i, rank (Function.update f i a j)) =
      ∑ j ∈ Finset.univ.erase i, rank (f j) := by
    refine Finset.sum_congr rfl fun j hj => ?_
    rw [Function.update_of_ne (Finset.ne_of_mem_erase hj)]
  rw [hrest]
  ring

end Families

end CLib
