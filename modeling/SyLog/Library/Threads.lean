import Mathlib.Data.Set.Card

set_option autoImplicit false

/-! # Counting threads

A family of threads assigns to each thread the phase it is in. When only finitely many threads are
not idle one can count those in a set of phases, and a step of one thread changes the count by what
it leaves and what it enters. -/

universe u v

namespace Threads

variable {τ : Type u} {φ : Type v} {f : τ → φ} {idle : φ}

/-- How many threads are in a phase with `P`. -/
noncomputable def count (P : φ → Prop) (f : τ → φ) : Nat := {i | P (f i)}.ncard

/-- All but finitely many threads are idle. -/
def FewBusy (idle : φ) (f : τ → φ) : Prop := {i | f i ≠ idle}.Finite

theorem fewBusy_const : FewBusy idle (fun _ : τ => idle) := by
  simp [FewBusy]

theorem FewBusy.finite {P : φ → Prop} (h : FewBusy idle f) (hP : ¬ P idle) :
    {i | P (f i)}.Finite := by
  refine Set.Finite.subset h (fun i hi => ?_)
  rintro (hidle : f i = idle)
  exact hP (hidle ▸ hi)

theorem count_eq_zero {P : φ → Prop} (h : ∀ i, ¬ P (f i)) : count P f = 0 := by
  have hempty : {i | P (f i)} = ∅ := Set.eq_empty_of_forall_notMem h
  rw [count, hempty, Set.ncard_empty]

theorem count_pos {P : φ → Prop} (h : FewBusy idle f) (hP : ¬ P idle) {i : τ} (hi : P (f i)) :
    0 < count P f :=
  (Set.ncard_pos (h.finite hP)).2 ⟨i, hi⟩

section Update

variable [DecidableEq τ] (t : τ) (b : φ)

theorem FewBusy.update (h : FewBusy idle f) : FewBusy idle (Function.update f t b) := by
  refine Set.Finite.subset (Set.Finite.insert t h) (fun i hi => ?_)
  by_cases hit : i = t
  · exact Or.inl hit
  · exact Or.inr (by simpa [hit] using hi)

/-- **One thread moves.** The count loses the phase that it leaves and gains the one it enters. -/
theorem FewBusy.count_update (h : FewBusy idle f) {P : φ → Prop} [DecidablePred P]
    (hP : ¬ P idle) :
    count P (Function.update f t b) + (if P (f t) then 1 else 0)
      = count P f + (if P b then 1 else 0) := by
  -- both sets are the other threads, with or without thread `t`
  have hothers : ∀ g : τ → φ, (∀ i, i ≠ t → g i = f i) →
      count P g = ({i | P (f i)} \ {t}).ncard + (if P (g t) then 1 else 0) := by
    intro g hg
    have hfin : ({i | P (f i)} \ {t}).Finite := (h.finite hP).sdiff
    by_cases ht : P (g t)
    · have hset : {i | P (g i)} = insert t ({i | P (f i)} \ {t}) := by
        ext i
        by_cases hit : i = t
        · simp [hit, ht]
        · simp [hit, hg i hit]
      rw [count, hset, Set.ncard_insert_of_notMem (by simp) hfin, if_pos ht]
    · have hset : {i | P (g i)} = {i | P (f i)} \ {t} := by
        ext i
        by_cases hit : i = t
        · simp [hit, ht]
        · simp [hit, hg i hit]
      rw [count, hset, if_neg ht, Nat.add_zero]
  rw [hothers (Function.update f t b) (fun i hit => by simp [hit]), hothers f (fun _ _ => rfl),
    Function.update_self]
  omega

end Update

end Threads
