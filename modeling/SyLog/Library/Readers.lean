import Mathlib.Logic.Function.Basic

set_option autoImplicit false

/-! # Readers of replaceable cells

A cell holds a value, and a reader has taken a copy of the value of some cell. The copy is current
while the cell still holds it. Readers come and go without harm; what may leave a reader behind is a
write, and it does so precisely when somebody reads the cell that is written. -/

universe u v w

namespace Readers

variable {τ : Type u} {κ : Type v} {ν : Type w} {cell cell' : κ → ν}
  {holds holds' : τ → Option (κ × ν)}

/-- Every reader holds what its cell holds. -/
def Current (cell : κ → ν) (holds : τ → Option (κ × ν)) : Prop :=
  ∀ t k v, holds t = some (k, v) → cell k = v

/-- Readers may leave, and cells that nobody reads may change. -/
theorem Current.mono (h : Current cell holds)
    (hholds : ∀ t, holds' t = none ∨ holds' t = holds t)
    (hcell : ∀ t k v, holds t = some (k, v) → cell' k = cell k) : Current cell' holds' := by
  intro t k v hheld
  rcases hholds t with hnone | hsame
  · exact absurd (hheld.symm.trans hnone) (by simp)
  · have hold : holds t = some (k, v) := hsame.symm.trans hheld
    exact (hcell t k v hold).trans (h t k v hold)

section Update

/-- A new reader takes the present value. -/
theorem Current.read [DecidableEq τ] (h : Current cell holds) (t : τ) (k : κ) :
    Current cell (Function.update holds t (some (k, cell k))) := by
  intro i k' v hheld
  by_cases hit : i = t
  · subst hit
    rw [Function.update_self] at hheld
    obtain ⟨rfl, rfl⟩ := Prod.mk.inj (Option.some.inj hheld)
    rfl
  · rw [Function.update_of_ne hit] at hheld
    exact h i k' v hheld

/-- **A write leaves no reader behind** precisely when nobody reads the cell, provided that it
    changes the cell. -/
theorem Current.write_iff [DecidableEq κ] (h : Current cell holds) {k : κ} {v : ν}
    (hnew : v ≠ cell k) :
    Current (Function.update cell k v) holds ↔ ∀ t w, holds t ≠ some (k, w) := by
  constructor
  · intro hcurrent t w hheld
    have hv : v = w := by simpa using hcurrent t k w hheld
    exact hnew (hv.trans (h t k w hheld).symm)
  · intro hfree
    refine h.mono (fun _ => Or.inr rfl) (fun t k' w hheld => Function.update_of_ne ?_ _ _)
    rintro rfl
    exact hfree t w hheld

end Update

end Readers
