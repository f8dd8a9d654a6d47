import Mathlib.Data.List.Basic
import Mathlib.Logic.Function.Basic

set_option autoImplicit false

/-! # Labelled machines

A machine is a set of initial states and a partial step function. The label of a step carries every
choice that the environment makes (which thread runs, which call it makes, whether a wait times
out), so a schedule is a list of labels and `run` executes it. Safety statements are about the
states reached by **guarded** runs: runs in which each step satisfies a predicate on the state it is
taken in. The unguarded case is the guard `Machine.free`. -/

universe u v

/-- Initial states and a partial step function; `next s l = none` says that `l` cannot be taken. -/
structure Machine (σ : Type u) (ι : Type v) where
  init : σ → Prop
  next : σ → ι → Option σ

namespace Machine

variable {σ : Type u} {ι : Type v} {M : Machine σ ι} {ok : σ → ι → Prop} {s s' : σ}

/-- The guard that forbids no step. -/
def free : σ → ι → Prop := fun _ _ => True

/-- The states reached by runs in which each step satisfies `ok`. -/
inductive ReachableBy (M : Machine σ ι) (ok : σ → ι → Prop) : σ → Prop
  | init {s : σ} (h : M.init s) : M.ReachableBy ok s
  | step {s s' : σ} {l : ι} (hs : M.ReachableBy ok s) (hok : ok s l) (h : M.next s l = some s') :
      M.ReachableBy ok s'

/-- The states reached by any run. -/
abbrev Reachable (M : Machine σ ι) : σ → Prop := M.ReachableBy free

/-- Execute a schedule; `none` when a label cannot be taken or a step breaks the guard. -/
def runBy (M : Machine σ ι) (ok : σ → ι → Prop) [∀ s l, Decidable (ok s l)] :
    σ → List ι → Option σ
  | s, [] => some s
  | s, l :: ls => if ok s l then (M.next s l).bind (fun s' => M.runBy ok s' ls) else none

/-- Execute a schedule; `none` when a label cannot be taken. -/
def run (M : Machine σ ι) : σ → List ι → Option σ
  | s, [] => some s
  | s, l :: ls => (M.next s l).bind (fun s' => M.run s' ls)

/-! ## Runs reach -/

/-- A schedule that keeps to a stronger guard stays within the guard. -/
theorem ReachableBy.runUnder {ok' : σ → ι → Prop} [∀ s l, Decidable (ok' s l)]
    (hs : M.ReachableBy ok s) (hok : ∀ s l, ok' s l → ok s l) (ls : List ι)
    (h : M.runBy ok' s ls = some s') : M.ReachableBy ok s' := by
  induction ls generalizing s with
  | nil =>
      simp only [Machine.runBy, Option.some.injEq] at h
      exact h ▸ hs
  | cons l ls ih =>
      simp only [Machine.runBy] at h
      split at h
      · next hl =>
          obtain ⟨t, ht, hrest⟩ := Option.bind_eq_some_iff.1 h
          exact ih (hs.step (hok _ _ hl) ht) hrest
      · exact absurd h (by simp)

theorem ReachableBy.runBy [∀ s l, Decidable (ok s l)] (hs : M.ReachableBy ok s) (ls : List ι)
    (h : M.runBy ok s ls = some s') : M.ReachableBy ok s' :=
  hs.runUnder (fun _ _ => id) ls h

theorem ReachableBy.run (hs : M.Reachable s) (ls : List ι) (h : M.run s ls = some s') :
    M.Reachable s' := by
  induction ls generalizing s with
  | nil =>
      simp only [Machine.run, Option.some.injEq] at h
      exact h ▸ hs
  | cons l ls ih =>
      obtain ⟨t, ht, hrest⟩ := Option.bind_eq_some_iff.1 h
      exact ih (hs.step trivial ht) hrest

/-- Schedules compose. -/
theorem run_append {t : σ} {ls ls' : List ι} (h : M.run s ls = some t)
    (h' : M.run t ls' = some s') : M.run s (ls ++ ls') = some s' := by
  induction ls generalizing s with
  | nil =>
      simp only [Machine.run, Option.some.injEq] at h
      exact h ▸ h'
  | cons l ls ih =>
      obtain ⟨u, hu, hrest⟩ := Option.bind_eq_some_iff.1 h
      rw [List.cons_append, Machine.run, hu]
      exact ih hrest

/-! ## Induction -/

/-- **Invariant rule.** A property of the initial states that each guarded step preserves holds in
    every state that guarded runs reach. -/
theorem ReachableBy.invariant {I : σ → Prop} (hinit : ∀ s, M.init s → I s)
    (hstep : ∀ s l s', I s → ok s l → M.next s l = some s' → I s') (hs : M.ReachableBy ok s) :
    I s := by
  induction hs with
  | init h => exact hinit _ h
  | step _ hok h ih => exact hstep _ _ _ ih hok h

/-- A property that the steps with certain labels preserve holds at the end of any schedule of such
    labels that starts in it. -/
theorem run_preserves_on {I : σ → Prop} (allowed : ι → Prop)
    (hstep : ∀ s l s', allowed l → I s → M.next s l = some s' → I s') {ls : List ι}
    (hls : ∀ l ∈ ls, allowed l) (hs : I s) (h : M.run s ls = some s') : I s' := by
  induction ls generalizing s with
  | nil =>
      simp only [Machine.run, Option.some.injEq] at h
      exact h ▸ hs
  | cons l ls ih =>
      obtain ⟨t, ht, hrest⟩ := Option.bind_eq_some_iff.1 h
      obtain ⟨hl, hls⟩ := List.forall_mem_cons.1 hls
      exact ih hls (hstep _ _ _ hl hs ht) hrest

/-- A property that every step preserves holds at the end of any schedule that starts in it. -/
theorem run_preserves {I : σ → Prop} (hstep : ∀ s l s', I s → M.next s l = some s' → I s')
    {ls : List ι} (hs : I s) (h : M.run s ls = some s') : I s' :=
  run_preserves_on (fun _ => True) (fun _ _ _ _ => hstep _ _ _) (fun _ _ => trivial) hs h

/-- **Projection rule.** Each step of `M` is a step of `N`, or none where `proj` forgets it; then a
    schedule of `M` is, with the forgotten labels left out, a schedule of `N`. -/
theorem run_project {τ κ : Type*} {N : Machine τ κ} {R : σ → τ → Prop} (proj : ι → Option κ)
    (hskip : ∀ s t l s', R s t → M.next s l = some s' → proj l = none → R s' t)
    (hstep : ∀ s t l k s', R s t → M.next s l = some s' → proj l = some k →
      ∃ t', N.next t k = some t' ∧ R s' t')
    {t : τ} {ls : List ι} (hr : R s t) (h : M.run s ls = some s') :
    ∃ t', N.run t (ls.filterMap proj) = some t' ∧ R s' t' := by
  induction ls generalizing s t with
  | nil =>
      simp only [Machine.run, Option.some.injEq] at h
      exact ⟨t, rfl, h ▸ hr⟩
  | cons l ls ih =>
      obtain ⟨s₁, hs₁, hrest⟩ := Option.bind_eq_some_iff.1 h
      cases hl : proj l with
      | none =>
          obtain ⟨t', ht', hr'⟩ := ih (hskip _ _ _ _ hr hs₁ hl) hrest
          exact ⟨t', by rw [List.filterMap_cons_none hl, ht'], hr'⟩
      | some k =>
          obtain ⟨t₁, ht₁, hr₁⟩ := hstep _ _ _ _ _ hr hs₁ hl
          obtain ⟨t', ht', hr'⟩ := ih hr₁ hrest
          refine ⟨t', ?_, hr'⟩
          rw [List.filterMap_cons_some hl, Machine.run, ht₁]
          exact ht'

/-! ## Families of threads -/

/-- Some thread had `P`, thread `t` moves to phase `b`, and each thread that had `P` now has `P'`
    unless thread `t` has brought about `Q`: then `Q` holds or some thread has `P'`. -/
theorem exists_update_or {τ φ : Type*} [DecidableEq τ] (P P' : φ → Prop) {f : τ → φ} {Q : Prop}
    {t : τ} {b : φ} (h : ∃ i, P (f i)) (hself : P (f t) → P' b ∨ Q)
    (hothers : ∀ i, i ≠ t → P (f i) → P' (f i)) :
    Q ∨ ∃ i, P' (Function.update f t b i) := by
  obtain ⟨i, hi⟩ := h
  by_cases hit : i = t
  · subst hit
    rcases hself hi with hb | hq
    · exact Or.inr ⟨i, by simpa using hb⟩
    · exact Or.inl hq
  · exact Or.inr ⟨i, by simpa [hit] using hothers i hit hi⟩

end Machine
