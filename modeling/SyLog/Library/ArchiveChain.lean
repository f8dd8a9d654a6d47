import Mathlib.Data.List.Basic
import Mathlib.Logic.Function.Basic

set_option autoImplicit false

/-! # A chain of archives

Files by name, and a chain of them: `name 0` is the file in use, `name 1` the newest archive,
`name k` the oldest. Shifting the chain renames each file to the next name, the oldest first, so
that only what lay under the last name can be lost. The contents are lists over any type: of bytes,
or of the records that somebody wrote. -/

universe u v

/-- Regular files by name; `none` where there is no file. -/
abbrev Files (ν : Type u) (α : Type v) := ν → Option (List α)

namespace Files

variable {ν : Type u} {α : Type v} [DecidableEq ν]

/-- A missing file has no content. -/
def content (fs : Files ν α) (n : ν) : List α := (fs n).getD []

/-- Create the file or replace what is in it. -/
def store (fs : Files ν α) (n : ν) (data : List α) : Files ν α :=
  Function.update fs n (some data)

/-- Add at the end of the file, which is created if it is missing. -/
def append (fs : Files ν α) (n : ν) (data : List α) : Files ν α :=
  fs.store n (fs.content n ++ data)

/-- `rename(src, dst)`: replaces `dst`, and fails without effect where there is no `src`. -/
def rename (fs : Files ν α) (src dst : ν) : Files ν α :=
  match fs src with
  | none => fs
  | some data => Function.update (Function.update fs src none) dst (some data)

@[simp] theorem store_self (fs : Files ν α) (n : ν) (data : List α) :
    fs.store n data n = some data := by
  simp [store]

@[simp] theorem store_of_ne (fs : Files ν α) {n m : ν} (data : List α) (h : m ≠ n) :
    fs.store n data m = fs m := by
  simp [store, h]

theorem store_store (fs : Files ν α) (n : ν) (data data' : List α) :
    (fs.store n data).store n data' = fs.store n data' := by
  simp [store]

theorem store_content (fs : Files ν α) (n : ν) (h : (fs n).isSome) :
    fs.store n (fs.content n) = fs := by
  obtain ⟨data, hdata⟩ := Option.isSome_iff_exists.1 h
  funext m
  by_cases hm : m = n
  · subst hm
    simp [content, hdata]
  · simp [hm]

@[simp] theorem content_store (fs : Files ν α) (n : ν) (data : List α) :
    (fs.store n data).content n = data := by
  simp [content]

theorem append_append (fs : Files ν α) (n : ν) (data data' : List α) :
    (fs.append n data).append n data' = fs.append n (data ++ data') := by
  simp [append, store_store]

theorem append_nil (fs : Files ν α) (n : ν) (h : (fs n).isSome) : fs.append n [] = fs := by
  rw [append, List.append_nil, store_content fs n h]

theorem rename_of_none {fs : Files ν α} {src : ν} (dst : ν) (h : fs src = none) :
    fs.rename src dst = fs := by
  simp [rename, h]

theorem rename_of_some {fs : Files ν α} {src : ν} (dst : ν) {data : List α}
    (h : fs src = some data) :
    fs.rename src dst = Function.update (Function.update fs src none) dst (some data) := by
  simp [rename, h]

/-- A renaming concerns its two names only. -/
theorem rename_of_ne (fs : Files ν α) {src dst n : ν} (hsrc : n ≠ src) (hdst : n ≠ dst) :
    fs.rename src dst n = fs n := by
  cases h : fs src with
  | none => rw [rename_of_none dst h]
  | some data => simp [rename_of_some dst h, hsrc, hdst]

/-! ## The chain -/

variable {name : ℕ → ν}

/-- The contents from `name k`, the oldest, to `name 0`, the newest. -/
def chain (name : ℕ → ν) : ℕ → Files ν α → List α
  | 0, fs => fs.content (name 0)
  | k + 1, fs => fs.content (name (k + 1)) ++ chain name k fs

/-- Rename `name (k - 1)` to `name k`, then the one before it, down to `name 0`. -/
def shiftDown (name : ℕ → ν) : ℕ → Files ν α → Files ν α
  | 0, fs => fs
  | k + 1, fs => shiftDown name k (fs.rename (name k) (name (k + 1)))

/-- Shift the chain and start its first file anew. -/
def rotate (name : ℕ → ν) (k : ℕ) (fs : Files ν α) : Files ν α :=
  (shiftDown name k fs).store (name 0) []

omit [DecidableEq ν] in
theorem chain_congr {fs fs' : Files ν α} (k : ℕ) (h : ∀ i ≤ k, fs (name i) = fs' (name i)) :
    chain name k fs = chain name k fs' := by
  induction k with
  | zero => simp [chain, content, h 0 (Nat.le_refl 0)]
  | succ k ih =>
      have hk : fs.content (name (k + 1)) = fs'.content (name (k + 1)) := by
        simp [content, h (k + 1) (Nat.le_refl _)]
      rw [chain, chain, hk, ih (fun i hi => h i (by omega))]

/-- Shifting concerns the names of the chain only. -/
theorem shiftDown_of_ne (k : ℕ) (fs : Files ν α) {n : ν} (h : ∀ i ≤ k, n ≠ name i) :
    shiftDown name k fs n = fs n := by
  induction k generalizing fs with
  | zero => rfl
  | succ k ih =>
      rw [shiftDown, ih _ (fun i hi => h i (by omega)),
        rename_of_ne fs (h k (by omega)) (h (k + 1) (Nat.le_refl _))]

theorem content_shiftDown_succ (hname : Function.Injective name) (k : ℕ) (fs : Files ν α) :
    (shiftDown name k fs).content (name (k + 1)) = fs.content (name (k + 1)) := by
  have hne : ∀ i ≤ k, name (k + 1) ≠ name i := by
    intro i hi heq
    have := hname heq
    omega
  rw [content, shiftDown_of_ne k fs hne, content]

/-- The last file of the chain gets the next name, where its content still comes first. -/
theorem chain_rename (hname : Function.Injective name) (k : ℕ) {fs : Files ν α} {data : List α}
    (h : fs (name k) = some data) :
    data ++ chain name k (fs.rename (name k) (name (k + 1))) = chain name k fs := by
  have hne : name k ≠ name (k + 1) := fun heq => by
    have := hname heq
    omega
  have hfree : (fs.rename (name k) (name (k + 1))).content (name k) = [] := by
    simp [rename_of_some _ h, content, hne]
  have hk : fs.content (name k) = data := by simp [content, h]
  cases k with
  | zero => rw [chain, chain, hfree, hk, List.append_nil]
  | succ k =>
      have hrest : chain name k (fs.rename (name (k + 1)) (name (k + 2))) = chain name k fs := by
        refine chain_congr k (fun i hi => rename_of_ne fs (fun heq => ?_) (fun heq => ?_)) <;>
        · have := hname heq
          omega
      rw [chain, chain, hfree, hk, List.nil_append, hrest]

theorem rename_source (hname : Function.Injective name) (k : ℕ) {fs : Files ν α} {data : List α}
    (h : fs (name k) = some data) : fs.rename (name k) (name (k + 1)) (name k) = none := by
  have hne : name k ≠ name (k + 1) := fun heq => by
    have := hname heq
    omega
  simp [rename_of_some _ h, hne]

theorem content_rename_target (k : ℕ) {fs : Files ν α} {data : List α}
    (h : fs (name k) = some data) :
    (fs.rename (name k) (name (k + 1))).content (name (k + 1)) = data := by
  simp [rename_of_some _ h, content]

/-- Where the file under the last name is missing, shifting moves content within the chain. -/
theorem chain_shiftDown_of_none (hname : Function.Injective name) (k : ℕ) (fs : Files ν α)
    (h : fs (name k) = none) : chain name k (shiftDown name k fs) = chain name k fs := by
  induction k generalizing fs with
  | zero => rfl
  | succ k ih =>
      have hk : fs.content (name (k + 1)) = [] := by simp [content, h]
      rw [shiftDown, chain, chain, content_shiftDown_succ hname, hk, List.nil_append]
      cases hsrc : fs (name k) with
      | none => rw [rename_of_none _ hsrc, ih fs hsrc, hk, List.nil_append]
      | some data =>
          -- the file has moved up, so its old name is free for the rest of the loop
          rw [ih _ (rename_source hname k hsrc), content_rename_target k hsrc,
            chain_rename hname k hsrc]

/-- **What a shift loses.** Only the content under the last name, and only where there is a file
    to take its place. -/
theorem chain_shiftDown (hname : Function.Injective name) (k : ℕ) (fs : Files ν α) :
    chain name (k + 1) (shiftDown name (k + 1) fs) =
      (if (fs (name k)).isSome then [] else fs.content (name (k + 1))) ++ chain name k fs := by
  rw [shiftDown, chain, content_shiftDown_succ hname]
  cases hsrc : fs (name k) with
  | none =>
      rw [rename_of_none _ hsrc, chain_shiftDown_of_none hname k fs hsrc]
      simp
  | some data =>
      rw [chain_shiftDown_of_none hname k _ (rename_source hname k hsrc),
        content_rename_target k hsrc, chain_rename hname k hsrc]
      simp

/-- A shift leaves no file under the first name. -/
theorem shiftDown_first (hname : Function.Injective name) (k : ℕ) (fs : Files ν α) :
    shiftDown name (k + 1) fs (name 0) = none := by
  induction k generalizing fs with
  | zero =>
      rw [shiftDown, shiftDown]
      cases hsrc : fs (name 0) with
      | none => rw [rename_of_none _ hsrc, hsrc]
      | some data => exact rename_source hname 0 hsrc
  | succ k ih => exact ih _

/-- **What a rotation loses**, with `k + 1` archives. -/
theorem chain_rotate (hname : Function.Injective name) (k : ℕ) (fs : Files ν α) :
    chain name (k + 1) (rotate name (k + 1) fs) =
      (if (fs (name k)).isSome then [] else fs.content (name (k + 1))) ++ chain name k fs := by
  rw [rotate, ← chain_shiftDown hname]
  have hfirst := shiftDown_first hname k fs
  generalize shiftDown name (k + 1) fs = shifted at hfirst
  suffices h : ∀ j, chain name j (shifted.store (name 0) []) = chain name j shifted by
    exact h (k + 1)
  intro j
  induction j with
  | zero => simp [chain, content, hfirst]
  | succ j ih =>
      have hne : name (j + 1) ≠ name 0 := fun heq => by
        have := hname heq
        omega
      rw [chain, chain, ih, content, store_of_ne _ _ hne, content]

/-- Every file of `fs'` is a file of `fs`, under whatever name, or an empty one. -/
def MovedFrom (fs fs' : Files ν α) : Prop :=
  ∀ n data, fs' n = some data → data = [] ∨ ∃ m, fs m = some data

theorem rename_movedFrom (fs : Files ν α) (src dst : ν) : MovedFrom fs (fs.rename src dst) := by
  intro n data hdata
  right
  cases hsrc : fs src with
  | none => exact ⟨n, by rwa [rename_of_none _ hsrc] at hdata⟩
  | some moved =>
      rw [rename_of_some _ hsrc] at hdata
      by_cases hdst : n = dst
      · subst hdst
        exact ⟨src, by simpa [hsrc] using hdata⟩
      · rw [Function.update_of_ne hdst] at hdata
        by_cases hn : n = src
        · rw [hn, Function.update_self] at hdata
          cases hdata
        · exact ⟨n, by simpa [hn] using hdata⟩

/-- A rotation moves files, and what it makes anew is empty. -/
theorem rotate_movedFrom (name : ℕ → ν) (k : ℕ) (fs : Files ν α) :
    MovedFrom fs (rotate name k fs) := by
  have hshift : MovedFrom fs (shiftDown name k fs) := by
    induction k generalizing fs with
    | zero => exact fun n data hdata => Or.inr ⟨n, hdata⟩
    | succ k ih =>
        intro n data hdata
        rcases ih _ n data hdata with hnil | ⟨m, hm⟩
        · exact Or.inl hnil
        · exact rename_movedFrom fs _ _ m data hm
  intro n data hdata
  by_cases hn : n = name 0
  · subst hn
    exact Or.inl (by simpa [rotate] using hdata.symm)
  · exact hshift n data (by rwa [rotate, store_of_ne _ _ hn] at hdata)

/-- The chain ends with the file in use, which can be replaced there. -/
theorem chain_store (hname : Function.Injective name) (k : ℕ) (fs : Files ν α) :
    ∃ archives, chain name k fs = archives ++ fs.content (name 0) ∧
      ∀ data, chain name k (fs.store (name 0) data) = archives ++ data := by
  induction k with
  | zero => exact ⟨[], rfl, fun data => content_store fs (name 0) data⟩
  | succ k ih =>
      obtain ⟨archives, hchain, hstore⟩ := ih
      have hne : name (k + 1) ≠ name 0 := fun heq => by
        have := hname heq
        omega
      refine ⟨fs.content (name (k + 1)) ++ archives, ?_, fun data => ?_⟩
      · rw [chain, hchain, List.append_assoc]
      · rw [chain, hstore, content, store_of_ne _ _ hne, content, List.append_assoc]

/-- Appending to the file in use appends to the chain. -/
theorem chain_append (hname : Function.Injective name) (k : ℕ) (fs : Files ν α) (data : List α) :
    chain name k (fs.append (name 0) data) = chain name k fs ++ data := by
  obtain ⟨archives, hchain, hstore⟩ := chain_store hname k fs
  rw [append, hstore, hchain, List.append_assoc]

/-- Whatever the number of archives, a rotation only loses the oldest end of the chain. -/
theorem chain_rotate_suffix (hname : Function.Injective name) (k : ℕ) (fs : Files ν α) :
    chain name k (rotate name k fs) <:+ chain name k fs := by
  cases k with
  | zero =>
      rw [chain, rotate, content_store]
      exact List.nil_suffix
  | succ k =>
      rw [chain_rotate hname, chain]
      split
      · exact List.suffix_append _ _
      · exact List.suffix_refl _

/-! ## Shifts some of whose renamings fail -/

/-- `shiftDown` where the renaming of `name i` is without effect if `fails i`. -/
def tryShiftDown (name : ℕ → ν) (fails : ℕ → Bool) : ℕ → Files ν α → Files ν α
  | 0, fs => fs
  | k + 1, fs =>
      tryShiftDown name fails k (if fails k then fs else fs.rename (name k) (name (k + 1)))

def tryRotate (name : ℕ → ν) (fails : ℕ → Bool) (k : ℕ) (fs : Files ν α) : Files ν α :=
  (tryShiftDown name fails k fs).store (name 0) []

/-- What is under `name i` is not moved away, and its place is taken: the first file is started
    anew, and to any other place the file before it is moved. -/
def Overwritten (name : ℕ → ν) (fails : ℕ → Bool) (k : ℕ) (fs : Files ν α) : ℕ → Prop
  | 0 => fails 0 = true
  | i + 1 => (fs (name i)).isSome ∧ fails i = false ∧ (i + 1 < k → fails (i + 1) = true)

theorem tryShiftDown_of_ne (fails : ℕ → Bool) (k : ℕ) (fs : Files ν α) {n : ν}
    (h : ∀ i ≤ k, n ≠ name i) : tryShiftDown name fails k fs n = fs n := by
  induction k generalizing fs with
  | zero => rfl
  | succ k ih =>
      rw [tryShiftDown, ih _ (fun i hi => h i (by omega))]
      split
      · rfl
      · exact rename_of_ne fs (h k (by omega)) (h (k + 1) (Nat.le_refl _))

/-- One round of the loop, seen from below: only the file under `name k` may be gone. -/
theorem tryShiftDown_round (hname : Function.Injective name) (fails : ℕ → Bool) (k : ℕ)
    (fs : Files ν α) {i : ℕ} (hi : i ≤ k) :
    (if fails k then fs else fs.rename (name k) (name (k + 1))) (name i) =
      if i = k ∧ fails k = false then none else fs (name i) := by
  cases hk : fails k with
  | true => simp
  | false =>
      have htarget : name i ≠ name (k + 1) := fun heq => by
        have := hname heq
        omega
      by_cases hik : i = k
      · subst hik
        cases hsrc : fs (name i) with
        | none => simp [rename_of_none _ hsrc, hsrc]
        | some data => simp [rename_source hname i hsrc]
      · have hsource : name i ≠ name k := fun heq => hik (hname heq)
        simp [hik, rename_of_ne fs hsource htarget]

/-- What lies under any other name after a shift: the file before it if that was moved, or else the
    file that was there unless it was moved itself. -/
theorem tryShiftDown_next (hname : Function.Injective name) (fails : ℕ → Bool) (k : ℕ)
    (fs : Files ν α) {i : ℕ} (hi : i < k) :
    tryShiftDown name fails k fs (name (i + 1)) =
      if (fs (name i)).isSome ∧ fails i = false then fs (name i)
      else if i + 1 < k ∧ fails (i + 1) = false then none else fs (name (i + 1)) := by
  induction k generalizing fs with
  | zero => omega
  | succ k ih =>
      rw [tryShiftDown]
      by_cases hik : i = k
      · -- the last place: the rest of the loop does not concern it
        subst hik
        have hne : ∀ j ≤ i, name (i + 1) ≠ name j := fun j hj heq => by
          have := hname heq
          omega
        rw [tryShiftDown_of_ne fails i _ hne]
        cases hf : fails i with
        | true => simp
        | false =>
            cases hsrc : fs (name i) with
            | none => simp [rename_of_none _ hsrc]
            | some data => simp [rename_of_some _ hsrc]
      · rw [ih _ (by omega), tryShiftDown_round hname fails k fs (by omega),
          tryShiftDown_round hname fails k fs (by omega)]
        by_cases hlast : i + 1 = k
        · subst hlast
          simp
        · have hlt : i + 1 < k := by omega
          simp [hik, hlast, hlt, Nat.lt_succ_of_lt hlt]

/-- **What is left after a rotation with failures**: the empty file in use, and every content that
    is not overwritten. -/
theorem tryRotate_holds_iff (hname : Function.Injective name) (fails : ℕ → Bool) (k : ℕ)
    (fs : Files ν α) (data : List α) :
    (∃ p ≤ k + 1, tryRotate name fails (k + 1) fs (name p) = some data) ↔
      data = [] ∨
        ∃ i ≤ k + 1, fs (name i) = some data ∧ ¬ Overwritten name fails (k + 1) fs i := by
  have hfirst : tryRotate name fails (k + 1) fs (name 0) = some [] := store_self _ _ _
  have hnext : ∀ i < k + 1, tryRotate name fails (k + 1) fs (name (i + 1)) =
      if (fs (name i)).isSome ∧ fails i = false then fs (name i)
      else if i + 1 < k + 1 ∧ fails (i + 1) = false then none else fs (name (i + 1)) := by
    intro i hi
    have hne : name (i + 1) ≠ name 0 := fun heq => by
      have := hname heq
      omega
    rw [tryRotate, store_of_ne _ _ hne, tryShiftDown_next hname fails (k + 1) fs hi]
  constructor
  · rintro ⟨p, hp, hdata⟩
    cases p with
    | zero => exact Or.inl (by simpa [hfirst] using hdata.symm)
    | succ i =>
        right
        rw [hnext i (by omega)] at hdata
        split at hdata
        · next h =>
            refine ⟨i, by omega, hdata, ?_⟩
            cases i with
            | zero => simp [Overwritten, h.2]
            | succ i => simp [Overwritten, h.2, Nat.lt_of_succ_le hp]
        · next h =>
            split at hdata
            · cases hdata
            · exact ⟨i + 1, hp, hdata, fun ho => h ⟨ho.1, ho.2.1⟩⟩
  · rintro (rfl | ⟨i, hi, hdata, hkept⟩)
    · exact ⟨0, Nat.zero_le _, hfirst⟩
    by_cases hmoved : i < k + 1 ∧ fails i = false
    · refine ⟨i + 1, by omega, ?_⟩
      rw [hnext i hmoved.1, if_pos ⟨by simp [hdata], hmoved.2⟩, hdata]
    · -- it stays, so it is not the first file, and the file before it stays too
      cases i with
      | zero => exact absurd (by simpa [Overwritten] using hmoved) hkept
      | succ i =>
          have hstays : i + 1 < k + 1 → fails (i + 1) = true := by simpa using hmoved
          refine ⟨i + 1, hi, ?_⟩
          rw [hnext i (by omega), if_neg (fun h => hkept ⟨h.1, h.2, hstays⟩),
            if_neg (fun h => by simp [hstays h.1] at h), hdata]

/-- Without failures it is the plain shift. -/
theorem tryShiftDown_of_none (fails : ℕ → Bool) (h : ∀ i, fails i = false) (k : ℕ)
    (fs : Files ν α) : tryShiftDown name fails k fs = shiftDown name k fs := by
  induction k generalizing fs with
  | zero => rfl
  | succ k ih => simp [tryShiftDown, shiftDown, h, ih]

/-- Whatever fails, content is lost and keeps its order. -/
theorem chain_tryShiftDown_sublist (hname : Function.Injective name) (fails : ℕ → Bool) (k : ℕ)
    (fs : Files ν α) :
    (chain name k (tryShiftDown name fails k fs)).Sublist (chain name k fs) := by
  induction k generalizing fs with
  | zero => exact List.Sublist.refl _
  | succ k ih =>
      have hne : ∀ i ≤ k, name (k + 1) ≠ name i := by
        intro i hi heq
        have := hname heq
        omega
      rw [tryShiftDown, chain, chain, content, tryShiftDown_of_ne fails k _ hne]
      cases hf : fails k with
      | true => exact (ih fs).append_left _
      | false =>
          refine ((ih _).append_left _).trans ?_
          cases hsrc : fs (name k) with
          | none =>
              rw [if_neg (by simp), rename_of_none _ hsrc]
              exact List.Sublist.refl _
          | some data =>
              have hmoved := content_rename_target k hsrc
              rw [content] at hmoved
              rw [if_neg (by simp), hmoved, chain_rename hname k hsrc]
              exact List.sublist_append_right _ _

theorem chain_store_nil_sublist (hname : Function.Injective name) (k : ℕ) (fs : Files ν α) :
    (chain name k (fs.store (name 0) [])).Sublist (chain name k fs) := by
  obtain ⟨archives, hchain, hstore⟩ := chain_store hname k fs
  rw [hstore, hchain, List.append_nil]
  exact List.sublist_append_left _ _

/-! ## Shifts that are cut short -/

/-- A shift of which only the renamings of `name (k - 1)` down to `name m` are done. -/
def shiftDownTo (name : ℕ → ν) (m k : ℕ) (fs : Files ν α) : Files ν α :=
  tryShiftDown name (fun i => decide (i < m)) k fs

theorem shiftDownTo_of_le {m k : ℕ} (h : k ≤ m) (fs : Files ν α) :
    shiftDownTo name m k fs = fs := by
  induction k generalizing fs with
  | zero => rfl
  | succ k ih =>
      have hk : k < m := h
      rw [shiftDownTo, tryShiftDown, if_pos (by simpa using hk)]
      exact ih (Nat.le_of_lt hk) fs

theorem shiftDownTo_succ {m k : ℕ} (h : m ≤ k) (fs : Files ν α) :
    shiftDownTo name m (k + 1) fs = shiftDownTo name m k (fs.rename (name k) (name (k + 1))) := by
  rw [shiftDownTo, tryShiftDown, if_neg (by simpa using h)]
  rfl

theorem content_shiftDownTo_succ (hname : Function.Injective name) (m k : ℕ) (fs : Files ν α) :
    (shiftDownTo name m k fs).content (name (k + 1)) = fs.content (name (k + 1)) := by
  have hne : ∀ i ≤ k, name (k + 1) ≠ name i := by
    intro i hi heq
    have := hname heq
    omega
  rw [content, shiftDownTo, tryShiftDown_of_ne _ k fs hne, content]

/-- Where the file under the last name is missing, a part of a shift moves content within the
    chain. -/
theorem chain_shiftDownTo_of_none (hname : Function.Injective name) (m k : ℕ) (fs : Files ν α)
    (h : fs (name k) = none) : chain name k (shiftDownTo name m k fs) = chain name k fs := by
  induction k generalizing fs with
  | zero => rfl
  | succ k ih =>
      by_cases hmk : m ≤ k
      · have hk : fs.content (name (k + 1)) = [] := by simp [content, h]
        rw [shiftDownTo_succ hmk, chain, chain, content_shiftDownTo_succ hname, hk,
          List.nil_append]
        cases hsrc : fs (name k) with
        | none => rw [rename_of_none _ hsrc, ih fs hsrc, hk, List.nil_append]
        | some data =>
            rw [ih _ (rename_source hname k hsrc), content_rename_target k hsrc,
              chain_rename hname k hsrc]
      · rw [shiftDownTo_of_le (by omega)]

/-- The names below `name m` are not concerned. -/
theorem shiftDownTo_of_lt (hname : Function.Injective name) {m i : ℕ} (hi : i < m) (k : ℕ)
    (fs : Files ν α) : shiftDownTo name m k fs (name i) = fs (name i) := by
  induction k generalizing fs with
  | zero => rfl
  | succ k ih =>
      by_cases hmk : m ≤ k
      · have hne : ∀ j, m ≤ j → name i ≠ name j := fun j hj heq => by
          have := hname heq
          omega
        rw [shiftDownTo_succ hmk, ih, rename_of_ne fs (hne k hmk) (hne (k + 1) (by omega))]
      · rw [shiftDownTo_of_le (by omega)]

/-- From `name m` on a file moves to the next name. -/
theorem shiftDownTo_next (hname : Function.Injective name) {m i k : ℕ} (hm : m ≤ i) (hi : i < k)
    {fs : Files ν α} {data : List α} (h : fs (name i) = some data) :
    shiftDownTo name m k fs (name (i + 1)) = some data := by
  rw [shiftDownTo, tryShiftDown_next hname _ k fs hi,
    if_pos ⟨by simp [h], by simpa using hm⟩, h]

/-- **What a part of a shift loses.** At most the content under the last name. -/
theorem chain_shiftDownTo (hname : Function.Injective name) (m k : ℕ) (fs : Files ν α) :
    ∃ out, out ++ chain name k (shiftDownTo name m k fs) = chain name k fs ∧
      (fs (name k) = none → out = []) := by
  cases k with
  | zero => exact ⟨[], rfl, fun _ => rfl⟩
  | succ k =>
      by_cases hmk : m ≤ k
      · rw [shiftDownTo_succ hmk, chain, chain, content_shiftDownTo_succ hname]
        cases hsrc : fs (name k) with
        | none =>
            refine ⟨[], ?_, fun _ => rfl⟩
            rw [rename_of_none _ hsrc, chain_shiftDownTo_of_none hname m k fs hsrc,
              List.nil_append]
        | some data =>
            refine ⟨fs.content (name (k + 1)), ?_, fun h => by simp [content, h]⟩
            rw [chain_shiftDownTo_of_none hname m k _ (rename_source hname k hsrc),
              content_rename_target k hsrc, chain_rename hname k hsrc]
      · exact ⟨[], by rw [shiftDownTo_of_le (by omega), List.nil_append], fun _ => rfl⟩

/-- A rotation moves a file to the next name. -/
theorem rotate_next (hname : Function.Injective name) {i k : ℕ} (hi : i < k) {fs : Files ν α}
    {data : List α} (h : fs (name i) = some data) :
    rotate name k fs (name (i + 1)) = some data := by
  have hne : name (i + 1) ≠ name 0 := fun heq => by
    have := hname heq
    omega
  have hplain : tryShiftDown name (fun i => decide (i < 0)) k fs = shiftDown name k fs :=
    tryShiftDown_of_none _ (by simp) k fs
  rw [rotate, store_of_ne _ _ hne, ← hplain]
  exact shiftDownTo_next hname (Nat.zero_le i) hi h

/-! ## What holds of each file -/

/-- Every file of the chain satisfies `P`. -/
def Each (name : ℕ → ν) (k : ℕ) (P : List α → Prop) (fs : Files ν α) : Prop :=
  ∀ i ≤ k, ∀ data, fs (name i) = some data → P data

variable {P : List α → Prop} {k : ℕ} {fs : Files ν α}

theorem Each.store (h : Each name k P fs) (n : ν) {data : List α} (hdata : P data) :
    Each name k P (fs.store n data) := by
  intro i hi d hd
  by_cases hn : name i = n
  · subst hn
    rw [store_self] at hd
    exact Option.some.inj hd ▸ hdata
  · rw [store_of_ne _ _ hn] at hd
    exact h i hi d hd

theorem Each.rename (h : Each name k P fs) {i : ℕ} (hi : i ≤ k) (dst : ν) :
    Each name k P (fs.rename (name i) dst) := by
  cases hsrc : fs (name i) with
  | none => rwa [rename_of_none _ hsrc]
  | some moved =>
      rw [rename_of_some _ hsrc]
      intro j hj data hdata
      by_cases hdst : name j = dst
      · rw [hdst, Function.update_self] at hdata
        exact Option.some.inj hdata ▸ h i hi moved hsrc
      · rw [Function.update_of_ne hdst] at hdata
        by_cases hj' : name j = name i
        · rw [hj', Function.update_self] at hdata
          cases hdata
        · rw [Function.update_of_ne hj'] at hdata
          exact h j hj data hdata

theorem Each.tryShiftDown (h : Each name k P fs) (fails : ℕ → Bool) {n : ℕ} (hn : n ≤ k) :
    Each name k P (tryShiftDown name fails n fs) := by
  induction n generalizing fs with
  | zero => exact h
  | succ n ih =>
      rw [Files.tryShiftDown]
      split
      · exact ih h (Nat.le_of_succ_le hn)
      · exact ih (h.rename (Nat.le_of_succ_le hn) _) (Nat.le_of_succ_le hn)

theorem Each.shiftDownTo (h : Each name k P fs) (m : ℕ) : Each name k P (shiftDownTo name m k fs) :=
  h.tryShiftDown _ (Nat.le_refl k)

theorem Each.rotate (h : Each name k P fs) (hnil : P []) : Each name k P (rotate name k fs) := by
  rw [Files.rotate, ← tryShiftDown_of_none (fun _ => false) (fun _ => rfl)]
  exact (h.tryShiftDown _ (Nat.le_refl k)).store _ hnil

omit [DecidableEq ν] in
theorem length_chain_le {bound : ℕ} (h : Each name k (fun data => data.length ≤ bound) fs) :
    (chain name k fs).length ≤ (k + 1) * bound := by
  have hfile : ∀ i ≤ k, (fs.content (name i)).length ≤ bound := by
    intro i hi
    cases hdata : fs (name i) with
    | none => simp [content, hdata]
    | some data => simpa [content, hdata] using h i hi data hdata
  clear h
  induction k with
  | zero => simpa [chain] using hfile 0 (Nat.le_refl 0)
  | succ k ih =>
      have hold := hfile (k + 1) (Nat.le_refl _)
      have hrest := ih (fun i hi => hfile i (Nat.le_succ_of_le hi))
      rw [chain, List.length_append, Nat.succ_mul (k + 1)]
      omega

/-- Rotations concern the names of the chain only. -/
theorem rotate_of_ne (k : ℕ) (fs : Files ν α) {n : ν} (h : ∀ i ≤ k, n ≠ name i) :
    rotate name k fs n = fs n := by
  rw [rotate, store_of_ne _ _ (h 0 (Nat.zero_le k)), shiftDown_of_ne k fs h]

theorem shiftDownTo_of_ne (m k : ℕ) (fs : Files ν α) {n : ν} (h : ∀ i ≤ k, n ≠ name i) :
    shiftDownTo name m k fs n = fs n :=
  tryShiftDown_of_ne _ k fs h

/-! ## Records and what they are written as -/

variable {β : Type v}

/-- The files as another content type shows them. -/
def mapContents (f : List α → List β) (fs : Files ν α) : Files ν β := fun n => (fs n).map f

omit [DecidableEq ν] in
theorem content_mapContents (f : List α → List β) (hnil : f [] = []) (fs : Files ν α) (n : ν) :
    (mapContents f fs).content n = f (fs.content n) := by
  cases h : fs n <;> simp [content, mapContents, h, hnil]

theorem store_mapContents (f : List α → List β) (fs : Files ν α) (n : ν) (data : List α) :
    (mapContents f fs).store n (f data) = mapContents f (fs.store n data) := by
  funext m
  by_cases hm : m = n
  · subst hm
    simp [mapContents]
  · simp [mapContents, hm]

theorem append_mapContents (f : List α → List β) (hnil : f [] = [])
    (happend : ∀ x y, f (x ++ y) = f x ++ f y) (fs : Files ν α) (n : ν) (data : List α) :
    (mapContents f fs).append n (f data) = mapContents f (fs.append n data) := by
  rw [append, content_mapContents f hnil, ← happend, store_mapContents, append]

theorem rename_mapContents (f : List α → List β) (fs : Files ν α) (src dst : ν) :
    (mapContents f fs).rename src dst = mapContents f (fs.rename src dst) := by
  cases h : fs src with
  | none => rw [rename_of_none _ h, rename_of_none _ (by simp [mapContents, h])]
  | some data =>
      have hsrc : mapContents f fs src = some (f data) := by simp [mapContents, h]
      rw [rename_of_some _ h, rename_of_some _ hsrc]
      funext m
      by_cases hdst : m = dst
      · subst hdst
        simp [mapContents]
      · by_cases hm : m = src
        · subst hm
          simp [mapContents, hdst]
        · simp [mapContents, hdst, hm]

theorem shiftDown_mapContents (f : List α → List β) (k : ℕ) (fs : Files ν α) :
    shiftDown name k (mapContents f fs) = mapContents f (shiftDown name k fs) := by
  induction k generalizing fs with
  | zero => rfl
  | succ k ih => rw [shiftDown, shiftDown, rename_mapContents, ih]

theorem tryShiftDown_mapContents (f : List α → List β) (fails : ℕ → Bool) (k : ℕ)
    (fs : Files ν α) :
    tryShiftDown name fails k (mapContents f fs)
      = mapContents f (tryShiftDown name fails k fs) := by
  induction k generalizing fs with
  | zero => rfl
  | succ k ih =>
      rw [tryShiftDown, tryShiftDown, rename_mapContents]
      split
      · exact ih fs
      · exact ih _

/-- Rotating the records rotates what they are written as. -/
theorem rotate_mapContents (f : List α → List β) (hnil : f [] = []) (k : ℕ) (fs : Files ν α) :
    rotate name k (mapContents f fs) = mapContents f (rotate name k fs) := by
  rw [rotate, rotate, shiftDown_mapContents, ← store_mapContents, hnil]

omit [DecidableEq ν] in
theorem chain_mapContents (f : List α → List β) (hnil : f [] = [])
    (happend : ∀ x y, f (x ++ y) = f x ++ f y) (k : ℕ) (fs : Files ν α) :
    chain name k (mapContents f fs) = f (chain name k fs) := by
  induction k with
  | zero => rw [chain, chain, content_mapContents f hnil]
  | succ k ih => rw [chain, chain, content_mapContents f hnil, happend, ih]

omit [DecidableEq ν] in
theorem mem_chain {k : ℕ} {fs : Files ν α} {x : α} (h : x ∈ chain name k fs) :
    ∃ i ≤ k, x ∈ fs.content (name i) := by
  induction k with
  | zero => exact ⟨0, Nat.le_refl 0, h⟩
  | succ k ih =>
      rcases List.mem_append.1 h with hlast | hrest
      · exact ⟨k + 1, Nat.le_refl _, hlast⟩
      · obtain ⟨i, hi, hx⟩ := ih hrest
        exact ⟨i, Nat.le_succ_of_le hi, hx⟩

/-- Where a chain is made from the members of `xs`, each of its files is made from some of them. -/
theorem exists_chain_map (hname : Function.Injective name) (f : α → β) (k : ℕ) {xs : List α}
    {fs : Files ν β} (h : chain name k fs = xs.map f) :
    ∃ parts : Files ν α, chain name k parts = xs ∧
      ∀ i ≤ k, fs.content (name i) = (parts.content (name i)).map f := by
  induction k generalizing xs with
  | zero =>
      refine ⟨fun _ => some xs, rfl, fun i hi => ?_⟩
      obtain rfl := Nat.le_zero.1 hi
      exact h
  | succ k ih =>
      obtain ⟨oldest, others, rfl, holdest, hothers⟩ := List.map_eq_append_iff.1 h.symm
      obtain ⟨parts, hparts, hfiles⟩ := ih hothers.symm
      have hne : ∀ i ≤ k, name i ≠ name (k + 1) := fun i hi heq => by
        have := hname heq
        omega
      have hsame : ∀ i ≤ k, parts.store (name (k + 1)) oldest (name i) = parts (name i) :=
        fun i hi => store_of_ne parts oldest (hne i hi)
      refine ⟨parts.store (name (k + 1)) oldest, ?_, fun i hi => ?_⟩
      · rw [chain, content_store, chain_congr k hsame, hparts]
      · rcases Nat.le_succ_iff.1 hi with hi | rfl
        · rw [hfiles i hi, content, content, hsame i hi]
        · rw [content_store, holdest]

end Files
