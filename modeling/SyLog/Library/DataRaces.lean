import SyLog.Library.LockOrder

set_option autoImplicit false

/-! # Locks against data races

Two threads **race** for a variable when both are about to access it and one of them writes. A
variable is guarded by a lock, which is held at every access and held exclusively at every write, or
by never being written. When all programs that are started respect the guard of a variable, no two
threads ever race for it, whatever the schedule (`not_races_of_reachable`). -/

universe u v w y

namespace LockOrder

variable {τ : Type u} {α : Type v} {κ : Type w} {ξ : Type y}

/-- The next thing that thread `t` does is an access to `z`. -/
def State.Accesses (s : State τ α κ ξ) (t : τ) (z : ξ) (mode : Mode) : Prop :=
  ∃ rest, s.todo t = .access z mode :: rest

/-- Two threads are about to access `z`, and one of them to write it. -/
def State.Races (s : State τ α κ ξ) (z : ξ) : Prop :=
  ∃ t u mode, t ≠ u ∧ s.Accesses t z .exclusive ∧ s.Accesses u z mode

/-! ## Guards -/

/-- What keeps threads apart at a variable. -/
inductive Guard (α : Type v) where
  | lock (l : α)
  /-- nobody writes it -/
  | constant

/-- A thread that holds `held` may access the variable. -/
def Guard.Allows (held : List (α × Mode)) (mode : Mode) : Guard α → Prop
  | .lock l => ∃ mode', (l, mode') ∈ held ∧ (mode = .exclusive → mode' = .exclusive)
  | .constant => mode = .shared

/-- A thread that holds `held` accesses `z` in the program only as `g` allows, takes no lock that it
    holds, and holds nothing in the end. -/
def Guard.Respected (g : Guard α) (z : ξ) : List (α × Mode) → List (Op τ α κ ξ) → Prop
  | held, [] => held = []
  | held, .acquire l mode :: p =>
    l ∉ held.map Prod.fst ∧ Respected g z ((l, mode) :: held) p
  | held, .release :: p => Respected g z held.tail p
  | held, .signal _ :: p => Respected g z held p
  | held, .poll _ :: p => Respected g z held p
  | held, .join _ :: p => Respected g z held p
  | held, .access z' mode :: p => (z' = z → g.Allows held mode) ∧ Respected g z held p
  | held, .act :: p => Respected g z held p

/-- A piece of a program that respects the guard and gives back what it takes. -/
def Guard.Sound (g : Guard α) (z : ξ) (held : List (α × Mode)) (p : List (Op τ α κ ξ)) : Prop :=
  ∀ q, g.Respected z held q → g.Respected z held (p ++ q)

variable {g : Guard α} {z : ξ} {held : List (α × Mode)} {p q : List (Op τ α κ ξ)}

theorem Guard.Sound.respected (h : g.Sound z [] p) : g.Respected z [] p := by
  have hp : g.Respected z [] (p ++ []) := h [] rfl
  rwa [List.append_nil] at hp

@[simp] theorem Guard.sound_nil : g.Sound z held ([] : List (Op τ α κ ξ)) := fun _ h => h

@[simp] theorem Guard.sound_act : g.Sound z held (.act :: p) ↔ g.Sound z held p := Iff.rfl

@[simp] theorem Guard.sound_signal {c : κ} :
    g.Sound z held (.signal c :: p) ↔ g.Sound z held p := Iff.rfl

@[simp] theorem Guard.sound_poll {c : κ} :
    g.Sound z held (.poll c :: p) ↔ g.Sound z held p := Iff.rfl

@[simp] theorem Guard.sound_join {t : τ} :
    g.Sound z held (.join t :: p) ↔ g.Sound z held p := Iff.rfl

/-- There is always a way to the end. -/
theorem Guard.exists_respected (g : Guard α) (z : ξ) (held : List (α × Mode)) :
    ∃ q : List (Op τ α κ ξ), g.Respected z held q := by
  induction held with
  | nil => exact ⟨[], rfl⟩
  | cons k held ih =>
      obtain ⟨q, hq⟩ := ih
      exact ⟨.release :: q, hq⟩

@[simp] theorem Guard.sound_access {z' : ξ} {mode : Mode} :
    g.Sound z held (.access z' mode :: p) ↔
      (z' = z → g.Allows held mode) ∧ g.Sound z held p := by
  constructor
  · intro h
    obtain ⟨q, hq⟩ := g.exists_respected (τ := τ) (κ := κ) z held
    exact ⟨(h q hq).1, fun r hr => (h r hr).2⟩
  · exact fun h q hq => ⟨h.1, h.2 q hq⟩

theorem Guard.Sound.append (hp : g.Sound z held p) (hq : g.Sound z held q) :
    g.Sound z held (p ++ q) := by
  intro r hr
  rw [List.append_assoc]
  exact hp _ (hq r hr)

theorem Guard.Sound.flatMap {β : Type*} {f : β → List (Op τ α κ ξ)} {ys : List β}
    (h : ∀ b ∈ ys, g.Sound z held (f b)) : g.Sound z held (ys.flatMap f) := by
  induction ys with
  | nil => exact Guard.sound_nil
  | cons b ys ih =>
      rw [List.flatMap_cons]
      exact (h b List.mem_cons_self).append (ih (fun c hc => h c (List.mem_cons_of_mem b hc)))

theorem Guard.Sound.guarded {l : α} {mode : Mode} {body : List (Op τ α κ ξ)}
    (hl : l ∉ held.map Prod.fst) (h : g.Sound z ((l, mode) :: held) body) :
    g.Sound z held (guarded l mode body) := by
  intro r hr
  rw [LockOrder.guarded, List.cons_append, List.append_assoc]
  exact ⟨hl, h (.release :: r) hr⟩

/-! ## The invariant -/

/-- Every thread respects the guard in what it has left to do, the locks list it as their holder,
    and nobody else holds a lock that is held exclusively. -/
structure GuardInv (g : Guard α) (z : ξ) (s : State τ α κ ξ) : Prop where
  respected : ∀ t, ∃ held, held.map Prod.fst = s.held t ∧ (s.held t).Nodup ∧
    (∀ k ∈ held, (t, k.2) ∈ s.holders k.1) ∧ g.Respected z held (s.todo t)
  excludes : ∀ l t u mode, (t, .exclusive) ∈ s.holders l → (u, mode) ∈ s.holders l → u = t

theorem guardInv_init : GuardInv g z ({} : State τ α κ ξ) where
  respected _ := ⟨[], rfl, List.nodup_nil, fun _ h => absurd h List.not_mem_nil, rfl⟩
  excludes _ _ _ _ h := absurd h List.not_mem_nil

variable {s s' : State τ α κ ξ} {t : τ}

/-- **Guarded variables are free of races.** -/
theorem GuardInv.not_races (h : GuardInv g z s) : ¬ s.Races z := by
  rintro ⟨t, u, mode, htu, ⟨rest, ht⟩, ⟨rest', hu⟩⟩
  obtain ⟨held, -, -, hheld, hresp⟩ := h.respected t
  obtain ⟨held', -, -, hheld', hresp'⟩ := h.respected u
  rw [ht] at hresp
  rw [hu] at hresp'
  have hwrite : g.Allows held .exclusive := hresp.1 rfl
  have haccess : g.Allows held' mode := hresp'.1 rfl
  cases g with
  | constant => exact absurd hwrite (by simp [Guard.Allows])
  | lock l =>
      obtain ⟨m, hm, hexcl⟩ := hwrite
      obtain rfl := hexcl rfl
      obtain ⟨m', hm', -⟩ := haccess
      exact htu (h.excludes l t u m' (hheld _ hm) (hheld' _ hm')).symm

/-- Thread `t` moves and the others stay where they are. -/
theorem GuardInv.move (h : GuardInv g z s)
    (hothers : ∀ i, i ≠ t → s'.todo i = s.todo i ∧ s'.held i = s.held i ∧
      ∀ l mode, (i, mode) ∈ s.holders l → (i, mode) ∈ s'.holders l)
    (hself : ∃ held, held.map Prod.fst = s'.held t ∧ (s'.held t).Nodup ∧
      (∀ k ∈ held, (t, k.2) ∈ s'.holders k.1) ∧ g.Respected z held (s'.todo t))
    (hexcludes : ∀ l u v mode, (u, .exclusive) ∈ s'.holders l → (v, mode) ∈ s'.holders l → v = u) :
    GuardInv g z s' where
  respected := by
    intro i
    by_cases hit : i = t
    · exact hit ▸ hself
    · obtain ⟨held, hlocks, hnodup, hheld, hresp⟩ := h.respected i
      obtain ⟨htodo, hsame, hholders⟩ := hothers i hit
      rw [htodo, hsame]
      exact ⟨held, hlocks, hnodup, fun k hk => hholders k.1 k.2 (hheld k hk), hresp⟩
  excludes := hexcludes

section Semantics

variable [DecidableEq τ] [DecidableEq α]

omit [DecidableEq α] in
/-- The operations that neither take nor release anything. -/
theorem GuardInv.pass (h : GuardInv g z s) (signals : List κ) {rest : List (Op τ α κ ξ)}
    (hlocks : held.map Prod.fst = s.held t) (hnodup : (s.held t).Nodup)
    (hheld : ∀ k ∈ held, (t, k.2) ∈ s.holders k.1) (hresp : g.Respected z held rest) :
    GuardInv g z ({ s with signalled := signals }.setTodo t rest) := by
  refine h.move (t := t) (fun i hit => ⟨Function.update_of_ne hit _ _, rfl, fun _ _ hi => hi⟩)
    ⟨held, hlocks, hnodup, hheld, ?_⟩ h.excludes
  simpa [State.setTodo] using hresp

theorem GuardInv.acquire (h : GuardInv g z s) {l : α} {mode : Mode} {rest : List (Op τ α κ ξ)}
    (hfree : available (s.holders l) mode = true)
    (hlocks : held.map Prod.fst = s.held t) (hnodup : (s.held t).Nodup)
    (hheld : ∀ k ∈ held, (t, k.2) ∈ s.holders k.1) (hl : l ∉ held.map Prod.fst)
    (hresp : g.Respected z ((l, mode) :: held) rest) :
    GuardInv g z ({ s with
      held := Function.update s.held t (l :: s.held t)
      holders := Function.update s.holders l ((t, mode) :: s.holders l) }.setTodo t rest) := by
  have hmono : ∀ k u m, (u, m) ∈ s.holders k →
      (u, m) ∈ Function.update s.holders l ((t, mode) :: s.holders l) k := by
    intro k u m hu
    by_cases hkl : k = l
    · subst hkl
      simpa using Or.inr hu
    · rwa [Function.update_of_ne hkl]
  refine h.move (t := t)
    (fun i hit => ⟨Function.update_of_ne hit _ _, Function.update_of_ne hit _ _,
      fun k m => hmono k i m⟩)
    ⟨(l, mode) :: held, by simp [State.setTodo, hlocks], ?_, ?_,
      by simpa [State.setTodo] using hresp⟩ ?_
  · rw [hlocks] at hl
    simpa [State.setTodo] using ⟨hl, hnodup⟩
  · intro k hk
    cases hk with
    | head => simp [State.setTodo]
    | tail _ hk => exact hmono k.1 t k.2 (hheld k hk)
  · intro k u v m hu hv
    simp only [State.setTodo] at hu hv
    by_cases hkl : k = l
    · subst hkl
      rw [Function.update_self] at hu hv
      cases mode with
      | exclusive =>
          -- there was no holder
          have hnil : s.holders k = [] := by simpa [available] using hfree
          rw [hnil, List.mem_singleton] at hu hv
          rw [(Prod.mk.inj hu).1, (Prod.mk.inj hv).1]
      | shared =>
          have hshared : ∀ w ∈ s.holders k, w.2 = .shared := by simpa [available] using hfree
          rcases List.mem_cons.1 hu with heq | hu
          · exact absurd (Prod.mk.inj heq).2 (by simp)
          · exact absurd (hshared _ hu) (by simp)
    · rw [Function.update_of_ne hkl] at hu hv
      exact h.excludes k u v m hu hv

theorem GuardInv.release (h : GuardInv g z s) {k₀ : α × Mode} {locks : List α}
    {rest : List (Op τ α κ ξ)} (hs : s.held t = k₀.1 :: locks) (hlocks : held.map Prod.fst = locks)
    (hnodup : (s.held t).Nodup) (hheld : ∀ k ∈ held, (t, k.2) ∈ s.holders k.1)
    (hresp : g.Respected z held rest) :
    GuardInv g z ({ s with
      held := Function.update s.held t locks
      holders := Function.update s.holders k₀.1
        ((s.holders k₀.1).filter (fun h => h.1 ≠ t)) }.setTodo t rest) := by
  rw [hs, List.nodup_cons] at hnodup
  have hold : ∀ k u m, (u, m) ∈ Function.update s.holders k₀.1
      ((s.holders k₀.1).filter (fun h => h.1 ≠ t)) k → (u, m) ∈ s.holders k := by
    intro k u m hu
    by_cases hk : k = k₀.1
    · subst hk
      rw [Function.update_self] at hu
      exact List.mem_of_mem_filter hu
    · rwa [Function.update_of_ne hk] at hu
  refine h.move (t := t)
    (fun i hit => ⟨Function.update_of_ne hit _ _, Function.update_of_ne hit _ _, ?_⟩)
    ⟨held, by simpa [State.setTodo] using hlocks, by simpa [State.setTodo] using hnodup.2, ?_,
      by simpa [State.setTodo] using hresp⟩
    (fun k u v m hu hv => h.excludes k u v m (hold k u _ hu) (hold k v m hv))
  · intro k m hi
    simp only [State.setTodo]
    by_cases hk : k = k₀.1
    · subst hk
      simpa [hit] using hi
    · rwa [Function.update_of_ne hk]
  · intro k hk
    -- the lock that goes is not among the others
    have hne : k.1 ≠ k₀.1 := by
      intro heq
      have hmem : k.1 ∈ locks := hlocks ▸ List.mem_map_of_mem hk
      exact hnodup.1 (heq ▸ hmem)
    simpa [State.setTodo, hne] using hheld k hk

omit [DecidableEq α] in
/-- A thread at its end starts a program that respects the guard. -/
theorem GuardInv.start (h : GuardInv g z s) (hidle : s.todo t = []) (hp : g.Respected z [] p) :
    GuardInv g z (s.setTodo t p) := by
  obtain ⟨held, hlocks, -, -, hresp⟩ := h.respected t
  rw [hidle] at hresp
  obtain rfl : held = [] := hresp
  refine h.move (t := t) (fun i hit => ⟨Function.update_of_ne hit _ _, rfl, fun _ _ hi => hi⟩)
    ⟨[], hlocks, ?_, fun _ hk => absurd hk List.not_mem_nil, ?_⟩ h.excludes
  · simp [State.setTodo, ← hlocks]
  · simpa [State.setTodo] using hp

theorem GuardInv.perform (h : GuardInv g z s) {op : Op τ α κ ξ} {rest : List (Op τ α κ ξ)}
    (htodo : s.todo t = op :: rest) (hstep : s.perform t op = some s') :
    GuardInv g z (s'.setTodo t rest) := by
  obtain ⟨held, hlocks, hnodup, hheld, hresp⟩ := h.respected t
  rw [htodo] at hresp
  cases op with
  | acquire l mode =>
      simp only [State.perform] at hstep
      split at hstep
      · next hfree =>
          obtain rfl := Option.some.inj hstep
          exact h.acquire hfree hlocks hnodup hheld hresp.1 hresp.2
      · exact absurd hstep (by simp)
  | release =>
      simp only [State.perform] at hstep
      cases held with
      | nil =>
          have hnone : s.held t = [] := hlocks.symm
          rw [hnone] at hstep
          exact absurd hstep (by simp)
      | cons k held =>
          have hs : s.held t = k.1 :: held.map Prod.fst := hlocks.symm
          rw [hs] at hstep
          obtain rfl := Option.some.inj hstep
          exact h.release hs rfl hnodup (fun k hk => hheld k (List.mem_cons_of_mem _ hk)) hresp
  | signal c =>
      obtain rfl := Option.some.inj hstep
      exact h.pass (c :: s.signalled) hlocks hnodup hheld hresp
  | poll c =>
      obtain rfl := Option.some.inj hstep
      exact h.pass s.signalled hlocks hnodup hheld hresp
  | join u =>
      simp only [State.perform] at hstep
      split at hstep
      · obtain rfl := Option.some.inj hstep
        exact h.pass s.signalled hlocks hnodup hheld hresp
      · exact absurd hstep (by simp)
  | access z' mode =>
      obtain rfl := Option.some.inj hstep
      exact h.pass s.signalled hlocks hnodup hheld hresp.2
  | act =>
      obtain rfl := Option.some.inj hstep
      exact h.pass s.signalled hlocks hnodup hheld hresp

/-- Every program that is started respects the guard. -/
def Step.Respects (g : Guard α) (z : ξ) : Step τ α κ ξ → Prop
  | .start _ p => g.Respected z [] p
  | .advance _ => True

theorem GuardInv.next (h : GuardInv g z s) {l : Step τ α κ ξ} (hl : l.Respects g z)
    (hstep : machine.next s l = some s') : GuardInv g z s' := by
  cases l with
  | start t p =>
      simp only [machine] at hstep
      split at hstep
      · next hidle =>
          obtain rfl := Option.some.inj hstep
          exact h.start (List.isEmpty_iff.1 hidle) hl
      · exact absurd hstep (by simp)
  | advance t =>
      simp only [machine, State.advance] at hstep
      cases htodo : s.todo t with
      | nil => simp [htodo] at hstep
      | cons op rest =>
          rw [htodo] at hstep
          obtain ⟨s₁, hs₁, rfl⟩ := Option.map_eq_some_iff.1 hstep
          exact h.perform htodo hs₁

/-- **No races.** Where every program that is started respects the guard of a variable, no two
    threads race for it. -/
theorem not_races_of_reachable {ok : State τ α κ ξ → Step τ α κ ξ → Prop}
    (hok : ∀ s l, ok s l → l.Respects g z) (hs : machine.ReachableBy ok s) : ¬ s.Races z := by
  refine GuardInv.not_races (g := g) (hs.invariant (I := GuardInv g z) ?_ ?_)
  · rintro s rfl
    exact guardInv_init
  · exact fun s l s' h hl hstep => h.next (hok s l hl) hstep

end Semantics

end LockOrder
