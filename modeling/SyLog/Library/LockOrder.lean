import Mathlib.Logic.Relation
import Mathlib.Order.WellFounded
import SyLog.Library.Machine

set_option autoImplicit false

/-! # Locks taken in order

Threads run straight-line programs over locks, conditions and each other: they take locks (shared or
exclusive) and give them back in reverse order, signal conditions and wait for them, and join other
threads. Every lock has a rank, every thread a floor below the ranks of the locks it takes, and a
program is **ordered** when it takes locks upwards, joins only threads whose floor lies above what
it holds, and waits for conditions only while it holds nothing.

Ordered programs do not deadlock: the chain of threads that wait for one another ends in a thread
that can go on, whatever the schedule (`Inv.chain_ends`), so that once nobody can go on, whoever is
left waits for a condition and no lock is taken (`Inv.rest`). Threads that do wait for one another
never move again (`deadlock_forever`), and `State.Alone.run` leads to such a state: a thread that
nobody hinders gets to each operation that it `Reaches`. -/

universe u v w x y

namespace LockOrder

inductive Mode where
  | shared
  | exclusive
deriving DecidableEq

/-- What a thread does next, as far as other threads can notice. -/
inductive Op (τ : Type u) (α : Type v) (κ : Type w) (ξ : Type y) where
  | acquire (l : α) (mode : Mode)
  /-- gives back the lock that was taken last -/
  | release
  | signal (c : κ)
  /-- waits; what it waits for may come at any time, and has come for good once `c` is signalled -/
  | poll (c : κ)
  | join (t : τ)
  /-- reads the variable `x`, or writes it, if the mode is exclusive -/
  | access (x : ξ) (mode : Mode)
  | act

variable {τ : Type u} {α : Type v} {κ : Type w} {ρ : Type x} {ξ : Type y}

/-- The body of a scope that holds `l`. -/
def guarded (l : α) (mode : Mode) (body : List (Op τ α κ ξ)) : List (Op τ α κ ξ) :=
  .acquire l mode :: (body ++ [.release])

/-- The piece `p`, on variables that no other thread can reach. -/
def unshared (p : List (Op τ α κ ξ)) : List (Op τ α κ ξ) :=
  p.map fun
    | .access _ _ => .act
    | op => op

@[simp] theorem unshared_nil : unshared ([] : List (Op τ α κ ξ)) = [] := rfl

@[simp] theorem unshared_append (p q : List (Op τ α κ ξ)) :
    unshared (p ++ q) = unshared p ++ unshared q := List.map_append

@[simp] theorem unshared_flatMap {β : Type*} (f : β → List (Op τ α κ ξ)) (ys : List β) :
    unshared (ys.flatMap f) = ys.flatMap (fun b => unshared (f b)) := List.map_flatMap

@[simp] theorem unshared_guarded (l : α) (mode : Mode) (body : List (Op τ α κ ξ)) :
    unshared (guarded l mode body) = guarded l mode (unshared body) := by
  simp [unshared, guarded]

@[simp] theorem unshared_access (z : ξ) (mode : Mode) (p : List (Op τ α κ ξ)) :
    unshared (.access z mode :: p) = .act :: unshared p := rfl

@[simp] theorem unshared_signal (c : κ) (p : List (Op τ α κ ξ)) :
    unshared (.signal c :: p) = .signal c :: unshared p := rfl

@[simp] theorem unshared_join (t : τ) (p : List (Op τ α κ ξ)) :
    unshared (.join t :: p) = .join t :: unshared p := rfl

structure State (τ : Type u) (α : Type v) (κ : Type w) (ξ : Type y) where
  todo : τ → List (Op τ α κ ξ) := fun _ => []
  /-- the locks that a thread holds, the last one first -/
  held : τ → List α := fun _ => []
  holders : α → List (τ × Mode) := fun _ => []
  signalled : List κ := []

inductive Step (τ : Type u) (α : Type v) (κ : Type w) (ξ : Type y) where
  /-- a thread that has nothing to do starts the program `p` -/
  | start (t : τ) (p : List (Op τ α κ ξ))
  | advance (t : τ)

/-- A lock with these holders can be taken. -/
def available (holders : List (τ × Mode)) : Mode → Bool
  | .shared => holders.all (fun h => h.2 = .shared)
  | .exclusive => holders.isEmpty

section Semantics

variable [DecidableEq τ] [DecidableEq α]

/-- The effect of an operation of thread `t`; `none` while it is blocked. -/
def State.perform (s : State τ α κ ξ) (t : τ) : Op τ α κ ξ → Option (State τ α κ ξ)
  | .acquire l mode =>
    if available (s.holders l) mode then
      some { s with
        held := Function.update s.held t (l :: s.held t)
        holders := Function.update s.holders l ((t, mode) :: s.holders l) }
    else none
  | .release =>
    match s.held t with
    | [] => none
    | l :: rest =>
      some { s with
        held := Function.update s.held t rest
        holders := Function.update s.holders l ((s.holders l).filter (fun h => h.1 ≠ t)) }
  | .signal c => some { s with signalled := c :: s.signalled }
  | .poll _ => some s
  | .join u => if (s.todo u).isEmpty then some s else none
  | .access _ _ => some s
  | .act => some s

def State.setTodo (s : State τ α κ ξ) (t : τ) (p : List (Op τ α κ ξ)) : State τ α κ ξ :=
  { s with todo := Function.update s.todo t p }

def State.advance (s : State τ α κ ξ) (t : τ) : Option (State τ α κ ξ) :=
  match s.todo t with
  | [] => none
  | op :: rest => (s.perform t op).map (fun s' => s'.setTodo t rest)

/-- Any number of threads; which programs they start is left to the guard of a run. -/
def machine : Machine (State τ α κ ξ) (Step τ α κ ξ) where
  init s := s = {}
  next s
    | .start t p => if (s.todo t).isEmpty then some (s.setTodo t p) else none
    | .advance t => s.advance t

end Semantics

/-! ## Waiting -/

/-- Thread `t` waits for a condition that nobody has signalled. -/
def State.Polling (s : State τ α κ ξ) (t : τ) : Prop :=
  ∃ c rest, s.todo t = .poll c :: rest ∧ c ∉ s.signalled

/-- Thread `t` can go on, whatever the other threads do or leave undone. -/
def State.Able [DecidableEq τ] [DecidableEq α] (s : State τ α κ ξ) (t : τ) : Prop :=
  (s.advance t).isSome ∧ ¬ s.Polling t

/-- Thread `t` cannot go on before thread `u` has. -/
inductive State.WaitsFor (s : State τ α κ ξ) : τ → τ → Prop
  | lock {t u : τ} {l : α} {mode mode' : Mode} {rest : List (Op τ α κ ξ)}
      (h : s.todo t = .acquire l mode :: rest) (hu : (u, mode') ∈ s.holders l)
      (hmode : mode = .exclusive ∨ mode' = .exclusive) : s.WaitsFor t u
  | join {t u : τ} {rest : List (Op τ α κ ξ)} (h : s.todo t = .join u :: rest)
      (hu : s.todo u ≠ []) : s.WaitsFor t u

theorem available_eq_false_iff {holders : List (τ × Mode)} {mode : Mode} :
    available holders mode = false ↔
      ∃ u mode', (u, mode') ∈ holders ∧ (mode = .exclusive ∨ mode' = .exclusive) := by
  constructor
  · intro h
    cases mode with
    | shared =>
        obtain ⟨⟨u, mode'⟩, hmem, hmode⟩ := List.all_eq_false.1 h
        cases mode' with
        | shared => simp at hmode
        | exclusive => exact ⟨u, .exclusive, hmem, Or.inr rfl⟩
    | exclusive =>
        cases holders with
        | nil => simp [available] at h
        | cons a rest => exact ⟨a.1, a.2, List.mem_cons_self, Or.inl rfl⟩
  · rintro ⟨u, mode', hmem, hmode⟩
    cases mode with
    | shared =>
        obtain rfl := hmode.resolve_left (by simp)
        exact List.all_eq_false.2 ⟨(u, .exclusive), hmem, by simp⟩
    | exclusive =>
        cases holders with
        | nil => exact absurd hmem List.not_mem_nil
        | cons a rest => rfl

/-! ## Ordered programs -/

/-- How locks, threads and conditions are ordered. -/
structure Order (τ : Type u) (α : Type v) (κ : Type w) (ρ : Type x) where
  rank : α → ρ
  /-- below the rank of each lock that the thread takes -/
  floor : τ → ρ
  /-- the conditions that the thread may wait for -/
  polls : τ → κ → Prop

variable [Preorder ρ] (O : Order τ α κ ρ)

/-- Thread `t` keeps to the order in the program `p`, where it holds `held` and has signalled
    `raised` at its beginning, and holds nothing at its end. -/
def Order.Ordered (t : τ) : List α → List κ → List (Op τ α κ ξ) → Prop
  | held, _, [] => held = []
  | held, raised, .acquire l _ :: p =>
    (O.floor t < O.rank l ∧ ∀ k ∈ held, O.rank k < O.rank l) ∧ Ordered t (l :: held) raised p
  | held, raised, .release :: p => held ≠ [] ∧ Ordered t held.tail raised p
  | held, raised, .signal c :: p => Ordered t held (c :: raised) p
  | held, raised, .poll c :: p => (held = [] ∧ O.polls t c) ∧ Ordered t held raised p
  | held, raised, .join u :: p =>
    (O.floor t < O.floor u ∧ (∀ k ∈ held, O.rank k < O.floor u) ∧
      ∀ c, O.polls u c → c ∈ raised) ∧ Ordered t held raised p
  | held, raised, .access _ _ :: p => Ordered t held raised p
  | held, raised, .act :: p => Ordered t held raised p

/-- A piece of a program that keeps to the order and gives back what it takes. -/
def Order.Sound (t : τ) (held : List α) (p : List (Op τ α κ ξ)) : Prop :=
  ∀ raised q, O.Ordered t held raised q → O.Ordered t held raised (p ++ q)

variable {O} {t : τ} {held : List α}

theorem Order.Ordered.mono {raised raised' : List κ} {p : List (Op τ α κ ξ)}
    (h : O.Ordered t held raised p) (hsub : raised ⊆ raised') : O.Ordered t held raised' p := by
  induction p generalizing held raised raised' with
  | nil => exact h
  | cons op p ih =>
      cases op with
      | acquire l mode => exact ⟨h.1, ih h.2 hsub⟩
      | release => exact ⟨h.1, ih h.2 hsub⟩
      | signal c =>
          have hrest : O.Ordered t held (c :: raised) p := h
          exact ih hrest (List.cons_subset_cons c hsub)
      | poll c => exact ⟨h.1, ih h.2 hsub⟩
      | join u => exact ⟨⟨h.1.1, h.1.2.1, fun c hc => hsub (h.1.2.2 c hc)⟩, ih h.2 hsub⟩
      | access z mode =>
          have hrest : O.Ordered t held raised p := h
          exact ih hrest hsub
      | act =>
          have hrest : O.Ordered t held raised p := h
          exact ih hrest hsub

theorem Order.Sound.ordered {p : List (Op τ α κ ξ)} (h : O.Sound t [] p) : O.Ordered t [] [] p := by
  have hp : O.Ordered t [] [] (p ++ []) := h [] [] rfl
  rwa [List.append_nil] at hp

@[simp] theorem Order.sound_nil : O.Sound t held ([] : List (Op τ α κ ξ)) := fun _ _ h => h

@[simp] theorem Order.sound_act : O.Sound t held ([.act] : List (Op τ α κ ξ)) := fun _ _ h => h

@[simp] theorem Order.sound_act_cons {p : List (Op τ α κ ξ)} :
    O.Sound t held (.act :: p) ↔ O.Sound t held p := Iff.rfl

@[simp] theorem Order.sound_access {z : ξ} {mode : Mode} {p : List (Op τ α κ ξ)} :
    O.Sound t held (.access z mode :: p) ↔ O.Sound t held p := Iff.rfl

theorem Order.Sound.append {p q : List (Op τ α κ ξ)} (hp : O.Sound t held p)
    (hq : O.Sound t held q) : O.Sound t held (p ++ q) := by
  intro raised r h
  rw [List.append_assoc]
  exact hp raised _ (hq raised r h)

theorem Order.Sound.flatMap {β : Type*} {f : β → List (Op τ α κ ξ)} {xs : List β}
    (h : ∀ y ∈ xs, O.Sound t held (f y)) : O.Sound t held (xs.flatMap f) := by
  induction xs with
  | nil => exact sound_nil
  | cons y xs ih =>
      rw [List.flatMap_cons]
      exact (h y List.mem_cons_self).append (ih (fun z hz => h z (List.mem_cons_of_mem y hz)))

theorem Order.Sound.guarded {l : α} {mode : Mode} {body : List (Op τ α κ ξ)}
    (hfloor : O.floor t < O.rank l) (hheld : ∀ k ∈ held, O.rank k < O.rank l)
    (h : O.Sound t (l :: held) body) : O.Sound t held (guarded l mode body) := by
  intro raised q hq
  have hbody : O.Ordered t (l :: held) raised (body ++ (.release :: q)) :=
    h raised _ ⟨List.cons_ne_nil l held, hq⟩
  rw [LockOrder.guarded, List.cons_append, List.append_assoc]
  exact ⟨⟨hfloor, hheld⟩, hbody⟩

theorem Order.sound_poll {c : κ} (hc : O.polls t c) :
    O.Sound t [] ([.poll c] : List (Op τ α κ ξ)) :=
  fun _ _ h => ⟨⟨rfl, hc⟩, h⟩

variable (O) in
/-- A piece that keeps to the order and signals `cs`. -/
def Order.Signals (t : τ) (held : List α) (cs : List κ) (p : List (Op τ α κ ξ)) : Prop :=
  ∀ raised q, (∀ raised', raised ⊆ raised' → cs ⊆ raised' → O.Ordered t held raised' q) →
    O.Ordered t held raised (p ++ q)

variable (O) in
/-- A piece that keeps to the order once `cs` are signalled. -/
def Order.SoundAfter (t : τ) (held : List α) (cs : List κ) (p : List (Op τ α κ ξ)) : Prop :=
  ∀ raised q, cs ⊆ raised → O.Ordered t held raised q → O.Ordered t held raised (p ++ q)

theorem Order.Signals.flatMap {β : Type*} {f : β → List (Op τ α κ ξ)} {cs : β → List κ}
    {ys : List β} (h : ∀ y ∈ ys, O.Signals t held (cs y) (f y)) :
    O.Signals t held (ys.flatMap cs) (ys.flatMap f) := by
  induction ys with
  | nil => exact fun raised q hq => hq raised (List.Subset.refl _) (List.nil_subset _)
  | cons y ys ih =>
      intro raised q hq
      rw [List.flatMap_cons, List.append_assoc]
      refine h y List.mem_cons_self raised _ (fun raised₁ hsub₁ hy => ?_)
      refine ih (fun z hz => h z (List.mem_cons_of_mem y hz)) raised₁ q
        (fun raised₂ hsub₂ hys => ?_)
      refine hq raised₂ (List.Subset.trans hsub₁ hsub₂) ?_
      rw [List.flatMap_cons]
      exact List.append_subset.2 ⟨List.Subset.trans hy hsub₂, hys⟩

theorem Order.SoundAfter.flatMap {β : Type*} {f : β → List (Op τ α κ ξ)} {cs : List κ}
    {ys : List β} (h : ∀ y ∈ ys, O.SoundAfter t held cs (f y)) :
    O.SoundAfter t held cs (ys.flatMap f) := by
  induction ys with
  | nil => exact fun _ _ _ hq => hq
  | cons y ys ih =>
      intro raised q hraised hq
      rw [List.flatMap_cons, List.append_assoc]
      refine h y List.mem_cons_self raised _ hraised ?_
      exact ih (fun z hz => h z (List.mem_cons_of_mem y hz)) raised q hraised hq

/-- Signal what the threads wait for, then join them. -/
theorem Order.sound_signal_join {p q : List (Op τ α κ ξ)} {cs : List κ}
    (hp : O.Signals t held cs p) (hq : O.SoundAfter t held cs q) : O.Sound t held (p ++ q) := by
  intro raised r hr
  rw [List.append_assoc]
  exact hp raised _ (fun raised' hsub hcs => hq raised' r hcs (hr.mono hsub))

/-- The order does not look at variables. -/
theorem Order.Sound.unshared {p : List (Op τ α κ ξ)} (h : O.Sound t held p) :
    O.Sound t held (unshared p) := by
  have hsame : ∀ (p q : List (Op τ α κ ξ)) (held : List α) (raised : List κ),
      O.Ordered t held raised (p ++ q) → O.Ordered t held raised (LockOrder.unshared p ++ q) := by
    intro p q
    induction p with
    | nil => exact fun _ _ h => h
    | cons op p ih =>
        intro held raised h
        cases op with
        | acquire l mode => exact ⟨h.1, ih _ _ h.2⟩
        | release => exact ⟨h.1, ih _ _ h.2⟩
        | signal c => exact ih _ (c :: raised) h
        | poll c => exact ⟨h.1, ih _ _ h.2⟩
        | join u => exact ⟨h.1, ih _ _ h.2⟩
        | access z mode => exact ih held raised h
        | act => exact ih held raised h
  exact fun raised q hq => hsame p q held raised (h raised q hq)

/-- A thread waits only for the conditions it may wait for. -/
theorem Order.Ordered.polls {raised : List κ} {p : List (Op τ α κ ξ)} {c : κ}
    (h : O.Ordered t held raised p) (hc : .poll c ∈ p) : O.polls t c := by
  induction p generalizing held raised with
  | nil => exact absurd hc List.not_mem_nil
  | cons op p ih =>
      cases op with
      | poll c' =>
          rcases List.mem_cons.1 hc with heq | hc
          · obtain rfl := Op.poll.inj heq
            exact h.1.2
          · exact ih h.2 hc
      | acquire l mode => exact ih h.2 (by simpa using hc)
      | release => exact ih h.2 (by simpa using hc)
      | signal c' =>
          have hrest : O.Ordered t held (c' :: raised) p := h
          exact ih hrest (by simpa using hc)
      | join u => exact ih h.2 (by simpa using hc)
      | access z mode =>
          have hrest : O.Ordered t held raised p := h
          exact ih hrest (by simpa using hc)
      | act =>
          have hrest : O.Ordered t held raised p := h
          exact ih hrest (by simpa using hc)

/-! ## The invariant -/

variable (O) in
/-- Every thread keeps to the order in what it has left to do, and holds the locks that list it. -/
structure Inv (s : State τ α κ ξ) : Prop where
  ordered : ∀ t, ∃ raised, O.Ordered t (s.held t) raised (s.todo t) ∧ raised ⊆ s.signalled
  holds : ∀ l u mode, (u, mode) ∈ s.holders l → l ∈ s.held u

variable {s s' : State τ α κ ξ}

theorem inv_init : Inv O ({} : State τ α κ ξ) where
  ordered _ := ⟨[], rfl, List.nil_subset _⟩
  holds _ _ _ h := absurd h (by simp)

/-- Thread `t` moves and the others stay where they are. -/
theorem Inv.move (h : Inv O s) (hothers : ∀ i, i ≠ t → s'.todo i = s.todo i ∧ s'.held i = s.held i)
    (hsub : s.signalled ⊆ s'.signalled)
    (hself : ∃ raised, O.Ordered t (s'.held t) raised (s'.todo t) ∧ raised ⊆ s'.signalled)
    (hholds : ∀ l u mode, (u, mode) ∈ s'.holders l → l ∈ s'.held u) : Inv O s' where
  ordered := by
    intro i
    by_cases hit : i = t
    · exact hit ▸ hself
    · obtain ⟨raised, hord, hraised⟩ := h.ordered i
      rw [(hothers i hit).1, (hothers i hit).2]
      exact ⟨raised, hord, List.Subset.trans hraised hsub⟩
  holds := hholds

section Semantics

variable [DecidableEq τ] [DecidableEq α]

omit [DecidableEq α] in
/-- A thread that holds nothing starts an ordered program. -/
theorem Inv.start (h : Inv O s) {p : List (Op τ α κ ξ)} (hidle : s.todo t = [])
    (hp : O.Ordered t [] [] p) : Inv O (s.setTodo t p) := by
  obtain ⟨raised, hord, -⟩ := h.ordered t
  rw [hidle] at hord
  have hheld : s.held t = [] := hord
  refine h.move (t := t) (fun i hit => ⟨Function.update_of_ne hit _ _, rfl⟩)
    (List.Subset.refl _) ⟨[], ?_, List.nil_subset _⟩ h.holds
  simpa [State.setTodo, hheld] using hp

omit [DecidableEq α] in
/-- The operations that neither take nor release anything. -/
theorem Inv.pass (h : Inv O s) (signals : List κ) {raised : List κ} {rest : List (Op τ α κ ξ)}
    (hord : O.Ordered t (s.held t) (signals ++ raised) rest) (hraised : raised ⊆ s.signalled) :
    Inv O ({ s with signalled := signals ++ s.signalled }.setTodo t rest) := by
  refine h.move (t := t) (fun i hit => ⟨Function.update_of_ne hit _ _, rfl⟩)
    (List.subset_append_right _ _) ⟨signals ++ raised, ?_, ?_⟩ h.holds
  · simpa [State.setTodo] using hord
  · exact List.append_subset.2 ⟨List.subset_append_left _ _,
      List.Subset.trans hraised (List.subset_append_right _ _)⟩

theorem Inv.acquire (h : Inv O s) {raised : List κ} {l : α} {mode : Mode}
    {rest : List (Op τ α κ ξ)} (hord : O.Ordered t (l :: s.held t) raised rest)
    (hraised : raised ⊆ s.signalled) :
    Inv O ({ s with
      held := Function.update s.held t (l :: s.held t)
      holders := Function.update s.holders l ((t, mode) :: s.holders l) }.setTodo t rest) := by
  refine h.move (t := t)
    (fun i hit => ⟨Function.update_of_ne hit _ _, Function.update_of_ne hit _ _⟩)
    (List.Subset.refl _) ⟨raised, by simpa [State.setTodo] using hord, hraised⟩ ?_
  intro k u m hu
  simp only [State.setTodo] at hu ⊢
  have hold : k ∈ s.held u → k ∈ Function.update s.held t (l :: s.held t) u := by
    intro hk
    by_cases hut : u = t
    · subst hut
      simpa using Or.inr hk
    · rwa [Function.update_of_ne hut]
  by_cases hkl : k = l
  · subst hkl
    rw [Function.update_self] at hu
    cases hu with
    | head => simp
    | tail _ hu => exact hold (h.holds k u m hu)
  · rw [Function.update_of_ne hkl] at hu
    exact hold (h.holds k u m hu)

theorem Inv.release (h : Inv O s) {raised : List κ} {l : α} {locks : List α}
    {rest : List (Op τ α κ ξ)} (hheld : s.held t = l :: locks)
    (hord : O.Ordered t locks raised rest) (hraised : raised ⊆ s.signalled) :
    Inv O ({ s with
      held := Function.update s.held t locks
      holders := Function.update s.holders l
        ((s.holders l).filter (fun h => h.1 ≠ t)) }.setTodo t rest) := by
  refine h.move (t := t)
    (fun i hit => ⟨Function.update_of_ne hit _ _, Function.update_of_ne hit _ _⟩)
    (List.Subset.refl _) ⟨raised, by simpa [State.setTodo] using hord, hraised⟩ ?_
  intro k u m hu
  simp only [State.setTodo] at hu ⊢
  by_cases hkl : k = l
  · subst hkl
    rw [Function.update_self, List.mem_filter] at hu
    have hut : u ≠ t := by simpa using hu.2
    rw [Function.update_of_ne hut]
    exact h.holds k u m hu.1
  · rw [Function.update_of_ne hkl] at hu
    have hk := h.holds k u m hu
    by_cases hut : u = t
    · subst hut
      rw [hheld] at hk
      rw [Function.update_self]
      exact (List.mem_cons.1 hk).resolve_left hkl
    · rwa [Function.update_of_ne hut]

/-- **What one operation preserves**: the rest of the program is ordered from where it leaves the
    thread, and the locks stay listed with those who hold them. -/
theorem Inv.perform (h : Inv O s) {op : Op τ α κ ξ} {rest : List (Op τ α κ ξ)}
    (htodo : s.todo t = op :: rest) (hstep : s.perform t op = some s') :
    Inv O (s'.setTodo t rest) := by
  obtain ⟨raised, hord, hraised⟩ := h.ordered t
  rw [htodo] at hord
  cases op with
  | acquire l mode =>
      simp only [State.perform] at hstep
      split at hstep
      · obtain rfl := Option.some.inj hstep
        exact h.acquire hord.2 hraised
      · exact absurd hstep (by simp)
  | release =>
      simp only [State.perform] at hstep
      cases hheld : s.held t with
      | nil => exact absurd hheld hord.1
      | cons l locks =>
          rw [hheld] at hstep hord
          obtain rfl := Option.some.inj hstep
          exact h.release hheld hord.2 hraised
  | signal c =>
      obtain rfl := Option.some.inj hstep
      exact h.pass [c] hord hraised
  | poll c =>
      obtain rfl := Option.some.inj hstep
      exact h.pass [] hord.2 hraised
  | join u =>
      simp only [State.perform] at hstep
      split at hstep
      · obtain rfl := Option.some.inj hstep
        exact h.pass [] hord.2 hraised
      · exact absurd hstep (by simp)
  | access z mode =>
      obtain rfl := Option.some.inj hstep
      exact h.pass [] hord hraised
  | act =>
      obtain rfl := Option.some.inj hstep
      exact h.pass [] hord hraised

theorem Inv.advance (h : Inv O s) (hstep : s.advance t = some s') : Inv O s' := by
  simp only [State.advance] at hstep
  cases htodo : s.todo t with
  | nil => simp [htodo] at hstep
  | cons op rest =>
      rw [htodo] at hstep
      obtain ⟨s₁, hs₁, rfl⟩ := Option.map_eq_some_iff.1 hstep
      exact h.perform htodo hs₁

/-- Every program that is started is ordered. -/
def Step.Keeps (O : Order τ α κ ρ) : Step τ α κ ξ → Prop
  | .start t p => O.Ordered t [] [] p
  | .advance _ => True

theorem Inv.next (h : Inv O s) {l : Step τ α κ ξ} (hl : l.Keeps O)
    (hstep : machine.next s l = some s') : Inv O s' := by
  cases l with
  | start t p =>
      simp only [machine] at hstep
      split at hstep
      · next hidle =>
          obtain rfl := Option.some.inj hstep
          exact h.start (List.isEmpty_iff.1 hidle) hl
      · exact absurd hstep (by simp)
  | advance t => exact h.advance hstep

theorem inv_of_reachable {ok : State τ α κ ξ → Step τ α κ ξ → Prop}
    (hok : ∀ s l, ok s l → l.Keeps O) (hs : machine.ReachableBy ok s) : Inv O s := by
  refine hs.invariant (I := Inv O) ?_ (fun s l s' h hl hstep => h.next (hok s l hl) hstep)
  rintro s rfl
  exact inv_init

/-! ## Wait chains end -/

/-- The rank that a thread must get past to perform the operation. -/
def Order.level (O : Order τ α κ ρ) : Op τ α κ ξ → Option ρ
  | .acquire l _ => some (O.rank l)
  | .join u => some (O.floor u)
  | _ => none

/-- Thread `t` is busy, does not wait for a condition, and what it needs next is above `r`. -/
def State.Above (O : Order τ α κ ρ) (s : State τ α κ ξ) (r : ρ) (t : τ) : Prop :=
  ¬ s.Polling t ∧ ∃ op rest, s.todo t = op :: rest ∧ ∀ r', O.level op = some r' → r < r'

omit [DecidableEq τ] [DecidableEq α] in
/-- The holder of a lock is above it. -/
theorem Inv.above_of_held (h : Inv O s) {l : α} (hl : l ∈ s.held t) : s.Above O (O.rank l) t := by
  obtain ⟨raised, hord, -⟩ := h.ordered t
  have hpoll : ¬ s.Polling t := by
    rintro ⟨c, rest, htodo, -⟩
    rw [htodo] at hord
    rw [hord.1.1] at hl
    exact List.not_mem_nil hl
  cases htodo : s.todo t with
  | nil =>
      rw [htodo] at hord
      have hheld : s.held t = [] := hord
      rw [hheld] at hl
      exact absurd hl List.not_mem_nil
  | cons op rest =>
      rw [htodo] at hord
      refine ⟨hpoll, op, rest, htodo, fun r' hr' => ?_⟩
      cases op with
      | acquire k mode =>
          obtain rfl := Option.some.inj hr'
          exact hord.1.2 l hl
      | join u =>
          obtain rfl := Option.some.inj hr'
          exact hord.1.2.1 l hl
      | release => exact absurd hr' (by simp [Order.level])
      | signal c => exact absurd hr' (by simp [Order.level])
      | poll c => exact absurd hr' (by simp [Order.level])
      | access z mode => exact absurd hr' (by simp [Order.level])
      | act => exact absurd hr' (by simp [Order.level])

omit [DecidableEq τ] [DecidableEq α] in
/-- A thread that is being joined is above its floor, and what it waits for has come. -/
theorem Inv.above_of_joined (h : Inv O s) {u : τ} {rest : List (Op τ α κ ξ)}
    (htodo : s.todo t = .join u :: rest) (hu : s.todo u ≠ []) : s.Above O (O.floor u) u := by
  obtain ⟨raised, hord, hraised⟩ := h.ordered t
  rw [htodo] at hord
  obtain ⟨⟨-, -, hpolls⟩, -⟩ := hord
  obtain ⟨raisedu, hordu, -⟩ := h.ordered u
  have hpoll : ¬ s.Polling u := by
    rintro ⟨c, restu, htodou, hc⟩
    rw [htodou] at hordu
    exact hc (hraised (hpolls c hordu.1.2))
  cases htodou : s.todo u with
  | nil => exact absurd htodou hu
  | cons op restu =>
      rw [htodou] at hordu
      refine ⟨hpoll, op, restu, htodou, fun r' hr' => ?_⟩
      cases op with
      | acquire k mode =>
          obtain rfl := Option.some.inj hr'
          exact hordu.1.1
      | join v =>
          obtain rfl := Option.some.inj hr'
          exact hordu.1.1
      | release => exact absurd hr' (by simp [Order.level])
      | signal c => exact absurd hr' (by simp [Order.level])
      | poll c => exact absurd hr' (by simp [Order.level])
      | access z mode => exact absurd hr' (by simp [Order.level])
      | act => exact absurd hr' (by simp [Order.level])

omit [DecidableEq τ] [DecidableEq α] in
/-- **One link.** A thread waits for threads that are above what it needs. -/
theorem Inv.above_of_waitsFor (h : Inv O s) {u : τ} (hwaits : s.WaitsFor t u) :
    ∃ op rest r, s.todo t = op :: rest ∧ O.level op = some r ∧ s.Above O r u := by
  cases hwaits with
  | lock htodo hu hmode => exact ⟨_, _, _, htodo, rfl, h.above_of_held (h.holds _ _ _ hu)⟩
  | join htodo hu => exact ⟨_, _, _, htodo, rfl, h.above_of_joined htodo hu⟩

theorem Inv.able_or_waits (h : Inv O s) (hpoll : ¬ s.Polling t) (hbusy : s.todo t ≠ []) :
    s.Able t ∨ ∃ u, s.WaitsFor t u := by
  obtain ⟨op, rest, htodo⟩ := List.exists_cons_of_ne_nil hbusy
  obtain ⟨raised, hord, -⟩ := h.ordered t
  rw [htodo] at hord
  have hable : ∀ s', s.perform t op = some s' → s.Able t := by
    intro s' hs'
    exact ⟨by simp [State.advance, htodo, hs'], hpoll⟩
  cases op with
  | acquire l mode =>
      by_cases hfree : available (s.holders l) mode = true
      · exact Or.inl (hable _ (by rw [State.perform, if_pos hfree]))
      · obtain ⟨u, mode', hu, hmode⟩ := available_eq_false_iff.1 (Bool.eq_false_iff.2 hfree)
        exact Or.inr ⟨u, .lock htodo hu hmode⟩
  | release =>
      cases hheld : s.held t with
      | nil => exact absurd hheld hord.1
      | cons l locks => exact Or.inl (hable _ (by rw [State.perform, hheld]))
  | signal c => exact Or.inl (hable _ rfl)
  | poll c => exact Or.inl (hable _ rfl)
  | join u =>
      by_cases hdone : (s.todo u).isEmpty = true
      · exact Or.inl (hable _ (by rw [State.perform, if_pos hdone]))
      · exact Or.inr ⟨u, .join htodo (fun hnil => hdone (by rw [hnil]; rfl))⟩
  | access z mode => exact Or.inl (hable _ rfl)
  | act => exact Or.inl (hable _ rfl)

variable [WellFoundedGT ρ]

omit [DecidableEq τ] [DecidableEq α] in
/-- **No deadlock.** Ranks rise along a chain of threads that wait for one another, so every chain
    ends; in particular none of them closes. -/
theorem Inv.waitsFor_wf (h : Inv O s) : WellFounded (fun u t => s.WaitsFor t u) := by
  have habove : ∀ r t, s.Above O r t → Acc (fun u t => s.WaitsFor t u) t := by
    intro r
    induction r using WellFoundedGT.induction with
    | ind r ih =>
        rintro t ⟨-, op, rest, htodo, hlevel⟩
        refine Acc.intro t (fun u hwaits => ?_)
        obtain ⟨op', rest', r', htodo', hr', habove⟩ := h.above_of_waitsFor hwaits
        obtain ⟨rfl, rfl⟩ := List.cons.inj (htodo.symm.trans htodo')
        exact ih r' (hlevel r' hr') u habove
  refine ⟨fun t => Acc.intro t (fun u hwaits => ?_)⟩
  obtain ⟨op, rest, r, -, -, hu⟩ := h.above_of_waitsFor hwaits
  exact habove r u hu

/-- A busy thread waits for a condition and holds nothing, or some chain of threads that it waits
    for ends in one that can go on. -/
theorem Inv.chain_ends (h : Inv O s) (hbusy : s.todo t ≠ []) :
    (s.Polling t ∧ s.held t = []) ∨
      ∃ u, Relation.ReflTransGen s.WaitsFor t u ∧ s.Able u := by
  by_cases hpoll : s.Polling t
  · obtain ⟨c, rest, htodo, -⟩ := id hpoll
    obtain ⟨raised, hord, -⟩ := h.ordered t
    rw [htodo] at hord
    exact Or.inl ⟨hpoll, hord.1.1⟩
  · right
    induction t using h.waitsFor_wf.induction with
    | _ t ih =>
        rcases h.able_or_waits hpoll hbusy with hable | ⟨u, hwaits⟩
        · exact ⟨t, .refl, hable⟩
        · obtain ⟨-, -, -, -, -, hpollu, op, rest, htodou, -⟩ := h.above_of_waitsFor hwaits
          have hbusyu : s.todo u ≠ [] := by simp [htodou]
          obtain ⟨v, hchain, hable⟩ := ih u hwaits hbusyu hpollu
          exact ⟨v, .head hwaits hchain, hable⟩

omit [WellFoundedGT ρ]

/-! ## Coming to rest -/

theorem todo_of_perform {op : Op τ α κ ξ} (hstep : s.perform t op = some s') :
    s'.todo = s.todo := by
  cases op with
  | acquire l mode =>
      simp only [State.perform] at hstep
      split at hstep
      · rw [← Option.some.inj hstep]
      · exact absurd hstep (by simp)
  | release =>
      simp only [State.perform] at hstep
      split at hstep
      · exact absurd hstep (by simp)
      · rw [← Option.some.inj hstep]
  | join u =>
      simp only [State.perform] at hstep
      split at hstep
      · rw [← Option.some.inj hstep]
      · exact absurd hstep (by simp)
  | signal c => rw [← Option.some.inj hstep]
  | poll c => rw [← Option.some.inj hstep]
  | access z mode => rw [← Option.some.inj hstep]
  | act => rw [← Option.some.inj hstep]

/-- An operation is done once. -/
theorem todo_of_advance (hstep : s.advance t = some s') :
    ∃ op rest, s.todo t = op :: rest ∧ s'.todo = Function.update s.todo t rest := by
  simp only [State.advance] at hstep
  cases htodo : s.todo t with
  | nil => simp [htodo] at hstep
  | cons op rest =>
      rw [htodo] at hstep
      obtain ⟨s₁, hs₁, rfl⟩ := Option.map_eq_some_iff.1 hstep
      exact ⟨op, rest, rfl, by rw [State.setTodo, todo_of_perform hs₁]⟩

/-- What a thread has left is the end of what it had. -/
theorem todo_of_advances {ts : List τ} (hrun : machine.run s (ts.map .advance) = some s') (i : τ) :
    s'.todo i <:+ s.todo i := by
  induction ts generalizing s with
  | nil =>
      simp only [List.map_nil, Machine.run, Option.some.injEq] at hrun
      simp [hrun]
  | cons t ts ih =>
      rw [List.map_cons, Machine.run] at hrun
      obtain ⟨s₁, hs₁, hrest⟩ := Option.bind_eq_some_iff.1 hrun
      obtain ⟨op, rest, htodo, hupdate⟩ := todo_of_advance hs₁
      have hsuffix := ih hrest
      rw [hupdate] at hsuffix
      by_cases hit : i = t
      · subst hit
        rw [Function.update_self] at hsuffix
        rw [htodo]
        exact hsuffix.trans (List.suffix_cons op rest)
      · rwa [Function.update_of_ne hit] at hsuffix

theorem Inv.run (h : Inv O s) {ts : List τ} (hrun : machine.run s (ts.map .advance) = some s') :
    Inv O s' := by
  refine Machine.run_preserves_on (fun l => l.Keeps O) (fun s l s' hl h hstep => h.next hl hstep)
    ?_ h hrun
  intro l hl
  obtain ⟨t, -, rfl⟩ := List.mem_map.1 hl
  exact trivial

/-- **At rest.** When nobody can go on, every thread has finished or waits for a condition, and no
    lock is taken. -/
theorem Inv.rest [WellFoundedGT ρ] (h : Inv O s) (hrest : ∀ t, ¬ s.Able t) :
    (∀ t, s.todo t ≠ [] → s.Polling t) ∧ ∀ l, s.holders l = [] := by
  have hpolling : ∀ t, s.todo t ≠ [] → s.Polling t ∧ s.held t = [] := by
    intro t hbusy
    rcases h.chain_ends hbusy with hpoll | ⟨u, -, hable⟩
    · exact hpoll
    · exact absurd hable (hrest u)
  have hheld : ∀ t, s.held t = [] := by
    intro t
    cases htodo : s.todo t with
    | nil =>
        obtain ⟨raised, hord, -⟩ := h.ordered t
        rw [htodo] at hord
        exact hord
    | cons op rest => exact (hpolling t (by simp [htodo])).2
  refine ⟨fun t hbusy => (hpolling t hbusy).1, fun l => ?_⟩
  rw [List.eq_nil_iff_forall_not_mem]
  rintro ⟨u, mode⟩ hmem
  have hl := h.holds l u mode hmem
  rw [hheld u] at hl
  exact List.not_mem_nil hl

/-! ## What a deadlock is -/

/-- A thread that another one holds a lock against, or that joins a busy one, is blocked. -/
theorem advance_of_waitsFor {u : τ} (hwaits : s.WaitsFor t u) : s.advance t = none := by
  cases hwaits with
  | lock htodo hu hmode =>
      have hfull := available_eq_false_iff.2 ⟨_, _, hu, hmode⟩
      simp [State.advance, htodo, State.perform, hfull]
  | join htodo hu => simp [State.advance, htodo, State.perform, hu]

/-- A step of one thread leaves the programs of the others and the locks they hold. -/
theorem others_of_advance {i v : τ} (hstep : s.advance v = some s') (hi : i ≠ v) :
    s'.todo i = s.todo i ∧ ∀ l mode, (i, mode) ∈ s.holders l → (i, mode) ∈ s'.holders l := by
  simp only [State.advance] at hstep
  cases hv : s.todo v with
  | nil => simp [hv] at hstep
  | cons op rest =>
      rw [hv] at hstep
      obtain ⟨s₁, hs₁, rfl⟩ := Option.map_eq_some_iff.1 hstep
      refine ⟨by simp [State.setTodo, hi, todo_of_perform hs₁], fun l mode hmem => ?_⟩
      simp only [State.setTodo]
      cases op with
      | acquire k mode' =>
          simp only [State.perform] at hs₁
          split at hs₁
          · obtain rfl := Option.some.inj hs₁
            by_cases hlk : l = k
            · subst hlk
              simpa using Or.inr hmem
            · simpa [hlk] using hmem
          · exact absurd hs₁ (by simp)
      | release =>
          simp only [State.perform] at hs₁
          split at hs₁
          · exact absurd hs₁ (by simp)
          · next k locks _ =>
              obtain rfl := Option.some.inj hs₁
              by_cases hlk : l = k
              · subst hlk
                simpa [hi] using hmem
              · simpa [hlk] using hmem
      | join w =>
          simp only [State.perform] at hs₁
          split at hs₁
          · exact Option.some.inj hs₁ ▸ hmem
          · exact absurd hs₁ (by simp)
      | signal c => exact Option.some.inj hs₁ ▸ hmem
      | poll c => exact Option.some.inj hs₁ ▸ hmem
      | access z mode' => exact Option.some.inj hs₁ ▸ hmem
      | act => exact Option.some.inj hs₁ ▸ hmem

omit [DecidableEq τ] [DecidableEq α] in
theorem State.WaitsFor.mono {i u : τ} (hwaits : s.WaitsFor i u) (hi : s'.todo i = s.todo i)
    (hu : s'.todo u = s.todo u)
    (hholds : ∀ l mode, (u, mode) ∈ s.holders l → (u, mode) ∈ s'.holders l) : s'.WaitsFor i u := by
  cases hwaits with
  | lock htodo hmem hmode => exact .lock (hi.trans htodo) (hholds _ _ hmem) hmode
  | join htodo hbusy => exact .join (hi.trans htodo) (hu ▸ hbusy)

/-- **A deadlock is for good**: threads each of which waits for another of them never move again,
    and go on waiting for one another. -/
theorem deadlock_forever {D : Set τ} (hD : ∀ t ∈ D, ∃ u ∈ D, s.WaitsFor t u)
    {ls : List (Step τ α κ ξ)} (hrun : machine.run s ls = some s') :
    (∀ t ∈ D, ∃ u ∈ D, s'.WaitsFor t u) ∧ ∀ t ∈ D, s'.todo t = s.todo t := by
  refine Machine.run_preserves (I := fun r => (∀ t ∈ D, ∃ u ∈ D, r.WaitsFor t u) ∧
    ∀ t ∈ D, r.todo t = s.todo t) ?_ ⟨hD, fun _ _ => rfl⟩ hrun
  rintro r l r' ⟨hwaits, htodo⟩ hstep
  -- no thread of `D` is the one that moves
  have hsame : ∀ t ∈ D, r'.todo t = r.todo t ∧
      ∀ k mode, (t, mode) ∈ r.holders k → (t, mode) ∈ r'.holders k := by
    intro t ht
    obtain ⟨u, -, hu⟩ := hwaits t ht
    have hblocked := advance_of_waitsFor hu
    cases l with
    | start v p =>
        simp only [machine] at hstep
        split at hstep
        · next hidle =>
            obtain rfl := Option.some.inj hstep
            refine ⟨Function.update_of_ne ?_ _ _, fun _ _ hmem => hmem⟩
            rintro rfl
            have hnil := List.isEmpty_iff.1 hidle
            cases hu with
            | lock h _ _ => simp [h] at hnil
            | join h _ => simp [h] at hnil
        · exact absurd hstep (by simp)
    | advance v =>
        refine others_of_advance hstep ?_
        rintro rfl
        simp only [machine] at hstep
        simp [hblocked] at hstep
  refine ⟨fun t ht => ?_, fun t ht => (hsame t ht).1.trans (htodo t ht)⟩
  obtain ⟨u, hu, hw⟩ := hwaits t ht
  exact ⟨u, hu, hw.mono (hsame t ht).1 (hsame u hu).1 (hsame u hu).2⟩

end Semantics

/-! ## A thread that nobody hinders -/

/-- A thread that holds `held` gets through `p`, and holds `held'` then, where no other thread holds
    a lock and the threads of `finished` have nothing to do. -/
def Passes (finished : Set τ) : List α → List (Op τ α κ ξ) → List α → Prop
  | held, [], held' => held = held'
  | held, .acquire l _ :: p, held' => l ∉ held ∧ Passes finished (l :: held) p held'
  | held, .release :: p, held' => held ≠ [] ∧ Passes finished held.tail p held'
  | held, .join u :: p, held' => u ∈ finished ∧ Passes finished held p held'
  | held, .signal _ :: p, held' => Passes finished held p held'
  | held, .poll _ :: p, held' => Passes finished held p held'
  | held, .access _ _ :: p, held' => Passes finished held p held'
  | held, .act :: p, held' => Passes finished held p held'

variable {finished : Set τ} {held' : List α}

theorem Passes.append {p q : List (Op τ α κ ξ)} {last : List α}
    (hp : Passes finished held p held') (hq : Passes finished held' q last) :
    Passes finished held (p ++ q) last := by
  induction p generalizing held with
  | nil => exact hp ▸ hq
  | cons op p ih =>
      cases op with
      | acquire l mode => exact ⟨hp.1, ih hp.2⟩
      | release => exact ⟨hp.1, ih hp.2⟩
      | join u => exact ⟨hp.1, ih hp.2⟩
      | signal c => exact ih hp
      | poll c => exact ih hp
      | access z mode => exact ih hp
      | act => exact ih hp

theorem Passes.flatMap {β : Type*} {f : β → List (Op τ α κ ξ)} {xs : List β}
    (h : ∀ x ∈ xs, Passes finished held (f x) held) : Passes finished held (xs.flatMap f) held := by
  induction xs with
  | nil => exact rfl
  | cons x xs ih =>
      rw [List.flatMap_cons]
      exact (h x List.mem_cons_self).append (ih (fun y hy => h y (List.mem_cons_of_mem _ hy)))

theorem Passes.guarded {l : α} {mode : Mode} {body : List (Op τ α κ ξ)} (hl : l ∉ held)
    (h : Passes finished (l :: held) body (l :: held)) :
    Passes finished held (guarded l mode body) held :=
  ⟨hl, h.append ⟨by simp, rfl⟩⟩

/-- There a thread gets to the operation `op` of the program, and holds `held'` before it. -/
def Reaches (finished : Set τ) (held : List α) (program : List (Op τ α κ ξ)) (op : Op τ α κ ξ)
    (held' : List α) : Prop :=
  ∃ p rest, program = p ++ op :: rest ∧ Passes finished held p held'

theorem reaches_head (op : Op τ α κ ξ) (p : List (Op τ α κ ξ)) :
    Reaches finished held (op :: p) op held := ⟨[], p, rfl, rfl⟩

theorem Reaches.append {p : List (Op τ α κ ξ)} {op : Op τ α κ ξ}
    (h : Reaches finished held p op held') (q : List (Op τ α κ ξ)) :
    Reaches finished held (p ++ q) op held' := by
  obtain ⟨p₁, rest, rfl, hpasses⟩ := h
  exact ⟨p₁, rest ++ q, by simp, hpasses⟩

theorem Passes.reaches {p q : List (Op τ α κ ξ)} {between : List α} {op : Op τ α κ ξ}
    (hp : Passes finished held p between) (hq : Reaches finished between q op held') :
    Reaches finished held (p ++ q) op held' := by
  obtain ⟨q₁, rest, rfl, hpasses⟩ := hq
  exact ⟨p ++ q₁, rest, by simp, hp.append hpasses⟩

theorem Reaches.guarded {l : α} {mode : Mode} {body : List (Op τ α κ ξ)} {op : Op τ α κ ξ}
    (hl : l ∉ held) (h : Reaches finished (l :: held) body op held') :
    Reaches finished held (guarded l mode body) op held' := by
  obtain ⟨p, rest, rfl, hpasses⟩ := h
  exact ⟨.acquire l mode :: p, rest ++ [.release], by simp [LockOrder.guarded], hl, hpasses⟩

/-- Thread `t` holds `held`, and no other thread holds anything. -/
structure State.Alone (s : State τ α κ ξ) (t : τ) (held : List α) : Prop where
  held_eq : s.held t = held
  nodup : held.Nodup
  taken : ∀ l ∈ held, ∃ mode, s.holders l = [(t, mode)]
  free : ∀ l, l ∉ held → s.holders l = []

variable [DecidableEq τ] [DecidableEq α]

/-- **One step** of a thread that nobody hinders. -/
theorem State.Alone.step (h : s.Alone t held) {op : Op τ α κ ξ} {p q : List (Op τ α κ ξ)}
    (htodo : s.todo t = op :: q) (hp : Passes finished held (op :: p) held')
    (hidle : ∀ u ∈ finished, s.todo u = []) :
    ∃ s' between, s.advance t = some s' ∧ s'.Alone t between ∧ Passes finished between p held' ∧
      s'.todo = Function.update s.todo t q ∧ ∀ u, u ≠ t → s'.held u = s.held u := by
  -- an operation that leaves the locks alone
  have hpass : ∀ signals, s.perform t op = some { s with signalled := signals } →
      Passes finished held p held' →
      ∃ s' between, s.advance t = some s' ∧ s'.Alone t between ∧ Passes finished between p held' ∧
        s'.todo = Function.update s.todo t q ∧ ∀ u, u ≠ t → s'.held u = s.held u := by
    intro signals hop hrest
    exact ⟨{ s with signalled := signals }.setTodo t q, held, by simp [State.advance, htodo, hop],
      ⟨h.held_eq, h.nodup, h.taken, h.free⟩, hrest, rfl, fun _ _ => rfl⟩
  cases op with
  | acquire l mode =>
      obtain ⟨hl, hrest⟩ := hp
      have hfree : available (s.holders l) mode = true := by
        rw [h.free l hl]
        cases mode <;> rfl
      refine ⟨_, l :: held, by simp [State.advance, htodo, State.perform, hfree]; rfl, ?_, hrest,
        rfl, fun u hu => Function.update_of_ne hu _ _⟩
      refine ⟨by simp [State.setTodo, h.held_eq], List.nodup_cons.2 ⟨hl, h.nodup⟩, ?_, ?_⟩
      · intro k hk
        by_cases hkl : k = l
        · subst hkl
          exact ⟨mode, by simp [State.setTodo, h.free k hl]⟩
        · obtain ⟨mode', htaken⟩ := h.taken k ((List.mem_cons.1 hk).resolve_left hkl)
          exact ⟨mode', by simp [State.setTodo, hkl, htaken]⟩
      · intro k hk
        obtain ⟨hkl, hkheld⟩ := not_or.1 (mt List.mem_cons.2 hk)
        simp [State.setTodo, hkl, h.free k hkheld]
  | release =>
      obtain ⟨hne, hrest⟩ := hp
      cases held with
      | nil => exact absurd rfl hne
      | cons l held =>
          obtain ⟨hl, hnodup⟩ := List.nodup_cons.1 h.nodup
          obtain ⟨mode, htaken⟩ := h.taken l List.mem_cons_self
          refine ⟨_, held, by simp [State.advance, htodo, State.perform, h.held_eq]; rfl, ?_, hrest,
            rfl, fun u hu => Function.update_of_ne hu _ _⟩
          refine ⟨by simp [State.setTodo], hnodup, ?_, ?_⟩
          · intro k hk
            have hkl : k ≠ l := fun heq => hl (heq ▸ hk)
            obtain ⟨mode', htaken'⟩ := h.taken k (List.mem_cons_of_mem _ hk)
            exact ⟨mode', by simp [State.setTodo, hkl, htaken']⟩
          · intro k hk
            by_cases hkl : k = l
            · subst hkl
              simp [State.setTodo, htaken]
            · simp [State.setTodo, hkl, h.free k (by simp [hkl, hk])]
  | join u => exact hpass s.signalled (by simp [State.perform, hidle u hp.1]) hp.2
  | signal c => exact hpass _ rfl hp
  | poll c => exact hpass _ rfl hp
  | access z mode => exact hpass _ rfl hp
  | act => exact hpass _ rfl hp

/-- A thread that nobody hinders gets through what it passes. -/
theorem State.Alone.passes {p q : List (Op τ α κ ξ)} (h : s.Alone t held)
    (htodo : s.todo t = p ++ q) (hp : Passes finished held p held')
    (hidle : ∀ u ∈ finished, s.todo u = []) :
    ∃ s', machine.run s ((List.replicate p.length t).map .advance) = some s' ∧
      s'.Alone t held' ∧ s'.todo = Function.update s.todo t q ∧
      ∀ u, u ≠ t → s'.held u = s.held u := by
  induction p generalizing s held with
  | nil =>
      obtain rfl : held = held' := hp
      rw [List.nil_append] at htodo
      exact ⟨s, rfl, h, by rw [← htodo, Function.update_eq_self], fun _ _ => rfl⟩
  | cons op p ih =>
      obtain ⟨s₁, between, hstep, h₁, hp₁, htodo₁, hheld₁⟩ := h.step htodo hp hidle
      have hidle₁ : ∀ u ∈ finished, s₁.todo u = [] := by
        intro u hu
        have hut : u ≠ t := by
          rintro rfl
          simp [hidle u hu] at htodo
        rw [htodo₁, Function.update_of_ne hut, hidle u hu]
      obtain ⟨s', hrun, h', htodo', hheld'⟩ := ih h₁ (by simp [htodo₁]) hp₁ hidle₁
      refine ⟨s', ?_, h', ?_, fun u hu => (hheld' u hu).trans (hheld₁ u hu)⟩
      · rw [List.length_cons, List.replicate_succ, List.map_cons, Machine.run]
        exact Option.bind_eq_some_iff.2 ⟨s₁, hstep, hrun⟩
      · rw [htodo', htodo₁, Function.update_idem]

/-- A thread that nobody hinders gets to what it reaches. -/
theorem State.Alone.run {op : Op τ α κ ξ} (h : s.Alone t held)
    (hreaches : Reaches finished held (s.todo t) op held')
    (hidle : ∀ u ∈ finished, s.todo u = []) :
    ∃ (ts : List τ) (s' : State τ α κ ξ) (rest : List (Op τ α κ ξ)),
      machine.run s (ts.map .advance) = some s' ∧ s'.Alone t held' ∧
        s'.todo = Function.update s.todo t (op :: rest) ∧ ∀ u, u ≠ t → s'.held u = s.held u := by
  obtain ⟨p, rest, htodo, hpasses⟩ := hreaches
  obtain ⟨s', hrun, h', htodo', hheld'⟩ := h.passes htodo hpasses hidle
  exact ⟨_, s', rest, hrun, h', htodo', hheld'⟩

end LockOrder
