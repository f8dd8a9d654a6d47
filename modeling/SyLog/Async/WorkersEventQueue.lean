import SyLog.Route

set_option autoImplicit false

/-! # The bounded event queue

`WorkersEventQueue` puts a slot counter in front of `Workers::Queue::BlockingQueue`. The blocking
queue itself is not part of this repository. What SyLog relies on is that it is linearizable, so
that each call takes effect at once, and the laws of `BlockingQueue.Contract`: a FIFO whose `push`
fails once it is closed and whose closing loses nothing. The list queue below stands for it, since
it gives the answers that every queue with these laws gives (`BlockingQueue.Contract.answers_eq`).

The functions below are the calls without a second thread in between. The interleaved versions of
`try_push` and `push_blocking` (`SyLog.Async.LaneMachine`) are built from the same `reserveSlot`,
`BlockingQueue.push` and `releaseSlot`. -/

namespace SyLog

/-- `Workers::Queue::BlockingQueue<α>`: the queued elements, oldest first. -/
structure BlockingQueue (α : Type) where
  items : List α := []
  closed : Bool := false
  deriving DecidableEq, Repr

namespace BlockingQueue

variable {α : Type}

/-- `none` is a failed push. -/
def push (q : BlockingQueue α) (e : α) : Option (BlockingQueue α) :=
  if q.closed then none else some { q with items := q.items ++ [e] }

/-- `none` is a failed pop. -/
def tryPop (q : BlockingQueue α) : Option (α × BlockingQueue α) :=
  match q.items with
  | [] => none
  | e :: rest => some (e, { q with items := rest })

def close (q : BlockingQueue α) : BlockingQueue α := { q with closed := true }

theorem push_eq_some {q q' : BlockingQueue α} {e : α} (h : q.push e = some q') :
    q.closed = false ∧ q' = { q with items := q.items ++ [e] } := by
  unfold push at h
  cases hc : q.closed with
  | true => simp [hc] at h
  | false =>
      simp only [hc, Bool.false_eq_true, if_false, Option.some.injEq] at h
      exact ⟨rfl, h.symm⟩

/-! ### The contract -/

inductive Call (α : Type) where
  | push (e : α)
  | tryPop
  | close

/-- What a call returns. -/
inductive Answer (α : Type) where
  | pushed (ok : Bool)
  | popped (e : Option α)
  | closed

/-- A queue that SyLog can run on, with states `σ`: its calls, and the laws that they obey. -/
structure Contract (σ α : Type) where
  new : σ
  push : σ → α → Option σ
  tryPop : σ → Option (α × σ)
  close : σ → σ
  /-- the queued elements, oldest first -/
  items : σ → List α
  closed : σ → Bool
  items_new : items new = []
  closed_new : closed new = false
  push_of_closed : ∀ s e, closed s = true → push s e = none
  push_of_open : ∀ s e, closed s = false →
    ∃ s', push s e = some s' ∧ items s' = items s ++ [e] ∧ closed s' = false
  tryPop_nil : ∀ s, items s = [] → tryPop s = none
  tryPop_cons : ∀ s e rest, items s = e :: rest →
    ∃ s', tryPop s = some (e, s') ∧ items s' = rest ∧ closed s' = closed s
  items_close : ∀ s, items (close s) = items s
  closed_close : ∀ s, closed (close s) = true

namespace Contract

variable {σ : Type}

/-- A call that fails leaves the queue as it is. -/
def call (c : Contract σ α) (s : σ) : Call α → Answer α × σ
  | .push e =>
    match c.push s e with
    | some s' => (.pushed true, s')
    | none => (.pushed false, s)
  | .tryPop =>
    match c.tryPop s with
    | some (e, s') => (.popped (some e), s')
    | none => (.popped none, s)
  | .close => (.closed, c.close s)

def answers (c : Contract σ α) : σ → List (Call α) → List (Answer α)
  | _, [] => []
  | s, q :: calls => (c.call s q).1 :: c.answers (c.call s q).2 calls

/-- The list queue. -/
def list : Contract (BlockingQueue α) α where
  new := {}
  push := BlockingQueue.push
  tryPop := BlockingQueue.tryPop
  close := BlockingQueue.close
  items := BlockingQueue.items
  closed := BlockingQueue.closed
  items_new := rfl
  closed_new := rfl
  push_of_closed q e h := by simp [BlockingQueue.push, h]
  push_of_open q e h :=
    ⟨{ q with items := q.items ++ [e] }, by simp [BlockingQueue.push, h], rfl, h⟩
  tryPop_nil q h := by simp [BlockingQueue.tryPop, h]
  tryPop_cons q e rest h :=
    ⟨{ q with items := rest }, by simp [BlockingQueue.tryPop, h], rfl, rfl⟩
  items_close _ := rfl
  closed_close _ := rfl

/-- What can be seen of a state. -/
def view (c : Contract σ α) (s : σ) : BlockingQueue α := ⟨c.items s, c.closed s⟩

/-- A call is that of the list queue. -/
theorem call_view (c : Contract σ α) (s : σ) (q : Call α) :
    list.call (c.view s) q = ((c.call s q).1, c.view (c.call s q).2) := by
  cases q with
  | push e =>
      cases hc : c.closed s with
      | true =>
          have hlist : list.push (c.view s) e = none := list.push_of_closed _ e hc
          simp [call, hlist, c.push_of_closed s e hc]
      | false =>
          obtain ⟨s', hpush, hitems, hclosed⟩ := c.push_of_open s e hc
          have hlist : list.push (c.view s) e = some (c.view s') := by
            simp [list, BlockingQueue.push, view, hc, hitems, hclosed]
          simp [call, hlist, hpush]
  | tryPop =>
      cases hi : c.items s with
      | nil =>
          have hlist : list.tryPop (c.view s) = none := list.tryPop_nil _ hi
          simp [call, hlist, c.tryPop_nil s hi]
      | cons e rest =>
          obtain ⟨s', hpop, hitems, hclosed⟩ := c.tryPop_cons s e rest hi
          have hlist : list.tryPop (c.view s) = some (e, c.view s') := by
            simp [list, BlockingQueue.tryPop, view, hi, hitems, hclosed]
          simp [call, hlist, hpop]
  | close => simp [call, list, BlockingQueue.close, view, c.items_close, c.closed_close]

/-- **Any queue with these laws** answers every sequence of calls as the list queue does. -/
theorem answers_eq (c : Contract σ α) (calls : List (Call α)) :
    c.answers c.new calls = list.answers {} calls := by
  have hrun : ∀ s : σ, c.answers s calls = list.answers (c.view s) calls := by
    induction calls with
    | nil => intro s; rfl
    | cons q calls ih =>
        intro s
        rw [answers, answers, c.call_view s q, ih]
  rw [hrun, view, c.items_new, c.closed_new]

end Contract

end BlockingQueue

structure WorkersEventQueue (α : Type) where
  capacity : UInt64 := 1
  queue : BlockingQueue α := {}
  size : UInt64 := 0
  deriving DecidableEq, Repr

namespace WorkersEventQueue

variable {α : Type}

/-- The constructor: a capacity of zero counts as one. -/
def new (capacity : UInt64) : WorkersEventQueue α := { capacity := max capacity 1 }

/-- `reserve_slot_`, its compare-and-swap loop as one step; `none` when the queue is full. -/
def reserveSlot (q : WorkersEventQueue α) : Option (WorkersEventQueue α) :=
  if q.size < q.capacity then some { q with size := q.size + 1 } else none

/-- The `fetch_sub` of `release_slot_`, which would wrap at zero. -/
def releaseSlot (q : WorkersEventQueue α) : WorkersEventQueue α := { q with size := q.size - 1 }

/-- What follows a successful reservation: push, and give the slot back if the push fails. -/
def pushReserved (q : WorkersEventQueue α) (e : α) : WorkersEventQueue α × Bool :=
  match q.queue.push e with
  | some queue => ({ q with queue }, true)
  | none => (q.releaseSlot, false)

def tryPush (q : WorkersEventQueue α) (e : α) : WorkersEventQueue α × Bool :=
  match q.reserveSlot with
  | none => (q, false)
  | some q => q.pushReserved e

/-- One round of the loop of `push_blocking`; `none` when the caller goes to sleep on
    `cv_space_`. -/
def pushBlocking (q : WorkersEventQueue α) (e : α) (accepting : Bool) :
    Option (WorkersEventQueue α × Bool) :=
  if !accepting then some (q, false)
  else match q.reserveSlot with
    | none => none
    | some q => some (q.pushReserved e)

def tryPop (q : WorkersEventQueue α) : Option (α × WorkersEventQueue α) :=
  (q.queue.tryPop).map (fun (e, queue) => (e, { q with queue }.releaseSlot))

def close (q : WorkersEventQueue α) : WorkersEventQueue α := { q with queue := q.queue.close }

/-! ## What a push can do -/

/-- A push appends one element to an open queue or leaves the queued elements alone; it reports
    which of the two. -/
theorem pushReserved_cases (q : WorkersEventQueue α) (e : α) :
    (q.queue.closed = false ∧ (q.pushReserved e).2 = true ∧
      (q.pushReserved e).1.queue = { q.queue with items := q.queue.items ++ [e] }) ∨
    (q.queue.closed = true ∧ (q.pushReserved e).2 = false ∧
      (q.pushReserved e).1.queue = q.queue) := by
  unfold pushReserved BlockingQueue.push
  cases hc : q.queue.closed with
  | true => exact Or.inr ⟨rfl, by simp, by simp [releaseSlot]⟩
  | false => exact Or.inl ⟨rfl, by simp, by simp [hc]⟩

theorem reserveSlot_queue {q q' : WorkersEventQueue α} (h : q.reserveSlot = some q') :
    q'.queue = q.queue := by
  unfold reserveSlot at h
  split at h
  · obtain rfl := Option.some.inj h
    rfl
  · exact absurd h (by simp)

theorem tryPush_cases (q : WorkersEventQueue α) (e : α) :
    (q.queue.closed = false ∧ (q.tryPush e).2 = true ∧
      (q.tryPush e).1.queue = { q.queue with items := q.queue.items ++ [e] }) ∨
    ((q.tryPush e).2 = false ∧ (q.tryPush e).1.queue = q.queue) := by
  unfold tryPush
  cases hr : q.reserveSlot with
  | none => exact Or.inr ⟨rfl, rfl⟩
  | some q₁ =>
      have hq : q₁.queue = q.queue := reserveSlot_queue hr
      rcases pushReserved_cases q₁ e with ⟨hc, hok, hqueue⟩ | ⟨_, hok, hqueue⟩
      · exact Or.inl ⟨hq ▸ hc, hok, by rw [hqueue, hq]⟩
      · exact Or.inr ⟨hok, by rw [hqueue, hq]⟩

theorem pushBlocking_cases {q : WorkersEventQueue α} {e : α} {accepting : Bool}
    {r : WorkersEventQueue α × Bool} (h : q.pushBlocking e accepting = some r) :
    (q.queue.closed = false ∧ r.2 = true ∧
      r.1.queue = { q.queue with items := q.queue.items ++ [e] }) ∨
    (r.2 = false ∧ r.1.queue = q.queue ∧ (accepting = false ∨ q.queue.closed = true)) := by
  unfold pushBlocking at h
  cases accepting with
  | false =>
      simp only [Bool.not_false, if_true, Option.some.injEq] at h
      subst h
      exact Or.inr ⟨rfl, rfl, Or.inl rfl⟩
  | true =>
      simp only [Bool.not_true, Bool.false_eq_true, if_false] at h
      cases hr : q.reserveSlot with
      | none => simp [hr] at h
      | some q₁ =>
          have hq : q₁.queue = q.queue := reserveSlot_queue hr
          simp only [hr, Option.some.injEq] at h
          subst h
          rcases pushReserved_cases q₁ e with ⟨hc, hok, hqueue⟩ | ⟨hc, hok, hqueue⟩
          · exact Or.inl ⟨hq ▸ hc, hok, by rw [hqueue, hq]⟩
          · exact Or.inr ⟨hok, by rw [hqueue, hq], Or.inr (hq ▸ hc)⟩

end WorkersEventQueue

end SyLog
