import SyLog.Library.Threads
import SyLog.Async.LaneMachine

set_option autoImplicit false

/-! # The queue and all of its callers

Any number of threads in `try_push`, `push_blocking`, `try_pop`, `pop_blocking` and `close` on one
queue. Each operation on `size_` and each call on the blocking queue is one step, as in the life of
a lane, whose producers are used here. `size_` is changed before a push and after a pop, so at any
time it counts the queued elements together with the slots of the calls that are between the two.
-/

namespace SyLog

variable {α : Type}

/-! ## The machine -/

/-- Where a thread is in `try_pop` or `pop_blocking`; `blocking` says which. -/
inductive ConsumerPhase (α : Type) where
  | idle
  | popping (blocking : Bool)
  /-- an element is popped; `release_slot_` decrements `size_` -/
  | releasing (e : α)
  /-- `release_slot_` calls `cv_space_.notify_one()` -/
  | notifying (e : α)

/-- Where a thread is in `close`. -/
inductive ClosePhase where
  | idle
  | closing
  | notifying
  deriving DecidableEq, Repr

/-- The queue, `accepting` and the producers are those of a lane without a worker of its own. -/
structure QueueState (α : Type) where
  shared : LaneState α
  consumers : Nat → ConsumerPhase α := fun _ => .idle
  closers : Nat → ClosePhase := fun _ => .idle

inductive QueueStep (α : Type) where
  /-- thread `t` calls `try_push` or `push_blocking` -/
  | push (t : Nat) (e : α) (blocking : Bool)
  | produce (t : Nat) (spurious : Bool) (picked : Nat)
  /-- a spurious wakeup of thread `t` -/
  | wake (t : Nat)
  /-- thread `c` calls `try_pop` or `pop_blocking` -/
  | pop (c : Nat) (blocking : Bool)
  /-- consumer `c` goes on; it can give up a blocking pop, since its stop token may be triggered at
      any time -/
  | consume (c : Nat) (act : WorkerAct) (picked : Nat)
  | close (k : Nat)
  /-- thread `k` goes on with its `close` -/
  | advance (k : Nat)
  /-- another thread stores `accepting` -/
  | accept (accepting : Bool)

namespace QueueState

abbrev queue (s : QueueState α) : WorkersEventQueue α := s.shared.lane.queue

/-- The queued elements, oldest first. -/
abbrev items (s : QueueState α) : List α := s.queue.queue.items

def setConsumer (s : QueueState α) (c : Nat) (phase : ConsumerPhase α) : QueueState α :=
  { s with consumers := Function.update s.consumers c phase }

def setCloser (s : QueueState α) (k : Nat) (phase : ClosePhase) : QueueState α :=
  { s with closers := Function.update s.closers k phase }

def setQueue (s : QueueState α) (queue : WorkersEventQueue α) : QueueState α :=
  { s with shared := s.shared.setQueue queue }

def notifyOne (s : QueueState α) (picked : Nat) : Option (QueueState α) :=
  (s.shared.notifyOne picked).map fun shared => { s with shared }

/-- The next step of consumer `c`; `none` when it has to wait. -/
def consume (s : QueueState α) (c : Nat) (act : WorkerAct) (picked : Nat) :
    Option (QueueState α) :=
  match s.consumers c, act with
  | .popping blocking, .run =>
    match s.queue.queue.tryPop with
    | some (e, queue) => some ((s.setQueue { s.queue with queue }).setConsumer c (.releasing e))
    | none => if blocking then none else some (s.setConsumer c .idle)
  | .popping true, .giveUp => some (s.setConsumer c .idle)
  | .releasing e, .run => some ((s.setQueue s.queue.releaseSlot).setConsumer c (.notifying e))
  | .notifying _, .run => (s.setConsumer c .idle).notifyOne picked
  | _, _ => none

/-- The next step of a `close`. -/
def advance (s : QueueState α) (k : Nat) : Option (QueueState α) :=
  match s.closers k with
  | .idle => none
  | .closing => some ((s.setQueue s.queue.close).setCloser k .notifying)
  | .notifying => some { s.setCloser k .idle with shared := s.shared.notifyAll }

end QueueState

/-- A queue constructed with `capacity`, used by any number of threads. -/
def queueCalls (α : Type) (capacity : UInt64) : Machine (QueueState α) (QueueStep α) where
  init s := ∃ accepting, s = { shared := { lane := { route := {}, queue := .new capacity }
                                           accepting } }
  next s
    | .push t e blocking =>
      match s.shared.producers t with
      | .idle =>
        some { s with shared :=
          s.shared.setProducer t (if blocking then .entering e else .loading e false) }
      | _ => none
    | .produce t spurious picked =>
      (s.shared.produce t spurious picked).map fun shared => { s with shared }
    | .wake t => some { s with shared := s.shared.wake t }
    | .pop c blocking =>
      match s.consumers c with
      | .idle => some (s.setConsumer c (.popping blocking))
      | _ => none
    | .consume c act picked => s.consume c act picked
    | .close k =>
      match s.closers k with
      | .idle => some (s.setCloser k .closing)
      | _ => none
    | .advance k => s.advance k
    | .accept accepting => some { s with shared := { s.shared with accepting } }

/-! ### What a consumer can do -/

inductive ConsumeStep (s : QueueState α) (c : Nat) : QueueState α → Prop
  | take (blocking : Bool) (e : α) (rest : List α) (hphase : s.consumers c = .popping blocking)
      (hitems : s.items = e :: rest) :
      ConsumeStep s c ((s.setQueue { s.queue with
        queue := { s.queue.queue with items := rest } }).setConsumer c (.releasing e))
  | miss (blocking : Bool) (hphase : s.consumers c = .popping blocking) :
      ConsumeStep s c (s.setConsumer c .idle)
  | release (e : α) (hphase : s.consumers c = .releasing e) :
      ConsumeStep s c ((s.setQueue s.queue.releaseSlot).setConsumer c (.notifying e))
  | notify (e : α) (picked : Nat) (shared : LaneState α) (hphase : s.consumers c = .notifying e)
      (hnotify : s.shared.notifyOne picked = some shared) :
      ConsumeStep s c { s.setConsumer c .idle with shared }

theorem consumeStep_of_consume {s s' : QueueState α} {c picked : Nat} {act : WorkerAct}
    (h : s.consume c act picked = some s') : ConsumeStep s c s' := by
  unfold QueueState.consume at h
  split at h
  · next blocking hphase =>
      split at h
      · next e queue hpop =>
          obtain rfl := Option.some.inj h
          unfold BlockingQueue.tryPop at hpop
          split at hpop
          · exact absurd hpop (by simp)
          · next e' rest hitems =>
              obtain ⟨rfl, rfl⟩ := Prod.mk.inj (Option.some.inj hpop)
              exact .take blocking e' rest hphase hitems
      · split at h
        · exact absurd h (by simp)
        · obtain rfl := Option.some.inj h
          exact .miss blocking hphase
  · next hphase =>
      obtain rfl := Option.some.inj h
      exact .miss true hphase
  · next e hphase =>
      obtain rfl := Option.some.inj h
      exact .release e hphase
  · next e hphase =>
      obtain ⟨shared, hnotify, rfl⟩ := Option.map_eq_some_iff.1 h
      exact .notify e picked shared hphase hnotify
  · exact absurd h (by simp)

/-! ## Slots -/

/-- The thread has reserved a slot and has neither pushed nor given it back. -/
def ProducerPhase.holdsSlot : ProducerPhase α → Bool
  | .pushing _ | .releasing => true
  | _ => false

/-- The thread has popped an element and not yet released its slot. -/
def ConsumerPhase.holdsSlot : ConsumerPhase α → Bool
  | .releasing _ => true
  | _ => false

namespace QueueState

/-- The slots that producers hold. -/
noncomputable def reserved (s : QueueState α) : Nat :=
  Threads.count (fun phase => phase.holdsSlot = true) s.shared.producers

/-- The slots of elements already popped. -/
noncomputable def unreleased (s : QueueState α) : Nat :=
  Threads.count (fun phase => phase.holdsSlot = true) s.consumers

end QueueState

/-- `size_` counts the queued elements and the slots in between. -/
structure SlotInv (capacity : UInt64) (s : QueueState α) : Prop where
  capacity_eq : s.queue.capacity = max capacity 1
  producers : Threads.FewBusy .idle s.shared.producers
  consumers : Threads.FewBusy .idle s.consumers
  slots : s.queue.size.toNat = s.items.length + s.reserved + s.unreleased
  bound : s.queue.size ≤ s.queue.capacity

theorem toNat_succ_of_lt {n capacity : UInt64} (h : n < capacity) :
    (n + 1).toNat = n.toNat + 1 := by
  have hmax : capacity.toNat < 2 ^ 64 := capacity.toNat_lt
  rw [UInt64.lt_iff_toNat_lt] at h
  rw [UInt64.toNat_add]
  simp only [UInt64.reduceToNat]
  omega

theorem toNat_pred_of_pos {n : UInt64} (h : 0 < n.toNat) : (n - 1).toNat = n.toNat - 1 := by
  refine UInt64.toNat_sub_of_le _ _ ?_
  rw [UInt64.le_iff_toNat_le]
  exact h

namespace SlotInv

variable {capacity : UInt64} {s s' : QueueState α}

theorem of_init (h : (queueCalls α capacity).init s) : SlotInv capacity s := by
  obtain ⟨accepting, rfl⟩ := h
  have hreserved : Threads.count (fun phase : ProducerPhase α => phase.holdsSlot = true)
      (fun _ : Nat => .idle) = 0 := Threads.count_eq_zero
      (fun _ => by simp [ProducerPhase.holdsSlot])
  have hunreleased : Threads.count (fun phase : ConsumerPhase α => phase.holdsSlot = true)
      (fun _ : Nat => .idle) = 0 := Threads.count_eq_zero
      (fun _ => by simp [ConsumerPhase.holdsSlot])
  refine ⟨rfl, Threads.fewBusy_const, Threads.fewBusy_const, ?_, ?_⟩
  · simp only [QueueState.reserved, QueueState.unreleased, hreserved, hunreleased]
    rfl
  · rw [UInt64.le_iff_toNat_le]
    exact Nat.zero_le _

/-- A producer moves from one phase to another and may change the queue: the books stay balanced if
    the change of `size_` is that of the queued elements and of the slot that the producer holds. -/
theorem moveProducer (h : SlotInv capacity s) {t : Nat} (phase : ProducerPhase α)
    {shared : LaneState α}
    (hproducers : shared.producers = Function.update s.shared.producers t phase)
    (hcapacity : shared.lane.queue.capacity = s.queue.capacity)
    (hbound : shared.lane.queue.size ≤ s.queue.capacity)
    (hslots : shared.lane.queue.size.toNat + s.items.length
        + (if (s.shared.producers t).holdsSlot = true then 1 else 0)
      = s.queue.size.toNat + shared.lane.queue.queue.items.length
        + (if phase.holdsSlot = true then 1 else 0)) :
    SlotInv capacity { s with shared } := by
  have hcount := h.producers.count_update t phase
    (P := fun phase => phase.holdsSlot = true) (by simp [ProducerPhase.holdsSlot])
  refine ⟨hcapacity.trans h.capacity_eq, ?_, h.consumers, ?_, hcapacity ▸ hbound⟩
  · rw [hproducers]
    exact h.producers.update t phase
  · have hold := h.slots
    simp only [QueueState.reserved, QueueState.unreleased] at hold
    show shared.lane.queue.size.toNat = shared.lane.queue.queue.items.length
      + Threads.count _ shared.producers + Threads.count _ s.consumers
    rw [hproducers]
    omega

/-- The same for a consumer. -/
theorem moveConsumer (h : SlotInv capacity s) {c : Nat} (phase : ConsumerPhase α)
    {queue : WorkersEventQueue α} (hcapacity : queue.capacity = s.queue.capacity)
    (hbound : queue.size ≤ s.queue.capacity)
    (hslots : queue.size.toNat + s.items.length
        + (if (s.consumers c).holdsSlot = true then 1 else 0)
      = s.queue.size.toNat + queue.queue.items.length
        + (if phase.holdsSlot = true then 1 else 0)) :
    SlotInv capacity ((s.setQueue queue).setConsumer c phase) := by
  have hcount := h.consumers.count_update c phase
    (P := fun phase => phase.holdsSlot = true) (by simp [ConsumerPhase.holdsSlot])
  refine ⟨hcapacity.trans h.capacity_eq, h.producers, h.consumers.update c phase, ?_,
    hcapacity ▸ hbound⟩
  have hold := h.slots
  simp only [QueueState.reserved, QueueState.unreleased] at hold
  show queue.size.toNat = queue.queue.items.length + Threads.count _ s.shared.producers
    + Threads.count _ (Function.update s.consumers c phase)
  omega

/-- A step of a producer that leaves the queue alone and holds no slot before or after it. -/
theorem stay (h : SlotInv capacity s) {t : Nat} (phase : ProducerPhase α) {shared : LaneState α}
    (hproducers : shared.producers = Function.update s.shared.producers t phase)
    (hqueue : shared.lane.queue = s.queue)
    (hslot : (s.shared.producers t).holdsSlot = phase.holdsSlot) :
    SlotInv capacity { s with shared } := by
  refine h.moveProducer phase hproducers (by rw [hqueue]) (by rw [hqueue]; exact h.bound) ?_
  rw [hqueue, hslot]

theorem wake (h : SlotInv capacity s) (t : Nat) :
    SlotInv capacity { s with shared := s.shared.wake t } := by
  unfold LaneState.wake
  split
  · next e hphase =>
      exact h.stay (.locking e) rfl rfl (by simp [hphase, ProducerPhase.holdsSlot])
  · exact h

theorem notifyAll (h : SlotInv capacity s) :
    SlotInv capacity { s with shared := s.shared.notifyAll } := by
  have hfold : ∀ (ts : List Nat) (shared : LaneState α), SlotInv capacity { s with shared } →
      SlotInv capacity { s with shared := ts.foldl LaneState.wake shared } := by
    intro ts
    induction ts with
    | nil => exact fun _ hs => hs
    | cons t ts ih => exact fun shared hs => ih (shared.wake t) (hs.wake t)
  exact hfold s.shared.sleepers s.shared h

theorem notifyOne (h : SlotInv capacity s) {picked : Nat} {shared : LaneState α}
    (hnotify : s.shared.notifyOne picked = some shared) : SlotInv capacity { s with shared } := by
  unfold LaneState.notifyOne at hnotify
  split at hnotify
  · obtain rfl := Option.some.inj hnotify
    exact h
  · split at hnotify
    · obtain rfl := Option.some.inj hnotify
      exact h.wake picked
    · exact absurd hnotify (by simp)

/-- A producer that is about to give back its slot finds it counted. -/
theorem size_pos_of_producer (h : SlotInv capacity s) {t : Nat}
    (ht : (s.shared.producers t).holdsSlot = true) : 0 < s.queue.size.toNat := by
  have hpos : 0 < s.reserved :=
    Threads.count_pos h.producers (by simp [ProducerPhase.holdsSlot]) ht
  have hslots := h.slots
  omega

theorem size_pos_of_consumer (h : SlotInv capacity s) {c : Nat}
    (hc : (s.consumers c).holdsSlot = true) : 0 < s.queue.size.toNat := by
  have hpos : 0 < s.unreleased :=
    Threads.count_pos h.consumers (by simp [ConsumerPhase.holdsSlot]) hc
  have hslots := h.slots
  omega

/-- Giving back a slot stays within the bounds. -/
theorem release_bound (h : SlotInv capacity s) (hpos : 0 < s.queue.size.toNat) :
    s.queue.releaseSlot.size ≤ s.queue.capacity := by
  have hbound := h.bound
  rw [UInt64.le_iff_toNat_le] at hbound ⊢
  rw [WorkersEventQueue.releaseSlot, toNat_pred_of_pos hpos]
  omega

theorem produce (h : SlotInv capacity s) {t : Nat} {shared : LaneState α}
    (hstep : LaneState.ProduceStep s.shared t shared) : SlotInv capacity { s with shared } := by
  cases hstep with
  | reserve e blocking hphase hroom =>
      have hroom : s.queue.size < s.queue.capacity := hroom
      refine h.moveProducer (.pushing e) rfl rfl ?_ ?_
      · rw [UInt64.le_iff_toNat_le]
        show (s.queue.size + 1).toNat ≤ s.queue.capacity.toNat
        rw [toNat_succ_of_lt hroom]
        exact UInt64.lt_iff_toNat_lt.1 hroom
      · show (s.queue.size + 1).toNat + s.items.length
            + (if (s.shared.producers t).holdsSlot = true then 1 else 0)
          = s.queue.size.toNat + s.items.length + 1
        rw [toNat_succ_of_lt hroom, hphase]
        simp only [ProducerPhase.holdsSlot, Bool.false_eq_true, if_false]
        omega
  | push e queue hphase hpush =>
      obtain ⟨-, rfl⟩ := BlockingQueue.push_eq_some hpush
      refine h.moveProducer .idle rfl rfl h.bound ?_
      -- what was a slot is a queued element now
      show s.queue.size.toNat + s.items.length
          + (if (s.shared.producers t).holdsSlot = true then 1 else 0)
        = s.queue.size.toNat + (s.items ++ [e]).length + 0
      rw [hphase, List.length_append]
      rfl
  | release hphase =>
      have hpos : 0 < s.queue.size.toNat :=
        h.size_pos_of_producer (t := t) (by simp [hphase, ProducerPhase.holdsSlot])
      refine h.moveProducer .notifying rfl rfl (h.release_bound hpos) ?_
      show (s.queue.size - 1).toNat + s.items.length
          + (if (s.shared.producers t).holdsSlot = true then 1 else 0)
        = s.queue.size.toNat + s.items.length + 0
      rw [toNat_pred_of_pos hpos, hphase]
      simp only [ProducerPhase.holdsSlot, if_true]
      omega
  | notify picked shared hphase hnotify =>
      have hidle : SlotInv capacity { s with shared := s.shared.setProducer t .idle } :=
        h.stay .idle rfl rfl (by simp [hphase, ProducerPhase.holdsSlot])
      exact hidle.notifyOne hnotify
  -- the other steps leave `size_` and the queued elements alone
  | _ => exact h.stay _ rfl rfl (by simp only [*, ProducerPhase.holdsSlot])

/-- The same for a consumer. -/
theorem stayConsumer (h : SlotInv capacity s) {c : Nat} (phase : ConsumerPhase α)
    (hslot : (s.consumers c).holdsSlot = phase.holdsSlot) :
    SlotInv capacity (s.setConsumer c phase) := by
  have hsame : SlotInv capacity ((s.setQueue s.queue).setConsumer c phase) := by
    refine h.moveConsumer phase rfl h.bound ?_
    rw [hslot]
  exact hsame

theorem consume (h : SlotInv capacity s) {c : Nat} (hstep : ConsumeStep s c s') :
    SlotInv capacity s' := by
  cases hstep with
  | take blocking e rest hphase hitems =>
      refine h.moveConsumer (.releasing e) rfl h.bound ?_
      -- what was a queued element is a slot to be released now
      show s.queue.size.toNat + s.items.length
          + (if (s.consumers c).holdsSlot = true then 1 else 0)
        = s.queue.size.toNat + rest.length + 1
      rw [hphase, hitems]
      rfl
  | miss blocking hphase => exact h.stayConsumer .idle (by rw [hphase]; rfl)
  | release e hphase =>
      have hpos : 0 < s.queue.size.toNat :=
        h.size_pos_of_consumer (c := c) (by simp [hphase, ConsumerPhase.holdsSlot])
      refine h.moveConsumer (.notifying e) rfl (h.release_bound hpos) ?_
      show (s.queue.size - 1).toNat + s.items.length
          + (if (s.consumers c).holdsSlot = true then 1 else 0)
        = s.queue.size.toNat + s.items.length + 0
      rw [toNat_pred_of_pos hpos, hphase]
      simp only [ConsumerPhase.holdsSlot, if_true]
      omega
  | notify e picked shared hphase hnotify =>
      have hidle : SlotInv capacity (s.setConsumer c .idle) :=
        h.stayConsumer .idle (by rw [hphase]; rfl)
      exact hidle.notifyOne hnotify

/-- `close` and the loads and stores of `accepting` do not touch the books. -/
theorem advance (h : SlotInv capacity s) {k : Nat} (hstep : s.advance k = some s') :
    SlotInv capacity s' := by
  unfold QueueState.advance at hstep
  split at hstep
  · exact absurd hstep (by simp)
  · obtain rfl := Option.some.inj hstep
    exact ⟨h.capacity_eq, h.producers, h.consumers, h.slots, h.bound⟩
  · obtain rfl := Option.some.inj hstep
    have hidle : SlotInv capacity (s.setCloser k .idle) :=
      ⟨h.capacity_eq, h.producers, h.consumers, h.slots, h.bound⟩
    exact hidle.notifyAll

theorem step (h : SlotInv capacity s) {l : QueueStep α}
    (hstep : (queueCalls α capacity).next s l = some s') : SlotInv capacity s' := by
  cases l with
  | push t e blocking =>
      simp only [queueCalls] at hstep
      split at hstep
      · next hphase =>
          obtain rfl := Option.some.inj hstep
          refine h.stay (if blocking then .entering e else .loading e false) rfl rfl ?_
          rw [hphase]
          cases blocking <;> rfl
      · exact absurd hstep (by simp)
  | produce t spurious picked =>
      obtain ⟨shared, hproduce, rfl⟩ := Option.map_eq_some_iff.1 hstep
      exact h.produce (LaneState.produceStep_of_produce hproduce)
  | wake t =>
      obtain rfl := Option.some.inj hstep
      exact h.wake t
  | pop c blocking =>
      simp only [queueCalls] at hstep
      split at hstep
      · next hphase =>
          obtain rfl := Option.some.inj hstep
          exact h.stayConsumer (.popping blocking) (by rw [hphase]; rfl)
      · exact absurd hstep (by simp)
  | consume c act picked => exact h.consume (consumeStep_of_consume hstep)
  | close k =>
      simp only [queueCalls] at hstep
      split at hstep
      · obtain rfl := Option.some.inj hstep
        exact ⟨h.capacity_eq, h.producers, h.consumers, h.slots, h.bound⟩
      · exact absurd hstep (by simp)
  | advance k => exact h.advance hstep
  | accept accepting =>
      obtain rfl := Option.some.inj hstep
      exact ⟨h.capacity_eq, h.producers, h.consumers, h.slots, h.bound⟩

theorem reachable (hs : (queueCalls α capacity).Reachable s) : SlotInv capacity s :=
  hs.invariant (fun _ hinit => of_init hinit) (fun _ _ _ h _ hstep => h.step hstep)

end SlotInv

/-! ## The accounts -/

/-- What the slot counter of a queue constructed with `capacity` promises in state `s`. -/
structure SlotAccounts (capacity : UInt64) (s : QueueState α) : Prop where
  /-- only finitely many threads hold a slot, so that `reserved` and `unreleased` count them -/
  holders : {t | (s.shared.producers t).holdsSlot = true}.Finite ∧
    {c | (s.consumers c).holdsSlot = true}.Finite
  exact_size : s.queue.size.toNat = s.items.length + s.reserved + s.unreleased
  size_le : s.queue.size ≤ s.queue.capacity
  length_le : s.items.length ≤ max 1 capacity.toNat
  /-- a push that fails on a closed queue keeps its slot reserved until it gives it back -/
  failed_push : ∀ t e spurious picked, s.shared.producers t = .pushing e →
    s.queue.queue.closed = true →
    ∃ s', (queueCalls α capacity).next s (.produce t spurious picked) = some s' ∧
      s'.queue = s.queue ∧ s'.shared.producers t = .releasing
  /-- the decrements do not wrap and are never held up -/
  give_back : ∀ t spurious picked, s.shared.producers t = .releasing →
    ∃ s', (queueCalls α capacity).next s (.produce t spurious picked) = some s' ∧
      s'.queue.size.toNat + 1 = s.queue.size.toNat ∧ s'.items = s.items ∧
      (s'.shared.producers t).holdsSlot = false
  free_popped : ∀ c e picked, s.consumers c = .releasing e →
    ∃ s', (queueCalls α capacity).next s (.consume c .run picked) = some s' ∧
      s'.queue.size.toNat + 1 = s.queue.size.toNat ∧ s'.items = s.items ∧
      (s'.consumers c).holdsSlot = false
  /-- nothing is leaked: with no call in between, `size_` is the number of queued elements -/
  no_leak : (∀ t, (s.shared.producers t).holdsSlot = false) →
    (∀ c, (s.consumers c).holdsSlot = false) → s.queue.size.toNat = s.items.length

/-- **Slot accounting is exact.** In whatever order any number of threads push, pop and close, the
    counter counts the queued elements, the reserved slots and the slots of elements just popped. -/
theorem slot_accounting {capacity : UInt64} {s : QueueState α}
    (hs : (queueCalls α capacity).Reachable s) : SlotAccounts capacity s := by
  have h := SlotInv.reachable hs
  have hbound : s.queue.size.toNat ≤ s.queue.capacity.toNat := UInt64.le_iff_toNat_le.1 h.bound
  have hcapacity : s.queue.capacity.toNat = max 1 capacity.toNat := by
    rw [h.capacity_eq]
    show (if capacity ≤ 1 then 1 else capacity).toNat = max 1 capacity.toNat
    simp only [UInt64.le_iff_toNat_le, UInt64.reduceToNat]
    split <;> simp <;> omega
  have hslots := h.slots
  refine ⟨⟨?_, ?_⟩, hslots, h.bound, by omega, ?_, ?_, ?_, ?_⟩
  · exact h.producers.finite (P := fun phase => phase.holdsSlot = true)
      (by simp [ProducerPhase.holdsSlot])
  · exact h.consumers.finite (P := fun phase => phase.holdsSlot = true)
      (by simp [ConsumerPhase.holdsSlot])
  · intro t e spurious picked hphase hclosed
    refine ⟨{ s with shared := s.shared.setProducer t .releasing }, ?_, rfl, by
      simp [LaneState.setProducer]⟩
    simp [queueCalls, LaneState.produce, hphase, BlockingQueue.push, hclosed]
  · intro t spurious picked hphase
    have hpos : 0 < s.queue.size.toNat :=
      h.size_pos_of_producer (t := t) (by simp [hphase, ProducerPhase.holdsSlot])
    refine ⟨{ s with shared := (s.shared.setQueue s.queue.releaseSlot).setProducer t .notifying },
      by simp [queueCalls, LaneState.produce, hphase], ?_, rfl,
      by simp [LaneState.setProducer, ProducerPhase.holdsSlot]⟩
    show (s.queue.size - 1).toNat + 1 = s.queue.size.toNat
    rw [toNat_pred_of_pos hpos]
    omega
  · intro c e picked hphase
    have hpos : 0 < s.queue.size.toNat :=
      h.size_pos_of_consumer (c := c) (by simp [hphase, ConsumerPhase.holdsSlot])
    refine ⟨(s.setQueue s.queue.releaseSlot).setConsumer c (.notifying e),
      by simp [queueCalls, QueueState.consume, hphase], ?_, rfl,
      by simp [QueueState.setConsumer, ConsumerPhase.holdsSlot]⟩
    show (s.queue.size - 1).toNat + 1 = s.queue.size.toNat
    rw [toNat_pred_of_pos hpos]
    omega
  · intro hproducers hconsumers
    have hreserved : s.reserved = 0 := Threads.count_eq_zero (fun t => by simp [hproducers t])
    have hunreleased : s.unreleased = 0 := Threads.count_eq_zero (fun c => by simp [hconsumers c])
    omega

/-- A slot is reserved on an open queue, which is closed before the push. -/
theorem slot_accounting_closed_queue :
    ∃ s : QueueState Nat, s.shared.producers 0 = .releasing ∧ s.queue.size = 1 ∧ s.items = [] ∧
      SlotAccounts 0 s := by
  have hinit : (queueCalls Nat 0).Reachable
      { shared := { lane := { route := {}, queue := .new 0 }, accepting := true } } :=
    .init ⟨true, rfl⟩
  have hs := hinit.run [.push 0 5 false, .produce 0 false 0, .produce 0 false 0, .close 0,
    .advance 0, .produce 0 false 0] rfl
  exact ⟨_, rfl, rfl, rfl, slot_accounting hs⟩

end SyLog
