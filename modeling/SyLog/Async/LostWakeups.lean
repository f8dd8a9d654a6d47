import SyLog.Async.QueueMachine

set_option autoImplicit false

/-! # Lost wakeups

`push_blocking` sleeps on `cv_space_` until `size_` is below the capacity or `accepting` is off.
Neither is changed under `space_m_`, and both notifications are sent without it. So a producer that
has found its predicate false and has not yet gone to sleep can miss the notification that its
predicate has become true, and nobody sends it another one.

The queue's callers are joined by a thread that shuts down as `Pipeline::close` does: it stores
`accepting`, closes the queue and notifies all. A producer that goes to sleep is **covered** if a
shutdown is under way, or if enough of the others are still to notify. The results: while only
covered producers go to sleep, no producer is left behind, and without that condition one is. -/

namespace SyLog

variable {α : Type}

/-! ## The machine -/

/-- Where the thread that shuts down is. -/
inductive ShutdownPhase where
  | idle
  /-- `accepting` is to be set to false -/
  | refusing
  /-- `queue_.close()` -/
  | closing
  /-- `cv_space_.notify_all()` -/
  | notifying
  deriving DecidableEq, Repr

structure ShutdownState (α : Type) where
  calls : QueueState α
  phase : ShutdownPhase := .idle

inductive ShutdownStep (α : Type) where
  /-- a step of a producer or of a consumer -/
  | call (l : QueueStep α)
  | shutDown
  /-- the thread that shuts down goes on -/
  | advance

/-- The step is part of a shutdown. -/
def QueueStep.stops : QueueStep α → Bool
  | .close _ | .advance _ | .accept _ => true
  | _ => false

/-- The next step of a shutdown. -/
def ShutdownState.advance (s : ShutdownState α) : Option (ShutdownState α) :=
  match s.phase with
  | .idle => none
  | .refusing =>
    some { calls := { s.calls with shared := { s.calls.shared with accepting := false } }
           phase := .closing }
  | .closing => some { calls := s.calls.setQueue s.calls.queue.close, phase := .notifying }
  | .notifying =>
    some { calls := { s.calls with shared := s.calls.shared.notifyAll }, phase := .idle }

/-- Producers and consumers on a queue constructed with `capacity`, and a thread that shuts down,
    any number of times. -/
def queueShutdown (α : Type) (capacity : UInt64) : Machine (ShutdownState α) (ShutdownStep α) where
  init s := ∃ calls, (queueCalls α capacity).init calls ∧ s = { calls }
  next s
    | .call l =>
      if l.stops then none
      else ((queueCalls α capacity).next s.calls l).map fun calls => { s with calls }
    | .shutDown =>
      match s.phase with
      | .idle => some { s with phase := .refusing }
      | _ => none
    | .advance => s.advance

/-! ## Who is left behind -/

/-- A producer sleeps although its predicate holds, and every other thread is outside the queue's
    operations, asleep or waiting for a new event. A thread that has been notified is not asleep, so
    no wakeup is pending. -/
structure Stranded (s : ShutdownState α) : Prop where
  asleep : ∃ t e, s.calls.shared.producers t = .asleep e
  predicate : s.calls.queue.size < s.calls.queue.capacity ∨ s.calls.shared.accepting = false
  producers : ∀ t, s.calls.shared.producers t = .idle ∨
    ∃ e, s.calls.shared.producers t = .asleep e
  consumers : ∀ c, s.calls.consumers c = .idle ∨
    s.calls.consumers c = .popping true ∧ s.calls.items = []
  shutdown : s.phase = .idle

/-! ## Who is still to notify -/

/-- The thread is in `release_slot_`: its `notify_one` is still to come. -/
def ProducerPhase.notifies : ProducerPhase α → Bool
  | .releasing | .notifying => true
  | _ => false

def ConsumerPhase.notifies : ConsumerPhase α → Bool
  | .releasing _ | .notifying _ => true
  | _ => false

/-- The thread answers for one free slot: it has made the slot free and is about to notify, or it is
    awake and tries for a slot until it has one or finds none. -/
def ProducerPhase.attends (capacity : UInt64) : ProducerPhase α → Bool
  | .entering _ | .loading _ _ | .locking _ | .testing _ | .measuring _ | .notifying => true
  | .swapping _ blocking n => blocking || n < capacity
  | _ => false

def ConsumerPhase.attends : ConsumerPhase α → Bool
  | .notifying _ => true
  | _ => false

namespace QueueState

def freeSlots (s : QueueState α) : Nat := s.queue.capacity.toNat - s.queue.size.toNat

noncomputable def notifications (s : QueueState α) : Nat :=
  Threads.count (fun phase => phase.notifies = true) s.shared.producers
    + Threads.count (fun phase => phase.notifies = true) s.consumers

noncomputable def attending (s : QueueState α) : Nat :=
  Threads.count (fun phase => phase.attends s.queue.capacity = true) s.shared.producers
    + Threads.count (fun phase => phase.attends = true) s.consumers

/-- Up to `k`, there are as many notifications to come as `n` sleeping producers need, or each free
    slot has a thread that answers for it. -/
def Enough (s : QueueState α) (n k : Nat) : Prop :=
  n ≤ s.notifications + k ∨ s.shared.accepting = true ∧ s.freeSlots ≤ s.attending + k

end QueueState

/-- One more producer may go to sleep. -/
def ShutdownState.Covered (s : ShutdownState α) : Prop :=
  s.phase ≠ .idle ∨ s.calls.Enough (s.calls.shared.sleepers.length + 1) 0

/-- The step puts a producer to sleep. -/
def ShutdownStep.sleeps (s : ShutdownState α) : ShutdownStep α → Bool
  | .call (.produce t _ _) =>
    match s.calls.shared.producers t with
    | .dozing _ => true
    | _ => false
  | _ => false

/-- A producer goes to sleep only where it is covered. -/
def SleepsCovered (s : ShutdownState α) (l : ShutdownStep α) : Prop := l.sleeps s = true → s.Covered

/-! ## The sleeping threads -/

/-- `sleepers` lists the threads that are asleep, each once. -/
structure LaneState.SleepersInv (s : LaneState α) : Prop where
  mem_iff : ∀ t, t ∈ s.sleepers ↔ ∃ e, s.producers t = .asleep e
  nodup : s.sleepers.Nodup

def ProducerPhase.sleeps : ProducerPhase α → Bool
  | .asleep _ => true
  | _ => false

namespace LaneState

variable {s s' : LaneState α}

/-- A thread that is woken is off the list and on its way to `space_m_`. -/
theorem wake_eq {t : Nat} {e : α} (hphase : s.producers t = .asleep e) :
    s.wake t = { s.setProducer t (.locking e) with sleepers := s.sleepers.erase t } := by
  rw [wake, hphase]

/-- A thread moves between phases in neither of which it sleeps. -/
theorem SleepersInv.move (h : s.SleepersInv) {t : Nat} (phase : ProducerPhase α)
    (hproducers : s'.producers = Function.update s.producers t phase)
    (hsleepers : s'.sleepers = s.sleepers) (hold : (s.producers t).sleeps = false)
    (hnew : phase.sleeps = false) : s'.SleepersInv := by
  refine ⟨fun t' => ?_, hsleepers ▸ h.nodup⟩
  rw [hsleepers, hproducers, h.mem_iff]
  by_cases ht : t' = t
  · subst ht
    rw [Function.update_self]
    constructor
    · rintro ⟨e, he⟩
      rw [he] at hold
      exact absurd hold (by simp [ProducerPhase.sleeps])
    · rintro ⟨e, he⟩
      rw [he] at hnew
      exact absurd hnew (by simp [ProducerPhase.sleeps])
  · rw [Function.update_of_ne ht]

theorem SleepersInv.wake (h : s.SleepersInv) (t : Nat) : (s.wake t).SleepersInv := by
  by_cases ht : t ∈ s.sleepers
  · obtain ⟨e, he⟩ := (h.mem_iff t).1 ht
    rw [wake_eq he]
    refine ⟨fun t' => ?_, h.nodup.erase t⟩
    show t' ∈ s.sleepers.erase t ↔ ∃ e', Function.update s.producers t (.locking e) t' = .asleep e'
    rw [h.nodup.mem_erase_iff, h.mem_iff]
    by_cases htt : t' = t
    · simp [htt]
    · simp [htt]
  · have hawake : ∀ e, s.producers t ≠ .asleep e := fun e he => ht ((h.mem_iff t).2 ⟨e, he⟩)
    unfold LaneState.wake
    split
    · next e he => exact absurd he (hawake e)
    · exact h

theorem SleepersInv.notifyAll (h : s.SleepersInv) :
    s.notifyAll.SleepersInv ∧ s.notifyAll.sleepers = [] := by
  have hfold : ∀ (ts : List Nat) (s : LaneState α), s.SleepersInv → s.sleepers = ts →
      (ts.foldl LaneState.wake s).SleepersInv ∧ (ts.foldl LaneState.wake s).sleepers = [] := by
    intro ts
    induction ts with
    | nil =>
        intro s h hs
        exact ⟨h, hs⟩
    | cons t ts ih =>
        intro s h hs
        obtain ⟨e, he⟩ := (h.mem_iff t).1 (by rw [hs]; exact List.mem_cons_self)
        refine ih (s.wake t) (h.wake t) ?_
        rw [wake_eq he]
        show s.sleepers.erase t = ts
        rw [hs, List.erase_cons_head]
  exact hfold s.sleepers s h rfl

theorem SleepersInv.sleep (h : s.SleepersInv) {t : Nat} {e : α}
    (hphase : s.producers t = .dozing e) :
    ({ s.setProducer t (.asleep e) with
      spaceHolder := none, sleepers := s.sleepers ++ [t] } : LaneState α).SleepersInv := by
  have ht : t ∉ s.sleepers := by
    intro hmem
    obtain ⟨e', he'⟩ := (h.mem_iff t).1 hmem
    rw [hphase] at he'
    cases he'
  refine ⟨fun t' => ?_, ?_⟩
  · show t' ∈ s.sleepers ++ [t] ↔ ∃ e', Function.update s.producers t (.asleep e) t' = .asleep e'
    rw [List.mem_append, h.mem_iff]
    by_cases htt : t' = t
    · simp [htt]
    · simp [htt]
  · show (s.sleepers ++ [t]).Nodup
    rw [List.nodup_append]
    exact ⟨h.nodup, List.nodup_singleton t, fun a ha b hb hab =>
      ht (by rw [List.mem_singleton.1 hb] at hab; exact hab ▸ ha)⟩

theorem SleepersInv.notifyOne (h : s.SleepersInv) {picked : Nat}
    (hnotify : s.notifyOne picked = some s') : s'.SleepersInv := by
  unfold LaneState.notifyOne at hnotify
  split at hnotify
  · obtain rfl := Option.some.inj hnotify
    exact h
  · split at hnotify
    · obtain rfl := Option.some.inj hnotify
      exact h.wake picked
    · exact absurd hnotify (by simp)

theorem SleepersInv.produce (h : s.SleepersInv) {t : Nat} (hstep : ProduceStep s t s') :
    s'.SleepersInv := by
  cases hstep with
  | sleep e hphase => exact h.sleep hphase
  | notify picked s' hphase hnotify =>
      have hidle : (s.setProducer t .idle).SleepersInv :=
        h.move .idle rfl rfl (by rw [hphase]; rfl) rfl
      exact hidle.notifyOne hnotify
  | _ => exact h.move _ rfl rfl (by simp only [*, ProducerPhase.sleeps]) rfl

end LaneState

/-! ## Enough notifications -/

namespace QueueState

variable {capacity : UInt64} {s : QueueState α} {n n' k k' : Nat}

/-- A producer moves from one phase to another and may change `size_`. What it no longer notifies
    must show in the number of sleepers or in the allowance, and so must a slot that it makes free
    or no longer answers for. -/
theorem Enough.moveProducer (henough : s.Enough n k) (h : SlotInv capacity s) {t : Nat}
    (phase : ProducerPhase α) {shared : LaneState α}
    (hproducers : shared.producers = Function.update s.shared.producers t phase)
    (hcapacity : shared.lane.queue.capacity = s.queue.capacity)
    (hacc : shared.accepting = s.shared.accepting)
    (hnotifies : n' + (if (s.shared.producers t).notifies = true then 1 else 0) + k
      ≤ n + (if phase.notifies = true then 1 else 0) + k')
    (hfree : s.shared.accepting = true →
      shared.lane.queue.capacity.toNat - shared.lane.queue.size.toNat
          + (if (s.shared.producers t).attends s.queue.capacity = true then 1 else 0) + k
        ≤ s.freeSlots + (if phase.attends s.queue.capacity = true then 1 else 0) + k' ∨
      shared.lane.queue.capacity.toNat - shared.lane.queue.size.toNat = 0) :
    Enough { s with shared } n' k' := by
  rcases henough with hn | ⟨ha, hf⟩
  · refine Or.inl ?_
    have hcount := h.producers.count_update t phase
      (P := fun phase => phase.notifies = true) (by simp [ProducerPhase.notifies])
    simp only [notifications] at hn ⊢
    rw [hproducers]
    omega
  · refine Or.inr ⟨hacc.trans ha, ?_⟩
    have hcount := h.producers.count_update t phase
      (P := fun phase => phase.attends s.queue.capacity = true) (by simp [ProducerPhase.attends])
    have hfree := hfree ha
    simp only [attending] at hf
    show shared.lane.queue.capacity.toNat - shared.lane.queue.size.toNat
      ≤ Threads.count (fun phase => phase.attends shared.lane.queue.capacity = true)
          shared.producers
        + Threads.count (fun phase => phase.attends = true) s.consumers + k'
    rw [hproducers]
    simp only [hcapacity] at hfree ⊢
    omega

/-- The same for a consumer. -/
theorem Enough.moveConsumer (henough : s.Enough n k) (h : SlotInv capacity s) {c : Nat}
    (phase : ConsumerPhase α) {queue : WorkersEventQueue α}
    (hcapacity : queue.capacity = s.queue.capacity)
    (hnotifies : n' + (if (s.consumers c).notifies = true then 1 else 0) + k
      ≤ n + (if phase.notifies = true then 1 else 0) + k')
    (hfree : queue.capacity.toNat - queue.size.toNat
          + (if (s.consumers c).attends = true then 1 else 0) + k
        ≤ s.freeSlots + (if phase.attends = true then 1 else 0) + k') :
    Enough ((s.setQueue queue).setConsumer c phase) n' k' := by
  rcases henough with hn | ⟨ha, hf⟩
  · refine Or.inl ?_
    have hcount := h.consumers.count_update c phase
      (P := fun phase => phase.notifies = true) (by simp [ConsumerPhase.notifies])
    simp only [notifications] at hn
    show n' ≤ Threads.count _ s.shared.producers
      + Threads.count _ (Function.update s.consumers c phase) + k'
    omega
  · refine Or.inr ⟨ha, ?_⟩
    have hcount := h.consumers.count_update c phase
      (P := fun phase => phase.attends = true) (by simp [ConsumerPhase.attends])
    simp only [attending] at hf
    show queue.capacity.toNat - queue.size.toNat
      ≤ Threads.count (fun phase => phase.attends queue.capacity = true) s.shared.producers
        + Threads.count _ (Function.update s.consumers c phase) + k'
    rw [hcapacity] at hfree ⊢
    omega

theorem Enough.mono (henough : s.Enough n k) (hn : n' ≤ n) (hk : k ≤ k') : s.Enough n' k' := by
  rcases henough with h | ⟨ha, hf⟩
  · exact Or.inl (by omega)
  · exact Or.inr ⟨ha, by omega⟩

/-- A sleeping producer is woken: one fewer sleeps, and one more answers for a free slot. -/
theorem Enough.wake {t : Nat} {e : α} (henough : s.Enough (n + 1) (k + 1))
    (h : SlotInv capacity s) (hphase : s.shared.producers t = .asleep e) :
    Enough { s with shared := s.shared.wake t } n k := by
  rw [LaneState.wake_eq hphase]
  refine henough.moveProducer h (t := t) (.locking e) rfl rfl rfl ?_ (fun _ => Or.inl ?_)
  · simp [hphase, ProducerPhase.notifies]
    omega
  · show s.freeSlots + _ + _ ≤ _
    simp only [hphase, ProducerPhase.attends]
    simp
    omega

/-- Whoever sleeps need not worry. -/
def Attended (s : QueueState α) (k : Nat) : Prop :=
  s.shared.sleepers ≠ [] → s.Enough s.shared.sleepers.length k

theorem Attended.moveProducer (hatt : s.Attended k) (h : SlotInv capacity s) {t : Nat}
    (phase : ProducerPhase α) {shared : LaneState α}
    (hproducers : shared.producers = Function.update s.shared.producers t phase)
    (hcapacity : shared.lane.queue.capacity = s.queue.capacity)
    (hacc : shared.accepting = s.shared.accepting)
    (hsleepers : shared.sleepers = s.shared.sleepers)
    (hnotifies : (if (s.shared.producers t).notifies = true then 1 else 0) + k
      ≤ (if phase.notifies = true then 1 else 0) + k')
    (hfree : s.shared.accepting = true →
      shared.lane.queue.capacity.toNat - shared.lane.queue.size.toNat
          + (if (s.shared.producers t).attends s.queue.capacity = true then 1 else 0) + k
        ≤ s.freeSlots + (if phase.attends s.queue.capacity = true then 1 else 0) + k' ∨
      shared.lane.queue.capacity.toNat - shared.lane.queue.size.toNat = 0) :
    Attended { s with shared } k' := by
  intro hsome
  show Enough _ shared.sleepers.length k'
  rw [hsleepers]
  exact (hatt (hsleepers ▸ hsome)).moveProducer h phase hproducers hcapacity hacc (by omega) hfree

theorem freeSlots_eq_zero (hfull : ¬ s.queue.size < s.queue.capacity) : s.freeSlots = 0 := by
  rw [UInt64.lt_iff_toNat_lt] at hfull
  unfold freeSlots
  omega

/-- A producer loads `size_`: where there is a free slot, it now tries for it. -/
theorem Attended.load (hatt : s.Attended 0) (h : SlotInv capacity s) {t : Nat} {e : α}
    {blocking : Bool} (hphase : (s.shared.producers t).notifies = false) :
    Attended { s with shared := s.shared.setProducer t (.swapping e blocking s.queue.size) } 0 := by
  refine hatt.moveProducer h (t := t) _ rfl rfl rfl rfl (by simp [hphase]) (fun _ => ?_)
  by_cases hroom : s.queue.size < s.queue.capacity
  · have hattends :
        (ProducerPhase.swapping e blocking s.queue.size).attends s.queue.capacity = true := by
      simp [ProducerPhase.attends, hroom]
    refine Or.inl ?_
    rw [hattends]
    show s.freeSlots + _ + 0 ≤ s.freeSlots + 1 + 0
    split <;> omega
  · exact Or.inr (freeSlots_eq_zero hroom)

theorem Attended.wake (hatt : s.Attended k) (h : SlotInv capacity s)
    (hsleepers : s.shared.SleepersInv) (t : Nat) :
    Attended { s with shared := s.shared.wake t } k := by
  cases hphase : s.shared.producers t with
  | asleep e =>
      intro _
      have ht : t ∈ s.shared.sleepers := (hsleepers.mem_iff t).2 ⟨e, hphase⟩
      have hlength : s.shared.sleepers.length = (s.shared.sleepers.erase t).length + 1 :=
        (List.length_erase_add_one ht).symm
      have henough := hatt (List.ne_nil_of_mem ht)
      rw [hlength] at henough
      have hwoken := (henough.mono le_rfl (Nat.le_succ k)).wake h hphase
      rw [LaneState.wake_eq hphase] at hwoken ⊢
      exact hwoken
  | _ =>
      rw [LaneState.wake]
      simp only [hphase]
      exact hatt

/-- A notification uses up the allowance of its thread, which is done with the queue. -/
theorem Attended.notifyOne (hatt : s.Attended 1) (h : SlotInv capacity s)
    (hsleepers : s.shared.SleepersInv) {picked : Nat} {shared : LaneState α}
    (hnotify : s.shared.notifyOne picked = some shared) : Attended { s with shared } 0 := by
  unfold LaneState.notifyOne at hnotify
  split at hnotify
  · next hnone =>
      obtain rfl := Option.some.inj hnotify
      exact fun hsome => absurd hnone hsome
  · split at hnotify
    · next hpicked =>
        obtain rfl := Option.some.inj hnotify
        obtain ⟨e, hphase⟩ := (hsleepers.mem_iff picked).1 hpicked
        have hlength : s.shared.sleepers.length = (s.shared.sleepers.erase picked).length + 1 :=
          (List.length_erase_add_one hpicked).symm
        have henough := hatt (List.ne_nil_of_mem hpicked)
        rw [hlength] at henough
        have hwoken := henough.wake h hphase
        intro _
        rw [LaneState.wake_eq hphase] at hwoken ⊢
        exact hwoken
    · exact absurd hnotify (by simp)

theorem Attended.produce (hatt : s.Attended 0) (h : SlotInv capacity s)
    (hsleepers : s.shared.SleepersInv) {t : Nat} {shared : LaneState α}
    (hstep : LaneState.ProduceStep s.shared t shared)
    (hsleep : ∀ e, s.shared.producers t = .dozing e →
      s.Enough (s.shared.sleepers.length + 1) 0) : Attended { s with shared } 0 := by
  cases hstep with
  | sleep e hphase =>
      intro _
      have hn : (s.shared.sleepers ++ [t]).length = s.shared.sleepers.length + 1 := by simp
      show Enough _ (s.shared.sleepers ++ [t]).length 0
      rw [hn]
      refine (hsleep e hphase).moveProducer h (t := t) (.asleep e) rfl rfl rfl ?_
        (fun _ => Or.inl ?_)
      · simp [hphase, ProducerPhase.notifies]
      · show s.freeSlots + _ + _ ≤ _
        simp [hphase, ProducerPhase.attends]
  | notify picked shared hphase hnotify =>
      -- the thread leaves with its notification, which is what is made good for here
      have hidle : Attended { s with shared := s.shared.setProducer t .idle } 1 := by
        refine hatt.moveProducer h (t := t) .idle rfl rfl rfl rfl ?_ (fun _ => Or.inl ?_)
        · simp [hphase, ProducerPhase.notifies]
        · show s.freeSlots + _ + _ ≤ _
          simp [hphase, ProducerPhase.attends]
      exact hidle.notifyOne (h.stay .idle rfl rfl (by rw [hphase]; rfl))
        (hsleepers.move .idle rfl rfl (by rw [hphase]; rfl) rfl) hnotify
  | reserve e blocking hphase hroom =>
      have hroom : s.queue.size < s.queue.capacity := hroom
      refine hatt.moveProducer h (t := t) (.pushing e) rfl rfl rfl rfl ?_ (fun _ => Or.inl ?_)
      · simp [hphase, ProducerPhase.notifies]
      · show s.queue.capacity.toNat - (s.queue.size + 1).toNat + _ + _ ≤ s.freeSlots + _ + _
        have hlt := UInt64.lt_iff_toNat_lt.1 hroom
        rw [toNat_succ_of_lt hroom, hphase]
        simp [ProducerPhase.attends, hroom, freeSlots]
        omega
  | release hphase =>
      have hpos : 0 < s.queue.size.toNat :=
        h.size_pos_of_producer (t := t) (by simp [hphase, ProducerPhase.holdsSlot])
      refine hatt.moveProducer h (t := t) .notifying rfl rfl rfl rfl ?_ (fun _ => Or.inl ?_)
      · simp [hphase, ProducerPhase.notifies]
      · show s.queue.capacity.toNat - (s.queue.size - 1).toNat + _ + _ ≤ s.freeSlots + _ + _
        rw [toNat_pred_of_pos hpos, hphase]
        simp [ProducerPhase.attends, freeSlots]
        omega
  | refuse e hphase hacc =>
      refine hatt.moveProducer h (t := t) .idle rfl rfl rfl rfl ?_ (fun ha => ?_)
      · simp [hphase, ProducerPhase.notifies]
      · rw [hacc] at ha
        exact absurd ha (by simp)
  | load e blocking hphase => exact hatt.load h (by rw [hphase]; rfl)
  | retry e blocking n hphase => exact hatt.load h (by rw [hphase]; rfl)
  | doze e hphase hfull =>
      refine hatt.moveProducer h (t := t) (.dozing e) rfl rfl rfl rfl ?_
        (fun _ => Or.inr (freeSlots_eq_zero hfull))
      simp [hphase, ProducerPhase.notifies]
  | _ =>
      refine hatt.moveProducer h (t := t) _ rfl rfl rfl rfl ?_ (fun _ => Or.inl ?_)
      · simp [*, ProducerPhase.notifies]
      · show s.freeSlots + _ + _ ≤ _
        simp [*, ProducerPhase.attends]

theorem Attended.moveConsumer (hatt : s.Attended k) (h : SlotInv capacity s) {c : Nat}
    (phase : ConsumerPhase α) {queue : WorkersEventQueue α}
    (hcapacity : queue.capacity = s.queue.capacity)
    (hnotifies : (if (s.consumers c).notifies = true then 1 else 0) + k
      ≤ (if phase.notifies = true then 1 else 0) + k')
    (hfree : queue.capacity.toNat - queue.size.toNat
          + (if (s.consumers c).attends = true then 1 else 0) + k
        ≤ s.freeSlots + (if phase.attends = true then 1 else 0) + k') :
    Attended ((s.setQueue queue).setConsumer c phase) k' :=
  fun hsome => (hatt hsome).moveConsumer h phase hcapacity (by
    show s.shared.sleepers.length + _ + _ ≤ _
    omega) hfree

theorem Attended.stayConsumer (hatt : s.Attended k) (h : SlotInv capacity s) {c : Nat}
    (phase : ConsumerPhase α)
    (hnotifies : (if (s.consumers c).notifies = true then 1 else 0) + k
      ≤ (if phase.notifies = true then 1 else 0) + k')
    (hattends : (if (s.consumers c).attends = true then 1 else 0) + k
      ≤ (if phase.attends = true then 1 else 0) + k') :
    Attended (s.setConsumer c phase) k' := by
  have hsame : Attended ((s.setQueue s.queue).setConsumer c phase) k' := by
    refine hatt.moveConsumer h phase rfl hnotifies ?_
    show s.freeSlots + _ + _ ≤ _
    omega
  exact hsame

theorem Attended.consume (hatt : s.Attended 0) (h : SlotInv capacity s)
    (hsleepers : s.shared.SleepersInv) {c : Nat} {s' : QueueState α}
    (hstep : ConsumeStep s c s') : s'.Attended 0 := by
  cases hstep with
  | take blocking e rest hphase hitems =>
      refine hatt.moveConsumer h (.releasing e) rfl ?_ ?_
      · simp [hphase, ConsumerPhase.notifies]
      · show s.freeSlots + _ + _ ≤ _
        simp [hphase, ConsumerPhase.attends]
  | miss blocking hphase =>
      refine hatt.stayConsumer h .idle ?_ ?_
      · simp [hphase, ConsumerPhase.notifies]
      · simp [hphase, ConsumerPhase.attends]
  | release e hphase =>
      have hpos : 0 < s.queue.size.toNat :=
        h.size_pos_of_consumer (c := c) (by simp [hphase, ConsumerPhase.holdsSlot])
      refine hatt.moveConsumer h (.notifying e) rfl ?_ ?_
      · simp [hphase, ConsumerPhase.notifies]
      · show s.queue.capacity.toNat - (s.queue.size - 1).toNat + _ + _ ≤ s.freeSlots + _ + _
        rw [toNat_pred_of_pos hpos, hphase]
        simp [ConsumerPhase.attends, freeSlots]
        omega
  | notify e picked shared hphase hnotify =>
      have hidle : Attended (s.setConsumer c .idle) 1 := by
        refine hatt.stayConsumer h .idle ?_ ?_
        · simp [hphase, ConsumerPhase.notifies]
        · simp [hphase, ConsumerPhase.attends]
      exact hidle.notifyOne (h.stayConsumer .idle (by rw [hphase]; rfl)) hsleepers hnotify

/-- The steps of producers and consumers keep the list of the sleeping threads. -/
theorem sleepersInv_step {l : QueueStep α} {s' : QueueState α} (hstops : l.stops = false)
    (hsleepers : s.shared.SleepersInv) (hstep : (queueCalls α capacity).next s l = some s') :
    s'.shared.SleepersInv := by
  cases l with
  | push t e blocking =>
      simp only [queueCalls] at hstep
      split at hstep
      · next hphase =>
          obtain rfl := Option.some.inj hstep
          exact hsleepers.move _ rfl rfl (by rw [hphase]; rfl) (by cases blocking <;> rfl)
      · exact absurd hstep (by simp)
  | produce t spurious picked =>
      obtain ⟨shared, hproduce, rfl⟩ := Option.map_eq_some_iff.1 hstep
      exact hsleepers.produce (LaneState.produceStep_of_produce hproduce)
  | wake t =>
      obtain rfl := Option.some.inj hstep
      exact hsleepers.wake t
  | pop c blocking =>
      simp only [queueCalls] at hstep
      split at hstep
      · obtain rfl := Option.some.inj hstep
        exact hsleepers
      · exact absurd hstep (by simp)
  | consume c act picked =>
      cases consumeStep_of_consume hstep with
      | notify e picked shared hphase hnotify => exact hsleepers.notifyOne hnotify
      | _ => exact ⟨hsleepers.mem_iff, hsleepers.nodup⟩
  | _ => exact absurd hstops (by simp [QueueStep.stops])

theorem Attended.step {l : QueueStep α} {s' : QueueState α} (hstops : l.stops = false)
    (hatt : s.Attended 0) (h : SlotInv capacity s) (hsleepers : s.shared.SleepersInv)
    (hsleep : ∀ t spurious picked e, l = .produce t spurious picked →
      s.shared.producers t = .dozing e → s.Enough (s.shared.sleepers.length + 1) 0)
    (hstep : (queueCalls α capacity).next s l = some s') : s'.Attended 0 := by
  cases l with
  | push t e blocking =>
      simp only [queueCalls] at hstep
      split at hstep
      · next hphase =>
          obtain rfl := Option.some.inj hstep
          refine hatt.moveProducer h (t := t) _ rfl rfl rfl rfl ?_ (fun _ => Or.inl ?_)
          · simp [hphase, ProducerPhase.notifies]
          · show s.freeSlots + _ + _ ≤ _
            simp [hphase, ProducerPhase.attends]
      · exact absurd hstep (by simp)
  | produce t spurious picked =>
      obtain ⟨shared, hproduce, rfl⟩ := Option.map_eq_some_iff.1 hstep
      exact hatt.produce h hsleepers (LaneState.produceStep_of_produce hproduce)
        (fun e => hsleep t spurious picked e rfl)
  | wake t =>
      obtain rfl := Option.some.inj hstep
      exact hatt.wake h hsleepers t
  | pop c blocking =>
      simp only [queueCalls] at hstep
      split at hstep
      · next hphase =>
          obtain rfl := Option.some.inj hstep
          refine hatt.stayConsumer h (.popping blocking) ?_ ?_
          · simp [hphase, ConsumerPhase.notifies]
          · simp [hphase, ConsumerPhase.attends]
      · exact absurd hstep (by simp)
  | consume c act picked => exact hatt.consume h hsleepers (consumeStep_of_consume hstep)
  | _ => exact absurd hstops (by simp [QueueStep.stops])

end QueueState

/-! ## Covered producers are not left behind -/

/-- The books of the sleeping producers, kept while only covered producers go to sleep. -/
structure WakeInv (capacity : UInt64) (s : ShutdownState α) : Prop where
  slots : SlotInv capacity s.calls
  sleepers : s.calls.shared.SleepersInv
  attended : s.phase = .idle → s.calls.Attended 0

namespace WakeInv

variable {capacity : UInt64} {s s' : ShutdownState α}

theorem of_init (h : (queueShutdown α capacity).init s) : WakeInv capacity s := by
  obtain ⟨calls, hcalls, rfl⟩ := h
  refine ⟨SlotInv.of_init hcalls, ?_, ?_⟩
  · obtain ⟨accepting, rfl⟩ := hcalls
    exact ⟨fun t => by simp, List.nodup_nil⟩
  · obtain ⟨accepting, rfl⟩ := hcalls
    exact fun _ hsome => absurd rfl hsome

theorem call (h : WakeInv capacity s) {l : QueueStep α} (hstops : l.stops = false)
    {calls : QueueState α} (hok : SleepsCovered s (.call l))
    (hstep : (queueCalls α capacity).next s.calls l = some calls) :
    WakeInv capacity { s with calls } := by
  refine ⟨h.slots.step hstep, QueueState.sleepersInv_step hstops h.sleepers hstep, fun hidle => ?_⟩
  refine (h.attended hidle).step hstops h.slots h.sleepers ?_ hstep
  intro t spurious picked e hl hphase
  subst hl
  -- without a shutdown under way, the others must be enough
  rcases hok (by simp [ShutdownStep.sleeps, hphase]) with hbusy | henough
  · exact absurd hidle hbusy
  · exact henough

theorem advance (h : WakeInv capacity s) (hstep : s.advance = some s') : WakeInv capacity s' := by
  unfold ShutdownState.advance at hstep
  split at hstep
  · exact absurd hstep (by simp)
  · obtain rfl := Option.some.inj hstep
    exact ⟨⟨h.slots.capacity_eq, h.slots.producers, h.slots.consumers, h.slots.slots,
      h.slots.bound⟩, ⟨h.sleepers.mem_iff, h.sleepers.nodup⟩, fun hidle => absurd hidle (by simp)⟩
  · obtain rfl := Option.some.inj hstep
    exact ⟨⟨h.slots.capacity_eq, h.slots.producers, h.slots.consumers, h.slots.slots,
      h.slots.bound⟩, ⟨h.sleepers.mem_iff, h.sleepers.nodup⟩, fun hidle => absurd hidle (by simp)⟩
  · obtain rfl := Option.some.inj hstep
    obtain ⟨hsleepers, hnone⟩ := h.sleepers.notifyAll
    exact ⟨h.slots.notifyAll, hsleepers, fun _ hsome => absurd hnone hsome⟩

theorem step (h : WakeInv capacity s) {l : ShutdownStep α} (hok : SleepsCovered s l)
    (hstep : (queueShutdown α capacity).next s l = some s') : WakeInv capacity s' := by
  cases l with
  | call l =>
      simp only [queueShutdown] at hstep
      split at hstep
      · exact absurd hstep (by simp)
      · next hstops =>
          obtain ⟨calls, hcalls, rfl⟩ := Option.map_eq_some_iff.1 hstep
          exact h.call (Bool.eq_false_iff.2 hstops) hok hcalls
  | shutDown =>
      simp only [queueShutdown] at hstep
      split at hstep
      · obtain rfl := Option.some.inj hstep
        exact ⟨h.slots, h.sleepers, fun hidle => absurd hidle (by simp)⟩
      · exact absurd hstep (by simp)
  | advance => exact h.advance hstep

/-- With every other thread at rest, there is nobody left who could notify. -/
theorem not_stranded (h : WakeInv capacity s) : ¬ Stranded s := by
  rintro ⟨⟨t, e, hasleep⟩, hpredicate, hproducers, hconsumers, hidle⟩
  have ht : t ∈ s.calls.shared.sleepers := (h.sleepers.mem_iff t).2 ⟨e, hasleep⟩
  have hnotifications : s.calls.notifications = 0 := by
    rw [QueueState.notifications, Threads.count_eq_zero, Threads.count_eq_zero]
    · intro c
      rcases hconsumers c with hc | ⟨hc, -⟩ <;> simp [hc, ConsumerPhase.notifies]
    · intro t
      rcases hproducers t with hp | ⟨e, hp⟩ <;> simp [hp, ProducerPhase.notifies]
  have hattending : s.calls.attending = 0 := by
    rw [QueueState.attending, Threads.count_eq_zero, Threads.count_eq_zero]
    · intro c
      rcases hconsumers c with hc | ⟨hc, -⟩ <;> simp [hc, ConsumerPhase.attends]
    · intro t
      rcases hproducers t with hp | ⟨e, hp⟩ <;> simp [hp, ProducerPhase.attends]
  have hlength : 0 < s.calls.shared.sleepers.length := List.length_pos_of_mem ht
  rcases h.attended hidle (List.ne_nil_of_mem ht) with hn | ⟨hacc, hfree⟩
  · omega
  · rcases hpredicate with hroom | hrefused
    · have hlt := UInt64.lt_iff_toNat_lt.1 hroom
      simp only [QueueState.freeSlots] at hfree
      omega
    · rw [hacc] at hrefused
      exact absurd hrefused (by simp)

end WakeInv

/-- **No wakeup is lost while sleepers are covered.** In whatever order producers, consumers and
    shutdowns act, if no producer goes to sleep uncovered, none is left behind. -/
theorem no_wakeup_lost {capacity : UInt64} {s : ShutdownState α}
    (hs : (queueShutdown α capacity).ReachableBy SleepsCovered s) : ¬ Stranded s :=
  WakeInv.not_stranded (hs.invariant (fun _ hinit => WakeInv.of_init hinit)
    (fun _ _ _ h hok hstep => h.step hok hstep))

/-- The queue is full when producer 1 goes to sleep, and the consumer that makes room has not yet
    notified. -/
theorem no_wakeup_lost_capacity_one :
    ∃ s : ShutdownState Nat, s.calls.shared.sleepers = [1] ∧ s.calls.queue.size = 0 ∧
      ¬ Stranded s := by
  have hinit : (queueShutdown Nat 1).ReachableBy SleepsCovered
      { calls := { shared := { lane := { route := {}, queue := .new 1 }, accepting := true } } } :=
    .init ⟨_, ⟨true, rfl⟩, rfl⟩
  have hawake : ∀ (s : ShutdownState Nat) (l : ShutdownStep Nat), l.sleeps s = false →
      SleepsCovered s l := fun s l h hsleeps => absurd (h.symm.trans hsleeps) (by simp)
  have hdozing := hinit.runUnder hawake [.call (.push 0 5 false), .call (.produce 0 false 0),
    .call (.produce 0 false 0), .call (.produce 0 false 0), .call (.push 1 6 true),
    .call (.produce 1 false 0), .call (.produce 1 false 0), .call (.produce 1 false 0),
    .call (.produce 1 false 0), .call (.produce 1 false 0), .call (.produce 1 false 0)] rfl
  have hasleep := hdozing.step (l := .call (.produce 1 false 0))
    (fun _ => Or.inr (Or.inr ⟨rfl, Nat.zero_le _⟩)) rfl
  have hroom := hasleep.runUnder hawake [.call (.pop 0 true), .call (.consume 0 .run 0),
    .call (.consume 0 .run 0)] rfl
  exact ⟨_, rfl, rfl, no_wakeup_lost hroom⟩

/-- Without that condition producers are left behind. Producer 1 finds the queue full; before it is
    asleep, the consumer makes room and notifies nobody, or a whole shutdown passes by. -/
theorem wakeup_lost :
    (∃ s : ShutdownState Nat, (queueShutdown Nat 1).Reachable s ∧ Stranded s ∧
      s.calls.shared.accepting = true) ∧
    ∃ s : ShutdownState Nat, (queueShutdown Nat 1).Reachable s ∧ Stranded s ∧
      s.calls.shared.accepting = false := by
  have hinit : (queueShutdown Nat 1).Reachable
      { calls := { shared := { lane := { route := {}, queue := .new 1 }, accepting := true } } } :=
    .init ⟨_, ⟨true, rfl⟩, rfl⟩
  have hdozing := hinit.run [.call (.push 0 5 false), .call (.produce 0 false 0),
    .call (.produce 0 false 0), .call (.produce 0 false 0), .call (.push 1 6 true),
    .call (.produce 1 false 0), .call (.produce 1 false 0), .call (.produce 1 false 0),
    .call (.produce 1 false 0), .call (.produce 1 false 0), .call (.produce 1 false 0)] rfl
  refine ⟨?_, ?_⟩
  · have hs := hdozing.run [.call (.pop 0 true), .call (.consume 0 .run 0),
      .call (.consume 0 .run 0), .call (.consume 0 .run 0), .call (.produce 1 false 0)] rfl
    refine ⟨_, hs, ⟨⟨1, 6, rfl⟩, Or.inl (by decide), fun t => ?_, fun c => ?_, rfl⟩, rfl⟩
    · rcases t with _ | _ | t
      · exact Or.inl rfl
      · exact Or.inr ⟨6, rfl⟩
      · exact Or.inl rfl
    · rcases c with _ | c
      · exact Or.inl rfl
      · exact Or.inl rfl
  · have hs := hdozing.run [.shutDown, .advance, .advance, .advance,
      .call (.produce 1 false 0)] rfl
    refine ⟨_, hs, ⟨⟨1, 6, rfl⟩, Or.inr rfl, fun t => ?_, fun c => Or.inl rfl, rfl⟩, rfl⟩
    rcases t with _ | _ | t
    · exact Or.inl rfl
    · exact Or.inr ⟨6, rfl⟩
    · exact Or.inl rfl

end SyLog
