import SyLog.Library.Machine
import SyLog.Async.SinkCrossbar

set_option autoImplicit false

/-! # The life of a lane

One lane from its construction to the return of the `stop_lanes_` that stops it: its queue, its
worker, any number of producers in `try_push` or `push_blocking`, and the thread in `stop_lanes_`.
Each load, compare-and-swap and decrement of `size_`, each call on the blocking queue, each
operation on `space_m_` and `cv_space_` and each load of `accepting` is one step.

The history variables record what was pushed and what was handed to `process_`. The result is that
nothing is lost or reordered on the way: what was pushed is what was processed, followed by what is
pending, and a draining stop returns with nothing pending. -/

namespace SyLog

variable {α : Type}

/-! ## Producers -/

/-- Where a thread is in `try_push` or `push_blocking`; `blocking` says which. -/
inductive ProducerPhase (α : Type) where
  | idle
  /-- `push_blocking` loads `accepting` at the head of its loop -/
  | entering (e : α)
  /-- `reserve_slot_` loads `size_` -/
  | loading (e : α) (blocking : Bool)
  /-- `reserve_slot_` compares `n` with the capacity and swaps `n` for `n + 1` -/
  | swapping (e : α) (blocking : Bool) (n : UInt64)
  /-- a slot is reserved; `queue_.push` is next -/
  | pushing (e : α)
  /-- the push has failed; `release_slot_` decrements `size_` -/
  | releasing
  /-- `release_slot_` calls `cv_space_.notify_one()` -/
  | notifying
  /-- the queue was full; `space_m_` is to be locked, at first or after a wakeup -/
  | locking (e : α)
  /-- the wait predicate loads `accepting`, under `space_m_` -/
  | testing (e : α)
  /-- the wait predicate loads `size_`, under `space_m_` -/
  | measuring (e : α)
  /-- the predicate is false; `space_m_` is to be released and the thread put to sleep -/
  | dozing (e : α)
  | asleep (e : α)

/-- Where the stopping thread is in `stop_lanes_`, as far as this lane is concerned. -/
inductive StopPhase where
  | idle
  /-- store the drain flag -/
  | storing (drain : Bool)
  /-- `queue_.close()` -/
  | closing (drain : Bool)
  /-- `cv_space_.notify_all()` -/
  | notifying (drain : Bool)
  | requesting (drain : Bool)
  | joining (drain : Bool)
  /-- give the lane a new queue -/
  | replacing
  | done (drain : Bool)
  deriving DecidableEq, Repr

structure LaneState (α : Type) where
  lane : Lane α
  accepting : Bool := true
  producers : Nat → ProducerPhase α := fun _ => .idle
  /-- the holder of `space_m_` -/
  spaceHolder : Option Nat := none
  /-- the threads that wait on `cv_space_` -/
  sleepers : List Nat := []
  stopper : StopPhase := .idle
  /-- the queue that `stop_lanes_(false)` puts in the place of this one -/
  successor : Option (WorkersEventQueue α) := none
  /-- what was pushed, in the order of the pushes -/
  pushed : List α := []
  /-- what was handed to `process_` -/
  processed : List α := []

inductive LaneStep (α : Type) where
  /-- the worker thread is created -/
  | start
  /-- thread `t` calls `try_push` or `push_blocking` on the lane's queue -/
  | call (t : Nat) (e : α) (blocking : Bool)
  /-- producer `t` goes on; a compare-and-swap may fail spuriously, and a notification picks one of
      the sleeping threads -/
  | produce (t : Nat) (spurious : Bool) (picked : Nat)
  /-- a spurious wakeup of thread `t` -/
  | wake (t : Nat)
  | work (act : WorkerAct) (picked : Nat)
  /-- a thread enters `stop_lanes_` -/
  | stop (drain : Bool)
  /-- the stopping thread goes on -/
  | advance
  /-- another thread stores `accepting` -/
  | accept (accepting : Bool)

namespace LaneState

def setProducer (s : LaneState α) (t : Nat) (phase : ProducerPhase α) : LaneState α :=
  { s with producers := Function.update s.producers t phase }

def setQueue (s : LaneState α) (queue : WorkersEventQueue α) : LaneState α :=
  { s with lane := { s.lane with queue } }

/-- A thread that waits on `cv_space_` goes on to lock `space_m_` again. -/
def wake (s : LaneState α) (t : Nat) : LaneState α :=
  match s.producers t with
  | .asleep e => { s.setProducer t (.locking e) with sleepers := s.sleepers.erase t }
  | _ => s

/-- `cv_space_.notify_one()`: one of the waiting threads is woken, if there is one. -/
def notifyOne (s : LaneState α) (picked : Nat) : Option (LaneState α) :=
  if s.sleepers = [] then some s
  else if picked ∈ s.sleepers then some (s.wake picked) else none

/-- `cv_space_.notify_all()` -/
def notifyAll (s : LaneState α) : LaneState α := s.sleepers.foldl wake s

/-- The next step of producer `t`; `none` when it has to wait. -/
def produce (s : LaneState α) (t : Nat) (spurious : Bool) (picked : Nat) : Option (LaneState α) :=
  let q := s.lane.queue
  match s.producers t with
  | .idle | .asleep _ => none
  | .entering e => some (s.setProducer t (if s.accepting then .loading e true else .idle))
  | .loading e blocking => some (s.setProducer t (.swapping e blocking q.size))
  | .swapping e blocking n =>
    if n < q.capacity then
      if q.size = n ∧ spurious = false then
        some ((s.setQueue { q with size := n + 1 }).setProducer t (.pushing e))
      -- a failed exchange loads the current size
      else some (s.setProducer t (.swapping e blocking q.size))
    else some (s.setProducer t (if blocking then .locking e else .idle))
  | .pushing e =>
    match q.queue.push e with
    | some queue =>
      some { (s.setQueue { q with queue }).setProducer t .idle with pushed := s.pushed ++ [e] }
    | none => some (s.setProducer t .releasing)
  | .releasing => some ((s.setQueue q.releaseSlot).setProducer t .notifying)
  | .notifying => (s.setProducer t .idle).notifyOne picked
  | .locking e =>
    if s.spaceHolder.isNone then some { s.setProducer t (.testing e) with spaceHolder := some t }
    else none
  | .testing e =>
    if s.accepting then some (s.setProducer t (.measuring e))
    else some { s.setProducer t (.entering e) with spaceHolder := none }
  | .measuring e =>
    if q.size < q.capacity then
      some { s.setProducer t (.entering e) with spaceHolder := none }
    else some (s.setProducer t (.dozing e))
  | .dozing e =>
    some { s.setProducer t (.asleep e) with spaceHolder := none, sleepers := s.sleepers ++ [t] }

/-- A step of the worker. The notification of `release_slot_` follows the decrement. -/
def work (s : LaneState α) (act : WorkerAct) (picked : Nat) : Option (LaneState α) :=
  (s.lane.work act).bind fun (lane, out) =>
    let s' := { s with lane, processed := s.processed ++ out.toList }
    match s.lane.worker with
    | .notifying _ _ => s'.notifyOne picked
    | _ => some s'

/-- The next step of `stop_lanes_`; `none` when it waits for the worker. -/
def advance (s : LaneState α) : Option (LaneState α) :=
  match s.stopper with
  | .idle | .done _ => none
  | .storing drain =>
    some { s with lane := { s.lane with drainOnStop := drain }, stopper := .closing drain }
  | .closing drain => some { s.setQueue s.lane.queue.close with stopper := .notifying drain }
  | .notifying drain => some { s.notifyAll with stopper := .requesting drain }
  | .requesting drain =>
    let stopRequested := s.lane.stopRequested || s.lane.worker.joinable
    some { s with lane := { s.lane with stopRequested }, stopper := .joining drain }
  | .joining drain =>
    if s.lane.worker.finished then
      some { s with lane := s.lane.join, stopper := if drain then .done true else .replacing }
    else none
  | .replacing =>
    some { s with successor := some (.new s.lane.queue.capacity), stopper := .done false }

end LaneState

/-- A lane as `SinkCrossbar::configure` makes it, used by any number of threads, started once and
    stopped once. Calls that begin after the queue was replaced get the new queue and do not belong
    to this life. -/
def laneLife (α : Type) : Machine (LaneState α) (LaneStep α) where
  init s := ∃ r cap accepting, s = { lane := .fresh r (max cap 1), accepting }
  next s
    | .start =>
      if s.stopper = .idle ∧ s.lane.worker.joinable = false then
        some { s with lane := s.lane.start }
      else none
    | .call t e blocking =>
      match s.producers t, s.successor with
      | .idle, none =>
        some (s.setProducer t (if blocking then .entering e else .loading e false))
      | _, _ => none
    | .produce t spurious picked => s.produce t spurious picked
    | .wake t => some (s.wake t)
    | .work act picked => s.work act picked
    | .stop drain =>
      if s.stopper = .idle ∧ s.lane.worker.joinable = true then
        some { s with stopper := .storing drain }
      else none
    | .advance => s.advance
    | .accept accepting => some { s with accepting }

/-! ## What the steps of others do to the lane -/

/-- What a step of a producer, a wakeup or a notification does: at most it appends to the queued
    elements of an open queue and records the push. -/
structure LaneState.Fed (s s' : LaneState α) : Prop where
  stopper : s'.stopper = s.stopper
  processed : s'.processed = s.processed
  lane : ∃ q, s'.lane = { s.lane with queue := q } ∧ q.queue.closed = s.lane.queue.queue.closed
  pushed : ∃ es, s'.lane.queue.queue.items = s.lane.queue.queue.items ++ es ∧
    s'.pushed = s.pushed ++ es ∧ (s.lane.queue.queue.closed = true → es = [])

namespace LaneState

variable {s s' : LaneState α}

/-- Nothing is pushed when the queued elements stay as they are. -/
theorem Fed.of_queue {q : WorkersEventQueue α} (hstop : s'.stopper = s.stopper)
    (hproc : s'.processed = s.processed) (hpush : s'.pushed = s.pushed)
    (hlane : s'.lane = { s.lane with queue := q }) (hq : q.queue = s.lane.queue.queue) :
    Fed s s' := by
  refine ⟨hstop, hproc, ⟨q, hlane, by rw [hq]⟩, [], ?_, ?_, fun _ => rfl⟩
  · rw [hlane, hq, List.append_nil]
  · rw [hpush, List.append_nil]

theorem fed_wake (s : LaneState α) (t : Nat) : Fed s (s.wake t) := by
  unfold wake
  split
  · exact Fed.of_queue (q := s.lane.queue) rfl rfl rfl rfl rfl
  · exact Fed.of_queue (q := s.lane.queue) rfl rfl rfl rfl rfl

/-- Waking threads leaves the lane and the history alone. -/
theorem wake_frame (s : LaneState α) (t : Nat) :
    (s.wake t).lane = s.lane ∧ (s.wake t).pushed = s.pushed ∧
      (s.wake t).processed = s.processed ∧ (s.wake t).stopper = s.stopper := by
  unfold wake
  split <;> exact ⟨rfl, rfl, rfl, rfl⟩

theorem notifyOne_frame {picked : Nat} (h : s.notifyOne picked = some s') :
    s'.lane = s.lane ∧ s'.pushed = s.pushed ∧ s'.processed = s.processed ∧
      s'.stopper = s.stopper := by
  unfold notifyOne at h
  split at h
  · obtain rfl := Option.some.inj h
    exact ⟨rfl, rfl, rfl, rfl⟩
  · split at h
    · obtain rfl := Option.some.inj h
      exact s.wake_frame picked
    · exact absurd h (by simp)

theorem notifyAll_frame (s : LaneState α) :
    s.notifyAll.lane = s.lane ∧ s.notifyAll.pushed = s.pushed ∧
      s.notifyAll.processed = s.processed ∧ s.notifyAll.stopper = s.stopper := by
  have hfold : ∀ (ts : List Nat) (s : LaneState α),
      (ts.foldl wake s).lane = s.lane ∧ (ts.foldl wake s).pushed = s.pushed ∧
        (ts.foldl wake s).processed = s.processed ∧ (ts.foldl wake s).stopper = s.stopper := by
    intro ts
    induction ts with
    | nil => exact fun s => ⟨rfl, rfl, rfl, rfl⟩
    | cons t ts ih =>
        intro s
        obtain ⟨hlane, hpush, hproc, hstop⟩ := ih (s.wake t)
        obtain ⟨hlane', hpush', hproc', hstop'⟩ := s.wake_frame t
        exact ⟨hlane.trans hlane', hpush.trans hpush', hproc.trans hproc', hstop.trans hstop'⟩
  exact hfold s.sleepers s

/-- The steps of a producer, by the phase they are taken in. -/
inductive ProduceStep (s : LaneState α) (t : Nat) : LaneState α → Prop
  | refuse (e : α) (hphase : s.producers t = .entering e) (hacc : s.accepting = false) :
      ProduceStep s t (s.setProducer t .idle)
  | enter (e : α) (hphase : s.producers t = .entering e) (hacc : s.accepting = true) :
      ProduceStep s t (s.setProducer t (.loading e true))
  | load (e : α) (blocking : Bool) (hphase : s.producers t = .loading e blocking) :
      ProduceStep s t (s.setProducer t (.swapping e blocking s.lane.queue.size))
  | reserve (e : α) (blocking : Bool)
      (hphase : s.producers t = .swapping e blocking s.lane.queue.size)
      (hroom : s.lane.queue.size < s.lane.queue.capacity) :
      ProduceStep s t ((s.setQueue { s.lane.queue with size := s.lane.queue.size + 1 }).setProducer
        t (.pushing e))
  | retry (e : α) (blocking : Bool) (n : UInt64)
      (hphase : s.producers t = .swapping e blocking n) :
      ProduceStep s t (s.setProducer t (.swapping e blocking s.lane.queue.size))
  | full (e : α) (n : UInt64) (hphase : s.producers t = .swapping e true n)
      (hfull : ¬ n < s.lane.queue.capacity) : ProduceStep s t (s.setProducer t (.locking e))
  | drop (e : α) (n : UInt64) (hphase : s.producers t = .swapping e false n)
      (hfull : ¬ n < s.lane.queue.capacity) : ProduceStep s t (s.setProducer t .idle)
  | push (e : α) (queue : BlockingQueue α) (hphase : s.producers t = .pushing e)
      (hpush : s.lane.queue.queue.push e = some queue) :
      ProduceStep s t { (s.setQueue { s.lane.queue with queue }).setProducer t .idle with
        pushed := s.pushed ++ [e] }
  | fail (e : α) (hphase : s.producers t = .pushing e)
      (hpush : s.lane.queue.queue.push e = none) : ProduceStep s t (s.setProducer t .releasing)
  | release (hphase : s.producers t = .releasing) :
      ProduceStep s t ((s.setQueue s.lane.queue.releaseSlot).setProducer t .notifying)
  | notify (picked : Nat) (s' : LaneState α) (hphase : s.producers t = .notifying)
      (hnotify : (s.setProducer t .idle).notifyOne picked = some s') : ProduceStep s t s'
  | lock (e : α) (hphase : s.producers t = .locking e) (hfree : s.spaceHolder = none) :
      ProduceStep s t { s.setProducer t (.testing e) with spaceHolder := some t }
  | test (e : α) (hphase : s.producers t = .testing e) (hacc : s.accepting = true) :
      ProduceStep s t (s.setProducer t (.measuring e))
  | leave (e : α) (hphase : s.producers t = .testing e) (hacc : s.accepting = false) :
      ProduceStep s t { s.setProducer t (.entering e) with spaceHolder := none }
  | measure (e : α) (hphase : s.producers t = .measuring e)
      (hroom : s.lane.queue.size < s.lane.queue.capacity) :
      ProduceStep s t { s.setProducer t (.entering e) with spaceHolder := none }
  | doze (e : α) (hphase : s.producers t = .measuring e)
      (hfull : ¬ s.lane.queue.size < s.lane.queue.capacity) :
      ProduceStep s t (s.setProducer t (.dozing e))
  | sleep (e : α) (hphase : s.producers t = .dozing e) :
      ProduceStep s t { s.setProducer t (.asleep e) with
        spaceHolder := none, sleepers := s.sleepers ++ [t] }

theorem produceStep_of_produce {t picked : Nat} {spurious : Bool}
    (h : s.produce t spurious picked = some s') : ProduceStep s t s' := by
  cases hphase : s.producers t with
  | idle => simp [produce, hphase] at h
  | asleep e => simp [produce, hphase] at h
  | entering e =>
      simp only [produce, hphase, Option.some.injEq] at h
      subst h
      cases hacc : s.accepting with
      | false => exact .refuse e hphase hacc
      | true => exact .enter e hphase hacc
  | loading e blocking =>
      simp only [produce, hphase, Option.some.injEq] at h
      subst h
      exact .load e blocking hphase
  | swapping e blocking n =>
      simp only [produce, hphase] at h
      split at h
      · next hroom =>
          split at h
          · next hswap =>
              obtain rfl := Option.some.inj h
              obtain ⟨rfl, -⟩ := hswap
              exact .reserve e blocking hphase hroom
          · obtain rfl := Option.some.inj h
            exact .retry e blocking n hphase
      · next hfull =>
          obtain rfl := Option.some.inj h
          cases blocking with
          | true => exact .full e n hphase hfull
          | false => exact .drop e n hphase hfull
  | pushing e =>
      simp only [produce, hphase] at h
      split at h
      · next queue hpush =>
          obtain rfl := Option.some.inj h
          exact .push e queue hphase hpush
      · next hpush =>
          obtain rfl := Option.some.inj h
          exact .fail e hphase hpush
  | releasing =>
      simp only [produce, hphase, Option.some.injEq] at h
      subst h
      exact .release hphase
  | notifying =>
      simp only [produce, hphase] at h
      exact .notify picked s' hphase h
  | locking e =>
      simp only [produce, hphase] at h
      split at h
      · next hfree =>
          obtain rfl := Option.some.inj h
          exact .lock e hphase (Option.isNone_iff_eq_none.1 hfree)
      · exact absurd h (by simp)
  | testing e =>
      simp only [produce, hphase] at h
      split at h
      · next hacc =>
          obtain rfl := Option.some.inj h
          exact .test e hphase hacc
      · next hacc =>
          obtain rfl := Option.some.inj h
          exact .leave e hphase (Bool.eq_false_iff.2 hacc)
  | measuring e =>
      simp only [produce, hphase] at h
      split at h
      · next hroom =>
          obtain rfl := Option.some.inj h
          exact .measure e hphase hroom
      · next hfull =>
          obtain rfl := Option.some.inj h
          exact .doze e hphase hfull
  | dozing e =>
      simp only [produce, hphase, Option.some.injEq] at h
      subst h
      exact .sleep e hphase

/-- A producer does nothing to the lane but push. -/
theorem fed_produce {t picked : Nat} {spurious : Bool}
    (h : s.produce t spurious picked = some s') : Fed s s' := by
  cases produceStep_of_produce h with
  | push e queue hphase hpush =>
      -- the one step that pushes
      obtain ⟨hopen, rfl⟩ := BlockingQueue.push_eq_some hpush
      refine ⟨rfl, rfl, ⟨_, rfl, rfl⟩, [e], rfl, rfl, fun hclosed => ?_⟩
      rw [hopen] at hclosed
      exact absurd hclosed (by simp)
  | notify picked s' hphase hnotify =>
      obtain ⟨hlane, hpush, hproc, hstop⟩ := notifyOne_frame hnotify
      exact Fed.of_queue (q := s.lane.queue) hstop hproc hpush hlane rfl
  | reserve e blocking hphase hroom =>
      exact Fed.of_queue (q := { s.lane.queue with size := s.lane.queue.size + 1 }) rfl rfl rfl rfl
        rfl
  | release hphase => exact Fed.of_queue (q := s.lane.queue.releaseSlot) rfl rfl rfl rfl rfl
  | _ => exact Fed.of_queue (q := s.lane.queue) rfl rfl rfl rfl rfl

/-- A worker step of the machine is one of the lane, recorded. -/
theorem work_cases {act : WorkerAct} {picked : Nat} (h : s.work act picked = some s') :
    ∃ l out, Lane.WorkStep s.lane l out ∧ s'.lane = l ∧ s'.pushed = s.pushed ∧
      s'.processed = s.processed ++ out.toList ∧ s'.stopper = s.stopper := by
  obtain ⟨⟨l, out⟩, hwork, hrest⟩ := Option.bind_eq_some_iff.1 h
  refine ⟨l, out, Lane.workStep_of_work hwork, ?_⟩
  simp only at hrest
  split at hrest
  · exact notifyOne_frame hrest
  · obtain rfl := Option.some.inj hrest
    exact ⟨rfl, rfl, rfl, rfl⟩

end LaneState

/-! ## The invariant -/

/-- What the lane looks like in each phase of `stop_lanes_`: the drain flag is stored before the
    close, the close comes before the stop request, and a joined worker that drained has left
    nothing. -/
def StopPhase.Fits (l : Lane α) : StopPhase → Prop
  | .idle => l.queue.queue.closed = false
  | .storing _ => l.queue.queue.closed = false ∧ l.worker.joinable = true
  | .closing drain =>
    l.queue.queue.closed = false ∧ l.worker.joinable = true ∧ l.drainOnStop = drain
  | .notifying drain | .requesting drain | .joining drain =>
    l.queue.queue.closed = true ∧ l.worker.joinable = true ∧ l.drainOnStop = drain
  | .replacing => l.queue.queue.closed = true ∧ l.worker = .unstarted
  | .done drain =>
    l.queue.queue.closed = true ∧ l.worker = .unstarted ∧
      (drain = true → l.queue.queue.items = [])

structure LaneInv (s : LaneState α) : Prop where
  /-- what was pushed is what was processed, followed by what is pending -/
  order : s.pushed = s.processed ++ s.lane.pending
  wellFormed : s.lane.WellFormed
  fits : s.stopper.Fits s.lane

/-- What fits a phase stays fitting while the worker and the producers go on. -/
theorem StopPhase.Fits.feed {l : Lane α} {q : WorkersEventQueue α} {phase : StopPhase}
    (h : phase.Fits l) (hclosed : q.queue.closed = l.queue.queue.closed)
    (hitems : l.queue.queue.closed = true → q.queue.items = l.queue.queue.items) :
    phase.Fits { l with queue := q } := by
  cases phase with
  | done drain =>
      obtain ⟨hcl, hworker, hdrained⟩ := h
      exact ⟨hclosed.trans hcl, hworker, fun hd => (hitems hcl).trans (hdrained hd)⟩
  | idle => exact hclosed.trans h
  | _ => exact ⟨hclosed.trans h.1, h.2⟩

theorem StopPhase.Fits.work {l l' : Lane α} {out : Option α} {phase : StopPhase}
    (h : phase.Fits l) (hstep : Lane.WorkStep l l' out) : phase.Fits l' := by
  obtain ⟨-, hclosed, -, -, hdrain, -⟩ := hstep.frame
  obtain ⟨hjoin, hjoin'⟩ := hstep.joinable
  cases phase with
  | idle => exact hclosed.trans h
  | storing drain => exact ⟨hclosed.trans h.1, hjoin'⟩
  -- a worker that has been joined takes no steps
  | replacing => simp [h.2, WorkerPhase.joinable] at hjoin
  | done drain => simp [h.2.1, WorkerPhase.joinable] at hjoin
  | _ => exact ⟨hclosed.trans h.1, hjoin', hdrain.trans h.2.2⟩

theorem LaneInv.feed {s s' : LaneState α} (h : LaneInv s) (hfed : s.Fed s') : LaneInv s' := by
  obtain ⟨hstop, hproc, ⟨q, hlane, hclosed⟩, es, hitems, hpush, hnone⟩ := hfed
  have hq : s'.lane.queue = q := by rw [hlane]
  rw [hq] at hitems
  refine ⟨?_, ?_, ?_⟩
  · have hpend : s'.lane.pending = s.lane.pending ++ es := by
      simp only [Lane.pending, hlane, hitems, List.append_assoc]
    rw [hpush, hproc, hpend, h.order, List.append_assoc]
  · rw [hlane]
    refine ⟨fun hs => hclosed.trans (h.wellFormed.stop_closed hs),
      fun he => hclosed.trans (h.wellFormed.ending_closed he), fun hx hd => ?_⟩
    -- a worker has exited, so the queue is closed and nothing comes in any more
    have hcl := h.wellFormed.ending_closed (by simp [show s.lane.worker = .exited from hx,
      WorkerPhase.ending])
    simpa [hitems, hnone hcl] using h.wellFormed.exited_drained hx hd
  · rw [hstop, hlane]
    refine h.fits.feed hclosed (fun hcl => ?_)
    rw [hitems, hnone hcl, List.append_nil]

theorem LaneInv.work {s s' : LaneState α} (h : LaneInv s) {act : WorkerAct} {picked : Nat}
    (hstep : s.work act picked = some s') : LaneInv s' := by
  obtain ⟨l, out, hwork, hlane, hpush, hproc, hstop⟩ := LaneState.work_cases hstep
  subst hlane
  refine ⟨?_, hwork.wellFormed h.wellFormed, ?_⟩
  · rw [hpush, hproc, h.order, hwork.pending, List.append_assoc]
  · rw [hstop]
    exact h.fits.work hwork

/-- The steps of `stop_lanes_` keep the invariant, because of their order. -/
theorem LaneInv.advance {s s' : LaneState α} (h : LaneInv s) (hstep : s.advance = some s') :
    LaneInv s' := by
  obtain ⟨horder, ⟨hstopc, hending, hexit⟩, hfits⟩ := h
  cases hphase : s.stopper with
  | idle => simp [LaneState.advance, hphase] at hstep
  | done drain => simp [LaneState.advance, hphase] at hstep
  | storing drain =>
      rw [hphase] at hfits
      obtain ⟨hopen, hjoin⟩ := hfits
      simp only [LaneState.advance, hphase, Option.some.injEq] at hstep
      subst hstep
      refine ⟨horder, ⟨hstopc, hending, fun hx _ => ?_⟩, hopen, hjoin, rfl⟩
      -- on an open queue the worker has not left its loop
      have hcl := hending (by simp [show s.lane.worker = .exited from hx, WorkerPhase.ending])
      exact absurd (hcl.symm.trans hopen) (by simp)
  | closing drain =>
      rw [hphase] at hfits
      obtain ⟨-, hjoin, hdrain⟩ := hfits
      simp only [LaneState.advance, hphase, Option.some.injEq] at hstep
      subst hstep
      exact ⟨horder, ⟨fun _ => rfl, fun _ => rfl, hexit⟩, rfl, hjoin, hdrain⟩
  | notifying drain =>
      rw [hphase] at hfits
      simp only [LaneState.advance, hphase, Option.some.injEq] at hstep
      subst hstep
      obtain ⟨hlane, hpush, hproc, -⟩ := s.notifyAll_frame
      refine ⟨?_, ?_, ?_⟩
      · rw [hlane, hpush, hproc]
        exact horder
      · rw [hlane]
        exact ⟨hstopc, hending, hexit⟩
      · rw [hlane]
        exact hfits
  | requesting drain =>
      rw [hphase] at hfits
      obtain ⟨hcl, hjoin, hdrain⟩ := hfits
      simp only [LaneState.advance, hphase, Option.some.injEq] at hstep
      subst hstep
      exact ⟨horder, ⟨fun _ => hcl, hending, hexit⟩, hcl, hjoin, hdrain⟩
  | joining drain =>
      rw [hphase] at hfits
      obtain ⟨hcl, hjoin, hdrain⟩ := hfits
      simp only [LaneState.advance, hphase] at hstep
      split at hstep
      · next hfin =>
          obtain rfl := Option.some.inj hstep
          -- there was a worker to join, and it has finished
          have hexited : s.lane.worker = .exited := by
            cases hw : s.lane.worker <;> simp_all [WorkerPhase.finished, WorkerPhase.joinable]
          refine ⟨?_, ⟨hstopc, fun he => by simp [Lane.join, WorkerPhase.ending] at he,
            fun hx => by simp [Lane.join] at hx⟩, ?_⟩
          · rw [horder]
            simp [Lane.pending, Lane.join, hexited, WorkerPhase.inHand]
          · cases drain with
            | true => exact ⟨hcl, rfl, fun _ => hexit hexited hdrain⟩
            | false => exact ⟨hcl, rfl⟩
      · exact absurd hstep (by simp)
  | replacing =>
      rw [hphase] at hfits
      obtain ⟨hcl, hworker⟩ := hfits
      simp only [LaneState.advance, hphase, Option.some.injEq] at hstep
      subst hstep
      exact ⟨horder, ⟨hstopc, hending, hexit⟩, hcl, hworker, fun hd => absurd hd (by simp)⟩

theorem LaneInv.step {s s' : LaneState α} {step : LaneStep α} (h : LaneInv s)
    (hstep : (laneLife α).next s step = some s') : LaneInv s' := by
  cases step with
  | start =>
      simp only [laneLife] at hstep
      split at hstep
      · next hidle =>
          obtain rfl := Option.some.inj hstep
          have hopen : s.lane.queue.queue.closed = false := by
            have hfits := h.fits
            rw [hidle.1] at hfits
            exact hfits
          have hworker : s.lane.worker = .unstarted := by
            cases hw : s.lane.worker <;> simp_all [WorkerPhase.joinable]
          refine ⟨?_, ⟨fun hs => by simp [Lane.start] at hs,
            fun he => by simp [Lane.start, WorkerPhase.ending] at he,
            fun hx => by simp [Lane.start] at hx⟩, ?_⟩
          · rw [h.order]
            simp [Lane.pending, Lane.start, hworker, WorkerPhase.inHand]
          · rw [hidle.1]
            exact hopen
      · exact absurd hstep (by simp)
  | call t e blocking =>
      simp only [laneLife] at hstep
      split at hstep
      · obtain rfl := Option.some.inj hstep
        exact ⟨h.order, h.wellFormed, h.fits⟩
      · exact absurd hstep (by simp)
  | produce t spurious picked => exact h.feed (LaneState.fed_produce hstep)
  | wake t =>
      obtain rfl := Option.some.inj hstep
      exact h.feed (s.fed_wake t)
  | work act picked => exact h.work hstep
  | stop drain =>
      simp only [laneLife] at hstep
      split at hstep
      · next hidle =>
          obtain rfl := Option.some.inj hstep
          have hfits := h.fits
          rw [hidle.1] at hfits
          exact ⟨h.order, h.wellFormed, hfits, hidle.2⟩
      · exact absurd hstep (by simp)
  | advance => exact h.advance hstep
  | accept accepting =>
      obtain rfl := Option.some.inj hstep
      exact ⟨h.order, h.wellFormed, h.fits⟩

theorem LaneInv.reachable {s : LaneState α} (hs : (laneLife α).Reachable s) : LaneInv s := by
  refine hs.invariant ?_ (fun _ _ _ h _ hstep => h.step hstep)
  rintro _ ⟨r, cap, accepting, rfl⟩
  exact ⟨rfl, ⟨fun hs => by simp [Lane.fresh] at hs,
    fun he => by simp [Lane.fresh, WorkerPhase.ending] at he,
    fun hx => by simp [Lane.fresh] at hx⟩, rfl⟩

/-! ## After the stop -/

/-- Once `stop_lanes_` has returned, no step processes anything. -/
theorem processed_step {s s' : LaneState α} {step : LaneStep α} {drain : Bool}
    (hdone : s.stopper = .done drain ∧ s.lane.worker = .unstarted)
    (hstep : (laneLife α).next s step = some s') :
    (s'.stopper = .done drain ∧ s'.lane.worker = .unstarted) ∧ s'.processed = s.processed := by
  obtain ⟨hstop, hworker⟩ := hdone
  have hfed : s.Fed s' →
      (s'.stopper = .done drain ∧ s'.lane.worker = .unstarted) ∧ s'.processed = s.processed := by
    rintro ⟨hstop', hproc, ⟨q, hlane, -⟩, -⟩
    exact ⟨⟨hstop'.trans hstop, by rw [hlane]; exact hworker⟩, hproc⟩
  cases step with
  | start => simp [laneLife, hstop] at hstep
  | stop drain' => simp [laneLife, hstop] at hstep
  | advance => simp [laneLife, LaneState.advance, hstop] at hstep
  | call t e blocking =>
      simp only [laneLife] at hstep
      split at hstep
      · obtain rfl := Option.some.inj hstep
        exact ⟨⟨hstop, hworker⟩, rfl⟩
      · exact absurd hstep (by simp)
  | produce t spurious picked => exact hfed (LaneState.fed_produce hstep)
  | wake t =>
      obtain rfl := Option.some.inj hstep
      exact hfed (s.fed_wake t)
  | work act picked =>
      obtain ⟨l, out, hwork, -⟩ := LaneState.work_cases hstep
      have hjoin := hwork.joinable.1
      simp [hworker, WorkerPhase.joinable] at hjoin
  | accept accepting =>
      obtain rfl := Option.some.inj hstep
      exact ⟨⟨hstop, hworker⟩, rfl⟩

/-- **A started lane drains exactly once.** When `stop_lanes_` has returned, a draining stop has
    processed exactly what was pushed, in the order of the pushes; any other stop has processed a
    prefix of it; and whatever happens afterwards, nothing more is processed. -/
theorem lane_drains {s : LaneState α} {drain : Bool} (hs : (laneLife α).Reachable s)
    (hdone : s.stopper = .done drain) :
    (drain = true → s.processed = s.pushed) ∧ s.processed <+: s.pushed ∧
      ∀ steps s', (laneLife α).run s steps = some s' → s'.processed = s.processed := by
  obtain ⟨horder, hwf, hfits⟩ := LaneInv.reachable hs
  rw [hdone] at hfits
  obtain ⟨-, hworker, hdrained⟩ := hfits
  refine ⟨fun hd => ?_, ⟨s.lane.pending, horder.symm⟩, fun steps s' hrun => ?_⟩
  · have hpend : s.lane.pending = [] := by
      simp [Lane.pending, hworker, WorkerPhase.inHand, hdrained hd]
    rw [horder, hpend, List.append_nil]
  · have hkeep : (s'.stopper = .done drain ∧ s'.lane.worker = .unstarted) ∧
        s'.processed = s.processed := by
      refine Machine.run_preserves
        (I := fun s' => (s'.stopper = .done drain ∧ s'.lane.worker = .unstarted) ∧
          s'.processed = s.processed) ?_ ⟨⟨hdone, hworker⟩, rfl⟩ hrun
      rintro a step b ⟨hda, hpa⟩ hstep
      obtain ⟨hdb, hpb⟩ := processed_step hda hstep
      exact ⟨hdb, hpb.trans hpa⟩
    exact hkeep.2

/-- A stop that finds one element queued. -/
theorem lane_drains_one_event :
    ∃ s : LaneState Nat, s.pushed = [5] ∧ s.stopper = .done true ∧ s.processed = s.pushed ∧
      ∀ steps s', (laneLife Nat).run s steps = some s' → s'.processed = s.processed := by
  have hinit : (laneLife Nat).Reachable { lane := .fresh {} (max 4 1) } := .init ⟨{}, 4, true, rfl⟩
  have hs := hinit.run [.start, .call 0 5 false, .produce 0 false 0, .produce 0 false 0,
    .produce 0 false 0, .stop true, .advance, .advance, .advance, .advance, .work .giveUp 0,
    .work .run 0, .work .run 0, .work .run 0, .work .run 0, .work .run 0, .work .run 0,
    .advance] rfl
  obtain ⟨hall, -, hlater⟩ := lane_drains hs rfl
  exact ⟨_, rfl, rfl, hall rfl, hlater⟩

end SyLog
