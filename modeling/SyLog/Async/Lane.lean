import SyLog.Async.WorkersEventQueue

set_option autoImplicit false

/-! # Lanes and their workers

A lane is one route with its queue and its worker thread. `Lane.work` is one step of the thread in
`SinkCrossbar::lane_loop_`, fine enough that another thread can act between any two calls on the
queue. The element type is left open so that a proof can tag what it queues.

The one fact that the ordering results rest on is `Lane.WorkStep.pending`: a worker step hands the
head of what is pending to `process_` or leaves what is pending alone. -/

namespace SyLog

variable {α : Type}

/-- Where the worker thread is in `lane_loop_`. The flag of the phases that hold an element says
    which of the two loops took it. -/
inductive WorkerPhase (α : Type) where
  /-- no thread: not started yet, or joined -/
  | unstarted
  /-- in `queue_.pop(st, out)` of the first loop -/
  | popping
  /-- an element is popped; `release_slot_` has yet to decrement `size_` -/
  | releasing (e : α) (draining : Bool)
  /-- `size_` is decremented; `cv_space_.notify_one()` is next -/
  | notifying (e : α) (draining : Bool)
  /-- about to call `process_` -/
  | processing (e : α) (draining : Bool)
  /-- the first loop has ended; `drain_on_stop` has yet to be read -/
  | leaving
  /-- in `queue_.try_pop(out)` of the second loop -/
  | draining
  | exited
  deriving DecidableEq, Repr

namespace WorkerPhase

/-- `worker.joinable()` -/
def joinable : WorkerPhase α → Bool
  | .unstarted => false
  | _ => true

/-- The thread may be joined without waiting. -/
def finished : WorkerPhase α → Bool
  | .unstarted | .exited => true
  | _ => false

/-- The element that the worker has taken from the queue and not yet given to `process_`. -/
def inHand : WorkerPhase α → List α
  | .releasing e _ | .notifying e _ | .processing e _ => [e]
  | _ => []

/-- The slots of elements already popped that are still counted in `size_`. -/
def unreleased : WorkerPhase α → Nat
  | .releasing _ _ => 1
  | _ => 0

/-- The worker is in the loop that serves the queue until it is told to stop. -/
def serving : WorkerPhase α → Bool
  | .popping | .releasing _ false | .notifying _ false | .processing _ false => true
  | _ => false

/-- The worker has left that loop and has not been joined. -/
def ending : WorkerPhase α → Bool
  | .leaving | .draining | .exited => true
  | .releasing _ d | .notifying _ d | .processing _ d => d
  | _ => false

end WorkerPhase

structure Lane (α : Type) where
  route : Route
  queue : WorkersEventQueue α
  worker : WorkerPhase α := .unstarted
  /-- `stop_requested()` of the worker's `std::stop_token` -/
  stopRequested : Bool := false
  drainOnStop : Bool := true
  /-- the `std::string buffer` of `lane_loop_` -/
  buffer : Bytes := []

namespace Lane

/-- What the lane has accepted and not yet given to `process_`, oldest first. -/
def pending (l : Lane α) : List α := l.worker.inHand ++ l.queue.queue.items

end Lane

/-! ## The worker -/

/-- The choice of a worker step: to go on, or to come back from `pop(st, out)` without an element,
    which the queue allows after a close or a stop request even when elements are left. -/
inductive WorkerAct where
  | run
  | giveUp
  deriving DecidableEq, Repr

namespace Lane

/-- Take the oldest element off the queue; `none` when the queue is empty. -/
def takeHead (l : Lane α) (draining : Bool) : Option (Lane α) :=
  (l.queue.queue.tryPop).map (fun (e, queue) =>
    { l with queue := { l.queue with queue }, worker := .releasing e draining })

/-- One step of `lane_loop_`, with the element it hands to `process_`, if any. -/
def work (l : Lane α) : WorkerAct → Option (Lane α × Option α)
  | .giveUp =>
    match l.worker with
    | .popping =>
      if l.queue.queue.closed || l.stopRequested then some ({ l with worker := .leaving }, none)
      else none
    | _ => none
  | .run =>
    match l.worker with
    | .unstarted | .exited => none
    -- `pop` sleeps while the queue is empty
    | .popping => (l.takeHead false).map (·, none)
    | .releasing e d =>
      some ({ l with queue := l.queue.releaseSlot, worker := .notifying e d }, none)
    | .notifying e d => some ({ l with worker := .processing e d }, none)
    | .processing e d => some ({ l with worker := if d then .draining else .popping }, some e)
    | .leaving => some ({ l with worker := if l.drainOnStop then .draining else .exited }, none)
    | .draining =>
      match l.takeHead true with
      | some l' => some (l', none)
      | none => some ({ l with worker := .exited }, none)

/-- `std::jthread([lane](std::stop_token st) { lane_loop_(*lane, st); })` -/
def start (l : Lane α) : Lane α :=
  { l with drainOnStop := true, worker := .popping, stopRequested := false }

/-! ### What a worker step can do -/

theorem takeHead_eq_some {l l' : Lane α} {d : Bool} (h : l.takeHead d = some l') :
    ∃ e rest, l.queue.queue.items = e :: rest ∧
      l' = { l with queue := { l.queue with queue := { l.queue.queue with items := rest } }
                    worker := .releasing e d } := by
  unfold takeHead BlockingQueue.tryPop at h
  cases hitems : l.queue.queue.items with
  | nil => simp [hitems] at h
  | cons e rest =>
      simp only [hitems, Option.map_some, Option.some.injEq] at h
      exact ⟨e, rest, rfl, h.symm⟩

theorem takeHead_eq_none {l : Lane α} {d : Bool} (h : l.takeHead d = none) :
    l.queue.queue.items = [] := by
  unfold takeHead BlockingQueue.tryPop at h
  cases hitems : l.queue.queue.items with
  | nil => rfl
  | cons e rest => simp [hitems] at h

/-- The steps of a worker, by the phase they are taken in. -/
inductive WorkStep (l : Lane α) : Lane α → Option α → Prop
  | take (e : α) (rest : List α) (d : Bool)
      (hphase : l.worker = if d then .draining else .popping)
      (hitems : l.queue.queue.items = e :: rest) :
      WorkStep l { l with queue := { l.queue with queue := { l.queue.queue with items := rest } }
                          worker := .releasing e d } none
  | giveUp (hphase : l.worker = .popping)
      (hstop : l.queue.queue.closed = true ∨ l.stopRequested = true) :
      WorkStep l { l with worker := .leaving } none
  | release (e : α) (d : Bool) (hphase : l.worker = .releasing e d) :
      WorkStep l { l with queue := l.queue.releaseSlot, worker := .notifying e d } none
  | notify (e : α) (d : Bool) (hphase : l.worker = .notifying e d) :
      WorkStep l { l with worker := .processing e d } none
  | process (e : α) (d : Bool) (hphase : l.worker = .processing e d) :
      WorkStep l { l with worker := if d then .draining else .popping } (some e)
  | leave (hphase : l.worker = .leaving) :
      WorkStep l { l with worker := if l.drainOnStop then .draining else .exited } none
  | finish (hphase : l.worker = .draining) (hitems : l.queue.queue.items = []) :
      WorkStep l { l with worker := .exited } none

theorem workStep_of_work {l l' : Lane α} {act : WorkerAct} {out : Option α}
    (h : l.work act = some (l', out)) : WorkStep l l' out := by
  cases act with
  | giveUp =>
      cases hw : l.worker with
      | popping =>
          simp only [work, hw] at h
          split at h
          · next hstop =>
              obtain ⟨rfl, rfl⟩ := Prod.mk.inj (Option.some.inj h)
              exact .giveUp hw (by simpa using hstop)
          · exact absurd h (by simp)
      | _ => simp [work, hw] at h
  | run =>
      cases hw : l.worker with
      | unstarted => simp [work, hw] at h
      | exited => simp [work, hw] at h
      | popping =>
          simp only [work, hw, Option.map_eq_some_iff] at h
          obtain ⟨l₁, htake, heq⟩ := h
          obtain ⟨rfl, rfl⟩ := Prod.mk.inj heq
          obtain ⟨e, rest, hitems, rfl⟩ := takeHead_eq_some htake
          exact .take e rest false hw hitems
      | releasing e d =>
          simp only [work, hw, Option.some.injEq, Prod.mk.injEq] at h
          obtain ⟨rfl, rfl⟩ := h
          exact .release e d hw
      | notifying e d =>
          simp only [work, hw, Option.some.injEq, Prod.mk.injEq] at h
          obtain ⟨rfl, rfl⟩ := h
          exact .notify e d hw
      | processing e d =>
          simp only [work, hw, Option.some.injEq, Prod.mk.injEq] at h
          obtain ⟨rfl, rfl⟩ := h
          exact .process e d hw
      | leaving =>
          simp only [work, hw, Option.some.injEq, Prod.mk.injEq] at h
          obtain ⟨rfl, rfl⟩ := h
          exact .leave hw
      | draining =>
          simp only [work, hw] at h
          split at h
          · next l₁ htake =>
              obtain ⟨rfl, rfl⟩ := Prod.mk.inj (Option.some.inj h)
              obtain ⟨e, rest, hitems, rfl⟩ := takeHead_eq_some htake
              exact .take e rest true hw hitems
          · next htake =>
              obtain ⟨rfl, rfl⟩ := Prod.mk.inj (Option.some.inj h)
              exact .finish hw (takeHead_eq_none htake)

/-- **A worker keeps the order.** What it hands to `process_` is the head of what was pending, and
    nothing else changes what is pending. -/
theorem WorkStep.pending {l l' : Lane α} {out : Option α} (h : WorkStep l l' out) :
    l.pending = out.toList ++ l'.pending := by
  cases h with
  | take e rest d hphase hitems =>
      cases d <;> simp_all [Lane.pending, WorkerPhase.inHand]
  | giveUp hphase hstop => simp [Lane.pending, WorkerPhase.inHand, hphase]
  | release e d hphase =>
      simp [Lane.pending, WorkerPhase.inHand, hphase, WorkersEventQueue.releaseSlot]
  | notify e d hphase => simp [Lane.pending, WorkerPhase.inHand, hphase]
  | process e d hphase => cases d <;> simp [Lane.pending, WorkerPhase.inHand, hphase]
  | leave hphase => cases hd : l.drainOnStop <;> simp [Lane.pending, WorkerPhase.inHand, hphase]
  | finish hphase hitems => simp [Lane.pending, WorkerPhase.inHand, hphase]

/-- What a worker step leaves alone. -/
theorem WorkStep.frame {l l' : Lane α} {out : Option α} (h : WorkStep l l' out) :
    l'.route = l.route ∧ l'.queue.queue.closed = l.queue.queue.closed ∧
      l'.queue.capacity = l.queue.capacity ∧ l'.stopRequested = l.stopRequested ∧
      l'.drainOnStop = l.drainOnStop ∧ l'.buffer = l.buffer := by
  cases h <;> exact ⟨rfl, rfl, rfl, rfl, rfl, rfl⟩

/-- A worker step neither starts nor joins the thread. -/
theorem WorkStep.joinable {l l' : Lane α} {out : Option α} (h : WorkStep l l' out) :
    l.worker.joinable = true ∧ l'.worker.joinable = true := by
  cases h with
  | take e rest d hphase hitems => cases d <;> simp [hphase, WorkerPhase.joinable]
  | process e d hphase => cases d <;> simp [hphase, WorkerPhase.joinable]
  | leave hphase => cases hd : l.drainOnStop <;> simp [hphase, WorkerPhase.joinable]
  | _ => simp_all [WorkerPhase.joinable]

/-- The part of `size_` that neither the queued elements nor the worker account for: the slots that
    producers hold. -/
def heldSlots (l : Lane α) : UInt64 :=
  l.queue.size - UInt64.ofNat (l.queue.queue.items.length + l.worker.unreleased)

/-- A worker step gives back exactly the slots of what it takes. -/
theorem WorkStep.heldSlots {l l' : Lane α} {out : Option α} (h : WorkStep l l' out) :
    l'.heldSlots = l.heldSlots := by
  cases h with
  | take e rest d hphase hitems =>
      cases d <;> simp_all [Lane.heldSlots, WorkerPhase.unreleased]
  | giveUp hphase hstop => simp [Lane.heldSlots, WorkerPhase.unreleased, hphase]
  | release e d hphase =>
      -- the counter and the slot that the worker holds go down together
      simp only [Lane.heldSlots, WorkerPhase.unreleased, hphase, WorkersEventQueue.releaseSlot,
        UInt64.ofNat_add]
      grind
  | notify e d hphase => simp [Lane.heldSlots, WorkerPhase.unreleased, hphase]
  | process e d hphase => cases d <;> simp [Lane.heldSlots, WorkerPhase.unreleased, hphase]
  | leave hphase =>
      cases hd : l.drainOnStop <;> simp [Lane.heldSlots, WorkerPhase.unreleased, hphase]
  | finish hphase hitems => simp [Lane.heldSlots, WorkerPhase.unreleased, hphase]

/-! ## Well-formed lanes -/

/-- What `stop_lanes_` relies on: a stop request comes after the close, a worker leaves its loop
    only on a closed queue, and one that drains exits only on an empty one. -/
structure WellFormed (l : Lane α) : Prop where
  stop_closed : l.stopRequested = true → l.queue.queue.closed = true
  ending_closed : l.worker.ending = true → l.queue.queue.closed = true
  exited_drained : l.worker = .exited → l.drainOnStop = true → l.queue.queue.items = []

/-- A live worker on an open queue. -/
structure Live (l : Lane α) : Prop where
  queue_open : l.queue.queue.closed = false
  not_stopped : l.stopRequested = false
  serving : l.worker.serving = true

theorem WorkStep.wellFormed {l l' : Lane α} {out : Option α} (h : WorkStep l l' out)
    (hl : l.WellFormed) : l'.WellFormed := by
  obtain ⟨hstop, hending, hexit⟩ := hl
  cases h with
  | take e rest d hphase hitems =>
      refine ⟨hstop, fun hd => ?_, fun hx => by simp at hx⟩
      simp only [WorkerPhase.ending] at hd
      subst hd
      exact hending (by simp [hphase, WorkerPhase.ending])
  | giveUp hphase hor =>
      -- a stop request comes after the close, so the queue is closed either way
      exact ⟨hstop, fun _ => hor.elim id hstop, fun hx => by simp at hx⟩
  | release e d hphase =>
      refine ⟨hstop, fun hd => hending ?_, fun hx => by simp at hx⟩
      simpa [hphase, WorkerPhase.ending] using hd
  | notify e d hphase =>
      refine ⟨hstop, fun hd => hending ?_, fun hx => by simp at hx⟩
      simpa [hphase, WorkerPhase.ending] using hd
  | process e d hphase =>
      refine ⟨hstop, fun hd => hending ?_, fun hx => ?_⟩
      · cases d with
        | false => simp [WorkerPhase.ending] at hd
        | true => simp [hphase, WorkerPhase.ending]
      · cases d <;> simp at hx
  | leave hphase =>
      refine ⟨hstop, fun _ => hending (by simp [hphase, WorkerPhase.ending]), fun hx hd => ?_⟩
      have hdrain : l.drainOnStop = true := hd
      simp [hdrain] at hx
  | finish hphase hitems =>
      exact ⟨hstop, fun _ => hending (by simp [hphase, WorkerPhase.ending]), fun _ _ => hitems⟩

/-- A worker with an element in its hands serves the queue if the first loop took it. -/
theorem serving_inHand {phase : WorkerPhase α} {e : α} {d : Bool}
    (h : phase = .releasing e d ∨ phase = .notifying e d ∨ phase = .processing e d) :
    phase.serving = !d := by
  rcases h with rfl | rfl | rfl
  all_goals cases d <;> rfl

theorem WorkStep.live {l l' : Lane α} {out : Option α} (h : WorkStep l l' out) (hl : l.Live) :
    l'.Live := by
  obtain ⟨hopen, hstop, hserving⟩ := hl
  -- the flag of the element says that the worker is in its first loop
  have hfirst : ∀ e d, l.worker = .releasing e d ∨ l.worker = .notifying e d ∨
      l.worker = .processing e d → d = false := by
    intro e d hphase
    simpa [serving_inHand hphase] using hserving
  cases h with
  | take e rest d hphase hitems =>
      cases d with
      | false => exact ⟨hopen, hstop, rfl⟩
      | true => simp [hphase, WorkerPhase.serving] at hserving
  | giveUp hphase hor => simp_all
  | release e d hphase =>
      obtain rfl := hfirst e d (Or.inl hphase)
      exact ⟨hopen, hstop, rfl⟩
  | notify e d hphase =>
      obtain rfl := hfirst e d (Or.inr (Or.inl hphase))
      exact ⟨hopen, hstop, rfl⟩
  | process e d hphase =>
      obtain rfl := hfirst e d (Or.inr (Or.inr hphase))
      exact ⟨hopen, hstop, rfl⟩
  | leave hphase => simp [hphase, WorkerPhase.serving] at hserving
  | finish hphase hitems => simp [hphase, WorkerPhase.serving] at hserving

/-- A worker that may be joined after a draining stop has left nothing behind. -/
theorem WellFormed.pending_of_exited {l : Lane α} (h : l.WellFormed) (hw : l.worker = .exited)
    (hd : l.drainOnStop = true) : l.pending = [] := by
  simp [Lane.pending, hw, WorkerPhase.inHand, h.exited_drained hw hd]

end Lane

end SyLog
