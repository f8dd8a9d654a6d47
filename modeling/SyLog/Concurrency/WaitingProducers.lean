import SyLog.Concurrency.ConcurrentSubmit
import SyLog.Concurrency.Lifecycle

set_option autoImplicit false

/-! # Producers that wait and lifecycle calls

Any number of threads in `Pipeline::submit` and in the lifecycle calls, with the lane workers. The
calls are made of their critical sections, as in `SyLog.Concurrency.Lifecycle`, but `stop_lanes_` is
taken apart into its rounds, during which its thread holds `worker_m`; between two rounds everybody
else goes on. In `push_blocking`, testing the wait predicate and going to sleep is one step.

A producer works on the crossbar, the lanes and the queue that it has got hold of, while the calls
put others in their place. Crossbars and their vectors of lanes are numbered. A queue is named by
its lane and its version, which counts how often `stop_lanes_(false)` has replaced the queues of
the vector.

A crossbar or lane that is replaced stays as it is. What its destructor would do concerns no
producer, since a producer in one of its queues keeps it alive. -/

namespace SyLog

/-! ## The machine -/

/-- A queue that lane `lane` of vector `vector` has or had. -/
structure QueueRef where
  vector : Nat
  lane : Nat
  version : Nat
  deriving DecidableEq, Repr

/-- Where a producer is in the delivery strategy of a lane. -/
inductive DeliveryPhase where
  /-- `push_blocking` loads `accepting` at the head of its loop -/
  | entering
  /-- `reserve_slot_` -/
  | reserving
  /-- a slot is reserved; `queue_.push` is next -/
  | pushing
  /-- the push has failed; `release_slot_` decrements `size_` -/
  | releasing
  /-- `release_slot_` calls `cv_space_.notify_one()` -/
  | notifying
  /-- about to test the wait predicate, at first or after a wakeup -/
  | checking
  | asleep
  deriving DecidableEq, Repr

/-- Where a thread is in `submit`, from the choice of asynchronous delivery on. -/
inductive DeliverPhase where
  | idle
  /-- copy the crossbar under `worker_m` -/
  | copying (e : Event) (mask : RouteMask)
  /-- load `accepting` -/
  | testing (e : Event) (mask : RouteMask) (crossbar : Nat)
  /-- `SinkCrossbar::submit` copies the lanes -/
  | snapshotting (e : Event) (mask : RouteMask) (crossbar : Nat)
  /-- in its loop, at lane `i` of a vector -/
  | visiting (e : Event) (mask : RouteMask) (vector i : Nat)
  | inQueue (e : Event) (mask : RouteMask) (q : QueueRef) (phase : DeliveryPhase)

namespace DeliverPhase

/-- The queue on whose `cv_space_` the thread sleeps. -/
def sleepsOn : DeliverPhase → Option QueueRef
  | .inQueue _ _ q .asleep => some q
  | _ => none

/-- A thread that is woken tests its predicate again. -/
def awoken : DeliverPhase → DeliverPhase
  | .inQueue e mask q .asleep => .inQueue e mask q .checking
  | phase => phase

@[simp] theorem awoken_sleepsOn (phase : DeliverPhase) : phase.awoken.sleepsOn = none := by
  unfold awoken
  split
  · rfl
  · next hawake =>
      unfold sleepsOn
      split
      · next e mask q => exact absurd rfl (hawake e mask q)
      · rfl

end DeliverPhase

/-- A thread in `stop_lanes_`. -/
structure StopLoop where
  thread : Nat
  phase : CrossbarPhase Event
  /-- the lane whose queue is closed and whose `cv_space_.notify_all()` is next -/
  owes : Option Nat := none

structure WaitState where
  pipeline : Pipeline := .init
  calls : Nat → CallPhase := fun _ => .idle
  /-- the thread in `stop_lanes_`, which holds `worker_m` -/
  stopping : Option StopLoop := none
  /-- the number of the pipeline's crossbar -/
  crossbar : Nat := 0
  /-- the number of its vector of lanes -/
  vector : Nat := 0
  /-- the last vector of each replaced crossbar -/
  lastVector : Nat → Nat := fun _ => 0
  /-- the vectors that were replaced -/
  old : Nat → List (Lane Event) := fun _ => []
  /-- how often the queues of a vector have been replaced -/
  version : Nat → Nat := fun _ => 0
  /-- the queues that were replaced -/
  retired : QueueRef → WorkersEventQueue Event := fun _ => {}
  producers : Nat → DeliverPhase := fun _ => .idle
  /-- the threads that wait on some `cv_space_` -/
  sleepers : List Nat := []
  /-- the last step of the lifecycle calls was the return of a `close` or `request_stop` -/
  shutDown : Bool := false

inductive WaitStep where
  /-- thread `t` calls `submit`; the mask is whatever the endpoint cache has given it -/
  | submit (t : Nat) (e : Event) (mask : RouteMask) (forceSync : Bool)
  /-- thread `t` goes on in its submit; a notification picks one of the sleeping threads -/
  | produce (t : Nat) (picked : Nat)
  /-- a spurious wakeup of thread `t` -/
  | wake (t : Nat)
  /-- the worker of lane `i` of a vector takes a step -/
  | work (vector i : Nat) (act : WorkerAct) (picked : Nat)
  /-- thread `t` makes a lifecycle call -/
  | call (t : Nat) (c : LifecycleCall)
  /-- thread `t` goes on in its lifecycle call -/
  | advance (t : Nat)

namespace WaitState

/-! ### Lanes and queues -/

def lanesAt (s : WaitState) (vector : Nat) : List (Lane Event) :=
  if vector = s.vector then s.pipeline.crossbar.lanes else s.old vector

def setCrossbar (s : WaitState) (crossbar : SinkCrossbar Event) : WaitState :=
  { s with pipeline := { s.pipeline with crossbar } }

def setLane (s : WaitState) (vector i : Nat) (l : Lane Event) : WaitState :=
  if vector = s.vector then
    s.setCrossbar { s.pipeline.crossbar with lanes := s.pipeline.crossbar.lanes.set i l }
  else { s with old := Function.update s.old vector ((s.old vector).set i l) }

/-- The vector that `SinkCrossbar::submit` copies. -/
def vectorOf (s : WaitState) (crossbar : Nat) : Nat :=
  if crossbar = s.crossbar then s.vector else s.lastVector crossbar

/-- The queue that lane `i` of a vector has now. -/
def queueRef (s : WaitState) (vector i : Nat) : QueueRef := ⟨vector, i, s.version vector⟩

/-- The queue `q` of the lane `l`. -/
def queueAt (s : WaitState) (l : Lane Event) (q : QueueRef) : WorkersEventQueue Event :=
  if q.version = s.version q.vector then l.queue else s.retired q

def setQueue (s : WaitState) (l : Lane Event) (q : QueueRef) (queue : WorkersEventQueue Event) :
    WaitState :=
  if q.version = s.version q.vector then s.setLane q.vector q.lane { l with queue }
  else { s with retired := Function.update s.retired q queue }

/-! ### Producers -/

def setProducer (s : WaitState) (t : Nat) (phase : DeliverPhase) : WaitState :=
  { s with producers := Function.update s.producers t phase }

/-- Thread `t` is woken, if it sleeps. -/
def wake (s : WaitState) (t : Nat) : WaitState :=
  { s.setProducer t (s.producers t).awoken with sleepers := s.sleepers.erase t }

/-- The threads that wait on the `cv_space_` of a queue. -/
def sleepersOn (s : WaitState) (q : QueueRef) : List Nat :=
  s.sleepers.filter (fun t => (s.producers t).sleepsOn = some q)

/-- `cv_space_.notify_one()`: one of the threads that wait is woken, if there is one. -/
def notifyOne (s : WaitState) (q : QueueRef) (picked : Nat) : Option WaitState :=
  if s.sleepersOn q = [] then some s
  else if picked ∈ s.sleepersOn q then some (s.wake picked) else none

/-- `cv_space_.notify_all()` -/
def notifyAll (s : WaitState) (q : QueueRef) : WaitState :=
  { s with
    producers := fun t =>
      if (s.producers t).sleepsOn = some q then (s.producers t).awoken else s.producers t
    sleepers := s.sleepers.filter (fun t => (s.producers t).sleepsOn ≠ some q) }

/-- Thread `t` goes on in the delivery strategy of the lane `l`, on the queue `q`. -/
def deliver (s : WaitState) (t : Nat) (e : Event) (mask : RouteMask) (l : Lane Event) (q : QueueRef)
    (picked : Nat) (phase : DeliveryPhase) : Option WaitState :=
  let queue := s.queueAt l q
  let next : DeliverPhase := .visiting e mask q.vector (q.lane + 1)
  match phase with
  | .entering =>
    some (s.setProducer t (if s.pipeline.accepting then .inQueue e mask q .reserving else next))
  | .reserving =>
    match queue.reserveSlot with
    | some queue => some ((s.setQueue l q queue).setProducer t (.inQueue e mask q .pushing))
    | none => some (s.setProducer t (if l.blocks then .inQueue e mask q .checking else next))
  | .pushing =>
    match queue.queue.push e with
    | some blocking => some ((s.setQueue l q { queue with queue := blocking }).setProducer t next)
    | none => some (s.setProducer t (.inQueue e mask q .releasing))
  | .releasing =>
    some ((s.setQueue l q queue.releaseSlot).setProducer t (.inQueue e mask q .notifying))
  | .notifying => (s.setProducer t next).notifyOne q picked
  | .checking =>
    if !s.pipeline.accepting || decide (queue.size < queue.capacity) then
      some (s.setProducer t (.inQueue e mask q .entering))
    else
      some { s.setProducer t (.inQueue e mask q .asleep) with sleepers := s.sleepers ++ [t] }
  | .asleep => none

/-- Thread `t` goes on in its submit; `none` when it has to wait. -/
def produce (s : WaitState) (t picked : Nat) : Option WaitState :=
  match s.producers t with
  | .idle => none
  | .copying e mask =>
    if s.stopping.isSome then none else some (s.setProducer t (.testing e mask s.crossbar))
  | .testing e mask crossbar =>
    -- `dispatch_sync_` has nothing to do with the queues
    some (s.setProducer t (if s.pipeline.accepting then .snapshotting e mask crossbar else .idle))
  | .snapshotting e mask crossbar =>
    some (s.setProducer t (.visiting e mask (s.vectorOf crossbar) 0))
  | .visiting e mask vector i =>
    match (s.lanesAt vector)[i]? with
    | none => some (s.setProducer t .idle)
    | some l =>
      if i < 64 then
        if selects mask i then
          some (s.setProducer t
            (.inQueue e mask (s.queueRef vector i) (if l.blocks then .entering else .reserving)))
        else some (s.setProducer t (.visiting e mask vector (i + 1)))
      else some (s.setProducer t .idle)
  | .inQueue e mask q phase =>
    ((s.lanesAt q.vector)[q.lane]?).bind fun l => s.deliver t e mask l q picked phase

/-- A step of the worker of lane `i` of a vector. The notification of `release_slot_` follows the
    decrement. -/
def work (s : WaitState) (vector i : Nat) (act : WorkerAct) (picked : Nat) : Option WaitState :=
  ((s.lanesAt vector)[i]?).bind fun l =>
    (l.work act).bind fun (l', _) =>
      let s' := s.setLane vector i l'
      match l.worker with
      | .notifying _ _ => s'.notifyOne (s.queueRef vector i) picked
      | _ => some s'

/-! ### Lifecycle calls -/

def setCall (s : WaitState) (t : Nat) (phase : CallPhase) : WaitState :=
  { s with calls := Function.update s.calls t phase, shutDown := false }

/-- `SinkCrossbar::configure` after its `stop_lanes_`: the crossbar gets a new vector of lanes. -/
def rebuild (s : WaitState) (restart : Bool) (routes : List Route) : WaitState :=
  { s with
    pipeline.crossbar := s.pipeline.crossbar.rebuild restart routes s.pipeline.cfg.queueCapacity
    old := Function.update s.old s.vector s.pipeline.crossbar.lanes
    vector := s.vector + 1 }

/-- A new crossbar takes the place of the pipeline's. -/
def renew (s : WaitState) (pipeline : Pipeline) : WaitState :=
  { s with
    pipeline
    old := Function.update s.old s.vector s.pipeline.crossbar.lanes
    vector := s.vector + 1
    lastVector := Function.update s.lastVector s.crossbar s.vector
    crossbar := s.crossbar + 1 }

/-- `stop_lanes_(false)` has given the lanes new queues. -/
def retire (s : WaitState) (lanes : List (Lane Event)) : WaitState :=
  { s with
    retired := fun q =>
      if q.vector = s.vector ∧ q.version = s.version s.vector then
        ((lanes[q.lane]?).map Lane.queue).getD {}
      else s.retired q
    version := Function.update s.version s.vector (s.version s.vector + 1) }

/-- What thread `t` does when its `stop_lanes_` has returned. -/
def afterStop (s : WaitState) (t : Nat) : WaitState :=
  match s.calls t with
  | .updating routes => (s.rebuild true routes).setCall t .idle
  | _ => s.setCall t .flushing

/-- Thread `t` locks `worker_m` and enters `stop_lanes_`, with its early return. -/
def enterStop (s : WaitState) (t : Nat) (drain : Bool) : WaitState :=
  match s.pipeline.crossbar.enterStop drain with
  | (crossbar, some phase) =>
    { s.setCrossbar crossbar with stopping := some { thread := t, phase }, shutDown := false }
  | (crossbar, none) => (s.setCrossbar crossbar).afterStop t

/-- One round of `stop_lanes_`; `none` when it has to wait for a worker. -/
def stopRound (s : WaitState) (loop : StopLoop) : Option WaitState :=
  match loop.owes with
  | some k =>
    some { s.notifyAll (s.queueRef s.vector k) with
      stopping := some { loop with owes := none }, shutDown := false }
  | none =>
    (s.pipeline.crossbar.advance s.pipeline.accepting loop.phase).map fun (crossbar, phase, _) =>
      match loop.phase, phase with
      | .closing _ k, some phase =>
        let owes := if k < s.pipeline.crossbar.lanes.length then some k else none
        { s.setCrossbar crossbar with
          stopping := some { loop with phase, owes }, shutDown := false }
      | _, some phase =>
        { s.setCrossbar crossbar with stopping := some { loop with phase }, shutDown := false }
      | .joining false _, none =>
        { (s.setCrossbar crossbar).retire s.pipeline.crossbar.lanes with
          stopping := none }.afterStop loop.thread
      | _, none => { s.setCrossbar crossbar with stopping := none }.afterStop loop.thread

/-- Thread `t` runs the next section of its call; `none` when it has to wait. -/
def advance (s : WaitState) (t : Nat) : Option WaitState :=
  match s.calls t, s.stopping with
  | .stopping drain, none =>
    some ({ s with pipeline := { s.pipeline with running := false } }.enterStop t drain)
  | .updating routes, none =>
    some (if s.pipeline.crossbar.running then s.enterStop t true
      else (s.rebuild false routes).setCall t .idle)
  | .stopping _, some loop | .updating _, some loop =>
    if loop.thread = t then s.stopRound loop else none
  -- the other sections under `worker_m`
  | .starting, some _ | .flushing, some _ | .installing _ _, some _ => none
  | .installing reopen snapshot, none =>
    (s.pipeline.runSection (.installing reopen snapshot)).map fun (pipeline, phase) =>
      { (s.renew pipeline).setCall t phase with shutDown := !reopen }
  | current, _ =>
    (s.pipeline.runSection current).map fun (pipeline, phase) =>
      { s with pipeline }.setCall t phase

end WaitState

/-- Submits, lifecycle calls and workers, on a pipeline as it is constructed. -/
def waitingProducers : Machine WaitState WaitStep where
  init s := s = {}
  next s
    | .submit t e mask forceSync =>
      match s.producers t with
      | .idle =>
        if s.pipeline.cfg.asyncMode e forceSync then some (s.setProducer t (.copying e mask))
        else some s
      | _ => none
    | .produce t picked => s.produce t picked
    | .wake t => some (s.wake t)
    | .work vector i act picked => s.work vector i act picked
    | .call t c =>
      match s.calls t with
      | .idle => some (s.setCall t c.entry)
      | _ => none
    | .advance t => s.advance t

end SyLog
