import SyLog.Library.Machine
import SyLog.Async.CrossbarSession
import SyLog.Pipeline

set_option autoImplicit false

/-! # Concurrent submits and route changes

A started asynchronous pipeline with any number of threads in `Pipeline::submit`, one thread that
calls `add_route`, and the lane workers. Each access to shared data is one step: the copy of the
crossbar under `worker_m`, the loads of `accepting`, the copy of the lanes, and in a lane the
reservation of a slot, the push and the release of the slot. A thread that waits for room may test
its condition again at any time, so every wakeup is covered.

A producer works on the lanes that it has copied, while `add_route` closes, drains and replaces the
lanes of the crossbar. The vectors of lanes that the crossbar has had are numbered, so that a copy
is a number. Every submit carries a ticket that tells its event from equal ones.

`close` and `request_stop` appear as their first action, which clears `accepting`. -/

namespace SyLog

/-- A submit: the `number`-th of its thread. -/
structure Ticket where
  thread : Nat
  number : Nat
  deriving DecidableEq, Repr

abbrev Ticketed := Ticket × Event

structure Submission where
  ticket : Ticket
  event : Event
  mask : RouteMask
  /-- the routes that had a lane when the submit began -/
  configured : List Route

/-- Where a producer is in the delivery strategy of a lane. -/
inductive PushPhase where
  /-- `push_blocking` loads `accepting` at the head of its loop -/
  | entering
  /-- `reserve_slot_` -/
  | reserving
  /-- a slot is reserved; `queue_.push` is next -/
  | pushing
  /-- the push has failed; `release_slot_` is next -/
  | releasing
  /-- in `cv_space_.wait` -/
  | waiting
  deriving DecidableEq, Repr

/-- Where a thread is in `submit`. -/
inductive SubmitPhase where
  | idle
  /-- copy the crossbar under `worker_m` -/
  | copying (sub : Submission)
  /-- load `accepting` -/
  | testing (sub : Submission)
  /-- `dispatch_sync_` copies the routes -/
  | preparing (sub : Submission)
  /-- in the loop of `dispatch_sync_`, at route `i` -/
  | dispatching (sub : Submission) (snapshot : List Route) (i : Nat) (buffer : Bytes)
  /-- `SinkCrossbar::submit` copies the lanes -/
  | snapshotting (sub : Submission)
  /-- in its loop, at lane `i` of vector `g` -/
  | visiting (sub : Submission) (g i : Nat)
  | inLane (sub : Submission) (g i : Nat) (push : PushPhase)

/-- Where the reconfiguring thread is in `add_route`. -/
inductive AddPhase where
  | idle
  /-- the route is added; lock `worker_m` for `SinkCrossbar::configure` -/
  | updating (routes : List Route)
  /-- `stop_lanes_`, under `worker_m` -/
  | stopping (phase : CrossbarPhase Ticketed) (routes : List Route)

/-- The thread holds `worker_m`. -/
def AddPhase.holdsWorkerM : AddPhase → Bool
  | .stopping _ _ => true
  | _ => false

/-- The data that the threads share, with the history of each route. -/
structure SharedState where
  cfg : Config := {}
  routes : List Route := []
  accepting : Bool := true
  crossbar : SinkCrossbar Ticketed
  /-- the number of the crossbar's current vector of lanes -/
  generation : Nat := 0
  /-- the vectors that it had before -/
  old : Nat → List (Lane Ticketed) := fun _ => []
  adder : AddPhase := .idle
  /-- what was pushed for a route or dispatched to it -/
  handed : Nat → List Ticketed := fun _ => []
  /-- what was given to `process_` of a route or dispatched to it -/
  processed : Nat → List Ticketed := fun _ => []
  /-- what was written on behalf of a route -/
  written : Nat → List (Ticket × Output) := fun _ => []

structure SubmitState extends SharedState where
  producers : Nat → SubmitPhase := fun _ => .idle
  /-- how many submits of a thread have returned -/
  submits : Nat → Nat := fun _ => 0
  /-- the submits that returned while `accepting` was set -/
  returned : List Submission := []
  /-- the pushes to blocking lanes that reported failure -/
  refused : List (Ticket × Nat) := []

inductive SubmitStep where
  /-- thread `t` calls `submit`; the mask is whatever the endpoint cache has given it -/
  | submit (t : Nat) (e : Event) (mask : RouteMask) (forceSync : Bool)
  /-- thread `t` goes on -/
  | produce (t : Nat)
  /-- the worker of lane `i` of vector `g` takes a step -/
  | work (g i : Nat) (act : WorkerAct)
  | addRoute (r : Route)
  /-- the thread in `add_route` goes on -/
  | reconfigure
  /-- a thread enters `close` or `request_stop` -/
  | shutDown

namespace SharedState

/-- Vector `g` of lanes. -/
def lanesAt (a : SharedState) (g : Nat) : List (Lane Ticketed) :=
  if g = a.generation then a.crossbar.lanes else a.old g

def setLane (a : SharedState) (g i : Nat) (l : Lane Ticketed) : SharedState :=
  if g = a.generation then
    { a with crossbar := { a.crossbar with lanes := a.crossbar.lanes.set i l } }
  else { a with old := Function.update a.old g ((a.old g).set i l) }

/-- Record an element that was pushed for route `i`. -/
def hand (a : SharedState) (i : Nat) (x : Ticketed) : SharedState :=
  { a with handed := Function.update a.handed i (a.handed i ++ [x]) }

/-- Record an element that route `i` has dealt with, and what that wrote. -/
def record (a : SharedState) (i : Nat) (x : Ticketed) (out : List Output) : SharedState :=
  { a with processed := Function.update a.processed i (a.processed i ++ [x])
           written := Function.update a.written i (a.written i ++ out.map (x.1, ·)) }

/-- A step of the worker of lane `i` of vector `g`. -/
def work (a : SharedState) (g i : Nat) (act : WorkerAct) : Option SharedState :=
  ((a.lanesAt g)[i]?).bind fun l =>
    (l.work act).map fun (l', out) =>
      match out with
      | none => a.setLane g i l'
      | some x =>
        let (buffer, written) := process l.route i x.2 l.buffer
        (a.setLane g i { l' with buffer }).record i x written

/-- `SinkCrossbar::configure` after its `stop_lanes_`: the crossbar gets a new vector of lanes. -/
def rebuild (a : SharedState) (restart : Bool) (routes : List Route) : SharedState :=
  { a with old := Function.update a.old a.generation a.crossbar.lanes
           generation := a.generation + 1
           crossbar := a.crossbar.rebuild restart routes a.cfg.queueCapacity
           adder := .idle }

/-- The next step of `add_route`; `none` when it has to wait. -/
def reconfigure (a : SharedState) : Option SharedState :=
  match a.adder with
  | .idle => none
  | .updating routes =>
    if a.crossbar.running then
      match a.crossbar.enterStop true with
      | (crossbar, some phase) => some { a with crossbar, adder := .stopping phase routes }
      | (_, none) => some (a.rebuild true routes)
    else some (a.rebuild false routes)
  | .stopping phase routes =>
    (a.crossbar.advance a.accepting phase).map fun (crossbar, phase', _) =>
      match phase' with
      | some phase => { a with crossbar, adder := .stopping phase routes }
      | none => { a with crossbar }.rebuild true routes

end SharedState

/-- The route of the lane blocks when the queue is full. -/
def Lane.blocks {α : Type} (l : Lane α) : Bool := l.route.delivery == some .blockWhenFull

/-- The choice of `submit` between the calling thread and the crossbar. -/
def Config.asyncMode (cfg : Config) (e : Event) (forceSync : Bool) : Bool :=
  cfg.asyncByDefault && !forceSync &&
    !(cfg.fatalSync && decide (Severity.fatal.priority ≤ e.severityPriority))

namespace SubmitState

def setProducer (s : SubmitState) (t : Nat) (phase : SubmitPhase) : SubmitState :=
  { s with producers := Function.update s.producers t phase }

/-- The submit of thread `t` returns. -/
def finish (s : SubmitState) (t : Nat) (sub : Submission) : SubmitState :=
  { s with producers := Function.update s.producers t .idle
           submits := Function.update s.submits t (s.submits t + 1)
           returned := if s.accepting then s.returned ++ [sub] else s.returned }

/-- The delivery strategy of lane `i` reports failure. -/
def fail (s : SubmitState) (t : Nat) (sub : Submission) (g i : Nat) (l : Lane Ticketed) :
    SubmitState :=
  let refused := if l.blocks then s.refused ++ [(sub.ticket, i)] else s.refused
  { s with refused }.setProducer t (.visiting sub g (i + 1))

/-- Thread `t` goes on in the delivery strategy of the lane `l`. -/
def push (s : SubmitState) (t : Nat) (sub : Submission) (g i : Nat) (l : Lane Ticketed) :
    PushPhase → Option SubmitState
  | .entering =>
    some (if s.accepting then s.setProducer t (.inLane sub g i .reserving) else s.fail t sub g i l)
  | .reserving =>
    match l.queue.reserveSlot with
    | some queue =>
      let s := { s with toSharedState := s.setLane g i { l with queue } }
      some (s.setProducer t (.inLane sub g i .pushing))
    | none =>
      some (if l.blocks then s.setProducer t (.inLane sub g i .waiting) else s.fail t sub g i l)
  | .pushing =>
    match l.queue.queue.push (sub.ticket, sub.event) with
    | some queue =>
      let shared := s.setLane g i { l with queue := { l.queue with queue } }
      let s := { s with toSharedState := shared.hand i (sub.ticket, sub.event) }
      some (s.setProducer t (.visiting sub g (i + 1)))
    | none => some (s.setProducer t (.inLane sub g i .releasing))
  | .releasing =>
    let s := { s with toSharedState := s.setLane g i { l with queue := l.queue.releaseSlot } }
    some (s.fail t sub g i l)
  | .waiting =>
    if !s.accepting || decide (l.queue.size < l.queue.capacity) then
      some (s.setProducer t (.inLane sub g i .entering))
    else none

/-- Thread `t` goes on in its submit; `none` when it has to wait. -/
def produce (s : SubmitState) (t : Nat) : Option SubmitState :=
  match s.producers t with
  | .idle => none
  | .copying sub => if s.adder.holdsWorkerM then none else some (s.setProducer t (.testing sub))
  | .testing sub =>
    some (s.setProducer t (if s.accepting then .snapshotting sub else .preparing sub))
  | .preparing sub => some (s.setProducer t (.dispatching sub s.routes 0 []))
  | .dispatching sub snapshot i buffer =>
    match snapshot[i]? with
    | none => some (s.finish t sub)
    | some r =>
      if i < 64 then
        if selects sub.mask i then
          let (buffer, out) := dispatchRoute r i sub.event buffer
          let x := (sub.ticket, sub.event)
          let s := { s with toSharedState := (s.hand i x).record i x out }
          some (s.setProducer t (.dispatching sub snapshot (i + 1) buffer))
        else some (s.setProducer t (.dispatching sub snapshot (i + 1) buffer))
      else some (s.finish t sub)
  | .snapshotting sub => some (s.setProducer t (.visiting sub s.generation 0))
  | .visiting sub g i =>
    match (s.lanesAt g)[i]? with
    | none => some (s.finish t sub)
    | some l =>
      if i < 64 then
        if selects sub.mask i then
          some (s.setProducer t (.inLane sub g i (if l.blocks then .entering else .reserving)))
        else some (s.setProducer t (.visiting sub g (i + 1)))
      else some (s.finish t sub)
  | .inLane sub g i phase => ((s.lanesAt g)[i]?).bind fun l => s.push t sub g i l phase

end SubmitState

/-- Submits and route changes on a pipeline that was configured to be asynchronous and started with
    the given routes. -/
def concurrentSubmit : Machine SubmitState SubmitStep where
  init s := ∃ (cfg : Config) (routes : List Route), cfg.asyncByDefault = true ∧
    s = { cfg, routes
          crossbar :=
            ((SinkCrossbar.new cfg.queueCapacity).configure routes cfg.queueCapacity).start }
  next s
    | .submit t e mask forceSync =>
      match s.producers t with
      | .idle =>
        let sub : Submission :=
          { ticket := ⟨t, s.submits t⟩, event := e, mask, configured := s.crossbar.routes }
        some (s.setProducer t
          (if s.cfg.asyncMode e forceSync then .copying sub else .preparing sub))
      | _ => none
    | .produce t => s.produce t
    | .work g i act => (s.work g i act).map fun shared => { s with toSharedState := shared }
    | .addRoute r =>
      match s.adder with
      | .idle =>
        let routes := s.routes ++ [r]
        some { s with routes, adder := .updating routes }
      | _ => none
    | .reconfigure => (s.reconfigure).map fun shared => { s with toSharedState := shared }
    | .shutDown => some { s with accepting := false }

/-! ## What a producer can do -/

/-- The steps of thread `t`, by the phase they are taken in. -/
inductive ProduceStep (s : SubmitState) (t : Nat) : SubmitState → Prop
  | copied (sub : Submission) (hphase : s.producers t = .copying sub) :
      ProduceStep s t (s.setProducer t (.testing sub))
  | tested (sub : Submission) (hphase : s.producers t = .testing sub) :
      ProduceStep s t (s.setProducer t (if s.accepting then .snapshotting sub else .preparing sub))
  | prepared (sub : Submission) (hphase : s.producers t = .preparing sub) :
      ProduceStep s t (s.setProducer t (.dispatching sub s.routes 0 []))
  | dispatched (sub : Submission) (snapshot : List Route) (i : Nat) (buffer : Bytes)
      (hphase : s.producers t = .dispatching sub snapshot i buffer)
      (hend : snapshot.length ≤ i ∨ 64 ≤ i) : ProduceStep s t (s.finish t sub)
  | passed (sub : Submission) (snapshot : List Route) (i : Nat) (buffer : Bytes)
      (hphase : s.producers t = .dispatching sub snapshot i buffer)
      (hsel : selects sub.mask i = false) :
      ProduceStep s t (s.setProducer t (.dispatching sub snapshot (i + 1) buffer))
  | dispatch (sub : Submission) (snapshot : List Route) (i : Nat) (buffer buffer' : Bytes)
      (r : Route) (hphase : s.producers t = .dispatching sub snapshot i buffer)
      (hr : snapshot[i]? = some r) :
      ProduceStep s t (SubmitState.setProducer
        { s with
          toSharedState := (s.hand i (sub.ticket, sub.event)).record i (sub.ticket, sub.event)
            (r.outputs i sub.event) }
        t (.dispatching sub snapshot (i + 1) buffer'))
  | snapshot (sub : Submission) (hphase : s.producers t = .snapshotting sub) :
      ProduceStep s t (s.setProducer t (.visiting sub s.generation 0))
  | visited (sub : Submission) (g i : Nat) (hphase : s.producers t = .visiting sub g i)
      (hend : (s.lanesAt g).length ≤ i ∨ 64 ≤ i) : ProduceStep s t (s.finish t sub)
  | skipped (sub : Submission) (g i : Nat) (hphase : s.producers t = .visiting sub g i)
      (hsel : selects sub.mask i = false) :
      ProduceStep s t (s.setProducer t (.visiting sub g (i + 1)))
  | entered (sub : Submission) (g i : Nat) (phase : PushPhase)
      (hphase : s.producers t = .visiting sub g i) (hkeep : phase ≠ .releasing) :
      ProduceStep s t (s.setProducer t (.inLane sub g i phase))
  | moved (sub : Submission) (g i : Nat) (phase phase' : PushPhase)
      (hphase : s.producers t = .inLane sub g i phase) (hkeep : phase' ≠ .releasing) :
      ProduceStep s t (s.setProducer t (.inLane sub g i phase'))
  | reserved (sub : Submission) (g i : Nat) (phase : PushPhase) (l : Lane Ticketed)
      (q : WorkersEventQueue Ticketed) (hphase : s.producers t = .inLane sub g i phase)
      (hl : (s.lanesAt g)[i]? = some l) (hq : q.queue = l.queue.queue) :
      ProduceStep s t (SubmitState.setProducer
        { s with toSharedState := s.setLane g i { l with queue := q } }
        t (.inLane sub g i .pushing))
  | accepted (sub : Submission) (g i : Nat) (phase : PushPhase) (l : Lane Ticketed)
      (q : WorkersEventQueue Ticketed) (hphase : s.producers t = .inLane sub g i phase)
      (hl : (s.lanesAt g)[i]? = some l) (hopen : l.queue.queue.closed = false)
      (hq : q.queue = { l.queue.queue with
        items := l.queue.queue.items ++ [(sub.ticket, sub.event)] }) :
      ProduceStep s t (SubmitState.setProducer
        { s with
          toSharedState :=
            (s.setLane g i { l with queue := q }).hand i (sub.ticket, sub.event) }
        t (.visiting sub g (i + 1)))
  | rejected (sub : Submission) (g i : Nat) (l : Lane Ticketed)
      (hphase : s.producers t = .inLane sub g i .pushing) (hl : (s.lanesAt g)[i]? = some l)
      (hclosed : l.queue.queue.closed = true) :
      ProduceStep s t (s.setProducer t (.inLane sub g i .releasing))
  | failed (sub : Submission) (g i : Nat) (phase : PushPhase) (l : Lane Ticketed)
      (hphase : s.producers t = .inLane sub g i phase) (hl : (s.lanesAt g)[i]? = some l)
      (hwhy : l.blocks = true → s.accepting = false) : ProduceStep s t (s.fail t sub g i l)
  | released (sub : Submission) (g i : Nat) (l : Lane Ticketed) (q : WorkersEventQueue Ticketed)
      (hphase : s.producers t = .inLane sub g i .releasing) (hl : (s.lanesAt g)[i]? = some l)
      (hq : q.queue = l.queue.queue) :
      ProduceStep s t (SubmitState.fail
        { s with toSharedState := s.setLane g i { l with queue := q } } t sub g i l)

theorem produceStep_of_push {s s' : SubmitState} {t : Nat} {sub : Submission} {g i : Nat}
    {phase : PushPhase} {l : Lane Ticketed} (hphase : s.producers t = .inLane sub g i phase)
    (hl : (s.lanesAt g)[i]? = some l) (h : s.push t sub g i l phase = some s') :
    ProduceStep s t s' := by
  cases phase with
  | entering =>
      simp only [SubmitState.push, Option.some.injEq] at h
      subst h
      split
      · exact .moved sub g i _ _ hphase (by simp)
      · next hacc => exact .failed sub g i _ l hphase hl (fun _ => by simpa using hacc)
  | reserving =>
      simp only [SubmitState.push] at h
      split at h
      · next queue hres =>
          obtain rfl := Option.some.inj h
          exact .reserved sub g i _ l queue hphase hl (WorkersEventQueue.reserveSlot_queue hres)
      · obtain rfl := Option.some.inj h
        split
        · exact .moved sub g i _ _ hphase (by simp)
        · next hblocks => exact .failed sub g i _ l hphase hl (fun hb => absurd hb hblocks)
  | pushing =>
      simp only [SubmitState.push] at h
      split at h
      · next queue hpush =>
          obtain rfl := Option.some.inj h
          obtain ⟨hopen, rfl⟩ := BlockingQueue.push_eq_some hpush
          exact .accepted sub g i _ l _ hphase hl hopen rfl
      · next hpush =>
          obtain rfl := Option.some.inj h
          refine .rejected sub g i l hphase hl ?_
          unfold BlockingQueue.push at hpush
          simpa using hpush
  | releasing =>
      simp only [SubmitState.push, Option.some.injEq] at h
      subst h
      exact .released sub g i l _ hphase hl rfl
  | waiting =>
      simp only [SubmitState.push] at h
      split at h
      · obtain rfl := Option.some.inj h
        exact .moved sub g i _ _ hphase (by simp)
      · exact absurd h (by simp)

theorem produceStep_of_produce {s s' : SubmitState} {t : Nat} (h : s.produce t = some s') :
    ProduceStep s t s' := by
  cases hphase : s.producers t with
  | idle => simp [SubmitState.produce, hphase] at h
  | copying sub =>
      simp only [SubmitState.produce, hphase] at h
      split at h
      · exact absurd h (by simp)
      · obtain rfl := Option.some.inj h
        exact .copied sub hphase
  | testing sub =>
      simp only [SubmitState.produce, hphase, Option.some.injEq] at h
      exact h ▸ .tested sub hphase
  | preparing sub =>
      simp only [SubmitState.produce, hphase, Option.some.injEq] at h
      exact h ▸ .prepared sub hphase
  | snapshotting sub =>
      simp only [SubmitState.produce, hphase, Option.some.injEq] at h
      exact h ▸ .snapshot sub hphase
  | dispatching sub snapshot i buffer =>
      simp only [SubmitState.produce, hphase] at h
      split at h
      · next hnone =>
          obtain rfl := Option.some.inj h
          exact .dispatched sub snapshot i buffer hphase
            (Or.inl (List.getElem?_eq_none_iff.1 hnone))
      · next r hr =>
          split at h
          · split at h
            · obtain rfl := Option.some.inj h
              have hstep := ProduceStep.dispatch sub snapshot i buffer
                (dispatchRoute r i sub.event buffer).1 r hphase hr
              rw [← dispatchRoute_outputs r i sub.event buffer] at hstep
              exact hstep
            · next hsel =>
                obtain rfl := Option.some.inj h
                exact .passed sub snapshot i buffer hphase (by simpa using hsel)
          · next hi =>
              obtain rfl := Option.some.inj h
              exact .dispatched sub snapshot i buffer hphase (Or.inr (Nat.not_lt.1 hi))
  | visiting sub g i =>
      simp only [SubmitState.produce, hphase] at h
      split at h
      · next hnone =>
          obtain rfl := Option.some.inj h
          exact .visited sub g i hphase (Or.inl (List.getElem?_eq_none_iff.1 hnone))
      · next l hl =>
          split at h
          · split at h
            · obtain rfl := Option.some.inj h
              exact .entered sub g i _ hphase (by cases l.blocks <;> simp)
            · next hsel =>
                obtain rfl := Option.some.inj h
                exact .skipped sub g i hphase (by simpa using hsel)
          · next hi =>
              obtain rfl := Option.some.inj h
              exact .visited sub g i hphase (Or.inr (Nat.not_lt.1 hi))
  | inLane sub g i phase =>
      simp only [SubmitState.produce, hphase] at h
      obtain ⟨l, hl, hpush⟩ := Option.bind_eq_some_iff.1 h
      exact produceStep_of_push hphase hl hpush

end SyLog
