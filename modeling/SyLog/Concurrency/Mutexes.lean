import Mathlib.Data.Fintype.Order
import SyLog.Library.LockOrder

set_option autoImplicit false

/-! # The mutexes of the pipeline

Each call of the pipeline is reduced to what it does to mutexes and to the data that threads share,
to the workers it stops and joins, and to the condition variable of a full queue; everything between
is `act`. What the source decides at run time (which branch, which lanes, which sinks) is a
parameter of the call, so the programs cover every path. `close`, `request_stop`, `add_route`,
`clear_routes`, `configure` and the destructor of a crossbar join workers, all but the last under
`worker_m`.

Filters and renderers take no lock, and a sink takes at most one of its own: this holds for all that
come with the library. A sink that logs breaks the order, see `logging_sink_blocks_close`. -/

namespace SyLog.Locking

open LockOrder

inductive Mutex where
  | cacheM
  | stateM
  | workerM
  /-- `m_` of a crossbar -/
  | lanesM (crossbar : Nat)
  /-- `space_m_` of a queue -/
  | spaceM (queue : Nat)
  | sinkM (sink : Nat)
deriving DecidableEq

inductive Thread where
  /-- a thread of the program that logs -/
  | caller (n : Nat)
  /-- the worker of a lane -/
  | worker (n : Nat)
deriving DecidableEq

inductive Condition where
  /-- the queue of the worker is closed and the worker asked to stop -/
  | stopped (worker : Nat)
  /-- a full queue has room -/
  | room (queue : Nat)
deriving DecidableEq

/-- The data that threads share and that are not atomic. The route of a lane does not change while
    anyone can reach the lane. -/
inductive Field where
  | cfg
  | globalFilters
  | routes
  | endpointCache
  /-- the pointer to the crossbar -/
  | crossbar
  /-- `running_`, `queue_capacity_` and `lanes_` of a crossbar -/
  | running (crossbar : Nat)
  | queueCapacity (crossbar : Nat)
  | lanes (crossbar : Nat)
  /-- the pointer of a lane to its queue -/
  | laneQueue (lane : Nat)
  /-- the thread that a lane has for its worker -/
  | laneWorker (lane : Nat)
  /-- what a sink writes to -/
  | stream (sink : Nat)
deriving DecidableEq

abbrev Program := List (Op Thread Mutex Condition Field)

abbrev LockState := State Thread Mutex Condition Field

abbrev LockStep := Step Thread Mutex Condition Field

abbrev read (z : Field) : Op Thread Mutex Condition Field := .access z .shared

abbrev write (z : Field) : Op Thread Mutex Condition Field := .access z .exclusive

def lockGuard (m : Mutex) (body : Program) : Program := guarded m .exclusive body

/-- `write` and `flush` of a sink; `none` is a sink without a mutex. -/
def useSink : Option Nat → Program
  | none => [.act]
  | some sink => lockGuard (.sinkM sink) [write (.stream sink)]

/-! ## The queue and the crossbar -/

/-- One round of the loop of `push_blocking`: the condition variable gives `space_m_` back while it
    waits, here `wakeups` times. -/
def waitForRoom (queue : Nat) (wakeups : Nat) : Program :=
  lockGuard (.spaceM queue) [.act] ++
    (List.replicate wakeups ()).flatMap (fun _ =>
      .poll (.room queue) :: lockGuard (.spaceM queue) [.act])

inductive Push where
  | tryPush
  /-- one entry for each time the queue was found full -/
  | pushBlocking (queue : Nat) (wakeups : List Nat)

def Push.mayWait : Push → Bool
  | .tryPush => false
  | .pushBlocking _ _ => true

def Push.program : Push → Program
  | .tryPush => [.act]
  | .pushBlocking queue wakeups => wakeups.flatMap (waitForRoom queue) ++ [.act]

/-- `process_` for an event that passes the filters of the route, or not. -/
def process : Option (Option Nat) → Program
  | none => [.act]
  | some sink => .act :: useSink sink

/-- `lane_loop_`: wait for each event, and drain the queue after the last unless the lane is not to
    drain. -/
def laneLoop (worker : Nat) (popped : List (Option (Option Nat)))
    (drained : Option (List (Option (Option Nat)))) : Program :=
  read (.laneQueue worker) ::
    (popped.flatMap (fun e =>
      read (.laneQueue worker) :: .poll (.stopped worker) :: process e) ++
    ([read (.laneQueue worker), .poll (.stopped worker)] ++
    match drained with
    | none => []
    | some events =>
      events.flatMap (fun e => read (.laneQueue worker) :: process e) ++
        [read (.laneQueue worker)]))

/-- Which crossbar is stopped, and its lanes with whether the worker of each is joinable; `none`
    when there are neither workers nor lanes. -/
structure Stop where
  crossbar : Nat
  lanes : Option (List (Nat × Bool))

/-- The queue is closed, and the worker asked to stop. -/
def requestLane (lane : Nat × Bool) : Program :=
  read (.laneQueue lane.1) :: read (.laneWorker lane.1) ::
    if lane.2 then [.signal (.stopped lane.1)] else []

/-- What the worker of the lane waits for, if it is to be joined. -/
def stopSignals (lane : Nat × Bool) : List Condition :=
  if lane.2 then [.stopped lane.1] else []

def joinLane (lane : Nat × Bool) : Program :=
  read (.laneWorker lane.1) ::
    if lane.2 then [.join (.worker lane.1), write (.laneWorker lane.1)] else []

/-- The queue of a lane is replaced. -/
def renewLane (crossbar : Nat) (lane : Nat × Bool) : Program :=
  [read (.queueCapacity crossbar), write (.laneQueue lane.1)]

/-- `stop_lanes_`, `close` and `request_stop` of the crossbar. -/
def stopLanes (stop : Stop) (drain : Bool) : Program :=
  let c := stop.crossbar
  match stop.lanes with
  | none => lockGuard (.lanesM c) [read (.running c), read (.lanes c)]
  | some lanes =>
    lockGuard (.lanesM c)
      [read (.running c), read (.lanes c), write (.running c), read (.lanes c)] ++
    (lanes.flatMap requestLane ++ lanes.flatMap joinLane ++
      if drain then []
      else lockGuard (.lanesM c) (read (.lanes c) :: lanes.flatMap (renewLane c)))

/-- A reference to a crossbar goes, and the destructor runs when it was the last, so that no other
    thread can reach the crossbar. -/
def dropCrossbar : Option Stop → Program
  | none => []
  | some stop => unshared (stopLanes stop false)

/-- The lanes that `configure` stops when the crossbar is running, and those that it starts then. -/
structure Restart where
  stopped : Option (List (Nat × Bool))
  started : List Nat

/-- `configure` of the crossbar. -/
def crossbarConfigure (crossbar : Nat) (restart : Option Restart) : Program :=
  lockGuard (.lanesM crossbar) [read (.running crossbar)] ++
    match restart with
    | none =>
      lockGuard (.lanesM crossbar) [write (.queueCapacity crossbar), write (.lanes crossbar)]
    | some ⟨stopped, started⟩ =>
      stopLanes ⟨crossbar, stopped⟩ true ++
      lockGuard (.lanesM crossbar)
        (write (.queueCapacity crossbar) :: write (.lanes crossbar) :: write (.running crossbar) ::
          started.flatMap (fun n => [write (.laneWorker n)]))

/-- `start` of the crossbar, and the lanes that it starts unless it is running. -/
def crossbarStart (crossbar : Nat) (started : Option (List Nat)) : Program :=
  lockGuard (.lanesM crossbar) (read (.running crossbar) ::
    match started with
    | none => []
    | some lanes =>
      write (.running crossbar) :: read (.lanes crossbar) ::
        lanes.flatMap (fun n => [read (.laneQueue n), write (.laneWorker n)]))

def crossbarFlush (crossbar : Nat) (sinks : List (Option Nat)) : Program :=
  lockGuard (.lanesM crossbar) [read (.lanes crossbar)] ++ sinks.flatMap useSink

/-- Each lane of the mask gets the event. -/
def crossbarSubmit (crossbar : Nat) (pushes : List (Nat × Push)) : Program :=
  lockGuard (.lanesM crossbar) [read (.lanes crossbar)] ++
    pushes.flatMap (fun push =>
      read (.laneQueue push.1) :: read (.laneQueue push.1) :: push.2.program)

/-! ## The pipeline -/

/-- What `cached_route_mask_` finds: the dirty flag set, still set under the lock, the endpoint. -/
structure Lookup where
  dirty : Bool
  consumed : Bool
  found : Bool

def cachedRouteMask (l : Lookup) : Program :=
  (if l.dirty then
    guarded .cacheM .exclusive
      (if l.consumed then write .endpointCache :: lockGuard .stateM [read .routes] else [.act])
  else []) ++
    (guarded .cacheM .shared [read .endpointCache] ++
      if l.found then []
      else lockGuard .stateM [read .routes] ++ guarded .cacheM .exclusive [write .endpointCache])

def dispatchSync (sinks : List (Option Nat)) : Program :=
  lockGuard .stateM [read .routes] ++ sinks.flatMap useSink

def flush (crossbar : Nat) (sinks : List (Option Nat)) (last : Option Stop) : Program :=
  lockGuard .workerM [read .crossbar] ++ (crossbarFlush crossbar sinks ++ dropCrossbar last)

/-- How far `submit` gets. -/
inductive SubmitPath where
  /-- no route takes the endpoint -/
  | unrouted
  /-- a global filter rejects the event -/
  | rejected
  | sync (sinks : List (Option Nat))
  /-- asynchronous, but the pipeline does not accept any more -/
  | closed (sinks : List (Option Nat)) (last : Option Stop)
  | async (crossbar : Nat) (pushes : List (Nat × Push)) (last : Option Stop)

def SubmitPath.program : SubmitPath → Program
  | .unrouted => [.act]
  | .rejected => lockGuard .stateM [read .globalFilters]
  | .sync sinks => lockGuard .stateM [read .globalFilters] ++ (read .cfg :: dispatchSync sinks)
  | .closed sinks last =>
    lockGuard .stateM [read .globalFilters] ++
      (read .cfg :: (lockGuard .workerM [read .crossbar] ++
        (dispatchSync sinks ++ dropCrossbar last)))
  | .async crossbar pushes last =>
    lockGuard .stateM [read .globalFilters] ++
      (read .cfg :: (lockGuard .workerM [read .crossbar] ++
        (crossbarSubmit crossbar pushes ++ dropCrossbar last)))

def SubmitPath.mayWait : SubmitPath → Bool
  | .async _ pushes _ => pushes.any (fun push => push.2.mayWait)
  | _ => false

/-- A fresh crossbar replaces the `old` one and gets the routes. -/
def installCrossbar (old : Option Stop) (fresh : Nat) : Program :=
  lockGuard .workerM ([read .cfg, write .crossbar] ++
    (dropCrossbar old ++ ([read .crossbar, read .cfg] ++ crossbarConfigure fresh none)))

/-- `close` and `request_stop`, which differ in whether the crossbar drains. -/
def stopPipeline (drain : Bool) (stop : Stop) (flushed : Nat) (sinks : List (Option Nat))
    (last old : Option Stop) (fresh : Nat) : Program :=
  .act :: (lockGuard .workerM (.act :: read .crossbar :: stopLanes stop drain) ++
    (flush flushed sinks last ++
      (lockGuard .stateM [read .routes] ++ installCrossbar old fresh)))

/-- The routes have changed; the crossbar is configured anew. -/
def updateCrossbar (crossbar : Nat) (restart : Option Restart) : Program :=
  lockGuard .workerM ([read .crossbar, read .cfg] ++ crossbarConfigure crossbar restart)

/-- The public functions of `Pipeline`, and what they find; and `ok` of a `RotatingFileSink`. -/
inductive PipelineCall where
  /-- `running` is what `configure` reads before it takes `worker_m` -/
  | configure (running : Bool) (old : Option Stop) (fresh : Nat)
  /-- `add_global_filter` and `clear_global_filters` -/
  | editGlobalFilters
  | addRoute (crossbar : Nat) (restart : Option Restart)
  | clearRoutes (crossbar : Nat) (restart : Option Restart)
  | start (running : Bool) (crossbar : Nat) (started : Option (List Nat))
  | close (stop : Stop) (flushed : Nat) (sinks : List (Option Nat)) (last old : Option Stop)
    (fresh : Nat)
  | requestStop (stop : Stop) (flushed : Nat) (sinks : List (Option Nat)) (last old : Option Stop)
    (fresh : Nat)
  | flush (crossbar : Nat) (sinks : List (Option Nat)) (last : Option Stop)
  | cachedMinPriority (lookup : Lookup)
  | submit (lookup : Lookup) (path : SubmitPath)
  | sinkOk (sink : Nat)

def PipelineCall.program : PipelineCall → Program
  | .configure running old fresh =>
    lockGuard .stateM [write .cfg] ++
      if running then []
      else lockGuard .stateM [read .routes] ++ installCrossbar old fresh
  | .editGlobalFilters => lockGuard .stateM [write .globalFilters]
  | .addRoute crossbar restart =>
    lockGuard .stateM [write .routes, read .routes] ++ updateCrossbar crossbar restart
  | .clearRoutes crossbar restart =>
    lockGuard .stateM [write .routes] ++ updateCrossbar crossbar restart
  | .start running crossbar started =>
    lockGuard .workerM
      (.act :: if running then [] else read .crossbar :: crossbarStart crossbar started)
  | .close stop flushed sinks last old fresh => stopPipeline true stop flushed sinks last old fresh
  | .requestStop stop flushed sinks last old fresh =>
    stopPipeline false stop flushed sinks last old fresh
  | .flush crossbar sinks last => Locking.flush crossbar sinks last
  | .cachedMinPriority lookup => cachedRouteMask lookup
  | .submit lookup path => cachedRouteMask lookup ++ path.program
  | .sinkOk sink => [read (.stream sink)]

/-- The call submits to a lane whose policy is `block_when_full`. -/
def PipelineCall.mayWait : PipelineCall → Bool
  | .submit _ path => path.mayWait
  | _ => false

/-! ## The order -/

/-- `cache_m` before `state_m`; `worker_m` before `m_`; workers are joined under `worker_m`; the
    mutexes of queues and sinks last. Callers wait for room only if they are `patient`. -/
def order (patient : Prop) : Order Thread Mutex Condition (Fin 7) where
  rank
    | .cacheM => 1
    | .stateM => 2
    | .workerM => 3
    | .lanesM _ => 4
    | .spaceM _ => 6
    | .sinkM _ => 6
  floor
    | .caller _ => 0
    | .worker _ => 5
  polls
    | .caller _, c => patient ∧ ∃ queue, c = .room queue
    | .worker w, c => c = .stopped w

section Sound

variable {patient : Prop} {t : Thread} {held : List Mutex} {n : Nat}

/-- A caller may take any mutex. -/
theorem floor_lt_rank (n : Nat) (m : Mutex) :
    (order patient).floor (.caller n) < (order patient).rank m := by
  cases m with
  | cacheM => exact (by decide : (0 : Fin 7) < 1)
  | stateM => exact (by decide : (0 : Fin 7) < 2)
  | workerM => exact (by decide : (0 : Fin 7) < 3)
  | lanesM crossbar => exact (by decide : (0 : Fin 7) < 4)
  | spaceM queue => exact (by decide : (0 : Fin 7) < 6)
  | sinkM sink => exact (by decide : (0 : Fin 7) < 6)

/-- A critical section. -/
theorem sound_lockGuard (m : Mutex) {body : Program}
    (hheld : ∀ k ∈ held, (order patient).rank k < (order patient).rank m)
    (h : (order patient).Sound (.caller n) (m :: held) body) :
    (order patient).Sound (.caller n) held (lockGuard m body) :=
  Order.Sound.guarded (floor_lt_rank n m) hheld h

theorem sound_lanesM (crossbar : Nat) {body : Program}
    (hheld : ∀ k ∈ held, (order patient).rank k < 4)
    (h : (order patient).Sound (.caller n) (.lanesM crossbar :: held) body) :
    (order patient).Sound (.caller n) held (lockGuard (.lanesM crossbar) body) :=
  sound_lockGuard _ hheld h

theorem sound_stateM {body : Program} (h : (order patient).Sound (.caller n) [.stateM] body) :
    (order patient).Sound (.caller n) [] (lockGuard .stateM body) :=
  sound_lockGuard _ (by simp) h

theorem workerM_before : ∀ k ∈ [Mutex.workerM], (order patient).rank k < 4 :=
  List.forall_mem_singleton.2 (by decide : (3 : Fin 7) < 4)

theorem sound_workerM {body : Program} (h : (order patient).Sound (.caller n) [.workerM] body) :
    (order patient).Sound (.caller n) [] (lockGuard .workerM body) :=
  sound_lockGuard _ (by simp) h

theorem sound_useSink (sink : Option Nat) (hheld : ∀ k ∈ held, (order patient).rank k < 6) :
    (order patient).Sound t held (useSink sink) := by
  cases sink with
  | none => exact Order.sound_act
  | some sink =>
      refine Order.Sound.guarded ?_ hheld (by simp)
      cases t with
      | caller n => exact floor_lt_rank n _
      | worker n => exact (by decide : (5 : Fin 7) < 6)

theorem sound_useSinks (sinks : List (Option Nat))
    (hheld : ∀ k ∈ held, (order patient).rank k < 6) :
    (order patient).Sound t held (sinks.flatMap useSink) :=
  Order.Sound.flatMap (fun sink _ => sound_useSink sink hheld)

theorem sound_process (e : Option (Option Nat)) (hheld : ∀ k ∈ held, (order patient).rank k < 6) :
    (order patient).Sound t held (process e) := by
  cases e with
  | none => exact Order.sound_act
  | some sink => exact Order.sound_act.append (sound_useSink sink hheld)

theorem sound_laneLoop (worker : Nat) (popped : List (Option (Option Nat)))
    (drained : Option (List (Option (Option Nat)))) :
    (order patient).Sound (.worker worker) [] (laneLoop worker popped drained) := by
  have hpoll : (order patient).Sound (.worker worker) []
      [read (.laneQueue worker), .poll (.stopped worker)] :=
    Order.sound_access.2 (Order.sound_poll rfl)
  refine Order.sound_access.2 (Order.Sound.append (Order.Sound.flatMap (fun e _ => ?_))
    (hpoll.append ?_))
  · exact hpoll.append (sound_process e (by simp))
  · cases drained with
    | none => exact Order.sound_nil
    | some events =>
        refine Order.Sound.append (Order.Sound.flatMap (fun e _ => ?_)) (by simp)
        exact Order.sound_access.2 (sound_process e (by simp))

theorem sound_push (push : Push) (hpatient : push.mayWait = true → patient) :
    (order patient).Sound (.caller n) [] push.program := by
  cases push with
  | tryPush => exact Order.sound_act
  | pushBlocking queue wakeups =>
      have hspace : (order patient).Sound (.caller n) [] (lockGuard (.spaceM queue) [.act]) :=
        sound_lockGuard _ (by simp) Order.sound_act
      have hpoll : (order patient).Sound (.caller n) [] ([.poll (.room queue)] : Program) :=
        Order.sound_poll ⟨hpatient rfl, queue, rfl⟩
      refine Order.Sound.append (Order.Sound.flatMap (fun k _ => ?_)) Order.sound_act
      exact hspace.append (Order.Sound.flatMap (fun _ _ => hpoll.append hspace))

/-- Whoever joins a worker has asked it to stop. -/
theorem sound_requestLanes (lanes : List (Nat × Bool))
    (hheld : ∀ k ∈ held, (order patient).rank k < 4) :
    (order patient).Sound (.caller n) held
      (lanes.flatMap requestLane ++ lanes.flatMap joinLane) := by
  have hrequest : (order patient).Signals (.caller n) held (lanes.flatMap stopSignals)
      (lanes.flatMap requestLane) := by
    refine Order.Signals.flatMap (fun lane _ raised q hq => ?_)
    obtain ⟨lane, joinable⟩ := lane
    cases joinable with
    | false => exact hq raised (List.Subset.refl _) (List.nil_subset _)
    | true => exact hq (.stopped lane :: raised) (List.subset_cons_self _ _) (by simp [stopSignals])
  have hjoin : (order patient).SoundAfter (.caller n) held (lanes.flatMap stopSignals)
      (lanes.flatMap joinLane) := by
    refine Order.SoundAfter.flatMap (fun lane hlane raised q hraised hq => ?_)
    obtain ⟨lane, joinable⟩ := lane
    cases joinable with
    | false => exact hq
    | true =>
        refine ⟨⟨(by decide : (0 : Fin 7) < 5), fun k hk => ?_, fun c hc => ?_⟩, hq⟩
        · exact lt_trans (hheld k hk) (by decide : (4 : Fin 7) < 5)
        · obtain rfl : c = .stopped lane := hc
          exact hraised (List.mem_flatMap.2 ⟨(lane, true), hlane, by simp [stopSignals]⟩)
  exact Order.sound_signal_join hrequest hjoin

/-- `m_` and the workers come after everything that a stop is made under. -/
theorem sound_stopLanes (stop : Stop) (drain : Bool)
    (hheld : ∀ k ∈ held, (order patient).rank k < 4) :
    (order patient).Sound (.caller n) held (stopLanes stop drain) := by
  obtain ⟨crossbar, lanes⟩ := stop
  cases lanes with
  | none => exact sound_lanesM crossbar hheld (by simp)
  | some lanes =>
      refine (sound_lanesM crossbar hheld (by simp)).append
        ((sound_requestLanes lanes hheld).append ?_)
      cases drain with
      | false =>
          refine sound_lanesM crossbar hheld (Order.sound_access.2 (Order.Sound.flatMap ?_))
          simp [renewLane]
      | true => exact Order.sound_nil

theorem sound_dropCrossbar (last : Option Stop) (hheld : ∀ k ∈ held, (order patient).rank k < 4) :
    (order patient).Sound (.caller n) held (dropCrossbar last) := by
  cases last with
  | none => exact Order.sound_nil
  | some stop => exact (sound_stopLanes stop false hheld).unshared

theorem sound_crossbarConfigure (crossbar : Nat) (restart : Option Restart)
    (hheld : ∀ k ∈ held, (order patient).rank k < 4) :
    (order patient).Sound (.caller n) held (crossbarConfigure crossbar restart) := by
  refine Order.Sound.append (sound_lanesM crossbar hheld (by simp)) ?_
  cases restart with
  | none => exact sound_lanesM crossbar hheld (by simp)
  | some restart =>
      refine (sound_stopLanes _ true hheld).append (sound_lanesM crossbar hheld ?_)
      simp only [Order.sound_access]
      exact Order.Sound.flatMap (by simp)

theorem sound_flush (crossbar : Nat) (sinks : List (Option Nat)) (last : Option Stop) :
    (order patient).Sound (.caller n) [] (flush crossbar sinks last) := by
  refine (sound_workerM (by simp)).append (Order.Sound.append ?_ ?_)
  · exact (sound_lanesM crossbar (by simp) (by simp)).append (sound_useSinks sinks (by simp))
  · exact sound_dropCrossbar last (by simp)

theorem sound_cachedRouteMask (lookup : Lookup) :
    (order patient).Sound (.caller n) [] (cachedRouteMask lookup) := by
  obtain ⟨dirty, consumed, found⟩ := lookup
  have hcacheM : ∀ (mode : Mode) {body : Program},
      (order patient).Sound (.caller n) [.cacheM] body →
      (order patient).Sound (.caller n) [] (guarded .cacheM mode body) :=
    fun mode body h => Order.Sound.guarded (floor_lt_rank n _) (by simp) h
  refine Order.Sound.append ?_ ((hcacheM .shared (by simp)).append ?_)
  · cases dirty with
    | false => exact Order.sound_nil
    | true =>
        refine hcacheM .exclusive ?_
        cases consumed with
        | false => exact Order.sound_act
        | true =>
            -- the one place where two mutexes of the pipeline are held together
            refine Order.sound_access.2 (sound_lockGuard _ ?_ (by simp))
            exact List.forall_mem_singleton.2 (by decide : (1 : Fin 7) < 2)
  · cases found with
    | false => exact (sound_stateM (by simp)).append (hcacheM .exclusive (by simp))
    | true => exact Order.sound_nil

theorem sound_dispatchSync (sinks : List (Option Nat)) :
    (order patient).Sound (.caller n) [] (dispatchSync sinks) :=
  (sound_stateM (by simp)).append (sound_useSinks sinks (by simp))

theorem sound_crossbarSubmit (crossbar : Nat) (pushes : List (Nat × Push))
    (hpatient : pushes.any (fun push => push.2.mayWait) = true → patient) :
    (order patient).Sound (.caller n) [] (crossbarSubmit crossbar pushes) := by
  refine (sound_lanesM crossbar (by simp) (by simp)).append (Order.Sound.flatMap ?_)
  intro push hpush
  exact Order.sound_access.2 (Order.sound_access.2
    (sound_push push.2 (fun h => hpatient (List.any_eq_true.2 ⟨push, hpush, h⟩))))

theorem sound_submitPath (path : SubmitPath) (hpatient : path.mayWait = true → patient) :
    (order patient).Sound (.caller n) [] path.program := by
  have hfilters : (order patient).Sound (.caller n) [] (lockGuard .stateM [read .globalFilters]) :=
    sound_stateM (by simp)
  have hworker : (order patient).Sound (.caller n) [] (lockGuard .workerM [read .crossbar]) :=
    sound_workerM (by simp)
  cases path with
  | unrouted => exact Order.sound_act
  | rejected => exact hfilters
  | sync sinks => exact hfilters.append (Order.sound_access.2 (sound_dispatchSync sinks))
  | closed sinks last =>
      exact hfilters.append (Order.sound_access.2 (hworker.append
        ((sound_dispatchSync sinks).append (sound_dropCrossbar last (by simp)))))
  | async crossbar pushes last =>
      exact hfilters.append (Order.sound_access.2 (hworker.append
        ((sound_crossbarSubmit crossbar pushes hpatient).append
          (sound_dropCrossbar last (by simp)))))

theorem sound_installCrossbar (old : Option Stop) (fresh : Nat) :
    (order patient).Sound (.caller n) [] (installCrossbar old fresh) := by
  refine sound_workerM (Order.sound_access.2 (Order.sound_access.2 ?_))
  refine (sound_dropCrossbar old workerM_before).append (Order.sound_access.2 ?_)
  exact Order.sound_access.2 (sound_crossbarConfigure fresh none workerM_before)

theorem sound_updateCrossbar (crossbar : Nat) (restart : Option Restart) :
    (order patient).Sound (.caller n) [] (updateCrossbar crossbar restart) :=
  sound_workerM (Order.sound_access.2 (Order.sound_access.2
    (sound_crossbarConfigure crossbar restart workerM_before)))

theorem sound_stopPipeline (drain : Bool) (stop : Stop) (flushed : Nat) (sinks : List (Option Nat))
    (last old : Option Stop) (fresh : Nat) :
    (order patient).Sound (.caller n) []
      (stopPipeline drain stop flushed sinks last old fresh) := by
  have hstop : (order patient).Sound (.caller n) []
      (lockGuard .workerM (.act :: read .crossbar :: stopLanes stop drain)) :=
    sound_workerM (sound_stopLanes stop drain workerM_before)
  exact Order.sound_act_cons.2 (hstop.append ((sound_flush _ sinks last).append
    ((sound_stateM (by simp)).append (sound_installCrossbar old fresh))))

theorem sound_pipelineStart (running : Bool) (crossbar : Nat) (started : Option (List Nat)) :
    (order patient).Sound (.caller n) [] (PipelineCall.start running crossbar started).program := by
  refine sound_workerM (Order.sound_act_cons.2 ?_)
  cases running with
  | true => exact Order.sound_nil
  | false =>
      refine Order.sound_access.2 (sound_lanesM crossbar workerM_before (Order.sound_access.2 ?_))
      cases started with
      | none => exact Order.sound_nil
      | some lanes =>
          exact Order.sound_access.2 (Order.sound_access.2 (Order.Sound.flatMap (by simp)))

/-- **Every call keeps to the order.** -/
theorem sound_program (call : PipelineCall) (hpatient : call.mayWait = true → patient) :
    (order patient).Sound (.caller n) [] call.program := by
  cases call with
  | configure running old fresh =>
      refine (sound_stateM (by simp)).append ?_
      cases running with
      | false => exact (sound_stateM (by simp)).append (sound_installCrossbar old fresh)
      | true => exact Order.sound_nil
  | editGlobalFilters => exact sound_stateM (by simp)
  | addRoute crossbar restart =>
      exact (sound_stateM (by simp)).append (sound_updateCrossbar crossbar restart)
  | clearRoutes crossbar restart =>
      exact (sound_stateM (by simp)).append (sound_updateCrossbar crossbar restart)
  | start running crossbar started => exact sound_pipelineStart running crossbar started
  | close stop flushed sinks last old fresh =>
      exact sound_stopPipeline true stop flushed sinks last old fresh
  | requestStop stop flushed sinks last old fresh =>
      exact sound_stopPipeline false stop flushed sinks last old fresh
  | flush crossbar sinks last => exact sound_flush crossbar sinks last
  | cachedMinPriority lookup => exact sound_cachedRouteMask lookup
  | submit lookup path =>
      exact (sound_cachedRouteMask lookup).append (sound_submitPath path hpatient)
  | sinkOk sink => simp [PipelineCall.program]

end Sound

/-! ## Any number of calls at once -/

/-- The programs that threads start: calls that are `allowed`, and the loops of the workers. -/
def SourceStep (allowed : PipelineCall → Prop) : LockStep → Prop
  | .start (.caller _) p => ∃ call : PipelineCall, allowed call ∧ p = call.program
  | .start (.worker w) p => ∃ popped drained, p = laneLoop w popped drained
  | .advance _ => True

/-- Any number of threads make calls that are `allowed`, while any number of workers run. -/
def ReachedBy (allowed : PipelineCall → Prop) (s : LockState) : Prop :=
  machine.ReachableBy (fun _ l => SourceStep allowed l) s

/-- Any number of threads call the pipeline, while any number of workers run. -/
def Reached (s : LockState) : Prop := ReachedBy (fun _ => True) s

theorem sourceStep_keeps {allowed : PipelineCall → Prop} {l : LockStep}
    (hl : SourceStep allowed l) : l.Keeps (order True) := by
  cases l with
  | start t p =>
      cases t with
      | caller n =>
          obtain ⟨call, -, rfl⟩ := hl
          exact (sound_program call (fun _ => trivial)).ordered
      | worker w =>
          obtain ⟨popped, drained, rfl⟩ := hl
          exact (sound_laneLoop w popped drained).ordered
  | advance t => exact trivial

theorem inv_of_reached {s : LockState} (hs : Reached s) : Inv (order True) s :=
  inv_of_reachable (fun _ _ => sourceStep_keeps) hs

/-- **The pipeline does not deadlock.** However the calls interleave, no threads wait for one
    another in a circle, and whoever is inside a call waits for a queue, holding no mutex, or can go
    on as soon as a thread goes on that can. -/
theorem mutexes_never_deadlock {s : LockState} (hs : Reached s) :
    WellFounded (fun u t => s.WaitsFor t u) ∧
      ∀ t, s.todo t ≠ [] → (s.Polling t ∧ s.held t = []) ∨
        ∃ u, Relation.ReflTransGen s.WaitsFor t u ∧ s.Able u :=
  ⟨(inv_of_reached hs).waitsFor_wf, fun _ hbusy => (inv_of_reached hs).chain_ends hbusy⟩

theorem ReachedBy.start {allowed : PipelineCall → Prop} {s s' : LockState}
    (hs : ReachedBy allowed s) {t : Thread} {p : Program} (hp : SourceStep allowed (.start t p))
    (h : machine.next s (.start t p) = some s') : ReachedBy allowed s' :=
  hs.step hp h

theorem ReachedBy.advances {allowed : PipelineCall → Prop} {s s' : LockState}
    (hs : ReachedBy allowed s) (ts : List Thread)
    (hrun : machine.run s (ts.map .advance) = some s') : ReachedBy allowed s' := by
  refine Machine.run_preserves_on (SourceStep allowed) (fun s l s' hl hs h => hs.step hl h) ?_ hs
    hrun
  intro l hl
  obtain ⟨t, -, rfl⟩ := List.mem_map.1 hl
  exact trivial

/-- `close` has stopped a worker and joins it, and `add_route` waits for `worker_m`. -/
theorem reached_closing : ∃ s, Reached s ∧
    s.todo (.caller 0) <:+ (PipelineCall.close ⟨0, some [(0, true)]⟩ 0 [] none none 1).program ∧
    (∃ rest, s.todo (.caller 0) = .join (.worker 0) :: rest) ∧
    (.caller 0, .exclusive) ∈ s.holders .workerM ∧
    (∃ rest, s.todo (.caller 1) = .acquire .workerM .exclusive :: rest) ∧
    s.todo (.worker 0) ≠ [] := by
  refine ⟨_, (((ReachedBy.start (.init rfl) (t := .worker 0)
    ⟨[some (some 7)], some [], rfl⟩ rfl).start (t := .caller 0)
    ⟨.close ⟨0, some [(0, true)]⟩ 0 [] none none 1, trivial, rfl⟩ rfl).start
    (t := .caller 1) ⟨.addRoute 0 none, trivial, rfl⟩ rfl).advances
      (List.replicate 3 (.worker 0) ++ List.replicate 14 (.caller 0) ++
        List.replicate 4 (.caller 1)) rfl,
    ⟨(PipelineCall.close ⟨0, some [(0, true)]⟩ 0 [] none none 1).program.take 14, rfl⟩, ⟨_, rfl⟩,
    List.mem_cons_self, ⟨_, rfl⟩, List.cons_ne_nil _ _⟩

/-- There the worker can go on. -/
theorem mutexes_never_deadlock_closing : ∃ s : LockState,
    s.WaitsFor (.caller 1) (.caller 0) ∧ s.WaitsFor (.caller 0) (.worker 0) ∧
      ∃ u, Relation.ReflTransGen s.WaitsFor (.caller 1) u ∧ s.Able u := by
  obtain ⟨s, hs, -, ⟨p, hclose⟩, hheld, ⟨q, hadd⟩, hbusy⟩ := reached_closing
  refine ⟨s, .lock hadd hheld (Or.inl rfl), .join hclose hbusy, ?_⟩
  rcases (mutexes_never_deadlock hs).2 (.caller 1) (by simp [hadd]) with ⟨hpolling, -⟩ | hchain
  · obtain ⟨c, rest, htodo, -⟩ := hpolling
    simp [hadd] at htodo
  · exact hchain

theorem polls_of_polling {s : LockState} (h : Inv (order True) s) {t : Thread}
    (hpolling : s.Polling t) :
    ∃ c rest, s.todo t = .poll c :: rest ∧ c ∉ s.signalled ∧ (order True).polls t c := by
  obtain ⟨c, rest, htodo, hc⟩ := hpolling
  obtain ⟨raised, hord, -⟩ := h.ordered t
  exact ⟨c, rest, htodo, hc, hord.polls (by simp [htodo])⟩

/-- **Who is left at rest.** When nobody can go on, no mutex is taken and the calls that were under
    way have returned, except those that wait for a full queue; the workers that are left wait for
    events or to be stopped. -/
theorem calls_return {s s' : LockState} (hs : Reached s) {ts : List Thread}
    (hrun : machine.run s (ts.map .advance) = some s') (hrest : ∀ t, ¬ s'.Able t) :
    (∀ m, s'.holders m = []) ∧
      (∀ n (call : PipelineCall), call.mayWait = false → s.todo (.caller n) <:+ call.program →
        s'.todo (.caller n) = []) ∧
      (∀ n, s'.todo (.caller n) ≠ [] →
        ∃ queue rest, s'.todo (.caller n) = .poll (.room queue) :: rest) ∧
      ∀ w, s'.todo (.worker w) ≠ [] → .stopped w ∉ s'.signalled ∧
        ∃ rest, s'.todo (.worker w) = .poll (.stopped w) :: rest := by
  have hinv : Inv (order True) s' := (inv_of_reached hs).run hrun
  obtain ⟨hpolling, hfree⟩ := hinv.rest hrest
  refine ⟨hfree, fun n call hcall hsuffix => ?_, fun n hbusy => ?_, fun w hbusy => ?_⟩
  · by_contra hbusy
    obtain ⟨c, rest, htodo, -⟩ := hpolling _ hbusy
    -- a call that may not wait keeps to the order in which callers wait for nothing
    have hord : (order False).Ordered (.caller n) [] [] call.program :=
      (sound_program call (by simp [hcall])).ordered
    have hmem : Op.poll c ∈ s'.todo (.caller n) := by simp [htodo]
    have hprogram : Op.poll c ∈ call.program :=
      ((todo_of_advances hrun _).trans hsuffix).subset hmem
    exact (hord.polls hprogram).1
  · obtain ⟨c, rest, htodo, -, -, queue, rfl⟩ := polls_of_polling hinv (hpolling _ hbusy)
    exact ⟨queue, rest, htodo⟩
  · obtain ⟨c, rest, htodo, hc, rfl⟩ := polls_of_polling hinv (hpolling _ hbusy)
    exact ⟨hc, rest, htodo⟩

/-- A producer finds its queue full, a worker waits for an event, and nobody else is left. -/
theorem reached_full_queue : ∃ (s s' : LockState) (ts : List Thread), Reached s ∧
    machine.run s (ts.map .advance) = some s' ∧
    s.todo (.caller 1) = (PipelineCall.flush 0 [some 7] none).program ∧
    (∃ rest, s'.todo (.caller 0) = .poll (.room 0) :: rest) ∧
    (∃ rest, s'.todo (.worker 0) = .poll (.stopped 0) :: rest) ∧
    (∀ t, t ≠ .caller 0 → t ≠ .worker 0 → s'.todo t = []) ∧ s'.signalled = [] := by
  have hinit : ReachedBy (fun _ => True) {} := .init rfl
  have hs := ((hinit.start (t := .worker 0) ⟨[some (some 7)], none, rfl⟩ rfl).start (t := .caller 0)
    ⟨.submit ⟨false, false, true⟩ (.async 0 [(0, .pushBlocking 0 [1])] none), trivial, rfl⟩
    rfl).start (t := .caller 1) ⟨.flush 0 [some 7] none, trivial, rfl⟩ rfl
  refine ⟨_, _, List.replicate 9 (.caller 1) ++ List.replicate 18 (.caller 0) ++
    List.replicate 2 (.worker 0), hs, rfl, rfl, ⟨_, rfl⟩, ⟨_, rfl⟩, ?_, rfl⟩
  intro t h0 hw
  cases t with
  | caller n =>
      match n with
      | 0 => exact absurd rfl h0
      | 1 => rfl
      | n + 2 => rfl
  | worker n =>
      match n with
      | 0 => exact absurd rfl hw
      | n + 1 => rfl

/-- There `flush` has returned and no mutex is taken. -/
theorem calls_return_full_queue : ∃ s s' : LockState,
    s.todo (.caller 1) = (PipelineCall.flush 0 [some 7] none).program ∧
    s'.todo (.caller 1) = [] ∧ (∃ rest, s'.todo (.caller 0) = .poll (.room 0) :: rest) ∧
    ∀ m, s'.holders m = [] := by
  obtain ⟨s, s', ts, hs, hrun, hflush, ⟨p, hproducer⟩, ⟨q, hworker⟩, hidle, hsignalled⟩ :=
    reached_full_queue
  have hrest : ∀ t, ¬ s'.Able t := by
    rintro t ⟨hadvance, hpolling⟩
    by_cases hbusy : t = .caller 0 ∨ t = .worker 0
    · rcases hbusy with rfl | rfl
      · exact hpolling ⟨_, _, hproducer, by simp [hsignalled]⟩
      · exact hpolling ⟨_, _, hworker, by simp [hsignalled]⟩
    · obtain ⟨h0, hw⟩ := not_or.1 hbusy
      simp [State.advance, hidle t h0 hw] at hadvance
  obtain ⟨hfree, hreturned, -, -⟩ := calls_return hs hrun hrest
  exact ⟨s, s', hflush, hreturned 1 _ rfl ⟨[], hflush⟩, ⟨p, hproducer⟩, hfree⟩

/-! ## A sink that logs

Such a sink makes the worker of its lane take `worker_m`, and the calls that stop lanes join their
workers while they hold it. -/

/-- `log_at`, which a sink calls for each event that it writes: `enabled` looks the endpoint up, and
    `submit` does so again. -/
structure LogCall where
  enabled : Lookup
  lookup : Lookup
  path : SubmitPath

def LogCall.program (log : LogCall) : Program :=
  (PipelineCall.cachedMinPriority log.enabled).program ++
    (PipelineCall.submit log.lookup log.path).program

/-- `lane_loop_` where each event passes the filters and the sink logs. -/
def loggingLaneLoop (worker : Nat) (popped : List LogCall) : Program :=
  read (.laneQueue worker) ::
    (popped.flatMap (fun log =>
      read (.laneQueue worker) :: .poll (.stopped worker) :: .act :: log.program) ++
    [read (.laneQueue worker), .poll (.stopped worker)])

/-- The pipeline is asynchronous, and a route takes the event. -/
def SubmitPath.takesWorkerM : SubmitPath → Bool
  | .closed _ _ => true
  | .async _ _ _ => true
  | _ => false

/-- The lanes that the call stops under `worker_m`. -/
def PipelineCall.stops : PipelineCall → Option (List (Nat × Bool))
  | .close stop _ _ _ _ _ => stop.lanes
  | .requestStop stop _ _ _ _ _ => stop.lanes
  | .addRoute _ (some restart) => restart.stopped
  | .clearRoutes _ (some restart) => restart.stopped
  | _ => none

section Passes

variable {finished : Set Thread} {held : List Mutex} {w : Nat}

theorem passes_cachedRouteMask (lookup : Lookup) :
    Passes finished [] (cachedRouteMask lookup) [] := by
  obtain ⟨dirty, consumed, found⟩ := lookup
  cases dirty <;> cases consumed <;> cases found <;>
    simp [cachedRouteMask, guarded, lockGuard, Passes]

/-- A sink that logs gets to `worker_m`. -/
theorem LogCall.reaches_workerM {log : LogCall} (h : log.path.takesWorkerM = true) :
    Reaches finished [] log.program (.acquire .workerM .exclusive) [] := by
  have hpath : Reaches finished [] log.path.program (.acquire .workerM .exclusive) [] := by
    have hfilters : Passes finished [] (lockGuard .stateM [read .globalFilters]) [] := by
      simp [lockGuard, guarded, Passes]
    have hcfg : Passes finished [] [read .cfg] [] := by simp [Passes]
    cases hlog : log.path with
    | unrouted => simp [hlog, SubmitPath.takesWorkerM] at h
    | rejected => simp [hlog, SubmitPath.takesWorkerM] at h
    | sync sinks => simp [hlog, SubmitPath.takesWorkerM] at h
    | closed sinks last => exact hfilters.reaches (hcfg.reaches (reaches_head _ _))
    | async crossbar pushes last => exact hfilters.reaches (hcfg.reaches (reaches_head _ _))
  exact (passes_cachedRouteMask _).reaches ((passes_cachedRouteMask _).reaches hpath)

/-- `stop_lanes_` gets to the join of worker `w` where the other workers are done. -/
theorem stopLanes_reaches_join (crossbar : Nat) {lanes : List (Nat × Bool)} (drain : Bool)
    (hw : (w, true) ∈ lanes) (hdone : ∀ u, u ≠ w → .worker u ∈ finished)
    (hheld : .lanesM crossbar ∉ held) :
    Reaches finished held (stopLanes ⟨crossbar, some lanes⟩ drain) (.join (.worker w)) held := by
  have hrequest : Passes finished held (lanes.flatMap requestLane) held := by
    refine Passes.flatMap (fun lane _ => ?_)
    obtain ⟨lane, joinable⟩ := lane
    cases joinable <;> simp [requestLane, Passes]
  have hjoin : Reaches finished held (lanes.flatMap joinLane) (.join (.worker w)) held := by
    obtain ⟨before, after, rfl, hfirst⟩ := List.eq_append_cons_of_mem hw
    have hbefore : Passes finished held (before.flatMap joinLane) held := by
      refine Passes.flatMap (fun lane hlane => ?_)
      obtain ⟨u, joinable⟩ := lane
      cases joinable with
      | false => simp [joinLane, Passes]
      | true =>
          have hu : u ≠ w := by
            rintro rfl
            exact hfirst hlane
          simp [joinLane, Passes, hdone u hu]
    have hread : Passes finished held [read (.laneWorker w)] held := by simp [Passes]
    rw [List.flatMap_append, List.flatMap_cons]
    exact hbefore.reaches ((hread.reaches (reaches_head _ _)).append _)
  exact (Passes.guarded hheld (by simp [Passes])).reaches ((hrequest.reaches hjoin).append _)

/-- A call that stops the lane of worker `w` gets to the join of the worker, holding `worker_m`. -/
theorem PipelineCall.reaches_join {call : PipelineCall} {lanes : List (Nat × Bool)}
    (hstops : call.stops = some lanes) (hw : (w, true) ∈ lanes)
    (hdone : ∀ u, u ≠ w → .worker u ∈ finished) :
    Reaches finished [] call.program (.join (.worker w)) [.workerM] := by
  have hstop : ∀ (drain : Bool) (stop : Stop) (flushed : Nat) (sinks : List (Option Nat))
      (last old : Option Stop) (fresh : Nat), stop.lanes = some lanes →
      Reaches finished [] (stopPipeline drain stop flushed sinks last old fresh) (.join (.worker w))
        [.workerM] := by
    intro drain stop flushed sinks last old fresh hlanes
    obtain ⟨crossbar, stopped⟩ := stop
    obtain rfl : stopped = some lanes := hlanes
    have hact : Passes finished [] ([.act] : Program) [] := by simp [Passes]
    have hread : Passes finished [.workerM] [.act, read .crossbar] [.workerM] := by simp [Passes]
    refine hact.reaches (Reaches.append (Reaches.guarded (by simp) (hread.reaches ?_)) _)
    exact stopLanes_reaches_join crossbar drain hw hdone (by simp)
  have hupdate : ∀ (crossbar : Nat) (restart : Restart), restart.stopped = some lanes →
      Reaches finished [] (updateCrossbar crossbar (some restart)) (.join (.worker w))
        [.workerM] := by
    intro crossbar restart hlanes
    obtain ⟨stopped, started⟩ := restart
    obtain rfl : stopped = some lanes := hlanes
    have hread : Passes finished [.workerM] [read .crossbar, read .cfg] [.workerM] := by
      simp [Passes]
    have hrunning : Passes finished [.workerM]
        (lockGuard (.lanesM crossbar) [read (.running crossbar)]) [.workerM] :=
      Passes.guarded (by simp) (by simp [Passes])
    refine Reaches.guarded (by simp) (hread.reaches (hrunning.reaches (Reaches.append ?_ _)))
    exact stopLanes_reaches_join crossbar true hw hdone (by simp)
  have hroutes : ∀ {body : Program}, Passes finished [.stateM] body [.stateM] →
      Passes finished [] (lockGuard .stateM body) [] :=
    fun h => Passes.guarded (by simp) h
  cases call with
  | close stop flushed sinks last old fresh =>
      exact hstop true stop flushed sinks last old fresh hstops
  | requestStop stop flushed sinks last old fresh =>
      exact hstop false stop flushed sinks last old fresh hstops
  | addRoute crossbar restart =>
      cases restart with
      | none => simp [PipelineCall.stops] at hstops
      | some restart =>
          exact (hroutes (by simp [Passes])).reaches (hupdate crossbar restart hstops)
  | clearRoutes crossbar restart =>
      cases restart with
      | none => simp [PipelineCall.stops] at hstops
      | some restart =>
          exact (hroutes (by simp [Passes])).reaches (hupdate crossbar restart hstops)
  | _ => simp [PipelineCall.stops] at hstops

/-- A worker whose sink logs gets to `worker_m` with the first event. -/
theorem loggingLaneLoop_reaches_workerM {log : LogCall} (h : log.path.takesWorkerM = true)
    (later : List LogCall) :
    Reaches finished [] (loggingLaneLoop w (log :: later)) (.acquire .workerM .exclusive) [] := by
  have hevent : Passes finished []
      ([read (.laneQueue w), read (.laneQueue w), .poll (.stopped w), .act] : Program) [] := by
    simp [Passes]
  simp only [loggingLaneLoop, List.flatMap_cons, List.cons_append, List.append_assoc]
  exact hevent.reaches ((LogCall.reaches_workerM h).append _)

end Passes

/-- A call that stops the lane of a worker, and the worker, whose sink logs, can run into one
    another. -/
theorem logging_sink_meets_close {call : PipelineCall} {lanes : List (Nat × Bool)} {w : Nat}
    (hstops : call.stops = some lanes) (hw : (w, true) ∈ lanes) {log : LogCall}
    (hlog : log.path.takesWorkerM = true) (later : List LogCall) (n : Nat) :
    ∃ (ts : List Thread) (s : LockState) (rest body : Program),
      machine.run {} (.start (.worker w) (loggingLaneLoop w (log :: later)) ::
        .start (.caller n) call.program :: ts.map .advance) = some s ∧
      s.todo (.caller n) = .join (.worker w) :: rest ∧
      s.todo (.worker w) = .acquire .workerM .exclusive :: body ∧
      ∃ mode, (.caller n, mode) ∈ s.holders .workerM := by
  let s₀ : LockState := (State.setTodo {} (.worker w) (loggingLaneLoop w (log :: later))).setTodo
    (.caller n) call.program
  have hidle₀ : ∀ u, u ≠ w → s₀.todo (.worker u) = [] := by
    intro u hu
    simp [s₀, State.setTodo, hu]
  -- the worker goes first
  have hworker : Reaches ∅ [] (s₀.todo (.worker w)) (.acquire .workerM .exclusive) [] := by
    have htodo : s₀.todo (.worker w) = loggingLaneLoop w (log :: later) := by
      simp [s₀, State.setTodo]
    rw [htodo]
    exact loggingLaneLoop_reaches_workerM hlog later
  have halone₀ : s₀.Alone (.worker w) [] := ⟨rfl, List.nodup_nil, by simp, fun _ _ => rfl⟩
  obtain ⟨ts₁, s₁, body, hrun₁, halone₁, htodo₁, hheld₁⟩ := halone₀.run hworker (by simp)
  have hcaller : s₁.todo (.caller n) = call.program := by simp [htodo₁, s₀, State.setTodo]
  have hidle : ∀ u ∈ {u | ∃ i, i ≠ w ∧ u = .worker i}, s₁.todo u = [] := by
    rintro u ⟨i, hi, rfl⟩
    rw [htodo₁, Function.update_of_ne (by simp [hi]), hidle₀ i hi]
  have hreaches : Reaches {u | ∃ i, i ≠ w ∧ u = .worker i} [] (s₁.todo (.caller n))
      (.join (.worker w)) [.workerM] :=
    hcaller ▸ call.reaches_join hstops hw (fun u hu => ⟨u, hu, rfl⟩)
  have halone : s₁.Alone (.caller n) [] :=
    ⟨hheld₁ _ (by simp), List.nodup_nil, by simp, halone₁.free⟩
  obtain ⟨ts₂, s₂, rest, hrun₂, halone₂, htodo₂, -⟩ := halone.run hreaches hidle
  refine ⟨ts₁ ++ ts₂, s₂, rest, body, ?_, by simp [htodo₂], by simp [htodo₂, htodo₁], ?_⟩
  · rw [List.map_append]
    exact Machine.run_append hrun₁ hrun₂
  · obtain ⟨mode, htaken⟩ := halone₂.taken .workerM (by simp)
    exact ⟨mode, by simp [htaken]⟩

/-- **The order is needed.** A call that stops the lane of a worker does so under `worker_m`. Where
    the sink of the lane logs, there is a run after which, whatever the threads do, the call and the
    worker never go on, and no thread that asks for `worker_m` gets it. -/
theorem logging_sink_blocks_close {call : PipelineCall} {lanes : List (Nat × Bool)} {w : Nat}
    (hstops : call.stops = some lanes) (hw : (w, true) ∈ lanes) {log : LogCall}
    (hlog : log.path.takesWorkerM = true) (later : List LogCall) (n : Nat) :
    ∃ (ts : List Thread) (s : LockState) (rest body : Program),
      machine.run {} (.start (.worker w) (loggingLaneLoop w (log :: later)) ::
        .start (.caller n) call.program :: ts.map .advance) = some s ∧
      ∀ ls s', machine.run s ls = some s' →
        s'.todo (.caller n) = .join (.worker w) :: rest ∧
          s'.todo (.worker w) = .acquire .workerM .exclusive :: body ∧
          ∀ t p, s'.todo t = .acquire .workerM .exclusive :: p → s'.advance t = none := by
  obtain ⟨ts, s, rest, body, hreach, hcaller, hworker, mode, hheld⟩ :=
    logging_sink_meets_close hstops hw hlog later n
  have hcircle : ∀ t ∈ ({.caller n, .worker w} : Set Thread),
      ∃ u ∈ ({.caller n, .worker w} : Set Thread), s.WaitsFor t u := by
    rintro t (rfl | rfl)
    · exact ⟨.worker w, Or.inr rfl, .join hcaller (by simp [hworker])⟩
    · exact ⟨.caller n, Or.inl rfl, .lock hworker hheld (Or.inl rfl)⟩
  refine ⟨ts, s, rest, body, hreach, fun ls s' hrun => ?_⟩
  obtain ⟨hwaits, hsame⟩ := deadlock_forever hcircle hrun
  have hworker' := (hsame (.worker w) (Or.inr rfl)).trans hworker
  refine ⟨(hsame (.caller n) (Or.inl rfl)).trans hcaller, hworker', fun t p htodo => ?_⟩
  obtain ⟨u, -, hwaiting⟩ := hwaits (.worker w) (Or.inr rfl)
  -- the worker still waits for whoever holds `worker_m`
  cases hwaiting with
  | lock h hu hmode =>
      obtain ⟨heq, -⟩ := List.cons.inj (hworker'.symm.trans h)
      obtain ⟨rfl, rfl⟩ := Op.acquire.inj heq
      exact advance_of_waitsFor (.lock htodo hu (Or.inl rfl))
  | join h hu => simp [hworker'] at h

/-- `close`, and a sink that logs one event. -/
theorem logging_sink_blocks_close_one_lane :
    ∃ (ts : List Thread) (s : LockState) (rest body : Program),
      machine.run {} (.start (.worker 0) (loggingLaneLoop 0
          [⟨⟨false, false, true⟩, ⟨false, false, true⟩, .async 0 [(0, .tryPush)] none⟩]) ::
        .start (.caller 0) (PipelineCall.close ⟨0, some [(0, true)]⟩ 0 [] none none 1).program ::
        ts.map .advance) = some s ∧
      ∀ ls s', machine.run s ls = some s' →
        s'.todo (.caller 0) = .join (.worker 0) :: rest ∧
          s'.todo (.worker 0) = .acquire .workerM .exclusive :: body ∧
          ∀ t p, s'.todo t = .acquire .workerM .exclusive :: p → s'.advance t = none :=
  have hstops : (PipelineCall.close ⟨0, some [(0, true)]⟩ 0 [] none none 1).stops
      = some [(0, true)] := rfl
  logging_sink_blocks_close hstops List.mem_cons_self rfl [] 0

end SyLog.Locking
