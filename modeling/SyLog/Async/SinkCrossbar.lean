import SyLog.RouteCache
import SyLog.Async.Lane

set_option autoImplicit false

/-! # The sink crossbar

One lane per route. `configure`, `start`, `close` and `request_stop` are given here as what they
have done when they return: `stop_lanes_` joins every worker, so a call that stops lanes returns
with each worker run out. `SyLog.Async.CrossbarSession` takes the same calls apart, with worker
steps in between. -/

namespace SyLog

variable {α : Type}

namespace Lane

/-- A lane as `SinkCrossbar::configure` makes it; `capacity` is already at least one. -/
def fresh (r : Route) (capacity : UInt64) : Lane α := { route := r, queue := .new capacity }

/-- `lane->queue->close()` and, when there is a thread, `lane->worker.request_stop()`. -/
def signalStop (l : Lane α) : Lane α :=
  { l with queue := l.queue.close, stopRequested := l.stopRequested || l.worker.joinable }

/-- `lane->worker.join()`, once the thread has finished. -/
def join (l : Lane α) : Lane α := { l with worker := .unstarted }

/-- `lane->queue = std::make_shared<WorkersEventQueue>(queue_capacity_)` -/
def replaceQueue (capacity : UInt64) (l : Lane α) : Lane α := { l with queue := .new capacity }

/-- The lane once a worker that drains has run out: everything pending is processed, and every slot
    that it held is released. A lane without a thread keeps what is queued. -/
def runOut (l : Lane α) : Lane α :=
  if l.worker.joinable then
    { l with
      queue := { l.queue with queue := { l.queue.queue with items := [] }, size := l.heldSlots }
      worker := .unstarted }
  else l

/-- Hand one event to the lane's delivery strategy; `none` when the caller has to wait. A null
    strategy counts as dropping. -/
def submit (l : Lane α) (e : α) (accepting : Bool) : Option (Lane α × Bool) :=
  match l.route.delivery with
  | some .blockWhenFull =>
    (l.queue.pushBlocking e accepting).map (fun (queue, ok) => ({ l with queue }, ok))
  | some .dropWhenFull | none =>
    let (queue, ok) := l.queue.tryPush e
    some ({ l with queue }, ok)

/-- A submission appends the event to what is pending, or changes nothing but the slot count, and
    says which. On a blocking lane it fails only after the close or the end of accepting. -/
theorem submit_cases {l : Lane α} {e : α} {accepting : Bool} {res : Lane α × Bool}
    (h : l.submit e accepting = some res) :
    (l.queue.queue.closed = false ∧ res.2 = true ∧
      ∃ q, res.1 = { l with queue := q } ∧
        q.queue = { l.queue.queue with items := l.queue.queue.items ++ [e] }) ∨
    (res.2 = false ∧ (∃ q, res.1 = { l with queue := q } ∧ q.queue = l.queue.queue) ∧
      (l.route.delivery = some .blockWhenFull →
        accepting = false ∨ l.queue.queue.closed = true)) := by
  have hdrop : ∀ {r : Lane α × Bool},
      some ({ l with queue := (l.queue.tryPush e).1 }, (l.queue.tryPush e).2) = some r →
      (l.queue.queue.closed = false ∧ r.2 = true ∧
        ∃ q, r.1 = { l with queue := q } ∧
          q.queue = { l.queue.queue with items := l.queue.queue.items ++ [e] }) ∨
      (r.2 = false ∧ ∃ q, r.1 = { l with queue := q } ∧ q.queue = l.queue.queue) := by
    intro r hr
    obtain rfl := Option.some.inj hr
    rcases l.queue.tryPush_cases e with ⟨hc, hok, hq⟩ | ⟨hok, hq⟩
    · exact Or.inl ⟨hc, hok, _, rfl, hq⟩
    · exact Or.inr ⟨hok, _, rfl, hq⟩
  unfold submit at h
  split at h
  · next hblock =>
      obtain ⟨⟨q, ok⟩, hpush, rfl⟩ := Option.map_eq_some_iff.1 h
      rcases WorkersEventQueue.pushBlocking_cases hpush with ⟨hc, hok, hq⟩ | ⟨hok, hq, hwhy⟩
      · exact Or.inl ⟨hc, hok, q, rfl, hq⟩
      · exact Or.inr ⟨hok, ⟨q, rfl, hq⟩, fun _ => hwhy⟩
  · next hdel =>
      rcases hdrop h with hl | ⟨hok, hq⟩
      · exact Or.inl hl
      · exact Or.inr ⟨hok, hq, fun hb => absurd (hb.symm.trans hdel) (by simp)⟩
  · next hdel =>
      rcases hdrop h with hl | ⟨hok, hq⟩
      · exact Or.inl hl
      · exact Or.inr ⟨hok, hq, fun hb => absurd (hb.symm.trans hdel) (by simp)⟩

/-- A submission touches nothing but the queue, and neither opens nor closes it. -/
theorem submit_frame {l l' : Lane α} {e : α} {accepting ok : Bool}
    (h : l.submit e accepting = some (l', ok)) :
    ∃ q, l' = { l with queue := q } ∧ q.queue.closed = l.queue.queue.closed := by
  rcases submit_cases h with ⟨-, -, q, hq, hqueue⟩ | ⟨-, ⟨q, hq, hqueue⟩, -⟩
  all_goals exact ⟨q, hq, by rw [hqueue]⟩

/-- A submission that succeeds puts the event behind what is pending. -/
theorem submit_pending {l l' : Lane α} {e : α} {accepting ok : Bool}
    (h : l.submit e accepting = some (l', ok)) :
    l'.pending = l.pending ++ (if ok then [e] else []) := by
  rcases submit_cases h with ⟨-, hok, q, hq, hqueue⟩ | ⟨hok, ⟨q, hq, hqueue⟩, -⟩
  all_goals
    obtain rfl : l' = { l with queue := q } := hq
    obtain rfl : ok = _ := hok
    simp [pending, hqueue]

end Lane

/-! ## Processing an event -/

/-- The loop of `route_passes_`. -/
def routePasses (r : Route) (e : Event) : Bool := passesAll r.filterList e

/-- `process_`: the new contents of the worker's buffer and the write, if there is one. -/
def process (r : Route) (i : Nat) (e : Event) (buffer : Bytes) : Bytes × List Output :=
  match r.sinkRef with
  | none => (buffer, [])
  | some sink =>
    if !routePasses r e then (buffer, [])
    else
      let buffer : Bytes := []
      let buffer := match r.rendererRef with
        | some renderer => renderer.render e buffer
        | none =>
          let buffer := e.message
          if !buffer.isEmpty && buffer.getLast? != some newline then buffer ++ [newline] else buffer
      (buffer, [.write i sink buffer])

/-- The newline rule as the source writes it. -/
theorem newline_rule (m : Bytes) :
    (if !m.isEmpty && m.getLast? != some newline then m ++ [newline] else m)
      = if m = [] ∨ m.getLast? = some newline then m else m ++ [newline] := by
  by_cases hnil : m = []
  · simp [hnil]
  · by_cases hlast : m.getLast? = some newline
    · simp [hlast]
    · rw [if_neg (not_or.2 ⟨hnil, hlast⟩), if_pos]
      simp [hnil, hlast]

/-- `process_` writes what the route owes the event, whatever the buffer held. -/
theorem process_outputs (r : Route) (i : Nat) (e : Event) (buffer : Bytes) :
    (process r i e buffer).2 = r.outputs i e := by
  unfold process Route.outputs
  cases r.sinkRef with
  | none => rfl
  | some sink =>
      by_cases hacc : r.accepts e
      · have hpass : routePasses r e = true := (passesAll_iff _ _).2 hacc
        cases hrend : r.rendererRef with
        | none =>
            simp only [hpass, hacc, hrend, Route.line, newline_rule, Bool.not_true,
              Bool.false_eq_true, if_false, if_true]
        | some renderer =>
            simp only [hpass, hacc, hrend, Route.line, Bool.not_true, Bool.false_eq_true, if_false,
              if_true]
      · have hpass : routePasses r e = false :=
          Bool.eq_false_iff.2 (fun h => hacc ((passesAll_iff _ _).1 h))
        simp [hpass, hacc]

/-! ## The crossbar -/

structure SinkCrossbar (α : Type) where
  queueCapacity : UInt64 := 1
  running : Bool := false
  lanes : List (Lane α) := []

namespace SinkCrossbar

/-- The constructor. -/
def new (queueCapacity : UInt64) : SinkCrossbar α := { queueCapacity := max queueCapacity 1 }

/-- The first critical section of `stop_lanes_`. -/
def beginStop (x : SinkCrossbar α) (drain : Bool) : SinkCrossbar α :=
  { x with running := false, lanes := x.lanes.map (fun l => { l with drainOnStop := drain }) }

/-- `stop_lanes_`, when it returns. Without `drain` the queues are replaced, so it does not matter
    how much of them the workers still took. -/
def stopLanes (x : SinkCrossbar α) (drain : Bool) : SinkCrossbar α :=
  if !x.running && x.lanes.isEmpty then x
  else
    let x := x.beginStop drain
    let lanes := x.lanes.map (fun l => l.signalStop.runOut)
    { x with lanes := if drain then lanes else lanes.map (Lane.replaceQueue x.queueCapacity) }

/-- The part of `configure` after its `stop_lanes_`. -/
def rebuild (x : SinkCrossbar α) (restart : Bool) (routes : List Route) (queueCapacity : UInt64) :
    SinkCrossbar α :=
  let queueCapacity := max queueCapacity 1
  let lanes := routes.map (fun r => Lane.fresh r queueCapacity)
  if restart then { queueCapacity, running := true, lanes := lanes.map Lane.start }
  else { queueCapacity, running := x.running, lanes }

def configure (x : SinkCrossbar α) (routes : List Route) (queueCapacity : UInt64) :
    SinkCrossbar α :=
  let restart := x.running
  let x := if restart then x.stopLanes true else x
  x.rebuild restart routes queueCapacity

def start (x : SinkCrossbar α) : SinkCrossbar α :=
  if x.running then x else { x with running := true, lanes := x.lanes.map Lane.start }

def close (x : SinkCrossbar α) : SinkCrossbar α := x.stopLanes true

def requestStop (x : SinkCrossbar α) : SinkCrossbar α := x.stopLanes false

/-- `flush` on a snapshot of the lanes. -/
def flush (x : SinkCrossbar α) : List Output :=
  x.lanes.zipIdx.flatMap (fun (l, i) => match l.route.sinkRef with
    | some sink => [.flush i sink]
    | none => [])

/-- The routes that the lanes serve, in order. -/
def routes (x : SinkCrossbar α) : List Route := x.lanes.map Lane.route

/-- The loop of `submit`, from lane index `i` on; `none` when it has to wait. -/
def submitLoop (e : α) (mask : RouteMask) (accepting : Bool) :
    Nat → List (Lane α) → Option (List (Lane α) × Bool)
  | _, [] => some ([], false)
  | i, l :: rest =>
    if i < 64 then
      if selects mask i then do
        let (l, ok) ← l.submit e accepting
        let (rest, any) ← submitLoop e mask accepting (i + 1) rest
        some (l :: rest, ok || any)
      else do
        let (rest, any) ← submitLoop e mask accepting (i + 1) rest
        some (l :: rest, any)
    else some (l :: rest, false)

def submit (x : SinkCrossbar α) (e : α) (mask : RouteMask) (accepting : Bool) :
    Option (SinkCrossbar α × Bool) :=
  (submitLoop e mask accepting 0 x.lanes).map (fun (lanes, any) => ({ x with lanes }, any))

/-! ### Steps of other threads -/

/-- A step of the worker of lane `i`, with the element it hands to `process_`, if any. -/
def workLane (x : SinkCrossbar α) (i : Nat) (act : WorkerAct) :
    Option (SinkCrossbar α × Option α) :=
  (x.lanes[i]?).bind fun l =>
    (l.work act).map fun (l, out) => ({ x with lanes := x.lanes.set i l }, out)

/-- A producer hands an element to the delivery strategy of lane `i`. -/
def deliverLane (x : SinkCrossbar α) (i : Nat) (e : α) (accepting : Bool) :
    Option (SinkCrossbar α × Bool) :=
  (x.lanes[i]?).bind fun l =>
    (l.submit e accepting).map fun (l, ok) => ({ x with lanes := x.lanes.set i l }, ok)

/-- What the workers write while a draining stop waits for them. -/
def drained (x : SinkCrossbar Event) : List Output :=
  x.lanes.zipIdx.flatMap (fun (l, i) =>
    if l.worker.joinable then l.pending.flatMap (fun e => (process l.route i e l.buffer).2) else [])

/-! ### What the calls leave behind -/

@[simp] theorem rebuild_routes (x : SinkCrossbar α) (restart : Bool) (rs : List Route)
    (cap : UInt64) : (x.rebuild restart rs cap).routes = rs := by
  cases restart <;>
    simp [rebuild, routes, Lane.fresh, Lane.start, List.map_map, Function.comp_def]

@[simp] theorem configure_routes (x : SinkCrossbar α) (rs : List Route) (cap : UInt64) :
    (x.configure rs cap).routes = rs := rebuild_routes _ _ _ _

theorem stopLanes_running (x : SinkCrossbar α) (drain : Bool) :
    (x.stopLanes drain).running = false := by
  unfold stopLanes
  split
  · next h =>
      simp only [Bool.and_eq_true, Bool.not_eq_true'] at h
      exact h.1
  · rfl

@[simp] theorem configure_running (x : SinkCrossbar α) (rs : List Route) (cap : UInt64) :
    (x.configure rs cap).running = x.running := by
  unfold configure
  cases hr : x.running <;> simp [rebuild, hr]

@[simp] theorem start_running (x : SinkCrossbar α) : x.start.running = true := by
  unfold start
  split
  · next h => exact h
  · rfl

@[simp] theorem start_routes (x : SinkCrossbar α) : x.start.routes = x.routes := by
  unfold start
  split
  · rfl
  · simp [routes, Lane.start, List.map_map, Function.comp_def]

theorem workLane_cases {x x' : SinkCrossbar α} {i : Nat} {act : WorkerAct} {out : Option α}
    (h : x.workLane i act = some (x', out)) :
    ∃ l l', x.lanes[i]? = some l ∧ Lane.WorkStep l l' out ∧
      x' = { x with lanes := x.lanes.set i l' } := by
  obtain ⟨l, hl, hwork⟩ := Option.bind_eq_some_iff.1 h
  obtain ⟨⟨l', out'⟩, hstep, heq⟩ := Option.map_eq_some_iff.1 hwork
  obtain ⟨rfl, rfl⟩ := Prod.mk.inj heq
  exact ⟨l, l', hl, Lane.workStep_of_work hstep, rfl⟩

theorem deliverLane_cases {x x' : SinkCrossbar α} {i : Nat} {e : α} {accepting ok : Bool}
    (h : x.deliverLane i e accepting = some (x', ok)) :
    ∃ l l', x.lanes[i]? = some l ∧ l.submit e accepting = some (l', ok) ∧
      x' = { x with lanes := x.lanes.set i l' } := by
  obtain ⟨l, hl, hsub⟩ := Option.bind_eq_some_iff.1 h
  obtain ⟨⟨l', ok'⟩, hstep, heq⟩ := Option.map_eq_some_iff.1 hsub
  obtain ⟨rfl, rfl⟩ := Prod.mk.inj heq
  exact ⟨l, l', hl, hstep, rfl⟩

theorem getElem?_lanes_set {x : SinkCrossbar α} {i : Nat} {l l' : Lane α}
    (hl : x.lanes[i]? = some l) (j : Nat) :
    (x.lanes.set i l')[j]? = if j = i then some l' else x.lanes[j]? := by
  obtain ⟨hi, -⟩ := List.getElem?_eq_some_iff.1 hl
  by_cases hji : j = i
  · subst hji
    simp [hi]
  · have hne : i ≠ j := fun he => hji he.symm
    rw [List.getElem?_set_ne hne, if_neg hji]

/-- Replacing a lane by one with the same route keeps the routes. -/
theorem routes_set {x : SinkCrossbar α} {i : Nat} {l l' : Lane α} (hl : x.lanes[i]? = some l)
    (hroute : l'.route = l.route) :
    (SinkCrossbar.routes { x with lanes := x.lanes.set i l' }) = x.routes := by
  obtain ⟨hi, hget⟩ := List.getElem?_eq_some_iff.1 hl
  have hi' : i < (x.lanes.map Lane.route).length := by simpa using hi
  have hsame : (x.lanes.map Lane.route)[i] = l'.route := by simp [hget, hroute]
  unfold routes
  rw [List.map_set, ← hsame]
  exact List.set_getElem_self hi'

/-- `submit` keeps the routes. -/
theorem submitLoop_routes {e : α} {mask : RouteMask} {accepting : Bool} {k : Nat}
    {lanes lanes' : List (Lane α)} {any : Bool}
    (h : submitLoop e mask accepting k lanes = some (lanes', any)) :
    lanes'.map Lane.route = lanes.map Lane.route := by
  induction lanes generalizing k lanes' any with
  | nil =>
      simp only [submitLoop, Option.some.injEq, Prod.mk.injEq] at h
      obtain ⟨rfl, -⟩ := h
      rfl
  | cons l rest ih =>
      rw [submitLoop] at h
      split at h
      · split at h
        · obtain ⟨⟨l', ok⟩, hsub, h⟩ := Option.bind_eq_some_iff.1 h
          obtain ⟨⟨rest', any'⟩, hrest, h⟩ := Option.bind_eq_some_iff.1 h
          obtain ⟨rfl, -⟩ := Prod.mk.inj (Option.some.inj h)
          obtain ⟨q, rfl, -⟩ := Lane.submit_frame hsub
          rw [List.map_cons, List.map_cons, ih hrest]
        · obtain ⟨⟨rest', any'⟩, hrest, h⟩ := Option.bind_eq_some_iff.1 h
          obtain ⟨rfl, -⟩ := Prod.mk.inj (Option.some.inj h)
          rw [List.map_cons, List.map_cons, ih hrest]
      · obtain ⟨rfl, -⟩ := Prod.mk.inj (Option.some.inj h)
        rfl

/-- Nothing pending, nothing written. -/
theorem drained_eq_nil {x : SinkCrossbar Event} (h : ∀ l ∈ x.lanes, l.pending = []) :
    x.drained = [] := by
  refine List.flatMap_eq_nil_iff.2 (fun li hli => ?_)
  have hl : li.1 ∈ x.lanes := List.fst_mem_of_mem_zipIdx hli
  simp [h li.1 hl]

/-- The lanes of a fresh or rebuilt crossbar hold nothing. -/
theorem rebuild_pending {x : SinkCrossbar α} {restart : Bool} {rs : List Route} {cap : UInt64}
    {l : Lane α} (h : l ∈ (x.rebuild restart rs cap).lanes) : l.pending = [] := by
  cases restart with
  | false =>
      obtain ⟨r, -, rfl⟩ := List.mem_map.1 (show l ∈ rs.map _ from h)
      rfl
  | true =>
      obtain ⟨l', hl', rfl⟩ := List.mem_map.1 (show l ∈ (rs.map _).map _ from h)
      obtain ⟨r, -, rfl⟩ := List.mem_map.1 hl'
      rfl

end SinkCrossbar

end SyLog
