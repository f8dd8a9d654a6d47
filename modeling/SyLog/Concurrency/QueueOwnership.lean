import SyLog.Library.Machine
import SyLog.Library.Readers
import SyLog.Concurrency.WaitingProducers

set_option autoImplicit false

/-! # Whose queue a producer is in

Any number of threads in `submit`, `configure`, `start`, `close` and `request_stop` of one crossbar,
with the lane workers. Lanes and queues are objects with a number for an address: a snapshot keeps
the lanes of a vector, but what a lane holds is only the address of its queue, and
`stop_lanes_(false)` stores another one there.

Each critical section of `m_` is one step, except that the loop which replaces the queues takes a
step for each lane, since a producer reads `lane->queue` without `m_`. A thread that sleeps on
`cv_space_` may wake up at any time, as condition variables allow. Two threads that join the same
worker at once are taken in turn. -/

namespace SyLog

/-! ## The machine -/

/-- A `Lane` object. -/
structure LaneObject where
  route : Route := {}
  /-- the address in `lane->queue` -/
  queue : Nat := 0
  worker : WorkerPhase Event := .unstarted
  /-- the queue that the worker is in; `none` before it has read `lane.queue` -/
  serves : Option Nat := none
  stopRequested : Bool := false
  drainOnStop : Bool := true

namespace LaneObject

/-- The lane as its worker sees it while it is in the queue `queue`. -/
def lane (o : LaneObject) (queue : WorkersEventQueue Event) : Lane Event :=
  { route := o.route, queue, worker := o.worker, stopRequested := o.stopRequested
    drainOnStop := o.drainOnStop }

/-- `lane->worker = std::jthread(..)` -/
def start (o : LaneObject) : LaneObject :=
  { o with worker := .popping, serves := none, stopRequested := false, drainOnStop := true }

end LaneObject

/-- What `configure` has left to do after its `stop_lanes_`. -/
abbrev Reconfiguration := Option (List Route × UInt64)

/-- Where a thread is in a call on the crossbar. -/
inductive CallerPhase where
  | idle
  /-- `submit` copies the lanes -/
  | snapshotting (e : Event) (mask : RouteMask)
  /-- in its loop, at lane `i` of the copy -/
  | visiting (e : Event) (mask : RouteMask) (lanes : List Nat) (i : Nat)
  /-- in the delivery strategy, on the queue that `*lane->queue` was -/
  | delivering (e : Event) (mask : RouteMask) (lanes : List Nat) (i lane queue : Nat)
      (phase : DeliveryPhase)
  /-- `configure` calls `is_running()` -/
  | asking (routes : List Route) (queueCapacity : UInt64)
  | rebuilding (restart : Bool) (routes : List Route) (queueCapacity : UInt64)
  | starting
  /-- the first critical section of `stop_lanes_` -/
  | stopping (drain : Bool) (after : Reconfiguration)
  /-- `queue->close()` of lane `k` of the copy -/
  | closing (drain : Bool) (lanes : List Nat) (k : Nat) (after : Reconfiguration)
  /-- `worker.request_stop()` -/
  | requesting (drain : Bool) (lanes : List Nat) (k : Nat) (after : Reconfiguration)
  | joining (drain : Bool) (lanes : List Nat) (k : Nat) (after : Reconfiguration)
  /-- the last critical section is to be entered -/
  | locking
  /-- in it, at lane `k` of `lanes_` -/
  | replacing (k : Nat)

namespace CallerPhase

/-- The lane and the queue that a producer works on. -/
def holds : CallerPhase → Option (Nat × Nat)
  | .delivering _ _ _ _ lane queue _ => some (lane, queue)
  | _ => none

/-- The lanes that a producer may come to. -/
def known : CallerPhase → List Nat
  | .visiting _ _ lanes _ => lanes
  | .delivering _ _ lanes _ lane _ _ => lane :: lanes
  | _ => []

end CallerPhase

structure OwnershipState where
  queueCapacity : UInt64 := 1
  running : Bool := false
  /-- `lanes_` -/
  lanes : List Nat := []
  objects : Nat → LaneObject := fun _ => {}
  queues : Nat → WorkersEventQueue Event := fun _ => {}
  /-- how many lanes and queues were made; their addresses are the numbers below -/
  madeLanes : Nat := 0
  madeQueues : Nat := 0
  accepting : Bool := true
  /-- the thread in the section of `m_` that replaces the queues -/
  holder : Option Nat := none
  callers : Nat → CallerPhase := fun _ => .idle

inductive OwnershipStep where
  /-- thread `t` makes a call -/
  | submit (t : Nat) (e : Event) (mask : RouteMask)
  | configure (t : Nat) (routes : List Route) (queueCapacity : UInt64)
  | start (t : Nat)
  | close (t : Nat)
  | requestStop (t : Nat)
  /-- thread `t` goes on with its call -/
  | advance (t : Nat)
  | work (lane : Nat) (act : WorkerAct)
  /-- somebody stores `accepting` -/
  | accept (accepting : Bool)

namespace OwnershipState

def setCaller (s : OwnershipState) (t : Nat) (phase : CallerPhase) : OwnershipState :=
  { s with callers := Function.update s.callers t phase }

def setQueue (s : OwnershipState) (q : Nat) (queue : WorkersEventQueue Event) : OwnershipState :=
  { s with queues := Function.update s.queues q queue }

def setObject (s : OwnershipState) (lane : Nat) (o : LaneObject) : OwnershipState :=
  { s with objects := Function.update s.objects lane o }

/-- Thread `t` goes on in the delivery strategy of lane `lane`, on the queue `q`. -/
def deliver (s : OwnershipState) (t : Nat) (e : Event) (mask : RouteMask) (lanes : List Nat)
    (i lane q : Nat) (phase : DeliveryPhase) : OwnershipState :=
  let blocks := (s.objects lane).route.delivery = some .blockWhenFull
  let queue := s.queues q
  let next : CallerPhase := .visiting e mask lanes (i + 1)
  let goOn := CallerPhase.delivering e mask lanes i lane q
  match phase with
  | .entering => s.setCaller t (if s.accepting then goOn .reserving else next)
  | .reserving =>
    match queue.reserveSlot with
    | some queue => (s.setQueue q queue).setCaller t (goOn .pushing)
    | none => s.setCaller t (if blocks then goOn .checking else next)
  | .pushing =>
    match queue.queue.push e with
    | some blocking => (s.setQueue q { queue with queue := blocking }).setCaller t next
    | none => s.setCaller t (goOn .releasing)
  | .releasing => (s.setQueue q queue.releaseSlot).setCaller t (goOn .notifying)
  | .notifying => s.setCaller t next
  | .checking =>
    if !s.accepting || decide (queue.size < queue.capacity) then s.setCaller t (goOn .entering)
    else s.setCaller t (goOn .asleep)
  | .asleep => s.setCaller t (goOn .checking)

/-- The critical section of `configure`. -/
def rebuild (s : OwnershipState) (restart : Bool) (routes : List Route) (queueCapacity : UInt64) :
    OwnershipState :=
  let queueCapacity := max queueCapacity 1
  let fresh := fun lane : Nat =>
    match routes[lane - s.madeLanes]? with
    | some r =>
      let o : LaneObject := { route := r, queue := s.madeQueues + (lane - s.madeLanes) }
      if restart then o.start else o
    | none => s.objects lane
  { s with
    queueCapacity
    running := if restart then true else s.running
    lanes := (List.range routes.length).map (s.madeLanes + ·)
    objects := fun lane => if lane < s.madeLanes then s.objects lane else fresh lane
    queues := fun q => if q < s.madeQueues then s.queues q else .new queueCapacity
    madeLanes := s.madeLanes + routes.length
    madeQueues := s.madeQueues + routes.length }

/-- The critical section of `start`; `none` while the assignment to a `lane->worker` waits for the
    thread that was there. -/
def startLanes (s : OwnershipState) : Option OwnershipState :=
  if s.running then some s
  else if s.lanes.all (fun lane => (s.objects lane).worker.finished) then
    some { s with
      running := true
      objects := fun lane => if lane ∈ s.lanes then (s.objects lane).start else s.objects lane }
  else none

/-- The first critical section of `stop_lanes_`, if it does not return at once. -/
def beginStop (s : OwnershipState) (drain : Bool) : OwnershipState :=
  { s with
    running := false
    objects := fun lane =>
      if lane ∈ s.lanes then { s.objects lane with drainOnStop := drain } else s.objects lane }

/-- `lane->queue = std::make_shared<WorkersEventQueue>(queue_capacity_)` -/
def replaceQueue (s : OwnershipState) (lane : Nat) : OwnershipState :=
  { (s.setObject lane { s.objects lane with queue := s.madeQueues }).setQueue s.madeQueues
      (.new s.queueCapacity) with
    madeQueues := s.madeQueues + 1 }

/-- A thread in `stop_lanes_` goes on after it. -/
def afterStop : Reconfiguration → CallerPhase
  | none => .idle
  | some (routes, queueCapacity) => .rebuilding true routes queueCapacity

/-- Thread `t` goes on with its call; `none` when it has to wait. -/
def advance (s : OwnershipState) (t : Nat) : Option OwnershipState :=
  match s.callers t with
  | .idle => none
  | .visiting e mask lanes i =>
    match lanes[i]? with
    | none => some (s.setCaller t .idle)
    | some lane =>
      if i < 64 then
        if selects mask i then
          let blocks := (s.objects lane).route.delivery = some .blockWhenFull
          some (s.setCaller t (.delivering e mask lanes i lane (s.objects lane).queue
            (if blocks then .entering else .reserving)))
        else some (s.setCaller t (.visiting e mask lanes (i + 1)))
      else some (s.setCaller t .idle)
  | .delivering e mask lanes i lane q phase => some (s.deliver t e mask lanes i lane q phase)
  | .closing drain lanes k after =>
    match lanes[k]? with
    | some lane =>
      let q := (s.objects lane).queue
      some ((s.setQueue q (s.queues q).close).setCaller t (.requesting drain lanes k after))
    | none => some (s.setCaller t (.joining drain lanes 0 after))
  | .requesting drain lanes k after =>
    match lanes[k]? with
    | some lane =>
      let o := s.objects lane
      some ((s.setObject lane { o with stopRequested := o.stopRequested || o.worker.joinable
                              }).setCaller t (.closing drain lanes (k + 1) after))
    | none => none
  | .joining drain lanes k after =>
    match lanes[k]? with
    | some lane =>
      let o := s.objects lane
      if o.worker.finished then
        some ((s.setObject lane { o with worker := .unstarted }).setCaller t
          (.joining drain lanes (k + 1) after))
      else none
    | none => some (s.setCaller t (if drain then afterStop after else .locking))
  | .replacing k =>
    match s.lanes[k]? with
    | some lane => some ((s.replaceQueue lane).setCaller t (.replacing (k + 1)))
    | none => some { s.setCaller t .idle with holder := none }
  -- the sections of `m_`
  | .snapshotting e mask =>
    if s.holder.isSome then none else some (s.setCaller t (.visiting e mask s.lanes 0))
  | .asking routes queueCapacity =>
    if s.holder.isSome then none
    else some (s.setCaller t (if s.running then .stopping true (some (routes, queueCapacity))
      else .rebuilding false routes queueCapacity))
  | .rebuilding restart routes queueCapacity =>
    if s.holder.isSome then none
    else some ((s.rebuild restart routes queueCapacity).setCaller t .idle)
  | .starting => if s.holder.isSome then none else s.startLanes.map (·.setCaller t .idle)
  | .stopping drain after =>
    if s.holder.isSome then none
    else if !s.running && s.lanes.isEmpty then some (s.setCaller t (afterStop after))
    else some ((s.beginStop drain).setCaller t (.closing drain s.lanes 0 after))
  | .locking =>
    if s.holder.isSome then none else some { s.setCaller t (.replacing 0) with holder := some t }

/-- A step of the worker of a lane. It reads `lane.queue` before each pop. -/
def work (s : OwnershipState) (lane : Nat) (act : WorkerAct) : Option OwnershipState :=
  let o := s.objects lane
  match o.serves with
  | some q =>
    ((o.lane (s.queues q)).work act).map fun (l, _) =>
      let serves := match l.worker with
        | .popping | .draining => none
        | _ => some q
      (s.setQueue q l.queue).setObject lane { o with worker := l.worker, serves }
  | none =>
    match o.worker with
    | .popping | .draining => some (s.setObject lane { o with serves := some o.queue })
    | _ => none

/-- Thread `t` enters a call, unless it is in one. -/
def enter (s : OwnershipState) (t : Nat) (phase : CallerPhase) : Option OwnershipState :=
  match s.callers t with
  | .idle => some (s.setCaller t phase)
  | _ => none

end OwnershipState

/-- The calls of any threads on a crossbar as it is constructed, which may have been started. -/
def queueOwnership : Machine OwnershipState OwnershipStep where
  init s := ∃ (queueCapacity : UInt64) (running : Bool),
    s = { queueCapacity := max queueCapacity 1, running }
  next s
    | .submit t e mask => s.enter t (.snapshotting e mask)
    | .configure t routes queueCapacity => s.enter t (.asking routes queueCapacity)
    | .start t => s.enter t .starting
    | .close t => s.enter t (.stopping true none)
    | .requestStop t => s.enter t (.stopping false none)
    | .advance t => s.advance t
    | .work lane act => s.work lane act
    | .accept accepting => some { s with accepting }

/-! ## What a step does to lanes and producers -/

/-- Each producer works on the queue that its lane holds. -/
def OwnershipState.Owned (s : OwnershipState) : Prop :=
  Readers.Current (fun lane => (s.objects lane).queue) (fun t => (s.callers t).holds)

/-- The queue of a lane is replaced only while no producer works on the lane. -/
def ReplacesUnheld (s : OwnershipState) : OwnershipStep → Prop
  | .advance t => ∀ k lane, s.callers t = .replacing k → s.lanes[k]? = some lane →
      ∀ u q, (s.callers u).holds ≠ some (lane, q)
  | _ => True

/-- No lane gets another queue, and no producer another lane. -/
structure OwnershipState.Keeps (s s' : OwnershipState) : Prop where
  cell : ∀ lane, (s'.objects lane).queue = (s.objects lane).queue
  lanes : s'.lanes = s.lanes
  madeLanes : s'.madeLanes = s.madeLanes
  madeQueues : s'.madeQueues = s.madeQueues
  holds : ∀ t, (s'.callers t).holds = none ∨ (s'.callers t).holds = (s.callers t).holds
  known : ∀ t, ∀ lane ∈ (s'.callers t).known, lane ∈ (s.callers t).known

namespace OwnershipState

variable {s s' : OwnershipState}

theorem Keeps.refl (s : OwnershipState) : s.Keeps s :=
  ⟨fun _ => rfl, rfl, rfl, rfl, fun _ => Or.inr rfl, fun _ _ h => h⟩

theorem Keeps.setQueue (s : OwnershipState) (q : Nat) (queue : WorkersEventQueue Event) :
    s.Keeps (s.setQueue q queue) :=
  ⟨fun _ => rfl, rfl, rfl, rfl, fun _ => Or.inr rfl, fun _ _ h => h⟩

/-- Objects may change, but for the queue of a lane. -/
theorem Keeps.withObjects (h : s.Keeps s') {objects : Nat → LaneObject}
    (hqueue : ∀ lane, (objects lane).queue = (s'.objects lane).queue) (running : Bool) :
    s.Keeps { s' with objects, running } :=
  ⟨fun lane => (hqueue lane).trans (h.cell lane), h.lanes, h.madeLanes, h.madeQueues, h.holds,
    h.known⟩

theorem Keeps.setObject (h : s.Keeps s') {lane : Nat} {o : LaneObject}
    (hqueue : o.queue = (s'.objects lane).queue) : s.Keeps (s'.setObject lane o) := by
  refine h.withObjects (fun other => ?_) s'.running
  by_cases hne : other = lane
  · subst hne
    simpa using hqueue
  · simp [hne]

/-- A caller may leave its producer phase, or stay with its lane. -/
theorem Keeps.setCaller (h : s.Keeps s') {t : Nat} {phase : CallerPhase}
    (hholds : phase.holds = none ∨ phase.holds = (s.callers t).holds)
    (hknown : ∀ lane ∈ phase.known, lane ∈ (s.callers t).known) :
    s.Keeps (s'.setCaller t phase) := by
  refine ⟨h.cell, h.lanes, h.madeLanes, h.madeQueues, fun u => ?_, fun u lane hlane => ?_⟩
  · by_cases hut : u = t
    · subst hut
      simpa [OwnershipState.setCaller] using hholds
    · simpa [OwnershipState.setCaller, hut] using h.holds u
  · by_cases hut : u = t
    · subst hut
      exact hknown lane (by simpa [OwnershipState.setCaller] using hlane)
    · exact h.known u lane (by simpa [OwnershipState.setCaller, hut] using hlane)

/-- A phase outside of `submit` knows no lanes. -/
theorem Keeps.setOther (h : s.Keeps s') {t : Nat} {phase : CallerPhase}
    (hholds : phase.holds = none) (hknown : phase.known = []) : s.Keeps (s'.setCaller t phase) :=
  h.setCaller (Or.inl hholds) (fun lane hlane => by simp [hknown] at hlane)

/-- A delivery strategy works on its queue and on nothing else. -/
theorem deliver_keeps {t : Nat} {e : Event} {mask : RouteMask} {lanes : List Nat} {i lane q : Nat}
    {phase : DeliveryPhase} (hcaller : s.callers t = .delivering e mask lanes i lane q phase) :
    s.Keeps (s.deliver t e mask lanes i lane q phase) := by
  have hstay : ∀ {r : OwnershipState} (next : DeliveryPhase), s.Keeps r →
      s.Keeps (r.setCaller t (.delivering e mask lanes i lane q next)) := by
    intro r next hr
    refine hr.setCaller (Or.inr ?_) (fun l hl => ?_)
    · rw [hcaller]
      rfl
    · rw [hcaller]
      exact hl
  have hleave : ∀ {r : OwnershipState}, s.Keeps r →
      s.Keeps (r.setCaller t (.visiting e mask lanes (i + 1))) := by
    intro r hr
    refine hr.setCaller (Or.inl rfl) (fun l hl => ?_)
    rw [hcaller]
    exact List.mem_cons_of_mem _ hl
  cases phase with
  | entering =>
      simp only [deliver]
      split
      · exact hstay _ (.refl s)
      · exact hleave (.refl s)
  | reserving =>
      simp only [deliver]
      split
      · exact hstay _ (.setQueue s _ _)
      · split
        · exact hstay _ (.refl s)
        · exact hleave (.refl s)
  | pushing =>
      simp only [deliver]
      split
      · exact hleave (.setQueue s _ _)
      · exact hstay _ (.refl s)
  | releasing => exact hstay _ (.setQueue s _ _)
  | notifying => exact hleave (.refl s)
  | checking =>
      simp only [deliver]
      split
      · exact hstay _ (.refl s)
      · exact hstay _ (.refl s)
  | asleep => exact hstay _ (.refl s)

theorem work_keeps {lane : Nat} {act : WorkerAct} (h : s.work lane act = some s') : s.Keeps s' := by
  unfold work at h
  simp only at h
  split at h
  · obtain ⟨⟨l, out⟩, -, rfl⟩ := Option.map_eq_some_iff.1 h
    exact (Keeps.setQueue s _ _).setObject rfl
  · split at h
    · obtain rfl := Option.some.inj h
      exact (Keeps.refl s).setObject rfl
    · obtain rfl := Option.some.inj h
      exact (Keeps.refl s).setObject rfl
    · exact absurd h (by simp)

end OwnershipState

theorem afterStop_holds (after : Reconfiguration) :
    (OwnershipState.afterStop after).holds = none := by
  cases after <;> rfl

theorem afterStop_known (after : Reconfiguration) :
    (OwnershipState.afterStop after).known = [] := by
  cases after <;> rfl

/-- The steps, by what they do to lanes and producers. -/
inductive OwnershipEffect (s : OwnershipState) : OwnershipStep → OwnershipState → Prop
  | keep (c : OwnershipStep) (s' : OwnershipState) (h : s.Keeps s') (hcalm : ReplacesUnheld s c) :
      OwnershipEffect s c s'
  | copy (t : Nat) (e : Event) (mask : RouteMask) (hcaller : s.callers t = .snapshotting e mask) :
      OwnershipEffect s (.advance t) (s.setCaller t (.visiting e mask s.lanes 0))
  | read (t : Nat) (e : Event) (mask : RouteMask) (lanes : List Nat) (i lane : Nat)
      (phase : DeliveryPhase) (hcaller : s.callers t = .visiting e mask lanes i)
      (hlane : lanes[i]? = some lane) :
      OwnershipEffect s (.advance t)
        (s.setCaller t (.delivering e mask lanes i lane (s.objects lane).queue phase))
  | rebuild (t : Nat) (restart : Bool) (routes : List Route) (queueCapacity : UInt64)
      (hcaller : s.callers t = .rebuilding restart routes queueCapacity) :
      OwnershipEffect s (.advance t) ((s.rebuild restart routes queueCapacity).setCaller t .idle)
  | replace (t k lane : Nat) (hcaller : s.callers t = .replacing k)
      (hlane : s.lanes[k]? = some lane) :
      OwnershipEffect s (.advance t) ((s.replaceQueue lane).setCaller t (.replacing (k + 1)))

/-- A caller that is not replacing a queue keeps to the rule. -/
theorem replacesUnheld_of_caller {s : OwnershipState} {t : Nat}
    (h : ∀ k lane, s.callers t = .replacing k → s.lanes[k]? ≠ some lane) :
    ReplacesUnheld s (.advance t) :=
  fun k lane hk hlane => absurd hlane (h k lane hk)

/-- A thread outside of the replacing section takes a step that keeps lanes and producers. -/
theorem OwnershipEffect.advance {s s' : OwnershipState} {t : Nat} (h : s.Keeps s')
    (hcaller : ∀ k, s.callers t ≠ .replacing k) : OwnershipEffect s (.advance t) s' :=
  .keep _ _ h (replacesUnheld_of_caller (fun k _ hk => absurd hk (hcaller k)))

/-- What a section of `m_` does, it does while nobody is in the replacing section. -/
theorem of_section {β : Type} {busy : Bool} {r : Option β} {b : β}
    (h : (if busy then none else r) = some b) : r = some b := by
  cases busy with
  | false => simpa using h
  | true => simp at h

theorem effect_of_visiting {s s' : OwnershipState} {t : Nat} {e : Event} {mask : RouteMask}
    {lanes : List Nat} {i : Nat} (hcaller : s.callers t = .visiting e mask lanes i)
    (h : s.advance t = some s') : OwnershipEffect s (.advance t) s' := by
  have hother : ∀ k, s.callers t ≠ .replacing k := by simp [hcaller]
  have hreturn : s.Keeps (s.setCaller t .idle) := (OwnershipState.Keeps.refl s).setOther rfl rfl
  simp only [OwnershipState.advance, hcaller] at h
  split at h
  · obtain rfl := Option.some.inj h
    exact .advance hreturn hother
  · next lane hlane =>
      split at h
      · split at h
        · obtain rfl := Option.some.inj h
          exact .read t e mask lanes i lane _ hcaller hlane
        · obtain rfl := Option.some.inj h
          refine .advance ((OwnershipState.Keeps.refl s).setCaller (Or.inl rfl) (fun l hl => ?_))
            hother
          rw [hcaller]
          exact hl
      · obtain rfl := Option.some.inj h
        exact .advance hreturn hother

namespace OwnershipState

variable {s s' : OwnershipState} {t : Nat}

theorem startLanes_keeps (h : s.startLanes = some s') : s.Keeps s' := by
  unfold startLanes at h
  split at h
  · obtain rfl := Option.some.inj h
    exact .refl s
  · split at h
    · obtain rfl := Option.some.inj h
      refine (Keeps.refl s).withObjects (fun lane => ?_) true
      split <;> rfl
    · exact absurd h (by simp)

theorem beginStop_keeps (s : OwnershipState) (drain : Bool) : s.Keeps (s.beginStop drain) := by
  refine (Keeps.refl s).withObjects (fun lane => ?_) false
  split <;> rfl

/-- Locking and unlocking `m_` concerns no producer. -/
theorem Keeps.setHolder (h : s.Keeps s') (holder : Option Nat) : s.Keeps { s' with holder } :=
  ⟨h.cell, h.lanes, h.madeLanes, h.madeQueues, h.holds, h.known⟩

/-- The first critical section of `stop_lanes_`. -/
theorem stopping_keeps {drain : Bool} {after : Reconfiguration}
    (hcaller : s.callers t = .stopping drain after) (h : s.advance t = some s') : s.Keeps s' := by
  simp only [advance, hcaller] at h
  have hsection := of_section h
  split at hsection
  · obtain rfl := Option.some.inj hsection
    exact (Keeps.refl s).setOther (afterStop_holds after) (afterStop_known after)
  · obtain rfl := Option.some.inj hsection
    exact (beginStop_keeps s drain).setOther rfl rfl

theorem closing_keeps {drain : Bool} {lanes : List Nat} {k : Nat} {after : Reconfiguration}
    (hcaller : s.callers t = .closing drain lanes k after) (h : s.advance t = some s') :
    s.Keeps s' := by
  simp only [advance, hcaller] at h
  split at h
  · obtain rfl := Option.some.inj h
    exact (Keeps.setQueue s _ _).setOther rfl rfl
  · obtain rfl := Option.some.inj h
    exact (Keeps.refl s).setOther rfl rfl

theorem requesting_keeps {drain : Bool} {lanes : List Nat} {k : Nat} {after : Reconfiguration}
    (hcaller : s.callers t = .requesting drain lanes k after) (h : s.advance t = some s') :
    s.Keeps s' := by
  simp only [advance, hcaller] at h
  split at h
  · obtain rfl := Option.some.inj h
    refine ((Keeps.refl s).setObject ?_).setOther rfl rfl
    rfl
  · exact absurd h (by simp)

theorem joining_keeps {drain : Bool} {lanes : List Nat} {k : Nat} {after : Reconfiguration}
    (hcaller : s.callers t = .joining drain lanes k after) (h : s.advance t = some s') :
    s.Keeps s' := by
  simp only [advance, hcaller] at h
  split at h
  · split at h
    · obtain rfl := Option.some.inj h
      refine ((Keeps.refl s).setObject ?_).setOther rfl rfl
      rfl
    · exact absurd h (by simp)
  · obtain rfl := Option.some.inj h
    split
    · exact (Keeps.refl s).setOther (afterStop_holds after) (afterStop_known after)
    · exact (Keeps.refl s).setOther rfl rfl

end OwnershipState

theorem effect_of_advance {s s' : OwnershipState} {t : Nat} (h : s.advance t = some s') :
    OwnershipEffect s (.advance t) s' := by
  have hrefl : s.Keeps s := .refl s
  cases hcaller : s.callers t with
  | idle => simp [OwnershipState.advance, hcaller] at h
  | snapshotting e mask =>
      simp only [OwnershipState.advance, hcaller] at h
      obtain rfl := Option.some.inj (of_section h)
      exact .copy t e mask hcaller
  | visiting e mask lanes i => exact effect_of_visiting hcaller h
  | delivering e mask lanes i lane q phase =>
      simp only [OwnershipState.advance, hcaller] at h
      obtain rfl := Option.some.inj h
      exact .advance (OwnershipState.deliver_keeps hcaller) (by simp [hcaller])
  | asking routes queueCapacity =>
      simp only [OwnershipState.advance, hcaller] at h
      obtain rfl := Option.some.inj (of_section h)
      refine .advance ?_ (by simp [hcaller])
      split
      · exact hrefl.setOther rfl rfl
      · exact hrefl.setOther rfl rfl
  | rebuilding restart routes queueCapacity =>
      simp only [OwnershipState.advance, hcaller] at h
      obtain rfl := Option.some.inj (of_section h)
      exact .rebuild t restart routes queueCapacity hcaller
  | starting =>
      simp only [OwnershipState.advance, hcaller] at h
      obtain ⟨r, hr, rfl⟩ := Option.map_eq_some_iff.1 (of_section h)
      have hkeeps : s.Keeps r := OwnershipState.startLanes_keeps hr
      exact .advance (hkeeps.setOther rfl rfl) (by simp [hcaller])
  | stopping drain after =>
      exact .advance (OwnershipState.stopping_keeps hcaller h) (by simp [hcaller])
  | closing drain lanes k after =>
      exact .advance (OwnershipState.closing_keeps hcaller h) (by simp [hcaller])
  | requesting drain lanes k after =>
      exact .advance (OwnershipState.requesting_keeps hcaller h) (by simp [hcaller])
  | joining drain lanes k after =>
      exact .advance (OwnershipState.joining_keeps hcaller h) (by simp [hcaller])
  | locking =>
      simp only [OwnershipState.advance, hcaller] at h
      obtain rfl := Option.some.inj (of_section h)
      have hkeeps : s.Keeps (s.setCaller t (.replacing 0)) := hrefl.setOther rfl rfl
      exact .advance (hkeeps.setHolder _) (by simp [hcaller])
  | replacing k =>
      simp only [OwnershipState.advance, hcaller] at h
      split at h
      · next lane hlane =>
          obtain rfl := Option.some.inj h
          exact .replace t k lane hcaller hlane
      · next hnone =>
          -- the loop is over
          obtain rfl := Option.some.inj h
          have hkeeps : s.Keeps (s.setCaller t .idle) := hrefl.setOther rfl rfl
          refine .keep _ _ (hkeeps.setHolder _) (replacesUnheld_of_caller (fun j lane hj => ?_))
          obtain rfl : k = j := by simpa [hcaller] using hj
          simp [hnone]

theorem effect_of_enter {s s' : OwnershipState} {c : OwnershipStep} {t : Nat} {phase : CallerPhase}
    (h : s.enter t phase = some s') (hcalm : ReplacesUnheld s c) (hholds : phase.holds = none)
    (hknown : phase.known = []) : OwnershipEffect s c s' := by
  unfold OwnershipState.enter at h
  split at h
  · obtain rfl := Option.some.inj h
    exact .keep _ _ ((OwnershipState.Keeps.refl s).setOther hholds hknown) hcalm
  · exact absurd h (by simp)

theorem ownershipEffect {s s' : OwnershipState} {c : OwnershipStep}
    (h : queueOwnership.next s c = some s') : OwnershipEffect s c s' := by
  cases c with
  | submit t e mask => exact effect_of_enter h trivial rfl rfl
  | configure t routes queueCapacity => exact effect_of_enter h trivial rfl rfl
  | start t => exact effect_of_enter h trivial rfl rfl
  | close t => exact effect_of_enter h trivial rfl rfl
  | requestStop t => exact effect_of_enter h trivial rfl rfl
  | advance t => exact effect_of_advance h
  | work lane act => exact .keep _ _ (OwnershipState.work_keeps h) trivial
  | accept accepting =>
      obtain rfl := Option.some.inj h
      exact .keep _ _ ⟨fun _ => rfl, rfl, rfl, rfl, fun _ => Or.inr rfl, fun _ _ hl => hl⟩ trivial

/-! ## The invariant -/

/-- Producers are in the queues of their lanes, and what they know of was made. -/
structure OwnershipState.Inv (s : OwnershipState) : Prop where
  owned : s.Owned
  lanes_lt : ∀ lane ∈ s.lanes, lane < s.madeLanes
  known_lt : ∀ t, ∀ lane ∈ (s.callers t).known, lane < s.madeLanes
  queues_lt : ∀ lane < s.madeLanes, (s.objects lane).queue < s.madeQueues

namespace OwnershipState

variable {s s' : OwnershipState}

theorem holds_known {phase : CallerPhase} {lane q : Nat} (h : phase.holds = some (lane, q)) :
    lane ∈ phase.known := by
  unfold CallerPhase.holds at h
  split at h
  · obtain ⟨rfl, rfl⟩ := Prod.mk.inj (Option.some.inj h)
    exact List.mem_cons_self
  · exact absurd h (by simp)

theorem holds_setCaller (s : OwnershipState) (t : Nat) (phase : CallerPhase) :
    (fun u => ((s.setCaller t phase).callers u).holds)
      = Function.update (fun u => (s.callers u).holds) t phase.holds := by
  funext u
  by_cases hut : u = t
  · subst hut
    simp [setCaller]
  · simp [setCaller, hut]

theorem known_setCaller {n t : Nat} {phase : CallerPhase}
    (h : ∀ u, ∀ lane ∈ (s.callers u).known, lane < n) (hphase : ∀ lane ∈ phase.known, lane < n)
    (u : Nat) : ∀ lane ∈ ((s.setCaller t phase).callers u).known, lane < n := by
  intro lane hlane
  by_cases hut : u = t
  · subst hut
    exact hphase lane (by simpa [setCaller] using hlane)
  · exact h u lane (by simpa [setCaller, hut] using hlane)

theorem Inv.keeps (h : s.Inv) (hk : s.Keeps s') : s'.Inv := by
  refine ⟨h.owned.mono hk.holds (fun _ lane _ _ => hk.cell lane), ?_, ?_, ?_⟩
  · rw [hk.lanes, hk.madeLanes]
    exact h.lanes_lt
  · intro t lane hlane
    rw [hk.madeLanes]
    exact h.known_lt t lane (hk.known t lane hlane)
  · intro lane hlane
    rw [hk.cell, hk.madeQueues]
    exact h.queues_lt lane (hk.madeLanes ▸ hlane)

/-- The copy that `submit` makes names lanes of the crossbar. -/
theorem Inv.copy (h : s.Inv) (t : Nat) (e : Event) (mask : RouteMask) :
    (s.setCaller t (.visiting e mask s.lanes 0)).Inv := by
  refine ⟨?_, h.lanes_lt, known_setCaller h.known_lt h.lanes_lt, h.queues_lt⟩
  unfold Owned
  rw [holds_setCaller]
  refine h.owned.mono (fun u => ?_) (fun _ _ _ _ => rfl)
  by_cases hut : u = t
  · subst hut
    left
    simp [CallerPhase.holds]
  · right
    simp [hut]

/-- A producer that evaluates `*lane->queue` gets the queue that the lane holds. -/
theorem Inv.read (h : s.Inv) {t : Nat} {e : Event} {mask : RouteMask} {lanes : List Nat}
    {i lane : Nat} {phase : DeliveryPhase} (hcaller : s.callers t = .visiting e mask lanes i)
    (hlane : lanes[i]? = some lane) :
    (s.setCaller t (.delivering e mask lanes i lane (s.objects lane).queue phase)).Inv := by
  have hlanes : ∀ l ∈ lanes, l < s.madeLanes := by
    intro l hl
    exact h.known_lt t l (by rw [hcaller]; exact hl)
  refine ⟨?_, h.lanes_lt, known_setCaller h.known_lt (fun l hl => ?_), h.queues_lt⟩
  · unfold Owned
    rw [holds_setCaller]
    exact h.owned.read t lane
  · rcases List.mem_cons.1 hl with rfl | hl
    · exact hlanes l (List.mem_of_getElem? hlane)
    · exact hlanes l hl

/-- New lanes have addresses and queues of their own. -/
theorem Inv.rebuild (h : s.Inv) (t : Nat) (restart : Bool) (routes : List Route)
    (queueCapacity : UInt64) :
    ((s.rebuild restart routes queueCapacity).setCaller t .idle).Inv := by
  have hsame : ∀ lane < s.madeLanes,
      ((s.rebuild restart routes queueCapacity).objects lane) = s.objects lane := by
    intro lane hlane
    simp [OwnershipState.rebuild, hlane]
  refine ⟨?_, ?_, known_setCaller (fun u lane hlane => ?_)
    (fun l hl => by simp [CallerPhase.known] at hl), ?_⟩
  · unfold Owned
    rw [holds_setCaller]
    refine h.owned.mono (fun u => ?_) (fun u lane q hheld => ?_)
    · by_cases hut : u = t
      · subst hut
        left
        simp [CallerPhase.holds]
      · right
        simp [hut, OwnershipState.rebuild]
    · have hlane : lane < s.madeLanes := h.known_lt u lane (holds_known hheld)
      exact congrArg LaneObject.queue (hsame lane hlane)
  · intro lane hlane
    obtain ⟨j, hj, rfl⟩ := List.mem_map.1 (show lane ∈ (List.range routes.length).map _ from hlane)
    have hj' : j < routes.length := List.mem_range.1 hj
    show s.madeLanes + j < s.madeLanes + routes.length
    omega
  · have hold : lane < s.madeLanes := h.known_lt u lane hlane
    show lane < s.madeLanes + routes.length
    omega
  · intro lane hlane
    have hlt : lane < s.madeLanes + routes.length := hlane
    show ((s.rebuild restart routes queueCapacity).objects lane).queue
      < s.madeQueues + routes.length
    by_cases hold : lane < s.madeLanes
    · rw [hsame lane hold]
      have hq := h.queues_lt lane hold
      omega
    · have hidx : lane - s.madeLanes < routes.length := by omega
      have hget : routes[lane - s.madeLanes]? = some routes[lane - s.madeLanes] :=
        List.getElem?_eq_getElem hidx
      have hqueue : ((s.rebuild restart routes queueCapacity).objects lane).queue
          = s.madeQueues + (lane - s.madeLanes) := by
        simp only [OwnershipState.rebuild, hold, if_false, hget]
        cases restart <;> rfl
      omega

/-- Replacing the queue of a lane keeps the producers current precisely when none is in it. -/
theorem Inv.replaced_iff (h : s.Inv) {t k lane : Nat} (hcaller : s.callers t = .replacing k)
    (hlane : s.lanes[k]? = some lane) :
    ((s.replaceQueue lane).setCaller t (.replacing (k + 1))).Owned
      ↔ ∀ u q, (s.callers u).holds ≠ some (lane, q) := by
  have hlt : (s.objects lane).queue < s.madeQueues :=
    h.queues_lt lane (h.lanes_lt lane (List.mem_of_getElem? hlane))
  have hcells :
      (fun l => (((s.replaceQueue lane).setCaller t (.replacing (k + 1))).objects l).queue)
      = Function.update (fun l => (s.objects l).queue) lane s.madeQueues := by
    funext l
    by_cases hl : l = lane
    · subst hl
      simp [replaceQueue, setObject, setQueue, setCaller]
    · simp [replaceQueue, setObject, setQueue, setCaller, hl]
  have hholds : (fun u =>
      (((s.replaceQueue lane).setCaller t (.replacing (k + 1))).callers u).holds)
      = fun u => (s.callers u).holds := by
    rw [holds_setCaller]
    funext u
    by_cases hut : u = t
    · subst hut
      simp [CallerPhase.holds, hcaller]
    · simp [hut, replaceQueue, setObject, setQueue]
  unfold Owned
  rw [hcells, hholds]
  exact Readers.Current.write_iff h.owned (Nat.ne_of_gt hlt)

theorem Inv.replace (h : s.Inv) {t k lane : Nat} (hcaller : s.callers t = .replacing k)
    (hlane : s.lanes[k]? = some lane) (hfree : ∀ u q, (s.callers u).holds ≠ some (lane, q)) :
    ((s.replaceQueue lane).setCaller t (.replacing (k + 1))).Inv := by
  refine ⟨(h.replaced_iff hcaller hlane).2 hfree, h.lanes_lt,
    known_setCaller h.known_lt (fun l hl => by simp [CallerPhase.known] at hl), fun l hl => ?_⟩
  show ((s.replaceQueue lane).objects l).queue < s.madeQueues + 1
  by_cases hl' : l = lane
  · subst hl'
    simp [replaceQueue, setObject, setQueue]
  · have hold := h.queues_lt l hl
    simp only [replaceQueue, setObject, setQueue, Function.update_of_ne hl']
    omega

end OwnershipState

/-- One step keeps the invariant, if it replaces no queue that a producer works on. -/
theorem OwnershipEffect.inv {s s' : OwnershipState} {c : OwnershipStep}
    (he : OwnershipEffect s c s') (h : s.Inv) (hc : ReplacesUnheld s c) : s'.Inv := by
  cases he with
  | keep _ _ hk _ => exact h.keeps hk
  | copy t e mask hcaller => exact h.copy t e mask
  | read t e mask lanes i lane phase hcaller hlane => exact h.read hcaller hlane
  | rebuild t restart routes queueCapacity hcaller => exact h.rebuild t restart routes queueCapacity
  | replace t k lane hcaller hlane =>
      exact h.replace hcaller hlane (hc k lane hcaller hlane)

/-- **Whose queue a producer is in.** In every run that replaces a queue only while no producer
    works on its lane, each producer works on the queue of its lane in every state. And the first
    step that replaces another one leaves a producer in a queue that its lane has given up. -/
theorem producers_hold_lane_queue {s : OwnershipState}
    (hs : queueOwnership.ReachableBy ReplacesUnheld s) :
    s.Owned ∧ ∀ c s', queueOwnership.next s c = some s' → (s'.Owned ↔ ReplacesUnheld s c) := by
  have hinv : s.Inv := by
    refine hs.invariant (fun r hr => ?_) (fun r c r' hr hc hnext =>
      (ownershipEffect hnext).inv hr hc)
    obtain ⟨queueCapacity, running, rfl⟩ := hr
    exact ⟨fun t lane q hheld => by simp [CallerPhase.holds] at hheld, fun lane hl => by simp at hl,
      fun t lane hl => by simp [CallerPhase.known] at hl, fun lane hl => absurd hl (by simp)⟩
  refine ⟨hinv.owned, fun c s' hnext => ⟨fun howned => ?_, fun hc =>
    ((ownershipEffect hnext).inv hinv hc).owned⟩⟩
  cases ownershipEffect hnext with
  | keep _ _ hk hcalm => exact hcalm
  | copy t e mask hcaller =>
      exact replacesUnheld_of_caller (fun k lane hk => by simp [hcaller] at hk)
  | read t e mask lanes i lane phase hcaller hlane =>
      exact replacesUnheld_of_caller (fun k lane hk => by simp [hcaller] at hk)
  | rebuild t restart routes queueCapacity hcaller =>
      exact replacesUnheld_of_caller (fun k lane hk => by simp [hcaller] at hk)
  | replace t k lane hcaller hlane =>
      intro j l hj hl
      obtain rfl : k = j := by simpa [hcaller] using hj
      obtain rfl : lane = l := Option.some.inj (hlane.symm.trans hl)
      exact (hinv.replaced_iff hcaller hlane).1 howned

/-- The step may replace a queue. -/
def OwnershipStep.replaces (s : OwnershipState) : OwnershipStep → Bool
  | .advance t =>
    match s.callers t with
    | .replacing _ => true
    | _ => false
  | _ => false

theorem replacesUnheld_of_not {s : OwnershipState} {c : OwnershipStep}
    (h : c.replaces s = false) : ReplacesUnheld s c := by
  cases c with
  | advance t =>
      refine replacesUnheld_of_caller (fun k lane hk => ?_)
      simp [OwnershipStep.replaces, hk] at h
  | _ => trivial

/-- A producer in the queue of its lane, while `close` waits for the worker. -/
theorem producers_hold_lane_queue_during_close :
    ∃ s : OwnershipState, (s.callers 0).holds = some (0, 0) ∧
      s.callers 1 = .joining true [0] 0 none ∧
      (s.Owned ∧ ∀ c s', queueOwnership.next s c = some s' →
        (s'.Owned ↔ ReplacesUnheld s c)) := by
  have hinit : queueOwnership.ReachableBy ReplacesUnheld { queueCapacity := 1, running := true } :=
    .init ⟨1, true, rfl⟩
  have hready := hinit.runUnder (fun _ _ => replacesUnheld_of_not)
    [.configure 1 [{ sinkRef := some 7 }] 1, .advance 1, .advance 1, .advance 1, .advance 1,
      .advance 1] rfl
  have hclosing := hready.runUnder (fun _ _ => replacesUnheld_of_not)
    [.submit 0 {} 1#64, .advance 0, .advance 0, .close 1, .advance 1, .advance 1, .advance 1,
      .advance 1] rfl
  exact ⟨_, rfl, rfl, producers_hold_lane_queue hclosing⟩

/-- `request_stop` while a producer waits for room: the producer sleeps in queue 0, and its lane
    holds queue 1. -/
theorem request_stop_abandons_producer :
    ∃ (s : OwnershipState) (e : Event) (mask : RouteMask),
      queueOwnership.Reachable s ∧ s.callers 0 = .delivering e mask [0] 0 0 0 .asleep ∧
        (s.objects 0).queue = 1 ∧ ¬ s.Owned := by
  have hinit : queueOwnership.Reachable { queueCapacity := 1, running := true } :=
    .init ⟨1, true, rfl⟩
  have hready := hinit.run
    [.configure 1 [{ sinkRef := some 7, delivery := some .blockWhenFull }] 1, .advance 1,
      .advance 1, .advance 1, .advance 1, .advance 1] rfl
  have hfull := hready.run
    [.submit 0 {} 1#64, .advance 0, .advance 0, .advance 0, .advance 0, .advance 0, .advance 0] rfl
  have hasleep := hfull.run
    [.submit 0 {} 1#64, .advance 0, .advance 0, .advance 0, .advance 0, .advance 0] rfl
  have hstopped := hasleep.run
    [.requestStop 1, .advance 1, .advance 1, .advance 1, .advance 1, .work 0 .run,
      .work 0 .giveUp, .work 0 .run] rfl
  have hreplaced := hstopped.run [.advance 1, .advance 1, .advance 1, .advance 1] rfl
  refine ⟨_, _, _, hreplaced, rfl, rfl, fun howned => ?_⟩
  have hqueue : (1 : Nat) = 0 := howned 0 0 0 rfl
  exact absurd hqueue (by decide)

end SyLog
