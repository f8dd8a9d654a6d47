import SyLog.Library.Machine
import SyLog.Async.CrossbarSession

set_option autoImplicit false

/-! # Stopping and starting a crossbar

One thread makes the calls of a crossbar, in any order, while the lane workers run. `submit` and
`stop_lanes_` go round by round, as in `SyLog.Async.CrossbarSession`. The question is whether a
running crossbar serves its lanes, however often it was stopped before.

`request_stop` and `configure` leave new queues behind, `close` leaves the closed ones, and `start`
takes whatever is there. -/

namespace SyLog

variable {α : Type}

structure CallState (α : Type) where
  crossbar : SinkCrossbar α
  phase : Option (CrossbarPhase α) := none
  /-- the arguments of a `configure` that waits for its `stop_lanes_` -/
  configuring : Option (List Route × UInt64) := none
  /-- the worker threads created for each lane index and not joined -/
  threads : Nat → Nat := fun _ => 0

inductive CrossbarRequest (α : Type) where
  | configure (routes : List Route) (queueCapacity : UInt64)
  | start
  | close
  | requestStop
  | submit (e : α) (mask : RouteMask)
  /-- the calling thread goes on with its call -/
  | advance (accepting : Bool)
  | work (i : Nat) (act : WorkerAct)

namespace CallState

/-- Each of the first `n` lanes gets a thread. -/
def spawn (s : CallState α) (n : Nat) : Nat → Nat :=
  fun i => if i < n then s.threads i + 1 else s.threads i

/-- What a round leaves of the threads: a round of the last loop of `stop_lanes_` joins one. -/
def joined (s : CallState α) : CrossbarPhase α → Nat → Nat
  | .joining _ k =>
    match s.crossbar.lanes[k]? with
    | some l =>
      if l.worker.joinable then Function.update s.threads k (s.threads k - 1) else s.threads
    | none => s.threads
  | _ => s.threads

/-- Go on with a loop, or finish the call when the loop has ended. -/
def resume (s : CallState α) (phase : Option (CrossbarPhase α)) : CallState α :=
  match phase, s.configuring with
  | some phase, _ => { s with phase := some phase }
  | none, none => { s with phase := none }
  | none, some (routes, queueCapacity) =>
    { crossbar := s.crossbar.rebuild true routes queueCapacity
      threads := s.spawn routes.length }

/-- `close` (`drain`) or `request_stop`. -/
def stop (s : CallState α) (drain : Bool) : CallState α :=
  let (crossbar, phase) := s.crossbar.enterStop drain
  { s with crossbar }.resume phase

def configure (s : CallState α) (routes : List Route) (queueCapacity : UInt64) :
    CallState α :=
  if s.crossbar.running then { s with configuring := some (routes, queueCapacity) }.stop true
  else { s with crossbar := s.crossbar.rebuild false routes queueCapacity }

def start (s : CallState α) : CallState α :=
  if s.crossbar.running then s
  else { s with crossbar := s.crossbar.start, threads := s.spawn s.crossbar.lanes.length }

/-- The next round of the calling thread; `none` when it is outside of a call or has to wait. -/
def advance (s : CallState α) (accepting : Bool) : Option (CallState α) :=
  s.phase.bind fun phase =>
    (s.crossbar.advance accepting phase).map fun (crossbar, phase', _) =>
      { s with crossbar, threads := s.joined phase }.resume phase'

end CallState

/-- The calls of one thread on a crossbar as it is constructed. A call can be made once the one
    before has returned. -/
def crossbarCalls (α : Type) : Machine (CallState α) (CrossbarRequest α) where
  init s := ∃ queueCapacity, s = { crossbar := .new queueCapacity }
  next s
    | .advance accepting => s.advance accepting
    | .work i act =>
      (s.crossbar.workLane i act).map fun (crossbar, _) => { s with crossbar }
    | call =>
      if s.phase.isSome then none
      else
        match call with
        | .configure routes queueCapacity => some (s.configure routes queueCapacity)
        | .start => some s.start
        | .close => some (s.stop true)
        | .requestStop => some (s.stop false)
        | .submit e mask => some { s with phase := some (.submitting e mask 0) }
        | .advance _ | .work _ _ => none

/-! ## What a running crossbar owes its lanes -/

/-- While the crossbar runs, each lane has an open queue, on which a submit fails only for want of
    room, and exactly one worker thread, which is alive. -/
def CallState.Served (s : CallState α) : Prop :=
  s.crossbar.running = true → ∀ i l, s.crossbar.lanes[i]? = some l →
    l.Live ∧ s.threads i = 1 ∧
      ∀ e l', l.submit e true = some (l', false) → l.queue.capacity ≤ l.queue.size

/-- `start` finds no closed queue, unless the crossbar is running already. -/
def StartsOpen (s : CallState α) : CrossbarRequest α → Prop
  | .start => s.crossbar.running = true ∨ ∀ l ∈ s.crossbar.lanes, l.queue.queue.closed = false
  | _ => True

instance (s : CallState α) (c : CrossbarRequest α) : Decidable (StartsOpen s c) :=
  match c with
  | .start => inferInstanceAs (Decidable (_ ∨ ∀ l ∈ s.crossbar.lanes, _))
  | .configure _ _ | .close | .requestStop | .submit _ _ | .advance _ | .work _ _ =>
    inferInstanceAs (Decidable True)

/-- A push fails on a closed queue or for want of room. -/
theorem WorkersEventQueue.tryPush_fails {q : WorkersEventQueue α} {e : α}
    (hopen : q.queue.closed = false) (hfail : (q.tryPush e).2 = false) : q.capacity ≤ q.size := by
  unfold WorkersEventQueue.tryPush at hfail
  cases hslot : q.reserveSlot with
  | none =>
      unfold WorkersEventQueue.reserveSlot at hslot
      split at hslot
      · exact absurd hslot (by simp)
      · next hfull => exact UInt64.not_lt.1 hfull
  | some q' =>
      have hqueue : q'.queue.closed = false := by
        rw [WorkersEventQueue.reserveSlot_queue hslot]
        exact hopen
      rcases q'.pushReserved_cases e with ⟨-, hok, -⟩ | ⟨hclosed, -, -⟩
      · simp [hslot, hok] at hfail
      · exact absurd (hclosed.symm.trans hqueue) (by simp)

theorem Lane.submit_fails {l l' : Lane α} {e : α} (hopen : l.queue.queue.closed = false)
    (h : l.submit e true = some (l', false)) : l.queue.capacity ≤ l.queue.size := by
  have hdrop : some ({ l with queue := (l.queue.tryPush e).1 }, (l.queue.tryPush e).2)
      = some (l', false) → l.queue.capacity ≤ l.queue.size := by
    intro hpush
    obtain ⟨-, hfail⟩ := Prod.mk.inj (Option.some.inj hpush)
    exact WorkersEventQueue.tryPush_fails hopen hfail
  rcases Lane.submit_cases h with ⟨-, hok, -⟩ | ⟨-, -, hwhy⟩
  · exact absurd hok (by simp)
  · cases hdel : l.route.delivery with
    | none => exact hdrop (by simpa only [Lane.submit, hdel] using h)
    | some strategy =>
        cases strategy with
        | dropWhenFull => exact hdrop (by simpa only [Lane.submit, hdel] using h)
        | blockWhenFull =>
            -- a blocking submit would have waited
            rcases hwhy hdel with hacc | hclosed
            · exact absurd hacc (by simp)
            · exact absurd (hclosed.symm.trans hopen) (by simp)

/-! ## Threads and workers -/

namespace SinkCrossbar

/-- The threads that the handles of lane `i` stand for. -/
def workersAt (x : SinkCrossbar α) (i : Nat) : Nat :=
  ((x.lanes[i]?).map (fun l => if l.worker.joinable then 1 else 0)).getD 0

theorem workersAt_of_getElem? {x : SinkCrossbar α} {i : Nat} {l : Lane α}
    (hl : x.lanes[i]? = some l) : x.workersAt i = if l.worker.joinable then 1 else 0 := by
  simp [workersAt, hl]

theorem workersAt_set {x : SinkCrossbar α} {i : Nat} {l l' : Lane α} (hl : x.lanes[i]? = some l)
    (j : Nat) :
    SinkCrossbar.workersAt { x with lanes := x.lanes.set i l' } j
      = if j = i then (if l'.worker.joinable then 1 else 0) else x.workersAt j := by
  simp only [workersAt, getElem?_lanes_set hl]
  split <;> rfl

/-- A lane may be replaced by one whose handle is as joinable. -/
theorem workersAt_set_same {x : SinkCrossbar α} {i : Nat} {l m : Lane α}
    (hl : x.lanes[i]? = some l) (hsame : m.worker.joinable = l.worker.joinable) (j : Nat) :
    SinkCrossbar.workersAt { x with lanes := x.lanes.set i m } j = x.workersAt j := by
  rw [workersAt_set hl]
  split
  · next hji => rw [hji, workersAt_of_getElem? hl, hsame]
  · rfl

theorem workersAt_map {x x' : SinkCrossbar α} {f : Lane α → Lane α}
    (hx : x'.lanes = x.lanes.map f) (hf : ∀ l, (f l).worker = l.worker) (i : Nat) :
    x'.workersAt i = x.workersAt i := by
  simp [workersAt, hx, List.getElem?_map, Option.map_map, Function.comp_def, hf]

theorem workersAt_eq_zero {x : SinkCrossbar α}
    (h : ∀ (i : Nat) (l : Lane α), x.lanes[i]? = some l → l.worker = .unstarted) (i : Nat) :
    x.workersAt i = 0 := by
  unfold workersAt
  cases hl : x.lanes[i]? with
  | none => rfl
  | some l => simp [h i l hl, WorkerPhase.joinable]

theorem workersAt_of_popping {x : SinkCrossbar α}
    (h : ∀ (i : Nat) (l : Lane α), x.lanes[i]? = some l → l.worker = .popping) (i : Nat) :
    x.workersAt i = if i < x.lanes.length then 1 else 0 := by
  unfold workersAt
  cases hl : x.lanes[i]? with
  | none => simp [List.getElem?_eq_none_iff.1 hl]
  | some l =>
      obtain ⟨hi, -⟩ := List.getElem?_eq_some_iff.1 hl
      simp [h i l hl, WorkerPhase.joinable, hi]

end SinkCrossbar

/-! ## The invariant -/

/-- The loops of `stop_lanes_`. -/
def CrossbarPhase.stops : CrossbarPhase α → Bool
  | .submitting _ _ _ => false
  | .closing _ _ | .joining _ _ => true

/-- Lane `j` in a phase of the calling thread. Where there is no worker the queue may be closed. -/
def LaneServes (running : Bool) (phase : Option (CrossbarPhase α)) (j : Nat) (l : Lane α) : Prop :=
  match phase with
  | none | some (.submitting _ _ _) => if running then l.Live else l.worker = .unstarted
  | some (.closing _ _) => True
  | some (.joining _ k) => j < k → l.worker = .unstarted

def SinkCrossbar.Serves (x : SinkCrossbar α) (phase : Option (CrossbarPhase α)) : Prop :=
  ∀ j l, x.lanes[j]? = some l → LaneServes x.running phase j l

/-- While lanes are stopped the crossbar does not run, and a `configure` waits for nothing else. -/
structure CallState.Inv (s : CallState α) : Prop where
  serves : s.crossbar.Serves s.phase
  threads : ∀ i, s.threads i = s.crossbar.workersAt i
  stopped : ∀ phase, s.phase = some phase → phase.stops = true → s.crossbar.running = false
  waits : s.configuring.isSome = true → ∃ phase, s.phase = some phase ∧ phase.stops = true

theorem LaneServes.unstarted {phase : Option (CrossbarPhase α)} {j : Nat} {l : Lane α}
    (h : LaneServes false phase j l)
    (hcalm : ∀ p, phase = some p → p.stops = false) : l.worker = .unstarted := by
  cases phase with
  | none => exact h
  | some p =>
      cases p with
      | submitting e mask i => exact h
      | closing drain k => exact absurd (hcalm _ rfl) (by simp [CrossbarPhase.stops])
      | joining drain k => exact absurd (hcalm _ rfl) (by simp [CrossbarPhase.stops])

/-- A lane may be replaced by one that is alive or without a thread where it was. -/
theorem LaneServes.imp {running : Bool} {phase : Option (CrossbarPhase α)} {j : Nat}
    {l l' : Lane α} (h : LaneServes running phase j l) (hlive : l.Live → l'.Live)
    (hworker : l.worker = .unstarted → l'.worker = .unstarted) : LaneServes running phase j l' := by
  have hcalm : (if running = true then l.Live else l.worker = .unstarted) →
      if running = true then l'.Live else l'.worker = .unstarted := by
    intro hfit
    cases running with
    | true => exact hlive hfit
    | false => exact hworker hfit
  cases phase with
  | none => exact hcalm h
  | some p =>
      cases p with
      | submitting e mask i => exact hcalm h
      | closing drain k => trivial
      | joining drain k => exact fun hj => hworker (h hj)

namespace SinkCrossbar

theorem Serves.set {x : SinkCrossbar α} {phase phase' : Option (CrossbarPhase α)} {i : Nat}
    {l l' : Lane α} (h : x.Serves phase) (hl : x.lanes[i]? = some l)
    (hself : LaneServes x.running phase' i l')
    (hothers : ∀ j m, j ≠ i → LaneServes x.running phase j m → LaneServes x.running phase' j m) :
    SinkCrossbar.Serves { x with lanes := x.lanes.set i l' } phase' := by
  intro j m hm
  simp only [getElem?_lanes_set hl] at hm
  split at hm
  · next hji =>
      obtain rfl := Option.some.inj hm
      exact hji ▸ hself
  · next hji => exact hothers j m hji (h j m hm)

/-- A loop goes on with rounds of its own kind. -/
theorem CrossbarStep.stops {x x' : SinkCrossbar α} {accepting : Bool} {phase p : CrossbarPhase α}
    {phase' : Option (CrossbarPhase α)} {push : Option (Nat × α)}
    (h : CrossbarStep x accepting phase x' phase' push) (hp : phase' = some p) :
    p.stops = phase.stops := by
  cases h with
  | deliver e mask i l l' ok hl hi hsel hsub =>
      obtain rfl := Option.some.inj hp
      rfl
  | skip e mask i hsel =>
      obtain rfl := Option.some.inj hp
      rfl
  | signal drain k l hl =>
      obtain rfl := Option.some.inj hp
      rfl
  | signalled drain k hk =>
      obtain rfl := Option.some.inj hp
      rfl
  | join drain k l hl hfin =>
      obtain rfl := Option.some.inj hp
      rfl
  | submitted e mask i hi => exact absurd hp (by simp)
  | joined drain k hk => exact absurd hp (by simp)

/-- A round leaves the lanes as the next phase has them. -/
theorem CrossbarStep.serves {x x' : SinkCrossbar α} {accepting : Bool} {phase : CrossbarPhase α}
    {phase' : Option (CrossbarPhase α)} {push : Option (Nat × α)}
    (h : CrossbarStep x accepting phase x' phase' push) (hx : x.Serves (some phase))
    (hstop : phase.stops = true → x.running = false) : x'.Serves phase' := by
  cases h with
  | deliver e mask i l l' ok hl hi hsel hsub =>
      obtain ⟨q, rfl, hclosed⟩ := Lane.submit_frame hsub
      have hself : LaneServes x.running (some (.submitting e mask i)) i { l with queue := q } :=
        (hx i l hl).imp
          (fun hlive => ⟨hclosed.trans hlive.queue_open, hlive.not_stopped, hlive.serving⟩) id
      exact hx.set hl hself (fun _ _ _ hm => hm)
  | skip e mask i hsel => exact hx
  | submitted e mask i hi => exact hx
  | signal drain k l hl => exact hx.set hl trivial (fun _ _ _ _ => trivial)
  | signalled drain k hk =>
      intro j l hl hj
      omega
  | join drain k l hl hfin =>
      exact hx.set hl (fun _ => rfl) (fun j m hjk hm hj => hm (by omega))
  | joined drain k hk =>
      -- every lane has been joined, and new queues come without threads
      have hjoined : ∀ (j : Nat) (l : Lane α), x.lanes[j]? = some l → l.worker = .unstarted := by
        intro j l hl
        obtain ⟨hj, -⟩ := List.getElem?_eq_some_iff.1 hl
        exact hx j l hl (by omega)
      intro j l hl
      show if x.running = true then l.Live else l.worker = .unstarted
      rw [hstop rfl, if_neg (by simp)]
      cases drain with
      | true => exact hjoined j l hl
      | false =>
          obtain ⟨m, hm, rfl⟩ : ∃ m, x.lanes[j]? = some m ∧
              m.replaceQueue x.queueCapacity = l := by
            simpa [List.getElem?_map] using hl
          exact hjoined j m hm

end SinkCrossbar

/-- A round accounts for the thread that it joins. -/
theorem CallState.joined_eq {s : CallState α} {x' : SinkCrossbar α} {accepting : Bool}
    {phase : CrossbarPhase α} {phase' : Option (CrossbarPhase α)} {push : Option (Nat × α)}
    (h : SinkCrossbar.CrossbarStep s.crossbar accepting phase x' phase' push)
    (hthreads : ∀ i, s.threads i = s.crossbar.workersAt i) (i : Nat) :
    s.joined phase i = x'.workersAt i := by
  cases h with
  | deliver e mask k l l' ok hl hi hsel hsub =>
      obtain ⟨q, rfl, -⟩ := Lane.submit_frame hsub
      have hsame := SinkCrossbar.workersAt_set_same (m := { l with queue := q }) hl rfl i
      exact (hthreads i).trans hsame.symm
  | skip e mask k hsel => exact hthreads i
  | submitted e mask k hk => exact hthreads i
  | signal drain k l hl =>
      have hsame := SinkCrossbar.workersAt_set_same (m := l.signalStop) hl rfl i
      exact (hthreads i).trans hsame.symm
  | signalled drain k hk => exact hthreads i
  | join drain k l hl hfin =>
      have hk : s.threads k = if l.worker.joinable = true then 1 else 0 := by
        rw [hthreads k, SinkCrossbar.workersAt_of_getElem? hl]
      have hself : l.join.worker.joinable = false := rfl
      rw [SinkCrossbar.workersAt_set hl, hself, ← hthreads i]
      simp only [CallState.joined, hl]
      by_cases hik : i = k
      · subst hik
        cases hj : l.worker.joinable with
        | false => simpa [hj] using hk
        | true => simp [hk, hj]
      · cases hj : l.worker.joinable <;> simp [hik]
  | joined drain k hk =>
      have hnone : s.crossbar.lanes[k]? = none := List.getElem?_eq_none_iff.2 hk
      simp only [CallState.joined, hnone]
      rw [hthreads i]
      cases drain with
      | true => rfl
      | false =>
          exact (SinkCrossbar.workersAt_map (f := Lane.replaceQueue s.crossbar.queueCapacity) rfl
            (fun _ => rfl) i).symm

namespace CallState

theorem spawn_eq {s : CallState α} {x : SinkCrossbar α} {n : Nat}
    (hnone : ∀ i, s.threads i = 0) (hn : x.lanes.length = n)
    (hpopping : ∀ (i : Nat) (l : Lane α), x.lanes[i]? = some l → l.worker = .popping) (i : Nat) :
    s.spawn n i = x.workersAt i := by
  rw [SinkCrossbar.workersAt_of_popping hpopping, hn, spawn, hnone i]

/-- Finishing a call, or not yet. -/
theorem Inv.resume {s : CallState α} {phase : Option (CrossbarPhase α)}
    (hserves : s.crossbar.Serves phase) (hthreads : ∀ i, s.threads i = s.crossbar.workersAt i)
    (hstopped : ∀ p, phase = some p → p.stops = true → s.crossbar.running = false)
    (hwaits : s.configuring.isSome = true →
      s.crossbar.running = false ∧ ∀ p, phase = some p → p.stops = true) :
    (s.resume phase).Inv := by
  unfold CallState.resume
  cases phase with
  | some p => exact ⟨hserves, hthreads, hstopped, fun hc => ⟨p, rfl, (hwaits hc).2 p rfl⟩⟩
  | none =>
      cases hconf : s.configuring with
      | none => exact ⟨hserves, hthreads, fun _ hp => absurd hp (by simp), fun hc => by simp at hc⟩
      | some args =>
          obtain ⟨routes, queueCapacity⟩ := args
          obtain ⟨hrun, -⟩ := hwaits (by simp [hconf])
          -- the old lanes have no threads, and each new one gets one
          have hunstarted : ∀ (i : Nat) (l : Lane α), s.crossbar.lanes[i]? = some l →
              l.worker = .unstarted := by
            intro i l hl
            have hserve := hserves i l hl
            rw [hrun] at hserve
            exact hserve.unstarted (fun _ hp => absurd hp (by simp))
          have hnone : ∀ i, s.threads i = 0 := fun i =>
            (hthreads i).trans (SinkCrossbar.workersAt_eq_zero hunstarted i)
          have hfresh : ∀ (i : Nat) (l : Lane α),
              (s.crossbar.rebuild true routes queueCapacity).lanes[i]? = some l →
              ∃ r, (Lane.fresh r (max queueCapacity 1)).start = l := by
            intro i l hl
            obtain ⟨r, -, hr⟩ : ∃ r, routes[i]? = some r ∧
                (Lane.fresh r (max queueCapacity 1)).start = l := by
              simpa [SinkCrossbar.rebuild, List.getElem?_map] using hl
            exact ⟨r, hr⟩
          refine ⟨fun i l hl => ?_, spawn_eq hnone (by simp [SinkCrossbar.rebuild]) ?_,
            fun _ hp => absurd hp (by simp), fun hc => by simp at hc⟩
          · obtain ⟨r, rfl⟩ := hfresh i l hl
            exact ⟨rfl, rfl, rfl⟩
          · intro i l hl
            obtain ⟨r, rfl⟩ := hfresh i l hl
            rfl

/-- Entering `stop_lanes_` outside of a call. -/
theorem Inv.stop {s : CallState α} (h : s.Inv) (hidle : s.phase = none) {drain : Bool}
    {configuring : Option (List Route × UInt64)}
    (hrestart : configuring.isSome = true → s.crossbar.running = true) :
    (CallState.stop { s with configuring } drain).Inv := by
  unfold CallState.stop SinkCrossbar.enterStop
  by_cases hempty : (!s.crossbar.running && s.crossbar.lanes.isEmpty) = true
  · have hrun : s.crossbar.running = false := by
      simp only [Bool.and_eq_true, Bool.not_eq_true'] at hempty
      exact hempty.1
    simp only [hempty, if_true]
    refine Inv.resume (s := { s with configuring }) (hidle ▸ h.serves) h.threads
      (fun _ hp => absurd hp (by simp)) (fun hc => ?_)
    exact absurd ((hrestart hc).symm.trans hrun) (by simp)
  · simp only [hempty, if_false, Bool.false_eq_true]
    refine Inv.resume (s := { s with crossbar := s.crossbar.beginStop drain, configuring })
      (fun j l hl => trivial) (fun i => ?_) (fun _ _ _ => rfl)
      (fun _ => ⟨rfl, fun p hp => by obtain rfl := Option.some.inj hp; rfl⟩)
    exact (h.threads i).trans (SinkCrossbar.workersAt_map (x := s.crossbar)
      (f := fun l => { l with drainOnStop := drain }) rfl (fun _ => rfl) i).symm

theorem Inv.unstarted {s : CallState α} (h : s.Inv) (hidle : s.phase = none)
    (hrun : s.crossbar.running = false) :
    ∀ (i : Nat) (l : Lane α), s.crossbar.lanes[i]? = some l → l.worker = .unstarted := by
  intro i l hl
  have hserve := h.serves i l hl
  rw [hidle, hrun] at hserve
  exact hserve.unstarted (fun _ hp => absurd hp (by simp))

theorem Inv.not_configuring {s : CallState α} (h : s.Inv) (hidle : s.phase = none) :
    s.configuring.isSome = false := by
  refine Bool.eq_false_iff.2 (fun hc => ?_)
  obtain ⟨p, hp, -⟩ := h.waits hc
  simp [hidle] at hp

theorem Inv.start {s : CallState α} (h : s.Inv) (hidle : s.phase = none)
    (hopen : StartsOpen s .start) : s.start.Inv := by
  unfold CallState.start
  cases hrun : s.crossbar.running with
  | true => simpa using h
  | false =>
      simp only [Bool.false_eq_true, if_false]
      have hunstarted := h.unstarted hidle hrun
      have hlane : ∀ (i : Nat) (l : Lane α), s.crossbar.start.lanes[i]? = some l →
          ∃ m, s.crossbar.lanes[i]? = some m ∧ m.start = l := by
        intro i l hl
        simpa [SinkCrossbar.start, hrun, List.getElem?_map] using hl
      have hnone : ∀ i, s.threads i = 0 := fun i =>
        (h.threads i).trans (SinkCrossbar.workersAt_eq_zero hunstarted i)
      refine ⟨fun i l hl => ?_, spawn_eq hnone (by simp [SinkCrossbar.start, hrun]) ?_,
        fun p hp _ => by simp [hidle] at hp, fun hc => ?_⟩
      · obtain ⟨m, hm, rfl⟩ := hlane i l hl
        show LaneServes s.crossbar.start.running s.phase i m.start
        rw [hidle, SinkCrossbar.start_running]
        rcases hopen with hr | hq
        · exact absurd (hr.symm.trans hrun) (by simp)
        · exact ⟨hq m (List.mem_of_getElem? hm), rfl, rfl⟩
      · intro i l hl
        obtain ⟨m, -, rfl⟩ := hlane i l hl
        rfl
      · exact absurd hc (by simp [h.not_configuring hidle])

/-- `configure` on a crossbar that does not run gives it new lanes. -/
theorem Inv.rebuild {s : CallState α} (h : s.Inv) (hidle : s.phase = none)
    (hrun : s.crossbar.running = false) (routes : List Route) (queueCapacity : UInt64) :
    CallState.Inv { s with crossbar := s.crossbar.rebuild false routes queueCapacity } := by
  have hfresh : ∀ (i : Nat) (l : Lane α),
      (s.crossbar.rebuild false routes queueCapacity).lanes[i]? = some l →
      l.worker = .unstarted := by
    intro i l hl
    obtain ⟨r, -, rfl⟩ : ∃ r, routes[i]? = some r ∧ Lane.fresh r (max queueCapacity 1) = l := by
      simpa [SinkCrossbar.rebuild, List.getElem?_map] using hl
    rfl
  refine ⟨fun i l hl => ?_, fun i => ?_, fun p hp _ => by simp [hidle] at hp, h.waits⟩
  · show LaneServes s.crossbar.running s.phase i l
    rw [hidle, hrun]
    exact hfresh i l hl
  · rw [h.threads i, SinkCrossbar.workersAt_eq_zero (h.unstarted hidle hrun),
      SinkCrossbar.workersAt_eq_zero hfresh]

theorem Inv.work {s : CallState α} (h : s.Inv) {x' : SinkCrossbar α} {i : Nat}
    {act : WorkerAct} {out : Option α} (hw : s.crossbar.workLane i act = some (x', out)) :
    CallState.Inv { s with crossbar := x' } := by
  obtain ⟨l, l', hl, hstep, rfl⟩ := SinkCrossbar.workLane_cases hw
  obtain ⟨hjoin, hjoin'⟩ := hstep.joinable
  have hstarted : l.worker ≠ .unstarted := by
    intro hworker
    simp [hworker, WorkerPhase.joinable] at hjoin
  refine ⟨?_, fun j => ?_, h.stopped, h.waits⟩
  · exact h.serves.set hl ((h.serves i l hl).imp hstep.live (fun hu => absurd hu hstarted))
      (fun _ _ _ hm => hm)
  · have hsame := SinkCrossbar.workersAt_set_same (m := l') hl (hjoin'.trans hjoin.symm) j
    exact (h.threads j).trans hsame.symm

theorem Inv.advance {s s' : CallState α} {accepting : Bool} (h : s.Inv)
    (hs : s.advance accepting = some s') : s'.Inv := by
  obtain ⟨phase, hphase, hs⟩ := Option.bind_eq_some_iff.1 hs
  obtain ⟨⟨x', phase', push⟩, hadv, rfl⟩ := Option.map_eq_some_iff.1 hs
  have hstep := SinkCrossbar.crossbarStep_of_advance hadv
  have hserves : s.crossbar.Serves (some phase) := hphase ▸ h.serves
  have hstop : phase.stops = true → s.crossbar.running = false := h.stopped phase hphase
  refine Inv.resume (s := { s with crossbar := x', threads := s.joined phase })
    (hstep.serves hserves hstop) (joined_eq hstep h.threads) (fun p hp hstops => ?_) (fun hc => ?_)
  · exact hstep.running.trans (hstop ((hstep.stops hp).symm.trans hstops))
  · obtain ⟨q, hq, hstops⟩ := h.waits hc
    obtain rfl : phase = q := Option.some.inj (hphase.symm.trans hq)
    exact ⟨hstep.running.trans (hstop hstops), fun p hp => (hstep.stops hp).trans hstops⟩

/-- One step keeps the invariant, if `start` finds no closed queue. -/
theorem Inv.next {s s' : CallState α} {c : CrossbarRequest α} (h : s.Inv) (hc : StartsOpen s c)
    (hs : (crossbarCalls α).next s c = some s') : s'.Inv := by
  have hcall : ∀ {t : CallState α}, (if s.phase.isSome then none else some t) = some s' →
      s.phase = none ∧ t = s' := by
    intro t ht
    cases hphase : s.phase with
    | none => exact ⟨rfl, by simpa [hphase] using ht⟩
    | some p => simp [hphase] at ht
  cases c with
  | configure routes queueCapacity =>
      obtain ⟨hidle, rfl⟩ := hcall hs
      unfold CallState.configure
      cases hrun : s.crossbar.running with
      | true => simpa using h.stop hidle (fun _ => hrun)
      | false => simpa using h.rebuild hidle hrun routes queueCapacity
  | start =>
      obtain ⟨hidle, rfl⟩ := hcall hs
      exact h.start hidle hc
  | close =>
      obtain ⟨hidle, rfl⟩ := hcall hs
      exact h.stop hidle (fun hconf => absurd hconf (by simp [h.not_configuring hidle]))
  | requestStop =>
      obtain ⟨hidle, rfl⟩ := hcall hs
      exact h.stop hidle (fun hconf => absurd hconf (by simp [h.not_configuring hidle]))
  | submit e mask =>
      obtain ⟨hidle, rfl⟩ := hcall hs
      refine ⟨fun j l hl => ?_, h.threads, fun p hp hstops => ?_, fun hc => ?_⟩
      · have hserve := h.serves j l hl
        rw [hidle] at hserve
        exact hserve
      · obtain rfl := Option.some.inj hp
        simp [CrossbarPhase.stops] at hstops
      · exact absurd hc (by simp [h.not_configuring hidle])
  | advance accepting => exact h.advance hs
  | work i act =>
      obtain ⟨⟨x', out⟩, hw, rfl⟩ := Option.map_eq_some_iff.1 hs
      exact h.work hw

/-- In a running crossbar no call is stopping lanes, so each lane is alive. -/
theorem Inv.served {s : CallState α} (h : s.Inv) : s.Served := by
  intro hrun i l hl
  have hlive : l.Live := by
    have hserve := h.serves i l hl
    rw [hrun] at hserve
    cases hphase : s.phase with
    | none =>
        rw [hphase] at hserve
        exact hserve
    | some p =>
        have hcalm : p.stops = false :=
          Bool.eq_false_iff.2 (fun hs => absurd (h.stopped p hphase hs) (by simp [hrun]))
        cases p with
        | submitting e mask k =>
            rw [hphase] at hserve
            exact hserve
        | closing drain k => simp [CrossbarPhase.stops] at hcalm
        | joining drain k => simp [CrossbarPhase.stops] at hcalm
  refine ⟨hlive, ?_, fun e l' hsub => Lane.submit_fails hlive.queue_open hsub⟩
  rw [h.threads i, SinkCrossbar.workersAt_of_getElem? hl, hlive.joinable, if_pos rfl]

/-- A `start` that finds a closed queue runs a worker on it. -/
theorem start_unserved {s s' : CallState α} {c : CrossbarRequest α} (hc : ¬ StartsOpen s c)
    (hs : (crossbarCalls α).next s c = some s') : ¬ s'.Served := by
  cases c with
  | start =>
      simp only [StartsOpen, not_or, not_forall] at hc
      obtain ⟨hrun, l, hl, hclosed⟩ := hc
      have hrun' : s.crossbar.running = false := Bool.eq_false_iff.2 hrun
      have hstart : s' = s.start := by
        cases hphase : s.phase with
        | none => simpa [crossbarCalls, hphase] using hs.symm
        | some p => simp [crossbarCalls, hphase] at hs
      obtain ⟨i, hi⟩ := List.mem_iff_getElem?.1 hl
      subst hstart
      intro hserved
      have hlane : s.start.crossbar.lanes[i]? = some l.start := by
        simp [CallState.start, SinkCrossbar.start, hrun', List.getElem?_map, hi]
      have hopen := (hserved (by simp [CallState.start, hrun']) i _ hlane).1.queue_open
      exact hclosed hopen
  | _ => exact absurd trivial hc

end CallState

/-- **A crossbar can be restarted.** In every run in which `start` finds no closed queue, a running
    crossbar serves its lanes in every state. And the first `start` that does find one ends it. -/
theorem restarts_served {s : CallState α} (hs : (crossbarCalls α).ReachableBy StartsOpen s) :
    s.Served ∧ ∀ c s', (crossbarCalls α).next s c = some s' → (s'.Served ↔ StartsOpen s c) := by
  have hinv : s.Inv := by
    refine hs.invariant (fun t ht => ?_) (fun t c t' ht hc hnext => ht.next hc hnext)
    obtain ⟨queueCapacity, rfl⟩ := ht
    exact ⟨fun j l hl => by simp [SinkCrossbar.new] at hl, fun _ => rfl,
      fun p hp => absurd hp (by simp), fun hc => absurd hc (by simp)⟩
  refine ⟨hinv.served, fun c s' hnext => ⟨fun hserved => ?_, fun hc => (hinv.next hc hnext).served⟩⟩
  by_contra hc
  exact CallState.start_unserved hc hnext hserved

/-- Stopped by `request_stop` and started again. -/
theorem restarts_served_after_request_stop :
    ∃ s : CallState Event, s.crossbar.running = true ∧ s.crossbar.lanes.length = 1 ∧
      (s.Served ∧ ∀ c s', (crossbarCalls Event).next s c = some s' →
        (s'.Served ↔ StartsOpen s c)) := by
  have hinit : (crossbarCalls Event).ReachableBy StartsOpen { crossbar := .new 4 } := .init ⟨4, rfl⟩
  have hrestarted := hinit.runBy
    [.configure [{ sinkRef := some 7 }] 4, .start, .requestStop, .advance true, .advance true,
      .work 0 .giveUp, .work 0 .run, .advance true, .advance true, .start] rfl
  exact ⟨_, rfl, rfl, restarts_served hrestarted⟩

/-- Stopped by `close` and started again: the crossbar runs, but the queue of its lane is closed. A
    submit to it fails although it is empty, and the new worker exits. -/
theorem start_after_close_unserved :
    ∃ (s s' : CallState Event) (l m : Lane Event),
      (crossbarCalls Event).Reachable s ∧ s.crossbar.running = true ∧
        s.crossbar.lanes = [l] ∧ l.queue.queue.closed = true ∧ l.queue.size < l.queue.capacity ∧
        ((l.submit {} true).map Prod.snd = some false) ∧
        (crossbarCalls Event).run s [.work 0 .giveUp, .work 0 .run, .work 0 .run] = some s' ∧
        s'.crossbar.running = true ∧ s'.crossbar.lanes = [m] ∧ m.worker = .exited := by
  have hinit : (crossbarCalls Event).Reachable { crossbar := .new 4 } := .init ⟨4, rfl⟩
  have hclosed := hinit.run
    [.configure [{ sinkRef := some 7 }] 4, .start, .close, .advance true, .advance true,
      .work 0 .giveUp, .work 0 .run, .work 0 .run, .advance true, .advance true] rfl
  have hstarted := hclosed.run [.start] rfl
  exact ⟨_, _, _, _, hstarted, rfl, rfl, rfl, by decide, rfl, rfl, rfl, rfl, rfl⟩

end SyLog
