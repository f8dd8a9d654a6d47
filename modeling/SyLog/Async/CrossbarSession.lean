import SyLog.Async.SinkCrossbar

set_option autoImplicit false

/-! # Crossbar calls, step by step

`SinkCrossbar::submit` hands an event to one lane after the other, and `stop_lanes_` closes, signals
and joins one lane after the other; the workers go on in between. `SinkCrossbar.advance` is one
round of these loops for the one thread that makes the calls. A reservation and the push that
follows it are one round, since no other thread pushes and a worker takes from the other end. So are
the close of a queue and the stop request that follows it: once the queue is closed the stop request
allows the worker nothing new.

`CrossbarStep` says what a round can do, and `Fits` what each lane looks like between two rounds. -/

namespace SyLog

variable {α : Type}

/-- Where the calling thread is in `submit` or in `stop_lanes_`: at which lane of which loop. -/
inductive CrossbarPhase (α : Type) where
  | submitting (e : α) (mask : RouteMask) (i : Nat)
  | closing (drain : Bool) (k : Nat)
  | joining (drain : Bool) (k : Nat)

namespace SinkCrossbar

/-- One round of the loop that the phase is in; `none` when it has to wait. The second component is
    `none` when the call returns, the third is a push that succeeded. -/
def advance (x : SinkCrossbar α) (accepting : Bool) :
    CrossbarPhase α → Option (SinkCrossbar α × Option (CrossbarPhase α) × Option (Nat × α))
  | .submitting e mask i =>
    match x.lanes[i]? with
    | none => some (x, none, none)
    | some _ =>
      -- lanes from 64 on get nothing
      if i < 64 then
        if selects mask i then
          (x.deliverLane i e accepting).map fun (x, ok) =>
            (x, some (.submitting e mask (i + 1)), if ok then some (i, e) else none)
        else some (x, some (.submitting e mask (i + 1)), none)
      else some (x, none, none)
  | .closing drain k =>
    match x.lanes[k]? with
    | some l =>
      some ({ x with lanes := x.lanes.set k l.signalStop }, some (.closing drain (k + 1)), none)
    | none => some (x, some (.joining drain 0), none)
  | .joining drain k =>
    match x.lanes[k]? with
    | some l =>
      if l.worker.finished then
        some ({ x with lanes := x.lanes.set k l.join }, some (.joining drain (k + 1)), none)
      else none
    | none =>
      let lanes := if drain then x.lanes else x.lanes.map (Lane.replaceQueue x.queueCapacity)
      some ({ x with lanes }, none, none)

/-- The entry of `stop_lanes_`, with its early return. -/
def enterStop (x : SinkCrossbar α) (drain : Bool) :
    SinkCrossbar α × Option (CrossbarPhase α) :=
  if !x.running && x.lanes.isEmpty then (x, none)
  else (x.beginStop drain, some (.closing drain 0))

/-- A step of the worker of lane `i`, with the event it hands to `process_` and what that writes. -/
def workProcess (x : SinkCrossbar Event) (i : Nat) (act : WorkerAct) :
    Option (SinkCrossbar Event × Option Event × List Output) :=
  (x.lanes[i]?).bind fun l =>
    (l.work act).map fun (l', out) =>
      match out with
      | none => ({ x with lanes := x.lanes.set i l' }, none, [])
      | some e =>
        let (buffer, written) := process l.route i e l.buffer
        ({ x with lanes := x.lanes.set i { l' with buffer } }, some e, written)

/-- What lane `i` has accepted and not yet given to `process_`. -/
def pendingAt (x : SinkCrossbar α) (i : Nat) : List α := ((x.lanes[i]?).map Lane.pending).getD []

end SinkCrossbar

/-! ## The history of a crossbar -/

/-- What the lanes accepted and processed, lane by lane, and what was written for which event. -/
structure History where
  accepted : Nat → List Event := fun _ => []
  processed : Nat → List Event := fun _ => []
  trace : List (Event × Output) := []

namespace History

def accept (h : History) : Option (Nat × Event) → History
  | none => h
  | some (i, e) => { h with accepted := Function.update h.accepted i (h.accepted i ++ [e]) }

/-- The worker of lane `i` has taken a step. -/
def work (h : History) (i : Nat) : Option Event → List Output → History
  | none, _ => h
  | some e, written =>
    { h with processed := Function.update h.processed i (h.processed i ++ [e])
             trace := h.trace ++ written.map (e, ·) }

end History

/-- The push of a round, seen from lane `j`. -/
def pushedAt (push : Option (Nat × α)) (j : Nat) : List α :=
  match push with
  | none => []
  | some (i, e) => if j = i then [e] else []

namespace History

theorem accept_accepted (h : History) (push : Option (Nat × Event)) (j : Nat) :
    (h.accept push).accepted j = h.accepted j ++ pushedAt push j := by
  cases push with
  | none => simp [accept, pushedAt]
  | some p =>
      by_cases hj : j = p.1
      · subst hj
        simp [accept, pushedAt]
      · simp [accept, pushedAt, hj]

@[simp] theorem accept_processed (h : History) (push : Option (Nat × Event)) :
    (h.accept push).processed = h.processed := by
  cases push <;> rfl

@[simp] theorem accept_trace (h : History) (push : Option (Nat × Event)) :
    (h.accept push).trace = h.trace := by
  cases push <;> rfl

@[simp] theorem work_accepted (h : History) (i : Nat) (out : Option Event)
    (written : List Output) : (h.work i out written).accepted = h.accepted := by
  cases out <;> rfl

theorem work_processed (h : History) (i : Nat) (out : Option Event) (written : List Output)
    (j : Nat) :
    (h.work i out written).processed j
      = h.processed j ++ (if j = i then out.toList else []) := by
  cases out with
  | none => simp [work]
  | some e =>
      by_cases hj : j = i
      · subst hj
        simp [work]
      · simp [work, hj]

end History

/-! ## What a round can do -/

namespace SinkCrossbar

/-- The rounds of the calling thread, by the phase they are taken in. -/
inductive CrossbarStep (x : SinkCrossbar α) (accepting : Bool) :
    CrossbarPhase α → SinkCrossbar α → Option (CrossbarPhase α) → Option (Nat × α) → Prop
  | deliver (e : α) (mask : RouteMask) (i : Nat) (l l' : Lane α) (ok : Bool)
      (hl : x.lanes[i]? = some l) (hi : i < 64) (hsel : selects mask i = true)
      (hsub : l.submit e accepting = some (l', ok)) :
      CrossbarStep x accepting (.submitting e mask i) { x with lanes := x.lanes.set i l' }
        (some (.submitting e mask (i + 1))) (if ok then some (i, e) else none)
  | skip (e : α) (mask : RouteMask) (i : Nat) (hsel : selects mask i = false) :
      CrossbarStep x accepting (.submitting e mask i) x (some (.submitting e mask (i + 1))) none
  | submitted (e : α) (mask : RouteMask) (i : Nat) (hi : x.lanes.length ≤ i ∨ 64 ≤ i) :
      CrossbarStep x accepting (.submitting e mask i) x none none
  | signal (drain : Bool) (k : Nat) (l : Lane α) (hl : x.lanes[k]? = some l) :
      CrossbarStep x accepting (.closing drain k)
        { x with lanes := x.lanes.set k l.signalStop } (some (.closing drain (k + 1))) none
  | signalled (drain : Bool) (k : Nat) (hk : x.lanes.length ≤ k) :
      CrossbarStep x accepting (.closing drain k) x (some (.joining drain 0)) none
  | join (drain : Bool) (k : Nat) (l : Lane α) (hl : x.lanes[k]? = some l)
      (hfin : l.worker.finished = true) :
      CrossbarStep x accepting (.joining drain k) { x with lanes := x.lanes.set k l.join }
        (some (.joining drain (k + 1))) none
  | joined (drain : Bool) (k : Nat) (hk : x.lanes.length ≤ k) :
      CrossbarStep x accepting (.joining drain k)
        { x with lanes := if drain then x.lanes
                          else x.lanes.map (Lane.replaceQueue x.queueCapacity) } none none

theorem crossbarStep_of_advance {x x' : SinkCrossbar α} {accepting : Bool}
    {phase : CrossbarPhase α} {phase' : Option (CrossbarPhase α)} {push : Option (Nat × α)}
    (h : x.advance accepting phase = some (x', phase', push)) :
    CrossbarStep x accepting phase x' phase' push := by
  cases phase with
  | submitting e mask i =>
      simp only [advance] at h
      split at h
      · next hnone =>
          simp only [Option.some.injEq, Prod.mk.injEq] at h
          obtain ⟨rfl, rfl, rfl⟩ := h
          exact .submitted e mask i (Or.inl (List.getElem?_eq_none_iff.1 hnone))
      · next hsome =>
          by_cases hi : i < 64
          · rw [if_pos hi] at h
            cases hsel : selects mask i with
            | true =>
                rw [hsel, if_pos rfl] at h
                obtain ⟨⟨x₁, ok⟩, hdel, heq⟩ := Option.map_eq_some_iff.1 h
                simp only [Prod.mk.injEq] at heq
                obtain ⟨rfl, rfl, rfl⟩ := heq
                obtain ⟨l, l', hl, hsub, rfl⟩ := deliverLane_cases hdel
                exact .deliver e mask i l l' ok hl hi hsel hsub
            | false =>
                rw [hsel, if_neg (by simp)] at h
                simp only [Option.some.injEq, Prod.mk.injEq] at h
                obtain ⟨rfl, rfl, rfl⟩ := h
                exact .skip e mask i hsel
          · rw [if_neg hi] at h
            simp only [Option.some.injEq, Prod.mk.injEq] at h
            obtain ⟨rfl, rfl, rfl⟩ := h
            exact .submitted e mask i (Or.inr (Nat.not_lt.1 hi))
  | closing drain k =>
      simp only [advance] at h
      split at h
      · next l hl =>
          simp only [Option.some.injEq, Prod.mk.injEq] at h
          obtain ⟨rfl, rfl, rfl⟩ := h
          exact .signal drain k l hl
      · next hnone =>
          simp only [Option.some.injEq, Prod.mk.injEq] at h
          obtain ⟨rfl, rfl, rfl⟩ := h
          exact .signalled drain k (List.getElem?_eq_none_iff.1 hnone)
  | joining drain k =>
      simp only [advance] at h
      split at h
      · next l hl =>
          split at h
          · next hfin =>
              simp only [Option.some.injEq, Prod.mk.injEq] at h
              obtain ⟨rfl, rfl, rfl⟩ := h
              exact .join drain k l hl hfin
          · exact absurd h (by simp)
      · next hnone =>
          simp only [Option.some.injEq, Prod.mk.injEq] at h
          obtain ⟨rfl, rfl, rfl⟩ := h
          exact .joined drain k (List.getElem?_eq_none_iff.1 hnone)

theorem workProcess_cases {x x' : SinkCrossbar Event} {i : Nat} {act : WorkerAct}
    {out : Option Event} {written : List Output}
    (h : x.workProcess i act = some (x', out, written)) :
    ∃ (l l' : Lane Event) (buffer : Bytes), x.lanes[i]? = some l ∧ Lane.WorkStep l l' out ∧
      x' = { x with lanes := x.lanes.set i { l' with buffer } } ∧
      written = out.toList.flatMap (l.route.outputs i) := by
  obtain ⟨l, hl, hwork⟩ := Option.bind_eq_some_iff.1 h
  obtain ⟨⟨l', out'⟩, hstep, heq⟩ := Option.map_eq_some_iff.1 hwork
  have hlane := Lane.workStep_of_work hstep
  cases out' with
  | none =>
      simp only [Prod.mk.injEq] at heq
      obtain ⟨rfl, rfl, rfl⟩ := heq
      exact ⟨l, l', l'.buffer, hl, hlane, rfl, rfl⟩
  | some e =>
      simp only [Prod.mk.injEq] at heq
      obtain ⟨rfl, rfl, rfl⟩ := heq
      refine ⟨l, l', _, hl, hlane, rfl, ?_⟩
      rw [process_outputs]
      simp

/-- A worker step keeps the routes. -/
theorem workProcess_routes {x x' : SinkCrossbar Event} {i : Nat} {act : WorkerAct}
    {out : Option Event} {written : List Output}
    (h : x.workProcess i act = some (x', out, written)) : x'.routes = x.routes := by
  obtain ⟨l, l', buffer, hl, hstep, rfl, -⟩ := workProcess_cases h
  exact routes_set hl hstep.frame.1

/-! ## What is pending -/

theorem pendingAt_set {x : SinkCrossbar α} {i : Nat} {l l' : Lane α} (hl : x.lanes[i]? = some l)
    (j : Nat) :
    SinkCrossbar.pendingAt { x with lanes := x.lanes.set i l' } j
      = if j = i then l'.pending else x.pendingAt j := by
  simp only [pendingAt, getElem?_lanes_set hl]
  split <;> rfl

theorem pendingAt_of_getElem? {x : SinkCrossbar α} {i : Nat} {l : Lane α}
    (hl : x.lanes[i]? = some l) : x.pendingAt i = l.pending := by
  simp [pendingAt, hl]

theorem pendingAt_eq_nil {x : SinkCrossbar α} (h : ∀ l ∈ x.lanes, l.pending = []) (i : Nat) :
    x.pendingAt i = [] := by
  unfold pendingAt
  cases hl : x.lanes[i]? with
  | none => rfl
  | some l => exact h l (List.mem_of_getElem? hl)

/-- A worker step takes what it hands to `process_` from the front of what its lane has pending. -/
theorem workProcess_pendingAt {x x' : SinkCrossbar Event} {i : Nat} {act : WorkerAct}
    {out : Option Event} {written : List Output}
    (h : x.workProcess i act = some (x', out, written)) (j : Nat) :
    x.pendingAt j = (if j = i then out.toList else []) ++ x'.pendingAt j := by
  obtain ⟨l, l', buffer, hl, hstep, rfl, -⟩ := workProcess_cases h
  rw [pendingAt_set hl]
  by_cases hji : j = i
  · subst hji
    rw [if_pos rfl, if_pos rfl, pendingAt_of_getElem? hl]
    exact hstep.pending
  · rw [if_neg hji, if_neg hji, List.nil_append]

theorem pendingAt_map {x : SinkCrossbar α} (f : Lane α → Lane α) (i : Nat) :
    SinkCrossbar.pendingAt { x with lanes := x.lanes.map f } i
      = ((x.lanes[i]?).map (fun l => (f l).pending)).getD [] := by
  simp [pendingAt, List.getElem?_map, Option.map_map, Function.comp_def]

/-- Starting the workers drops nothing but what a worker had in its hands. -/
theorem start_pendingAt_sublist (x : SinkCrossbar α) (i : Nat) :
    (x.start.pendingAt i).Sublist (x.pendingAt i) := by
  cases hrun : x.running with
  | true => simp [SinkCrossbar.start, hrun]
  | false =>
      have hmap := pendingAt_map (x := x) Lane.start i
      have hstart : x.start.pendingAt i
          = ((x.lanes[i]?).map (fun l => l.start.pending)).getD [] := by
        rw [← hmap]
        simp [SinkCrossbar.start, hrun, pendingAt]
      rw [hstart]
      unfold pendingAt
      cases x.lanes[i]? with
      | none => exact List.nil_sublist _
      | some l => simp [Lane.start, Lane.pending, WorkerPhase.inHand]

theorem beginStop_pendingAt (x : SinkCrossbar α) (drain : Bool) (i : Nat) :
    (x.beginStop drain).pendingAt i = x.pendingAt i := by
  unfold pendingAt
  cases hl : x.lanes[i]? <;> simp [beginStop, hl, Lane.pending]

/-- A running crossbar has something to stop. -/
theorem enterStop_of_running {x : SinkCrossbar α} (h : x.running = true) (drain : Bool) :
    x.enterStop drain = (x.beginStop drain, some (.closing drain 0)) := by
  simp [enterStop, h]

theorem beginStop_routes (x : SinkCrossbar α) (drain : Bool) :
    (x.beginStop drain).routes = x.routes := by
  simp [beginStop, SinkCrossbar.routes, List.map_map, Function.comp_def]

/-- Joining a worker that has finished leaves nothing in its hands. -/
theorem lane_join_pending {l : Lane α} (h : l.worker.finished = true) :
    l.join.pending = l.pending := by
  cases hw : l.worker <;>
    simp_all [WorkerPhase.finished, Lane.join, Lane.pending, WorkerPhase.inHand]

/-- A round puts its push behind what is pending and changes nothing else about it, unless it ends a
    stop that does not drain. -/
theorem CrossbarStep.pendingAt {x x' : SinkCrossbar α} {accepting : Bool}
    {phase : CrossbarPhase α} {phase' : Option (CrossbarPhase α)} {push : Option (Nat × α)}
    (h : CrossbarStep x accepting phase x' phase' push)
    (hkeep : phase' = none → ∀ k, phase ≠ .joining false k) (j : Nat) :
    x'.pendingAt j = x.pendingAt j ++ pushedAt push j := by
  cases h with
  | deliver e mask i l l' ok hl hi hsel hsub =>
      rw [pendingAt_set hl, Lane.submit_pending hsub]
      by_cases hji : j = i
      · subst hji
        rw [if_pos rfl, pendingAt_of_getElem? hl]
        cases ok <;> simp [pushedAt]
      · cases ok <;> simp [pushedAt, hji]
  | skip e mask i hsel => simp [pushedAt]
  | submitted e mask i hi => simp [pushedAt]
  | signal drain k l hl =>
      have hpend : l.signalStop.pending = l.pending := rfl
      rw [pendingAt_set hl, hpend]
      by_cases hjk : j = k
      · subst hjk
        simp [pushedAt, pendingAt_of_getElem? hl]
      · simp [pushedAt, hjk]
  | signalled drain k hk => simp [pushedAt]
  | join drain k l hl hfin =>
      rw [pendingAt_set hl, lane_join_pending hfin]
      by_cases hjk : j = k
      · subst hjk
        simp [pushedAt, pendingAt_of_getElem? hl]
      · simp [pushedAt, hjk]
  | joined drain k hk =>
      cases drain with
      | true => simp [pushedAt]
      | false => exact absurd rfl (hkeep rfl k)

/-- Without that exception, a round at most drops what is pending. -/
theorem CrossbarStep.pendingAt_sublist {x x' : SinkCrossbar α} {accepting : Bool}
    {phase : CrossbarPhase α} {phase' : Option (CrossbarPhase α)} {push : Option (Nat × α)}
    (h : CrossbarStep x accepting phase x' phase' push) (j : Nat) :
    (x'.pendingAt j).Sublist (x.pendingAt j ++ pushedAt push j) := by
  by_cases hkeep : phase' = none → ∀ k, phase ≠ .joining false k
  · have hj := h.pendingAt hkeep j
    exact hj ▸ List.Sublist.refl _
  · simp only [ne_eq, not_forall, not_not] at hkeep
    obtain ⟨hnone, k, rfl⟩ := hkeep
    cases h with
    | join drain k l hl hfin => exact absurd hnone (by simp)
    | joined drain k hk =>
        -- the queues are replaced
        have hnew := pendingAt_map (x := x) (Lane.replaceQueue x.queueCapacity) j
        simp only [Bool.false_eq_true, if_false, pushedAt, List.append_nil, hnew]
        cases hl : x.lanes[j]? with
        | none => exact List.nil_sublist _
        | some l =>
            rw [pendingAt_of_getElem? hl]
            simp [Lane.pending, Lane.replaceQueue, WorkersEventQueue.new]

theorem CrossbarStep.running {x x' : SinkCrossbar α} {accepting : Bool} {phase : CrossbarPhase α}
    {phase' : Option (CrossbarPhase α)} {push : Option (Nat × α)}
    (h : CrossbarStep x accepting phase x' phase' push) : x'.running = x.running := by
  cases h <;> rfl

/-- A round keeps the routes. -/
theorem CrossbarStep.routes {x x' : SinkCrossbar α} {accepting : Bool} {phase : CrossbarPhase α}
    {phase' : Option (CrossbarPhase α)} {push : Option (Nat × α)}
    (h : CrossbarStep x accepting phase x' phase' push) : x'.routes = x.routes := by
  cases h with
  | deliver e mask i l l' ok hl hi hsel hsub =>
      obtain ⟨q, rfl, -⟩ := Lane.submit_frame hsub
      exact routes_set hl rfl
  | skip e mask i hsel => rfl
  | submitted e mask i hi => rfl
  | signal drain k l hl => exact routes_set hl rfl
  | signalled drain k hk => rfl
  | join drain k l hl hfin => exact routes_set hl rfl
  | joined drain k hk =>
      cases drain <;>
        simp [SinkCrossbar.routes, List.map_map, Function.comp_def, Lane.replaceQueue]

end SinkCrossbar

/-! ## What the lanes look like between two rounds -/

/-- A lane that has not been started. -/
structure Lane.Resting (l : Lane α) : Prop where
  queue_open : l.queue.queue.closed = false
  not_stopped : l.stopRequested = false
  unstarted : l.worker = .unstarted

/-- A lane while `stop_lanes_` is at work: what is left in it will be drained by its worker, unless
    the stop does not drain. -/
structure Lane.Stopping (drain : Bool) (l : Lane α) : Prop where
  wellFormed : l.WellFormed
  flag : l.drainOnStop = drain
  kept : l.worker.joinable = true ∨ drain = false ∨ l.pending = []

/-- What lane `j` looks like in a phase of the calling thread (`none` outside of a call). -/
def LaneFits (running : Bool) (phase : Option (CrossbarPhase α)) (j : Nat) (l : Lane α) : Prop :=
  match phase with
  | none | some (.submitting _ _ _) => if running then l.Live else l.Resting
  | some (.closing drain k) => l.Stopping drain ∧ (j < k → l.queue.queue.closed = true)
  | some (.joining drain k) =>
    l.Stopping drain ∧ l.queue.queue.closed = true ∧ (j < k → l.worker = .unstarted)

def SinkCrossbar.Fits (x : SinkCrossbar α) (phase : Option (CrossbarPhase α)) : Prop :=
  ∀ j l, x.lanes[j]? = some l → LaneFits x.running phase j l

theorem Lane.Live.wellFormed {l : Lane α} (h : l.Live) : l.WellFormed := by
  have hserving := h.serving
  refine ⟨fun hs => absurd (hs.symm.trans h.not_stopped) (by simp), fun he => ?_, fun hx => ?_⟩
  · cases hw : l.worker with
    | releasing e d => cases d <;> simp_all [WorkerPhase.serving, WorkerPhase.ending]
    | notifying e d => cases d <;> simp_all [WorkerPhase.serving, WorkerPhase.ending]
    | processing e d => cases d <;> simp_all [WorkerPhase.serving, WorkerPhase.ending]
    | _ => simp_all [WorkerPhase.serving, WorkerPhase.ending]
  · simp [hx, WorkerPhase.serving] at hserving

theorem Lane.Live.joinable {l : Lane α} (h : l.Live) : l.worker.joinable = true := by
  have hserving := h.serving
  cases hw : l.worker <;> simp_all [WorkerPhase.serving, WorkerPhase.joinable]

theorem Lane.Resting.wellFormed {l : Lane α} (h : l.Resting) : l.WellFormed :=
  ⟨fun hs => absurd (hs.symm.trans h.not_stopped) (by simp),
    fun he => absurd he (by simp [h.unstarted, WorkerPhase.ending]),
    fun hx => absurd (hx.symm.trans h.unstarted) (by simp)⟩

theorem Lane.Stopping.work {l l' : Lane α} {out : Option α} {drain : Bool} (h : l.Stopping drain)
    (hs : Lane.WorkStep l l' out) : l'.Stopping drain :=
  ⟨hs.wellFormed h.wellFormed, hs.frame.2.2.2.2.1.trans h.flag, Or.inl hs.joinable.2⟩

/-- A lane may be replaced by one that is in the same condition. -/
theorem LaneFits.imp {running : Bool} {phase : Option (CrossbarPhase α)} {j : Nat} {l l' : Lane α}
    (h : LaneFits running phase j l) (hlive : l.Live → l'.Live) (hrest : l.Resting → l'.Resting)
    (hstop : ∀ drain, l.Stopping drain → l'.Stopping drain)
    (hclosed : l'.queue.queue.closed = l.queue.queue.closed)
    (hworker : l.worker = .unstarted → l'.worker = .unstarted) : LaneFits running phase j l' := by
  have hcalm : (if running = true then l.Live else l.Resting) →
      if running = true then l'.Live else l'.Resting := by
    intro hfit
    cases running with
    | true => exact hlive hfit
    | false => exact hrest hfit
  cases phase with
  | none => exact hcalm h
  | some phase =>
      cases phase with
      | submitting e mask i => exact hcalm h
      | closing drain k => exact ⟨hstop drain h.1, fun hj => hclosed.trans (h.2 hj)⟩
      | joining drain k =>
          exact ⟨hstop drain h.1, hclosed.trans h.2.1, fun hj => hworker (h.2.2 hj)⟩

/-- The worker of a lane keeps what the calling thread relies on. -/
theorem LaneFits.work {running : Bool} {phase : Option (CrossbarPhase α)} {j : Nat}
    {l l' : Lane α} {out : Option α} (h : LaneFits running phase j l)
    (hs : Lane.WorkStep l l' out) : LaneFits running phase j l' := by
  have hstarted : l.worker ≠ .unstarted := by
    intro hw
    have hjoin := hs.joinable.1
    simp [hw, WorkerPhase.joinable] at hjoin
  exact h.imp hs.live (fun hr => absurd hr.unstarted hstarted) (fun _ hstop => hstop.work hs)
    hs.frame.2.1 (fun hw => absurd hw hstarted)

theorem LaneFits.setBuffer {running : Bool} {phase : Option (CrossbarPhase α)} {j : Nat}
    {l : Lane α} (h : LaneFits running phase j l) (buffer : Bytes) :
    LaneFits running phase j { l with buffer } := by
  refine h.imp (fun hl => ⟨hl.queue_open, hl.not_stopped, hl.serving⟩)
    (fun hr => ⟨hr.queue_open, hr.not_stopped, hr.unstarted⟩) (fun drain hs => ?_) rfl id
  obtain ⟨⟨hstop, hending, hexit⟩, hflag, hkept⟩ := hs
  exact ⟨⟨hstop, hending, hexit⟩, hflag, hkept⟩

/-- Elements may come to an open queue that has a worker, and slots may come and go. -/
theorem LaneFits.feed {running : Bool} {phase : Option (CrossbarPhase α)} {j : Nat} {l : Lane α}
    (h : LaneFits running phase j l) {q : WorkersEventQueue α}
    (hclosed : q.queue.closed = l.queue.queue.closed)
    (hitems : q.queue.items = l.queue.queue.items ∨
      l.queue.queue.closed = false ∧ l.worker.joinable = true) :
    LaneFits running phase j { l with queue := q } := by
  refine h.imp (fun hl => ⟨hclosed.trans hl.queue_open, hl.not_stopped, hl.serving⟩)
    (fun hr => ⟨hclosed.trans hr.queue_open, hr.not_stopped, hr.unstarted⟩) (fun drain hs => ?_)
    hclosed id
  obtain ⟨⟨hstop, hending, hexit⟩, hflag, hkept⟩ := hs
  -- a worker leaves its loop only on a closed queue
  have hopen : l.queue.queue.closed = false → l.worker ≠ .exited := by
    intro hopen hw
    exact absurd (hopen.symm.trans (hending (by rw [hw]; rfl))) (by simp)
  refine ⟨⟨fun hr => hclosed.trans (hstop hr), fun he => hclosed.trans (hending he),
    fun hx hd => ?_⟩, hflag, ?_⟩
  · rcases hitems with hsame | ⟨ho, -⟩
    · exact hsame.trans (hexit hx hd)
    · exact absurd hx (hopen ho)
  · rcases hitems with hsame | ⟨-, hjoin⟩
    · have hpend : Lane.pending { l with queue := q } = l.pending := by simp [Lane.pending, hsame]
      rw [hpend]
      exact hkept
    · exact Or.inl hjoin

namespace SinkCrossbar

/-- Replacing a lane by one that fits, when the others fit the next phase as well. -/
theorem Fits.set {x : SinkCrossbar α} {phase phase' : Option (CrossbarPhase α)} {i : Nat}
    {l l' : Lane α} (h : x.Fits phase) (hl : x.lanes[i]? = some l)
    (hself : LaneFits x.running phase' i l')
    (hothers : ∀ j m, j ≠ i → LaneFits x.running phase j m → LaneFits x.running phase' j m) :
    SinkCrossbar.Fits { x with lanes := x.lanes.set i l' } phase' := by
  intro j m hm
  simp only [getElem?_lanes_set hl] at hm
  split at hm
  · next hji =>
      obtain rfl := Option.some.inj hm
      exact hji ▸ hself
  · next hji => exact hothers j m hji (h j m hm)

theorem Fits.workProcess {x x' : SinkCrossbar Event} {phase : Option (CrossbarPhase Event)}
    {i : Nat} {act : WorkerAct} {out : Option Event} {written : List Output} (h : x.Fits phase)
    (hw : x.workProcess i act = some (x', out, written)) : x'.Fits phase := by
  obtain ⟨l, l', buffer, hl, hstep, rfl, -⟩ := workProcess_cases hw
  exact h.set hl (((h i l hl).work hstep).setBuffer buffer) (fun _ _ _ hm => hm)

/-- A round of `submit` leaves the lanes as they should be, within the call and after it. -/
theorem CrossbarStep.fits_submitting {x x' : SinkCrossbar α} {accepting : Bool} {e : α}
    {mask : RouteMask} {i : Nat} {phase' : Option (CrossbarPhase α)} {push : Option (Nat × α)}
    (h : CrossbarStep x accepting (.submitting e mask i) x' phase' push)
    (hx : x.Fits (some (.submitting e mask i))) : x'.Fits phase' := by
  cases h with
  | deliver _ _ _ l l' ok hl hi hsel hsub =>
      obtain ⟨q, rfl, hclosed⟩ := Lane.submit_frame hsub
      refine hx.set hl ?_ (fun _ _ _ hm => hm)
      have hfit : if x.running = true then l.Live else l.Resting := hx i l hl
      show if x.running = true then Lane.Live _ else Lane.Resting _
      split at hfit
      · next hrun =>
          rw [if_pos hrun]
          exact ⟨hclosed.trans hfit.queue_open, hfit.not_stopped, hfit.serving⟩
      · next hrun =>
          rw [if_neg hrun]
          exact ⟨hclosed.trans hfit.queue_open, hfit.not_stopped, hfit.unstarted⟩
  | skip _ _ _ hsel => exact hx
  | submitted _ _ _ hi => exact hx

/-- A round of `stop_lanes_` leaves the lanes as the next round expects them. -/
theorem CrossbarStep.fits_stopping {x x' : SinkCrossbar α} {accepting : Bool}
    {phase next : CrossbarPhase α} {push : Option (Nat × α)}
    (h : CrossbarStep x accepting phase x' (some next) push) (hx : x.Fits (some phase)) :
    x'.Fits (some next) := by
  cases h with
  | deliver e mask i l l' ok hl hi hsel hsub =>
      exact CrossbarStep.fits_submitting (.deliver e mask i l l' ok hl hi hsel hsub) hx
  | skip e mask i hsel => exact hx
  | signal drain k l hl =>
      obtain ⟨⟨hwf, hflag, hkept⟩, -⟩ := hx k l hl
      refine hx.set hl ⟨⟨⟨fun _ => rfl, fun _ => rfl, hwf.exited_drained⟩, hflag, hkept⟩,
        fun _ => rfl⟩ (fun j m hjk hm => ⟨hm.1, fun hj => hm.2 (by omega)⟩)
  | signalled drain k hk =>
      intro j l hl
      obtain ⟨hstop, hclosed⟩ := hx j l hl
      obtain ⟨hj, -⟩ := List.getElem?_eq_some_iff.1 hl
      exact ⟨hstop, hclosed (by omega), fun h0 => absurd h0 (by omega)⟩
  | join drain k l hl hfin =>
      obtain ⟨⟨hwf, hflag, hkept⟩, hclosed, -⟩ := hx k l hl
      have hjoined : l.join.WellFormed :=
        ⟨hwf.stop_closed, fun he => by simp [Lane.join, WorkerPhase.ending] at he,
          fun hw => by simp [Lane.join] at hw⟩
      have hleft : drain = false ∨ l.join.pending = [] := by
        rw [lane_join_pending hfin]
        rcases hkept with hjoin | hkept
        · cases drain with
          | false => exact Or.inl rfl
          | true =>
              -- the worker drained before it exited
              have hexited : l.worker = .exited := by
                cases hw : l.worker <;> simp_all [WorkerPhase.finished, WorkerPhase.joinable]
              exact Or.inr (hwf.pending_of_exited hexited hflag)
        · exact hkept
      refine hx.set hl ⟨⟨hjoined, hflag, Or.inr hleft⟩, hclosed, fun _ => rfl⟩
        (fun j m hjk hm => ⟨hm.1, hm.2.1, fun hj => hm.2.2 (by omega)⟩)

/-- When a draining stop returns, nothing is pending. -/
theorem CrossbarStep.pending_of_joined {x x' : SinkCrossbar α} {accepting : Bool} {k : Nat}
    {push : Option (Nat × α)} (h : CrossbarStep x accepting (.joining true k) x' none push)
    (hx : x.Fits (some (.joining true k))) : ∀ l ∈ x'.lanes, l.pending = [] := by
  cases h with
  | joined _ _ hk =>
      intro l hl
      obtain ⟨j, hj⟩ := List.mem_iff_getElem?.1 (show l ∈ x.lanes from hl)
      obtain ⟨hstop, -, hdone⟩ := hx j l hj
      obtain ⟨hlt, -⟩ := List.getElem?_eq_some_iff.1 hj
      have hworker := hdone (by omega)
      -- the lane has been joined, and the stop drains
      rcases hstop.kept with hjoin | hdrain | hpend
      · simp [hworker, WorkerPhase.joinable] at hjoin
      · exact absurd hdrain (by simp)
      · exact hpend

/-- A draining stop loses nothing if the workers run or nothing is pending. -/
theorem Fits.beginStop {x : SinkCrossbar α} {drain : Bool} (h : x.Fits none)
    (hkept : x.running = true ∨ drain = false ∨ ∀ l ∈ x.lanes, l.pending = []) :
    (x.beginStop drain).Fits (some (.closing drain 0)) := by
  intro j l hl
  obtain ⟨m, hm, rfl⟩ : ∃ m, x.lanes[j]? = some m ∧ { m with drainOnStop := drain } = l := by
    simpa [SinkCrossbar.beginStop, List.getElem?_map] using hl
  have hfit : if x.running = true then m.Live else m.Resting := h j m hm
  refine ⟨?_, fun hj => absurd hj (by omega)⟩
  split at hfit
  · exact ⟨⟨hfit.wellFormed.stop_closed, hfit.wellFormed.ending_closed, fun hx =>
        absurd (show m.worker = .exited from hx) (by
          intro he
          have hserving := hfit.serving
          simp [he, WorkerPhase.serving] at hserving)⟩, rfl, Or.inl hfit.joinable⟩
  · next hrun =>
      refine ⟨⟨hfit.wellFormed.stop_closed, hfit.wellFormed.ending_closed, fun hx =>
        absurd ((show m.worker = .exited from hx).symm.trans hfit.unstarted) (by simp)⟩, rfl,
        Or.inr ?_⟩
      rcases hkept with hr | hd | hp
      · exact absurd hr hrun
      · exact Or.inl hd
      · exact Or.inr (hp m (List.mem_of_getElem? hm))

theorem Fits.start {x : SinkCrossbar α} (h : x.Fits none) : x.start.Fits none := by
  unfold SinkCrossbar.start
  cases hrun : x.running with
  | true => exact h
  | false =>
      intro j l hl
      obtain ⟨m, hm, rfl⟩ : ∃ m, x.lanes[j]? = some m ∧ m.start = l := by
        simpa [List.getElem?_map] using hl
      have hfit : if x.running = true then m.Live else m.Resting := h j m hm
      rw [hrun, if_neg (by simp)] at hfit
      exact ⟨hfit.queue_open, rfl, rfl⟩

theorem rebuild_fits (x : SinkCrossbar α) (restart : Bool) (rs : List Route) (cap : UInt64)
    (hrun : restart = false → x.running = false) : (x.rebuild restart rs cap).Fits none := by
  intro j l hl
  cases restart with
  | false =>
      obtain ⟨r, -, rfl⟩ : ∃ r, rs[j]? = some r ∧ Lane.fresh r (max cap 1) = l := by
        simpa [rebuild, List.getElem?_map] using hl
      show if x.running = true then Lane.Live _ else Lane.Resting _
      rw [hrun rfl, if_neg (by simp)]
      exact ⟨rfl, rfl, rfl⟩
  | true =>
      obtain ⟨r, -, rfl⟩ : ∃ r, rs[j]? = some r ∧ (Lane.fresh r (max cap 1)).start = l := by
        simpa [rebuild, List.getElem?_map] using hl
      exact ⟨rfl, rfl, rfl⟩

end SinkCrossbar

end SyLog
