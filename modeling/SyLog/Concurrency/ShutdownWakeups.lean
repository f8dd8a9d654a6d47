import SyLog.Concurrency.WaitingProducers

set_option autoImplicit false

/-! # Shutdown and blocked producers

`close` and `request_stop` clear `accepting`, close the queues of the lanes that the crossbar has
and wake whoever sleeps on them. A producer that sleeps on another queue is not woken: an
`add_route` or `clear_routes` on a crossbar that does not run, or a `configure`, has put other lanes
in the place of the ones it waits for, without closing them. And a `start` or `configure` that sets
`accepting` again while a shutdown is under way lets producers go to sleep behind it.

Without these two, nobody is asleep when a shutdown has returned (`shutdown_wakes_all`). The
invariant `Reached` says of each sleeping producer who is going to wake it, once `accepting` is
off. -/

namespace SyLog

namespace WaitState

/-- Thread `t` sleeps on the queue `q`. -/
def AsleepOn (s : WaitState) (t : Nat) (q : QueueRef) : Prop := (s.producers t).sleepsOn = some q

/-- The queue is that of a lane which the pipeline's crossbar has. -/
def Owns (s : WaitState) (q : QueueRef) : Prop :=
  q.vector = s.vector ∧ q.version = s.version s.vector ∧
    q.lane < s.pipeline.crossbar.lanes.length

/-- A `close` or `request_stop` has returned, no lifecycle call is in flight and none has run
    since. -/
def IsShutDown (s : WaitState) : Prop := s.shutDown = true ∧ ∀ t, s.calls t = .idle

/-- The step enters the `stop_lanes_` of a shutdown. -/
def stopsLanes (s : WaitState) : WaitStep → Bool
  | .advance t =>
    match s.calls t, s.stopping with
    | .stopping _, none => true
    | _, _ => false
  | _ => false

/-- The step is the last of a shutdown. -/
def returns (s : WaitState) : WaitStep → Bool
  | .advance t =>
    match s.calls t with
    | .installing false _ => true
    | _ => false
  | _ => false

/-- A shutdown stops the lanes only when nobody sleeps on a queue of others, and it returns only
    when `accepting` is still off. -/
structure ShutsDownCleanly (s : WaitState) (l : WaitStep) : Prop where
  reaches : s.stopsLanes l = true → ∀ t q, s.AsleepOn t q → s.Owns q
  refuses : s.returns l = true → s.pipeline.accepting = false

/-! ## Steps of producers and workers -/

/-- A step that changes nothing for the lifecycle calls, and puts a thread to sleep only while
    `accepting` is set. -/
structure Quiet (s s' : WaitState) : Prop where
  accepting : s'.pipeline.accepting = s.pipeline.accepting
  calls : s'.calls = s.calls
  stopping : s'.stopping = s.stopping
  shutDown : s'.shutDown = s.shutDown
  owns : ∀ q, s.Owns q → s'.Owns q
  asleep : ∀ t q, s'.AsleepOn t q → s.AsleepOn t q ∨ s.pipeline.accepting = true

variable {s s' : WaitState}

/-- The return of a shutdown stops no lanes. -/
theorem shutsDownCleanly_of_returns {l : WaitStep} (hreturns : s.returns l = true)
    (hacc : s.pipeline.accepting = false) : s.ShutsDownCleanly l := by
  refine ⟨fun hstops => ?_, fun _ => hacc⟩
  unfold returns at hreturns
  unfold stopsLanes at hstops
  split at hstops
  · split at hstops
    · next hcall _ => simp [hcall] at hreturns
    · exact absurd hstops (by simp)
  · exact absurd hstops (by simp)

theorem Quiet.refl (s : WaitState) : Quiet s s :=
  ⟨rfl, rfl, rfl, rfl, fun _ => id, fun _ _ => Or.inl⟩

theorem Quiet.trans {s'' : WaitState} (h : Quiet s s') (h' : Quiet s' s'') : Quiet s s'' := by
  refine ⟨h'.accepting.trans h.accepting, h'.calls.trans h.calls, h'.stopping.trans h.stopping,
    h'.shutDown.trans h.shutDown, fun q hq => h'.owns q (h.owns q hq), fun t q hq => ?_⟩
  rcases h'.asleep t q hq with hq | hacc
  · exact h.asleep t q hq
  · exact Or.inr (h.accepting ▸ hacc)

/-- A thread moves to a phase in which it does not sleep, or goes to sleep while `accepting` is
    set. -/
theorem quiet_setProducer (s : WaitState) (t : Nat) {phase : DeliverPhase}
    (h : phase.sleepsOn = none ∨ s.pipeline.accepting = true) :
    Quiet s (s.setProducer t phase) := by
  refine ⟨rfl, rfl, rfl, rfl, fun _ => id, fun t' q hq => ?_⟩
  rcases h with hawake | hacc
  · refine Or.inl ?_
    change (Function.update s.producers t phase t').sleepsOn = some q at hq
    by_cases ht : t' = t
    · subst ht
      rw [Function.update_self, hawake] at hq
      exact absurd hq (by simp)
    · rw [Function.update_of_ne ht] at hq
      exact hq
  · exact Or.inr hacc

theorem quiet_setLane (s : WaitState) (vector i : Nat) (l : Lane Event) :
    Quiet s (s.setLane vector i l) := by
  unfold setLane
  split
  · refine ⟨rfl, rfl, rfl, rfl, fun q hq => ⟨hq.1, hq.2.1, ?_⟩, fun _ _ => Or.inl⟩
    show q.lane < (s.pipeline.crossbar.lanes.set i l).length
    rw [List.length_set]
    exact hq.2.2
  · exact ⟨rfl, rfl, rfl, rfl, fun _ => id, fun _ _ => Or.inl⟩

theorem quiet_setQueue (s : WaitState) (l : Lane Event) (q : QueueRef)
    (queue : WorkersEventQueue Event) : Quiet s (s.setQueue l q queue) := by
  unfold setQueue
  split
  · exact quiet_setLane s _ _ _
  · exact ⟨rfl, rfl, rfl, rfl, fun _ => id, fun _ _ => Or.inl⟩

theorem quiet_wake (s : WaitState) (t : Nat) : Quiet s (s.wake t) := by
  have h := quiet_setProducer s t (Or.inl (s.producers t).awoken_sleepsOn)
  exact ⟨h.accepting, h.calls, h.stopping, h.shutDown, h.owns, h.asleep⟩

theorem quiet_notifyOne {q : QueueRef} {picked : Nat} (h : s.notifyOne q picked = some s') :
    Quiet s s' := by
  unfold notifyOne at h
  split at h
  · obtain rfl := Option.some.inj h
    exact .refl s
  · split at h
    · obtain rfl := Option.some.inj h
      exact quiet_wake s picked
    · exact absurd h (by simp)

theorem quiet_deliver {t : Nat} {e : Event} {mask : RouteMask} {l : Lane Event} {q : QueueRef}
    {picked : Nat} {phase : DeliveryPhase}
    (h : s.deliver t e mask l q picked phase = some s') : Quiet s s' := by
  cases phase with
  | entering =>
      obtain rfl := Option.some.inj h
      exact quiet_setProducer s t (Or.inl (by split <;> rfl))
  | reserving =>
      simp only [deliver] at h
      split at h
      · obtain rfl := Option.some.inj h
        exact (quiet_setQueue s l q _).trans (quiet_setProducer _ t (Or.inl rfl))
      · obtain rfl := Option.some.inj h
        exact quiet_setProducer s t (Or.inl (by split <;> rfl))
  | pushing =>
      simp only [deliver] at h
      split at h
      · obtain rfl := Option.some.inj h
        exact (quiet_setQueue s l q _).trans (quiet_setProducer _ t (Or.inl rfl))
      · obtain rfl := Option.some.inj h
        exact quiet_setProducer s t (Or.inl rfl)
  | releasing =>
      obtain rfl := Option.some.inj h
      exact (quiet_setQueue s l q _).trans (quiet_setProducer _ t (Or.inl rfl))
  | notifying => exact (quiet_setProducer s t (Or.inl rfl)).trans (quiet_notifyOne h)
  | checking =>
      simp only [deliver] at h
      split at h
      · obtain rfl := Option.some.inj h
        exact quiet_setProducer s t (Or.inl rfl)
      · next hsleep =>
          -- the predicate is false, so `accepting` is set
          have hacc : s.pipeline.accepting = true := by
            cases hacc : s.pipeline.accepting with
            | true => rfl
            | false => exact absurd (by simp [hacc]) hsleep
          obtain rfl := Option.some.inj h
          have hquiet : Quiet s (s.setProducer t (.inQueue e mask q .asleep)) :=
            quiet_setProducer s t (Or.inr hacc)
          exact ⟨hquiet.accepting, hquiet.calls, hquiet.stopping, hquiet.shutDown, hquiet.owns,
            hquiet.asleep⟩
  | asleep => exact absurd h (by simp [deliver])

theorem quiet_produce {t picked : Nat} (h : s.produce t picked = some s') : Quiet s s' := by
  unfold produce at h
  split at h
  · exact absurd h (by simp)
  · split at h
    · exact absurd h (by simp)
    · obtain rfl := Option.some.inj h
      exact quiet_setProducer s t (Or.inl rfl)
  · obtain rfl := Option.some.inj h
    exact quiet_setProducer s t (Or.inl (by split <;> rfl))
  · obtain rfl := Option.some.inj h
    exact quiet_setProducer s t (Or.inl rfl)
  · split at h
    · obtain rfl := Option.some.inj h
      exact quiet_setProducer s t (Or.inl rfl)
    · split at h
      · split at h
        · obtain rfl := Option.some.inj h
          exact quiet_setProducer s t (Or.inl (by split <;> rfl))
        · obtain rfl := Option.some.inj h
          exact quiet_setProducer s t (Or.inl rfl)
      · obtain rfl := Option.some.inj h
        exact quiet_setProducer s t (Or.inl rfl)
  · obtain ⟨l, -, hdeliver⟩ := Option.bind_eq_some_iff.1 h
    exact quiet_deliver hdeliver

theorem quiet_work {vector i : Nat} {act : WorkerAct} {picked : Nat}
    (h : s.work vector i act picked = some s') : Quiet s s' := by
  obtain ⟨l, -, h⟩ := Option.bind_eq_some_iff.1 h
  obtain ⟨⟨l', out⟩, -, h⟩ := Option.bind_eq_some_iff.1 h
  simp only at h
  split at h
  · exact (quiet_setLane s vector i l').trans (quiet_notifyOne h)
  · obtain rfl := Option.some.inj h
    exact quiet_setLane s vector i l'

/-! ## Who wakes the sleeping producers -/

def NobodySleeps (s : WaitState) : Prop := ∀ t q, ¬ s.AsleepOn t q

/-- Some shutdown is still to enter `stop_lanes_`. -/
def ShutdownAhead (s : WaitState) : Prop :=
  ∃ t drain, s.calls t = .stopping drain ∧ ∀ loop, s.stopping = some loop → loop.thread ≠ t

/-- The thread in `stop_lanes_` has yet to notify all whose queue somebody sleeps on. -/
def ClosingAhead (s : WaitState) : Prop :=
  ∃ loop drain k, s.stopping = some loop ∧ loop.phase = .closing drain k ∧
    ∀ t q, s.AsleepOn t q → s.Owns q ∧ (k ≤ q.lane ∨ loop.owes = some q.lane)

/-- When `accepting` is off, whoever sleeps is going to be woken by a shutdown. -/
def Reached (s : WaitState) : Prop :=
  s.pipeline.accepting = true ∨ s.NobodySleeps ∨ s.ShutdownAhead ∨ s.ClosingAhead

end WaitState

structure ShutdownInv (s : WaitState) : Prop where
  /-- the thread in `stop_lanes_` is in a call that stops the lanes -/
  lock : ∀ loop, s.stopping = some loop →
    (∃ drain, s.calls loop.thread = .stopping drain) ∨
      ∃ routes, s.calls loop.thread = .updating routes
  reached : s.Reached
  returned : s.shutDown = true → s.pipeline.accepting = false

namespace ShutdownInv

variable {s s' : WaitState}

theorem quiet (h : ShutdownInv s) (hq : s.Quiet s') : ShutdownInv s' := by
  refine ⟨?_, ?_, ?_⟩
  · rw [hq.stopping, hq.calls]
    exact h.lock
  · cases hacc : s.pipeline.accepting with
    | true => exact Or.inl (hq.accepting.trans hacc)
    | false =>
        have hasleep : ∀ t q, s'.AsleepOn t q → s.AsleepOn t q := fun t q hs =>
          (hq.asleep t q hs).resolve_right (by simp [hacc])
        rcases h.reached with ha | hnobody | ⟨t, drain, ht, hloop⟩ | ⟨loop, drain, k, hl, hk, hall⟩
        · exact absurd (ha.symm.trans hacc) (by simp)
        · exact Or.inr (Or.inl (fun t q hs => hnobody t q (hasleep t q hs)))
        · refine Or.inr (Or.inr (Or.inl ⟨t, drain, ?_, ?_⟩))
          · rw [hq.calls]
            exact ht
          · rw [hq.stopping]
            exact hloop
        · refine Or.inr (Or.inr (Or.inr
            ⟨loop, drain, k, hq.stopping.trans hl, hk, fun t q hs => ?_⟩))
          obtain ⟨howns, hlane⟩ := hall t q (hasleep t q hs)
          exact ⟨hq.owns q howns, hlane⟩
  · rw [hq.shutDown, hq.accepting]
    exact h.returned

/-- Thread `t`, which is not in `stop_lanes_`, runs a section that wakes nobody. It may clear
    `accepting` if it goes on to stop the lanes. -/
theorem move (h : ShutdownInv s) {t : Nat} (phase : CallPhase)
    (hcalls : s'.calls = Function.update s.calls t phase) (hstopping : s'.stopping = s.stopping)
    (hproducers : s'.producers = s.producers)
    (hself : ∀ drain, s.calls t ≠ .stopping drain)
    (hother : ∀ loop, s.stopping = some loop → loop.thread ≠ t ∧ ∀ q, s.Owns q → s'.Owns q)
    (hacc : s.pipeline.accepting = true →
      s'.pipeline.accepting = true ∨ ∃ drain, phase = .stopping drain)
    (hreturned : s'.shutDown = true → s'.pipeline.accepting = false) : ShutdownInv s' := by
  have hthread : ∀ u, u ≠ t → s'.calls u = s.calls u := fun u hu => by
    rw [hcalls, Function.update_of_ne hu]
  have hasleep : ∀ u q, s'.AsleepOn u q → s.AsleepOn u q := fun u q hs => by
    rw [WaitState.AsleepOn, hproducers] at hs
    exact hs
  refine ⟨fun loop hl => ?_, ?_, hreturned⟩
  · rw [hstopping] at hl
    rw [hthread _ (hother loop hl).1]
    exact h.lock loop hl
  · rcases h.reached with ha | hnobody | ⟨u, drain, hu, hloop⟩ | ⟨loop, drain, k, hl, hk, hall⟩
    · rcases hacc ha with ha' | ⟨drain, hphase⟩
      · exact Or.inl ha'
      · refine Or.inr (Or.inr (Or.inl ⟨t, drain, ?_, fun loop hl => ?_⟩))
        · rw [hcalls, Function.update_self, hphase]
        · exact (hother loop (hstopping ▸ hl)).1
    · exact Or.inr (Or.inl (fun u q hs => hnobody u q (hasleep u q hs)))
    · refine Or.inr (Or.inr (Or.inl ⟨u, drain, ?_, ?_⟩))
      · have hne : u ≠ t := fun he => hself drain (he ▸ hu)
        rw [hthread u hne]
        exact hu
      · rw [hstopping]
        exact hloop
    · refine Or.inr (Or.inr (Or.inr ⟨loop, drain, k, hstopping.trans hl, hk, fun u q hs => ?_⟩))
      obtain ⟨howns, hlane⟩ := hall u q (hasleep u q hs)
      exact ⟨(hother loop hl).2 q howns, hlane⟩

/-- A thread that is in no call which stops the lanes is not in `stop_lanes_`. -/
theorem not_stopping (h : ShutdownInv s) {t : Nat} (hstop : ∀ drain, s.calls t ≠ .stopping drain)
    (hupdate : ∀ routes, s.calls t ≠ .updating routes) {loop : StopLoop}
    (hl : s.stopping = some loop) : loop.thread ≠ t := by
  rintro rfl
  rcases h.lock loop hl with ⟨drain, hd⟩ | ⟨routes, hr⟩
  · exact hstop drain hd
  · exact hupdate routes hr

/-- Thread `t` leaves `stop_lanes_`. -/
theorem afterStop {t : Nat} (hstopping : s.stopping = none)
    (hreached : s.pipeline.accepting = true ∨ s.NobodySleeps ∨
      ∃ u drain, u ≠ t ∧ s.calls u = .stopping drain) : ShutdownInv (s.afterStop t) := by
  have hset : ∀ (a : WaitState) (phase : CallPhase), a.stopping = none → a.calls = s.calls →
      a.producers = s.producers → a.pipeline.accepting = s.pipeline.accepting →
      ShutdownInv (a.setCall t phase) := by
    intro a phase hnone hcalls hproducers hacc
    have hfree : ∀ loop, a.stopping ≠ some loop := fun loop hl =>
      absurd (hnone.symm.trans hl) (by simp)
    refine ⟨fun loop hl => absurd hl (hfree loop), ?_,
      fun h => absurd h (by simp [WaitState.setCall])⟩
    rcases hreached with ha | hnobody | ⟨u, drain, hne, hu⟩
    · exact Or.inl (hacc.trans ha)
    · refine Or.inr (Or.inl (fun u q hs => hnobody u q ?_))
      change (a.producers u).sleepsOn = some q at hs
      rw [hproducers] at hs
      exact hs
    · refine Or.inr (Or.inr (Or.inl ⟨u, drain, ?_, fun loop hl => absurd hl (hfree loop)⟩))
      show Function.update a.calls t phase u = .stopping drain
      rw [Function.update_of_ne hne, hcalls, hu]
  unfold WaitState.afterStop
  split
  · exact hset (s.rebuild true _) .idle hstopping rfl rfl rfl
  · exact hset s .flushing hstopping rfl rfl rfl

/-- Entering `stop_lanes_` for a shutdown: the loop is going to reach each lane that the crossbar
    has. -/
theorem enterStop_shutdown {t : Nat} {drain : Bool} (hcall : s.calls t = .stopping drain)
    (howned : ∀ u q, s.AsleepOn u q → s.Owns q) (hstopping : s.stopping = none) :
    ShutdownInv (s.enterStop t drain) := by
  unfold WaitState.enterStop SinkCrossbar.enterStop
  by_cases hempty : (!s.pipeline.crossbar.running && s.pipeline.crossbar.lanes.isEmpty) = true
  · -- no lanes, so nobody sleeps
    rw [if_pos hempty]
    refine afterStop hstopping (Or.inr (Or.inl (fun u q hs => ?_)))
    have hlane : q.lane < s.pipeline.crossbar.lanes.length := (howned u q hs).2.2
    simp only [Bool.and_eq_true, List.isEmpty_iff] at hempty
    rw [hempty.2] at hlane
    exact Nat.not_lt_zero _ hlane
  · rw [if_neg hempty]
    refine ⟨fun loop hl => ?_, ?_, fun h => absurd h (by simp)⟩
    · obtain rfl := Option.some.inj hl
      exact Or.inl ⟨drain, hcall⟩
    · refine Or.inr (Or.inr (Or.inr
        ⟨_, drain, 0, rfl, rfl, fun u q hs => ⟨?_, Or.inl q.lane.zero_le⟩⟩))
      obtain ⟨hvector, hversion, hlane⟩ := howned u q hs
      refine ⟨hvector, hversion, ?_⟩
      show q.lane < (s.pipeline.crossbar.lanes.map _).length
      rw [List.length_map]
      exact hlane

/-- Entering it for an update of the lanes. -/
theorem enterStop_update (h : ShutdownInv s) {t : Nat} {routes : List Route}
    (hcall : s.calls t = .updating routes) (hstopping : s.stopping = none) :
    ShutdownInv (s.enterStop t true) := by
  have hreached : s.pipeline.accepting = true ∨ s.NobodySleeps ∨
      ∃ u drain, u ≠ t ∧ s.calls u = .stopping drain := by
    rcases h.reached with ha | hnobody | ⟨u, drain, hu, -⟩ | ⟨loop, drain, k, hl, -⟩
    · exact Or.inl ha
    · exact Or.inr (Or.inl hnobody)
    · refine Or.inr (Or.inr ⟨u, drain, ?_, hu⟩)
      rintro rfl
      rw [hcall] at hu
      cases hu
    · exact absurd (hstopping.symm.trans hl) (by simp)
  unfold WaitState.enterStop SinkCrossbar.enterStop
  by_cases hempty : (!s.pipeline.crossbar.running && s.pipeline.crossbar.lanes.isEmpty) = true
  · rw [if_pos hempty]
    exact afterStop hstopping hreached
  · rw [if_neg hempty]
    refine ⟨fun loop hl => ?_, ?_, fun h => absurd h (by simp)⟩
    · obtain rfl := Option.some.inj hl
      exact Or.inr ⟨routes, hcall⟩
    · rcases hreached with ha | hnobody | ⟨u, drain, hne, hu⟩
      · exact Or.inl ha
      · exact Or.inr (Or.inl hnobody)
      · refine Or.inr (Or.inr (Or.inl ⟨u, drain, hu, fun loop hl => ?_⟩))
        obtain rfl := Option.some.inj hl
        exact hne.symm

/-- `cv_space_.notify_all()` on the queue of lane `k`. -/
theorem notifyLane (h : ShutdownInv s) {loop : StopLoop} {k : Nat}
    (hstopping : s.stopping = some loop) (howes : loop.owes = some k) :
    ShutdownInv { s.notifyAll (s.queueRef s.vector k) with
      stopping := some { loop with owes := none }, shutDown := false } := by
  have hasleep : ∀ u q, (s.notifyAll (s.queueRef s.vector k)).AsleepOn u q →
      s.AsleepOn u q ∧ q ≠ s.queueRef s.vector k := by
    intro u q hs
    change (if (s.producers u).sleepsOn = some (s.queueRef s.vector k) then
      (s.producers u).awoken else s.producers u).sleepsOn = some q at hs
    split at hs
    · rw [DeliverPhase.awoken_sleepsOn] at hs
      exact absurd hs (by simp)
    · next hne =>
        refine ⟨hs, ?_⟩
        rintro rfl
        exact hne hs
  refine ⟨fun loop' hl => ?_, ?_, fun h => absurd h (by simp)⟩
  · obtain rfl := Option.some.inj hl
    exact h.lock loop hstopping
  · rcases h.reached with ha | hnobody | ⟨u, drain, hu, hloop⟩ | ⟨loop', drain, k', hl, hk, hall⟩
    · exact Or.inl ha
    · exact Or.inr (Or.inl (fun u q hs => hnobody u q (hasleep u q hs).1))
    · refine Or.inr (Or.inr (Or.inl ⟨u, drain, hu, fun loop' hl => ?_⟩))
      obtain rfl := Option.some.inj hl
      exact hloop loop hstopping
    · obtain rfl := Option.some.inj (hstopping.symm.trans hl)
      refine Or.inr (Or.inr (Or.inr ⟨_, drain, k', rfl, hk, fun u q hs => ?_⟩))
      obtain ⟨hsleeps, hne⟩ := hasleep u q hs
      obtain ⟨howns, hlane⟩ := hall u q hsleeps
      refine ⟨howns, hlane.imp_right (fun hq => absurd ?_ hne)⟩
      -- the lane that was owed a notification is the one that got it
      obtain ⟨hvector, hversion, -⟩ := howns
      obtain rfl : k = q.lane := Option.some.inj (howes.symm.trans hq)
      rw [WaitState.queueRef, ← hversion, ← hvector]

/-- A round after which the thread is still in `stop_lanes_`. -/
theorem round (h : ShutdownInv s) {loop : StopLoop} (hstopping : s.stopping = some loop)
    (loop' : StopLoop) (hthread : loop'.thread = loop.thread) (crossbar : SinkCrossbar Event)
    (hclosing : s.ClosingAhead → s.NobodySleeps ∨
      WaitState.ClosingAhead
        { s.setCrossbar crossbar with stopping := some loop', shutDown := false }) :
    ShutdownInv { s.setCrossbar crossbar with stopping := some loop', shutDown := false } := by
  refine ⟨fun l hl => ?_, ?_, fun h => absurd h (by simp)⟩
  · obtain rfl := Option.some.inj hl
    rw [hthread]
    exact h.lock loop hstopping
  · rcases h.reached with ha | hnobody | ⟨u, drain, hu, hloop⟩ | hclose
    · exact Or.inl ha
    · exact Or.inr (Or.inl hnobody)
    · refine Or.inr (Or.inr (Or.inl ⟨u, drain, hu, fun l hl => ?_⟩))
      obtain rfl := Option.some.inj hl
      rw [hthread]
      exact hloop loop hstopping
    · rcases hclosing hclose with hnobody | hclose'
      · exact Or.inr (Or.inl hnobody)
      · exact Or.inr (Or.inr (Or.inr hclose'))

/-- The thread in `stop_lanes_` is done with it. -/
theorem leave (h : ShutdownInv s) {loop : StopLoop} (hstopping : s.stopping = some loop)
    (hphase : ∀ drain k, loop.phase ≠ .closing drain k) (hnone : s'.stopping = none)
    (hcalls : s'.calls = s.calls) (hproducers : s'.producers = s.producers)
    (hacc : s'.pipeline.accepting = s.pipeline.accepting) :
    ShutdownInv (s'.afterStop loop.thread) := by
  refine afterStop hnone ?_
  rcases h.reached with ha | hnobody | ⟨u, drain, hu, hloop⟩ | ⟨loop', drain, k, hl, hk, -⟩
  · exact Or.inl (hacc.trans ha)
  · refine Or.inr (Or.inl (fun u q hs => hnobody u q ?_))
    rw [WaitState.AsleepOn, hproducers] at hs
    exact hs
  · refine Or.inr (Or.inr ⟨u, drain, (hloop loop hstopping).symm, ?_⟩)
    rw [hcalls]
    exact hu
  · obtain rfl := Option.some.inj (hstopping.symm.trans hl)
    exact absurd hk (hphase drain k)

theorem stopRound (h : ShutdownInv s) {loop : StopLoop} (hstopping : s.stopping = some loop)
    (hround : s.stopRound loop = some s') : ShutdownInv s' := by
  obtain ⟨thread, phase, owes⟩ := loop
  cases owes with
  | some k =>
      obtain rfl := Option.some.inj hround
      exact h.notifyLane hstopping rfl
  | none =>
      obtain ⟨⟨crossbar, phase', push⟩, hadv, rfl⟩ := Option.map_eq_some_iff.1 hround
      -- only a thread in the first loop has anybody left to notify
      have hother : (∀ drain k, phase ≠ .closing drain k) → ¬ s.ClosingAhead := by
        rintro hphase ⟨loop', drain, k, hl, hk, -⟩
        obtain rfl := Option.some.inj (hstopping.symm.trans hl)
        exact hphase drain k hk
      cases SinkCrossbar.crossbarStep_of_advance hadv with
      | signal drain k l hl =>
          have hk : k < s.pipeline.crossbar.lanes.length := (List.getElem?_eq_some_iff.1 hl).1
          refine h.round hstopping
            { thread, phase := .closing drain (k + 1)
              owes := if k < s.pipeline.crossbar.lanes.length then some k else none }
            rfl _ (fun hclose => Or.inr ?_)
          obtain ⟨loop', drain', k', hl', hk', hall⟩ := hclose
          obtain rfl := Option.some.inj (hstopping.symm.trans hl')
          obtain ⟨-, rfl⟩ := CrossbarPhase.closing.inj hk'
          refine ⟨_, drain, k + 1, rfl, rfl, fun u q hs => ?_⟩
          obtain ⟨⟨hvector, hversion, hlane⟩, hreach⟩ := hall u q hs
          refine ⟨⟨hvector, hversion, ?_⟩, ?_⟩
          · show q.lane < (s.pipeline.crossbar.lanes.set k l.signalStop).length
            rw [List.length_set]
            exact hlane
          · -- the lane whose queue is closed now is owed its notification
            rw [if_pos hk]
            rcases hreach with hle | howed
            · rcases Nat.eq_or_lt_of_le hle with rfl | hlt
              · exact Or.inr rfl
              · exact Or.inl hlt
            · exact absurd howed (by simp)
      | signalled drain k hk =>
          refine h.round hstopping
            { thread, phase := .joining drain 0
              owes := if k < s.pipeline.crossbar.lanes.length then some k else none }
            rfl _ (fun hclose => Or.inl ?_)
          obtain ⟨loop', drain', k', hl', hk', hall⟩ := hclose
          obtain rfl := Option.some.inj (hstopping.symm.trans hl')
          obtain ⟨-, rfl⟩ := CrossbarPhase.closing.inj hk'
          intro u q hs
          obtain ⟨⟨-, -, hlane⟩, hreach⟩ := hall u q hs
          rcases hreach with hle | howed
          · omega
          · exact absurd howed (by simp)
      | joined drain k hk =>
          cases drain with
          | true => exact h.leave hstopping (by simp) rfl rfl rfl rfl
          | false => exact h.leave hstopping (by simp) rfl rfl rfl rfl
      | submitted e mask i hi => exact h.leave hstopping (by simp) rfl rfl rfl rfl
      | join drain k l hl hfin =>
          exact h.round hstopping { thread, phase := .joining drain (k + 1) } rfl _
            (fun hclose => absurd hclose (hother (by simp)))
      | deliver e mask i l l' ok hl hi hsel hsub =>
          exact h.round hstopping { thread, phase := .submitting e mask (i + 1) } rfl _
            (fun hclose => absurd hclose (hother (by simp)))
      | skip e mask i hsel =>
          exact h.round hstopping { thread, phase := .submitting e mask (i + 1) } rfl _
            (fun hclose => absurd hclose (hother (by simp)))

/-- A section that does not touch the crossbar, or that runs while nobody is in `stop_lanes_`. -/
theorem plainSection (h : ShutdownInv s) {t : Nat} {pipeline : Pipeline} (phase : CallPhase)
    (hstop : ∀ drain, s.calls t ≠ .stopping drain)
    (hupdate : ∀ routes, s.calls t ≠ .updating routes)
    (hcrossbar : pipeline.crossbar = s.pipeline.crossbar ∨ s.stopping = none)
    (hacc : s.pipeline.accepting = true →
      pipeline.accepting = true ∨ ∃ drain, phase = .stopping drain) :
    ShutdownInv ({ s with pipeline }.setCall t phase) := by
  refine h.move phase rfl rfl rfl hstop (fun loop hl => ⟨h.not_stopping hstop hupdate hl, ?_⟩) hacc
    (fun hs => absurd hs (by simp [WaitState.setCall]))
  intro q hq
  rcases hcrossbar with hcrossbar | hnone
  · refine ⟨hq.1, hq.2.1, ?_⟩
    show q.lane < pipeline.crossbar.lanes.length
    rw [hcrossbar]
    exact hq.2.2
  · exact absurd (hnone.symm.trans hl) (by simp)

/-- What the sections keep that neither stop nor replace the lanes. -/
theorem runSection_frame {p p' : Pipeline} {phase phase' : CallPhase}
    (h : p.runSection phase = some (p', phase')) (hstop : ∀ drain, phase ≠ .stopping drain)
    (hupdate : ∀ routes, phase ≠ .updating routes)
    (hinstall : ∀ reopen routes, phase ≠ .installing reopen routes) :
    (p'.crossbar = p.crossbar ∨ phase = .starting) ∧
      (p.accepting = true → p'.accepting = true ∨ ∃ drain, phase' = .stopping drain) := by
  cases phase with
  | idle => exact absurd h (by simp [Pipeline.runSection])
  | stopping drain => exact absurd rfl (hstop drain)
  | updating routes => exact absurd rfl (hupdate routes)
  | installing reopen routes => exact absurd rfl (hinstall reopen routes)
  | starting =>
      obtain ⟨rfl, -⟩ := Prod.mk.inj (Option.some.inj h)
      exact ⟨Or.inr rfl, fun _ => Or.inl p.start_accepting⟩
  | refusing drain =>
      obtain ⟨rfl, rfl⟩ := Prod.mk.inj (Option.some.inj h)
      exact ⟨Or.inl rfl, fun _ => Or.inr ⟨drain, rfl⟩⟩
  | _ =>
      obtain ⟨rfl, -⟩ := Prod.mk.inj (Option.some.inj h)
      exact ⟨Or.inl rfl, Or.inl⟩

theorem advance (h : ShutdownInv s) {t : Nat} (hok : s.ShutsDownCleanly (.advance t))
    (hstep : s.advance t = some s') : ShutdownInv s' := by
  unfold WaitState.advance at hstep
  split at hstep
  · next drain hcall hstopping =>
      obtain rfl := Option.some.inj hstep
      have hreaches := hok.reaches (by simp [WaitState.stopsLanes, hcall, hstopping])
      exact enterStop_shutdown hcall hreaches hstopping
  · next routes hcall hstopping =>
      obtain rfl := Option.some.inj hstep
      split
      · exact h.enterStop_update hcall hstopping
      · refine h.move .idle rfl rfl rfl (fun drain hd => ?_)
          (fun loop hl => absurd (hstopping.symm.trans hl) (by simp)) Or.inl
          (fun hs => absurd hs (by simp [WaitState.setCall]))
        rw [hcall] at hd
        cases hd
  · next drain loop hcall hstopping =>
      split at hstep
      · exact h.stopRound hstopping hstep
      · exact absurd hstep (by simp)
  · next routes loop hcall hstopping =>
      split at hstep
      · exact h.stopRound hstopping hstep
      · exact absurd hstep (by simp)
  · exact absurd hstep (by simp)
  · exact absurd hstep (by simp)
  · exact absurd hstep (by simp)
  · next reopen snapshot hcall hstopping =>
      obtain ⟨⟨pipeline, phase⟩, hsec, rfl⟩ := Option.map_eq_some_iff.1 hstep
      obtain ⟨rfl, rfl⟩ := Prod.mk.inj (Option.some.inj hsec)
      refine h.move .idle rfl rfl rfl (fun drain hd => ?_)
        (fun loop hl => absurd (hstopping.symm.trans hl) (by simp)) (fun ha => Or.inl ?_) ?_
      · rw [hcall] at hd
        cases hd
      · show (reopen || s.pipeline.accepting) = true
        rw [ha, Bool.or_true]
      · intro hreturned
        cases reopen with
        | true => exact absurd hreturned (by simp)
        | false => exact hok.refuses (by simp [WaitState.returns, hcall])
  · next hstop hupdate hstop' hupdate' hstart hflush hinstall hinstall' =>
      obtain ⟨⟨pipeline, phase⟩, hsec, rfl⟩ := Option.map_eq_some_iff.1 hstep
      have hstops : ∀ drain, s.calls t ≠ .stopping drain := by
        intro drain hd
        cases hl : s.stopping with
        | none => exact hstop drain hd hl
        | some loop => exact hstop' drain loop hd hl
      have hupdates : ∀ routes, s.calls t ≠ .updating routes := by
        intro routes hd
        cases hl : s.stopping with
        | none => exact hupdate routes hd hl
        | some loop => exact hupdate' routes loop hd hl
      have hinstalls : ∀ reopen routes, s.calls t ≠ .installing reopen routes := by
        intro reopen routes hd
        cases hl : s.stopping with
        | none => exact hinstall' reopen routes hd hl
        | some loop => exact hinstall reopen routes loop hd hl
      obtain ⟨hcrossbar, hacc⟩ := runSection_frame hsec hstops hupdates hinstalls
      refine h.plainSection phase hstops hupdates (hcrossbar.imp_right (fun hcall => ?_)) hacc
      cases hl : s.stopping with
      | none => rfl
      | some loop => exact (hstart loop hcall hl).elim

theorem step (h : ShutdownInv s) {l : WaitStep} (hok : s.ShutsDownCleanly l)
    (hstep : waitingProducers.next s l = some s') : ShutdownInv s' := by
  cases l with
  | submit t e mask forceSync =>
      simp only [waitingProducers] at hstep
      split at hstep
      · split at hstep
        · obtain rfl := Option.some.inj hstep
          exact h.quiet (WaitState.quiet_setProducer s t (Or.inl rfl))
        · obtain rfl := Option.some.inj hstep
          exact h
      · exact absurd hstep (by simp)
  | produce t picked => exact h.quiet (WaitState.quiet_produce hstep)
  | wake t =>
      obtain rfl := Option.some.inj hstep
      exact h.quiet (WaitState.quiet_wake s t)
  | work vector i act picked => exact h.quiet (WaitState.quiet_work hstep)
  | call t c =>
      simp only [waitingProducers] at hstep
      split at hstep
      · next hidle =>
          obtain rfl := Option.some.inj hstep
          exact h.plainSection c.entry (by simp [hidle]) (by simp [hidle]) (Or.inl rfl) Or.inl
      · exact absurd hstep (by simp)
  | advance t => exact h.advance hok hstep

theorem reachable (hs : waitingProducers.ReachableBy WaitState.ShutsDownCleanly s) :
    ShutdownInv s := by
  refine hs.invariant ?_ (fun _ _ _ h hok hstep => h.step hok hstep)
  rintro _ rfl
  exact ⟨fun loop hl => absurd hl (by simp), Or.inl rfl, fun h => absurd h (by simp)⟩

end ShutdownInv

/-- **Shutdown reaches every blocked producer that sleeps where it looks.** In runs that shut down
    cleanly, nobody is asleep once a shutdown has returned. -/
theorem shutdown_wakes_all {s : WaitState}
    (hs : waitingProducers.ReachableBy WaitState.ShutsDownCleanly s) (hdown : s.IsShutDown)
    (t : Nat) : (s.producers t).sleepsOn = none := by
  have h := ShutdownInv.reachable hs
  obtain ⟨hreturned, hidle⟩ := hdown
  have hacc : s.pipeline.accepting = false := h.returned hreturned
  rcases h.reached with ha | hnobody | ⟨u, drain, hu, -⟩ | ⟨loop, drain, k, hl, -⟩
  · exact absurd (ha.symm.trans hacc) (by simp)
  · exact Option.eq_none_iff_forall_ne_some.2 (hnobody t)
  · exact absurd ((hidle u).symm.trans hu) (by simp)
  · rcases h.lock loop hl with ⟨drain, hc⟩ | ⟨routes, hc⟩
    · exact absurd ((hidle _).symm.trans hc) (by simp)
    · exact absurd ((hidle _).symm.trans hc) (by simp)

/-- A producer waits for room, and `close` wakes it. -/
theorem shutdown_wakes_all_waiting :
    ∃ s : WaitState, s.IsShutDown ∧
      s.producers 1 = .inQueue {} 1#64 ⟨2, 0, 0⟩ .checking ∧ (s.producers 1).sleepsOn = none := by
  have hinit : waitingProducers.ReachableBy WaitState.ShutsDownCleanly {} := .init rfl
  have hfree : ∀ s l, (WaitState.stopsLanes s l || s.returns l) = false →
      s.ShutsDownCleanly l := by
    intro s l h
    rw [Bool.or_eq_false_iff] at h
    exact ⟨fun hs => absurd (h.1.symm.trans hs) (by simp),
      fun hr => absurd (h.2.symm.trans hr) (by simp)⟩
  have hroute := hinit.runUnder hfree (
    (.call 0 (.configure (.asynchronous 1)) :: List.replicate 4 (.advance 0)) ++
    (.call 0 (.addRoute { delivery := some .blockWhenFull }) :: List.replicate 2 (.advance 0))) rfl
  have hasleep := hroute.runUnder hfree (
    (.submit 0 {} 1#64 false :: List.replicate 8 (.produce 0 0)) ++
    (.submit 1 {} 1#64 false :: List.replicate 7 (.produce 1 0)) ++
    [.call 0 .close, .advance 0]) rfl
  have hstop := hasleep.step (l := .advance 0) ?_ rfl
  · have hcopied := hstop.runUnder hfree (List.replicate 7 (.advance 0)) rfl
    have hdown := hcopied.step (l := .advance 0)
      (WaitState.shutsDownCleanly_of_returns rfl rfl) rfl
    refine ⟨_, ⟨rfl, ?_⟩, rfl, shutdown_wakes_all hdown ⟨rfl, ?_⟩ 1⟩
    all_goals
      intro t
      rcases t with _ | t
      · exact rfl
      · exact rfl
  · -- producer 1 sleeps on the queue of the one lane that there is
    refine ⟨fun _ t q hs => ?_, fun hreturns => ?_⟩
    swap
    · have hfalse : false = true := hreturns
      cases hfalse
    rcases t with _ | _ | t
    · have hnone : (none : Option QueueRef) = some q := hs
      cases hnone
    · have hsome : some (⟨2, 0, 0⟩ : QueueRef) = some q := hs
      rw [← Option.some.inj hsome]
      exact ⟨rfl, rfl, Nat.zero_lt_one⟩
    · have hnone : (none : Option QueueRef) = some q := hs
      cases hnone

/-- Otherwise a shutdown can leave a producer asleep. Either an `add_route` on a pipeline that is
    not started puts other lanes in the place of those that producer 1 waits for; or a `start`
    slips into the `close`, and producer 1, which began before it, goes to sleep when it has
    returned. -/
theorem shutdown_leaves_asleep :
    (∃ s s' : WaitState, ∃ n, waitingProducers.Reachable s ∧ (∀ t, s.calls t = .idle) ∧
      s.AsleepOn 1 ⟨2, 0, 0⟩ ∧
      waitingProducers.run s (.call 0 .close :: List.replicate n (.advance 0)) = some s' ∧
      s'.IsShutDown ∧ s'.AsleepOn 1 ⟨2, 0, 0⟩) ∧
    ∃ s s' : WaitState, ∃ steps, waitingProducers.Reachable s ∧ (∀ t, s.calls t = .idle) ∧
      s.producers 1 = .copying {} 1#64 ∧ waitingProducers.run s steps = some s' ∧
      (∀ e mask forceSync, WaitStep.submit 1 e mask forceSync ∉ steps) ∧
      s'.IsShutDown ∧ s'.AsleepOn 1 ⟨3, 0, 0⟩ := by
  have hinit : waitingProducers.Reachable {} := .init rfl
  have hroute := hinit.run (
    (.call 0 (.configure (.asynchronous 1)) :: List.replicate 4 (.advance 0)) ++
    (.call 0 (.addRoute { delivery := some .blockWhenFull }) :: List.replicate 2 (.advance 0))) rfl
  refine ⟨?_, ?_⟩
  · have hs := hroute.run (
      (.submit 0 {} 1#64 false :: List.replicate 8 (.produce 0 0)) ++
      (.submit 1 {} 1#64 false :: List.replicate 7 (.produce 1 0)) ++
      (.call 0 (.addRoute {}) :: List.replicate 2 (.advance 0))) rfl
    refine ⟨_, _, 13, hs, ?_, rfl, rfl, ⟨rfl, ?_⟩, rfl⟩
    all_goals
      intro t
      rcases t with _ | t
      · exact rfl
      · exact rfl
  · have hs := hroute.run [.submit 1 {} 1#64 false] rfl
    have hfollow : ∀ {s s' : WaitState}, waitingProducers.Reachable s → ∀ steps,
        waitingProducers.run s steps = some s' →
        waitingProducers.Reachable s' ∧ waitingProducers.run s steps = some s' :=
      fun hs steps hrun => ⟨hs.run steps hrun, hrun⟩
    have hclosed := hfollow hs (.call 0 .close :: List.replicate 7 (.advance 0)) rfl
    have hstarted := hfollow hclosed.1
      (.call 2 .start :: .advance 2 :: List.replicate 3 (.advance 0)) rfl
    have hfilled := hfollow hstarted.1
      (.submit 0 {} 1#64 false :: List.replicate 8 (.produce 0 0)) rfl
    have hasleep := hfollow hfilled.1 (List.replicate 7 (.produce 1 0)) rfl
    have hrun := Machine.run_append hclosed.2
      (Machine.run_append hstarted.2 (Machine.run_append hfilled.2 hasleep.2))
    refine ⟨_, _, _, hs, ?_, rfl, hrun, ?_, ⟨rfl, ?_⟩, rfl⟩
    · intro t
      rcases t with _ | t
      · exact rfl
      · exact rfl
    · simp
    · intro t
      rcases t with _ | _ | _ | t
      · exact rfl
      · exact rfl
      · exact rfl
      · exact rfl

end SyLog
