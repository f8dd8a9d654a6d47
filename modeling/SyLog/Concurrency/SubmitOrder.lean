import SyLog.Concurrency.BlockingDelivery

set_option autoImplicit false

/-! # The order of the events of a thread

The submits of a thread follow one another, and each hands its event to a route at most once, so the
events that a route is handed come in the order of the submits of each thread. A lane is a queue and
`add_route` drains it before it replaces it, so the lane keeps this order.

What breaks it is `dispatch_sync_`, which writes at once: a thread whose event goes that way (its
severity forces it, `fatal_sync` does, or the pipeline has stopped accepting) overtakes its own
earlier events that are still queued. `SubmitState.overtakes` is that step. -/

namespace SyLog

variable {a b : SharedState} {s s' : SubmitState} {t : Nat}

/-! ## The elements of a thread -/

/-- The elements that thread `t` has submitted, in their order. -/
def ofThread (t : Nat) (xs : List Ticketed) : List Ticketed := xs.filter (fun x => x.1.thread = t)

@[simp] theorem ofThread_nil : ofThread t [] = [] := rfl

@[simp] theorem ofThread_append (xs ys : List Ticketed) :
    ofThread t (xs ++ ys) = ofThread t xs ++ ofThread t ys := by
  simp [ofThread]

theorem ofThread_cons (x : Ticketed) (xs : List Ticketed) :
    ofThread t (x :: xs) = (if x.1.thread = t then [x] else []) ++ ofThread t xs := by
  by_cases hx : x.1.thread = t <;> simp [ofThread, hx]

theorem mem_ofThread {x : Ticketed} {xs : List Ticketed} :
    x ∈ ofThread t xs ↔ x ∈ xs ∧ x.1.thread = t := by
  simp [ofThread]

theorem ofThread_hand (a : SharedState) (i : Nat) (x : Ticketed) (j : Nat) :
    ofThread t ((a.hand i x).handed j)
      = ofThread t (a.handed j) ++ if j = i ∧ x.1.thread = t then [x] else [] := by
  by_cases hj : j = i
  · subst hj
    simp [SharedState.hand, ofThread_cons]
  · simp [SharedState.hand, hj]

/-- Earlier submits first. -/
def Ascending (xs : List Ticketed) : Prop := xs.Pairwise (fun x y => x.1.number < y.1.number)

/-! ## What a thread has handed over -/

/-- The routes below are behind the submit. -/
def SubmitPhase.reached : SubmitPhase → Nat
  | .dispatching _ _ i _ | .visiting _ _ i | .inLane _ _ i _ => i
  | _ => 0

/-- The submit under way, if there is one, has the given ticket. -/
def SubmitPhase.Carries (ticket : Ticket) : SubmitPhase → Prop
  | .idle => True
  | .copying sub | .testing sub | .preparing sub | .snapshotting sub | .dispatching sub _ _ _
  | .visiting sub _ _ | .inLane sub _ _ _ => sub.ticket = ticket

/-- Thread `t` has handed the events of earlier submits, and that of the present one to routes that
    are behind it, each route's in ascending order. -/
structure SubmitState.HandsInOrder (s : SubmitState) (t : Nat) : Prop where
  carries : (s.producers t).Carries ⟨t, s.submits t⟩
  bounded : ∀ i, ∀ x ∈ ofThread t (s.handed i), x.1.number < s.submits t ∨
    (x.1.number = s.submits t ∧ i < (s.producers t).reached)
  ascending : ∀ i, Ascending (ofThread t (s.handed i))

namespace SubmitState.HandsInOrder

/-- Nothing is handed over on behalf of thread `t`. -/
theorem keep (h : s.HandsInOrder t) (hcarries : (s'.producers t).Carries ⟨t, s'.submits t⟩)
    (hhanded : ∀ i, ofThread t (s'.handed i) = ofThread t (s.handed i))
    (hbehind : s.submits t < s'.submits t ∨
      (s'.submits t = s.submits t ∧ (s.producers t).reached ≤ (s'.producers t).reached)) :
    s'.HandsInOrder t := by
  refine ⟨hcarries, fun i x hx => ?_, fun i => hhanded i ▸ h.ascending i⟩
  rw [hhanded] at hx
  have hold := h.bounded i x hx
  rcases hbehind with hlt | ⟨heq, hle⟩
  · left
    omega
  · rw [heq]
    omega

/-- The thread goes on to `phase`. -/
theorem move (h : s.HandsInOrder t) {phase : SubmitPhase} {refused : List (Ticket × Nat)}
    (hhanded : b.handed = s.handed) (hcarries : phase.Carries ⟨t, s.submits t⟩)
    (hreached : (s.producers t).reached ≤ phase.reached) :
    SubmitState.HandsInOrder { s with toSharedState := b,
                                      producers := Function.update s.producers t phase,
                                      refused } t := by
  refine h.keep (by simpa using hcarries) (fun i => ?_) (Or.inr ⟨rfl, by simpa using hreached⟩)
  show ofThread t (b.handed i) = ofThread t (s.handed i)
  rw [hhanded]

/-- It hands its event to the route that it has reached. -/
theorem hand (h : s.HandsInOrder t) {phase : SubmitPhase} {x : Ticketed} {i : Nat}
    (hticket : x.1 = ⟨t, s.submits t⟩) (hi : (s.producers t).reached = i)
    (hhanded : b.handed = Function.update s.handed i (s.handed i ++ [x]))
    (hcarries : phase.Carries ⟨t, s.submits t⟩) (hreached : phase.reached = i + 1) :
    SubmitState.HandsInOrder { s with toSharedState := b,
                                      producers := Function.update s.producers t phase } t := by
  have hadd : ∀ j, ofThread t (b.handed j)
      = ofThread t (s.handed j) ++ if j = i then [x] else [] := by
    intro j
    have h := ofThread_hand (t := t) s.toSharedState i x j
    rw [SharedState.hand] at h
    simpa [hhanded, hticket] using h
  refine ⟨by simpa using hcarries, fun j y hy => ?_, fun j => ?_⟩
  · simp only [Function.update_self, hreached]
    change y ∈ ofThread t (b.handed j) at hy
    rw [hadd, List.mem_append] at hy
    rcases hy with hy | hy
    · have hold := h.bounded j y hy
      omega
    · by_cases hj : j = i
      · subst hj
        obtain rfl : y = x := by simpa using hy
        right
        simp [hticket]
      · simp [hj] at hy
  · show Ascending (ofThread t (b.handed j))
    rw [hadd]
    by_cases hj : j = i
    · subst hj
      rw [if_pos rfl]
      refine List.pairwise_append.2 ⟨h.ascending j, List.pairwise_singleton _ _, ?_⟩
      intro y hy z hz
      obtain rfl : z = x := by simpa using hz
      have hold := h.bounded j y hy
      rw [hticket]
      simp only
      omega
    · rw [if_neg hj, List.append_nil]
      exact h.ascending j

theorem finish (h : s.HandsInOrder t) (sub : Submission) : (s.finish t sub).HandsInOrder t := by
  refine h.keep ?_ (fun i => rfl) (Or.inl ?_)
  · simp [SubmitState.finish, SubmitPhase.Carries]
  · simp [SubmitState.finish]

end SubmitState.HandsInOrder

/-! ### Steps of the producers -/

/-- **One step of a thread** hands its event over at most once. -/
theorem ProduceStep.handsInOrder (hstep : ProduceStep s t s') (h : s.HandsInOrder t) :
    s'.HandsInOrder t := by
  have hcarries := h.carries
  cases hstep with
  | copied sub hphase =>
      rw [hphase] at hcarries
      exact h.move rfl hcarries (by simp [hphase, SubmitPhase.reached])
  | tested sub hphase =>
      rw [hphase] at hcarries
      split
      · exact h.move rfl hcarries (by simp [hphase, SubmitPhase.reached])
      · exact h.move rfl hcarries (by simp [hphase, SubmitPhase.reached])
  | prepared sub hphase =>
      rw [hphase] at hcarries
      exact h.move rfl hcarries (by simp [hphase, SubmitPhase.reached])
  | dispatched sub snapshot i buffer hphase hend => exact h.finish sub
  | passed sub snapshot i buffer hphase hsel =>
      rw [hphase] at hcarries
      exact h.move rfl hcarries (by simp [hphase, SubmitPhase.reached])
  | dispatch sub snapshot i buffer buffer' r hphase hr =>
      rw [hphase] at hcarries
      exact h.hand (x := (sub.ticket, sub.event)) hcarries (by simp [hphase, SubmitPhase.reached])
        rfl hcarries rfl
  | snapshot sub hphase =>
      rw [hphase] at hcarries
      exact h.move rfl hcarries (by simp [hphase, SubmitPhase.reached])
  | visited sub g i hphase hend => exact h.finish sub
  | skipped sub g i hphase hsel =>
      rw [hphase] at hcarries
      exact h.move rfl hcarries (by simp [hphase, SubmitPhase.reached])
  | entered sub g i phase hphase hkeep =>
      rw [hphase] at hcarries
      exact h.move rfl hcarries (by simp [hphase, SubmitPhase.reached])
  | moved sub g i phase phase' hphase hkeep =>
      rw [hphase] at hcarries
      exact h.move rfl hcarries (by simp [hphase, SubmitPhase.reached])
  | reserved sub g i phase l q hphase hl hq =>
      rw [hphase] at hcarries
      exact h.move (s.setLane_frame g i _).2.2.2.2.1 hcarries
        (by simp [hphase, SubmitPhase.reached])
  | accepted sub g i phase l q hphase hl hopen hq =>
      rw [hphase] at hcarries
      refine h.hand (x := (sub.ticket, sub.event)) hcarries (by simp [hphase, SubmitPhase.reached])
        ?_ hcarries rfl
      have hframe := (s.setLane_frame g i { l with queue := q }).2.2.2.2.1
      simp only [SharedState.hand, hframe]
  | rejected sub g i l hphase hl hclosed =>
      rw [hphase] at hcarries
      exact h.move rfl hcarries (by simp [hphase, SubmitPhase.reached])
  | failed sub g i phase l hphase hl hwhy =>
      rw [hphase] at hcarries
      exact h.move rfl hcarries (by simp [hphase, SubmitPhase.reached])
  | released sub g i l q hphase hl hq =>
      rw [hphase] at hcarries
      exact h.move (s.setLane_frame g i _).2.2.2.2.1 hcarries
        (by simp [hphase, SubmitPhase.reached])

/-- What a step of thread `u` leaves alone of thread `t`. -/
theorem ProduceStep.others {u : Nat} (hstep : ProduceStep s u s') (h : s.HandsInOrder u)
    (htu : t ≠ u) : s'.producers t = s.producers t ∧ s'.submits t = s.submits t ∧
      ∀ i, ofThread t (s'.handed i) = ofThread t (s.handed i) := by
  have hcarries := h.carries
  -- an element of thread `u` is none of thread `t`
  have hforeign : ∀ (c : SharedState) (sub : Submission) (i j : Nat),
      sub.ticket = ⟨u, s.submits u⟩ →
      ofThread t ((c.hand i (sub.ticket, sub.event)).handed j) = ofThread t (c.handed j) := by
    intro c sub i j hticket
    rw [ofThread_hand, hticket, if_neg (fun hc => htu hc.2.symm), List.append_nil]
  cases hstep with
  | dispatch sub snapshot i buffer buffer' r hphase hr =>
      rw [hphase] at hcarries
      refine ⟨Function.update_of_ne htu _ _, rfl, fun j => ?_⟩
      exact hforeign s.toSharedState sub i j hcarries
  | reserved sub g i phase l q hphase hl hq =>
      refine ⟨Function.update_of_ne htu _ _, rfl, fun j => ?_⟩
      show ofThread t ((s.setLane g i _).handed j) = _
      rw [(s.setLane_frame g i _).2.2.2.2.1]
  | accepted sub g i phase l q hphase hl hopen hq =>
      rw [hphase] at hcarries
      refine ⟨Function.update_of_ne htu _ _, rfl, fun j => ?_⟩
      refine (hforeign _ sub i j hcarries).trans ?_
      rw [(s.setLane_frame g i _).2.2.2.2.1]
  | released sub g i l q hphase hl hq =>
      refine ⟨Function.update_of_ne htu _ _, rfl, fun j => ?_⟩
      show ofThread t ((s.setLane g i _).handed j) = _
      rw [(s.setLane_frame g i _).2.2.2.2.1]
  | dispatched sub snapshot i buffer hphase hend =>
      exact ⟨Function.update_of_ne htu _ _, Function.update_of_ne htu _ _, fun _ => rfl⟩
  | visited sub g i hphase hend =>
      exact ⟨Function.update_of_ne htu _ _, Function.update_of_ne htu _ _, fun _ => rfl⟩
  | _ => exact ⟨Function.update_of_ne htu _ _, rfl, fun _ => rfl⟩

/-! ## Lanes and histories in any run -/

/-- What the loop of `dispatch_sync_` goes through. -/
def SubmitPhase.snapshot : SubmitPhase → List Route
  | .dispatching _ snapshot _ _ => snapshot
  | _ => []

/-- What every run keeps, whatever is refused. -/
structure SubmitState.Sound (s : SubmitState) : Prop where
  lanes : LanesInv s.toSharedState
  history : HistoryInv s.toSharedState
  hands : ∀ t, s.HandsInOrder t
  snapshots : ∀ t, (s.producers t).snapshot <+: s.routes

theorem ProduceStep.loops (hstep : ProduceStep s t s') :
    s'.routes = s.routes ∧ ((s'.producers t).snapshot = (s.producers t).snapshot ∨
      (s'.producers t).snapshot = s.routes ∨ (s'.producers t).snapshot = []) := by
  cases hstep with
  | prepared sub hphase =>
      exact ⟨rfl, Or.inr (Or.inl (by simp [SubmitState.setProducer, SubmitPhase.snapshot]))⟩
  | passed sub snapshot i buffer hphase hsel =>
      exact ⟨rfl, Or.inl (by simp [SubmitState.setProducer, hphase, SubmitPhase.snapshot])⟩
  | dispatch sub snapshot i buffer buffer' r hphase hr =>
      exact ⟨rfl, Or.inl (by simp [SubmitState.setProducer, hphase, SubmitPhase.snapshot])⟩
  | dispatched sub snapshot i buffer hphase hend =>
      exact ⟨rfl, Or.inr (Or.inr (by simp [SubmitState.finish, SubmitPhase.snapshot]))⟩
  | visited sub g i hphase hend =>
      exact ⟨rfl, Or.inr (Or.inr (by simp [SubmitState.finish, SubmitPhase.snapshot]))⟩
  | tested sub hphase =>
      refine ⟨rfl, Or.inr (Or.inr ?_)⟩
      split <;> simp [SubmitState.setProducer, SubmitPhase.snapshot]
  | reserved sub g i phase l q hphase hl hq =>
      exact ⟨(s.setLane_frame g i _).1,
        Or.inr (Or.inr (by simp [SubmitState.setProducer, SubmitPhase.snapshot]))⟩
  | accepted sub g i phase l q hphase hl hopen hq =>
      exact ⟨(s.setLane_frame g i _).1,
        Or.inr (Or.inr (by simp [SubmitState.setProducer, SubmitPhase.snapshot]))⟩
  | released sub g i l q hphase hl hq =>
      exact ⟨(s.setLane_frame g i _).1, Or.inr (Or.inr
        (by simp [SubmitState.fail, SubmitState.setProducer, SubmitPhase.snapshot]))⟩
  | failed sub g i phase l hphase hl hwhy =>
      exact ⟨rfl, Or.inr (Or.inr
        (by simp [SubmitState.fail, SubmitState.setProducer, SubmitPhase.snapshot]))⟩
  | _ => exact ⟨rfl, Or.inr (Or.inr (by simp [SubmitState.setProducer, SubmitPhase.snapshot]))⟩

theorem ProduceStep.shared (hstep : ProduceStep s t s') (h : s.Sound) :
    LanesInv s'.toSharedState ∧ HistoryInv s'.toSharedState := by
  obtain ⟨hlanes, hhistory, -, hsnap⟩ := h
  cases hstep with
  | dispatch sub snapshot i buffer buffer' r hphase hr =>
      have hprefix := hsnap t
      rw [hphase] at hprefix
      exact ⟨(hlanes.hand i _).record i _ _, hhistory.dispatch (getElem?_mono hprefix hr) _⟩
  | reserved sub g i phase l q hphase hl hq =>
      have hpend : Lane.pending { l with queue := q } = l.pending := by simp [Lane.pending, hq]
      exact ⟨hlanes.resize hl hq, hhistory.resize hl hpend⟩
  | accepted sub g i phase l q hphase hl hopen hq =>
      obtain ⟨rfl, -⟩ := hlanes.current_of_open hl hopen
      have hclosed : q.queue.closed = l.queue.queue.closed := by rw [hq]
      have hpend : Lane.pending { l with queue := q } = l.pending ++ [(sub.ticket, sub.event)] := by
        simp [Lane.pending, hq]
      exact ⟨(hlanes.push hl hopen hclosed).hand i _, hhistory.push hl hpend⟩
  | released sub g i l q hphase hl hq =>
      have hpend : Lane.pending { l with queue := q } = l.pending := by simp [Lane.pending, hq]
      exact ⟨hlanes.resize hl hq, hhistory.resize hl hpend⟩
  | _ => exact ⟨hlanes, hhistory⟩

namespace SubmitState.Sound

/-- A step of another thread than the producers. -/
theorem share (h : s.Sound) (hb : LanesInv b ∧ HistoryInv b ∧ s.toSharedState.Grows none b)
    (hhanded : b.handed = s.handed) : SubmitState.Sound { s with toSharedState := b } := by
  obtain ⟨hlanes, hhistory, hgrows⟩ := hb
  refine ⟨hlanes, hhistory, fun t => ?_, fun t => (h.snapshots t).trans hgrows.routes⟩
  exact (h.hands t).keep (h.hands t).carries (fun i => congrArg (ofThread t) (congrFun hhanded i))
    (Or.inr ⟨rfl, Nat.le_refl _⟩)

theorem produce (h : s.Sound) (hstep : ProduceStep s t s') : s'.Sound := by
  obtain ⟨hlanes, hhistory⟩ := hstep.shared h
  obtain ⟨hroutes, hloops⟩ := hstep.loops
  refine ⟨hlanes, hhistory, fun u => ?_, fun u => ?_⟩
  · by_cases hut : u = t
    · exact hut ▸ hstep.handsInOrder (h.hands t)
    · obtain ⟨hproducer, hsubmits, hhanded⟩ := hstep.others (h.hands t) hut
      refine (h.hands u).keep ?_ hhanded (Or.inr ⟨hsubmits, by rw [hproducer]⟩)
      rw [hproducer, hsubmits]
      exact (h.hands u).carries
  · rw [hroutes]
    by_cases hut : u = t
    · subst hut
      rcases hloops with heq | heq | heq
      · exact heq ▸ h.snapshots u
      · exact heq ▸ List.prefix_rfl
      · exact heq ▸ List.nil_prefix
    · rw [(hstep.others (h.hands t) hut).1]
      exact h.snapshots u

end SubmitState.Sound

theorem SharedState.work_handed {g i : Nat} {act : WorkerAct} (h : a.work g i act = some b) :
    b.handed = a.handed := by
  obtain ⟨l, l', out, hl, -, ⟨-, rfl⟩ | ⟨x, buffer, -, rfl⟩⟩ := SharedState.work_cases h
  · exact (a.setLane_frame g i l').2.2.2.2.1
  · exact (a.setLane_frame g i { l' with buffer }).2.2.2.2.1

/-- `add_route` moves no event: what the lanes it replaces have accepted is dealt with before. -/
theorem SharedState.reconfigure_keeps (hlanes : LanesInv a) (h : a.reconfigure = some b) :
    b.handed = a.handed ∧ b.processed = a.processed ∧
      ∀ j, b.crossbar.pendingAt j = a.crossbar.pendingAt j := by
  have hfits := hlanes.lanes
  have hadder := hlanes.adder
  cases hphase : a.adder with
  | idle => simp [SharedState.reconfigure, hphase] at h
  | updating routes =>
      rw [hphase] at hadder
      obtain ⟨hrun, -⟩ := hadder
      simp only [SharedState.reconfigure, hphase, hrun, if_true,
        SinkCrossbar.enterStop_of_running hrun, Option.some.injEq] at h
      subst h
      exact ⟨rfl, rfl, SinkCrossbar.beginStop_pendingAt _ _⟩
  | stopping phase routes =>
      rw [hphase] at hfits hadder
      simp only [SharedState.reconfigure, hphase] at h
      obtain ⟨⟨x, phase', push⟩, hadv, hb⟩ := Option.map_eq_some_iff.1 h
      have hround := SinkCrossbar.crossbarStep_of_advance hadv
      have hpart := hround
      cases hround with
      | deliver e mask i l l' ok hl hi hsel hsub => exact hadder.elim
      | skip e mask i hsel => exact hadder.elim
      | submitted e mask i hi => exact hadder.elim
      | signal drain k l hl =>
          subst hb
          refine ⟨rfl, rfl, fun j => ?_⟩
          rw [hpart.pendingAt (by simp) j]
          simp [pushedAt]
      | signalled drain k hk =>
          subst hb
          exact ⟨rfl, rfl, fun _ => rfl⟩
      | join drain k l hl hfin =>
          subst hb
          refine ⟨rfl, rfl, fun j => ?_⟩
          rw [hpart.pendingAt (by simp) j]
          simp [pushedAt]
      | joined drain k hk =>
          -- both vectors of lanes are empty
          obtain ⟨rfl, rfl⟩ := hadder
          subst hb
          refine ⟨rfl, rfl, fun j => ?_⟩
          have hold : a.crossbar.pendingAt j = [] :=
            SinkCrossbar.pendingAt_eq_nil (hpart.pending_of_joined hfits) j
          rw [hold]
          exact SinkCrossbar.pendingAt_eq_nil (fun l hl => SinkCrossbar.rebuild_pending hl) j

theorem SubmitState.Sound.step {step : SubmitStep} (h : s.Sound)
    (hstep : concurrentSubmit.next s step = some s') : s'.Sound := by
  cases step with
  | submit t e mask forceSync =>
      simp only [concurrentSubmit] at hstep
      split at hstep
      · next hidle =>
          obtain rfl := Option.some.inj hstep
          refine ⟨h.lanes, h.history, fun u => ?_, fun u => ?_⟩
          · by_cases hut : u = t
            · subst hut
              refine (h.hands u).move rfl ?_ (by simp [hidle, SubmitPhase.reached])
              split <;> rfl
            · refine (h.hands u).keep ?_ (fun _ => rfl) (Or.inr ⟨rfl, ?_⟩)
              · simpa [SubmitState.setProducer, hut] using (h.hands u).carries
              · simp [SubmitState.setProducer, hut]
          · by_cases hut : u = t
            · subst hut
              simp only [SubmitState.setProducer, Function.update_self]
              split <;> exact List.nil_prefix
            · simpa [SubmitState.setProducer, hut] using h.snapshots u
      · exact absurd hstep (by simp)
  | produce t => exact h.produce (produceStep_of_produce hstep)
  | work g i act =>
      obtain ⟨b, hwork, rfl⟩ := Option.map_eq_some_iff.1 hstep
      exact h.share (h.history.work h.lanes hwork) (SharedState.work_handed hwork)
  | addRoute r =>
      simp only [concurrentSubmit] at hstep
      split at hstep
      · next hidle =>
          obtain rfl := Option.some.inj hstep
          exact h.share (h.lanes.addRoute h.history hidle r) rfl
      · exact absurd hstep (by simp)
  | reconfigure =>
      obtain ⟨b, hrec, rfl⟩ := Option.map_eq_some_iff.1 hstep
      exact h.share (h.lanes.reconfigure h.history hrec)
        (SharedState.reconfigure_keeps h.lanes hrec).1
  | shutDown =>
      obtain rfl := Option.some.inj hstep
      exact h.share (h.lanes.shutDown h.history) rfl

theorem SubmitState.Sound.init (hinit : concurrentSubmit.init s) : s.Sound := by
  have hinv := SubmitInv.init hinit
  obtain ⟨cfg, routes, -, rfl⟩ := hinit
  exact ⟨hinv.lanes, hinv.history,
    fun t => ⟨trivial, fun i x hx => absurd hx List.not_mem_nil, fun i => List.Pairwise.nil⟩,
    fun t => List.nil_prefix⟩

theorem SubmitState.sound_of_reachable {ok : SubmitState → SubmitStep → Prop}
    (hs : concurrentSubmit.ReachableBy ok s) : s.Sound :=
  hs.invariant (fun _ => SubmitState.Sound.init) (fun _ _ _ h _ hstep => h.step hstep)

/-! ## Exactly once, in any run -/

/-- Elements that ascend thread by thread have different tickets. -/
theorem nodup_of_ascending {xs : List Ticketed} (h : ∀ t, Ascending (ofThread t xs)) :
    (xs.map Prod.fst).Nodup := by
  induction xs with
  | nil => exact List.nodup_nil
  | cons x xs ih =>
      have htail : ∀ t, Ascending (ofThread t xs) := by
        intro t
        have ht := h t
        rw [ofThread_cons] at ht
        exact (List.pairwise_append.1 ht).2.1
      refine List.nodup_cons.2 ⟨fun hmem => ?_, ih htail⟩
      obtain ⟨y, hy, heq⟩ := List.mem_map.1 hmem
      have hx := h x.1.thread
      rw [ofThread_cons, if_pos rfl] at hx
      have hlt := (List.pairwise_cons.1 hx).1 y (mem_ofThread.2 ⟨hy, by rw [heq]⟩)
      rw [heq] at hlt
      exact Nat.lt_irrefl _ hlt

/-- **What a lane has accepted is kept exactly once.** However submits, workers and `add_route`
    interleave, also after a shutdown has begun: an event that was handed to a route has been
    processed or is pending in its current lane, never both and never twice, and what was written is
    what the route owes for what it has processed. -/
theorem accepted_exactly_once (hs : concurrentSubmit.Reachable s) (i : Nat) :
    (s.handed i).Perm (s.processed i ++ s.crossbar.pendingAt i) ∧
      ((s.processed i ++ s.crossbar.pendingAt i).map Prod.fst).Nodup ∧
      s.written i = (s.processed i).flatMap (s.linesOf i) := by
  have h := SubmitState.sound_of_reachable hs
  have hkept := h.history.kept i
  have hnodup := nodup_of_ascending (fun t => (h.hands t).ascending i)
  exact ⟨hkept, (hkept.map Prod.fst).nodup_iff.1 hnodup, h.history.wrote i⟩

/-- Two events go through a lane, and a third one past it. -/
theorem accepted_exactly_once_two_events :
    ∃ s : SubmitState, (s.handed 0).length = 3 ∧ (s.processed 0).length = 2 ∧
      (s.handed 0).Perm (s.processed 0 ++ s.crossbar.pendingAt 0) ∧
      ((s.processed 0 ++ s.crossbar.pendingAt 0).map Prod.fst).Nodup := by
  have hinit : concurrentSubmit.Reachable _ := .init ⟨{}, [{ sinkRef := some 7 }], rfl, rfl⟩
  have hs := hinit.run ([.submit 0 {} 1#64 false, .submit 1 {} 1#64 false]
    ++ List.replicate 7 (.produce 0) ++ List.replicate 7 (.produce 1)
    ++ List.replicate 4 (.work 0 0 .run)
    ++ (.submit 0 {} 1#64 true :: List.replicate 3 (.produce 0))) rfl
  exact ⟨_, rfl, rfl, (accepted_exactly_once hs 0).1, (accepted_exactly_once hs 0).2.1⟩

/-! ## The order -/

/-- Thread `t` dispatches its event to a route that has events of the thread pending. -/
def SubmitState.overtakes (s : SubmitState) (t : Nat) : SubmitStep → Bool
  | .produce u =>
    u == t && match s.producers u with
      | .dispatching sub snapshot i _ =>
        decide (i < snapshot.length) && decide (i < 64) && selects sub.mask i &&
          (s.crossbar.pendingAt i).any (fun x => x.1.thread = t)
      | _ => false
  | _ => false

/-- Route by route, what thread `t` has handed over is processed, then pending, in that order. -/
def SharedState.KeepsOrder (a : SharedState) (t : Nat) : Prop :=
  ∀ i, ofThread t (a.handed i)
    = ofThread t (a.processed i) ++ ofThread t (a.crossbar.pendingAt i)

theorem SharedState.KeepsOrder.same (h : a.KeepsOrder t) (hhanded : b.handed = a.handed)
    (hprocessed : b.processed = a.processed)
    (hpend : ∀ j, b.crossbar.pendingAt j = a.crossbar.pendingAt j) : b.KeepsOrder t := by
  intro j
  rw [hhanded, hprocessed, hpend j]
  exact h j

/-- A worker takes the oldest element of its lane. -/
theorem SharedState.KeepsOrder.work (h : a.KeepsOrder t) (hlanes : LanesInv a) {g i : Nat}
    {act : WorkerAct} (hwork : a.work g i act = some b) : b.KeepsOrder t := by
  obtain ⟨l, l', out, hl, hstep, hb⟩ := SharedState.work_cases hwork
  obtain rfl := hlanes.current_of_joinable hl hstep.joinable.1
  have hold := SinkCrossbar.pendingAt_of_getElem? (a.lanesAt_generation ▸ hl)
  have hpending := hstep.pending
  rcases hb with ⟨rfl, rfl⟩ | ⟨x, buffer, rfl, rfl⟩
  · obtain ⟨-, -, -, -, hhanded, hprocessed, -⟩ := a.setLane_frame a.generation i l'
    refine h.same hhanded hprocessed (fun j => ?_)
    rw [SharedState.setLane_pendingAt hl]
    by_cases hj : j = i
    · subst hj
      rw [if_pos ⟨rfl, rfl⟩, hold, hpending]
      rfl
    · rw [if_neg (fun hc => hj hc.2)]
  · obtain ⟨-, -, -, -, hhanded, hprocessed, -⟩ :=
      a.setLane_frame a.generation i { l' with buffer }
    intro j
    show ofThread t ((a.setLane a.generation i _).handed j)
      = ofThread t (Function.update (a.setLane a.generation i _).processed i
          ((a.setLane a.generation i _).processed i ++ [x]) j)
        ++ ofThread t ((a.setLane a.generation i _).crossbar.pendingAt j)
    rw [hhanded, hprocessed, SharedState.setLane_pendingAt hl, h j]
    by_cases hj : j = i
    · subst hj
      have hpend : a.crossbar.pendingAt j = [x] ++ Lane.pending { l' with buffer } :=
        hold.trans hpending
      rw [if_pos ⟨rfl, rfl⟩, Function.update_self, hpend, ofThread_append, ofThread_append,
        List.append_assoc]
    · rw [if_neg (fun hc => hj hc.2), Function.update_of_ne hj]

/-- What thread `u` dispatches comes after everything that thread `t` has handed over, unless it is
    thread `t` itself and something of it is pending. -/
theorem SharedState.KeepsOrder.dispatch (h : a.KeepsOrder t) {i : Nat} {x : Ticketed}
    {out : List Output}
    (hfree : x.1.thread = t → ofThread t (a.crossbar.pendingAt i) = []) :
    ((a.hand i x).record i x out).KeepsOrder t := by
  intro j
  show ofThread t ((a.hand i x).handed j)
    = ofThread t (Function.update a.processed i (a.processed i ++ [x]) j)
      ++ ofThread t (a.crossbar.pendingAt j)
  rw [ofThread_hand, h j]
  by_cases hj : j = i
  · subst hj
    rw [Function.update_self, ofThread_append, ofThread_cons]
    by_cases hx : x.1.thread = t
    · simp [hx, hfree hx]
    · simp [hx]
  · simp [hj]

/-- A push goes behind everything that is pending. -/
theorem SharedState.KeepsOrder.push (h : a.KeepsOrder t) {i : Nat} {l l' : Lane Ticketed}
    {x : Ticketed} (hl : (a.lanesAt a.generation)[i]? = some l)
    (hpend : l'.pending = l.pending ++ [x]) :
    ((a.setLane a.generation i l').hand i x).KeepsOrder t := by
  have hold := SinkCrossbar.pendingAt_of_getElem? (a.lanesAt_generation ▸ hl)
  obtain ⟨-, -, -, -, hhanded, hprocessed, -⟩ := a.setLane_frame a.generation i l'
  intro j
  show ofThread t (((a.setLane a.generation i l').hand i x).handed j)
    = ofThread t ((a.setLane a.generation i l').processed j)
      ++ ofThread t ((a.setLane a.generation i l').crossbar.pendingAt j)
  rw [ofThread_hand, hhanded, hprocessed, h j, SharedState.setLane_pendingAt hl]
  by_cases hj : j = i
  · subst hj
    by_cases hx : x.1.thread = t <;> simp [hpend, hold, ofThread_cons, hx]
  · simp [hj]

theorem SharedState.KeepsOrder.resize (h : a.KeepsOrder t) {g i : Nat} {l l' : Lane Ticketed}
    (hl : (a.lanesAt g)[i]? = some l) (hpend : l'.pending = l.pending) :
    (a.setLane g i l').KeepsOrder t := by
  obtain ⟨-, -, -, -, hhanded, hprocessed, -⟩ := a.setLane_frame g i l'
  refine h.same hhanded hprocessed (fun j => ?_)
  rw [SharedState.setLane_pendingAt hl]
  by_cases hj : g = a.generation ∧ j = i
  · obtain ⟨rfl, rfl⟩ := hj
    rw [if_pos ⟨rfl, rfl⟩, hpend, SinkCrossbar.pendingAt_of_getElem? (a.lanesAt_generation ▸ hl)]
  · rw [if_neg hj]

/-- A step of a thread that is not in the loop of `dispatch_sync_`. -/
theorem ProduceStep.keepsOrder {u : Nat} (hstep : ProduceStep s u s') (h : s.Sound)
    (hkeep : s.KeepsOrder t)
    (hphase : ∀ sub snapshot i buffer, s.producers u ≠ .dispatching sub snapshot i buffer) :
    s'.KeepsOrder t := by
  cases hstep with
  | dispatch sub snapshot i buffer buffer' r hdispatch hr =>
      exact absurd hdispatch (hphase _ _ _ _)
  | reserved sub g i phase l q hinLane hl hq =>
      have hpend : Lane.pending { l with queue := q } = l.pending := by simp [Lane.pending, hq]
      exact hkeep.resize hl hpend
  | accepted sub g i phase l q hinLane hl hopen hq =>
      obtain ⟨rfl, -⟩ := h.lanes.current_of_open hl hopen
      have hpend : Lane.pending { l with queue := q } = l.pending ++ [(sub.ticket, sub.event)] := by
        simp [Lane.pending, hq]
      exact hkeep.push hl hpend
  | released sub g i l q hinLane hl hq =>
      have hpend : Lane.pending { l with queue := q } = l.pending := by simp [Lane.pending, hq]
      exact hkeep.resize hl hpend
  | _ => exact hkeep

/-- The step of thread `u` in the loop of `dispatch_sync_`. -/
theorem SharedState.KeepsOrder.loop {u : Nat} (hkeep : s.KeepsOrder t)
    (hticket : (s.producers u).Carries ⟨u, s.submits u⟩) {sub : Submission}
    {snapshot : List Route} {i : Nat} {buffer : Bytes}
    (hphase : s.producers u = .dispatching sub snapshot i buffer)
    (hok : s.overtakes t (.produce u) = false) (hstep : s.produce u = some s') :
    s'.KeepsOrder t := by
  rw [hphase] at hticket
  have hthread : sub.ticket.thread = u := congrArg Ticket.thread hticket
  simp only [SubmitState.produce, hphase] at hstep
  split at hstep
  · obtain rfl := Option.some.inj hstep
    exact hkeep
  · next r hr =>
      split at hstep
      · next hi =>
          split at hstep
          · next hsel =>
              obtain rfl := Option.some.inj hstep
              refine hkeep.dispatch (fun hx => ?_)
              have hut : u = t := hthread.symm.trans hx
              obtain ⟨hlt, -⟩ := List.getElem?_eq_some_iff.1 hr
              have hfree := hok
              simp only [SubmitState.overtakes, hut, beq_self_eq_true, Bool.true_and, hut ▸ hphase,
                hlt, hi, hsel, decide_true, Bool.and_true] at hfree
              exact List.filter_eq_nil_iff.2 (by simpa using hfree)
          · obtain rfl := Option.some.inj hstep
            exact hkeep
      · obtain rfl := Option.some.inj hstep
        exact hkeep

theorem SharedState.KeepsOrder.step {step : SubmitStep} (h : s.Sound) (hkeep : s.KeepsOrder t)
    (hok : s.overtakes t step = false) (hstep : concurrentSubmit.next s step = some s') :
    s'.KeepsOrder t := by
  cases step with
  | submit u e mask forceSync =>
      simp only [concurrentSubmit] at hstep
      split at hstep
      · obtain rfl := Option.some.inj hstep
        exact hkeep
      · exact absurd hstep (by simp)
  | produce u =>
      cases hphase : s.producers u with
      | dispatching sub snapshot i buffer =>
          exact hkeep.loop (h.hands u).carries hphase hok hstep
      | _ => exact (produceStep_of_produce hstep).keepsOrder h hkeep (by simp [hphase])
  | work g i act =>
      obtain ⟨b, hwork, rfl⟩ := Option.map_eq_some_iff.1 hstep
      exact hkeep.work h.lanes hwork
  | addRoute r =>
      simp only [concurrentSubmit] at hstep
      split at hstep
      · obtain rfl := Option.some.inj hstep
        exact hkeep
      · exact absurd hstep (by simp)
  | reconfigure =>
      obtain ⟨b, hrec, rfl⟩ := Option.map_eq_some_iff.1 hstep
      obtain ⟨hhanded, hprocessed, hpend⟩ := SharedState.reconfigure_keeps h.lanes hrec
      exact hkeep.same hhanded hprocessed hpend
  | shutDown =>
      obtain rfl := Option.some.inj hstep
      exact hkeep

/-- What each route has processed of thread `t`, and has pending after that, ascends. -/
def SubmitState.InSubmitOrder (s : SubmitState) (t : Nat) : Prop :=
  ∀ i, Ascending (ofThread t (s.processed i ++ s.crossbar.pendingAt i))

theorem SubmitState.Sound.inSubmitOrder (h : s.Sound) (hkeep : s.KeepsOrder t) :
    s.InSubmitOrder t := by
  intro i
  rw [ofThread_append, ← hkeep i]
  exact (h.hands t).ascending i

/-- The step that overtakes puts a later event before an earlier one. -/
theorem SubmitState.Sound.reordered {step : SubmitStep} (h : s.Sound)
    (hover : s.overtakes t step = true) (hstep : concurrentSubmit.next s step = some s') :
    ¬ s'.InSubmitOrder t := by
  cases step with
  | produce u =>
      simp only [SubmitState.overtakes, Bool.and_eq_true, beq_iff_eq] at hover
      obtain ⟨rfl, hover⟩ := hover
      cases hphase : s.producers u with
      | dispatching sub snapshot i buffer =>
          simp only [hphase, Bool.and_eq_true, decide_eq_true_eq, List.any_eq_true] at hover
          obtain ⟨⟨⟨hlt, hi⟩, hsel⟩, y, hy, hthread⟩ := hover
          have hcarries := (h.hands u).carries
          rw [hphase] at hcarries
          have hticket : sub.ticket = ⟨u, s.submits u⟩ := hcarries
          simp only [concurrentSubmit, SubmitState.produce, hphase,
            List.getElem?_eq_getElem hlt, hi, hsel, if_true, Option.some.injEq] at hstep
          subst hstep
          intro horder
          have hi' := horder i
          have hprocessed : ∀ (c : SharedState) (x : Ticketed) (out : List Output),
              ((c.hand i x).record i x out).processed i = c.processed i ++ [x] :=
            fun c x out => Function.update_self _ _ _
          simp only [SubmitState.setProducer, hprocessed] at hi'
          -- `y` is pending, so it was handed over by an earlier submit
          have hmem : y ∈ ofThread u (s.handed i) := by
            refine mem_ofThread.2 ⟨(h.history.kept i).mem_iff.2 ?_, hthread⟩
            exact List.mem_append_right _ hy
          have hearlier := (h.hands u).bounded i y hmem
          simp only [hphase, SubmitPhase.reached, Nat.lt_irrefl, and_false, or_false] at hearlier
          have hpair := (List.pairwise_append.1 (by rwa [ofThread_append] at hi')).2.2
            (sub.ticket, sub.event) (mem_ofThread.2 ⟨by simp, by simp [hticket]⟩) y
            (mem_ofThread.2 ⟨hy, hthread⟩)
          simp only [hticket] at hpair
          omega
      | _ => simp [hphase] at hover
  | _ => simp [SubmitState.overtakes] at hover

/-- The lines of a thread stand in the order of its submits. -/
theorem SubmitState.Sound.lines_ascend (h : s.Sound) (horder : s.InSubmitOrder t) (i : Nat) :
    ((s.written i).filter (fun x => x.1.thread = t)).Pairwise
      (fun x y => x.1.number ≤ y.1.number) := by
  have hascend := horder i
  rw [ofThread_append] at hascend
  have hprocessed := List.pairwise_filter.1 (List.pairwise_append.1 hascend).1
  have hline : ∀ x, ∀ y ∈ s.linesOf i x, y.1 = x.1 := by
    intro x y hy
    unfold SharedState.linesOf at hy
    cases hr : s.routes[i]? with
    | none => simp [hr] at hy
    | some r =>
        simp only [hr, Option.map_some, Option.getD_some, List.mem_map] at hy
        obtain ⟨o, -, rfl⟩ := hy
        rfl
  rw [h.history.wrote i, List.pairwise_filter, List.pairwise_flatMap]
  refine ⟨fun x _ => ?_, hprocessed.imp (fun {x y} hxy z hz w hw hzt hwt => ?_)⟩
  · refine List.pairwise_of_forall_mem_list (fun y hy z hz _ _ => ?_)
    rw [hline x y hy, hline x z hz]
  · rw [hline x z hz] at hzt ⊢
    rw [hline y w hw] at hwt ⊢
    exact Nat.le_of_lt (hxy hzt hwt)

/-- **The events of a thread keep their order**, in every route and in what is written, as long as
    the thread does not overtake itself; the first time that it does, they no longer do. -/
theorem submit_order
    (hs : concurrentSubmit.ReachableBy (fun s step => s.overtakes t step = false) s) :
    s.InSubmitOrder t ∧
      (∀ i, ((s.written i).filter (fun x => x.1.thread = t)).Pairwise
        (fun x y => x.1.number ≤ y.1.number)) ∧
      ∀ step s', concurrentSubmit.next s step = some s' →
        (s'.InSubmitOrder t ↔ s.overtakes t step = false) := by
  have h := SubmitState.sound_of_reachable hs
  have hkeep : s.KeepsOrder t := by
    have hboth : s.Sound ∧ s.KeepsOrder t := by
      refine hs.invariant (I := fun s => s.Sound ∧ s.KeepsOrder t) ?_ ?_
      · intro s hinit
        refine ⟨SubmitState.Sound.init hinit, fun i => ?_⟩
        have hkept := (SubmitState.Sound.init hinit).history.kept i
        obtain ⟨cfg, routes, -, rfl⟩ := hinit
        have hnone := List.nil_perm.1 hkept
        simpa using (congrArg (ofThread t) hnone).symm
      · rintro s step s' ⟨h, hkeep⟩ hok hstep
        exact ⟨h.step hstep, hkeep.step h hok hstep⟩
    exact hboth.2
  refine ⟨h.inSubmitOrder hkeep, h.lines_ascend (h.inSubmitOrder hkeep), ?_⟩
  intro step s' hstep
  constructor
  · intro horder
    by_contra hover
    exact h.reordered (by simpa using hover) hstep horder
  · intro hok
    exact (h.step hstep).inSubmitOrder (hkeep.step h hok hstep)

/-- A thread that logs an event through the lane, and then one that is forced past it. -/
theorem submit_order_forced :
    ∃ s s' : SubmitState, concurrentSubmit.Reachable s ∧ s.InSubmitOrder 0 ∧
      concurrentSubmit.next s (.produce 0) = some s' ∧ ¬ s'.InSubmitOrder 0 := by
  have hinit : concurrentSubmit.ReachableBy (fun s step => s.overtakes 0 step = false) _ :=
    .init ⟨{}, [{ sinkRef := some 7 }], rfl, rfl⟩
  have hfree : concurrentSubmit.Reachable _ := .init ⟨{}, [{ sinkRef := some 7 }], rfl, rfl⟩
  have hs := hinit.runBy (.submit 0 {} 1#64 false :: List.replicate 7 (.produce 0)
    ++ [.submit 0 {} 1#64 true, .produce 0]) rfl
  have hs' := hfree.run (.submit 0 {} 1#64 false :: List.replicate 7 (.produce 0)
    ++ [.submit 0 {} 1#64 true, .produce 0]) rfl
  refine ⟨_, _, hs', (submit_order hs).1, rfl, fun horder => ?_⟩
  exact absurd (((submit_order hs).2.2 (.produce 0) _ rfl).1 horder) (by decide)

end SyLog
