import SyLog.Concurrency.SharedLanes

set_option autoImplicit false

/-! # Blocking lanes preserve events

A producer that finds a blocking lane full waits for room. Its push fails only on a closed queue,
and the queue of a lane that it has copied may be closed by an `add_route`, not only by a shutdown:
then the event is lost although `accepting` is set (`add_route_refuses_blocking`). In runs without
such a push, every submit that returns before the shutdown has handed its event exactly once to each
blocking route that it selects (`block_when_full_preserves`).

The invariant follows each submit: past lane `i`, it has handed its event once to the blocking
routes below `i`, and not at all to the others. -/

namespace SyLog

variable {a b : SharedState} {s s' : SubmitState}

/-! ## What a submit owes -/

/-- Route `i` had a lane when the submit began, blocks when full, and is selected. -/
def Submission.Owed (sub : Submission) (i : Nat) : Prop :=
  i < 64 ∧ selects sub.mask i = true ∧
    ∃ r, sub.configured[i]? = some r ∧ r.delivery = some .blockWhenFull

/-- A push to a blocking lane meets a closed queue while `accepting` is set. -/
def SubmitState.refusesBlocking (s : SubmitState) : SubmitStep → Bool
  | .produce t =>
    match s.producers t with
    | .inLane _ g i .pushing =>
      s.accepting && match (s.lanesAt g)[i]? with
        | some l => l.blocks && l.queue.queue.closed
        | none => false
    | _ => false
  | _ => false

namespace SharedState

/-- What was written to route `i` for a submit. -/
def writtenFor (a : SharedState) (i : Nat) (ticket : Ticket) : List Output :=
  ((a.written i).filter (fun x => x.1 = ticket)).map Prod.snd

/-- The events of a submit that the current lane of route `i` has pending. -/
def pendingFor (a : SharedState) (i : Nat) (ticket : Ticket) : List Event :=
  ((a.crossbar.pendingAt i).filter (fun x => x.1 = ticket)).map Prod.snd

end SharedState

/-! ## The progress of a submit -/

/-- The submit has handed its event once to the routes below `i` that it owes it to, as long as
    `accepting` is set, and to no route from `i` on. -/
structure SharedState.HandedBelow (a : SharedState) (sub : Submission) (i : Nat) : Prop where
  below : a.accepting = true → ∀ j, j < i → sub.Owed j → a.handedBy j sub.ticket = [sub.event]
  above : ∀ j, i ≤ j → a.handedBy j sub.ticket = []

/-- The submit is at lane `i` of a vector that has lanes for the routes it started with. -/
structure SharedState.AtLane (a : SharedState) (sub : Submission) (g i : Nat) : Prop where
  known : g ≤ a.generation
  serves : sub.configured <+: a.routesAt g
  handed : a.HandedBelow sub i

/-- What a thread has done for its submit with the given ticket. -/
def SubmitPhase.Fits (a : SharedState) (ticket : Ticket) : SubmitPhase → Prop
  | .idle => ∀ i, a.handedBy i ticket = []
  | .copying sub | .testing sub | .preparing sub | .snapshotting sub =>
    sub.ticket = ticket ∧ sub.configured <+: a.crossbar.routes ∧ ∀ i, a.handedBy i sub.ticket = []
  | .dispatching sub snapshot i _ =>
    sub.ticket = ticket ∧ sub.configured <+: snapshot ∧ snapshot <+: a.routes ∧ a.HandedBelow sub i
  | .visiting sub g i => sub.ticket = ticket ∧ a.AtLane sub g i
  | .inLane sub g i phase =>
    sub.ticket = ticket ∧ a.AtLane sub g i ∧
      -- a push that failed while `accepting` is set was no push to a blocking lane
      (phase = .releasing → a.accepting = true → ∀ r, (a.routesAt g)[i]? = some r →
        r.delivery ≠ some .blockWhenFull)

/-- What holds of a submit that has returned. -/
structure Submission.Delivered (s : SubmitState) (sub : Submission) : Prop where
  past : sub.ticket.number < s.submits sub.ticket.thread
  configured : sub.configured <+: s.routes
  handed : ∀ i, sub.Owed i → s.handedBy i sub.ticket = [sub.event]

structure SubmitInv (s : SubmitState) : Prop where
  lanes : LanesInv s.toSharedState
  history : HistoryInv s.toSharedState
  threads : ∀ t, (s.producers t).Fits s.toSharedState ⟨t, s.submits t⟩
  unused : ∀ t n, s.submits t < n → ∀ i, s.handedBy i ⟨t, n⟩ = []
  returned : ∀ sub ∈ s.returned, sub.Delivered s
  refused : s.refused ≠ [] → s.accepting = false

/-! ### Steps of others -/

theorem SharedState.HandedBelow.grows {sub : Submission} {i : Nat} {own : Option Ticket}
    (h : a.HandedBelow sub i) (hg : a.Grows own b) (hown : own ≠ some sub.ticket) :
    b.HandedBelow sub i := by
  refine ⟨fun hacc j hj howed => ?_, fun j hj => ?_⟩
  · rw [hg.handed _ hown]
    exact h.below (hg.accepting hacc) j hj howed
  · rw [hg.handed _ hown]
    exact h.above j hj

theorem SharedState.AtLane.grows {sub : Submission} {g i : Nat} {own : Option Ticket}
    (h : a.AtLane sub g i) (hg : a.Grows own b) (hown : own ≠ some sub.ticket) :
    b.AtLane sub g i :=
  ⟨Nat.le_trans h.known hg.generation, (hg.vectors g h.known).symm ▸ h.serves,
    h.handed.grows hg hown⟩

theorem SubmitPhase.Fits.grows {ticket : Ticket} {own : Option Ticket} {phase : SubmitPhase}
    (h : phase.Fits a ticket) (hg : a.Grows own b) (hown : own ≠ some ticket) :
    phase.Fits b ticket := by
  have hbefore : ∀ {sub : Submission}, sub.ticket = ticket → sub.configured <+: a.crossbar.routes →
      (∀ i, a.handedBy i sub.ticket = []) → sub.ticket = ticket ∧
        sub.configured <+: b.crossbar.routes ∧ ∀ i, b.handedBy i sub.ticket = [] := by
    intro sub hticket hconf hnone
    refine ⟨hticket, hconf.trans hg.current, fun i => ?_⟩
    rw [hg.handed _ (hticket ▸ hown)]
    exact hnone i
  cases phase with
  | idle =>
      intro i
      rw [hg.handed _ hown]
      exact h i
  | dispatching sub snapshot i buffer =>
      obtain ⟨hticket, hconf, hsnap, hhanded⟩ := h
      exact ⟨hticket, hconf, hsnap.trans hg.routes, hhanded.grows hg (hticket ▸ hown)⟩
  | visiting sub g i => exact ⟨h.1, h.2.grows hg (h.1 ▸ hown)⟩
  | inLane sub g i phase =>
      refine ⟨h.1, h.2.1.grows hg (h.1 ▸ hown), fun hr hacc => ?_⟩
      rw [hg.vectors g h.2.1.known]
      exact h.2.2 hr (hg.accepting hacc)
  | _ => exact hbefore h.1 h.2.1 h.2.2

/-- A submit that has returned stays delivered. -/
theorem Submission.Delivered.grows {sub : Submission} {own : Option Ticket}
    (h : sub.Delivered s) (hg : s.toSharedState.Grows own s'.toSharedState)
    (hown : own ≠ some sub.ticket) (hsubmits : ∀ t, s.submits t ≤ s'.submits t) :
    sub.Delivered s' := by
  refine ⟨Nat.lt_of_lt_of_le h.past (hsubmits _), h.configured.trans hg.routes, fun i howed => ?_⟩
  rw [hg.handed _ hown]
  exact h.handed i howed

/-- A step of another thread than the producers. -/
theorem SubmitInv.share (h : SubmitInv s)
    (hb : LanesInv b ∧ HistoryInv b ∧ s.toSharedState.Grows none b) :
    SubmitInv { s with toSharedState := b } := by
  obtain ⟨hlanes, hhistory, hg⟩ := hb
  refine ⟨hlanes, hhistory, fun t => (h.threads t).grows hg (by simp), fun t n hn i => ?_,
    fun sub hsub => (h.returned sub hsub).grows hg (by simp) (fun _ => Nat.le_refl _),
    fun hne => ?_⟩
  · show b.handedBy i ⟨t, n⟩ = []
    rw [hg.handed _ (by simp)]
    exact h.unused t n hn i
  · have hacc := h.refused hne
    cases hb : b.accepting with
    | false => rfl
    | true => exact absurd ((hg.accepting hb).symm.trans hacc) (by simp)

/-- Thread `t` goes on within its submit. -/
theorem SubmitInv.move (h : SubmitInv s) {t : Nat} {own : Option Ticket} {phase : SubmitPhase}
    {refused : List (Ticket × Nat)} (hlanes : LanesInv b) (hhistory : HistoryInv b)
    (hg : s.toSharedState.Grows own b) (hown : own = none ∨ own = some ⟨t, s.submits t⟩)
    (hphase : phase.Fits b ⟨t, s.submits t⟩) (hrefused : refused ≠ [] → b.accepting = false) :
    SubmitInv { s with toSharedState := b, producers := Function.update s.producers t phase,
                       refused } := by
  have hother : ∀ {ticket : Ticket}, ticket ≠ ⟨t, s.submits t⟩ → own ≠ some ticket := by
    rintro ticket hne rfl
    rcases hown with hown | hown
    · exact absurd hown (by simp)
    · exact hne (Option.some.inj hown)
  refine ⟨hlanes, hhistory, fun u => ?_, fun u n hn i => ?_, fun sub hsub => ?_, hrefused⟩
  · -- the other threads use other tickets
    show (Function.update s.producers t phase u).Fits b ⟨u, s.submits u⟩
    by_cases hu : u = t
    · subst hu
      rw [Function.update_self]
      exact hphase
    · rw [Function.update_of_ne hu]
      refine (h.threads u).grows hg (hother (fun he => hu ?_))
      exact congrArg Ticket.thread he
  · show b.handedBy i ⟨u, n⟩ = []
    have hne : (⟨u, n⟩ : Ticket) ≠ ⟨t, s.submits t⟩ := by
      intro he
      simp only [Ticket.mk.injEq] at he
      obtain ⟨rfl, rfl⟩ := he
      exact Nat.lt_irrefl _ hn
    rw [hg.handed _ (hother hne)]
    exact h.unused u n hn i
  · have hdelivered := h.returned sub hsub
    refine hdelivered.grows hg (hother (fun he => ?_)) (fun _ => Nat.le_refl _)
    have hpast := hdelivered.past
    rw [he] at hpast
    exact Nat.lt_irrefl _ hpast

/-- The submit of thread `t` returns. -/
theorem SubmitInv.finish (h : SubmitInv s) {t : Nat} {sub : Submission}
    (hticket : sub.ticket = ⟨t, s.submits t⟩) (hconf : sub.configured <+: s.routes)
    (hdone : s.accepting = true → ∀ i, sub.Owed i → s.handedBy i sub.ticket = [sub.event]) :
    SubmitInv (s.finish t sub) := by
  have hsubmits : ∀ u, s.submits u ≤ (s.finish t sub).submits u := by
    intro u
    by_cases hu : u = t
    · subst hu
      simp [SubmitState.finish]
    · simp [SubmitState.finish, hu]
  refine ⟨h.lanes, h.history, fun u => ?_, fun u n hn i => ?_, fun sub' hsub => ?_, h.refused⟩
  · by_cases hu : u = t
    · subst hu
      have hnext : (s.finish u sub).producers u = .idle ∧
          (s.finish u sub).submits u = s.submits u + 1 := by simp [SubmitState.finish]
      rw [hnext.1, hnext.2]
      exact h.unused u _ (Nat.lt_succ_self _)
    · have hsame : (s.finish t sub).producers u = s.producers u ∧
          (s.finish t sub).submits u = s.submits u := by simp [SubmitState.finish, hu]
      rw [hsame.1, hsame.2]
      exact h.threads u
  · exact h.unused u n (Nat.lt_of_le_of_lt (hsubmits u) hn) i
  · have hsame : s.toSharedState.Grows none (s.finish t sub).toSharedState :=
      SharedState.Grows.refl none _
    have hold : ∀ x ∈ s.returned, x.Delivered (s.finish t sub) :=
      fun x hx => (h.returned x hx).grows hsame (by simp) hsubmits
    cases hacc : s.accepting with
    | false => exact hold sub' (by simpa [SubmitState.finish, hacc] using hsub)
    | true =>
        have hor : sub' ∈ s.returned ∨ sub' = sub := by
          simpa [SubmitState.finish, hacc] using hsub
        rcases hor with hsub | rfl
        · exact hold sub' hsub
        · refine ⟨?_, hconf, hdone hacc⟩
          rw [hticket]
          simp [SubmitState.finish]

/-! ### Steps of the thread itself -/

theorem Submission.Owed.lt {sub : Submission} {i j : Nat} {routes : List Route}
    (h : sub.Owed j) (hconf : sub.configured <+: routes) (hend : routes.length ≤ i ∨ 64 ≤ i) :
    j < i := by
  obtain ⟨hj, -, r, hr, -⟩ := h
  obtain ⟨hlt, -⟩ := List.getElem?_eq_some_iff.1 hr
  have hlen := hconf.length_le
  omega

namespace SharedState

/-- Route `i` gets nothing, and is owed nothing. -/
theorem HandedBelow.pass {sub : Submission} {i : Nat} (h : a.HandedBelow sub i)
    (hno : a.accepting = true → ¬ sub.Owed i) : a.HandedBelow sub (i + 1) := by
  refine ⟨fun hacc j hj howed => ?_, fun j hj => h.above j (by omega)⟩
  rcases Nat.lt_succ_iff_lt_or_eq.1 hj with hlt | rfl
  · exact h.below hacc j hlt howed
  · exact absurd howed (hno hacc)

/-- Route `i` gets the event. -/
theorem HandedBelow.hand {sub : Submission} {i : Nat} (h : a.HandedBelow sub i) :
    (a.hand i (sub.ticket, sub.event)).HandedBelow sub (i + 1) := by
  refine ⟨fun hacc j hj howed => ?_, fun j hj => ?_⟩
  · rw [handedBy_hand]
    by_cases hji : j = i
    · subst hji
      rw [h.above j (Nat.le_refl j)]
      simp
    · rw [h.below hacc j (by omega) howed]
      simp [hji]
  · rw [handedBy_hand, h.above j (by omega)]
    have hji : j ≠ i := by omega
    simp [hji]

/-- The lane of a route that the submit owes its event blocks. -/
theorem AtLane.not_owed {sub : Submission} {g i : Nat} (h : a.AtLane sub g i)
    (hno : ∀ r, (a.routesAt g)[i]? = some r → r.delivery ≠ some .blockWhenFull) : ¬ sub.Owed i := by
  rintro ⟨-, -, r, hr, hblock⟩
  exact hno r (getElem?_mono h.serves hr) hblock

end SharedState

theorem Lane.blocks_iff {α : Type} (l : Lane α) :
    l.blocks = true ↔ l.route.delivery = some .blockWhenFull := by
  simp [Lane.blocks]

/-- The route at index `i` of a vector is that of the lane there. -/
theorem SharedState.delivery_of_lane {g i : Nat} {l : Lane Ticketed}
    (hl : (a.lanesAt g)[i]? = some l) (hno : l.blocks = false) :
    ∀ r, (a.routesAt g)[i]? = some r → r.delivery ≠ some .blockWhenFull := by
  intro r hr hblock
  have hroute : l.route = r := by
    simpa [SharedState.routesAt, List.getElem?_map, hl] using hr
  rw [← hroute] at hblock
  rw [l.blocks_iff.2 hblock] at hno
  exact absurd hno (by simp)

/-- A lane reports failure; if it blocks, `accepting` has been cleared. -/
theorem SubmitInv.fail (h : SubmitInv s) {t : Nat} {sub : Submission} {g i : Nat}
    {l : Lane Ticketed} (hlanes : LanesInv b) (hhistory : HistoryInv b)
    (hg : s.toSharedState.Grows none b) (hticket : sub.ticket = ⟨t, s.submits t⟩)
    (hat : b.AtLane sub g i) (hl : (b.lanesAt g)[i]?.map Lane.route = some l.route)
    (hwhy : l.blocks = true → b.accepting = false) :
    SubmitInv (SubmitState.fail { s with toSharedState := b } t sub g i l) := by
  refine h.move hlanes hhistory hg (Or.inl rfl) ⟨hticket, hat.known, hat.serves, ?_⟩ (fun hne => ?_)
  · refine hat.handed.pass (fun hacc => hat.not_owed (fun r hr hblock => ?_))
    have hroute : l.route = r := by
      rw [SharedState.routesAt, List.getElem?_map, hl] at hr
      exact Option.some.inj hr
    have hblocks := l.blocks_iff.2 (hroute ▸ hblock)
    exact absurd (hacc.symm.trans (hwhy hblocks)) (by simp)
  · cases hblocks : l.blocks with
    | true => exact hwhy hblocks
    | false =>
        rw [hblocks, if_neg (by simp)] at hne
        have hacc := h.refused hne
        cases hb : b.accepting with
        | false => rfl
        | true => exact absurd ((hg.accepting hb).symm.trans hacc) (by simp)

/-- A slot of the lane is reserved. -/
theorem SubmitInv.reserve (h : SubmitInv s) {t : Nat} {sub : Submission} {g i : Nat}
    {l : Lane Ticketed} {q : WorkersEventQueue Ticketed} (hticket : sub.ticket = ⟨t, s.submits t⟩)
    (hat : s.AtLane sub g i) (hl : (s.lanesAt g)[i]? = some l) (hq : q.queue = l.queue.queue) :
    SubmitInv (SubmitState.setProducer
      { s with toSharedState := s.setLane g i { l with queue := q } }
      t (.inLane sub g i .pushing)) := by
  have hgrows := SharedState.grows_setQueue hl q none
  have hpend : Lane.pending { l with queue := q } = l.pending := by simp [Lane.pending, hq]
  refine h.move (h.lanes.resize hl hq) (h.history.resize hl hpend) hgrows (Or.inl rfl)
    ⟨hticket, hat.grows hgrows (by simp), fun hr => absurd hr (by simp)⟩ (fun hne => ?_)
  rw [(s.setLane_frame g i _).2.1]
  exact h.refused hne

/-- A push succeeds. Only the current lanes have open queues, so the event is pending in one. -/
theorem SubmitInv.accept (h : SubmitInv s) {t : Nat} {sub : Submission} {g i : Nat}
    {l : Lane Ticketed} {q : WorkersEventQueue Ticketed} (hticket : sub.ticket = ⟨t, s.submits t⟩)
    (hat : s.AtLane sub g i) (hl : (s.lanesAt g)[i]? = some l)
    (hopen : l.queue.queue.closed = false)
    (hq : q.queue = { l.queue.queue with
      items := l.queue.queue.items ++ [(sub.ticket, sub.event)] }) :
    SubmitInv (SubmitState.setProducer
      { s with
        toSharedState := (s.setLane g i { l with queue := q }).hand i (sub.ticket, sub.event) }
      t (.visiting sub g (i + 1))) := by
  obtain ⟨rfl, -⟩ := h.lanes.current_of_open hl hopen
  have hclosed : q.queue.closed = l.queue.queue.closed := by rw [hq]
  have hpend : Lane.pending { l with queue := q } = l.pending ++ [(sub.ticket, sub.event)] := by
    simp [Lane.pending, hq]
  have hset := SharedState.grows_setQueue hl q
  have hat' := hat.grows (hset none) (by simp)
  refine h.move ((h.lanes.push hl hopen hclosed).hand i _) (h.history.push hl hpend)
    ((hset _).trans (SharedState.grows_hand _ i _)) (Or.inr (congrArg some hticket))
    ⟨hticket, hat'.known, hat'.serves, hat'.handed.hand⟩ (fun hne => ?_)
  show (s.setLane _ i _).accepting = false
  rw [(s.setLane_frame _ i _).2.1]
  exact h.refused hne

/-- A failed push gives its slot back, and the lane reports failure. -/
theorem SubmitInv.release (h : SubmitInv s) {t : Nat} {sub : Submission} {g i : Nat}
    {l : Lane Ticketed} {q : WorkersEventQueue Ticketed} (hticket : sub.ticket = ⟨t, s.submits t⟩)
    (hat : s.AtLane sub g i)
    (hkept : s.accepting = true → ∀ r, (s.routesAt g)[i]? = some r →
      r.delivery ≠ some .blockWhenFull)
    (hl : (s.lanesAt g)[i]? = some l) (hq : q.queue = l.queue.queue) :
    SubmitInv (SubmitState.fail
      { s with toSharedState := s.setLane g i { l with queue := q } } t sub g i l) := by
  have hgrows := SharedState.grows_setQueue hl q none
  have hpend : Lane.pending { l with queue := q } = l.pending := by simp [Lane.pending, hq]
  refine h.fail (h.lanes.resize hl hq) (h.history.resize hl hpend) hgrows hticket
    (hat.grows hgrows (by simp)) ?_ (fun hblocks => ?_)
  · obtain ⟨hi, -⟩ := List.getElem?_eq_some_iff.1 hl
    rw [SharedState.lanesAt_setLane, if_pos rfl, List.getElem?_set_self hi]
    rfl
  · rw [(s.setLane_frame g i _).2.1]
    cases hacc : s.accepting with
    | false => rfl
    | true =>
        have hroute : (s.routesAt g)[i]? = some l.route := by
          simp [SharedState.routesAt, List.getElem?_map, hl]
        exact absurd (l.blocks_iff.1 hblocks) (hkept hacc _ hroute)

theorem SubmitInv.produce (h : SubmitInv s) {t : Nat}
    (hok : s.refusesBlocking (.produce t) = false) (hstep : s.produce t = some s') :
    SubmitInv s' := by
  have hfits := h.threads t
  have hstay : ∀ {phase : SubmitPhase}, phase.Fits s.toSharedState ⟨t, s.submits t⟩ →
      SubmitInv (s.setProducer t phase) := fun hphase =>
    h.move h.lanes h.history (SharedState.Grows.refl none _) (Or.inl rfl) hphase h.refused
  cases produceStep_of_produce hstep with
  | copied sub hphase =>
      rw [hphase] at hfits
      exact hstay hfits
  | tested sub hphase =>
      rw [hphase] at hfits
      split
      · exact hstay hfits
      · exact hstay hfits
  | prepared sub hphase =>
      rw [hphase] at hfits
      obtain ⟨hticket, hconf, hnone⟩ := hfits
      have hserves : s.crossbar.routes <+: s.routes :=
        s.routesAt_generation ▸ h.lanes.serves s.generation
      exact hstay ⟨hticket, hconf.trans hserves, List.prefix_rfl,
        fun _ j hj => absurd hj (by omega), fun j _ => hnone j⟩
  | dispatched sub snapshot i buffer hphase hend =>
      rw [hphase] at hfits
      obtain ⟨hticket, hconf, hsnap, hhanded⟩ := hfits
      exact h.finish hticket (hconf.trans hsnap)
        (fun hacc j howed => hhanded.below hacc j (howed.lt hconf hend) howed)
  | passed sub snapshot i buffer hphase hsel =>
      rw [hphase] at hfits
      obtain ⟨hticket, hconf, hsnap, hhanded⟩ := hfits
      have hno : ¬ sub.Owed i := fun howed => absurd (hsel.symm.trans howed.2.1) (by simp)
      exact hstay ⟨hticket, hconf, hsnap, hhanded.pass (fun _ => hno)⟩
  | dispatch sub snapshot i buffer buffer' r hphase hr =>
      rw [hphase] at hfits
      obtain ⟨hticket, hconf, hsnap, hhanded⟩ := hfits
      have hr' : s.routes[i]? = some r := getElem?_mono hsnap hr
      have hnext := hhanded.hand
      exact h.move ((h.lanes.hand i _).record i _ _) (h.history.dispatch hr' _)
        ((s.grows_hand i _).trans (SharedState.grows_record _ i _ _ _))
        (Or.inr (congrArg some hticket)) ⟨hticket, hconf, hsnap, hnext.below, hnext.above⟩ h.refused
  | snapshot sub hphase =>
      rw [hphase] at hfits
      obtain ⟨hticket, hconf, hnone⟩ := hfits
      exact hstay ⟨hticket, Nat.le_refl _, s.routesAt_generation.symm ▸ hconf,
        fun _ j hj => absurd hj (by omega), fun j _ => hnone j⟩
  | visited sub g i hphase hend =>
      -- the loop is past every lane that the submit owes its event to
      rw [hphase] at hfits
      obtain ⟨hticket, hat⟩ := hfits
      have hend' : (s.routesAt g).length ≤ i ∨ 64 ≤ i := by
        simpa [SharedState.routesAt] using hend
      exact h.finish hticket (hat.serves.trans (h.lanes.serves g))
        (fun hacc j howed => hat.handed.below hacc j (howed.lt hat.serves hend') howed)
  | skipped sub g i hphase hsel =>
      rw [hphase] at hfits
      obtain ⟨hticket, hat⟩ := hfits
      have hno : ¬ sub.Owed i := fun howed => absurd (hsel.symm.trans howed.2.1) (by simp)
      exact hstay ⟨hticket, hat.known, hat.serves, hat.handed.pass (fun _ => hno)⟩
  | entered sub g i phase hphase hkeep =>
      rw [hphase] at hfits
      exact hstay ⟨hfits.1, hfits.2, fun hr => absurd hr hkeep⟩
  | moved sub g i phase phase' hphase hkeep =>
      rw [hphase] at hfits
      exact hstay ⟨hfits.1, hfits.2.1, fun hr => absurd hr hkeep⟩
  | reserved sub g i phase l q hphase hl hq =>
      rw [hphase] at hfits
      exact h.reserve hfits.1 hfits.2.1 hl hq
  | accepted sub g i phase l q hphase hl hopen hq =>
      rw [hphase] at hfits
      exact h.accept hfits.1 hfits.2.1 hl hopen hq
  | rejected sub g i l hphase hl hclosed =>
      rw [hphase] at hfits
      obtain ⟨hticket, hat, -⟩ := hfits
      refine hstay ⟨hticket, hat, fun _ hacc => SharedState.delivery_of_lane hl ?_⟩
      -- the step is allowed, so it is not a blocking lane that was found closed
      have hacc' : s.accepting = true := hacc
      simpa [SubmitState.refusesBlocking, hphase, hl, hclosed, hacc'] using hok
  | failed sub g i phase l hphase hl hwhy =>
      rw [hphase] at hfits
      obtain ⟨hticket, hat, -⟩ := hfits
      exact h.fail h.lanes h.history (SharedState.Grows.refl none _) hticket hat (by rw [hl]; rfl)
        hwhy
  | released sub g i l q hphase hl hq =>
      rw [hphase] at hfits
      exact h.release hfits.1 hfits.2.1 (hfits.2.2 rfl) hl hq

theorem SubmitInv.step {step : SubmitStep} (h : SubmitInv s)
    (hok : s.refusesBlocking step = false) (hstep : concurrentSubmit.next s step = some s') :
    SubmitInv s' := by
  cases step with
  | submit t e mask forceSync =>
      simp only [concurrentSubmit] at hstep
      split at hstep
      · next hidle =>
          obtain rfl := Option.some.inj hstep
          have hnone := h.threads t
          rw [hidle] at hnone
          refine h.move h.lanes h.history (SharedState.Grows.refl none _) (Or.inl rfl) ?_ h.refused
          split
          · exact ⟨rfl, List.prefix_rfl, hnone⟩
          · exact ⟨rfl, List.prefix_rfl, hnone⟩
      · exact absurd hstep (by simp)
  | produce t => exact h.produce hok hstep
  | work g i act =>
      obtain ⟨b, hwork, rfl⟩ := Option.map_eq_some_iff.1 hstep
      exact h.share (h.history.work h.lanes hwork)
  | addRoute r =>
      simp only [concurrentSubmit] at hstep
      split at hstep
      · next hidle =>
          obtain rfl := Option.some.inj hstep
          exact h.share (h.lanes.addRoute h.history hidle r)
      · exact absurd hstep (by simp)
  | reconfigure =>
      obtain ⟨b, hrec, rfl⟩ := Option.map_eq_some_iff.1 hstep
      exact h.share (h.lanes.reconfigure h.history hrec)
  | shutDown =>
      obtain rfl := Option.some.inj hstep
      exact h.share (h.lanes.shutDown h.history)

theorem SubmitInv.init (hinit : concurrentSubmit.init s) : SubmitInv s := by
  obtain ⟨cfg, routes, -, rfl⟩ := hinit
  let x : SinkCrossbar Ticketed := (SinkCrossbar.new cfg.queueCapacity).configure routes
    cfg.queueCapacity
  have hfits : x.Fits none := SinkCrossbar.rebuild_fits _ false routes _ (fun _ => rfl)
  have hempty : ∀ i, x.pendingAt i = [] :=
    SinkCrossbar.pendingAt_eq_nil (fun l hl => SinkCrossbar.rebuild_pending hl)
  have hroutes : x.start.routes = routes :=
    x.start_routes.trans (SinkCrossbar.configure_routes _ _ _)
  refine ⟨⟨hfits.start, x.start_running, fun g _ l hl => absurd hl (by simp), fun g => ?_⟩,
    ⟨fun i => ?_, fun i => rfl, fun i hne => absurd rfl hne⟩, fun t i => rfl, fun t n _ i => rfl,
    fun sub hsub => absurd hsub (by simp), fun hne => absurd rfl hne⟩
  · by_cases hg : g = 0
    · subst hg
      exact ⟨[], (List.append_nil _).trans hroutes⟩
    · have hnone : SharedState.routesAt { cfg, routes, crossbar := x.start } g = [] := by
        simp [SharedState.routesAt, SharedState.lanesAt, hg]
      exact hnone.symm ▸ List.nil_prefix
  · have hnone : x.start.pendingAt i = [] :=
      List.sublist_nil.1 (hempty i ▸ x.start_pendingAt_sublist i)
    show List.Perm [] ([] ++ x.start.pendingAt i)
    rw [hnone]
    exact List.Perm.refl _

/-! ## Exactly once -/

/-- What was written for a submit is what the route owes the elements of that submit. -/
theorem HistoryInv.writtenFor (h : HistoryInv a) (i : Nat) (ticket : Ticket) :
    a.writtenFor i ticket
      = (((a.processed i).filter (fun x => x.1 = ticket)).flatMap (a.linesOf i)).map Prod.snd := by
  have hline : ∀ x, (a.linesOf i x).filter (fun y => y.1 = ticket)
      = if x.1 = ticket then a.linesOf i x else [] := by
    intro x
    have hfst : ∀ y ∈ a.linesOf i x, y.1 = x.1 := by
      intro y hy
      unfold SharedState.linesOf at hy
      cases hr : a.routes[i]? with
      | none => simp [hr] at hy
      | some r =>
          simp only [hr, Option.map_some, Option.getD_some, List.mem_map] at hy
          obtain ⟨o, -, rfl⟩ := hy
          rfl
    by_cases hx : x.1 = ticket
    · rw [if_pos hx]
      exact List.filter_eq_self.2 (fun y hy => by simpa using (hfst y hy).trans hx)
    · rw [if_neg hx]
      exact List.filter_eq_nil_iff.2 (fun y hy => by simpa [hfst y hy] using hx)
  have hfilter : ∀ xs : List Ticketed, (xs.flatMap (a.linesOf i)).filter (fun y => y.1 = ticket)
      = (xs.filter (fun x => x.1 = ticket)).flatMap (a.linesOf i) := by
    intro xs
    induction xs with
    | nil => rfl
    | cons x xs ih =>
        rw [List.flatMap_cons, List.filter_append, ih, hline x]
        by_cases hx : x.1 = ticket <;> simp [hx]
  rw [SharedState.writtenFor, h.wrote i, hfilter]

/-- An element that was handed to a route once has been dealt with, or is pending. -/
theorem HistoryInv.once (h : HistoryInv a) {i : Nat} {ticket : Ticket} {e : Event} {r : Route}
    (hr : a.routes[i]? = some r) (honce : a.handedBy i ticket = [e]) :
    (a.writtenFor i ticket = r.outputs i e ∧ a.pendingFor i ticket = []) ∨
      (a.writtenFor i ticket = [] ∧ a.pendingFor i ticket = [e]) := by
  obtain ⟨x, hx, rfl⟩ := List.map_eq_singleton_iff.1 honce
  have hticket : x.1 = ticket := by
    have hmem : x ∈ (a.handed i).filter (fun x => x.1 = ticket) := by simp [hx]
    simpa using (List.mem_filter.1 hmem).2
  have hperm := (h.kept i).filter (fun x => x.1 = ticket)
  rw [hx, List.filter_append] at hperm
  have hsplit := List.perm_singleton.1 hperm.symm
  rw [h.writtenFor, SharedState.pendingFor]
  rcases List.append_eq_singleton_iff.1 hsplit with ⟨hp, hq⟩ | ⟨hp, hq⟩
  · right
    simp [hp, hq]
  · left
    simp [hp, hq, SharedState.linesOf, hr, Function.comp_def]

/-- **Blocking lanes preserve events until shutdown.** Unless a push to a blocking lane meets a
    queue that was closed while `accepting` is set, every submit that returned before the shutdown
    has its event, for each blocking route that it selects and that was there when it began, either
    dealt with by the route (and written once if its filters pass) or pending once in the current
    lane; and no push to a blocking lane has reported failure before the shutdown. -/
theorem block_when_full_preserves
    (hs : concurrentSubmit.ReachableBy (fun s step => s.refusesBlocking step = false) s) :
    (∀ sub ∈ s.returned, ∀ i r, i < 64 → selects sub.mask i = true → sub.configured[i]? = some r →
      r.delivery = some .blockWhenFull →
        (s.writtenFor i sub.ticket = r.outputs i sub.event ∧ s.pendingFor i sub.ticket = []) ∨
        (s.writtenFor i sub.ticket = [] ∧ s.pendingFor i sub.ticket = [sub.event])) ∧
      (s.refused ≠ [] → s.accepting = false) := by
  have hinv : SubmitInv s := hs.invariant (fun _ h => SubmitInv.init h)
    (fun _ _ _ h hok hstep => h.step hok hstep)
  refine ⟨fun sub hsub i r hi hsel hr hblock => ?_, hinv.refused⟩
  have hdelivered := hinv.returned sub hsub
  exact hinv.history.once (getElem?_mono hdelivered.configured hr)
    (hdelivered.handed i ⟨hi, hsel, r, hr, hblock⟩)

/-- An event that goes through the lane, while a route is added. -/
theorem block_when_full_preserves_one_event :
    ∃ s : SubmitState, s.returned.length = 1 ∧
      ((s.writtenFor 0 ⟨0, 0⟩ = [.write 0 7 (bytes "hi\n")] ∧ s.pendingFor 0 ⟨0, 0⟩ = []) ∨
        (s.writtenFor 0 ⟨0, 0⟩ = [] ∧ s.pendingFor 0 ⟨0, 0⟩ = [{ message := bytes "hi" }])) := by
  have hinit : concurrentSubmit.ReachableBy (fun s step => s.refusesBlocking step = false) _ :=
    .init ⟨{}, [{ sinkRef := some 7, delivery := some .blockWhenFull }], rfl, rfl⟩
  have hs := hinit.runBy [.submit 0 { message := bytes "hi" } 1#64 false, .addRoute {}, .produce 0,
    .produce 0, .produce 0, .produce 0, .produce 0, .produce 0, .produce 0, .reconfigure,
    .produce 0, .reconfigure, .reconfigure, .work 0 0 .run, .work 0 0 .run, .work 0 0 .run,
    .work 0 0 .run, .work 0 0 .giveUp, .work 0 0 .run, .work 0 0 .run, .reconfigure,
    .reconfigure] rfl
  exact ⟨_, rfl, (block_when_full_preserves hs).1 _ (List.mem_singleton.2 rfl) 0
    { sinkRef := some 7, delivery := some .blockWhenFull } (by decide) (by decide) rfl rfl⟩

/-- The proviso is needed: such a push goes on to report failure while `accepting` is set. -/
theorem refused_of_refusesBlocking {t : Nat} (h : s.refusesBlocking (.produce t) = true) :
    ∃ s', concurrentSubmit.run s [.produce t, .produce t] = some s' ∧ s'.refused ≠ [] ∧
      s'.accepting = true := by
  cases hphase : s.producers t with
  | inLane sub g i phase =>
      cases phase with
      | pushing =>
          simp only [SubmitState.refusesBlocking, hphase, Bool.and_eq_true] at h
          obtain ⟨hacc, hlane⟩ := h
          cases hl : (s.lanesAt g)[i]? with
          | none => simp [hl] at hlane
          | some l =>
              simp only [hl, Bool.and_eq_true] at hlane
              have hreject : s.produce t = some (s.setProducer t (.inLane sub g i .releasing)) := by
                simp [SubmitState.produce, hphase, hl, SubmitState.push, BlockingQueue.push,
                  hlane.2]
              let b := s.setLane g i { l with queue := l.queue.releaseSlot }
              let s' := SubmitState.fail
                { s.setProducer t (.inLane sub g i .releasing) with toSharedState := b } t sub g i l
              have hrelease :
                  (s.setProducer t (.inLane sub g i .releasing)).produce t = some s' := by
                simp [SubmitState.produce, SubmitState.setProducer, hl, SubmitState.push, b, s']
              refine ⟨s', ?_, ?_, ?_⟩
              · simp only [Machine.run, concurrentSubmit, hreject, hrelease, Option.bind_some]
              · have hrefused : s'.refused = s.refused ++ [(sub.ticket, i)] := if_pos hlane.1
                simp [hrefused]
              · exact (s.setLane_frame g i _).2.1.trans hacc
      | _ => simp [SubmitState.refusesBlocking, hphase] at h
  | _ => simp [SubmitState.refusesBlocking, hphase] at h

/-- The push comes after the close: the thread has copied the lanes and reserved a slot when an
    `add_route` closes the queue. The event is neither written nor pending, although nothing has
    cleared `accepting`. -/
theorem add_route_refuses_blocking :
    ∃ s : SubmitState, concurrentSubmit.Reachable s ∧ s.accepting = true ∧
      s.refused = [(⟨0, 0⟩, 0)] ∧ ∃ sub ∈ s.returned, selects sub.mask 0 = true ∧
        ∃ r : Route, sub.configured[0]? = some r ∧ r.delivery = some .blockWhenFull ∧
          r.outputs 0 sub.event ≠ [] ∧
          s.writtenFor 0 sub.ticket = [] ∧ s.pendingFor 0 sub.ticket = [] := by
  have hinit : concurrentSubmit.Reachable _ :=
    .init ⟨{}, [{ sinkRef := some 7, delivery := some .blockWhenFull }], rfl, rfl⟩
  have hs := hinit.run [.submit 0 { message := bytes "hi" } 1#64 false, .produce 0, .produce 0,
    .produce 0, .produce 0, .produce 0, .produce 0, .addRoute {}, .reconfigure, .reconfigure,
    .produce 0, .produce 0, .produce 0, .reconfigure, .work 0 0 .giveUp, .work 0 0 .run,
    .work 0 0 .run, .reconfigure, .reconfigure] rfl
  refine ⟨_, hs, rfl, rfl, _, List.mem_singleton.2 rfl, by decide, _, rfl, rfl, ?_, rfl, rfl⟩
  decide

end SyLog
