import SyLog.Concurrency.ConcurrentSubmit

set_option autoImplicit false

/-! # Lanes that are replaced while producers use them

What the steps of all threads keep of the shared data. A vector of lanes is closed and drained
before `add_route` replaces it, so whatever was pushed for a route is either processed or pending in
the route's current lane (`HistoryInv`), and a producer that still holds an older vector cannot push
into it (`LanesInv`). `SharedState.Grows` is what a producer in the middle of a submit can rely on
while the others go on. -/

namespace SyLog

variable {a b : SharedState}

namespace SharedState

/-- The events that a submit has handed to route `i`. -/
def handedBy (a : SharedState) (i : Nat) (ticket : Ticket) : List Event :=
  ((a.handed i).filter (fun x => x.1 = ticket)).map Prod.snd

/-- The routes that the lanes of vector `g` serve. -/
def routesAt (a : SharedState) (g : Nat) : List Route := (a.lanesAt g).map Lane.route

end SharedState

/-! ## The shared data -/

/-- What `add_route` has left to do fits the crossbar and the routes. -/
def AddPhase.Fits (crossbar : SinkCrossbar Ticketed) (current : List Route) : AddPhase → Prop
  | .idle => crossbar.running = true
  | .updating routes => crossbar.running = true ∧ routes = current
  | .stopping (.submitting _ _ _) _ => False
  | .stopping (.closing drain _) routes =>
    drain = true ∧ routes = current ∧ ∀ l ∈ crossbar.lanes, l.worker.joinable = true
  | .stopping (.joining drain _) routes => drain = true ∧ routes = current

def AddPhase.call : AddPhase → Option (CrossbarPhase Ticketed)
  | .stopping phase _ => some phase
  | _ => none

/-- The lanes: those of the crossbar fit what `add_route` is doing, those it had before are closed
    and have no worker, and each vector serves the first routes of the pipeline. -/
structure LanesInv (a : SharedState) : Prop where
  lanes : a.crossbar.Fits a.adder.call
  adder : a.adder.Fits a.crossbar a.routes
  retired : ∀ g, g ≠ a.generation → ∀ l ∈ a.old g,
    l.queue.queue.closed = true ∧ l.worker = .unstarted
  serves : ∀ g, a.routesAt g <+: a.routes

/-- What route `i` owes an element. -/
def SharedState.linesOf (a : SharedState) (i : Nat) (x : Ticketed) : List (Ticket × Output) :=
  ((a.routes[i]?).map (fun r => (r.outputs i x.2).map (x.1, ·))).getD []

/-- The histories: what was handed to a route is processed or pending in its current lane, and what
    was written is what the route owes for what it has processed. -/
structure HistoryInv (a : SharedState) : Prop where
  kept : ∀ i, (a.handed i).Perm (a.processed i ++ a.crossbar.pendingAt i)
  wrote : ∀ i, a.written i = (a.processed i).flatMap (a.linesOf i)
  inRange : ∀ i, a.processed i ≠ [] → i < a.routes.length

/-- What the progress of a submit relies on; only the submit with the ticket `own`, if any, hands
    something over. -/
structure SharedState.Grows (own : Option Ticket) (a b : SharedState) : Prop where
  accepting : b.accepting = true → a.accepting = true
  routes : a.routes <+: b.routes
  generation : a.generation ≤ b.generation
  vectors : ∀ g, g ≤ a.generation → b.routesAt g = a.routesAt g
  current : a.crossbar.routes <+: b.crossbar.routes
  handed : ∀ ticket, own ≠ some ticket → ∀ i, b.handedBy i ticket = a.handedBy i ticket

theorem getElem?_mono {α : Type} {xs ys : List α} (h : xs <+: ys) {i : Nat} {x : α}
    (hx : xs[i]? = some x) : ys[i]? = some x := by
  obtain ⟨hi, rfl⟩ := List.getElem?_eq_some_iff.1 hx
  exact List.prefix_iff_getElem?.1 h i hi

namespace SharedState

theorem Grows.refl (own : Option Ticket) (a : SharedState) : a.Grows own a :=
  ⟨id, List.prefix_rfl, Nat.le_refl _, fun _ _ => rfl, List.prefix_rfl, fun _ _ _ => rfl⟩

theorem Grows.trans {own : Option Ticket} {c : SharedState} (h : a.Grows own b)
    (h' : b.Grows own c) : a.Grows own c :=
  ⟨fun hc => h.accepting (h'.accepting hc), h.routes.trans h'.routes,
    Nat.le_trans h.generation h'.generation,
    fun g hg => (h'.vectors g (Nat.le_trans hg h.generation)).trans (h.vectors g hg),
    h.current.trans h'.current,
    fun ticket hne i => (h'.handed ticket hne i).trans (h.handed ticket hne i)⟩

theorem routesAt_generation (a : SharedState) : a.routesAt a.generation = a.crossbar.routes := by
  simp [routesAt, lanesAt, SinkCrossbar.routes]

/-! ### Replacing a lane -/

theorem setLane_frame (a : SharedState) (g i : Nat) (l : Lane Ticketed) :
    (a.setLane g i l).routes = a.routes ∧ (a.setLane g i l).accepting = a.accepting ∧
      (a.setLane g i l).generation = a.generation ∧ (a.setLane g i l).adder = a.adder ∧
      (a.setLane g i l).handed = a.handed ∧ (a.setLane g i l).processed = a.processed ∧
      (a.setLane g i l).written = a.written := by
  unfold setLane
  split <;> exact ⟨rfl, rfl, rfl, rfl, rfl, rfl, rfl⟩

theorem lanesAt_setLane (a : SharedState) (g i : Nat) (l : Lane Ticketed) (k : Nat) :
    (a.setLane g i l).lanesAt k = if k = g then (a.lanesAt g).set i l else a.lanesAt k := by
  unfold setLane lanesAt
  by_cases hg : g = a.generation
  · by_cases hk : k = g
    · subst hk
      simp [hg]
    · have hk' : ¬ k = a.generation := fun he => hk (he.trans hg.symm)
      simp [hg, hk']
  · by_cases hk : k = g
    · subst hk
      simp [hg]
    · simp [hg, hk]

theorem routesAt_setLane {g i : Nat} {l l' : Lane Ticketed} (hl : (a.lanesAt g)[i]? = some l)
    (hroute : l'.route = l.route) (k : Nat) : (a.setLane g i l').routesAt k = a.routesAt k := by
  unfold routesAt
  rw [lanesAt_setLane]
  by_cases hk : k = g
  · subst hk
    rw [if_pos rfl]
    exact SinkCrossbar.routes_set (x := { a.crossbar with lanes := a.lanesAt k }) hl hroute
  · rw [if_neg hk]

theorem setLane_crossbar (a : SharedState) (g i : Nat) (l : Lane Ticketed) :
    (a.setLane g i l).crossbar
      = if g = a.generation then { a.crossbar with lanes := a.crossbar.lanes.set i l }
        else a.crossbar := by
  unfold setLane
  split <;> rfl

theorem lanesAt_generation (a : SharedState) : a.lanesAt a.generation = a.crossbar.lanes :=
  if_pos rfl

/-- Replacing a lane changes what is pending in that lane, if it is a current one. -/
theorem setLane_pendingAt {g i : Nat} {l : Lane Ticketed} (hl : (a.lanesAt g)[i]? = some l)
    (l' : Lane Ticketed) (j : Nat) :
    (a.setLane g i l').crossbar.pendingAt j
      = if g = a.generation ∧ j = i then l'.pending else a.crossbar.pendingAt j := by
  rw [setLane_crossbar]
  by_cases hg : g = a.generation
  · subst hg
    rw [lanesAt_generation] at hl
    rw [if_pos rfl, SinkCrossbar.pendingAt_set hl]
    simp
  · simp [hg]

theorem grows_setLane {g i : Nat} {l l' : Lane Ticketed} (hl : (a.lanesAt g)[i]? = some l)
    (hroute : l'.route = l.route) (own : Option Ticket) : a.Grows own (a.setLane g i l') := by
  obtain ⟨hroutes, hacc, hgen, -, hhanded, -, -⟩ := a.setLane_frame g i l'
  have hsame := routesAt_setLane hl hroute a.generation
  rw [← hgen, routesAt_generation, hgen, routesAt_generation] at hsame
  exact ⟨fun h => hacc ▸ h, hroutes ▸ List.prefix_rfl, hgen ▸ Nat.le_refl _,
    fun k _ => routesAt_setLane hl hroute k, hsame ▸ List.prefix_rfl,
    fun ticket _ i => by rw [handedBy, hhanded, handedBy]⟩

theorem grows_setQueue {g i : Nat} {l : Lane Ticketed} (hl : (a.lanesAt g)[i]? = some l)
    (q : WorkersEventQueue Ticketed) (own : Option Ticket) :
    a.Grows own (a.setLane g i { l with queue := q }) := by
  have hroute : Lane.route { l with queue := q } = l.route := rfl
  exact grows_setLane hl hroute own

/-! ### Recording -/

theorem handedBy_hand (a : SharedState) (i : Nat) (x : Ticketed) (j : Nat) (ticket : Ticket) :
    (a.hand i x).handedBy j ticket
      = a.handedBy j ticket ++ if j = i ∧ x.1 = ticket then [x.2] else [] := by
  by_cases hj : j = i
  · subst hj
    by_cases hx : x.1 = ticket <;> simp [handedBy, hand, hx]
  · simp [handedBy, hand, hj]

theorem grows_hand (a : SharedState) (i : Nat) (x : Ticketed) :
    a.Grows (some x.1) (a.hand i x) := by
  refine ⟨id, List.prefix_rfl, Nat.le_refl _, fun _ _ => rfl, List.prefix_rfl, ?_⟩
  intro ticket hne j
  have hx : x.1 ≠ ticket := fun he => hne (he ▸ rfl)
  rw [handedBy_hand]
  simp [hx]

theorem grows_record (a : SharedState) (i : Nat) (x : Ticketed) (out : List Output)
    (own : Option Ticket) : a.Grows own (a.record i x out) :=
  ⟨id, List.prefix_rfl, Nat.le_refl _, fun _ _ => rfl, List.prefix_rfl, fun _ _ _ => rfl⟩

end SharedState

/-! ### Steps keep the lanes in order -/

theorem AddPhase.Fits.setLane {x : SinkCrossbar Ticketed} {current : List Route} {phase : AddPhase}
    {i : Nat} {l l' : Lane Ticketed} (h : phase.Fits x current) (hl : x.lanes[i]? = some l)
    (hjoin : l.worker.joinable = true → l'.worker.joinable = true) :
    phase.Fits { x with lanes := x.lanes.set i l' } current := by
  cases phase with
  | idle => exact h
  | updating routes => exact h
  | stopping phase routes =>
      cases phase with
      | submitting e mask k => exact h
      | joining drain k => exact h
      | closing drain k =>
          refine ⟨h.1, h.2.1, fun m hm => ?_⟩
          rcases List.mem_or_eq_of_mem_set hm with hm | rfl
          · exact h.2.2 m hm
          · exact hjoin (h.2.2 l (List.mem_of_getElem? hl))

/-- A lane may be replaced by one that fits as well. -/
theorem LanesInv.setLane (h : LanesInv a) {g i : Nat} {l l' : Lane Ticketed}
    (hl : (a.lanesAt g)[i]? = some l) (hroute : l'.route = l.route)
    (hcurrent : g = a.generation → LaneFits a.crossbar.running a.adder.call i l' ∧
      (l.worker.joinable = true → l'.worker.joinable = true))
    (hold : g ≠ a.generation → l'.queue.queue.closed = true ∧ l'.worker = .unstarted) :
    LanesInv (a.setLane g i l') := by
  obtain ⟨hroutes, -, hgen, hadder, -⟩ := a.setLane_frame g i l'
  have hserves : ∀ k, (a.setLane g i l').routesAt k <+: (a.setLane g i l').routes := by
    intro k
    rw [SharedState.routesAt_setLane hl hroute, hroutes]
    exact h.serves k
  by_cases hg : g = a.generation
  · obtain ⟨hfits, hjoin⟩ := hcurrent hg
    subst hg
    rw [a.lanesAt_generation] at hl
    refine ⟨?_, ?_, ?_, hserves⟩
    · rw [hadder, SharedState.setLane_crossbar, if_pos rfl]
      exact h.lanes.set hl hfits (fun _ _ _ hm => hm)
    · rw [hadder, hroutes, SharedState.setLane_crossbar, if_pos rfl]
      exact h.adder.setLane hl hjoin
    · rw [hgen]
      simpa [SharedState.setLane] using h.retired
  · refine ⟨?_, ?_, ?_, hserves⟩
    · rw [hadder, SharedState.setLane_crossbar, if_neg hg]
      exact h.lanes
    · rw [hadder, hroutes, SharedState.setLane_crossbar, if_neg hg]
      exact h.adder
    · rw [hgen]
      intro k hk m hm
      have hm' : m ∈ (a.setLane g i l').lanesAt k := by
        rw [SharedState.lanesAt, hgen, if_neg hk]
        exact hm
      rw [SharedState.lanesAt_setLane] at hm'
      by_cases hkg : k = g
      · subst hkg
        rw [if_pos rfl] at hm'
        rcases List.mem_or_eq_of_mem_set hm' with hm' | rfl
        · rw [SharedState.lanesAt, if_neg hk] at hm'
          exact h.retired k hk m hm'
        · exact hold hk
      · rw [if_neg hkg, SharedState.lanesAt, if_neg hk] at hm'
        exact h.retired k hk m hm'

/-- Only a current lane takes elements, and only one whose worker has not been joined. -/
theorem LanesInv.current_of_open (h : LanesInv a) {g i : Nat} {l : Lane Ticketed}
    (hl : (a.lanesAt g)[i]? = some l) (hopen : l.queue.queue.closed = false) :
    g = a.generation ∧ l.worker.joinable = true := by
  by_cases hg : g = a.generation
  · refine ⟨hg, ?_⟩
    subst hg
    rw [a.lanesAt_generation] at hl
    have hfits := h.lanes i l hl
    have hadder := h.adder
    cases hphase : a.adder with
    | idle =>
        rw [hphase] at hfits hadder
        have hlive : if a.crossbar.running = true then l.Live else l.Resting := hfits
        rw [show a.crossbar.running = true from hadder, if_pos rfl] at hlive
        exact hlive.joinable
    | updating routes =>
        rw [hphase] at hfits hadder
        have hlive : if a.crossbar.running = true then l.Live else l.Resting := hfits
        rw [hadder.1, if_pos rfl] at hlive
        exact hlive.joinable
    | stopping phase routes =>
        rw [hphase] at hfits hadder
        cases phase with
        | submitting e mask k => exact hadder.elim
        | closing drain k => exact hadder.2.2 l (List.mem_of_getElem? hl)
        -- all queues are closed before the first join
        | joining drain k => exact absurd (hopen.symm.trans hfits.2.1) (by simp)
  · rw [SharedState.lanesAt, if_neg hg] at hl
    have hclosed := (h.retired g hg l (List.mem_of_getElem? hl)).1
    exact absurd (hopen.symm.trans hclosed) (by simp)

/-- A worker only runs on a current lane. -/
theorem LanesInv.current_of_joinable (h : LanesInv a) {g i : Nat} {l : Lane Ticketed}
    (hl : (a.lanesAt g)[i]? = some l) (hjoin : l.worker.joinable = true) : g = a.generation := by
  by_cases hg : g = a.generation
  · exact hg
  · rw [SharedState.lanesAt, if_neg hg] at hl
    have hworker := (h.retired g hg l (List.mem_of_getElem? hl)).2
    simp [hworker, WorkerPhase.joinable] at hjoin

theorem LanesInv.resize (h : LanesInv a) {g i : Nat} {l : Lane Ticketed}
    (hl : (a.lanesAt g)[i]? = some l) {q : WorkersEventQueue Ticketed}
    (hq : q.queue = l.queue.queue) : LanesInv (a.setLane g i { l with queue := q }) := by
  refine h.setLane hl rfl (fun hg => ⟨?_, id⟩) (fun hg => ?_)
  · subst hg
    rw [a.lanesAt_generation] at hl
    exact (h.lanes i l hl).feed (by rw [hq]) (Or.inl (by rw [hq]))
  · rw [SharedState.lanesAt, if_neg hg] at hl
    obtain ⟨hclosed, hworker⟩ := h.retired g hg l (List.mem_of_getElem? hl)
    exact ⟨hq ▸ hclosed, hworker⟩

theorem LanesInv.push (h : LanesInv a) {g i : Nat} {l : Lane Ticketed}
    (hl : (a.lanesAt g)[i]? = some l) (hopen : l.queue.queue.closed = false)
    {q : WorkersEventQueue Ticketed} (hq : q.queue.closed = l.queue.queue.closed) :
    LanesInv (a.setLane g i { l with queue := q }) := by
  obtain ⟨hg, hjoin⟩ := h.current_of_open hl hopen
  refine h.setLane hl rfl (fun _ => ⟨?_, id⟩) (fun hne => absurd hg hne)
  subst hg
  rw [a.lanesAt_generation] at hl
  exact (h.lanes i l hl).feed hq (Or.inr ⟨hopen, hjoin⟩)

theorem LanesInv.hand (h : LanesInv a) (i : Nat) (x : Ticketed) : LanesInv (a.hand i x) :=
  ⟨h.lanes, h.adder, h.retired, h.serves⟩

theorem LanesInv.record (h : LanesInv a) (i : Nat) (x : Ticketed) (out : List Output) :
    LanesInv (a.record i x out) :=
  ⟨h.lanes, h.adder, h.retired, h.serves⟩

/-! ### Steps keep the histories -/

/-- Nothing happens to what is pending. -/
theorem HistoryInv.resize (h : HistoryInv a) {g i : Nat} {l l' : Lane Ticketed}
    (hl : (a.lanesAt g)[i]? = some l) (hpend : l'.pending = l.pending) :
    HistoryInv (a.setLane g i l') := by
  obtain ⟨hroutes, -, -, -, hhanded, hprocessed, hwritten⟩ := a.setLane_frame g i l'
  refine ⟨fun j => ?_, fun j => ?_, fun j => ?_⟩
  · rw [hhanded, hprocessed, SharedState.setLane_pendingAt hl]
    by_cases hj : g = a.generation ∧ j = i
    · obtain ⟨rfl, rfl⟩ := hj
      rw [a.lanesAt_generation] at hl
      rw [if_pos ⟨rfl, rfl⟩, hpend, ← SinkCrossbar.pendingAt_of_getElem? hl]
      exact h.kept j
    · rw [if_neg hj]
      exact h.kept j
  · rw [hwritten, hprocessed, h.wrote j]
    unfold SharedState.linesOf
    rw [hroutes]
  · rw [hprocessed, hroutes]
    exact h.inRange j

/-- A push to a current lane is handed to its route and pending there. -/
theorem HistoryInv.push (h : HistoryInv a) {i : Nat} {l l' : Lane Ticketed} {x : Ticketed}
    (hl : (a.lanesAt a.generation)[i]? = some l) (hpend : l'.pending = l.pending ++ [x]) :
    HistoryInv ((a.setLane a.generation i l').hand i x) := by
  obtain ⟨hroutes, -, -, -, hhanded, hprocessed, hwritten⟩ := a.setLane_frame a.generation i l'
  have hpending := SharedState.setLane_pendingAt hl l'
  rw [a.lanesAt_generation] at hl
  refine ⟨fun j => ?_, fun j => ?_, fun j => ?_⟩
  · show List.Perm (Function.update (a.setLane a.generation i l').handed i
        ((a.setLane a.generation i l').handed i ++ [x]) j)
      ((a.setLane a.generation i l').processed j
        ++ (a.setLane a.generation i l').crossbar.pendingAt j)
    rw [hhanded, hprocessed, hpending]
    by_cases hj : j = i
    · subst hj
      rw [Function.update_self, if_pos ⟨rfl, rfl⟩, hpend, ← SinkCrossbar.pendingAt_of_getElem? hl,
        ← List.append_assoc]
      exact (h.kept j).append_right [x]
    · rw [Function.update_of_ne hj, if_neg (fun hc => hj hc.2)]
      exact h.kept j
  · show (a.setLane a.generation i l').written j
      = ((a.setLane a.generation i l').processed j).flatMap _
    rw [hwritten, hprocessed, h.wrote j]
    unfold SharedState.linesOf SharedState.hand
    rw [hroutes]
  · show (a.setLane a.generation i l').processed j ≠ [] →
      j < (a.setLane a.generation i l').routes.length
    rw [hprocessed, hroutes]
    exact h.inRange j

/-- Route `i` deals with `x`, and writes what it owes. -/
theorem HistoryInv.record {i : Nat} {x : Ticketed} {r : Route} (hr : a.routes[i]? = some r)
    (hkept : ∀ j, (a.handed j).Perm
      (a.processed j ++ (if j = i then [x] else []) ++ a.crossbar.pendingAt j))
    (hwrote : ∀ j, a.written j = (a.processed j).flatMap (a.linesOf j))
    (hrange : ∀ j, a.processed j ≠ [] → j < a.routes.length) :
    HistoryInv (a.record i x (r.outputs i x.2)) := by
  have hline : a.linesOf i x = (r.outputs i x.2).map (x.1, ·) := by
    simp [SharedState.linesOf, hr]
  refine ⟨fun j => ?_, fun j => ?_, fun j => ?_⟩
  · have hj := hkept j
    by_cases hji : j = i
    · subst hji
      simpa [SharedState.record] using hj
    · simpa [SharedState.record, hji] using hj
  · show (a.record i x (r.outputs i x.2)).written j
      = ((a.record i x (r.outputs i x.2)).processed j).flatMap (a.linesOf j)
    by_cases hji : j = i
    · subst hji
      simp [SharedState.record, hwrote, hline]
    · simp [SharedState.record, hji, hwrote]
  · intro hne
    by_cases hji : j = i
    · subst hji
      exact (List.getElem?_eq_some_iff.1 hr).1
    · exact hrange j (by simpa [SharedState.record, hji] using hne)

/-- `dispatch_sync_` hands an element to a route that deals with it at once. -/
theorem HistoryInv.dispatch (h : HistoryInv a) {i : Nat} {r : Route} (hr : a.routes[i]? = some r)
    (x : Ticketed) : HistoryInv ((a.hand i x).record i x (r.outputs i x.2)) := by
  refine HistoryInv.record hr (fun j => ?_) h.wrote h.inRange
  show List.Perm (Function.update a.handed i (a.handed i ++ [x]) j)
    (a.processed j ++ (if j = i then [x] else []) ++ a.crossbar.pendingAt j)
  by_cases hji : j = i
  · subst hji
    rw [Function.update_self, if_pos rfl, List.append_assoc]
    -- the new element stands before what is pending
    refine ((h.kept j).append_right [x]).trans ?_
    rw [List.append_assoc]
    exact List.Perm.append_left _ List.perm_append_comm
  · rw [Function.update_of_ne hji, if_neg hji, List.append_nil]
    exact h.kept j

/-! ### The workers -/

theorem SharedState.work_cases {g i : Nat} {act : WorkerAct} (h : a.work g i act = some b) :
    ∃ l l' out, (a.lanesAt g)[i]? = some l ∧ Lane.WorkStep l l' out ∧
      ((out = none ∧ b = a.setLane g i l') ∨
        ∃ x buffer, out = some x ∧
          b = (a.setLane g i { l' with buffer }).record i x (l.route.outputs i x.2)) := by
  obtain ⟨l, hl, hwork⟩ := Option.bind_eq_some_iff.1 h
  obtain ⟨⟨l', out⟩, hstep, heq⟩ := Option.map_eq_some_iff.1 hwork
  refine ⟨l, l', out, hl, Lane.workStep_of_work hstep, ?_⟩
  cases out with
  | none => exact Or.inl ⟨rfl, heq.symm⟩
  | some x =>
      refine Or.inr ⟨x, (process l.route i x.2 l.buffer).1, rfl, ?_⟩
      rw [← process_outputs l.route i x.2 l.buffer]
      exact heq.symm

theorem LanesInv.route_of_lane (h : LanesInv a) {g i : Nat} {l : Lane Ticketed}
    (hl : (a.lanesAt g)[i]? = some l) : a.routes[i]? = some l.route := by
  have hroute : (a.routesAt g)[i]? = some l.route := by
    simp [SharedState.routesAt, List.getElem?_map, hl]
  exact getElem?_mono (h.serves g) hroute

theorem HistoryInv.work (h : HistoryInv a) (hlanes : LanesInv a) {g i : Nat} {act : WorkerAct}
    (hwork : a.work g i act = some b) : LanesInv b ∧ HistoryInv b ∧ a.Grows none b := by
  obtain ⟨l, l', out, hl, hstep, hb⟩ := SharedState.work_cases hwork
  obtain ⟨hjoin, hjoin'⟩ := hstep.joinable
  obtain ⟨hroute, -⟩ := hstep.frame
  obtain rfl := hlanes.current_of_joinable hl hjoin
  have hfit := hlanes.lanes i l (a.lanesAt_generation ▸ hl)
  rcases hb with ⟨rfl, rfl⟩ | ⟨x, buffer, rfl, rfl⟩
  · have hpend : l'.pending = l.pending := hstep.pending.symm
    exact ⟨hlanes.setLane hl hroute (fun _ => ⟨hfit.work hstep, fun _ => hjoin'⟩)
        (fun hne => absurd rfl hne),
      h.resize hl hpend, SharedState.grows_setLane hl hroute none⟩
  · have hfit' : LaneFits a.crossbar.running a.adder.call i { l' with buffer } :=
      (hfit.work hstep).setBuffer buffer
    have hroute' : Lane.route { l' with buffer } = l.route := hroute
    obtain ⟨hroutes, -, -, -, hhanded, hprocessed, hwritten⟩ :=
      a.setLane_frame a.generation i { l' with buffer }
    refine ⟨(hlanes.setLane hl hroute' (fun _ => ⟨hfit', fun _ => hjoin'⟩)
        (fun hne => absurd rfl hne)).record _ _ _, ?_,
      (SharedState.grows_setLane hl hroute' none).trans (SharedState.grows_record _ _ _ _ _)⟩
    refine HistoryInv.record (by rw [hroutes]; exact hlanes.route_of_lane hl) (fun j => ?_)
      (fun j => ?_) (fun j => ?_)
    · rw [hhanded, hprocessed, SharedState.setLane_pendingAt hl]
      by_cases hj : j = i
      · subst hj
        have hpend : a.crossbar.pendingAt j = x :: l'.pending := by
          rw [SinkCrossbar.pendingAt_of_getElem? (a.lanesAt_generation ▸ hl), hstep.pending]
          rfl
        have hkept := h.kept j
        rw [hpend] at hkept
        rw [if_pos rfl, if_pos ⟨rfl, rfl⟩, List.append_assoc]
        exact hkept
      · rw [if_neg hj, if_neg (fun hc => hj hc.2), List.append_nil]
        exact h.kept j
    · rw [hwritten, hprocessed, h.wrote j]
      unfold SharedState.linesOf
      rw [hroutes]
    · rw [hprocessed, hroutes]
      exact h.inRange j

/-! ### The thread in `add_route` -/

theorem LanesInv.addRoute (hlanes : LanesInv a) (h : HistoryInv a) (hidle : a.adder = .idle)
    (r : Route) :
    let b := { a with routes := a.routes ++ [r], adder := .updating (a.routes ++ [r]) }
    LanesInv b ∧ HistoryInv b ∧ a.Grows none b := by
  have hfits := hlanes.lanes
  have hadder := hlanes.adder
  rw [hidle] at hfits hadder
  refine ⟨⟨hfits, ⟨hadder, rfl⟩, hlanes.retired, fun g => ?_⟩,
    ⟨h.kept, fun j => ?_, fun j hne => ?_⟩,
    ⟨id, List.prefix_append _ _, Nat.le_refl _, fun _ _ => rfl, List.prefix_rfl, fun _ _ _ => rfl⟩⟩
  · exact (hlanes.serves g).trans (List.prefix_append _ _)
  · -- a route that has processed something was there before
    show a.written j = _
    rw [h.wrote j]
    by_cases hnil : a.processed j = []
    · simp [hnil]
    · have hlt := h.inRange j hnil
      unfold SharedState.linesOf
      simp only [List.getElem?_append_left hlt]
  · have hlt := h.inRange j hne
    simp only [List.length_append]
    omega

/-- `stop_lanes_` goes on: the routes and what is pending stay as they are. -/
theorem LanesInv.swap (hlanes : LanesInv a) (h : HistoryInv a) {x : SinkCrossbar Ticketed}
    {phase : AddPhase} (hroutes : x.routes = a.crossbar.routes)
    (hpend : ∀ j, x.pendingAt j = a.crossbar.pendingAt j) (hfits : x.Fits phase.call)
    (hadder : phase.Fits x a.routes) :
    let b := { a with crossbar := x, adder := phase }
    LanesInv b ∧ HistoryInv b ∧ a.Grows none b := by
  intro b
  have hvectors : ∀ g, b.routesAt g = a.routesAt g := by
    intro g
    by_cases hg : g = a.generation
    · subst hg
      exact (b.routesAt_generation.trans hroutes).trans a.routesAt_generation.symm
    · show (if g = a.generation then x.lanes else a.old g).map Lane.route = a.routesAt g
      rw [if_neg hg, SharedState.routesAt, SharedState.lanesAt, if_neg hg]
  refine ⟨⟨hfits, hadder, hlanes.retired, fun g => ?_⟩, ⟨fun j => ?_, h.wrote, h.inRange⟩,
    ⟨id, List.prefix_rfl, Nat.le_refl _, fun g _ => hvectors g, ?_, fun _ _ _ => rfl⟩⟩
  · rw [hvectors g]
    exact hlanes.serves g
  · show (a.handed j).Perm (a.processed j ++ x.pendingAt j)
    rw [hpend j]
    exact h.kept j
  · exact hroutes.symm ▸ List.prefix_rfl

/-- `SinkCrossbar::configure` replaces lanes that are closed and drained. -/
theorem LanesInv.rebuild (hlanes : LanesInv a) (h : HistoryInv a)
    (hdone : ∀ l ∈ a.crossbar.lanes,
      l.queue.queue.closed = true ∧ l.worker = .unstarted ∧ l.pending = []) :
    let b := a.rebuild true a.routes
    LanesInv b ∧ HistoryInv b ∧ a.Grows none b := by
  intro b
  have hnew : b.crossbar.routes = a.routes := SinkCrossbar.rebuild_routes _ _ _ _
  -- the vector that is replaced keeps its number
  have hold : ∀ g, g ≠ a.generation + 1 → b.lanesAt g = a.lanesAt g := by
    intro g hg
    show (if g = a.generation + 1 then _ else Function.update a.old a.generation a.crossbar.lanes g)
      = a.lanesAt g
    rw [if_neg hg, SharedState.lanesAt]
    by_cases hcur : g = a.generation
    · subst hcur
      rw [if_pos rfl, Function.update_self]
    · rw [if_neg hcur, Function.update_of_ne hcur]
  -- the new lanes are empty, and so are those that they replace
  have hpend : ∀ j, b.crossbar.pendingAt j = a.crossbar.pendingAt j := by
    intro j
    have hnone : b.crossbar.pendingAt j = [] :=
      SinkCrossbar.pendingAt_eq_nil (fun l hl => SinkCrossbar.rebuild_pending hl) j
    rw [hnone, SinkCrossbar.pendingAt_eq_nil (fun l hl => (hdone l hl).2.2)]
  refine ⟨⟨?_, rfl, fun g hg l hl => ?_, fun g => ?_⟩, ⟨fun j => ?_, h.wrote, h.inRange⟩,
    ⟨id, List.prefix_rfl, Nat.le_succ _, fun g hg => ?_, ?_, fun _ _ _ => rfl⟩⟩
  · exact a.crossbar.rebuild_fits true a.routes _ (by simp)
  · have hl' : l ∈ a.lanesAt g := by
      rw [← hold g hg, SharedState.lanesAt, if_neg hg]
      exact hl
    by_cases hcur : g = a.generation
    · subst hcur
      rw [a.lanesAt_generation] at hl'
      exact ⟨(hdone l hl').1, (hdone l hl').2.1⟩
    · rw [SharedState.lanesAt, if_neg hcur] at hl'
      exact hlanes.retired g hcur l hl'
  · by_cases hg : g = a.generation + 1
    · subst hg
      have hroutes : b.routesAt (a.generation + 1) = a.routes :=
        b.routesAt_generation.trans hnew
      rw [hroutes]
      exact List.prefix_rfl
    · rw [SharedState.routesAt, hold g hg]
      exact hlanes.serves g
  · rw [hpend j]
    exact h.kept j
  · rw [SharedState.routesAt, hold g (by omega), SharedState.routesAt]
  · rw [hnew, ← a.routesAt_generation]
    exact hlanes.serves _

/-- The running lanes get their drain flag, and the close of the first one is next. -/
theorem LanesInv.beginStop (hlanes : LanesInv a) (h : HistoryInv a)
    (hphase : a.adder = .updating a.routes) :
    let b := { a with crossbar := a.crossbar.beginStop true
                      adder := .stopping (.closing true 0) a.routes }
    LanesInv b ∧ HistoryInv b ∧ a.Grows none b := by
  have hfits := hlanes.lanes
  have hadder := hlanes.adder
  rw [hphase] at hfits hadder
  obtain ⟨hrun, -⟩ := hadder
  refine hlanes.swap h (SinkCrossbar.beginStop_routes _ _)
    (SinkCrossbar.beginStop_pendingAt _ _) (SinkCrossbar.Fits.beginStop hfits (Or.inl hrun))
    ⟨rfl, rfl, fun l hl => ?_⟩
  obtain ⟨m, hm, rfl⟩ := List.mem_map.1 (show l ∈ a.crossbar.lanes.map _ from hl)
  obtain ⟨j, hj⟩ := List.mem_iff_getElem?.1 hm
  have hlive : if a.crossbar.running = true then m.Live else m.Resting := hfits j m hj
  rw [hrun, if_pos rfl] at hlive
  exact hlive.joinable

/-- A round of `stop_lanes_` under `add_route`. -/
theorem LanesInv.stopRound (hlanes : LanesInv a) (h : HistoryInv a)
    {phase : CrossbarPhase Ticketed} {routes : List Route}
    (hphase : a.adder = .stopping phase routes) (hstep : a.reconfigure = some b) :
    LanesInv b ∧ HistoryInv b ∧ a.Grows none b := by
  have hfits := hlanes.lanes
  have hadder := hlanes.adder
  rw [hphase] at hfits hadder
  simp only [SharedState.reconfigure, hphase] at hstep
  obtain ⟨⟨x, phase', push⟩, hadv, hb⟩ := Option.map_eq_some_iff.1 hstep
  have hround := SinkCrossbar.crossbarStep_of_advance hadv
  have hpart := hround
  have hroutes := hround.routes
  cases hround with
  | deliver e mask i l l' ok hl hi hsel hsub => exact hadder.elim
  | skip e mask i hsel => exact hadder.elim
  | submitted e mask i hi => exact hadder.elim
  | signal drain k l hl =>
      obtain ⟨rfl, rfl, hjoin⟩ := hadder
      subst hb
      refine hlanes.swap h hroutes (fun j => ?_) (hpart.fits_stopping hfits)
        ⟨rfl, rfl, fun m hm => ?_⟩
      · rw [hpart.pendingAt (by simp) j]
        simp [pushedAt]
      · rcases List.mem_or_eq_of_mem_set hm with hm | rfl
        · exact hjoin m hm
        · exact hjoin l (List.mem_of_getElem? hl)
  | signalled drain k hk =>
      obtain ⟨rfl, rfl, -⟩ := hadder
      subst hb
      exact hlanes.swap h hroutes (fun _ => rfl) (hpart.fits_stopping hfits) ⟨rfl, rfl⟩
  | join drain k l hl hfin =>
      obtain ⟨rfl, rfl⟩ := hadder
      subst hb
      refine hlanes.swap h hroutes (fun j => ?_) (hpart.fits_stopping hfits) ⟨rfl, rfl⟩
      rw [hpart.pendingAt (by simp) j]
      simp [pushedAt]
  | joined drain k hk =>
      -- every worker is joined, so the vector can be replaced
      obtain ⟨rfl, rfl⟩ := hadder
      subst hb
      refine hlanes.rebuild h (fun l hl => ?_)
      obtain ⟨j, hj⟩ := List.mem_iff_getElem?.1 hl
      obtain ⟨-, hclosed, hdone⟩ := hfits j l hj
      obtain ⟨hlt, -⟩ := List.getElem?_eq_some_iff.1 hj
      exact ⟨hclosed, hdone (by omega), hpart.pending_of_joined hfits l hl⟩

theorem LanesInv.reconfigure (hlanes : LanesInv a) (h : HistoryInv a)
    (hstep : a.reconfigure = some b) : LanesInv b ∧ HistoryInv b ∧ a.Grows none b := by
  cases hphase : a.adder with
  | idle => simp [SharedState.reconfigure, hphase] at hstep
  | updating routes =>
      have hadder := hlanes.adder
      rw [hphase] at hadder
      obtain ⟨hrun, rfl⟩ := hadder
      simp only [SharedState.reconfigure, hphase, hrun, if_true,
        SinkCrossbar.enterStop_of_running hrun, Option.some.injEq] at hstep
      subst hstep
      exact hlanes.beginStop h hphase
  | stopping phase routes => exact hlanes.stopRound h hphase hstep

theorem LanesInv.shutDown (hlanes : LanesInv a) (h : HistoryInv a) :
    let b := { a with accepting := false }
    LanesInv b ∧ HistoryInv b ∧ a.Grows none b :=
  ⟨⟨hlanes.lanes, hlanes.adder, hlanes.retired, hlanes.serves⟩, ⟨h.kept, h.wrote, h.inRange⟩,
    fun hacc => absurd hacc (by simp), List.prefix_rfl, Nat.le_refl _, fun _ _ => rfl,
    List.prefix_rfl, fun _ _ _ => rfl⟩

end SyLog
