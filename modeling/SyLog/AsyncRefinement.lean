import SyLog.Library.Machine
import SyLog.Async.CrossbarSession
import SyLog.Pipeline

set_option autoImplicit false

/-! # Asynchronous dispatch refines synchronous dispatch

A started crossbar whose routes all block when full, one producer that submits events with arbitrary
masks, and a close at the end. Whatever the lane workers do in between, each route has written in
the end what `dispatch_sync_` writes to it for the same events and masks.

The simulation relation (`RefineInv`) says where each event is on its way: for each lane, the events
that were selected for it are those it has processed, followed by those it has pending. -/

namespace SyLog

structure CrossbarState where
  crossbar : SinkCrossbar Event
  phase : Option (CrossbarPhase Event) := none
  /-- `close` has returned -/
  stopped : Bool := false
  submitted : List (Event × RouteMask) := []
  history : History := {}

inductive CrossbarLabel where
  | submit (e : Event) (mask : RouteMask)
  | close
  /-- the thread that makes the calls goes on -/
  | advance
  | work (i : Nat) (act : WorkerAct)

/-- A crossbar configured with the routes and started. The one thread that uses it submits and, at
    last, closes; `accepting` is true throughout. -/
def crossbarRun (routes : List Route) (cap : UInt64) : Machine CrossbarState CrossbarLabel where
  init s := s = { crossbar := ((SinkCrossbar.new cap).configure routes cap).start }
  next s
    | .submit e mask =>
      match s.phase, s.stopped with
      | none, false =>
        some { s with phase := some (.submitting e mask 0)
                      submitted := s.submitted ++ [(e, mask)] }
      | _, _ => none
    | .close =>
      match s.phase, s.stopped with
      | none, false =>
        let (crossbar, phase) := s.crossbar.enterStop true
        some { s with crossbar, phase, stopped := phase.isNone }
      | _, _ => none
    | .advance =>
      match s.phase with
      | none => none
      | some phase =>
        (s.crossbar.advance true phase).map fun (crossbar, phase', push) =>
          { s with crossbar, phase := phase', history := s.history.accept push
                   stopped := match phase with
                     | .submitting _ _ _ => false
                     | _ => phase'.isNone }
    | .work i act =>
      (s.crossbar.workProcess i act).map fun (crossbar, out, written) =>
        { s with crossbar, history := s.history.work i out written }

/-! ## What is owed to a lane -/

/-- The events of the pairs that select route `i`, in order, if there is such a route to select. -/
def selectedFor (routes : List Route) (i : Nat) (pairs : List (Event × RouteMask)) : List Event :=
  if i < routes.length ∧ i < 64 then
    (pairs.filter (fun p => selects p.2 i)).map Prod.fst
  else []

theorem selectedFor_append (routes : List Route) (i : Nat) (pairs : List (Event × RouteMask))
    (e : Event) (mask : RouteMask) :
    selectedFor routes i (pairs ++ [(e, mask)])
      = selectedFor routes i pairs ++
        (if i < routes.length ∧ i < 64 ∧ selects mask i = true then [e] else []) := by
  unfold selectedFor
  by_cases hi : i < routes.length ∧ i < 64
  · cases hsel : selects mask i <;> simp [hi, hsel]
  · have hne : ¬ (i < routes.length ∧ i < 64 ∧ selects mask i = true) :=
      fun h => hi ⟨h.1, h.2.1⟩
    simp [hi, hne]

/-- What each lane has been handed: all that was selected for it, but for the event in hand when its
    lane has not been reached. -/
def Handed (routes : List Route) (accepted : Nat → List Event)
    (submitted : List (Event × RouteMask)) : Option (CrossbarPhase Event) → Prop
  | some (.submitting e mask k) => ∃ before, submitted = before ++ [(e, mask)] ∧
      ∀ i, accepted i = selectedFor routes i (if i < k then submitted else before)
  | _ => ∀ i, accepted i = selectedFor routes i submitted

/-- The bytes that route `i` writes for the event. -/
def lineBytes (routes : List Route) (i : Nat) (e : Event) : List Bytes :=
  match routes[i]? with
  | some r => (r.outputs i e).filterMap (Output.dataFor i)
  | none => []

/-- The bytes written on behalf of route `i`. -/
def History.bytesOf (h : History) (i : Nat) : List Bytes :=
  h.trace.filterMap (fun w => w.2.dataFor i)

/-! ## The simulation -/

structure RefineInv (routes : List Route) (s : CrossbarState) : Prop where
  routes_eq : s.crossbar.routes = routes
  /-- until the end, lanes and phase fit; a call other than the close finds the lanes live -/
  fits : s.stopped = false → s.crossbar.Fits s.phase
  live : s.stopped = false → (s.phase = none ∨ ∃ e mask k, s.phase = some (.submitting e mask k)) →
    s.crossbar.running = true
  draining : ∀ k, s.phase ≠ some (.closing false k) ∧ s.phase ≠ some (.joining false k)
  returned : s.stopped = true → s.phase = none ∧ ∀ i, s.crossbar.pendingAt i = []
  /-- each lane has processed what it accepted, but for what is pending -/
  order : ∀ i, s.history.accepted i = s.history.processed i ++ s.crossbar.pendingAt i
  handed : Handed routes s.history.accepted s.submitted s.phase
  /-- what was written is what the processed events write -/
  written : ∀ i, s.history.bytesOf i = (s.history.processed i).flatMap (lineBytes routes i)

namespace RefineInv

variable {routes : List Route} {cap : UInt64} {s s' : CrossbarState}

theorem of_init (h : (crossbarRun routes cap).init s) : RefineInv routes s := by
  subst h
  let x : SinkCrossbar Event := ((SinkCrossbar.new cap).configure routes cap).start
  have hrun : x.running = true := SinkCrossbar.start_running _
  have hfits : x.Fits none := (SinkCrossbar.rebuild_fits _ _ _ _ (fun _ => rfl)).start
  have hpend : ∀ i, x.pendingAt i = [] := by
    refine SinkCrossbar.pendingAt_eq_nil (fun l hl => ?_)
    obtain ⟨m, hm, rfl⟩ := List.mem_map.1 (show l ∈ List.map Lane.start _ from hl)
    obtain ⟨r, -, rfl⟩ := List.mem_map.1 (show m ∈ routes.map _ from hm)
    rfl
  refine ⟨?_, fun _ => hfits, fun _ _ => hrun, fun k => by simp, fun h => absurd h (by simp),
    fun i => ?_, fun i => ?_, fun i => rfl⟩
  · rw [SinkCrossbar.start_routes, SinkCrossbar.configure_routes]
  · rw [hpend i, List.append_nil]
  · simp [selectedFor]

/-- A lane of a live crossbar accepts what it is handed. -/
theorem submit_ok (h : RefineInv routes s) (hblock : ∀ r ∈ routes, r.delivery = some .blockWhenFull)
    {e : Event} {mask : RouteMask} {k i : Nat} {l l' : Lane Event} {ok : Bool}
    (hphase : s.phase = some (.submitting e mask k)) (hstop : s.stopped = false)
    (hl : s.crossbar.lanes[i]? = some l) (hsub : l.submit e true = some (l', ok)) : ok = true := by
  have hrun := h.live hstop (Or.inr ⟨e, mask, k, hphase⟩)
  have hfits := h.fits hstop i l hl
  rw [hphase, hrun] at hfits
  have hopen : l.queue.queue.closed = false := hfits.queue_open
  have hroute : l.route ∈ routes := by
    rw [← h.routes_eq]
    exact List.mem_map.2 ⟨l, List.mem_of_getElem? hl, rfl⟩
  -- a blocking lane fails only on a closed queue or when `accepting` has been cleared
  rcases Lane.submit_cases hsub with ⟨-, hok, -⟩ | ⟨-, -, hwhy⟩
  · exact hok
  · rcases hwhy (hblock _ hroute) with hacc | hclosed
    · exact absurd hacc (by simp)
    · exact absurd (hclosed.symm.trans hopen) (by simp)

theorem call (h : RefineInv routes s) {e : Event} {mask : RouteMask}
    (hstep : (crossbarRun routes cap).next s (.submit e mask) = some s') : RefineInv routes s' := by
  simp only [crossbarRun] at hstep
  split at hstep
  · next hphase hstop =>
      obtain rfl := Option.some.inj hstep
      have hrun := h.live hstop (Or.inl hphase)
      have hhanded := h.handed
      rw [hphase] at hhanded
      refine ⟨h.routes_eq, fun _ => ?_, fun _ _ => hrun, fun k => by simp, fun hst => ?_, h.order,
        ⟨s.submitted, rfl, fun i => ?_⟩, h.written⟩
      · have hfits := h.fits hstop
        rw [hphase] at hfits
        exact hfits
      · exact absurd (hst.symm.trans hstop) (by simp)
      · rw [if_neg (Nat.not_lt_zero i)]
        exact hhanded i
  · exact absurd hstep (by simp)

theorem close (h : RefineInv routes s)
    (hstep : (crossbarRun routes cap).next s .close = some s') : RefineInv routes s' := by
  simp only [crossbarRun] at hstep
  split at hstep
  · next hphase hstop =>
      obtain rfl := Option.some.inj hstep
      have hrun := h.live hstop (Or.inl hphase)
      have hfits := h.fits hstop
      rw [hphase] at hfits
      have hhanded := h.handed
      rw [hphase] at hhanded
      have henter : (s.crossbar.beginStop true).Fits (some (.closing true 0)) :=
        hfits.beginStop (Or.inl hrun)
      rw [SinkCrossbar.enterStop_of_running hrun]
      refine ⟨(s.crossbar.beginStop_routes true).trans h.routes_eq, fun _ => henter,
        fun _ hor => ?_, fun k => by simp, fun hst => absurd hst (by simp), fun i => ?_, hhanded,
        h.written⟩
      · rcases hor with hnone | ⟨e, mask, k, hsub⟩
        · exact absurd hnone (by simp)
        · exact absurd hsub (by simp)
      · exact (h.order i).trans (by rw [s.crossbar.beginStop_pendingAt true i])
  · exact absurd hstep (by simp)

theorem work (h : RefineInv routes s) {i : Nat} {act : WorkerAct}
    (hstep : (crossbarRun routes cap).next s (.work i act) = some s') : RefineInv routes s' := by
  obtain ⟨⟨x, out, written⟩, hwork, rfl⟩ := Option.map_eq_some_iff.1 hstep
  have hpend := SinkCrossbar.workProcess_pendingAt hwork
  obtain ⟨l, l', buffer, hl, hlane, hx, hwritten⟩ := SinkCrossbar.workProcess_cases hwork
  have hroute : routes[i]? = some l.route := by
    rw [← h.routes_eq, SinkCrossbar.routes, List.getElem?_map, hl]
    rfl
  refine ⟨?_, fun hst => (h.fits hst).workProcess hwork, fun hst hor => ?_, h.draining,
    fun hst => ?_, fun j => ?_, ?_, fun j => ?_⟩
  · rw [← h.routes_eq, hx]
    exact SinkCrossbar.routes_set hl hlane.frame.1
  · rw [hx]
    exact h.live hst hor
  · obtain ⟨hphase, hnone⟩ := h.returned hst
    refine ⟨hphase, fun j => ?_⟩
    have hj := hpend j
    rw [hnone j] at hj
    exact (List.append_eq_nil_iff.1 hj.symm).2
  · rw [History.work_accepted, History.work_processed, h.order j, hpend j, List.append_assoc]
  · rw [History.work_accepted]
    exact h.handed
  · -- the outputs of lane `i` are writes on behalf of route `i`
    have hbytes : (s.history.work i out written).bytesOf j
        = s.history.bytesOf j ++ written.filterMap (Output.dataFor j) := by
      cases out with
      | none => simp [History.work, History.bytesOf, hwritten]
      | some e => simp [History.work, History.bytesOf, List.filterMap_map]
    rw [hbytes, History.work_processed, List.flatMap_append, h.written j, hwritten]
    by_cases hji : j = i
    · subst hji
      cases out with
      | none => simp
      | some e => simp [lineBytes, hroute]
    · have hij : i ≠ j := fun he => hji he.symm
      cases out with
      | none => simp
      | some e => simp [hji, Route.outputs_dataFor hij]

/-- A round of the calling thread hands on what it should. -/
theorem handed_step (h : RefineInv routes s)
    (hblock : ∀ r ∈ routes, r.delivery = some .blockWhenFull) {phase : CrossbarPhase Event}
    {phase' : Option (CrossbarPhase Event)} {x : SinkCrossbar Event} {push : Option (Nat × Event)}
    (hphase : s.phase = some phase) (hstop : s.stopped = false)
    (hround : SinkCrossbar.CrossbarStep s.crossbar true phase x phase' push) :
    Handed routes (s.history.accept push).accepted s.submitted phase' := by
  have hlen : s.crossbar.lanes.length = routes.length := by
    rw [← h.routes_eq, SinkCrossbar.routes, List.length_map]
  have hhanded := h.handed
  rw [hphase] at hhanded
  cases hround with
  | deliver e mask k l l' ok hl hk hsel hsub =>
      obtain rfl : ok = true := h.submit_ok hblock hphase hstop hl hsub
      obtain ⟨before, hsubmitted, hacc⟩ := hhanded
      have hin : k < routes.length := by
        obtain ⟨hlt, -⟩ := List.getElem?_eq_some_iff.1 hl
        omega
      refine ⟨before, hsubmitted, fun i => ?_⟩
      rw [History.accept_accepted, hacc i, if_pos rfl]
      by_cases hik : i = k
      · subst hik
        rw [if_neg (Nat.lt_irrefl i), if_pos (Nat.lt_succ_self i), hsubmitted, selectedFor_append,
          if_pos ⟨hin, hk, hsel⟩]
        simp [pushedAt]
      · have hiff : i < k + 1 ↔ i < k := by omega
        simp [pushedAt, hik, hiff]
  | skip e mask k hsel =>
      obtain ⟨before, hsubmitted, hacc⟩ := hhanded
      refine ⟨before, hsubmitted, fun i => ?_⟩
      show s.history.accepted i = _
      rw [hacc i]
      by_cases hik : i = k
      · subst hik
        rw [if_neg (Nat.lt_irrefl i), if_pos (Nat.lt_succ_self i), hsubmitted, selectedFor_append,
          if_neg (fun hh => by simp [hsel] at hh), List.append_nil]
      · have hiff : i < k + 1 ↔ i < k := by omega
        simp [hiff]
  | submitted e mask k hk =>
      obtain ⟨before, hsubmitted, hacc⟩ := hhanded
      intro i
      show s.history.accepted i = _
      rw [hacc i]
      by_cases hik : i < k
      · rw [if_pos hik]
      · -- the lanes that were not reached do not exist or count as not selected
        rw [if_neg hik, hsubmitted, selectedFor_append, if_neg (fun hh => by omega),
          List.append_nil]
  | signal drain k l hl => exact hhanded
  | signalled drain k hk => exact hhanded
  | join drain k l hl hfin => exact hhanded
  | joined drain k hk => exact hhanded

theorem advance (h : RefineInv routes s)
    (hblock : ∀ r ∈ routes, r.delivery = some .blockWhenFull)
    (hstep : (crossbarRun routes cap).next s .advance = some s') : RefineInv routes s' := by
  simp only [crossbarRun] at hstep
  split at hstep
  · exact absurd hstep (by simp)
  · next phase hphase =>
      obtain ⟨⟨x, phase', push⟩, hadv, rfl⟩ := Option.map_eq_some_iff.1 hstep
      have hround := SinkCrossbar.crossbarStep_of_advance hadv
      have hstop : s.stopped = false := by
        refine Bool.eq_false_iff.2 (fun hst => ?_)
        exact absurd ((h.returned hst).1.symm.trans hphase) (by simp)
      have hfits := h.fits hstop
      rw [hphase] at hfits
      have hdrain := h.draining
      rw [hphase] at hdrain
      -- the only round that drops what is pending belongs to `request_stop`
      have hkeep : phase' = none → ∀ k, phase ≠ .joining false k :=
        fun _ k he => (hdrain k).2 (by rw [he])
      have hpend := hround.pendingAt hkeep
      have horder : ∀ i, (s.history.accept push).accepted i
          = (s.history.accept push).processed i ++ x.pendingAt i := by
        intro i
        rw [History.accept_accepted, History.accept_processed, h.order i, hpend i,
          List.append_assoc]
      have hwritten : ∀ i, (s.history.accept push).bytesOf i
          = ((s.history.accept push).processed i).flatMap (lineBytes routes i) := by
        intro i
        rw [History.bytesOf, History.accept_trace, History.accept_processed]
        exact h.written i
      have hhanded := h.handed_step hblock hphase hstop hround
      have hroutes : x.routes = routes := hround.routes.trans h.routes_eq
      have hnext : ∀ next, phase' = some next → x.Fits (some next) := by
        rintro next rfl
        exact hround.fits_stopping hfits
      match phase with
      | .submitting e mask k =>
        have hrun := h.live hstop (Or.inr ⟨e, mask, k, hphase⟩)
        refine ⟨hroutes, fun _ => hround.fits_submitting hfits,
          fun _ _ => hround.running.trans hrun, fun k' => ?_, fun hst => absurd hst (by simp),
          horder, hhanded, hwritten⟩
        cases hround <;> simp
      | .closing drain k =>
        obtain rfl : drain = true := by
          by_contra hne
          exact (hdrain k).1 (by simp [Bool.eq_false_iff.2 hne])
        cases hround with
        | signal _ _ l hl =>
            exact ⟨hroutes, fun _ => hnext _ rfl, fun _ hor => by simp at hor, fun k' => by simp,
              fun hst => absurd hst (by simp), horder, hhanded, hwritten⟩
        | signalled _ _ hk =>
            exact ⟨hroutes, fun _ => hnext _ rfl, fun _ hor => by simp at hor, fun k' => by simp,
              fun hst => absurd hst (by simp), horder, hhanded, hwritten⟩
      | .joining drain k =>
        obtain rfl : drain = true := by
          by_contra hne
          exact (hdrain k).2 (by simp [Bool.eq_false_iff.2 hne])
        have hreturn : phase' = none → ∀ i, x.pendingAt i = [] := by
          rintro rfl
          exact SinkCrossbar.pendingAt_eq_nil (hround.pending_of_joined hfits)
        cases hround with
        | join _ _ l hl hfin =>
            exact ⟨hroutes, fun _ => hnext _ rfl, fun _ hor => by simp at hor, fun k' => by simp,
              fun hst => absurd hst (by simp), horder, hhanded, hwritten⟩
        | joined _ _ hk =>
            -- the close returns
            exact ⟨hroutes, fun hst => absurd hst (by simp), fun hst => absurd hst (by simp),
              fun k' => by simp, fun _ => ⟨rfl, hreturn rfl⟩, horder, hhanded, hwritten⟩

theorem reachable (hblock : ∀ r ∈ routes, r.delivery = some .blockWhenFull)
    (hs : (crossbarRun routes cap).Reachable s) : RefineInv routes s := by
  refine hs.invariant (fun _ h => of_init h) (fun a label b ha _ hstep => ?_)
  cases label with
  | submit e mask => exact ha.call hstep
  | close => exact ha.close hstep
  | advance => exact ha.advance hblock hstep
  | work i act => exact ha.work hstep

end RefineInv

/-! ## The refinement -/

/-- In a list with positions, only position `i` contributes. -/
theorem flatMap_zipIdx_single {α β : Type} (l : List α) (n i : Nat) (f : α × Nat → List β)
    (h : ∀ x j, j ≠ i → f (x, j) = []) :
    (l.zipIdx n).flatMap f
      = if n ≤ i then ((l[i - n]?).map (fun x => f (x, i))).getD [] else [] := by
  induction l generalizing n with
  | nil => simp
  | cons x l ih =>
      rw [List.zipIdx_cons, List.flatMap_cons, ih (n + 1)]
      rcases Nat.lt_trichotomy n i with hlt | rfl | hgt
      · have hsub : i - n = (i - (n + 1)) + 1 := by omega
        rw [h x n (by omega), if_pos (by omega), if_pos (by omega), hsub]
        simp
      · simp
      · rw [h x n (by omega), if_neg (by omega), if_neg (by omega)]
        rfl

/-- What one synchronous dispatch writes on behalf of route `i`. -/
theorem dispatchSync_dataFor (routes : List Route) (i : Nat) (e : Event) (mask : RouteMask) :
    (dispatchSync routes e mask).filterMap (Output.dataFor i)
      = (selectedFor routes i [(e, mask)]).flatMap (lineBytes routes i) := by
  rw [dispatchSync, dispatchLoop_eq, List.filterMap_flatMap]
  rw [flatMap_zipIdx_single routes 0 i]
  · rw [if_pos (Nat.zero_le i), Nat.sub_zero]
    unfold selectedFor lineBytes
    cases hr : routes[i]? with
    | none =>
        have hlen : ¬ (i < routes.length ∧ i < 64) := by
          have := List.getElem?_eq_none_iff.1 hr
          omega
        simp [hlen]
    | some r =>
        obtain ⟨hlen, -⟩ := List.getElem?_eq_some_iff.1 hr
        by_cases hi : i < 64
        · cases hsel : selects mask i <;> simp [hlen, hi, hsel]
        · simp [hi]
  · intro r j hji
    by_cases hsel : j < 64 ∧ selects mask j = true
    · simp only [hsel, and_self, if_true]
      exact Route.outputs_dataFor hji e
    · simp [hsel]

theorem selectedFor_flatMap (routes : List Route) (i : Nat) (pairs : List (Event × RouteMask)) :
    selectedFor routes i pairs = pairs.flatMap (fun p => selectedFor routes i [p]) := by
  induction pairs using List.reverseRecOn with
  | nil => simp [selectedFor]
  | append_singleton pairs p ih =>
      obtain ⟨e, mask⟩ := p
      rw [selectedFor_append, List.flatMap_append, ← ih]
      have hone := selectedFor_append routes i [] e mask
      rw [List.nil_append] at hone
      have hnil : selectedFor routes i [] = [] := by simp [selectedFor]
      rw [List.flatMap_singleton, hone, hnil, List.nil_append]

/-- **Asynchronous dispatch refines synchronous dispatch.** When the close has returned, each route
    has written the byte strings that `dispatch_sync_` writes to it for the same events and masks in
    the same order. -/
theorem async_refines_sync {routes : List Route} {cap : UInt64} {s : CrossbarState}
    (hblock : ∀ r ∈ routes, r.delivery = some .blockWhenFull)
    (hs : (crossbarRun routes cap).Reachable s) (hstopped : s.stopped = true) (i : Nat) :
    s.history.bytesOf i
      = (s.submitted.flatMap (fun p => dispatchSync routes p.1 p.2)).filterMap
          (Output.dataFor i) := by
  have hinv := RefineInv.reachable hblock hs
  obtain ⟨hphase, hnone⟩ := hinv.returned hstopped
  have hhanded := hinv.handed
  rw [hphase] at hhanded
  have hprocessed : s.history.processed i = selectedFor routes i s.submitted := by
    have horder := hinv.order i
    rw [hnone i, List.append_nil] at horder
    exact horder.symm.trans (hhanded i)
  rw [hinv.written i, hprocessed, List.filterMap_flatMap]
  simp only [dispatchSync_dataFor]
  rw [selectedFor_flatMap, List.flatMap_assoc]

/-- The second of two events finds the queue full. -/
theorem async_refines_sync_two_events : ∃ (routes : List Route) (t s : CrossbarState),
    (crossbarRun routes 1).Reachable t ∧ (crossbarRun routes 1).next t .advance = none ∧
    s.submitted = [({ message := bytes "hi" }, 1#64), ({ message := bytes "there" }, 1#64)] ∧
    s.history.bytesOf 0 = [bytes "hi\n", bytes "there\n"] := by
  have hinit :
      (crossbarRun [{ sinkRef := some 7, delivery := some .blockWhenFull }] 1).Reachable _ :=
    .init rfl
  have hfull := hinit.run [.submit { message := bytes "hi" } 1#64, .advance, .advance,
    .submit { message := bytes "there" } 1#64] rfl
  have hs := hfull.run [.work 0 .run, .work 0 .run, .advance, .advance, .close, .advance, .advance,
    .work 0 .run, .work 0 .run, .work 0 .run, .work 0 .run, .work 0 .run, .work 0 .run,
    .work 0 .giveUp, .work 0 .run, .work 0 .run, .advance, .advance] rfl
  exact ⟨_, _, _, hfull, rfl, rfl, async_refines_sync (by simp) hs rfl 0⟩

end SyLog
