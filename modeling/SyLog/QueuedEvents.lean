import SyLog.Session

set_option autoImplicit false

/-! # Events queued while the crossbar does not run

A lane accepts events before its worker is started, so that they wait for `start`. Such events live
in lanes that nobody serves: `SinkCrossbar::configure` replaces the lanes of a stopped crossbar
without a look at their queues, `Pipeline::configure` replaces the whole crossbar, and `close` on a
stopped pipeline has no worker that could drain.

What holds is that a `close` has processed whatever was accepted, provided that no such call is made
on a stopped pipeline with events in its lanes (`close_processes_accepted`). Without the proviso an
`add_route` is enough to lose an event (`add_route_drops_queued`). -/

namespace SyLog

variable {platform : Platform} {s s' : SessionState}

/-- The calls of a program that never stops without draining: no `clear_routes`, no `request_stop`,
    and asynchronous configurations only. -/
def SessionLabel.gentle : SessionLabel → Bool
  | .clearRoutes | .requestStop => false
  | .configure cfg => cfg.asyncByDefault
  | _ => true

/-- A call that replaces lanes is made while the workers run, or while no lane holds an event. -/
def SessionState.keepsQueued (s : SessionState) : SessionLabel → Bool
  | .configure _ | .addRoute _ | .close =>
    s.pipeline.running || s.pipeline.crossbar.lanes.all (fun l => l.pending.isEmpty)
  | _ => true

/-! ## The invariant -/

/-- The crossbar call that is under way. -/
def SessionPhase.crossbarCall : SessionPhase → Option (CrossbarPhase Event)
  | .idle | .dispatching _ _ _ _ _ => none
  | .crossbar phase _ => some phase

/-- A call that replaces the lanes leaves the crossbar running exactly if the pipeline is. -/
def AfterCall.Restores (running : Bool) : AfterCall → Prop
  | .done => False
  | .rebuild _ => running = true
  | .renew _ => running = false

/-- The pipeline and the crossbar agree on whether the workers run. While lanes are being stopped
    the crossbar counts as stopped already, and what follows restores the agreement. -/
def RunningAgrees (s : SessionState) : Prop :=
  match s.phase with
  | .idle | .dispatching _ _ _ _ _ => s.pipeline.crossbar.running = s.pipeline.running
  | .crossbar (.submitting _ _ _) after =>
    s.pipeline.crossbar.running = s.pipeline.running ∧ after = .done
  | .crossbar (.closing drain _) after | .crossbar (.joining drain _) after =>
    drain = true ∧ after.Restores s.pipeline.running

/-- What a lane accepted was processed, in order, or is pending in the lane that is there now. -/
structure KeptInv (s : SessionState) : Prop where
  agrees : RunningAgrees s
  fits : s.pipeline.crossbar.Fits s.phase.crossbarCall
  order : ∀ i, s.history.accepted i = s.history.processed i ++ s.pipeline.crossbar.pendingAt i
  closed_empty : s.closed = true → s.phase = .idle ∧ ∀ i, s.pipeline.crossbar.pendingAt i = []

/-- The lanes of a crossbar that has not been started are at rest, so starting them drops
    nothing. -/
theorem SinkCrossbar.Fits.start_pendingAt {α : Type} {x : SinkCrossbar α} (h : x.Fits none)
    (i : Nat) : x.start.pendingAt i = x.pendingAt i := by
  cases hrun : x.running with
  | true => simp [SinkCrossbar.start, hrun]
  | false =>
      have hstart :
          x.start.pendingAt i = ((x.lanes[i]?).map (fun l => l.start.pending)).getD [] := by
        rw [← SinkCrossbar.pendingAt_map (x := x) Lane.start i]
        simp [SinkCrossbar.start, hrun, SinkCrossbar.pendingAt]
      rw [hstart, SinkCrossbar.pendingAt]
      cases hl : x.lanes[i]? with
      | none => rfl
      | some l =>
          have hrest : if x.running = true then l.Live else l.Resting := h i l hl
          rw [hrun, if_neg (by simp)] at hrest
          simp [Lane.start, Lane.pending, WorkerPhase.inHand, hrest.unstarted]

namespace KeptInv

/-- A call is over, and it leaves a crossbar with empty lanes behind: all that was accepted has been
    processed. -/
theorem of_fresh (hphase : s'.phase = .idle)
    (hrun : s'.pipeline.crossbar.running = s'.pipeline.running)
    (hfits : s'.pipeline.crossbar.Fits none) (hempty : ∀ i, s'.pipeline.crossbar.pendingAt i = [])
    (hdone : ∀ i, s'.history.accepted i = s'.history.processed i) : KeptInv s' where
  agrees := by
    unfold RunningAgrees
    rw [hphase]
    exact hrun
  fits := by
    rw [hphase]
    exact hfits
  order i := by rw [hempty i, List.append_nil, hdone i]
  closed_empty _ := ⟨hphase, hempty⟩

/-- A call whose crossbar part has returned with empty lanes. -/
theorem of_result {p : Pipeline} {after : AfterCall} (hphase : s'.phase = .idle)
    (hp : s'.pipeline = after.result p)
    (hafter : after.Restores p.running)
    (hdone : ∀ i, s'.history.accepted i = s'.history.processed i) : KeptInv s' := by
  cases after with
  | done => exact hafter.elim
  | rebuild routes =>
      refine of_fresh hphase ?_ ?_ ?_ hdone
      · rw [hp]
        exact hafter.symm
      · rw [hp]
        exact p.crossbar.rebuild_fits true routes _ (by simp)
      · rw [hp]
        exact SinkCrossbar.pendingAt_eq_nil (fun l hl => SinkCrossbar.rebuild_pending hl)
  | renew drain =>
      refine of_fresh hphase ?_ ?_ ?_ hdone
      · rw [hp]
        exact hafter.symm
      · rw [hp]
        exact SinkCrossbar.rebuild_fits _ false p.routes _ (fun _ => rfl)
      · rw [hp]
        exact SinkCrossbar.pendingAt_eq_nil (fun l hl => SinkCrossbar.rebuild_pending hl)

theorem idle_agrees (h : KeptInv s) (hidle : s.phase = .idle) :
    s.pipeline.crossbar.running = s.pipeline.running := by
  have hagrees := h.agrees
  unfold RunningAgrees at hagrees
  rw [hidle] at hagrees
  exact hagrees

theorem idle_fits (h : KeptInv s) (hidle : s.phase = .idle) : s.pipeline.crossbar.Fits none := by
  have hfits := h.fits
  rw [hidle] at hfits
  exact hfits

/-- With empty lanes, all that was accepted has been processed. -/
theorem done_of_empty (h : KeptInv s) (hempty : ∀ l ∈ s.pipeline.crossbar.lanes, l.pending = [])
    (i : Nat) : s.history.accepted i = s.history.processed i := by
  rw [h.order i, SinkCrossbar.pendingAt_eq_nil hempty i, List.append_nil]

/-! ## Steps keep the invariant -/

theorem work (h : KeptInv s) {i : Nat} {act : WorkerAct} {x : SinkCrossbar Event}
    {out : Option Event} {written : List Output}
    (hwork : s.pipeline.crossbar.workProcess i act = some (x, out, written)) :
    KeptInv { s with pipeline := { s.pipeline with crossbar := x }
                     history := s.history.work i out written } := by
  have hpend := SinkCrossbar.workProcess_pendingAt hwork
  obtain ⟨l, l', buffer, -, -, rfl, -⟩ := SinkCrossbar.workProcess_cases hwork
  refine ⟨?_, h.fits.workProcess hwork, fun j => ?_, fun hclosed => ⟨?_, fun j => ?_⟩⟩
  · -- the step touches one lane only
    exact h.agrees
  · show (s.history.work i out written).accepted j
      = (s.history.work i out written).processed j ++ SinkCrossbar.pendingAt _ j
    rw [History.work_accepted, History.work_processed, h.order j, hpend j, List.append_assoc]
  · exact (h.closed_empty hclosed).1
  · have hj := hpend j
    rw [(h.closed_empty hclosed).2 j] at hj
    exact (List.append_eq_nil_iff.1 hj.symm).2

/-- What a round does to the order, when it does not end a stop that throws queues away. -/
theorem round_order (h : KeptInv s) {accepting : Bool} {c : CrossbarPhase Event}
    {x : SinkCrossbar Event} {phase' : Option (CrossbarPhase Event)} {push : Option (Nat × Event)}
    (hround : SinkCrossbar.CrossbarStep s.pipeline.crossbar accepting c x phase' push)
    (hkeep : phase' = none → ∀ k, c ≠ .joining false k) (i : Nat) :
    (s.history.accept push).accepted i
      = (s.history.accept push).processed i ++ x.pendingAt i := by
  rw [History.accept_accepted, History.accept_processed, hround.pendingAt hkeep i, h.order i,
    List.append_assoc]

theorem advance (h : KeptInv s) (hstep : s.advance = some s') : KeptInv s' := by
  have hagrees := h.agrees
  have hfits := h.fits
  unfold RunningAgrees at hagrees
  rcases SessionState.advance_cases hstep with ⟨e, mask, k, rest, buffer, hphase, rfl⟩ |
    ⟨e, mask, k, rest, buffer, rest', buffer', out, hphase, -, rfl⟩ |
    ⟨c, after, x, phase', push, hphase, hround, rfl⟩
  · rw [hphase] at hagrees hfits
    exact ⟨hagrees, hfits, h.order, fun hclosed => ⟨rfl, (h.closed_empty hclosed).2⟩⟩
  · have hopen : s.closed ≠ true := fun hclosed =>
      absurd (hphase.symm.trans (h.closed_empty hclosed).1) (by simp)
    rw [hphase] at hagrees hfits
    exact ⟨hagrees, hfits, h.order, fun hclosed => absurd hclosed hopen⟩
  · have hopen : s.closed ≠ true := fun hclosed =>
      absurd (hphase.symm.trans (h.closed_empty hclosed).1) (by simp)
    rw [hphase] at hagrees hfits
    have hpart := hround
    cases hround with
    | deliver e mask k l l' ok hl hk hsel hsub =>
        exact ⟨hagrees, hpart.fits_submitting hfits, h.round_order hpart (by simp),
          fun hclosed => absurd hclosed hopen⟩
    | skip e mask k hsel =>
        exact ⟨hagrees, hfits, h.order, fun hclosed => absurd hclosed hopen⟩
    | submitted e mask k hk =>
        obtain ⟨hrun, rfl⟩ := hagrees
        exact ⟨hrun, hfits, h.order,
          fun hclosed => absurd (show false = true from hclosed) (by simp)⟩
    | signal drain k l hl =>
        exact ⟨hagrees, hpart.fits_stopping hfits, h.round_order hpart (by simp),
          fun hclosed => absurd hclosed hopen⟩
    | signalled drain k hk =>
        exact ⟨hagrees, hpart.fits_stopping hfits, h.order, fun hclosed => absurd hclosed hopen⟩
    | join drain k l hl hfin =>
        exact ⟨hagrees, hpart.fits_stopping hfits, h.round_order hpart (by simp),
          fun hclosed => absurd hclosed hopen⟩
    | joined drain k hk =>
        -- the workers have drained, so the new lanes replace empty ones
        obtain ⟨rfl, hafter⟩ := hagrees
        exact of_result (p := s.pipeline) rfl rfl hafter
          (h.done_of_empty (hpart.pending_of_joined hfits))

/-! ### The calls -/

theorem stop (h : KeptInv s) (hidle : s.phase = .idle)
    (hkept : s.pipeline.running = true ∨ ∀ l ∈ s.pipeline.crossbar.lanes, l.pending = []) :
    KeptInv ({ s with closed := false }.stop true) := by
  rcases SessionState.stop_cases { s with closed := false } true with
    ⟨-, hlanes, p, heq, hp⟩ | heq
  · have hempty : ∀ l ∈ s.pipeline.crossbar.lanes, l.pending = [] := by
      intro l hl
      rw [show s.pipeline.crossbar.lanes = [] from hlanes] at hl
      exact absurd hl (by simp)
    have hafter : (AfterCall.renew true).Restores p.running := hp
    rw [heq]
    exact of_result rfl rfl hafter (h.done_of_empty hempty)
  · have hagree := h.idle_agrees hidle
    have hfits : (s.pipeline.crossbar.beginStop true).Fits (some (.closing true 0)) :=
      (h.idle_fits hidle).beginStop (hagree ▸ hkept.imp_right Or.inr)
    rw [heq]
    refine ⟨⟨rfl, rfl⟩, hfits, fun i => ?_, fun hclosed => absurd hclosed (by simp)⟩
    rw [SinkCrossbar.beginStop_pendingAt]
    exact h.order i

/-- `add_route`: the lanes of a running crossbar drain first, those of a stopped one are replaced at
    once. -/
theorem reconfigure (h : KeptInv s) (hidle : s.phase = .idle)
    (hkept : s.pipeline.running = true ∨ ∀ l ∈ s.pipeline.crossbar.lanes, l.pending = [])
    {p : Pipeline} (hx : p.crossbar = s.pipeline.crossbar) (hr : p.running = s.pipeline.running)
    (routes : List Route) : KeptInv ({ s with closed := false }.reconfigure p routes) := by
  have hagree := h.idle_agrees hidle
  rcases SessionState.reconfigure_cases { s with closed := false } p routes with
    ⟨hrun, heq⟩ | ⟨hrun, heq⟩
  · rw [hx] at hrun
    have hfits : (s.pipeline.crossbar.beginStop true).Fits (some (.closing true 0)) :=
      (h.idle_fits hidle).beginStop (Or.inl hrun)
    rw [heq, hx]
    refine ⟨⟨rfl, hr.trans (hagree.symm.trans hrun)⟩, hfits, fun i => ?_,
      fun hclosed => absurd hclosed (by simp)⟩
    rw [SinkCrossbar.beginStop_pendingAt]
    exact h.order i
  · -- lanes without workers are thrown away, so they have to be empty
    rw [hx] at hrun
    have hempty := hkept.resolve_left (by rw [← hagree, hrun]; simp)
    have hnew : (p.updateCrossbar routes).crossbar = p.crossbar.rebuild false routes
        p.cfg.queueCapacity := by
      simp [Pipeline.updateCrossbar, SinkCrossbar.configure, hx, hrun]
    rw [heq]
    refine of_fresh hidle ?_ ?_ ?_ (h.done_of_empty hempty)
    · show (p.updateCrossbar routes).crossbar.running = p.running
      rw [hnew, hr, ← hagree, ← hx]
      rfl
    · show (p.updateCrossbar routes).crossbar.Fits none
      rw [hnew]
      exact p.crossbar.rebuild_fits false routes _ (fun _ => by rw [hx, hrun])
    · exact SinkCrossbar.pendingAt_eq_nil (fun l hl => SinkCrossbar.rebuild_pending hl)

theorem configure (h : KeptInv s) (hidle : s.phase = .idle)
    (hkept : s.pipeline.running = true ∨ ∀ l ∈ s.pipeline.crossbar.lanes, l.pending = [])
    (cfg : Config) : KeptInv { s with closed := false, pipeline := s.pipeline.configure cfg } := by
  cases hrun : s.pipeline.running with
  | true =>
      have hsame : s.pipeline.configure cfg = { s.pipeline with cfg } := by
        simp [Pipeline.configure, hrun]
      rw [hsame]
      exact ⟨h.agrees, h.fits, h.order, fun hclosed => absurd hclosed (by simp)⟩
  | false =>
      -- the lanes that are thrown away are empty
      have hempty := hkept.resolve_left (by simp [hrun])
      have hnew : s.pipeline.configure cfg
          = { s.pipeline with
              cfg, accepting := true
              crossbar :=
                ({ s.pipeline with cfg } : Pipeline).freshCrossbar s.pipeline.routes } := by
        simp [Pipeline.configure, Pipeline.installCrossbar, hrun]
      rw [hnew]
      refine of_fresh hidle hrun.symm ?_ ?_ (h.done_of_empty hempty)
      · exact SinkCrossbar.rebuild_fits _ false s.pipeline.routes _ (fun _ => rfl)
      · exact SinkCrossbar.pendingAt_eq_nil (fun l hl => SinkCrossbar.rebuild_pending hl)

theorem start (h : KeptInv s) (hidle : s.phase = .idle) :
    KeptInv { s with closed := false, pipeline := s.pipeline.start } := by
  have hfits := h.idle_fits hidle
  have hagree := h.idle_agrees hidle
  cases hrun : s.pipeline.running with
  | true =>
      have hsame : s.pipeline.start = { s.pipeline with accepting := true } := by
        simp [Pipeline.start, hrun]
      rw [hsame]
      exact ⟨h.agrees, h.fits, h.order, fun hclosed => absurd hclosed (by simp)⟩
  | false =>
      have hnew : s.pipeline.start = { s.pipeline with
          accepting := true, running := true, crossbar := s.pipeline.crossbar.start } := by
        simp [Pipeline.start, hrun]
      rw [hnew]
      refine ⟨?_, ?_, fun i => ?_, fun hclosed => absurd hclosed (by simp)⟩
      · unfold RunningAgrees
        simp only [hidle]
        exact SinkCrossbar.start_running _
      · simp only [hidle]
        exact hfits.start
      · show s.history.accepted i = s.history.processed i ++ s.pipeline.crossbar.start.pendingAt i
        rw [hfits.start_pendingAt i]
        exact h.order i

theorem submit (h : KeptInv s) (hidle : s.phase = .idle) (e : Event) (forceSync : Bool) :
    KeptInv ({ s with closed := false }.submit platform e forceSync) := by
  have hagree := h.idle_agrees hidle
  obtain ⟨p', hx, hr, -, -, hcases⟩ :=
    SessionState.submit_cases platform { s with closed := false } e forceSync
  have hrun : p'.crossbar.running = p'.running := by rw [hx, hr]; exact hagree
  have hfits : p'.crossbar.Fits none := by rw [hx]; exact h.idle_fits hidle
  have horder : ∀ i, s.history.accepted i = s.history.processed i ++ p'.crossbar.pendingAt i := by
    intro i
    rw [hx]
    exact h.order i
  rcases hcases with ⟨out, -, heq⟩ | ⟨mask, rest, heq, -⟩ | ⟨mask, heq, -⟩
  · rw [heq]
    refine ⟨?_, ?_, horder, fun hclosed => absurd hclosed (by simp)⟩
    · unfold RunningAgrees
      simp only [hidle]
      exact hrun
    · simp only [hidle]
      exact hfits
  · rw [heq]
    exact ⟨hrun, hfits, horder, fun hclosed => absurd hclosed (by simp)⟩
  · rw [heq]
    exact ⟨⟨hrun, rfl⟩, hfits, horder, fun hclosed => absurd hclosed (by simp)⟩

theorem step {label : SessionLabel} (h : KeptInv s) (hgentle : label.gentle = true)
    (hok : s.keepsQueued label = true) (hstep : (session platform).next s label = some s') :
    KeptInv s' := by
  have hkept : (s.pipeline.running || s.pipeline.crossbar.lanes.all (fun l => l.pending.isEmpty))
      = true → s.pipeline.running = true ∨
        ∀ l ∈ s.pipeline.crossbar.lanes, l.pending = [] := by
    intro hor
    simpa using hor
  cases sessionStep_of_next hstep with
  | advance hadv => exact h.advance hadv
  | work i act x out written hwork => exact h.work hwork
  | configure cfg hidle => exact h.configure hidle (hkept hok) cfg
  | addRoute r hidle =>
      exact h.reconfigure hidle (hkept hok) (p := s.pipeline.pushRoute r) rfl rfl _
  | clearRoutes hidle => simp [SessionLabel.gentle] at hgentle
  | start hidle => exact h.start hidle
  | close hidle => exact h.stop hidle (hkept hok)
  | requestStop hidle => simp [SessionLabel.gentle] at hgentle
  | submit e forceSync hidle => exact h.submit hidle e forceSync

end KeptInv

/-- **A close processes whatever was accepted.** In a run that replaces lanes only while they run or
    are empty, each lane has, when a `close` has returned, given every event it ever accepted to
    `process_`, once and in the order of acceptance. -/
theorem close_processes_accepted
    (hs : (session platform).ReachableBy
      (fun s label => (label.gentle && s.keepsQueued label) = true) s)
    (hclosed : s.closed = true) (i : Nat) : s.history.processed i = s.history.accepted i := by
  have hinit : ∀ s : SessionState, (session platform).init s → KeptInv s := by
    rintro _ rfl
    exact ⟨rfl, fun j l hl => absurd hl (by simp [Pipeline.init, SinkCrossbar.new]), fun i => rfl,
      fun hc => absurd hc (by simp)⟩
  have hinv : KeptInv s := by
    refine hs.invariant hinit (fun s label s' h hok hstep => ?_)
    simp only [Bool.and_eq_true] at hok
    exact h.step hok.1 hok.2 hstep
  rw [hinv.order i, (hinv.closed_empty hclosed).2 i, List.append_nil]

/-- An event that is queued before `start` is processed by the time of the close. -/
theorem close_processes_accepted_before_start :
    ∃ s : SessionState, s.closed = true ∧ s.history.accepted 0 = [{ message := bytes "hi" }] ∧
      s.history.processed 0 = s.history.accepted 0 := by
  have hinit : (session { localtime := fun _ => ⟨0, 0, 0, 0, 0, 0⟩ }).ReachableBy
      (fun s label => (label.gentle && s.keepsQueued label) = true) {} := .init rfl
  have hs := hinit.runBy [.addRoute { sinkRef := some 7 },
    .submit { message := bytes "hi" } false, .advance, .advance, .start, .close, .advance,
    .advance, .work 0 .run, .work 0 .run, .work 0 .run, .work 0 .run, .work 0 .giveUp,
    .work 0 .run, .work 0 .run, .advance, .advance] rfl
  exact ⟨_, rfl, rfl, close_processes_accepted hs rfl 0⟩

/-- An `add_route` on a pipeline that has not been started drops what its lanes hold: the second
    route replaces the lane of the first one, with the event in it. -/
theorem add_route_drops_queued :
    ∃ s₁ s₂ : SessionState,
      (session { localtime := fun _ => ⟨0, 0, 0, 0, 0, 0⟩ }).runBy
        (fun _ label => label.gentle = true) {}
        [.addRoute { sinkRef := some 7 }, .submit { message := bytes "hi" } false, .advance,
          .advance] = some s₁ ∧
      s₁.pipeline.running = false ∧ s₁.history.accepted 0 = [{ message := bytes "hi" }] ∧
      (session { localtime := fun _ => ⟨0, 0, 0, 0, 0, 0⟩ }).runBy
        (fun _ label => label.gentle = true) s₁
        [.addRoute { sinkRef := some 8 }, .start, .close, .advance, .advance, .advance,
          .work 0 .giveUp, .work 0 .run, .work 0 .run, .work 1 .giveUp, .work 1 .run, .work 1 .run,
          .advance, .advance, .advance] = some s₂ ∧
      s₂.closed = true ∧ s₂.history.processed 0 = [] :=
  ⟨_, _, rfl, rfl, rfl, rfl, rfl, rfl⟩

end SyLog
