import SyLog.Library.Machine
import SyLog.Async.CrossbarSession
import SyLog.Pipeline

set_option autoImplicit false

/-! # One thread using a pipeline

The calls of a single thread on a pipeline, while the lane workers run. A call that stops lanes or
hands an event to routes takes as many steps as it visits lanes or routes, so that the workers can
act at any point of it; the rest of a call is one step, since no other thread makes calls. -/

namespace SyLog

/-- What remains to be done once the crossbar call that is under way has returned. -/
inductive AfterCall where
  /-- nothing: `submit` -/
  | done
  /-- the rest of `SinkCrossbar::configure` on a crossbar that was running -/
  | rebuild (routes : List Route)
  /-- the rest of `close` (`drain`) or `request_stop`: a new crossbar -/
  | renew (drain : Bool)

inductive SessionPhase where
  | idle
  /-- in the loop of `dispatch_sync_`, at route `i`, with the routes from there on -/
  | dispatching (e : Event) (mask : RouteMask) (i : Nat) (rest : List Route) (buffer : Bytes)
  | crossbar (phase : CrossbarPhase Event) (after : AfterCall)

structure SessionState where
  pipeline : Pipeline := .init
  phase : SessionPhase := .idle
  submitted : List Event := []
  history : History := {}
  /-- the last call was a `close`, and it has returned -/
  closed : Bool := false

inductive SessionLabel where
  | configure (cfg : Config)
  | addRoute (r : Route)
  | clearRoutes
  | start
  | close
  | requestStop
  | submit (e : Event) (forceSync : Bool)
  /-- the calling thread goes on with its call -/
  | advance
  | work (i : Nat) (act : WorkerAct)

/-- The pipeline when the call returns. Of the crossbar that was stopped nothing remains. -/
def AfterCall.result (p : Pipeline) : AfterCall → Pipeline
  | .done => p
  | .rebuild routes => { p with crossbar := p.crossbar.rebuild true routes p.cfg.queueCapacity }
  | .renew _ => p.installCrossbar p.routes

def AfterCall.closes : AfterCall → Bool
  | .renew drain => drain
  | _ => false

namespace SessionState

/-- Go on with a crossbar call, or finish the pipeline call when it has returned. -/
def resume (s : SessionState) (phase : Option (CrossbarPhase Event)) (after : AfterCall) :
    SessionState :=
  match phase with
  | some phase => { s with phase := .crossbar phase after }
  | none => { s with phase := .idle, pipeline := after.result s.pipeline, closed := after.closes }

/-- `close` (`drain`) or `request_stop`. -/
def stop (s : SessionState) (drain : Bool) : SessionState :=
  let (crossbar, phase) := s.pipeline.crossbar.enterStop drain
  let pipeline := { s.pipeline with accepting := false, running := false, crossbar }
  { s with pipeline }.resume phase (.renew drain)

/-- The part of `add_route` and `clear_routes` under `worker_m`, once `pipeline` has its new
    routes. -/
def reconfigure (s : SessionState) (pipeline : Pipeline) (routes : List Route) : SessionState :=
  if pipeline.crossbar.running then
    let (crossbar, phase) := pipeline.crossbar.enterStop true
    { s with pipeline := { pipeline with crossbar } }.resume phase (.rebuild routes)
  else { s with pipeline := pipeline.updateCrossbar routes }

def submit (platform : Platform) (s : SessionState) (e : Event) (forceSync : Bool) :
    SessionState :=
  let (pipeline, disposition) := s.pipeline.decideSubmit platform e forceSync
  let s := { s with pipeline, submitted := s.submitted ++ [e] }
  match disposition with
  | .unrouted out =>
    { s with history := { s.history with trace := s.history.trace ++ out.map (e, ·) } }
  | .filtered => s
  | .sync mask => { s with phase := .dispatching e mask 0 pipeline.routes [] }
  | .crossbar mask => { s with phase := .crossbar (.submitting e mask 0) .done }

/-- The next step of the calling thread; `none` when it is outside of a call or has to wait. -/
def advance (s : SessionState) : Option SessionState :=
  match s.phase with
  | .idle => none
  | .dispatching _ _ _ [] _ => some { s with phase := .idle }
  | .dispatching e mask i (r :: rest) buffer =>
    -- the loop ends at route 64
    if i < 64 then
      if !selects mask i then some { s with phase := .dispatching e mask (i + 1) rest buffer }
      else
        let (buffer, out) := dispatchRoute r i e buffer
        let trace := s.history.trace ++ out.map (e, ·)
        some { s with phase := .dispatching e mask (i + 1) rest buffer
                      history := { s.history with trace } }
    else some { s with phase := .idle }
  | .crossbar phase after =>
    (s.pipeline.crossbar.advance s.pipeline.accepting phase).map fun (crossbar, phase', push) =>
      { s with pipeline := { s.pipeline with crossbar }
               history := s.history.accept push }.resume phase' after

end SessionState

/-- The calls of one thread on a pipeline as it is constructed. A call can be made once the one
    before has returned. -/
def session (platform : Platform) : Machine SessionState SessionLabel where
  init s := s = {}
  next s
    | .advance => s.advance
    | .work i act =>
      (s.pipeline.crossbar.workProcess i act).map fun (crossbar, out, written) =>
        { s with pipeline := { s.pipeline with crossbar }
                 history := s.history.work i out written }
    | call =>
      match s.phase with
      | .idle =>
        let s := { s with closed := false }
        match call with
        | .configure cfg => some { s with pipeline := s.pipeline.configure cfg }
        | .addRoute r =>
          let pipeline := s.pipeline.pushRoute r
          some (s.reconfigure pipeline pipeline.routes)
        | .clearRoutes => some (s.reconfigure s.pipeline.dropRoutes [])
        | .start => some { s with pipeline := s.pipeline.start }
        | .close => some (s.stop true)
        | .requestStop => some (s.stop false)
        | .submit e forceSync => some (s.submit platform e forceSync)
        | .advance | .work _ _ => none
      | _ => none

/-! ## What the steps of a session can do -/

/-- What `submit` leaves alone until it delivers, and what its choice depends on. -/
theorem decideSubmit_cases (platform : Platform) (p : Pipeline) (e : Event) (forceSync : Bool) :
    ∃ p' : Pipeline, p'.crossbar = p.crossbar ∧ p'.running = p.running ∧
      p'.accepting = p.accepting ∧ p'.cfg = p.cfg ∧
      ((∃ out, p.decideSubmit platform e forceSync = (p', .unrouted out) ∧
          ∀ o ∈ out, o.isWrite = false) ∨
        p.decideSubmit platform e forceSync = (p', .filtered) ∨
        (∃ mask, p.decideSubmit platform e forceSync = (p', .sync mask) ∧
          (p.cfg.asyncByDefault = false ∨ p.accepting = false ∨ forceSync = true ∨
            Severity.fatal.priority ≤ e.severityPriority)) ∨
        (∃ mask, p.decideSubmit platform e forceSync = (p', .crossbar mask) ∧
          p.cfg.asyncByDefault = true ∧ p.accepting = true)) := by
  obtain ⟨cache, least, hframe⟩ := p.cachedRouteMask_frame e.endpoint
  refine ⟨(p.cachedRouteMask e.endpoint).1, by rw [hframe], by rw [hframe], by rw [hframe],
    by rw [hframe], ?_⟩
  unfold Pipeline.decideSubmit
  simp only
  split
  · left
    split
    · refine ⟨_, rfl, fun o ho => ?_⟩
      rw [List.mem_singleton.1 ho]
      rfl
    · exact ⟨[], rfl, fun o ho => absurd ho (by simp)⟩
  · right
    split
    · exact Or.inl rfl
    · right
      split
      · next hsync =>
          -- one of the conditions for asynchronous mode fails
          refine Or.inl ⟨_, rfl, ?_⟩
          simp only [hframe, Bool.not_eq_true', Bool.and_eq_false_imp, Bool.and_eq_true,
            Bool.not_eq_false', decide_eq_true_eq] at hsync
          by_cases ha : p.cfg.asyncByDefault = false
          · exact Or.inl ha
          · have ha' : p.cfg.asyncByDefault = true := by simpa using ha
            by_cases hf : forceSync = true
            · exact Or.inr (Or.inr (Or.inl hf))
            · exact Or.inr (Or.inr (Or.inr (hsync ⟨ha', by simpa using hf⟩).2))
      · next hasync =>
          have ha : p.cfg.asyncByDefault = true := by
            simp only [hframe, Bool.not_eq_true', Bool.not_eq_false, Bool.and_eq_true] at hasync
            exact hasync.1.1
          split
          · next hacc =>
              refine Or.inl ⟨_, rfl, Or.inr (Or.inl ?_)⟩
              simpa [hframe] using hacc
          · next hacc =>
              refine Or.inr ⟨_, rfl, ha, ?_⟩
              simpa [hframe] using hacc

theorem Pipeline.start_pendingAt_sublist (p : Pipeline) (i : Nat) :
    (p.start.crossbar.pendingAt i).Sublist (p.crossbar.pendingAt i) := by
  rw [p.start_crossbar]
  cases p.running with
  | true => exact List.Sublist.refl _
  | false => exact p.crossbar.start_pendingAt_sublist i

namespace SessionState

variable {s s' : SessionState}

/-- A `submit` writes at most to `stderr`, or goes on to deliver on this thread, or through the
    crossbar. -/
theorem submit_cases (platform : Platform) (s : SessionState) (e : Event) (forceSync : Bool) :
    ∃ p' : Pipeline, p'.crossbar = s.pipeline.crossbar ∧ p'.running = s.pipeline.running ∧
      p'.accepting = s.pipeline.accepting ∧ p'.cfg = s.pipeline.cfg ∧
      ((∃ out : List Output, (∀ o ∈ out, o.isWrite = false) ∧ s.submit platform e forceSync
          = { s with pipeline := p', submitted := s.submitted ++ [e]
                     history := { s.history with trace := s.history.trace ++ out.map (e, ·) } }) ∨
        (∃ mask rest, s.submit platform e forceSync
            = { s with pipeline := p', submitted := s.submitted ++ [e]
                       phase := .dispatching e mask 0 rest [] } ∧
          (s.pipeline.cfg.asyncByDefault = false ∨ s.pipeline.accepting = false ∨
            forceSync = true ∨ Severity.fatal.priority ≤ e.severityPriority)) ∨
        (∃ mask, s.submit platform e forceSync
            = { s with pipeline := p', submitted := s.submitted ++ [e]
                       phase := .crossbar (.submitting e mask 0) .done } ∧
          s.pipeline.cfg.asyncByDefault = true ∧ s.pipeline.accepting = true)) := by
  obtain ⟨p', hx, hr, ha, hc, hcases⟩ := decideSubmit_cases platform s.pipeline e forceSync
  refine ⟨p', hx, hr, ha, hc, ?_⟩
  rcases hcases with ⟨out, heq, hout⟩ | heq | ⟨mask, heq, hwhy⟩ | ⟨mask, heq, hasync⟩
  · exact Or.inl ⟨out, hout, by simp only [submit, heq]⟩
  · refine Or.inl ⟨[], fun o ho => absurd ho (by simp), ?_⟩
    simp only [submit, heq, List.map_nil, List.append_nil]
  · exact Or.inr (Or.inl ⟨mask, p'.routes, by simp only [submit, heq], hwhy⟩)
  · exact Or.inr (Or.inr ⟨mask, by simp only [submit, heq], hasync⟩)

/-- A stop begins with the close of the lanes, unless there is nothing to stop. -/
theorem stop_cases (s : SessionState) (drain : Bool) :
    (s.pipeline.crossbar.running = false ∧ s.pipeline.crossbar.lanes = [] ∧
      ∃ p : Pipeline, s.stop drain
        = { s with phase := .idle, pipeline := (AfterCall.renew drain).result p, closed := drain } ∧
        p.running = false) ∨
    s.stop drain
      = { s with phase := .crossbar (.closing drain 0) (.renew drain)
                 pipeline := { s.pipeline with
                   accepting := false, running := false
                   crossbar := s.pipeline.crossbar.beginStop drain } } := by
  by_cases hempty : (!s.pipeline.crossbar.running && s.pipeline.crossbar.lanes.isEmpty) = true
  · left
    have henter : s.pipeline.crossbar.enterStop drain = (s.pipeline.crossbar, none) := by
      rw [SinkCrossbar.enterStop, if_pos hempty]
    simp only [Bool.and_eq_true, Bool.not_eq_true', List.isEmpty_iff] at hempty
    refine ⟨hempty.1, hempty.2,
      { s.pipeline with accepting := false, running := false }, ?_, rfl⟩
    rw [stop, henter]
    rfl
  · right
    have henter : s.pipeline.crossbar.enterStop drain
        = (s.pipeline.crossbar.beginStop drain, some (.closing drain 0)) := by
      rw [SinkCrossbar.enterStop, if_neg hempty]
    rw [stop, henter]
    rfl

/-- New routes stop the lanes of a running crossbar first. -/
theorem reconfigure_cases (s : SessionState) (p : Pipeline) (routes : List Route) :
    (p.crossbar.running = true ∧ s.reconfigure p routes
      = { s with phase := .crossbar (.closing true 0) (.rebuild routes)
                 pipeline := { p with crossbar := p.crossbar.beginStop true } }) ∨
    (p.crossbar.running = false ∧
      s.reconfigure p routes = { s with pipeline := p.updateCrossbar routes }) := by
  cases hrun : p.crossbar.running with
  | true =>
      left
      refine ⟨rfl, ?_⟩
      rw [reconfigure, if_pos hrun, SinkCrossbar.enterStop_of_running hrun]
      rfl
  | false =>
      right
      refine ⟨rfl, ?_⟩
      rw [reconfigure, if_neg (by simp [hrun])]

/-- The steps of the calling thread: the end of a dispatch, a route of a dispatch, or a round of a
    crossbar call. -/
theorem advance_cases (h : s.advance = some s') :
    (∃ e mask i rest buffer, s.phase = .dispatching e mask i rest buffer ∧
      s' = { s with phase := .idle }) ∨
    (∃ e mask i rest buffer rest' buffer', ∃ out : List Output,
      s.phase = .dispatching e mask i rest buffer ∧
      (out = [] ∨ ∃ r : Route, out = r.outputs i e) ∧
      s' = { s with phase := .dispatching e mask (i + 1) rest' buffer'
                    history := { s.history with trace := s.history.trace ++ out.map (e, ·) } }) ∨
    (∃ c after x phase' push, s.phase = .crossbar c after ∧
      SinkCrossbar.CrossbarStep s.pipeline.crossbar s.pipeline.accepting c x phase' push ∧
      s' = { s with pipeline := { s.pipeline with crossbar := x }
                    history := s.history.accept push }.resume phase' after) := by
  unfold advance at h
  split at h
  · exact absurd h (by simp)
  · next e mask i buffer hphase =>
      obtain rfl := Option.some.inj h
      exact Or.inl ⟨e, mask, i, [], buffer, hphase, rfl⟩
  · next e mask i r rest buffer hphase =>
      split at h
      · split at h
        · obtain rfl := Option.some.inj h
          refine Or.inr (Or.inl ⟨e, mask, i, _, buffer, rest, buffer, [], hphase, Or.inl rfl, ?_⟩)
          simp
        · obtain rfl := Option.some.inj h
          exact Or.inr (Or.inl ⟨e, mask, i, _, buffer, rest, _, _, hphase,
            Or.inr ⟨r, dispatchRoute_outputs r i e buffer⟩, rfl⟩)
      · obtain rfl := Option.some.inj h
        exact Or.inl ⟨e, mask, i, _, buffer, hphase, rfl⟩
  · next c after hphase =>
      obtain ⟨⟨x, phase', push⟩, hadv, rfl⟩ := Option.map_eq_some_iff.1 h
      exact Or.inr (Or.inr ⟨c, after, x, phase', push, hphase,
        SinkCrossbar.crossbarStep_of_advance hadv, rfl⟩)

end SessionState

/-- The steps of a session, by label. -/
inductive SessionStep (platform : Platform) (s : SessionState) :
    SessionLabel → SessionState → Prop
  | advance {s' : SessionState} (h : s.advance = some s') : SessionStep platform s .advance s'
  | work (i : Nat) (act : WorkerAct) (x : SinkCrossbar Event) (out : Option Event)
      (written : List Output)
      (h : s.pipeline.crossbar.workProcess i act = some (x, out, written)) :
      SessionStep platform s (.work i act)
        { s with pipeline := { s.pipeline with crossbar := x }
                 history := s.history.work i out written }
  | configure (cfg : Config) (hidle : s.phase = .idle) :
      SessionStep platform s (.configure cfg)
        { s with closed := false, pipeline := s.pipeline.configure cfg }
  | addRoute (r : Route) (hidle : s.phase = .idle) :
      SessionStep platform s (.addRoute r)
        ({ s with closed := false }.reconfigure (s.pipeline.pushRoute r)
          (s.pipeline.pushRoute r).routes)
  | clearRoutes (hidle : s.phase = .idle) :
      SessionStep platform s .clearRoutes
        ({ s with closed := false }.reconfigure s.pipeline.dropRoutes [])
  | start (hidle : s.phase = .idle) :
      SessionStep platform s .start { s with closed := false, pipeline := s.pipeline.start }
  | close (hidle : s.phase = .idle) :
      SessionStep platform s .close ({ s with closed := false }.stop true)
  | requestStop (hidle : s.phase = .idle) :
      SessionStep platform s .requestStop ({ s with closed := false }.stop false)
  | submit (e : Event) (forceSync : Bool) (hidle : s.phase = .idle) :
      SessionStep platform s (.submit e forceSync)
        ({ s with closed := false }.submit platform e forceSync)

theorem sessionStep_of_next {platform : Platform} {s s' : SessionState} {label : SessionLabel}
    (h : (session platform).next s label = some s') : SessionStep platform s label s' := by
  cases label with
  | advance => exact .advance h
  | work i act =>
      obtain ⟨⟨x, out, written⟩, hwork, rfl⟩ := Option.map_eq_some_iff.1 h
      exact .work i act x out written hwork
  | _ =>
      simp only [session] at h
      split at h
      · next hidle =>
          obtain rfl := Option.some.inj h
          constructor
          exact hidle
      · exact absurd h (by simp)

end SyLog
