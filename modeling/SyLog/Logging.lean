import SyLog.Routing
import SyLog.SessionCalls

set_option autoImplicit false

/-! # Log calls of one thread

`Logger::log_at` and `log_fields_at` on top of a session: look up whether the severity is enabled,
make the event, submit it, and flush if the severity asks for it. The calls of the session and the
global filters can change between two log calls, and the lane workers act at any time.

The write of a record goes through the route list of the pipeline, the flush through the lanes of
the crossbar. `Mirrored` says that the two agree whenever no call is under way. -/

namespace SyLog

variable {platform : Platform} {p : Pipeline}

/-! ## The logger -/

/-- What a log call is given: the severity, the endpoint of the `Logger`, the formatted message, and
    what the call site and the clock contribute. `log_at` has no fields. -/
structure LogCall where
  severity : Severity
  endpoint : Bytes := []
  message : Bytes := []
  fields : List Field := []
  timestamp : Int := 0
  source : SourceLocation := {}
  threadId : Nat := 0

namespace LogCall

/-- `Logger::make_event_`. -/
def makeEvent (c : LogCall) : Event where
  timestamp := c.timestamp
  severityName := c.severity.name
  severityPriority := c.severity.priority
  endpoint := c.endpoint
  source := c.source
  threadId := c.threadId
  message := c.message

/-- The event that is submitted. -/
def event (c : LogCall) : Event := { c.makeEvent with fields := c.fields }

@[simp] theorem event_endpoint (c : LogCall) : c.event.endpoint = c.endpoint := rfl

end LogCall

/-- A lookup leaves the routes, the filters and the lanes alone. -/
theorem enabled_frame (p : Pipeline) (endpoint : Bytes) (priority : UInt16) :
    ∃ cache least, (Logger.enabled p endpoint priority).1
      = { p with dirtyCache := false, endpointCache := cache, globalMinPriority := least } := by
  obtain ⟨cache, least, hframe⟩ := p.cachedRouteMask_frame endpoint
  exact ⟨cache, least, (p.cachedMinPriority_fst endpoint).trans hframe⟩

theorem Pipeline.Coherent.enabled (h : p.Coherent) (endpoint : Bytes) (priority : UInt16) :
    (Logger.enabled p endpoint priority).1.Coherent := by
  have hfst : (Logger.enabled p endpoint priority).1 = (p.cachedRouteMask endpoint).1 :=
    p.cachedMinPriority_fst endpoint
  rw [hfst]
  exact (h.cachedRouteMask endpoint).2

theorem Pipeline.Coherent.enabled_iff (h : p.Coherent) (endpoint : Bytes) (priority : UInt16) :
    (Logger.enabled p endpoint priority).2 = true
      ↔ (computeCacheEntry p.routes endpoint).minPriority ≤ priority := by
  rw [← h.cachedMinPriority endpoint]
  exact decide_eq_true_iff

/-- From `trace` on a severity that is not enabled has no route that accepts it. -/
theorem not_accepts_of_not_enabled {e : Event} (h : p.Coherent)
    (hoff : (Logger.enabled p e.endpoint e.severityPriority).2 = false)
    (htrace : Severity.trace.priority ≤ e.severityPriority) {i : Nat} {r : Route} (hi : i < 64)
    (hr : p.routes[i]? = some r) : ¬ r.accepts e := by
  intro hacc
  have hlt : e.severityPriority < (computeCacheEntry p.routes e.endpoint).minPriority := by
    refine UInt16.not_le.1 (fun hle => ?_)
    rw [(h.enabled_iff _ _).2 hle] at hoff
    exact absurd hoff (by simp)
  have hbound := ((lt_computeCacheEntry_minPriority p.routes e.endpoint _).1 hlt).2 i r hi hr
    hacc.endpointOk
  unfold Route.minPriority at hbound
  cases hm : lastSeverity r.filterList with
  | none => exact absurd htrace (UInt16.not_le.2 (by simpa [hm] using hbound))
  | some m =>
      have hle : m ≤ e.severityPriority := hacc.lastSeverity_le hm
      exact absurd hle (UInt16.not_le.2 (by simpa [hm] using hbound))

/-! ## The machine -/

/-- Where the thread is in a log call, besides what the session says of its `submit`. -/
inductive LogStage where
  /-- in no log call -/
  | none
  | submitting (flushAfter : Bool)
  /-- in `SinkCrossbar::flush`, at lane `i` -/
  | flushing (i : Nat)

structure LoggingState where
  session : SessionState := {}
  stage : LogStage := .none
  /-- what the calling thread has written and flushed in the last log call -/
  acts : List Output := []

inductive LoggingLabel where
  | call (c : LifecycleCall)
  | addGlobalFilter (f : Option Filter)
  | clearGlobalFilters
  /-- `Pipeline::submit` without a logger -/
  | submit (e : Event) (forceSync : Bool)
  | log (c : LogCall)
  | advance
  | work (i : Nat) (act : WorkerAct)

/-- What the calling thread wrote in a step of its own from `s` to `t`. -/
def SessionState.written (s t : SessionState) : List Output :=
  (t.history.trace.drop s.history.trace.length).map Prod.snd

/-- One round of the loop of `SinkCrossbar::flush`, at the lane of route `i`. -/
def Route.flush (r : Route) (i : Nat) : List Output :=
  match r.sinkRef with
  | some sink => [.flush i sink]
  | none => []

/-- The rounds make up `SinkCrossbar::flush`. -/
theorem SinkCrossbar.flush_eq (x : SinkCrossbar Event) :
    x.flush = x.routes.zipIdx.flatMap (fun (r, i) => r.flush i) := by
  simp only [SinkCrossbar.routes, List.zipIdx_map, List.flatMap_map, SinkCrossbar.flush]
  rfl

namespace LoggingState

/-- No call is under way. -/
def returned (s : LoggingState) : Prop := s.stage = .none ∧ s.session.phase = .idle

/-- `log_at` and `log_fields_at`, up to the point where `submit` has decided what to do. -/
def log (platform : Platform) (s : LoggingState) (c : LogCall) : LoggingState :=
  let (pipeline, enabled) := Logger.enabled s.session.pipeline c.endpoint c.severity.priority
  let session := { s.session with pipeline, closed := false }
  if !enabled then { s with session, acts := [] }
  else
    let submitted := session.submit platform c.event c.severity.forceSync
    { session := submitted, stage := .submitting c.severity.flushAfter
      acts := session.written submitted }

/-- The next step of the calling thread. -/
def advance (s : LoggingState) : Option LoggingState :=
  match s.stage with
  | .none => s.session.advance.map fun session => { s with session }
  | .submitting flushAfter =>
    match s.session.phase with
    | .idle => some { s with stage := if flushAfter then .flushing 0 else .none }
    | _ =>
      s.session.advance.map fun session =>
        { s with session, acts := s.acts ++ s.session.written session }
  | .flushing i =>
    match s.session.pipeline.crossbar.lanes[i]? with
    | some l => some { s with stage := .flushing (i + 1), acts := s.acts ++ l.route.flush i }
    | none => some { s with stage := .none }

end LoggingState

/-- The calls of one thread, log calls among them, on a pipeline as it is constructed. -/
def logging (platform : Platform) : Machine LoggingState LoggingLabel where
  init s := s = {}
  next s
    | .advance => s.advance
    | .work i act =>
      ((session platform).next s.session (.work i act)).map fun session => { s with session }
    | call =>
      match s.stage, s.session.phase with
      | .none, .idle =>
        match call with
        | .call c =>
          ((session platform).next s.session c.label).map fun session => { s with session }
        | .addGlobalFilter f =>
          let pipeline := s.session.pipeline.addGlobalFilter f
          some { s with session := { s.session with pipeline, closed := false } }
        | .clearGlobalFilters =>
          let pipeline := s.session.pipeline.clearGlobalFilters
          some { s with session := { s.session with pipeline, closed := false } }
        | .submit e forceSync =>
          ((session platform).next s.session (.submit e forceSync)).map fun session =>
            { s with session }
        | .log c => some (s.log platform c)
        | .advance | .work _ _ => none
      | _, _ => none

/-- The steps by which a call goes on: those of the calling thread and of the workers. -/
def LoggingLabel.goesOn : LoggingLabel → Bool
  | .advance | .work _ _ => true
  | _ => false

/-! ## The first step of a log call -/

/-- Where a `submit` is after its choice. -/
def Disposition.phase (routes : List Route) (e : Event) : Disposition → SessionPhase
  | .unrouted _ | .filtered => .idle
  | .sync mask => .dispatching e mask 0 routes []
  | .crossbar mask => .crossbar (.submitting e mask 0) .done

/-- What `submit` has written with its choice. -/
def Disposition.immediate : Disposition → List Output
  | .unrouted out => out
  | _ => []

theorem written_of_trace {s t : SessionState} (out : List (Event × Output))
    (h : t.history.trace = s.history.trace ++ out) : s.written t = out.map Prod.snd := by
  rw [SessionState.written, h, List.drop_left]

/-- A `submit` up to its choice, for the mask that its lookup gives. -/
theorem submit_choice (platform : Platform) {s : SessionState} (hidle : s.phase = .idle)
    (e : Event) (forceSync : Bool) :
    ∃ d, d = s.pipeline.disposition platform e forceSync
        (s.pipeline.cachedRouteMask e.endpoint).2.routeMask ∧
      (s.submit platform e forceSync).pipeline = (s.pipeline.cachedRouteMask e.endpoint).1 ∧
      (s.submit platform e forceSync).phase = d.phase s.pipeline.routes e ∧
      s.written (s.submit platform e forceSync) = d.immediate ∧
      (s.submit platform e forceSync).history.accepted = s.history.accepted := by
  obtain ⟨cache, least, hframe⟩ := s.pipeline.cachedRouteMask_frame e.endpoint
  have hroutes : (s.pipeline.cachedRouteMask e.endpoint).1.routes = s.pipeline.routes := by
    rw [hframe]
  refine ⟨_, rfl, ?_⟩
  unfold SessionState.submit
  rw [decideSubmit_eq]
  cases s.pipeline.disposition platform e forceSync
      (s.pipeline.cachedRouteMask e.endpoint).2.routeMask with
  | unrouted out =>
      refine ⟨rfl, hidle, ?_, rfl⟩
      rw [written_of_trace _ rfl, List.map_map]
      exact List.map_id out
  | filtered => exact ⟨rfl, hidle, written_of_trace [] (by simp), rfl⟩
  | sync mask =>
      refine ⟨rfl, ?_, written_of_trace [] (by simp), rfl⟩
      simp only [hroutes, Disposition.phase]
  | crossbar mask => exact ⟨rfl, rfl, written_of_trace [] (by simp), rfl⟩

/-- What the first step of a log call leads to, in terms of the current routes: the end of the call,
    or a `submit` that has made its choice. -/
inductive LogStart (platform : Platform) (s : LoggingState) (c : LogCall) (t : LoggingState) : Prop
  | disabled
      (hoff : (Logger.enabled s.session.pipeline c.endpoint c.severity.priority).2 = false)
      (hret : t.returned) (hacts : t.acts = [])
  | submitting (d : Disposition)
      (hon : (Logger.enabled s.session.pipeline c.endpoint c.severity.priority).2 = true)
      (hd : d = s.session.pipeline.disposition platform c.event c.severity.forceSync
        (computeCacheEntry s.session.pipeline.routes c.endpoint).routeMask)
      (hstage : t.stage = .submitting c.severity.flushAfter)
      (hphase : t.session.phase = d.phase s.session.pipeline.routes c.event)
      (hacts : t.acts = d.immediate)

/-- What a log call on this thread keeps: the routes that the lanes serve, and the record of what
    the lanes have accepted. -/
structure LogFrame (routes : List Route) (accepted : Nat → List Event) (s : LoggingState) :
    Prop where
  lanes : s.session.pipeline.crossbar.routes = routes
  accepted_eq : s.session.history.accepted = accepted

/-- The session once a log call has looked up whether its severity is enabled. -/
def LoggingState.lookup (s : LoggingState) (c : LogCall) : SessionState :=
  { s.session with
    pipeline := (Logger.enabled s.session.pipeline c.endpoint c.severity.priority).1
    closed := false }

theorem LoggingState.log_of_disabled {s : LoggingState} {c : LogCall}
    (h : (Logger.enabled s.session.pipeline c.endpoint c.severity.priority).2 = false) :
    s.log platform c = { s with session := s.lookup c, acts := [] } := by
  simp [LoggingState.log, LoggingState.lookup, h]

theorem LoggingState.log_of_enabled {s : LoggingState} {c : LogCall}
    (h : (Logger.enabled s.session.pipeline c.endpoint c.severity.priority).2 = true) :
    s.log platform c = {
      session := (s.lookup c).submit platform c.event c.severity.forceSync
      stage := .submitting c.severity.flushAfter
      acts := (s.lookup c).written
        ((s.lookup c).submit platform c.event c.severity.forceSync) } := by
  simp [LoggingState.log, LoggingState.lookup, h]

theorem log_start (platform : Platform) {s : LoggingState} (hcoherent : s.session.pipeline.Coherent)
    (hret : s.returned) (c : LogCall) :
    LogStart platform s c (s.log platform c) ∧
      LogFrame s.session.pipeline.crossbar.routes s.session.history.accepted
        (s.log platform c) := by
  obtain ⟨cache, least, hframe⟩ := enabled_frame s.session.pipeline c.endpoint c.severity.priority
  have hcoherent' := hcoherent.enabled c.endpoint c.severity.priority
  cases hon : (Logger.enabled s.session.pipeline c.endpoint c.severity.priority).2 with
  | false =>
      rw [LoggingState.log_of_disabled hon, LoggingState.lookup, hframe]
      exact ⟨.disabled hon hret rfl, rfl, rfl⟩
  | true =>
      -- the lookup changes nothing that the choice depends on
      have hsame : (s.lookup c).pipeline.routes = s.session.pipeline.routes ∧
          (s.lookup c).pipeline.crossbar = s.session.pipeline.crossbar ∧
          (s.lookup c).pipeline.disposition platform c.event c.severity.forceSync
            = s.session.pipeline.disposition platform c.event c.severity.forceSync := by
        simp only [LoggingState.lookup, hframe, true_and]
        rfl
      obtain ⟨hroutes, hcrossbar, hdisposition⟩ := hsame
      have hentry := (hcoherent'.cachedRouteMask c.endpoint).1
      obtain ⟨d, hd, hpipeline, hphase, hacts, haccepted⟩ :=
        submit_choice platform (s := s.lookup c) hret.2 c.event c.severity.forceSync
      obtain ⟨cache', least', hframe'⟩ := (s.lookup c).pipeline.cachedRouteMask_frame c.endpoint
      rw [LoggingState.log_of_enabled hon]
      -- nothing more about the submit is needed
      generalize (s.lookup c).submit platform c.event c.severity.forceSync = t
        at hpipeline hphase hacts haccepted ⊢
      refine ⟨.submitting d hon ?_ rfl (hroutes ▸ hphase) hacts, ?_, haccepted⟩
      · rw [hd, hdisposition, ← hroutes]
        exact congrArg _ (congrArg CacheEntry.routeMask hentry)
      · rw [hpipeline]
        exact congrArg SinkCrossbar.routes ((congrArg Pipeline.crossbar hframe').trans hcrossbar)

/-- What the calls do: each finds the thread in no call. -/
def LoggingLabel.Effect (platform : Platform) (s s' : LoggingState) : LoggingLabel → Prop
  | .call c =>
    ((session platform).next s.session c.label).map (fun session => { s with session }) = some s'
  | .submit e forceSync =>
    ((session platform).next s.session (.submit e forceSync)).map
      (fun session => { s with session }) = some s'
  | .addGlobalFilter f =>
    s' = { s with session := { s.session with
      pipeline := s.session.pipeline.addGlobalFilter f, closed := false } }
  | .clearGlobalFilters =>
    s' = { s with session := { s.session with
      pipeline := s.session.pipeline.clearGlobalFilters, closed := false } }
  | .log c => s' = s.log platform c
  | .advance | .work _ _ => True

theorem logging_next {s s' : LoggingState} {label : LoggingLabel} (hlabel : label.goesOn = false)
    (h : (logging platform).next s label = some s') :
    s.returned ∧ label.Effect platform s s' := by
  cases label with
  | advance => exact absurd hlabel (by simp [LoggingLabel.goesOn])
  | work i act => exact absurd hlabel (by simp [LoggingLabel.goesOn])
  | _ =>
      simp only [logging] at h
      split at h
      · next hstage hphase =>
          refine ⟨⟨hstage, hphase⟩, ?_⟩
          first
            | exact h
            | exact (Option.some.inj h).symm
      · exact absurd h (by simp)

/-! ## Lanes mirror routes -/

/-- The lanes serve the routes of the pipeline, or will once the call that stops them returns. -/
def AfterCall.Mirrors (p : Pipeline) : AfterCall → Prop
  | .done => p.crossbar.routes = p.routes
  | .rebuild routes => routes = p.routes
  | .renew _ => True

/-- What remains of the call that the thread is in. -/
def SessionPhase.after : SessionPhase → AfterCall
  | .crossbar _ after => after
  | _ => .done

/-- The cache is coherent, and lanes mirror routes. -/
structure Mirrored (s : SessionState) : Prop where
  coherent : s.pipeline.Coherent
  lanes : s.phase.after.Mirrors s.pipeline

theorem AfterCall.Mirrors.congr {after : AfterCall} {q : Pipeline} (h : after.Mirrors p)
    (hroutes : q.routes = p.routes) (hlanes : q.crossbar.routes = p.crossbar.routes) :
    after.Mirrors q := by
  cases after with
  | done => exact hlanes.trans (h.trans hroutes.symm)
  | rebuild routes => exact h.trans hroutes.symm
  | renew drain => trivial

theorem AfterCall.result_mirrors {after : AfterCall} (h : after.Mirrors p) :
    (after.result p).crossbar.routes = (after.result p).routes := by
  cases after with
  | done => exact h
  | rebuild routes =>
      have hroutes : routes = p.routes := h
      rw [hroutes]
      exact SinkCrossbar.rebuild_routes _ _ _ _
  | renew drain => exact p.freshCrossbar_routes p.routes

theorem AfterCall.result_coherent (after : AfterCall) (h : p.Coherent) :
    (after.result p).Coherent := by
  cases after <;> exact h

namespace Mirrored

variable {s s' : SessionState}

theorem resume (hcoherent : s.pipeline.Coherent) {after : AfterCall}
    (hafter : after.Mirrors s.pipeline) (phase : Option (CrossbarPhase Event)) :
    Mirrored (s.resume phase after) := by
  cases phase with
  | some c => exact ⟨hcoherent, hafter⟩
  | none => exact ⟨after.result_coherent hcoherent, AfterCall.result_mirrors hafter⟩

theorem of_idle (hidle : s.phase = .idle) (hcoherent : s.pipeline.Coherent)
    (hserves : s.pipeline.crossbar.routes = s.pipeline.routes) : Mirrored s :=
  ⟨hcoherent, by rw [hidle]; exact hserves⟩

theorem reconfigure (hidle : s.phase = .idle) {q : Pipeline} (hcoherent : q.Coherent) :
    Mirrored (s.reconfigure q q.routes) := by
  rcases s.reconfigure_cases q q.routes with ⟨-, heq⟩ | ⟨-, heq⟩
  · rw [heq]
    exact ⟨hcoherent, rfl⟩
  · rw [heq]
    exact of_idle hidle hcoherent (SinkCrossbar.configure_routes _ _ _)

theorem stop (h : Mirrored s) (drain : Bool) : Mirrored (s.stop drain) := by
  let crossbar := (s.pipeline.crossbar.enterStop drain).1
  let pipeline := { s.pipeline with accepting := false, running := false, crossbar }
  have hrenew : AfterCall.Mirrors pipeline (.renew drain) := trivial
  exact resume (s := { s with pipeline }) h.coherent hrenew (s.pipeline.crossbar.enterStop drain).2

/-- Between two calls the lanes serve the routes. -/
theorem serves (h : Mirrored s) (hidle : s.phase = .idle) :
    s.pipeline.crossbar.routes = s.pipeline.routes := by
  have hlanes := h.lanes
  rwa [hidle] at hlanes

theorem submit (h : Mirrored s) (hidle : s.phase = .idle) (e : Event) (forceSync : Bool) :
    Mirrored (s.submit platform e forceSync) := by
  have hserves := h.serves hidle
  have hcoherent := (h.coherent.cachedRouteMask e.endpoint).2
  obtain ⟨cache, least, hframe⟩ := s.pipeline.cachedRouteMask_frame e.endpoint
  have hlanes : (s.pipeline.cachedRouteMask e.endpoint).1.crossbar.routes
      = (s.pipeline.cachedRouteMask e.endpoint).1.routes := by
    rw [hframe]
    exact hserves
  unfold SessionState.submit
  rw [decideSubmit_eq]
  simp only
  split
  · exact of_idle hidle hcoherent hlanes
  · exact of_idle hidle hcoherent hlanes
  · exact ⟨hcoherent, hlanes⟩
  · exact ⟨hcoherent, hlanes⟩

theorem advance (h : Mirrored s) (hstep : s.advance = some s') : Mirrored s' := by
  have hlanes := h.lanes
  rcases SessionState.advance_cases hstep with ⟨e, mask, i, rest, buffer, hphase, rfl⟩ |
    ⟨e, mask, i, rest, buffer, rest', buffer', out, hphase, -, rfl⟩ |
    ⟨c, after, x, phase', push, hphase, hround, rfl⟩
  · rw [hphase] at hlanes
    exact ⟨h.coherent, hlanes⟩
  · rw [hphase] at hlanes
    exact ⟨h.coherent, hlanes⟩
  · rw [hphase] at hlanes
    exact resume (s := { s with pipeline := { s.pipeline with crossbar := x }
                                history := s.history.accept push })
      h.coherent (hlanes.congr rfl hround.routes) phase'

/-- **Step lemma.** Every step of a session keeps lanes and routes together. -/
theorem step {label : SessionLabel} (h : Mirrored s) (hstep : SessionStep platform s label s') :
    Mirrored s' := by
  cases hstep with
  | advance hadv => exact h.advance hadv
  | work i act x out written hwork =>
      exact ⟨h.coherent, h.lanes.congr rfl (SinkCrossbar.workProcess_routes hwork)⟩
  | configure cfg hidle =>
      refine of_idle hidle ?_ ?_
      · simp only [Pipeline.configure]
        split <;> exact h.coherent
      · rw [s.pipeline.configure_routes cfg]
        exact Pipeline.configure_crossbar_routes (h.serves hidle) cfg
  | addRoute r hidle =>
      exact reconfigure (s := { s with closed := false }) hidle (s.pipeline.pushRoute_coherent r)
  | clearRoutes hidle =>
      exact reconfigure (s := { s with closed := false }) hidle s.pipeline.dropRoutes_coherent
  | start hidle =>
      refine of_idle hidle ?_ ?_
      · simp only [Pipeline.start]
        split <;> exact h.coherent
      · rw [s.pipeline.start_crossbar_routes, s.pipeline.start_routes]
        exact h.serves hidle
  | close hidle => exact stop (s := { s with closed := false }) ⟨h.coherent, h.lanes⟩ true
  | requestStop hidle => exact stop (s := { s with closed := false }) ⟨h.coherent, h.lanes⟩ false
  | submit e forceSync hidle =>
      exact submit (s := { s with closed := false }) ⟨h.coherent, h.lanes⟩ hidle e forceSync

end Mirrored

theorem Mirrored.log {s : LoggingState} (h : Mirrored s.session) (hret : s.returned)
    (c : LogCall) : Mirrored (s.log platform c).session := by
  obtain ⟨cache, least, hframe⟩ :=
    enabled_frame s.session.pipeline c.endpoint c.severity.priority
  have hlookup : Mirrored (s.lookup c) := by
    refine .of_idle hret.2 (h.coherent.enabled c.endpoint c.severity.priority) ?_
    simpa [LoggingState.lookup, hframe] using h.serves hret.2
  cases hon : (Logger.enabled s.session.pipeline c.endpoint c.severity.priority).2 with
  | false =>
      rw [LoggingState.log_of_disabled hon]
      exact hlookup
  | true =>
      have hsubmit : Mirrored ((s.lookup c).submit platform c.event c.severity.forceSync) :=
        hlookup.submit hret.2 c.event c.severity.forceSync
      rw [LoggingState.log_of_enabled hon]
      generalize (s.lookup c).submit platform c.event c.severity.forceSync = t at hsubmit ⊢
      exact hsubmit

/-- **Lanes mirror routes** in every state that log calls and the calls of a session reach. -/
theorem Mirrored.reachable {s : LoggingState} (hs : (logging platform).Reachable s) :
    Mirrored s.session := by
  refine hs.invariant (I := fun s => Mirrored s.session) (fun t ht => ?_)
    (fun s label s' h _ hnext => ?_)
  · obtain rfl : t = {} := ht
    exact ⟨fun hd => absurd hd (by decide), rfl⟩
  · have hsession : ∀ {label : SessionLabel} {t : LoggingState},
        ((session platform).next s.session label).map (fun session => { s with session }) = some t →
        Mirrored t.session := by
      intro label t ht
      obtain ⟨session, hstep, rfl⟩ := Option.map_eq_some_iff.1 ht
      exact h.step (sessionStep_of_next hstep)
    cases label with
    | work i act => exact hsession hnext
    | advance =>
        have hadv : s.advance = some s' := hnext
        unfold LoggingState.advance at hadv
        split at hadv
        · obtain ⟨t, ht, rfl⟩ := Option.map_eq_some_iff.1 hadv
          exact h.advance ht
        · split at hadv
          · obtain rfl := Option.some.inj hadv
            exact h
          · obtain ⟨t, ht, rfl⟩ := Option.map_eq_some_iff.1 hadv
            exact h.advance ht
        · split at hadv
          · obtain rfl := Option.some.inj hadv
            exact h
          · obtain rfl := Option.some.inj hadv
            exact h
    | call c =>
        obtain ⟨-, hcall⟩ := logging_next rfl hnext
        exact hsession hcall
    | submit e forceSync =>
        obtain ⟨-, hcall⟩ := logging_next rfl hnext
        exact hsession hcall
    | addGlobalFilter f =>
        obtain ⟨-, rfl⟩ := logging_next rfl hnext
        exact ⟨h.coherent, h.lanes⟩
    | clearGlobalFilters =>
        obtain ⟨-, rfl⟩ := logging_next rfl hnext
        exact ⟨h.coherent, h.lanes⟩
    | log c =>
        obtain ⟨hret, rfl⟩ := logging_next rfl hnext
        exact h.log hret c

end SyLog
