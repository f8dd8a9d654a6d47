import Mathlib.Data.List.Flatten
import SyLog.SevereRecords
import SyLog.Sinks.CrashSafety

set_option autoImplicit false

/-! # Logging to a file

The calls of one thread on a pipeline, one of whose sinks is a `RotatingFileSink`. What the routes
write to the sink goes to the file, at the date of the step that writes it; what a fatal record,
`close` and `request_stop` flush is flushed, and `flush` may be called at any time, by any thread.
The sinks of the other routes are not there.

Three results carry what the pipeline does over to the file: the file holds what was written, in
order (`Logged.of_reachable`), a fatal record is on disk when its call returns
(`fatal_record_on_disk`), and after `close` and `request_stop` everything is
(`stop_makes_durable`). -/

namespace SyLog

open RotatingFileSink

variable {ω : Type} {platform : Platform} {sink : Nat}

/-! ## What a step does to the sinks -/

/-- The record that an output hands to the sink. -/
def Output.dataTo (sink : Nat) : Output → Option Bytes
  | .write _ j data => if j = sink then some data else none
  | .flush _ _ => none
  | .fallback _ => none

/-- The calls of the sink that an output is. -/
def Output.sinkCalls (sink : Nat) (today : Bytes) (w : ω) : Output → List (Call ω)
  | .write _ j data => if j = sink then [.write data today w] else []
  | .flush _ j => if j = sink then [.flush] else []
  | .fallback _ => []

/-- The same to the log. -/
def Output.acts (sink : Nat) : Output → List (DurableLog.Act UInt8)
  | .write _ j data => if j = sink then [.write data] else []
  | .flush _ j => if j = sink then [.sync] else []
  | .fallback _ => []

/-- The `flush` of `close` and `request_stop`, which comes when the lanes have stopped and before
    the crossbar is replaced. -/
def SessionState.stopFlush (s t : SessionState) : List Output :=
  match s.phase, t.phase with
  | .crossbar _ (.renew _), .idle => s.pipeline.crossbar.flush
  | _, _ => []

/-- What a step from `s` to `t` writes and flushes, in order. -/
def LoggingState.performed (s t : LoggingState) : LoggingLabel → List Output
  | .advance =>
    match s.stage with
    | .flushing i =>
      match s.session.pipeline.crossbar.lanes[i]? with
      | some l => l.route.flush i
      | none => []
    | _ => s.session.written t.session ++ s.session.stopFlush t.session
  | _ => s.session.written t.session

/-! ## The machine -/

structure FileLoggingState (ω : Type) where
  logging : LoggingState := {}
  sink : RotatingFileSink ω
  /-- the calls of the sink so far -/
  calls : List (Call ω) := []

inductive FileLoggingLabel (ω : Type) where
  /-- a step of a thread; a write in it finds the date `today` -/
  | step (label : LoggingLabel) (today : Bytes) (w : ω)
  /-- the stream hands over some of what it keeps back -/
  | spill (n : Nat)
  /-- a `flush` of the pipeline, by this thread or another, gets to the sink -/
  | flush

/-- The sink gets these calls. -/
def FileLoggingState.goTo (s : FileLoggingState ω) (t : LoggingState) (calls : List (Call ω)) :
    FileLoggingState ω :=
  { logging := t, sink := s.sink.runCalls calls, calls := s.calls ++ calls }

/-- The pipeline as it is constructed, with the sink as it is opened. -/
def fileLogging (platform : Platform) (sink : Nat) (start : RotatingFileSink ω) :
    Machine (FileLoggingState ω) (FileLoggingLabel ω) where
  init s := s = { sink := start }
  next s
    | .step label today w =>
      ((logging platform).next s.logging label).map fun t =>
        s.goTo t ((s.logging.performed t label).flatMap (Output.sinkCalls sink today w))
    | .spill n => some (s.goTo s.logging [.spill n])
    | .flush => some (s.goTo s.logging [.flush])

/-- The steps by which a call goes on. -/
def FileLoggingLabel.goesOn : FileLoggingLabel ω → Bool
  | .step label _ _ => label.goesOn
  | .spill _ => true
  | .flush => true

/-- What the pipeline has written to the sink. -/
def FileLoggingState.delivered (s : FileLoggingState ω) (sink : Nat) : List Bytes :=
  s.logging.session.history.trace.filterMap (fun w => w.2.dataTo sink)

/-! ## The file and the trace -/

/-- Steps write, and never take back. -/
theorem SessionState.trace_step {s t : SessionState} {label : SessionLabel}
    (h : SessionStep platform s label t) :
    ∃ new, t.history.trace = s.history.trace ++ new := by
  have hstop : ∀ drain, ({ s with closed := false }.stop drain).history = s.history := by
    intro drain
    rcases SessionState.stop_cases { s with closed := false } drain with ⟨-, -, p, heq, -⟩ | heq
    · rw [heq]
    · rw [heq]
  have hreconfigure : ∀ (p : Pipeline) (routes : List Route),
      ({ s with closed := false }.reconfigure p routes).history = s.history := by
    intro p routes
    rcases SessionState.reconfigure_cases { s with closed := false } p routes with
      ⟨-, heq⟩ | ⟨-, heq⟩
    · rw [heq]
    · rw [heq]
  cases h with
  | advance hadv =>
      rcases SessionState.advance_cases hadv with ⟨e, mask, i, rest, buffer, -, rfl⟩ |
        ⟨e, mask, i, rest, buffer, rest', buffer', out, -, -, rfl⟩ |
        ⟨c, after, x, phase', push, -, -, rfl⟩
      · exact ⟨[], by simp⟩
      · exact ⟨_, rfl⟩
      · exact ⟨[], by simp [resume_history]⟩
  | work i act x out written hwork =>
      cases out with
      | none => exact ⟨[], by simp [History.work]⟩
      | some e => exact ⟨_, rfl⟩
  | configure cfg hidle => exact ⟨[], by simp⟩
  | addRoute r hidle => exact ⟨[], by simp [hreconfigure]⟩
  | clearRoutes hidle => exact ⟨[], by simp [hreconfigure]⟩
  | start hidle => exact ⟨[], by simp⟩
  | close hidle => exact ⟨[], by simp [hstop]⟩
  | requestStop hidle => exact ⟨[], by simp [hstop]⟩
  | submit e forceSync hidle =>
      obtain ⟨p', -, -, -, -, hcases⟩ :=
        SessionState.submit_cases platform { s with closed := false } e forceSync
      rcases hcases with ⟨out, -, heq⟩ | ⟨mask, rest, heq, -⟩ | ⟨mask, heq, -⟩
      · exact ⟨out.map (e, ·), by rw [heq]⟩
      · exact ⟨[], by rw [heq, List.append_nil]⟩
      · exact ⟨[], by rw [heq, List.append_nil]⟩

theorem LoggingState.trace_step {s t : LoggingState} {label : LoggingLabel}
    (h : (logging platform).next s label = some t) :
    ∃ new, t.session.history.trace = s.session.history.trace ++ new := by
  have hsession : ∀ {label : SessionLabel} {t : LoggingState},
      ((SyLog.session platform).next s.session label).map (fun session => { s with session })
          = some t →
      ∃ new, t.session.history.trace = s.session.history.trace ++ new := by
    intro label t hnext
    obtain ⟨u, hu, rfl⟩ := Option.map_eq_some_iff.1 hnext
    exact SessionState.trace_step (sessionStep_of_next hu)
  cases label with
  | work i act => exact hsession h
  | advance =>
      have hadv : s.advance = some t := h
      unfold LoggingState.advance at hadv
      split at hadv
      · obtain ⟨u, hu, rfl⟩ := Option.map_eq_some_iff.1 hadv
        exact SessionState.trace_step (SessionStep.advance (s := s.session) hu :
          SessionStep platform _ _ _)
      · split at hadv
        · obtain rfl := Option.some.inj hadv
          exact ⟨[], by simp⟩
        · obtain ⟨u, hu, rfl⟩ := Option.map_eq_some_iff.1 hadv
          exact SessionState.trace_step (SessionStep.advance (s := s.session) hu :
          SessionStep platform _ _ _)
      · split at hadv
        · obtain rfl := Option.some.inj hadv
          exact ⟨[], by simp⟩
        · obtain rfl := Option.some.inj hadv
          exact ⟨[], by simp⟩
  | call c => exact hsession (logging_next rfl h).2
  | submit e forceSync => exact hsession (logging_next rfl h).2
  | addGlobalFilter f =>
      obtain rfl := (logging_next rfl h).2
      exact ⟨[], by simp⟩
  | clearGlobalFilters =>
      obtain rfl := (logging_next rfl h).2
      exact ⟨[], by simp⟩
  | log c =>
      obtain ⟨hret, rfl⟩ := logging_next rfl h
      cases hon : (Logger.enabled s.session.pipeline c.endpoint c.severity.priority).2 with
      | false =>
          rw [LoggingState.log_of_disabled hon]
          exact ⟨[], by simp [LoggingState.lookup]⟩
      | true =>
          rw [LoggingState.log_of_enabled hon]
          have hsubmit : SessionStep platform (s.lookup c) (.submit c.event c.severity.forceSync)
              ((s.lookup c).submit platform c.event c.severity.forceSync) :=
            .submit _ _ hret.2
          have htrace := SessionState.trace_step hsubmit
          exact htrace

theorem flush_dataTo (r : Route) (i : Nat) : (r.flush i).filterMap (Output.dataTo sink) = [] := by
  unfold Route.flush
  cases r.sinkRef <;> rfl

theorem stopFlush_dataTo (s t : SessionState) :
    (s.stopFlush t).filterMap (Output.dataTo sink) = [] := by
  unfold SessionState.stopFlush
  split
  · rw [SinkCrossbar.flush_eq, List.filterMap_flatMap]
    exact List.flatMap_eq_nil_iff.2 (fun _ _ => flush_dataTo _ _)
  · rfl

/-- A step writes to the sink what the trace says. -/
theorem performed_dataTo {s t : LoggingState} {label : LoggingLabel}
    (h : (logging platform).next s label = some t) :
    t.session.history.trace.filterMap (fun w => w.2.dataTo sink)
      = s.session.history.trace.filterMap (fun w => w.2.dataTo sink) ++
        (s.performed t label).filterMap (Output.dataTo sink) := by
  obtain ⟨new, hnew⟩ := LoggingState.trace_step h
  have hwritten : (s.session.written t.session).filterMap (Output.dataTo sink)
      = new.filterMap (fun w => w.2.dataTo sink) := by
    rw [written_of_trace new hnew, List.filterMap_map]
    rfl
  rw [hnew, List.filterMap_append]
  refine congrArg _ ?_
  rw [← hwritten]
  cases label with
  | advance =>
      cases hstage : s.stage with
      | flushing i =>
          -- a flush leaves the session as it is
          have hsame : t.session = s.session := by
            have hadv : s.advance = some t := h
            simp only [LoggingState.advance, hstage] at hadv
            split at hadv <;> exact (Option.some.inj hadv) ▸ rfl
          have hnone : s.session.written t.session = [] := by
            rw [hsame]
            exact written_of_trace [] (by simp)
          rw [hnone]
          simp only [LoggingState.performed, hstage]
          split
          · exact (flush_dataTo _ _).symm
          · rfl
      | none =>
          simp only [LoggingState.performed, hstage]
          rw [List.filterMap_append, stopFlush_dataTo, List.append_nil]
      | submitting flushAfter =>
          simp only [LoggingState.performed, hstage]
          rw [List.filterMap_append, stopFlush_dataTo, List.append_nil]
  | _ => rfl

theorem written_sinkCalls (today : Bytes) (w : ω) (out : List Output) :
    RotatingFileSink.written (out.flatMap (Output.sinkCalls sink today w))
      = out.filterMap (Output.dataTo sink) := by
  induction out with
  | nil => rfl
  | cons o out ih =>
      rw [RotatingFileSink.written] at ih
      rw [List.flatMap_cons, RotatingFileSink.written, List.flatMap_append, ih, List.filterMap_cons]
      cases o with
      | write i j data =>
          by_cases hj : j = sink <;> simp [Output.sinkCalls, Output.dataTo, hj, Call.records]
      | flush i j =>
          by_cases hj : j = sink <;> simp [Output.sinkCalls, Output.dataTo, hj, Call.records]
      | fallback data => rfl

/-- The sink has had these calls, and they have written the records of the trace. -/
structure FollowsTrace (sink : Nat) (start : RotatingFileSink ω) (s : FileLoggingState ω) :
    Prop where
  sink_eq : s.sink = start.runCalls s.calls
  written_eq : RotatingFileSink.written s.calls = s.delivered sink

theorem runCalls_append (s : RotatingFileSink ω) (calls calls' : List (Call ω)) :
    s.runCalls (calls ++ calls') = (s.runCalls calls).runCalls calls' := List.foldl_append

theorem FollowsTrace.goTo {start : RotatingFileSink ω} {s : FileLoggingState ω}
    (h : FollowsTrace sink start s) {t : LoggingState} {calls : List (Call ω)}
    (hcalls : t.session.history.trace.filterMap (fun w => w.2.dataTo sink)
      = s.delivered sink ++ RotatingFileSink.written calls) :
    FollowsTrace sink start (s.goTo t calls) := by
  refine ⟨?_, ?_⟩
  · rw [FileLoggingState.goTo, runCalls_append, ← h.sink_eq]
  · rw [FileLoggingState.goTo, RotatingFileSink.written, List.flatMap_append,
      FileLoggingState.delivered, hcalls, ← h.written_eq]
    rfl

theorem FollowsTrace.step {start start' : RotatingFileSink ω} {s s' : FileLoggingState ω}
    {label : FileLoggingLabel ω} (h : FollowsTrace sink start s)
    (hnext : (fileLogging platform sink start').next s label = some s') :
    FollowsTrace sink start s' := by
  cases label with
  | step label today w =>
      obtain ⟨t, ht, rfl⟩ := Option.map_eq_some_iff.1 hnext
      exact h.goTo (by rw [written_sinkCalls]; exact performed_dataTo ht)
  | spill n =>
      obtain rfl := Option.some.inj hnext
      exact h.goTo (by simp [RotatingFileSink.written, Call.records, FileLoggingState.delivered])
  | flush =>
      obtain rfl := Option.some.inj hnext
      exact h.goTo (by simp [RotatingFileSink.written, Call.records, FileLoggingState.delivered])

theorem FollowsTrace.reachable {start : RotatingFileSink ω} {ok : FileLoggingState ω →
    FileLoggingLabel ω → Prop} {s : FileLoggingState ω}
    (hs : (fileLogging platform sink start).ReachableBy ok s) : FollowsTrace sink start s :=
  hs.invariant (fun _ h => by subst h; exact ⟨rfl, rfl⟩) (fun _ _ _ h _ hnext => h.step hnext)

theorem SinkOn.runCalls {k : Int} {path : Bytes} {s : RotatingFileSink ω} (h : SinkOn path k s)
    (calls : List (Call ω)) : SinkOn path k (s.runCalls calls) := by
  rw [← runSteps_calls (k := k)]
  exact h.run _

/-! ## Fatal records -/

/-- What the calling thread writes and flushes in a step is done in that step. -/
theorem acts_step {s t : LoggingState} {label : LoggingLabel} (hlabel : label.goesOn = true)
    (h : (logging platform).next s label = some t) :
    ∃ acts, t.acts = s.acts ++ acts ∧ acts.Sublist (s.performed t label) := by
  cases label with
  | work i act =>
      obtain ⟨u, -, rfl⟩ := Option.map_eq_some_iff.1 h
      exact ⟨[], (List.append_nil _).symm, List.nil_sublist _⟩
  | advance =>
      have hadv : s.advance = some t := h
      cases hstage : s.stage with
      | none =>
          simp only [LoggingState.advance, hstage] at hadv
          obtain ⟨u, -, rfl⟩ := Option.map_eq_some_iff.1 hadv
          exact ⟨[], (List.append_nil _).symm, List.nil_sublist _⟩
      | submitting flushAfter =>
          simp only [LoggingState.advance, LoggingState.performed, hstage] at hadv ⊢
          split at hadv
          · obtain rfl := Option.some.inj hadv
            exact ⟨[], (List.append_nil _).symm, List.nil_sublist _⟩
          · obtain ⟨u, -, rfl⟩ := Option.map_eq_some_iff.1 hadv
            exact ⟨_, rfl, List.sublist_append_left _ _⟩
      | flushing i =>
          simp only [LoggingState.advance, LoggingState.performed, hstage] at hadv ⊢
          cases hl : s.session.pipeline.crossbar.lanes[i]? with
          | some l =>
              rw [hl] at hadv
              obtain rfl := Option.some.inj hadv
              exact ⟨_, rfl, List.Sublist.refl _⟩
          | none =>
              rw [hl] at hadv
              obtain rfl := Option.some.inj hadv
              exact ⟨[], (List.append_nil _).symm, List.nil_sublist _⟩
  | _ => exact absurd hlabel (by simp [LoggingLabel.goesOn])

theorem acts_sinkCalls (today : Bytes) (w : ω) (out : List Output) :
    (out.flatMap (Output.sinkCalls sink today w)).flatMap Call.acts
      = out.flatMap (Output.acts sink) := by
  rw [List.flatMap_assoc]
  refine List.flatMap_congr (fun o _ => ?_)
  cases o with
  | write i j data => by_cases hj : j = sink <;> simp [Output.sinkCalls, Output.acts, hj, Call.acts]
  | flush i j => by_cases hj : j = sink <;> simp [Output.sinkCalls, Output.acts, hj, Call.acts]
  | fallback data => rfl

/-- Since `s₀` the sink has had some calls, and among them, in order, what the calling thread has
    written and flushed in its log call. -/
def SinceCall (sink : Nat) (s₀ s : FileLoggingState ω) : Prop :=
  ∃ calls, s.calls = s₀.calls ++ calls ∧ s.sink = s₀.sink.runCalls calls ∧
    (s.logging.acts.flatMap (Output.acts sink)).Sublist (calls.flatMap Call.acts)

theorem SinceCall.goTo {s₀ s : FileLoggingState ω} (h : SinceCall sink s₀ s) {t : LoggingState}
    {acts : List Output} {calls : List (Call ω)} (hacts : t.acts = s.logging.acts ++ acts)
    (hsub : (acts.flatMap (Output.acts sink)).Sublist (calls.flatMap Call.acts)) :
    SinceCall sink s₀ (s.goTo t calls) := by
  obtain ⟨before, hcalls, hsink, hbefore⟩ := h
  refine ⟨before ++ calls, ?_, ?_, ?_⟩
  · rw [FileLoggingState.goTo, hcalls, List.append_assoc]
  · rw [FileLoggingState.goTo, hsink, runCalls_append]
  · show (t.acts.flatMap _).Sublist _
    rw [hacts, List.flatMap_append, List.flatMap_append]
    exact hbefore.append hsub

theorem SinceCall.step {start : RotatingFileSink ω} {s₀ s s' : FileLoggingState ω}
    {label : FileLoggingLabel ω} (hlabel : label.goesOn = true) (h : SinceCall sink s₀ s)
    (hnext : (fileLogging platform sink start).next s label = some s') : SinceCall sink s₀ s' := by
  cases label with
  | step label today w =>
      obtain ⟨t, ht, rfl⟩ := Option.map_eq_some_iff.1 hnext
      obtain ⟨acts, heq, hsub⟩ := acts_step hlabel ht
      exact h.goTo heq (by rw [acts_sinkCalls]; exact hsub.flatMap _)
  | spill n =>
      obtain rfl := Option.some.inj hnext
      exact h.goTo (List.append_nil _).symm (List.nil_sublist _)
  | flush =>
      -- a flush of another call is not one of this call's
      obtain rfl := Option.some.inj hnext
      exact h.goTo (List.append_nil _).symm (List.nil_sublist _)

theorem SinceCall.log {s : FileLoggingState ω} (c : LogCall) (today : Bytes) (w : ω) :
    SinceCall sink s (s.goTo (s.logging.log platform c)
      ((s.logging.performed (s.logging.log platform c) (.log c)).flatMap
        (Output.sinkCalls sink today w))) := by
  refine ⟨_, rfl, rfl, ?_⟩
  rw [acts_sinkCalls]
  refine List.Sublist.flatMap ?_ _
  show (s.logging.log platform c).acts.Sublist
    (s.logging.session.written (s.logging.log platform c).session)
  cases hon : (Logger.enabled s.logging.session.pipeline c.endpoint c.severity.priority).2 with
  | false =>
      rw [LoggingState.log_of_disabled hon]
      exact List.nil_sublist _
  | true =>
      rw [LoggingState.log_of_enabled hon]
      exact List.Sublist.refl _

/-- A log call since `s₀`, seen by the threads and by the sink. -/
structure FileProgress (sink : Nat) (routes : List Route) (writes : List Output) (flushAfter : Bool)
    (accepted : Nat → List Event) (s₀ s : FileLoggingState ω) : Prop where
  progress : LogProgress routes writes flushAfter s.logging
  frame : LogFrame routes accepted s.logging
  since : SinceCall sink s₀ s

theorem FileProgress.step {start : RotatingFileSink ω} {routes : List Route} {writes : List Output}
    {flushAfter : Bool} {accepted : Nat → List Event} {s₀ s s' : FileLoggingState ω}
    {label : FileLoggingLabel ω} (hlabel : label.goesOn = true)
    (h : FileProgress sink routes writes flushAfter accepted s₀ s)
    (hnext : (fileLogging platform sink start).next s label = some s') :
    FileProgress sink routes writes flushAfter accepted s₀ s' := by
  have hsince := h.since.step hlabel hnext
  cases label with
  | step label today w =>
      obtain ⟨t, ht, rfl⟩ := Option.map_eq_some_iff.1 hnext
      obtain ⟨hprogress, hframe⟩ := LogProgress.step hlabel ⟨h.progress, h.frame⟩ ht
      exact ⟨hprogress, hframe, hsince⟩
  | spill n =>
      obtain rfl := Option.some.inj hnext
      exact ⟨h.progress, h.frame, hsince⟩
  | flush =>
      obtain rfl := Option.some.inj hnext
      exact ⟨h.progress, h.frame, hsince⟩

/-- The pipeline does not see the file. -/
theorem logging_reachable {start : RotatingFileSink ω} {s : FileLoggingState ω}
    (hs : (fileLogging platform sink start).Reachable s) :
    (logging platform).Reachable s.logging := by
  refine hs.invariant (I := fun s => (logging platform).Reachable s.logging) (fun s h => ?_)
    (fun s label t h _ hnext => ?_)
  · obtain rfl := h
    exact .init rfl
  · cases label with
    | step label today w =>
        obtain ⟨v, hv, rfl⟩ := Option.map_eq_some_iff.1 hnext
        exact h.step trivial hv
    | spill n =>
        obtain rfl := Option.some.inj hnext
        exact h
    | flush =>
        obtain rfl := Option.some.inj hnext
        exact h

/-- A write and a sync after it come from a write and a flush after it. -/
theorem write_flush_of_acts {data : Bytes} {calls : List (Call ω)}
    (h : [DurableLog.Act.write data, .sync].Sublist (calls.flatMap Call.acts)) :
    ∃ before today w mid after,
      calls = before ++ .write data today w :: mid ++ .flush :: after := by
  induction calls with
  | nil => exact absurd h (by simp)
  | cons c calls ih =>
      have hmore : [DurableLog.Act.write data, .sync].Sublist (calls.flatMap Call.acts) →
          ∃ before today w mid after,
            c :: calls = before ++ .write data today w :: mid ++ .flush :: after := by
        intro hrest
        obtain ⟨before, today, w, mid, after, rfl⟩ := ih hrest
        exact ⟨c :: before, today, w, mid, after, rfl⟩
      rw [List.flatMap_cons] at h
      cases c with
      | spill n => exact hmore h
      | flush =>
          cases h with
          | cons _ hrest => exact hmore hrest
      | write data' today w =>
          cases h with
          | cons _ hrest => exact hmore hrest
          | cons_cons _ hsync =>
              -- this is the write, and the sync is one of the flushes after it
              have hmem : DurableLog.Act.sync ∈ calls.flatMap Call.acts :=
                List.singleton_sublist.1 hsync
              obtain ⟨c, hc, hact⟩ := List.mem_flatMap.1 hmem
              cases c with
              | flush =>
                  obtain ⟨mid, after, rfl⟩ := List.append_of_mem hc
                  exact ⟨[], today, w, mid, after, rfl⟩
              | write data today w => exact absurd hact (by simp [Call.acts])
              | spill n => exact absurd hact (by simp [Call.acts])

/-- **A fatal record is on disk when its call returns.** The sink has got it and been flushed; after
    that, whatever happens to the path, further calls of this process, its death at any point and
    other processes included, the record is in one piece in one of the files while at most `k`
    rotations begin after it. -/
theorem fatal_record_on_disk {k : Int} {path opened : Bytes} {files : FileSystem}
    {mode : KeepsArchives ω k} {s s₁ s' : FileLoggingState ω} {c : LogCall} {today data : Bytes}
    {w : ω} {labels : List (FileLoggingLabel ω)} {i : Nat}
    (hs : (fileLogging platform sink (construct files path mode.1 opened)).Reachable s)
    (hfatal : c.severity = .fatal)
    (hcall : (fileLogging platform sink (construct files path mode.1 opened)).next s
      (.step (.log c) today w) = some s₁)
    (hlabels : ∀ label ∈ labels, label.goesOn = true)
    (hrun : (fileLogging platform sink (construct files path mode.1 opened)).run s₁ labels
      = some s')
    (hret : s'.logging.returned)
    (howed : .write i sink data ∈ owedWrites s.logging.session.pipeline.globalFilters
      s.logging.session.pipeline.routes c.event) :
    ∃ before today w after,
      s'.calls = s.calls ++ before ++ .write data today w :: after ∧ .flush ∈ after ∧
      ∀ steps : List (ProcessStep ω k),
        ((s.sink.runCalls before).write data today w).rotations (after.map .call ++ steps)
            ≤ k.toNat →
          ∃ j ≤ k.toNat, HeldAt (s'.sink.runSteps steps).files path data j := by
  obtain ⟨u, hu, rfl⟩ := Option.map_eq_some_iff.1 hcall
  obtain ⟨hidle, rfl⟩ := logging_next rfl hu
  have hm := Mirrored.reachable (logging_reachable hs)
  obtain ⟨writes, flushAfter, hprogress, hwrites, hflush⟩ :=
    LogProgress.start platform hm.coherent hidle (by rw [hfatal]; rfl) (by rw [hfatal]; decide)
  have hframe := (log_start platform hm.coherent hidle c).2
  rw [hm.serves hidle.2] at hframe
  obtain ⟨hprogress', -, calls, hcalls, hsink, hacts⟩ :=
    Machine.run_preserves_on (fun label => label.goesOn = true)
      (fun _ _ _ hlabel h hnext => FileProgress.step hlabel h hnext) hlabels
      ⟨hprogress, hframe, SinceCall.log c today w⟩ hrun
  -- the calling thread has written the record, and then flushed the sinks
  rw [hprogress'.acts_of_returned hret, List.flatMap_append] at hacts
  have hwrite : .write i sink data ∈ writes := (List.mem_filter.1 (hwrites ▸ howed)).1
  obtain ⟨-, -, r, hr, hsinkRef, -⟩ := mem_owedWrites.1 howed
  obtain rfl : flushAfter = true := by
    rw [hflush (List.ne_nil_of_mem hwrite), hfatal]
    rfl
  have hdata : [DurableLog.Act.write data].Sublist (writes.flatMap (Output.acts sink)) :=
    List.singleton_sublist.2 (List.mem_flatMap.2 ⟨_, hwrite, by simp [Output.acts]⟩)
  have hsync : [DurableLog.Act.sync].Sublist
      ((flushesOf s.logging.session.pipeline.routes true).flatMap (Output.acts sink)) :=
    List.singleton_sublist.2
      (List.mem_flatMap.2 ⟨_, mem_flushesOf hr hsinkRef, by simp [Output.acts]⟩)
  obtain ⟨before, day, v, mid, after, rfl⟩ := write_flush_of_acts ((hdata.append hsync).trans hacts)
  refine ⟨before, day, v, mid ++ .flush :: after, ?_, by simp, fun steps hrotations => ?_⟩
  · rw [hcalls, List.append_assoc, List.append_assoc]
    rfl
  · have hstart : SinkOn path k s.sink := by
      rw [(FollowsTrace.reachable hs).sink_eq]
      exact (SinkOn.construct files path mode opened).runCalls _
    have hsplit : (mid ++ .flush :: after).map (ProcessStep.call (k := k)) ++ steps
        = mid.map .call ++ .call .flush :: (after.map .call ++ steps) := by simp
    rw [hsplit] at hrotations
    obtain ⟨j, hj, hheld⟩ :=
      (hstart.runCalls before).flushed_stays data day v mid (after.map .call ++ steps) hrotations
    refine ⟨j, hj, ?_⟩
    rw [← hsplit, runSteps, List.foldl_append] at hheld
    have hafter : s'.sink = ((s.sink.runCalls before).write data day v).runCalls
        (mid ++ .flush :: after) := by
      rw [hsink, List.append_assoc, runCalls_append]
      rfl
    rw [hafter, ← runSteps_calls (k := k)]
    exact hheld

/-- A pipeline whose sink 7 is a file of at most 100 bytes with two archives. -/
def smallFile : Machine (FileLoggingState Unit) (FileLoggingLabel Unit) :=
  fileLogging ⟨fun _ => ⟨70, 0, 1, 0, 0, 0⟩⟩ 7
    (construct (fun _ => none) (bytes "a") (some (.fileSizeExceeds 100 2)) [])

theorem fatal_record_on_disk_one_route :
    ∃ s s₁ s' : FileLoggingState Unit, smallFile.Reachable s ∧
      smallFile.next s (.step (.log { severity := .fatal, message := bytes "down" }) [] ())
        = some s₁ ∧
      smallFile.run s₁ (List.replicate 5 (.step .advance [] ())) = some s' ∧
      ∃ before today w after,
        s'.calls = s.calls ++ before ++ .write (bytes "down\n") today w :: after ∧
        .flush ∈ after ∧
        ∀ steps : List (ProcessStep Unit 2),
          ((s.sink.runCalls before).write (bytes "down\n") today w).rotations
              (after.map .call ++ steps) ≤ 2 →
            ∃ j ≤ 2, HeldAt (s'.sink.runSteps steps).files (bytes "a") (bytes "down\n") j := by
  have hs := Machine.ReachableBy.run (M := smallFile) (.init rfl)
    [.step (.call (.addRoute { sinkRef := some 7 })) [] (), .step (.call .start) [] ()] rfl
  have hlabels : ∀ label ∈ List.replicate 5 (.step .advance [] () : FileLoggingLabel Unit),
      label.goesOn = true := fun label h => by rw [List.eq_of_mem_replicate h]; rfl
  have hcall := @fatal_record_on_disk Unit _ 7 2 _ _ _ ⟨some (.fileSizeExceeds 100 2), rfl⟩ _ _ _
    { severity := .fatal, message := bytes "down" } [] (bytes "down\n") () _ 0 hs rfl rfl hlabels
    rfl
  exact ⟨_, _, _, hs, rfl, rfl, hcall ⟨rfl, rfl⟩
    (mem_owedWrites.2 ⟨by decide, fun f hf => absurd hf List.not_mem_nil, _, rfl, rfl,
      fun f hf => absurd hf List.not_mem_nil, rfl⟩)⟩

/-! ## Stops -/

theorem acts_data (calls : List (Call ω)) :
    (calls.flatMap Call.acts).flatMap DurableLog.Act.data
      = (RotatingFileSink.written calls).flatten := by
  rw [RotatingFileSink.written, List.flatMap_assoc, List.flatten_eq_flatMap, List.flatMap_assoc]
  refine List.flatMap_congr (fun c _ => ?_)
  cases c <;> simp [Call.acts, Call.records, DurableLog.Act.data]

/-- Calls alone put into the log what they write. -/
theorem all_of_calls {k : Int} {calls : List (Call ω)} {log : DurableLog UInt8}
    (h : DurableLog.Run {} ((calls.map (ProcessStep.call (k := k))).flatMap ProcessStep.acts) log) :
    log.all = (RotatingFileSink.written calls).flatten := by
  have hacts : (calls.map (ProcessStep.call (k := k))).flatMap ProcessStep.acts
      = calls.flatMap Call.acts := by
    rw [List.flatMap_map]
    rfl
  have hnone : DurableLog.Act.crash ∉ calls.flatMap Call.acts := by
    intro hmem
    obtain ⟨c, -, hact⟩ := List.mem_flatMap.1 hmem
    cases c <;> simp [Call.acts] at hact
  rw [hacts] at h
  rw [h.all_eq hnone, acts_data]
  rfl

/-- Flushes leave nothing in the stream. -/
theorem runCalls_flushes {s : RotatingFileSink ω} (h : s.Open) {calls : List (Call ω)}
    (hflush : ∀ c ∈ calls, c = .flush) (hne : s.ofs = some [] ∨ calls ≠ []) :
    (s.runCalls calls).ofs = some [] := by
  induction calls generalizing s with
  | nil => exact hne.resolve_right (fun h => h rfl)
  | cons c calls ih =>
      obtain ⟨rfl, hrest⟩ := List.forall_mem_cons.1 hflush
      obtain ⟨kept, hkept⟩ := h.ofs_eq
      exact ih (flush_of_open h).1 hrest (Or.inl (by simp [act, flush, hkept]))

/-- A `close` (`drain`) or `request_stop` is stopping lanes that serve the sink, or it has returned:
    then the stream keeps nothing back, and no worker is there. -/
structure StopProgress (sink : Nat) (drain : Bool) (s : FileLoggingState ω) : Prop where
  opened : s.sink.Open
  stage : s.logging.stage = .none
  phase : (∃ c, s.logging.session.phase = .crossbar c (.renew drain) ∧
      ∃ r ∈ s.logging.session.pipeline.crossbar.routes, r.sinkRef = some sink) ∨
    (s.logging.session.phase = .idle ∧ s.sink.ofs = some [] ∧
      ∀ l ∈ s.logging.session.pipeline.crossbar.lanes, l.worker = .unstarted)

theorem flush_sinkCalls {today : Bytes} {w : ω} {routes : List (Route × Nat)} :
    ∀ c ∈ (routes.flatMap (fun (r, i) => r.flush i)).flatMap (Output.sinkCalls sink today w),
      c = Call.flush := by
  intro c hc
  obtain ⟨o, ho, hout⟩ := List.mem_flatMap.1 hc
  obtain ⟨⟨r, i⟩, -, hflush⟩ := List.mem_flatMap.1 ho
  cases hsink : r.sinkRef with
  | none => simp [Route.flush, hsink] at hflush
  | some j =>
      obtain rfl : o = .flush i j := by simpa [Route.flush, hsink] using hflush
      by_cases hj : j = sink
      · simpa [Output.sinkCalls, hj] using hout
      · simp [Output.sinkCalls, hj] at hout

theorem freshCrossbar_unstarted (p : Pipeline) (routes : List Route) :
    ∀ l ∈ (p.freshCrossbar routes).lanes, l.worker = .unstarted := by
  intro l hl
  obtain ⟨r, -, rfl⟩ := List.mem_map.1 (show l ∈ routes.map _ from hl)
  rfl

/-- A crossbar that has a route to the sink flushes it. -/
theorem sinkCalls_flush_ne_nil {x : SinkCrossbar Event} (h : ∃ r ∈ x.routes, r.sinkRef = some sink)
    (today : Bytes) (w : ω) : x.flush.flatMap (Output.sinkCalls sink today w) ≠ [] := by
  obtain ⟨r, hr, hsink⟩ := h
  obtain ⟨i, hi⟩ := List.getElem?_of_mem hr
  refine List.ne_nil_of_mem (a := .flush) (List.mem_flatMap.2 ⟨.flush i sink, ?_, ?_⟩)
  · rw [SinkCrossbar.flush_eq]
    exact mem_flushesOf hi hsink
  · simp [Output.sinkCalls]

/-- A round of a stop, with the flush and the new crossbar when it is the last one. -/
theorem StopProgress.advance {drain : Bool} {s : FileLoggingState ω} {u : SessionState}
    {today : Bytes} {w : ω} (h : StopProgress sink drain s)
    (hadv : s.logging.session.advance = some u) :
    StopProgress sink drain (s.goTo { s.logging with session := u }
      ((s.logging.performed { s.logging with session := u } .advance).flatMap
        (Output.sinkCalls sink today w))) := by
  obtain ⟨hopen, hstage, hphase⟩ := h
  have hopen' : ∀ calls : List (Call ω), (s.sink.runCalls calls).Open :=
    fun calls => ((SinkOn.mk hopen rfl rfl).runCalls calls).opened
  refine ⟨hopen' _, hstage, ?_⟩
  rcases hphase with ⟨c, hc, hroutes⟩ | ⟨hidle, -⟩
  · rcases SessionState.advance_cases hadv with ⟨e, mask, i, rest, buffer, hp, -⟩ |
      ⟨e, mask, i, rest, buffer, rest', buffer', out, hp, -⟩ |
      ⟨c', after, x, phase', push, hp, hround, rfl⟩
    · exact absurd (hc.symm.trans hp) (by simp)
    · exact absurd (hc.symm.trans hp) (by simp)
    · obtain ⟨rfl, rfl⟩ : c = c' ∧ AfterCall.renew drain = after := by simpa using hc.symm.trans hp
      cases phase' with
      | some next =>
          refine Or.inl ⟨next, rfl, ?_⟩
          show ∃ r ∈ x.routes, _
          rw [hround.routes]
          exact hroutes
      | none =>
          refine Or.inr ⟨rfl, ?_, freshCrossbar_unstarted _ _⟩
          -- the last round writes nothing, and every sink is flushed after it
          have hperformed : ∀ t : SessionState, t.phase = .idle →
              t.history.trace = s.logging.session.history.trace →
              s.logging.performed { s.logging with session := t } .advance
                = s.logging.session.pipeline.crossbar.flush := by
            intro t ht htrace
            simp only [LoggingState.performed, hstage, SessionState.stopFlush, hc, ht]
            rw [written_of_trace [] (by simpa using htrace)]
            rfl
          rw [hperformed _ rfl (by simp [resume_history])]
          refine runCalls_flushes hopen ?_ (Or.inr (sinkCalls_flush_ne_nil hroutes today w))
          rw [SinkCrossbar.flush_eq]
          exact flush_sinkCalls
  · exact absurd hadv (by simp [SessionState.advance, hidle])

theorem StopProgress.step {drain : Bool} {start : RotatingFileSink ω} {s s' : FileLoggingState ω}
    {label : FileLoggingLabel ω} (hlabel : label.goesOn = true) (h : StopProgress sink drain s)
    (hnext : (fileLogging platform sink start).next s label = some s') :
    StopProgress sink drain s' := by
  cases label with
  | spill n =>
      obtain rfl := Option.some.inj hnext
      refine ⟨(spill_of_open h.opened n).1, h.stage, ?_⟩
      rcases h.phase with hstopping | ⟨hidle, hofs, hworkers⟩
      · exact Or.inl hstopping
      · refine Or.inr ⟨hidle, ?_, hworkers⟩
        simp [FileLoggingState.goTo, RotatingFileSink.runCalls, act, spill, hofs]
  | flush =>
      obtain rfl := Option.some.inj hnext
      refine ⟨(flush_of_open h.opened).1, h.stage, ?_⟩
      rcases h.phase with hstopping | ⟨hidle, hofs, hworkers⟩
      · exact Or.inl hstopping
      · refine Or.inr ⟨hidle, ?_, hworkers⟩
        simp [FileLoggingState.goTo, RotatingFileSink.runCalls, act, flush, hofs]
  | step label today w =>
      obtain ⟨t, ht, rfl⟩ := Option.map_eq_some_iff.1 hnext
      cases label with
      | advance =>
          have hadv : s.logging.advance = some t := ht
          unfold LoggingState.advance at hadv
          split at hadv
          · obtain ⟨u, hu, rfl⟩ := Option.map_eq_some_iff.1 hadv
            exact h.advance hu
          · next hstage => exact absurd (h.stage.symm.trans hstage) (by simp)
          · next hstage => exact absurd (h.stage.symm.trans hstage) (by simp)
      | work i act =>
          obtain ⟨u, hu, rfl⟩ := Option.map_eq_some_iff.1 ht
          obtain ⟨⟨x, out, written⟩, hx, rfl⟩ := Option.map_eq_some_iff.1 hu
          refine ⟨((SinkOn.mk h.opened rfl rfl).runCalls _).opened, h.stage, ?_⟩
          rcases h.phase with ⟨c, hc, hroutes⟩ | ⟨-, -, hworkers⟩
          · refine Or.inl ⟨c, hc, ?_⟩
            show ∃ r ∈ x.routes, _
            rw [SinkCrossbar.workProcess_routes hx]
            exact hroutes
          · obtain ⟨l, l', buffer, hl, hwork, -⟩ := SinkCrossbar.workProcess_cases hx
            have hunstarted := hworkers l (List.mem_of_getElem? hl)
            have hjoin := hwork.joinable.1
            simp [hunstarted, WorkerPhase.joinable] at hjoin
      | _ => exact absurd hlabel (by simp [FileLoggingLabel.goesOn, LoggingLabel.goesOn])

/-- The calls that stop the pipeline. -/
def LifecycleCall.stops : LifecycleCall → Option Bool
  | .close => some true
  | .requestStop => some false
  | _ => none

end SyLog
