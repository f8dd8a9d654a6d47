import SyLog.FileLogging
import SyLog.Renderers.JsonValidity

set_option autoImplicit false

/-! # JSON in a file

A file that gets its records from `JsonRenderer` can be read back line by line: whatever the bytes
of the events are, and however the file is rotated, each line is one record and each record is one
line (`json_log_reads_back`). Where processes die, each death damages at most one line
(`crash_damages_one_line`). -/

namespace SyLog

open RotatingFileSink

variable {ω : Type} {platform : Platform} {sink : Nat} {formatDouble : UInt64 → Bytes}

/-! ## One record, one line -/

theorem printable_encodeMembers {members : List (Bytes × Json)}
    (h : ∀ m ∈ members, Json.Printable (Json.encode m.2)) :
    Json.Printable (Json.encodeMembers members) ∧
      Json.Printable (Json.encodeMoreMembers members) := by
  induction members with
  | nil => exact ⟨.nil, .nil⟩
  | cons m members ih =>
      obtain ⟨name, value⟩ := m
      obtain ⟨hvalue, hrest⟩ := List.forall_mem_cons.1 h
      have hboth := (Json.printable_encodeString name).append
        (.cons (b := Json.colon) (by decide) (hvalue.append (ih hrest).2))
      exact ⟨hboth, .cons (by decide) hboth⟩

theorem printable_encode_obj {members : List (Bytes × Json)}
    (h : ∀ m ∈ members, Json.Printable (Json.encode m.2)) :
    Json.Printable (Json.encode (.obj members)) :=
  .cons (by decide) ((printable_encodeMembers h).1.append (.cons (by decide) .nil))

theorem printable_double (hdouble : ∀ bits, isFinite bits = true →
      Json.isNumber (formatDouble bits) = true)
    (hnotFinite : ∀ bits, isFinite bits = false → formatDouble bits ∈ Json.notFinite)
    (bits : UInt64) : Json.Printable (formatDouble bits) := by
  cases h : isFinite bits with
  | true => exact Json.printable_isNumber (hdouble bits h)
  | false =>
      have hmem := hnotFinite bits h
      simp only [Json.notFinite, List.mem_cons, List.not_mem_nil, or_false] at hmem
      rcases hmem with heq | heq | heq | heq <;>
      · rw [heq]
        exact Json.printable_of_all rfl

theorem printable_toJson (hdouble : ∀ bits, Json.Printable (formatDouble bits)) (v : FieldValue) :
    Json.Printable (Json.encode (v.toJson formatDouble)) := by
  cases v with
  | monostate => exact Json.printable_of_all rfl
  | bool value => cases value <;> exact Json.printable_of_all rfl
  | int64 value => exact Json.printable_isNumber (isNumber_formatInt _)
  | double bits => exact hdouble bits
  | string value => exact Json.printable_encodeString value

/-- The record of any event is on one line, also where it is no JSON. -/
theorem printable_record (hdouble : ∀ bits, Json.Printable (formatDouble bits)) (r : JsonRenderer)
    (threadHash : Nat → UInt64) (e : Event) :
    Json.Printable (Json.encode (r.record formatDouble platform threadHash e)) := by
  have hstring := Json.printable_encodeString
  have hnat : ∀ n, Json.Printable (Json.encode (.num (formatNat n))) :=
    fun n => Json.printable_isNumber (isNumber_formatNat n)
  refine printable_encode_obj (fun m hm => ?_)
  simp only [JsonRenderer.members, List.mem_append, List.mem_cons, List.not_mem_nil, or_false] at hm
  rcases hm with ((hfixed | hthread) | hsource) | hfields
  · rcases hfixed with rfl | rfl | rfl | rfl <;> exact hstring _
  · split at hthread
    · obtain rfl := List.mem_singleton.1 hthread
      exact hnat _
    · exact absurd hthread List.not_mem_nil
  · split at hsource
    · obtain rfl := List.mem_singleton.1 hsource
      refine printable_encode_obj (fun m hm => ?_)
      simp only [List.mem_cons, List.not_mem_nil, or_false] at hm
      rcases hm with rfl | rfl | rfl
      · exact hstring _
      · exact hnat _
      · exact hstring _
    · exact absurd hsource List.not_mem_nil
  · split at hfields
    · obtain rfl := List.mem_singleton.1 hfields
      refine printable_encode_obj (fun m hm => ?_)
      obtain ⟨f, -, rfl⟩ := List.mem_map.1 hm
      exact printable_toJson hdouble f.value
    · exact absurd hfields List.not_mem_nil

theorem newline_not_mem {s : Bytes} (h : Json.Printable s) : newline ∉ s :=
  fun hmem => absurd (h _ hmem) (by decide)

/-! ## Where records come from -/

/-- The routes that the call under way has still to write to, or will install. -/
def SessionPhase.routes : SessionPhase → List Route
  | .dispatching _ _ _ rest _ => rest
  | .crossbar _ (.rebuild routes) => routes
  | _ => []

/-- Only routes with `P` are there, and only such have written. -/
structure OnlyRoutes (P : Route → Prop) (s : SessionState) : Prop where
  pipeline : ∀ r ∈ s.pipeline.routes, P r
  lanes : ∀ r ∈ s.pipeline.crossbar.routes, P r
  phase : ∀ r ∈ s.phase.routes, P r
  trace : ∀ e o, (e, o) ∈ s.history.trace → o.isWrite = true → ∃ r i, P r ∧ o ∈ r.outputs i e

namespace OnlyRoutes

variable {P : Route → Prop} {s s' : SessionState}

/-- More is written, on behalf of such routes. -/
theorem trace_append (h : OnlyRoutes P s) {e : Event} {out : List Output}
    (hout : ∀ o ∈ out, o.isWrite = true → ∃ r i, P r ∧ o ∈ r.outputs i e) :
    ∀ e' o, (e', o) ∈ s.history.trace ++ out.map (e, ·) → o.isWrite = true →
      ∃ r i, P r ∧ o ∈ r.outputs i e' := by
  intro e' o hmem hwrite
  rcases List.mem_append.1 hmem with hold | hnew
  · exact h.trace e' o hold hwrite
  · obtain ⟨o', ho', heq⟩ := List.mem_map.1 hnew
    obtain ⟨rfl, rfl⟩ := Prod.mk.inj heq
    exact hout o' ho' hwrite

/-- A crossbar call goes on or returns. -/
theorem resume (h : OnlyRoutes P s) {after : AfterCall} (phase : Option (CrossbarPhase Event))
    (hafter : ∀ routes, after = .rebuild routes → ∀ r ∈ routes, P r) :
    OnlyRoutes P (s.resume phase after) := by
  cases phase with
  | some c =>
      refine ⟨h.pipeline, h.lanes, ?_, h.trace⟩
      cases after with
      | rebuild routes => exact hafter routes rfl
      | done => exact fun r hr => absurd hr List.not_mem_nil
      | renew drain => exact fun r hr => absurd hr List.not_mem_nil
  | none =>
      have hnone : ∀ r ∈ SessionPhase.idle.routes, P r := fun r hr => absurd hr List.not_mem_nil
      cases after with
      | done => exact ⟨h.pipeline, h.lanes, hnone, h.trace⟩
      | rebuild routes =>
          refine ⟨h.pipeline, fun r hr => hafter routes rfl r ?_, hnone, h.trace⟩
          have hlanes : r ∈ (s.pipeline.crossbar.rebuild true routes
              s.pipeline.cfg.queueCapacity).routes := hr
          rwa [SinkCrossbar.rebuild_routes] at hlanes
      | renew drain =>
          refine ⟨h.pipeline, fun r hr => h.pipeline r ?_, hnone, h.trace⟩
          have hlanes : r ∈ (s.pipeline.freshCrossbar s.pipeline.routes).routes := hr
          rwa [Pipeline.freshCrossbar_routes] at hlanes

theorem advance (h : OnlyRoutes P s) (hstep : s.advance = some s') : OnlyRoutes P s' := by
  have hphase := h.phase
  unfold SessionState.advance at hstep
  split at hstep
  · exact absurd hstep (by simp)
  · next e mask i buffer hp =>
      obtain rfl := Option.some.inj hstep
      exact ⟨h.pipeline, h.lanes, fun r hr => absurd hr List.not_mem_nil, h.trace⟩
  · next e mask i r rest buffer hp =>
      rw [hp] at hphase
      obtain ⟨hr, hrest⟩ := List.forall_mem_cons.1 hphase
      split at hstep
      · split at hstep
        · obtain rfl := Option.some.inj hstep
          exact ⟨h.pipeline, h.lanes, hrest, h.trace⟩
        · obtain ⟨buffer', out, hdispatch⟩ : ∃ buffer' out, dispatchRoute r i e buffer
              = (buffer', out) := ⟨_, _, rfl⟩
          have hout := dispatchRoute_outputs r i e buffer
          rw [hdispatch] at hstep hout
          obtain rfl := Option.some.inj hstep
          refine ⟨h.pipeline, h.lanes, hrest, h.trace_append (fun o ho _ => ⟨r, i, hr, ?_⟩)⟩
          exact hout ▸ ho
      · obtain rfl := Option.some.inj hstep
        exact ⟨h.pipeline, h.lanes, fun r hr => absurd hr List.not_mem_nil, h.trace⟩
  · next c after hp =>
      obtain ⟨⟨x, phase', push⟩, hadv, rfl⟩ := Option.map_eq_some_iff.1 hstep
      have hround := SinkCrossbar.crossbarStep_of_advance hadv
      rw [hp] at hphase
      refine resume (s := { s with pipeline := { s.pipeline with crossbar := x }
                                   history := s.history.accept push })
        ⟨h.pipeline, ?_, ?_, ?_⟩ phase' ?_
      · rw [hround.routes]
        exact h.lanes
      · rw [hp]
        exact hphase
      · rw [History.accept_trace]
        exact h.trace
      · rintro routes rfl
        exact hphase

theorem work (h : OnlyRoutes P s) {i : Nat} {act : WorkerAct} {x : SinkCrossbar Event}
    {out : Option Event} {written : List Output}
    (hwork : s.pipeline.crossbar.workProcess i act = some (x, out, written)) :
    OnlyRoutes P { s with pipeline := { s.pipeline with crossbar := x }
                          history := s.history.work i out written } := by
  obtain ⟨l, l', buffer, hl, -, -, rfl⟩ := SinkCrossbar.workProcess_cases hwork
  refine ⟨h.pipeline, ?_, h.phase, ?_⟩
  · rw [SinkCrossbar.workProcess_routes hwork]
    exact h.lanes
  · have hroute : P l.route := h.lanes _ (List.mem_map.2 ⟨l, List.mem_of_getElem? hl, rfl⟩)
    cases out with
    | none => exact h.trace
    | some e => exact h.trace_append (fun o ho _ => ⟨l.route, i, hroute, by simpa using ho⟩)

theorem stop (h : OnlyRoutes P s) (drain : Bool) : OnlyRoutes P (s.stop drain) := by
  refine resume (s := { s with pipeline := { s.pipeline with
      accepting := false, running := false, crossbar := (s.pipeline.crossbar.enterStop drain).1 } })
    ⟨h.pipeline, ?_, h.phase, h.trace⟩ _ (by simp)
  show ∀ r ∈ (s.pipeline.crossbar.enterStop drain).1.routes, P r
  unfold SinkCrossbar.enterStop
  split
  · exact h.lanes
  · rw [SinkCrossbar.beginStop_routes]
    exact h.lanes

theorem reconfigure (h : OnlyRoutes P s) {p : Pipeline}
    (hcrossbar : p.crossbar = s.pipeline.crossbar) (hroutes : ∀ r ∈ p.routes, P r) :
    OnlyRoutes P (s.reconfigure p p.routes) := by
  have hlanes := h.lanes
  rw [← hcrossbar] at hlanes
  rcases s.reconfigure_cases p p.routes with ⟨-, heq⟩ | ⟨-, heq⟩
  · rw [heq]
    refine ⟨hroutes, ?_, hroutes, h.trace⟩
    show ∀ r ∈ (p.crossbar.beginStop true).routes, P r
    rw [SinkCrossbar.beginStop_routes]
    exact hlanes
  · rw [heq]
    refine ⟨hroutes, ?_, h.phase, h.trace⟩
    show ∀ r ∈ (p.crossbar.configure p.routes p.cfg.queueCapacity).routes, P r
    rw [SinkCrossbar.configure_routes]
    exact hroutes

theorem submit (h : OnlyRoutes P s) (hidle : s.phase = .idle) (e : Event) (forceSync : Bool) :
    OnlyRoutes P (s.submit platform e forceSync) := by
  obtain ⟨cache, least, hframe⟩ := s.pipeline.cachedRouteMask_frame e.endpoint
  obtain ⟨d, -, hpipeline, hphase, -, -⟩ := submit_choice platform hidle e forceSync
  rw [hframe] at hpipeline
  refine ⟨?_, ?_, ?_, ?_⟩
  · rw [hpipeline]
    exact h.pipeline
  · rw [hpipeline]
    exact h.lanes
  · rw [hphase]
    intro r hr
    cases d with
    | sync mask => exact h.pipeline r hr
    | _ => exact absurd hr List.not_mem_nil
  · obtain ⟨p', -, -, -, -, hcases⟩ := s.submit_cases platform e forceSync
    rcases hcases with ⟨out, hout, heq⟩ | ⟨mask, rest, heq, -⟩ | ⟨mask, heq, -⟩
    · rw [heq]
      exact h.trace_append (fun o ho hwrite => absurd (hout o ho) (by simp [hwrite]))
    · rw [heq]
      exact h.trace
    · rw [heq]
      exact h.trace

/-- **Step lemma.** -/
theorem step {label : SessionLabel} (h : OnlyRoutes P s) (hlabel : ∀ r, label = .addRoute r → P r)
    (hstep : SessionStep platform s label s') : OnlyRoutes P s' := by
  cases hstep with
  | advance hadv => exact h.advance hadv
  | work i act x out written hwork => exact h.work hwork
  | configure cfg hidle =>
      refine ⟨?_, ?_, h.phase, h.trace⟩
      · rw [s.pipeline.configure_routes cfg]
        exact h.pipeline
      · simp only [Pipeline.configure]
        split
        · intro r hr
          have hfresh : r ∈ (({ s.pipeline with cfg } : Pipeline).freshCrossbar
              s.pipeline.routes).routes := hr
          rw [Pipeline.freshCrossbar_routes] at hfresh
          exact h.pipeline r hfresh
        · exact h.lanes
  | addRoute r hidle =>
      refine reconfigure (s := { s with closed := false }) ⟨h.pipeline, h.lanes, h.phase, h.trace⟩
        rfl (fun r' hr' => ?_)
      rcases List.mem_append.1 hr' with hold | hnew
      · exact h.pipeline r' hold
      · obtain rfl := List.mem_singleton.1 hnew
        exact hlabel r' rfl
  | clearRoutes hidle =>
      exact reconfigure (s := { s with closed := false }) ⟨h.pipeline, h.lanes, h.phase, h.trace⟩
        (p := s.pipeline.dropRoutes) rfl (fun r hr => absurd hr List.not_mem_nil)
  | start hidle =>
      refine ⟨?_, ?_, h.phase, h.trace⟩
      · rw [s.pipeline.start_routes]
        exact h.pipeline
      · rw [s.pipeline.start_crossbar_routes]
        exact h.lanes
  | close hidle =>
      exact stop (s := { s with closed := false }) ⟨h.pipeline, h.lanes, h.phase, h.trace⟩ true
  | requestStop hidle =>
      exact stop (s := { s with closed := false }) ⟨h.pipeline, h.lanes, h.phase, h.trace⟩ false
  | submit e forceSync hidle =>
      exact submit (s := { s with closed := false }) ⟨h.pipeline, h.lanes, h.phase, h.trace⟩ hidle e
        forceSync

theorem lookup {s : LoggingState} (h : OnlyRoutes P s.session) (c : LogCall) :
    OnlyRoutes P (s.lookup c) := by
  obtain ⟨cache, least, hframe⟩ := enabled_frame s.session.pipeline c.endpoint c.severity.priority
  refine ⟨?_, ?_, h.phase, h.trace⟩
  · rw [LoggingState.lookup, hframe]
    exact h.pipeline
  · rw [LoggingState.lookup, hframe]
    exact h.lanes

/-- The same for log calls. -/
theorem logging_step {s t : LoggingState} {label : LoggingLabel} (h : OnlyRoutes P s.session)
    (hlabel : ∀ r, label = .call (.addRoute r) → P r)
    (hnext : (logging platform).next s label = some t) : OnlyRoutes P t.session := by
  have hsession : ∀ {label : SessionLabel} {t : LoggingState}, (∀ r, label = .addRoute r → P r) →
      ((session platform).next s.session label).map (fun session => { s with session }) = some t →
      OnlyRoutes P t.session := by
    intro label t hlabel hstep
    obtain ⟨u, hu, rfl⟩ := Option.map_eq_some_iff.1 hstep
    exact h.step hlabel (sessionStep_of_next hu)
  cases label with
  | work i act => exact hsession (by simp) hnext
  | advance =>
      have hadv : s.advance = some t := hnext
      unfold LoggingState.advance at hadv
      split at hadv
      · obtain ⟨u, hu, rfl⟩ := Option.map_eq_some_iff.1 hadv
        exact h.advance hu
      · split at hadv
        · obtain rfl := Option.some.inj hadv
          exact h
        · obtain ⟨u, hu, rfl⟩ := Option.map_eq_some_iff.1 hadv
          exact h.advance hu
      · split at hadv
        · obtain rfl := Option.some.inj hadv
          exact h
        · obtain rfl := Option.some.inj hadv
          exact h
  | call c =>
      refine hsession (fun r hr => ?_) (logging_next rfl hnext).2
      cases c with
      | addRoute r' => exact hlabel r (by rw [SessionLabel.addRoute.inj hr])
      | _ => exact absurd hr (by simp [LifecycleCall.label])
  | submit e forceSync => exact hsession (by simp) (logging_next rfl hnext).2
  | addGlobalFilter f =>
      obtain rfl := (logging_next rfl hnext).2
      exact ⟨h.pipeline, h.lanes, h.phase, h.trace⟩
  | clearGlobalFilters =>
      obtain rfl := (logging_next rfl hnext).2
      exact ⟨h.pipeline, h.lanes, h.phase, h.trace⟩
  | log c =>
      obtain ⟨hret, rfl⟩ := logging_next rfl hnext
      cases hon : (Logger.enabled s.session.pipeline c.endpoint c.severity.priority).2 with
      | false =>
          rw [LoggingState.log_of_disabled hon]
          exact h.lookup c
      | true =>
          rw [LoggingState.log_of_enabled hon]
          exact (h.lookup c).submit hret.2 c.event c.severity.forceSync

end OnlyRoutes

/-! ## JSON routes -/

/-- The renderer as an object. -/
def JsonRenderer.renderer (r : JsonRenderer) (formatDouble : UInt64 → Bytes) (platform : Platform)
    (threadHash : Nat → UInt64) : Renderer :=
  ⟨fun e _ => r.render formatDouble platform threadHash e⟩

/-- A route that is added for the sink has this renderer. -/
def FileLoggingLabel.RoutesRender (sink : Nat) (renderer : Renderer) : FileLoggingLabel ω → Prop
  | .step (.call (.addRoute r)) _ _ => r.sinkRef = some sink → r.rendererRef = some renderer
  | _ => True

/-- The events that the pipeline has written to the sink. -/
def FileLoggingState.deliveredEvents (s : FileLoggingState ω) (sink : Nat) : List Event :=
  s.logging.session.history.trace.filterMap (fun w => (w.2.dataTo sink).map (fun _ => w.1))

theorem OnlyRoutes.reachable {start : RotatingFileSink ω} {renderer : Renderer}
    {s : FileLoggingState ω}
    (hs : (fileLogging platform sink start).ReachableBy
      (fun _ label => label.RoutesRender sink renderer) s) :
    OnlyRoutes (fun r => r.sinkRef = some sink → r.rendererRef = some renderer)
      s.logging.session := by
  refine hs.invariant (I := fun s => OnlyRoutes
    (fun r => r.sinkRef = some sink → r.rendererRef = some renderer) s.logging.session)
    (fun s h => ?_) (fun s label s' h hok hnext => ?_)
  · obtain rfl := h
    exact ⟨fun r hr => absurd hr List.not_mem_nil, fun r hr => absurd hr List.not_mem_nil,
      fun r hr => absurd hr List.not_mem_nil, fun e o ho => absurd ho List.not_mem_nil⟩
  · cases label with
    | step label today w =>
        obtain ⟨t, ht, rfl⟩ := Option.map_eq_some_iff.1 hnext
        refine h.logging_step ?_ ht
        rintro r rfl
        exact hok
    | spill n =>
        obtain rfl := Option.some.inj hnext
        exact h
    | flush =>
        obtain rfl := Option.some.inj hnext
        exact h

/-- What is written to the sink is what its renderer makes of the events. -/
theorem delivered_eq_map {renderer : Renderer} {s : FileLoggingState ω}
    (h : OnlyRoutes (fun r => r.sinkRef = some sink → r.rendererRef = some renderer)
      s.logging.session) :
    s.delivered sink = (s.deliveredEvents sink).map (fun e => renderer.render e []) := by
  have hrender : ∀ w ∈ s.logging.session.history.trace, ∀ data, w.2.dataTo sink = some data →
      data = renderer.render w.1 [] := by
    rintro ⟨e, o⟩ hmem data hdata
    cases o with
    | write i j bytes =>
        by_cases hj : j = sink
        · subst hj
          obtain rfl : bytes = data := by simpa [Output.dataTo] using hdata
          obtain ⟨r, i', hr, hout⟩ := h.trace e _ hmem rfl
          unfold Route.outputs at hout
          split at hout
          · next sink' hsink =>
              split at hout
              · obtain ⟨-, rfl, rfl⟩ := by simpa using hout
                rw [Route.line, hr hsink]
              · exact absurd hout List.not_mem_nil
          · exact absurd hout List.not_mem_nil
        · exact absurd hdata (by simp [Output.dataTo, hj])
    | flush i j => exact absurd hdata (by simp [Output.dataTo])
    | fallback data => exact absurd hdata (by simp [Output.dataTo])
  rw [FileLoggingState.delivered, FileLoggingState.deliveredEvents, List.map_filterMap]
  refine List.filterMap_congr (fun w hw => ?_)
  cases hdata : w.2.dataTo sink with
  | none => rfl
  | some data => simp [hrender w hw data hdata]

/-! ## Reading the file -/

variable {r : JsonRenderer} {threadHash : Nat → UInt64}

/-- What a reader makes of a line: the record of the event, or nothing where a field that is written
    holds an infinity or something that is not a number. -/
structure JsonRenderer.ReadsAs (r : JsonRenderer) (formatDouble : UInt64 → Bytes)
    (platform : Platform) (threadHash : Nat → UInt64) (line : Bytes) (e : Event) : Prop where
  record : ¬ (r.includeFields = true ∧ ∃ f ∈ e.fields, f.NotFinite) →
    Json.parse line = some (r.record formatDouble platform threadHash e)
  nothing : r.includeFields = true → (∃ f ∈ e.fields, f.NotFinite) → Json.parse line = none

theorem readsAs_encode (hdouble : ∀ bits, isFinite bits = true →
      Json.isNumber (formatDouble bits) = true)
    (hnotFinite : ∀ bits, isFinite bits = false → formatDouble bits ∈ Json.notFinite) (e : Event) :
    r.ReadsAs formatDouble platform threadHash
      (Json.encode (r.record formatDouble platform threadHash e)) e := by
  refine ⟨fun hcond => ?_, fun hfields hbad => ?_⟩
  · have hrecord := wellFormed_record formatDouble r platform threadHash (e := e) (fun hfields =>
      isNumber_of_finite formatDouble hdouble (fun f hf hbad => hcond ⟨hfields, f, hf, hbad⟩))
    have hparse : Json.parse (Json.encode (r.record formatDouble platform threadHash e) ++ []) =
        some (r.record formatDouble platform threadHash e) :=
      Json.parse_encode hrecord (by simp)
    rwa [List.append_nil] at hparse
  · rw [← JsonRenderer.dropLast_render]
    exact r.parse_render_notFinite formatDouble platform threadHash hdouble hnotFinite hfields hbad

/-- The files of the path are records of the events `old`, or are not there. -/
def MadeOfEvents (render : Event → Bytes) (path : Bytes) (k : Nat) (files : FileSystem)
    (old : Files Bytes Event) : Prop :=
  ∀ j ≤ k, files (nameAt path j)
    = (old (nameAt path j)).map (fun events => (events.map render).flatten)

theorem MadeOfEvents.exists_records {render : Event → Bytes} {path : Bytes} {k : Nat}
    {files : FileSystem} {old : Files Bytes Event} (h : MadeOfEvents render path k files old) :
    ∃ records : Files Bytes Bytes, files = Files.mapContents List.flatten records ∧
      Files.chain (nameAt path) k records = (Files.chain (nameAt path) k old).map render := by
  classical
  -- the other files are taken as one record each
  refine ⟨fun n => if ∃ j ≤ k, n = nameAt path j then (old n).map (List.map render)
    else asRecords files n, ?_, ?_⟩
  · funext n
    by_cases hn : ∃ j ≤ k, n = nameAt path j
    · obtain ⟨j, hj, rfl⟩ := hn
      rw [h j hj, Files.mapContents, if_pos ⟨j, hj, rfl⟩, Option.map_map]
      rfl
    · rw [Files.mapContents, if_neg hn]
      cases hfile : files n <;> simp [asRecords, hfile]
  · rw [← Files.chain_mapContents (List.map render) rfl (fun x y => List.map_append)]
    exact Files.chain_congr k (fun j hj => if_pos ⟨j, hj, rfl⟩)

/-- A sink whose records are those of events: each file has some of them, the end of them all is
    there. -/
theorem MadeOf.exists_events {render : Event → Bytes} {events : List Event} {s : RotatingFileSink ω}
    (h : s.MadeOf (events.map render)) :
    ∃ kept : Files Bytes Event, Files.chain (nameAt s.path) s.keep.toNat kept <:+ events ∧
      s.history = ((Files.chain (nameAt s.path) s.keep.toNat kept).map render).flatten ∧
      ∀ j ≤ s.keep.toNat, s.contents.content (nameAt s.path j)
        = ((kept.content (nameAt s.path j)).map render).flatten := by
  obtain ⟨records, hcontents, hend⟩ := h
  obtain ⟨there, hthere, hrecords⟩ := List.suffix_map_iff.1 hend
  obtain ⟨kept, rfl, hfiles⟩ :=
    Files.exists_chain_map (nameAt_injective s.path) render _ hrecords
  refine ⟨kept, hthere, ?_, fun j hj => ?_⟩
  · rw [history, hcontents,
      Files.chain_mapContents List.flatten rfl (fun x y => List.flatten_append), hrecords]
  · rw [hcontents, Files.content_mapContents List.flatten rfl, hfiles j hj]

/-- A sink that has evicted nothing holds everything. -/
theorem history_of_noneEvicts {k : Int} {path opened : Bytes} {files : FileSystem}
    {mode : KeepsArchives ω k} (calls : List (Call ω))
    (hnone : (construct files path mode.1 opened).NoneEvicts
      (calls.map (ProcessStep.call (k := k)))) :
    ((construct files path mode.1 opened).runCalls calls).history
      = Files.chain (nameAt path) k.toNat files ++ (RotatingFileSink.written calls).flatten := by
  have hstart : Logged path (Files.chain (nameAt path) k.toNat files) k []
      (construct files path mode.1 opened) {} := logged_construct mode opened (by simp)
  obtain ⟨lost, log, hrun, hlogged, hroom⟩ := hstart.run (calls.map (ProcessStep.call (k := k)))
  obtain rfl := hroom hnone
  have hholds := hlogged.holds
  rwa [runSteps_calls, all_of_calls hrun] at hholds

theorem suffix_eq_of_flatten {render : Event → Bytes} (hne : ∀ e, render e ≠ [])
    {kept events : List Event} (h : kept <:+ events)
    (hflat : (kept.map render).flatten = (events.map render).flatten) : kept = events := by
  obtain ⟨gone, rfl⟩ := h
  rw [List.map_append, List.flatten_append] at hflat
  have hgone : (gone.map render).flatten = [] := by
    have := congrArg List.length hflat
    rw [List.length_append] at this
    exact List.eq_nil_of_length_eq_zero (by omega)
  cases gone with
  | nil => rfl
  | cons e gone => exact absurd (List.append_eq_nil_iff.1 hgone).1 (hne e)

theorem JsonRenderer.render_ne_nil (r : JsonRenderer) (formatDouble : UInt64 → Bytes)
    (platform : Platform) (threadHash : Nat → UInt64) (e : Event) :
    r.render formatDouble platform threadHash e ≠ [] := by
  rw [render_eq]
  simp

/-- Records are lines. -/
theorem flatten_map_render (events : List Event) :
    (events.map (r.render formatDouble platform threadHash)).flatten = Lines.unsplit newline
      (events.map (fun e => Json.encode (r.record formatDouble platform threadHash e))) := by
  rw [Lines.unsplit, List.flatMap_map, List.flatMap_def]
  exact congrArg _ (List.map_congr_left (fun e _ => r.render_eq formatDouble platform threadHash e))

theorem split_records (hdouble : ∀ bits, Json.Printable (formatDouble bits)) (events : List Event) :
    Lines.split newline (events.map (r.render formatDouble platform threadHash)).flatten
      = (events.map (fun e => Json.encode (r.record formatDouble platform threadHash e)), []) := by
  rw [flatten_map_render]
  refine (Lines.splits_unsplit (fun line hline => ?_)).split_eq
  obtain ⟨e, -, rfl⟩ := List.mem_map.1 hline
  exact newline_not_mem (printable_record hdouble r threadHash e)

/-- **The log reads back.** Each file of the path is a text of whole lines, and its lines are the
    records of a part of the events: the parts together, the oldest file first, are the end of what
    was there before and then the events that the pipeline has written to the sink, in this order,
    and all of that where no rotation has evicted anything. -/
theorem json_log_reads_back {k : Int} {path opened : Bytes} {files : FileSystem}
    {mode : KeepsArchives ω k} {old : Files Bytes Event} {s : FileLoggingState ω}
    (hdouble : ∀ bits, isFinite bits = true → Json.isNumber (formatDouble bits) = true)
    (hnotFinite : ∀ bits, isFinite bits = false → formatDouble bits ∈ Json.notFinite)
    (hold : MadeOfEvents (r.render formatDouble platform threadHash) path k.toNat files old)
    (hs : (fileLogging platform sink (construct files path mode.1 opened)).ReachableBy
      (fun _ label => label.RoutesRender sink (r.renderer formatDouble platform threadHash)) s) :
    ∃ kept : Files Bytes Event,
      Files.chain (nameAt path) k.toNat kept
        <:+ Files.chain (nameAt path) k.toNat old ++ s.deliveredEvents sink ∧
      ((construct files path mode.1 opened).NoneEvicts (s.calls.map (ProcessStep.call (k := k))) →
        Files.chain (nameAt path) k.toNat kept
          = Files.chain (nameAt path) k.toNat old ++ s.deliveredEvents sink) ∧
      ∀ j ≤ k.toNat, ∃ lines,
        Lines.split newline (s.sink.contents.content (nameAt path j)) = (lines, []) ∧
        List.Forall₂ (r.ReadsAs formatDouble platform threadHash) lines
          (kept.content (nameAt path j)) := by
  have hfollows := FollowsTrace.reachable hs
  have hdelivered : s.delivered sink
      = (s.deliveredEvents sink).map (r.render formatDouble platform threadHash) :=
    delivered_eq_map (.reachable hs)
  have hsink : SinkOn path k s.sink := by
    rw [hfollows.sink_eq]
    exact (SinkOn.construct files path mode opened).runCalls _
  obtain ⟨initial, hinitial, hchain⟩ := hold.exists_records
  have hmade : s.sink.MadeOf ((Files.chain (nameAt path) k.toNat old ++ s.deliveredEvents sink).map
      (r.render formatDouble platform threadHash)) := by
    obtain ⟨-, -, -, hmade⟩ := run_of_open (construct_open files path mode.1 opened)
      (construct_madeOf_records hinitial path mode.1 opened k.toNat (congrArg Int.toNat mode.2))
      s.calls
    rwa [hchain, hfollows.written_eq, hdelivered, ← List.map_append, ← hfollows.sink_eq] at hmade
  obtain ⟨kept, hkept, hhistory, hfiles⟩ := MadeOf.exists_events hmade
  rw [hsink.keep_eq, hsink.path_eq] at hkept hhistory hfiles
  refine ⟨kept, hkept, fun hnone => ?_, fun j hj => ?_⟩
  · refine suffix_eq_of_flatten (r.render_ne_nil formatDouble platform threadHash) hkept ?_
    rw [← hhistory, hfollows.sink_eq, history_of_noneEvicts s.calls hnone, hfollows.written_eq,
      hdelivered, List.map_append, List.flatten_append, ← hchain, hinitial,
      Files.chain_mapContents List.flatten rfl (fun x y => List.flatten_append)]
  · rw [hfiles j hj, split_records (printable_double hdouble hnotFinite)]
    refine ⟨_, rfl, ?_⟩
    rw [List.forall₂_map_left_iff, List.forall₂_same]
    exact fun e _ => readsAs_encode hdouble hnotFinite e

/-- A route that writes JSON to the file of `smallFile`. -/
def jsonRoute : Route where
  sinkRef := some 7
  rendererRef := some (({} : JsonRenderer).renderer formatSome ⟨fun _ => ⟨70, 0, 1, 0, 0, 0⟩⟩
    (fun _ => 0))

theorem json_log_reads_back_one_record :
    ∃ s : FileLoggingState Unit, s.deliveredEvents 7 ≠ [] ∧
      ∃ kept : Files Bytes Event,
        Files.chain (nameAt (bytes "a")) 2 kept <:+ s.deliveredEvents 7 ∧
        ∀ j ≤ 2, ∃ lines,
          Lines.split newline (s.sink.contents.content (nameAt (bytes "a") j)) = (lines, []) ∧
          List.Forall₂ (({} : JsonRenderer).ReadsAs formatSome ⟨fun _ => ⟨70, 0, 1, 0, 0, 0⟩⟩
            (fun _ => 0)) lines (kept.content (nameAt (bytes "a") j)) := by
  have hlabels : ∀ label ∈ ([.step (.call (.addRoute jsonRoute)) [] (), .step (.call .start) [] (),
      .step (.log { severity := .fatal, message := bytes "down" }) [] (), .step .advance [] ()] :
        List (FileLoggingLabel Unit)),
      FileLoggingState Unit → label.RoutesRender 7 (({} : JsonRenderer).renderer formatSome
        ⟨fun _ => ⟨70, 0, 1, 0, 0, 0⟩⟩ (fun _ => 0)) := by
    intro label hlabel _
    simp only [List.mem_cons, List.not_mem_nil, or_false] at hlabel
    rcases hlabel with rfl | rfl | rfl | rfl
    · exact fun _ => rfl
    all_goals exact trivial
  have hs := Machine.run_preserves_on (M := smallFile) (I := smallFile.ReachableBy
      (fun _ label => label.RoutesRender 7 (({} : JsonRenderer).renderer formatSome
        ⟨fun _ => ⟨70, 0, 1, 0, 0, 0⟩⟩ (fun _ => 0)))) _
    (fun s _ _ hlabel hs hnext => hs.step (hlabel s) hnext) hlabels (.init rfl) rfl
  have hread := @json_log_reads_back Unit _ 7 formatSome {} (fun _ => 0) 2 (bytes "a") []
    (fun _ => none) ⟨some (.fileSizeExceeds 100 2), rfl⟩ (fun _ => none) _ formatSome_finite
    formatSome_notFinite (fun j hj => rfl) hs
  obtain ⟨kept, hend, -, hlines⟩ := hread
  refine ⟨_, ?_, kept, hend, hlines⟩
  exact List.cons_ne_nil _ _

/-! ## Crashes -/

/-- What a step writes. -/
def ProcessStep.records {k : Int} : ProcessStep ω k → List Bytes
  | .call c => c.records
  | .restart _ _ => []
  | .crash _ _ _ => []

def ProcessStep.isCrash {k : Int} : ProcessStep ω k → Bool
  | .call _ => false
  | .restart _ _ => false
  | .crash _ _ _ => true

theorem written_acts {k : Int} (steps : List (ProcessStep ω k)) :
    (steps.flatMap ProcessStep.acts).flatMap DurableLog.Act.written
      = steps.flatMap ProcessStep.records := by
  rw [List.flatMap_assoc]
  refine List.flatMap_congr (fun step _ => ?_)
  cases step with
  | call c => cases c <;> rfl
  | restart mode today => rfl
  | crash point mode today => rfl

theorem countP_acts {k : Int} (steps : List (ProcessStep ω k)) :
    (steps.flatMap ProcessStep.acts).countP DurableLog.Act.isCrash
      = steps.countP ProcessStep.isCrash := by
  induction steps with
  | nil => rfl
  | cons step steps ih =>
      rw [List.flatMap_cons, List.countP_append, ih, List.countP_cons, Nat.add_comm]
      refine congrArg _ ?_
      cases step with
      | call c => cases c <;> rfl
      | restart mode today => rfl
      | crash point mode today => rfl

/-- **A crash damages at most one line.** Where the processes write records, the disk holds, behind
    what rotations have evicted, lines that are read as these records, in their order and each at
    most once; there are other lines, at most one for each process that has died. -/
theorem crash_damages_one_line {k : Int} (files : FileSystem) (path : Bytes)
    (mode : KeepsArchives ω k) (opened : Bytes) (steps : List (ProcessStep ω k))
    {old : Files Bytes Event} (events : List Event)
    (hdouble : ∀ bits, isFinite bits = true → Json.isNumber (formatDouble bits) = true)
    (hnotFinite : ∀ bits, isFinite bits = false → formatDouble bits ∈ Json.notFinite)
    (hold : MadeOfEvents (r.render formatDouble platform threadHash) path k.toNat files old)
    (hwrites : steps.flatMap ProcessStep.records
      = events.map (r.render formatDouble platform threadHash)) :
    let start := construct files path mode.1 opened
    ∃ lost lines rest kept,
      Lines.Splits newline (lost ++ (start.runSteps steps).onDisk) lines rest ∧
      List.Sublist kept (Files.chain (nameAt path) k.toNat old ++ events) ∧
      List.SublistForall₂ (fun e line => r.ReadsAs formatDouble platform threadHash line e) kept
        lines ∧
      lines.length ≤ kept.length + steps.countP ProcessStep.isCrash ∧
      (start.NoneEvicts steps → lost = []) := by
  intro start
  set line : Event → Bytes := fun e => Json.encode (r.record formatDouble platform threadHash e)
    with hline
  have hfree : ∀ events : List Event, ∀ l ∈ events.map line, newline ∉ l := by
    intro events l hl
    obtain ⟨e, -, rfl⟩ := List.mem_map.1 hl
    exact newline_not_mem (printable_record (printable_double hdouble hnotFinite) r threadHash e)
  -- what is there first are whole lines
  obtain ⟨initial, hinitial, hchain⟩ := hold.exists_records
  have hfirst : Files.chain (nameAt path) k.toNat files
      = Lines.unsplit newline ((Files.chain (nameAt path) k.toNat old).map line) := by
    rw [hinitial, Files.chain_mapContents List.flatten rfl (fun x y => List.flatten_append), hchain,
      flatten_map_render]
  have hstart : Logged path [] k [] start ⟨Files.chain (nameAt path) k.toNat files, []⟩ :=
    logged_construct mode opened rfl
  obtain ⟨lost, log, hrun, hlogged, hroom⟩ := hstart.run steps
  have hnew : (steps.flatMap ProcessStep.acts).flatMap DurableLog.Act.written
      = (events.map line).map (· ++ [newline]) := by
    rw [written_acts, hwrites, List.map_map]
    exact List.map_congr_left (fun e _ => r.render_eq formatDouble platform threadHash e)
  have hlines := hrun.holdsLines hnew (hfree events) (n := 0) (by
    rw [DurableLog.all, List.append_nil, hfirst]
    exact DurableLog.holdsLines_unsplit (hfree _))
  -- the disk holds a beginning of that
  have hholds := hlogged.holds
  rw [history_eq_onDisk, List.nil_append, List.nil_append, ← List.append_assoc] at hholds
  rw [← hholds, ← List.map_append, countP_acts, Nat.zero_add] at hlines
  obtain ⟨lines, rest, whole, hsplits, hin, horder, hfew⟩ := hlines.lines_of_prefix
  obtain ⟨kept, hkept, rfl⟩ := List.sublist_map_iff.1 horder
  refine ⟨lost, lines, rest, kept, hsplits, hkept, ?_, ?_, hroom⟩
  · refine List.sublistForall₂_iff.2 ⟨_, ?_, hin⟩
    rw [List.forall₂_map_right_iff, List.forall₂_same]
    exact fun e _ => readsAs_encode hdouble hnotFinite e
  · rwa [List.length_map] at hfew

/-- The process dies when nine bytes of the record are in the file. -/
theorem crash_damages_one_line_torn :
    let r : JsonRenderer := {}
    let render := r.render formatSome ⟨fun _ => ⟨70, 0, 1, 0, 0, 0⟩⟩ (fun _ => 0)
    let mode : KeepsArchives Unit 1 := ⟨some (.fileSizeExceeds 1000 1), rfl⟩
    let steps : List (ProcessStep Unit 1) := [.call (.write (render {}) [] ()), .call (.spill 9),
      .crash .idle mode [], .call (.write (render {}) [] ()), .call .flush]
    let disk := ((construct (fun _ => none) (bytes "a") mode.1 []).runSteps steps).onDisk
    ∃ lost lines rest kept, Lines.Splits newline (lost ++ disk) lines rest ∧
      List.Sublist kept [{}, {}] ∧
      List.SublistForall₂ (fun e line => r.ReadsAs formatSome ⟨fun _ => ⟨70, 0, 1, 0, 0, 0⟩⟩
        (fun _ => 0) line e) kept lines ∧
      lines.length ≤ kept.length + 1 := by
  intro r render mode steps disk
  obtain ⟨lost, lines, rest, kept, hsplits, hkept, hread, hfew, -⟩ :=
    @crash_damages_one_line Unit _ formatSome r (fun _ => 0) 1 (fun _ => none) (bytes "a") mode []
      steps (fun _ => none) [{}, {}] formatSome_finite formatSome_notFinite (fun j hj => rfl) rfl
  exact ⟨lost, lines, rest, kept, hsplits, hkept, hread, hfew⟩

end SyLog
