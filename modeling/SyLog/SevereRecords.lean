import SyLog.Logging

set_option autoImplicit false

/-! # Severe records

Two promises about the records that matter most. A fatal record is written by the calling thread and
its sinks are flushed before the call returns, whatever the lanes hold and the workers do. A record
from `error` on that no route takes goes to the emergency fallback; this one the severity check in
front of `submit` breaks. -/

namespace SyLog

variable {platform : Platform}

/-! ## What the calling thread does in a step -/

theorem resume_history (s : SessionState) (phase : Option (CrossbarPhase Event))
    (after : AfterCall) : (s.resume phase after).history = s.history := by
  cases phase <;> rfl

/-- In the middle of a call the thread writes nothing but what routes owe. -/
theorem written_of_advance {s t : SessionState} (h : s.advance = some t) :
    s.written t = [] ∨ ∃ (r : Route) (i : Nat) (e : Event), s.written t = r.outputs i e := by
  rcases SessionState.advance_cases h with ⟨e, mask, i, rest, buffer, -, rfl⟩ |
    ⟨e, mask, i, rest, buffer, rest', buffer', out, -, hout, rfl⟩ |
    ⟨c, after, x, phase', push, -, -, rfl⟩
  · exact Or.inl (written_of_trace [] (by simp))
  · have hwritten : s.written { s with
        phase := .dispatching e mask (i + 1) rest' buffer'
        history := { s.history with trace := s.history.trace ++ out.map (e, ·) } } = out := by
      rw [written_of_trace _ rfl, List.map_map]
      exact List.map_id out
    rcases hout with rfl | ⟨r, rfl⟩
    · exact Or.inl hwritten
    · exact Or.inr ⟨r, i, e, hwritten⟩
  · exact Or.inl (written_of_trace [] (by simp [resume_history]))

/-! ## A log call that delivers on the calling thread -/

theorem advance_dispatching {s : SessionState} {e : Event} {mask : RouteMask} {i : Nat}
    {rest : List Route} {buffer : Bytes} (hphase : s.phase = .dispatching e mask i rest buffer) :
    ∃ t, s.advance = some t ∧ t.pipeline = s.pipeline ∧
      t.history.accepted = s.history.accepted ∧
      ((t.phase = .idle ∧ dispatchLoop e mask i rest buffer = s.written t) ∨
        ∃ r rest' buffer', rest = r :: rest' ∧
          t.phase = .dispatching e mask (i + 1) rest' buffer' ∧
          dispatchLoop e mask i rest buffer
            = s.written t ++ dispatchLoop e mask (i + 1) rest' buffer') := by
  cases rest with
  | nil =>
      refine ⟨{ s with phase := .idle }, by simp [SessionState.advance, hphase], rfl, rfl,
        Or.inl ⟨rfl, ?_⟩⟩
      rw [written_of_trace [] (by simp)]
      rfl
  | cons r rest =>
      by_cases hi : i < 64
      · cases hsel : selects mask i with
        | false =>
            refine ⟨{ s with phase := .dispatching e mask (i + 1) rest buffer },
              by simp [SessionState.advance, hphase, hi, hsel], rfl, rfl,
              Or.inr ⟨r, rest, buffer, rfl, rfl, ?_⟩⟩
            rw [written_of_trace [] (by simp)]
            simp [dispatchLoop, hi, hsel]
        | true =>
            refine ⟨{ s with
                phase := .dispatching e mask (i + 1) rest (dispatchRoute r i e buffer).1
                history := { s.history with
                  trace := s.history.trace ++ (dispatchRoute r i e buffer).2.map (e, ·) } },
              by simp [SessionState.advance, hphase, hi, hsel], rfl, rfl,
              Or.inr ⟨r, rest, _, rfl, rfl, ?_⟩⟩
            rw [written_of_trace _ rfl]
            simp [dispatchLoop, hi, hsel]
      · refine ⟨{ s with phase := .idle }, by simp [SessionState.advance, hphase, hi], rfl, rfl,
          Or.inl ⟨rfl, ?_⟩⟩
        rw [written_of_trace [] (by simp)]
        simp [dispatchLoop, hi]

/-- What the flush at the end of a log call does to the sinks of the routes. -/
def flushesOf (routes : List Route) (flushAfter : Bool) : List Output :=
  if flushAfter then routes.zipIdx.flatMap (fun (r, i) => r.flush i) else []

theorem flushesOf_isWrite (routes : List Route) (flushAfter : Bool) :
    ∀ o ∈ flushesOf routes flushAfter, o.isWrite = false := by
  intro o ho
  cases flushAfter with
  | false => simp [flushesOf] at ho
  | true =>
      obtain ⟨⟨r, i⟩, -, hout⟩ := List.mem_flatMap.1 (show o ∈ routes.zipIdx.flatMap _ from ho)
      cases hsink : r.sinkRef with
      | none => simp [Route.flush, hsink] at hout
      | some sink =>
          obtain rfl : o = .flush i sink := by simpa [Route.flush, hsink] using hout
          rfl

theorem mem_flushesOf {routes : List Route} {i sink : Nat} {r : Route} (hr : routes[i]? = some r)
    (hsink : r.sinkRef = some sink) : .flush i sink ∈ flushesOf routes true := by
  refine List.mem_flatMap.2 ⟨(r, i), List.mem_zipIdx_iff_getElem?.2 (by simpa using hr), ?_⟩
  simp [Route.flush, hsink]

/-- A log call whose `submit` writes `writes` on this thread, while the lanes serve `routes`: what
    has been written and flushed so far, stage by stage. -/
inductive LogProgress (routes : List Route) (writes : List Output) (flushAfter : Bool)
    (s : LoggingState) : Prop
  | dispatching (e : Event) (mask : RouteMask) (i : Nat) (rest : List Route) (buffer : Bytes)
      (hstage : s.stage = .submitting flushAfter)
      (hphase : s.session.phase = .dispatching e mask i rest buffer)
      (hacts : s.acts ++ dispatchLoop e mask i rest buffer = writes)
  | submitted (hstage : s.stage = .submitting flushAfter) (hphase : s.session.phase = .idle)
      (hacts : s.acts = writes)
  | flushing (i : Nat) (hflush : flushAfter = true) (hstage : s.stage = .flushing i)
      (hphase : s.session.phase = .idle)
      (hacts : s.acts = writes ++ (routes.take i).zipIdx.flatMap (fun (r, j) => r.flush j))
  | returned (h : s.returned)
      (hacts : s.acts = writes ++ flushesOf routes flushAfter)

/-- The rounds of a flush, one route further. -/
theorem flushes_take_succ {routes : List Route} {i : Nat} {r : Route} (hr : routes[i]? = some r) :
    (routes.take (i + 1)).zipIdx.flatMap (fun (r, j) => r.flush j)
      = (routes.take i).zipIdx.flatMap (fun (r, j) => r.flush j) ++ r.flush i := by
  obtain ⟨hi, -⟩ := List.getElem?_eq_some_iff.1 hr
  have hlen : (routes.take i).length = i := List.length_take_of_le (Nat.le_of_lt hi)
  rw [List.take_add_one, hr, Option.toList_some, List.zipIdx_append, List.flatMap_append, hlen]
  simp

/-- A call goes on from `s` to `s'`, or has returned on the way, while the workers act. -/
def GoesOnTo (platform : Platform) (s s' : LoggingState) : Prop :=
  ∃ labels : List LoggingLabel, (∀ label ∈ labels, label.goesOn = true) ∧
    (logging platform).run s labels = some s'

/-- The call returns if no other thread acts. -/
def ReturnsAlone (platform : Platform) (s : LoggingState) : Prop :=
  ∃ n t, (logging platform).run s (List.replicate n .advance) = some t ∧ t.returned

theorem ReturnsAlone.step {s s' : LoggingState} (hadv : s.advance = some s')
    (h : ReturnsAlone platform s') : ReturnsAlone platform s := by
  obtain ⟨n, t, hrun, hret⟩ := h
  refine ⟨n + 1, t, ?_, hret⟩
  rw [List.replicate_succ, Machine.run]
  exact Option.bind_eq_some_iff.2 ⟨s', hadv, hrun⟩

theorem ReturnsAlone.goesOnTo {s : LoggingState} (h : ReturnsAlone platform s) :
    ∃ t, GoesOnTo platform s t ∧ t.returned := by
  obtain ⟨n, t, hrun, hret⟩ := h
  refine ⟨t, ⟨_, fun label hlabel => ?_, hrun⟩, hret⟩
  rw [List.eq_of_mem_replicate hlabel]
  rfl

/-- A flush visits the lanes one by one, and then the call returns. -/
theorem flushing_returns {s : LoggingState} {i : Nat} (hstage : s.stage = .flushing i)
    (hphase : s.session.phase = .idle) : ReturnsAlone platform s := by
  induction hk : s.session.pipeline.crossbar.lanes.length - i generalizing s i with
  | zero =>
      have hnone : s.session.pipeline.crossbar.lanes[i]? = none :=
        List.getElem?_eq_none_iff.2 (by omega)
      have hadv : s.advance = some { s with stage := .none } := by
        simp [LoggingState.advance, hstage, hnone]
      exact .step hadv ⟨0, _, rfl, rfl, hphase⟩
  | succ k ih =>
      have hi : i < s.session.pipeline.crossbar.lanes.length := by omega
      have hadv : s.advance = some { s with
          stage := .flushing (i + 1)
          acts := s.acts ++ s.session.pipeline.crossbar.lanes[i].route.flush i } := by
        simp [LoggingState.advance, hstage, hi]
      refine .step hadv (ih rfl hphase ?_)
      simp only
      omega

theorem submitted_returns {s : LoggingState} {flushAfter : Bool}
    (hstage : s.stage = .submitting flushAfter) (hphase : s.session.phase = .idle) :
    ReturnsAlone platform s := by
  have hadv : s.advance = some { s with stage := if flushAfter then .flushing 0 else .none } := by
    simp [LoggingState.advance, hstage, hphase]
  refine .step hadv ?_
  cases flushAfter with
  | true => exact flushing_returns rfl hphase
  | false => exact ⟨0, _, rfl, rfl, hphase⟩

theorem dispatching_returns {s : LoggingState} {flushAfter : Bool} {e : Event} {mask : RouteMask}
    {i : Nat} {rest : List Route} {buffer : Bytes} (hstage : s.stage = .submitting flushAfter)
    (hphase : s.session.phase = .dispatching e mask i rest buffer) : ReturnsAlone platform s := by
  induction rest generalizing s i buffer with
  | nil =>
      obtain ⟨t, hadv, -, -, ⟨hidle, -⟩ | ⟨r, rest', buffer', heq, -⟩⟩ :=
        advance_dispatching hphase
      · have hlog : s.advance
            = some { s with session := t, acts := s.acts ++ s.session.written t } := by
          simp [LoggingState.advance, hstage, hphase, hadv]
        exact .step hlog (submitted_returns hstage hidle)
      · exact absurd heq (by simp)
  | cons r rest ih =>
      obtain ⟨t, hadv, -, -, hcases⟩ := advance_dispatching hphase
      have hlog : s.advance
          = some { s with session := t, acts := s.acts ++ s.session.written t } := by
        simp [LoggingState.advance, hstage, hphase, hadv]
      refine .step hlog ?_
      rcases hcases with ⟨hidle, -⟩ | ⟨r', rest', buffer', heq, hnext, -⟩
      · exact submitted_returns hstage hidle
      · obtain ⟨-, rfl⟩ := List.cons.inj heq
        exact ih hstage hnext

theorem LogProgress.returns {routes : List Route} {writes : List Output} {flushAfter : Bool}
    {s : LoggingState} (h : LogProgress routes writes flushAfter s) : ReturnsAlone platform s := by
  cases h with
  | dispatching e mask i rest buffer hstage hphase _ => exact dispatching_returns hstage hphase
  | submitted hstage hphase _ => exact submitted_returns hstage hphase
  | flushing i _ hstage hphase _ => exact flushing_returns hstage hphase
  | returned h _ => exact ⟨0, s, rfl, h⟩

/-- **Step lemma of a log call.** A step of the thread or of a worker. -/
theorem LogProgress.step {routes : List Route} {writes : List Output} {flushAfter : Bool}
    {accepted : Nat → List Event} {s s' : LoggingState} {label : LoggingLabel}
    (hlabel : label.goesOn = true)
    (h : LogProgress routes writes flushAfter s ∧ LogFrame routes accepted s)
    (hnext : (logging platform).next s label = some s') :
    LogProgress routes writes flushAfter s' ∧ LogFrame routes accepted s' := by
  obtain ⟨h, hframe⟩ := h
  cases label with
  | work i act =>
      obtain ⟨t, hwork, rfl⟩ := Option.map_eq_some_iff.1 hnext
      obtain ⟨⟨x, out, written⟩, hx, rfl⟩ := Option.map_eq_some_iff.1 hwork
      refine ⟨?_, (SinkCrossbar.workProcess_routes hx).trans hframe.lanes,
        (s.session.history.work_accepted i out written).trans hframe.accepted_eq⟩
      cases h with
      | dispatching e mask k rest buffer hstage hphase hacts =>
          exact .dispatching e mask k rest buffer hstage hphase hacts
      | submitted hstage hphase hacts => exact .submitted hstage hphase hacts
      | flushing k hflush hstage hphase hacts => exact .flushing k hflush hstage hphase hacts
      | returned hret hacts => exact .returned hret hacts
  | advance =>
      have hadv : s.advance = some s' := hnext
      cases h with
      | dispatching e mask i rest buffer hstage hphase hacts =>
          obtain ⟨t, hsession, hpipeline, haccepted, hcases⟩ := advance_dispatching hphase
          obtain rfl : s' = { s with session := t, acts := s.acts ++ s.session.written t } := by
            simpa [LoggingState.advance, hstage, hphase, hsession] using hadv.symm
          refine ⟨?_, ?_, haccepted.trans hframe.accepted_eq⟩
          · rcases hcases with ⟨hidle, hrest⟩ | ⟨r, rest', buffer', -, hnext', hrest⟩
            · exact .submitted hstage hidle (by rw [← hacts, hrest])
            · refine .dispatching e mask (i + 1) rest' buffer' hstage hnext' ?_
              rw [← hacts, hrest, List.append_assoc]
          · simpa [hpipeline] using hframe.lanes
      | submitted hstage hphase hacts =>
          obtain rfl : s' = { s with stage := if flushAfter then .flushing 0 else .none } := by
            simpa [LoggingState.advance, hstage, hphase] using hadv.symm
          refine ⟨?_, hframe.lanes, hframe.accepted_eq⟩
          cases flushAfter with
          | true => exact .flushing 0 rfl rfl hphase (by simp [hacts])
          | false => exact .returned ⟨rfl, hphase⟩ (by simp [hacts, flushesOf])
      | flushing i hflush hstage hphase hacts =>
          cases hl : s.session.pipeline.crossbar.lanes[i]? with
          | some l =>
              obtain rfl : s' = { s with
                  stage := .flushing (i + 1), acts := s.acts ++ l.route.flush i } := by
                simpa [LoggingState.advance, hstage, hl] using hadv.symm
              have hr : routes[i]? = some l.route := by
                rw [← hframe.lanes, SinkCrossbar.routes, List.getElem?_map, hl, Option.map_some]
              refine ⟨.flushing (i + 1) hflush rfl hphase ?_, hframe.lanes, hframe.accepted_eq⟩
              rw [flushes_take_succ hr, ← List.append_assoc, ← hacts]
          | none =>
              obtain rfl : s' = { s with stage := .none } := by
                simpa [LoggingState.advance, hstage, hl] using hadv.symm
              have hlen : routes.length ≤ i := by
                rw [← hframe.lanes, SinkCrossbar.routes, List.length_map]
                exact List.getElem?_eq_none_iff.1 hl
              refine ⟨.returned ⟨rfl, hphase⟩ ?_, hframe.lanes, hframe.accepted_eq⟩
              rw [List.take_of_length_le hlen] at hacts
              simpa [flushesOf, hflush] using hacts
      | returned hret hacts =>
          -- the thread is in no call
          have hnone : s.session.advance = none := by
            simp [SessionState.advance, hret.2]
          simp [LoggingState.advance, hret.1, hnone] at hadv
  | _ => exact absurd hlabel (by simp [LoggingLabel.goesOn])

/-- No route takes it, so nothing is owed. -/
theorem owedWrites_eq_nil {globalFilters : List (Option Filter)} {routes : List Route} {e : Event}
    (h : ∀ i r, i < 64 → routes[i]? = some r → ¬ r.accepts e) :
    owedWrites globalFilters routes e = [] := by
  unfold owedWrites
  split
  · refine List.flatMap_eq_nil_iff.2 (fun ri hri => ?_)
    obtain ⟨r, i⟩ := ri
    have hr : routes[i]? = some r := by simpa using List.mem_zipIdx_iff_getElem?.1 hri
    by_cases hi : i < 64
    · simpa [hi] using Route.outputs_of_not_accepts (h i r hi hr)
    · simp [hi]
  · rfl

theorem LogProgress.acts_of_returned {routes : List Route} {writes : List Output}
    {flushAfter : Bool} {s : LoggingState} (h : LogProgress routes writes flushAfter s)
    (hret : s.returned) : s.acts = writes ++ flushesOf routes flushAfter := by
  cases h with
  | dispatching e mask i rest buffer hstage _ _ => exact absurd (hstage.symm.trans hret.1) (by simp)
  | submitted hstage _ _ => exact absurd (hstage.symm.trans hret.1) (by simp)
  | flushing i _ hstage _ _ => exact absurd (hstage.symm.trans hret.1) (by simp)
  | returned _ hacts => exact hacts

/-- **The start of a log call** with a severity that forces synchronous delivery. Either the lookup
    ends it and nothing is owed, or the thread goes on to write what is owed. -/
theorem LogProgress.start (platform : Platform) {s : LoggingState} {c : LogCall}
    (hcoherent : s.session.pipeline.Coherent) (hret : s.returned)
    (hforce : c.severity.forceSync = true)
    (htrace : Severity.trace.priority ≤ c.severity.priority) :
    ∃ writes flushAfter,
      LogProgress s.session.pipeline.routes writes flushAfter (s.log platform c) ∧
      writes.filter Output.isWrite
        = owedWrites s.session.pipeline.globalFilters s.session.pipeline.routes c.event ∧
      (writes ≠ [] → flushAfter = c.severity.flushAfter) := by
  have howed := writesOn_entry s.session.pipeline.globalFilters s.session.pipeline.routes c.event
  cases (log_start platform hcoherent hret c).1 with
  | disabled hoff hret hacts =>
      have hnone : owedWrites s.session.pipeline.globalFilters s.session.pipeline.routes c.event
          = [] :=
        owedWrites_eq_nil
          (fun i r => not_accepts_of_not_enabled (e := c.event) hcoherent hoff htrace)
      exact ⟨[], false, .returned hret (by rw [hacts]; rfl), by rw [hnone]; rfl,
        fun hne => absurd rfl hne⟩
  | submitting d hon hd hstage hphase hacts =>
      have hthread : s.session.pipeline.SubmitsOnThread c.event c.severity.forceSync :=
        Or.inr (Or.inl hforce)
      rcases disposition_onThread platform hthread
          (computeCacheEntry s.session.pipeline.routes c.endpoint).routeMask with
        ⟨hnone, ⟨out, heq, hout⟩ | heq⟩ | ⟨hglobal, heq⟩
      · obtain rfl := hd.trans heq
        refine ⟨out, c.severity.flushAfter, .submitted hstage hphase hacts, ?_, fun _ => rfl⟩
        rw [← howed, LogCall.event_endpoint, writesOn_eq_nil hnone]
        exact List.filter_eq_nil_iff.2 (fun o ho => by simp [hout o ho])
      · obtain rfl := hd.trans heq
        refine ⟨[], c.severity.flushAfter, .submitted hstage hphase hacts, ?_, fun _ => rfl⟩
        rw [← howed, LogCall.event_endpoint, writesOn_eq_nil hnone]
        rfl
      · obtain rfl := hd.trans heq
        refine ⟨dispatchSync s.session.pipeline.routes c.event
            (computeCacheEntry s.session.pipeline.routes c.endpoint).routeMask,
          c.severity.flushAfter, .dispatching _ _ _ _ _ hstage hphase ?_, ?_, fun _ => rfl⟩
        · rw [hacts]
          rfl
        · rw [dispatchSync_filter, ← howed, writesOn, if_pos hglobal, LogCall.event_endpoint]

/-! ## Fatal records -/

/-- **A fatal record is written and flushed before the call returns**, in any state of the lanes and
    whatever the workers do meanwhile. The call enqueues nothing and can always go on until it
    returns; when it has, the calling thread has written the record to exactly the routes that it is
    owed to, and each write is followed by a flush of its sink. -/
theorem fatal_written_and_flushed {s s₁ s' : LoggingState} {c : LogCall}
    (hs : (logging platform).Reachable s)
    (hfatal : c.severity = .fatal) (hcall : (logging platform).next s (.log c) = some s₁)
    (hrun : GoesOnTo platform s₁ s') :
    s'.session.history.accepted = s.session.history.accepted ∧
    ReturnsAlone platform s' ∧
    (s'.returned →
      s'.acts.filter Output.isWrite
        = owedWrites s.session.pipeline.globalFilters s.session.pipeline.routes c.event ∧
      ∀ before after i sink data, s'.acts = before ++ .write i sink data :: after →
        .flush i sink ∈ after) := by
  obtain ⟨hret, rfl⟩ := logging_next rfl hcall
  have hm := Mirrored.reachable hs
  obtain ⟨writes, flushAfter, hprogress, howed, hflush⟩ :=
    LogProgress.start platform hm.coherent hret (by rw [hfatal]; rfl) (by rw [hfatal]; decide)
  have hframe := (log_start platform hm.coherent hret c).2
  rw [hm.serves hret.2] at hframe
  obtain ⟨labels, hlabels, hrun⟩ := hrun
  obtain ⟨hprogress', hframe'⟩ := Machine.run_preserves_on (fun label => label.goesOn = true)
    (fun _ _ _ hlabel h hnext => LogProgress.step hlabel h hnext) hlabels ⟨hprogress, hframe⟩ hrun
  refine ⟨hframe'.accepted_eq, hprogress'.returns, fun hret' => ?_⟩
  have hacts := hprogress'.acts_of_returned hret'
  have hflushes := flushesOf_isWrite s.session.pipeline.routes flushAfter
  refine ⟨?_, fun before after i sink data heq => ?_⟩
  · have hnone : (flushesOf s.session.pipeline.routes flushAfter).filter Output.isWrite = [] :=
      List.filter_eq_nil_iff.2 (fun o ho => by simp [hflushes o ho])
    rw [hacts, List.filter_append, hnone, List.append_nil, howed]
  · -- the write is not among the flushes, so all of them come after it
    rcases List.append_eq_append_iff.1 (heq.symm.trans hacts) with
      ⟨mid, hwrites, hrest⟩ | ⟨mid, -, hrest⟩
    · cases mid with
      | nil =>
          have hmem : Output.write i sink data
              ∈ flushesOf s.session.pipeline.routes flushAfter := by
            rw [← List.nil_append (flushesOf _ _), ← hrest]
            exact List.mem_cons_self
          exact absurd (hflushes _ hmem) (by simp [Output.isWrite])
      | cons o mid =>
          obtain ⟨rfl, rfl⟩ := List.cons.inj hrest
          have hwrite : Output.write i sink data ∈ writes := by simp [hwrites]
          have hmem := List.mem_filter.2 ⟨hwrite, (rfl : Output.isWrite _ = true)⟩
          obtain ⟨-, -, r, hr, hsink, -⟩ := mem_owedWrites.1 (howed ▸ hmem)
          obtain rfl : flushAfter = true := by
            rw [hflush (List.ne_nil_of_mem hwrite), hfatal]
            rfl
          exact List.mem_append_right _ (mem_flushesOf hr hsink)
    · have hmem : Output.write i sink data ∈ flushesOf s.session.pipeline.routes flushAfter := by
        rw [hrest]
        simp
      exact absurd (hflushes _ hmem) (by simp [Output.isWrite])

theorem fatal_written_and_flushed_one_route :
    ∃ s s₁ s' : LoggingState,
      (logging ⟨fun _ => ⟨70, 0, 1, 0, 0, 0⟩⟩).Reachable s ∧
      (logging ⟨fun _ => ⟨70, 0, 1, 0, 0, 0⟩⟩).next s
        (.log { severity := .fatal, message := bytes "down" }) = some s₁ ∧
      (logging ⟨fun _ => ⟨70, 0, 1, 0, 0, 0⟩⟩).run s₁ (List.replicate 5 .advance) = some s' ∧
      s'.acts = [.write 0 7 (bytes "down\n"), .flush 0 7] ∧
      s'.session.history.accepted = s.session.history.accepted ∧
      ∀ before after i sink data, s'.acts = before ++ .write i sink data :: after →
        .flush i sink ∈ after := by
  have hs := Machine.ReachableBy.run (M := logging ⟨fun _ => ⟨70, 0, 1, 0, 0, 0⟩⟩)
    (.init rfl) [.call (.addRoute { sinkRef := some 7 }), .call .start] rfl
  have hlabels : ∀ label ∈ List.replicate 5 LoggingLabel.advance, label.goesOn = true :=
    fun label h => by rw [List.eq_of_mem_replicate h]; rfl
  have hfatal := fatal_written_and_flushed hs (c := { severity := .fatal, message := bytes "down" })
    rfl rfl ⟨_, hlabels, rfl⟩
  exact ⟨_, _, _, hs, rfl, rfl, rfl, hfatal.1, (hfatal.2.2 ⟨rfl, rfl⟩).2⟩

/-! ## The emergency fallback -/

/-- Some route below 64 has filters that pass the event. -/
def RouteTakes (routes : List Route) (e : Event) : Prop :=
  ∃ i r, i < 64 ∧ routes[i]? = some r ∧ r.accepts e

def Output.isFallback : Output → Bool
  | .fallback _ => true
  | _ => false

/-- What the calling thread has written to the fallback in the last log call. -/
def LoggingState.fallbacks (s : LoggingState) : List Output := s.acts.filter Output.isFallback

theorem outputs_isFallback (r : Route) (i : Nat) (e : Event) :
    (r.outputs i e).filter Output.isFallback = [] := by
  refine List.filter_eq_nil_iff.2 (fun o ho => ?_)
  have hwrite := r.outputs_isWrite i e o ho
  cases o <;> simp_all [Output.isWrite, Output.isFallback]

theorem flush_isFallback (r : Route) (i : Nat) : (r.flush i).filter Output.isFallback = [] := by
  unfold Route.flush
  split <;> rfl

/-- Once `submit` has decided what to do the call writes nothing to the fallback. -/
theorem fallbacks_step {s s' : LoggingState} {label : LoggingLabel}
    (hlabel : label.goesOn = true) (hnext : (logging platform).next s label = some s') :
    s'.fallbacks = s.fallbacks := by
  cases label with
  | work i act =>
      obtain ⟨t, -, rfl⟩ := Option.map_eq_some_iff.1 hnext
      rfl
  | advance =>
      have hadv : s.advance = some s' := hnext
      unfold LoggingState.advance at hadv
      split at hadv
      · obtain ⟨t, -, rfl⟩ := Option.map_eq_some_iff.1 hadv
        rfl
      · split at hadv
        · obtain rfl := Option.some.inj hadv
          rfl
        · obtain ⟨t, ht, rfl⟩ := Option.map_eq_some_iff.1 hadv
          rw [LoggingState.fallbacks, List.filter_append]
          rcases written_of_advance ht with hnil | ⟨r, i, e, hout⟩
          · rw [hnil, List.filter_nil, List.append_nil, LoggingState.fallbacks]
          · rw [hout, outputs_isFallback, List.append_nil, LoggingState.fallbacks]
      · split at hadv
        · obtain rfl := Option.some.inj hadv
          rw [LoggingState.fallbacks, List.filter_append, flush_isFallback, List.append_nil,
            LoggingState.fallbacks]
        · obtain rfl := Option.some.inj hadv
          rfl
  | _ => exact absurd hlabel (by simp [LoggingLabel.goesOn])

theorem GoesOnTo.fallbacks {s s' : LoggingState} (h : GoesOnTo platform s s') :
    s'.fallbacks = s.fallbacks := by
  obtain ⟨labels, hlabels, hrun⟩ := h
  exact Machine.run_preserves_on (I := fun t => t.fallbacks = s.fallbacks)
    (fun label => label.goesOn = true)
    (fun _ _ _ hlabel h hnext => (fallbacks_step hlabel hnext).trans h) hlabels rfl hrun

/-- What a log call writes to the fallback: something only if the mask is empty, and then the
    severity check lets nothing through but the greatest priority. -/
theorem log_fallbacks (platform : Platform) {s : LoggingState} {c : LogCall}
    (hcoherent : s.session.pipeline.Coherent) (hret : s.returned)
    (hsevere : Severity.error.priority ≤ c.severity.priority) :
    ((computeCacheEntry s.session.pipeline.routes c.endpoint).routeMask = 0#64 ∧
      c.severity.priority = 65535 ∧
      (s.log platform c).stage = .submitting c.severity.flushAfter ∧
      (s.log platform c).session.phase = .idle ∧
      (s.log platform c).fallbacks = [.fallback (Pipeline.fallbackText platform c.event)]) ∨
    (¬ ((computeCacheEntry s.session.pipeline.routes c.endpoint).routeMask = 0#64 ∧
        c.severity.priority = 65535) ∧
      (s.log platform c).fallbacks = []) := by
  have hiff := hcoherent.enabled_iff c.endpoint c.severity.priority
  have hleast : (computeCacheEntry s.session.pipeline.routes c.endpoint).routeMask = 0#64 →
      (computeCacheEntry s.session.pipeline.routes c.endpoint).minPriority = 65535 :=
    computeCacheEntry_minPriority_of_mask_zero
  cases (log_start platform hcoherent hret c).1 with
  | disabled hoff hret hacts =>
      refine Or.inr ⟨?_, by rw [LoggingState.fallbacks, hacts]; rfl⟩
      rintro ⟨hmask, hmax⟩
      rw [hiff.2 (by rw [hleast hmask, hmax]; exact UInt16.le_refl _)] at hoff
      exact absurd hoff (by simp)
  | submitting d hon hd hstage hphase hacts =>
      rw [LoggingState.fallbacks, hacts]
      by_cases hmask : (computeCacheEntry s.session.pipeline.routes c.endpoint).routeMask = 0#64
      · -- the mask is empty, and the call is past the severity check
        have hmax : c.severity.priority = 65535 :=
          UInt16.le_antisymm (le_65535 _) (hleast hmask ▸ hiff.1 hon)
        have hfallback : d = .unrouted [.fallback (Pipeline.fallbackText platform c.event)] := by
          rw [hd, Pipeline.disposition, if_pos hmask,
            if_pos (show Severity.error.priority ≤ c.event.severityPriority from hsevere)]
        rw [hfallback] at hphase ⊢
        exact Or.inl ⟨hmask, hmax, hstage, hphase, rfl⟩
      · refine Or.inr ⟨fun h => hmask h.1, ?_⟩
        rw [hd, Pipeline.disposition, if_neg hmask]
        split
        · rfl
        · split <;> rfl

/-- What is promised about a severe record: if no route takes it then the call returns, having
    written it to the fallback once; otherwise the call writes nothing there. -/
def FallbackKept (platform : Platform) (routes : List Route) (c : LogCall) (s : LoggingState) :
    Prop :=
  (¬ RouteTakes routes c.event → (∃ s', GoesOnTo platform s s' ∧ s'.returned) ∧
    ∀ s', GoesOnTo platform s s' → s'.returned →
      s'.fallbacks = [.fallback (Pipeline.fallbackText platform c.event)]) ∧
  (RouteTakes routes c.event → ∀ s', GoesOnTo platform s s' → s'.fallbacks = [])

/-- **Severe records and the fallback.** In every state that a thread can reach, a log call from
    `error` on keeps the promise precisely when some route takes the record, or the priority is the
    greatest there is and the last endpoint filter of every route rejects the endpoint. -/
theorem fallback_kept_iff {s s₁ : LoggingState} {c : LogCall}
    (hs : (logging platform).Reachable s)
    (hsevere : Severity.error.priority ≤ c.severity.priority)
    (hcall : (logging platform).next s (.log c) = some s₁) :
    FallbackKept platform s.session.pipeline.routes c s₁ ↔
      (RouteTakes s.session.pipeline.routes c.event ∨
        (c.severity.priority = 65535 ∧ ∀ i r, i < 64 → s.session.pipeline.routes[i]? = some r →
          endpointOk r.filterList c.endpoint = false)) := by
  obtain ⟨hret, rfl⟩ := logging_next rfl hcall
  have hzero := computeCacheEntry_mask_eq_zero_iff s.session.pipeline.routes c.endpoint
  have htakes : RouteTakes s.session.pipeline.routes c.event →
      (computeCacheEntry s.session.pipeline.routes c.endpoint).routeMask ≠ 0#64 := by
    rintro ⟨i, r, hi, hr, hacc⟩ hmask
    have hok : endpointOk r.filterList c.endpoint = true := hacc.endpointOk
    rw [hzero.1 hmask i r hi hr] at hok
    exact absurd hok (by simp)
  have hcases := log_fallbacks platform (Mirrored.reachable hs).coherent hret hsevere
  constructor
  · rintro ⟨hlost, -⟩
    by_cases hroute : RouteTakes s.session.pipeline.routes c.event
    · exact Or.inl hroute
    · obtain ⟨⟨s', hgoes, hret'⟩, hwritten⟩ := hlost hroute
      rcases hcases with ⟨hmask, hmax, -⟩ | ⟨-, hnone⟩
      · exact Or.inr ⟨hmax, hzero.1 hmask⟩
      · have hempty := (hwritten s' hgoes hret').symm.trans (hgoes.fallbacks.trans hnone)
        exact absurd hempty (by simp)
  · intro hcond
    refine ⟨fun hroute => ?_, fun hroute s' hgoes => ?_⟩
    · obtain ⟨hmax, hmask⟩ := hcond.resolve_left hroute
      rcases hcases with ⟨-, -, hstage, hphase, hwritten⟩ | ⟨hother, -⟩
      · exact ⟨(submitted_returns hstage hphase).goesOnTo,
          fun s' hgoes _ => hgoes.fallbacks.trans hwritten⟩
      · exact absurd ⟨hzero.2 hmask, hmax⟩ hother
    · rcases hcases with ⟨hmask, -⟩ | ⟨-, hnone⟩
      · exact absurd hmask (htakes hroute)
      · exact hgoes.fallbacks.trans hnone

theorem fallback_kept_greatest_priority :
    ∃ s₁ : LoggingState,
      (logging ⟨fun _ => ⟨70, 0, 1, 0, 0, 0⟩⟩).next {}
        (.log { severity := { priority := 65535 }, message := bytes "down" }) = some s₁ ∧
      FallbackKept ⟨fun _ => ⟨70, 0, 1, 0, 0, 0⟩⟩ []
        { severity := { priority := 65535 }, message := bytes "down" } s₁ := by
  refine ⟨_, rfl, ?_⟩
  refine (fallback_kept_iff (s := {}) (.init rfl) (by decide) rfl).2 (Or.inr ⟨rfl, ?_⟩)
  intro i r _ hr
  exact absurd hr (by simp [Pipeline.init])

/-- Without a route an error is lost: the severity check ends the call before `submit` can write the
    fallback. -/
theorem error_lost_without_routes :
    ∃ (platform : Platform) (s s₁ : LoggingState) (c : LogCall),
      (logging platform).Reachable s ∧ c.severity = .error ∧
      (logging platform).next s (.log c) = some s₁ ∧
      ¬ RouteTakes s.session.pipeline.routes c.event ∧ s₁.returned ∧ s₁.acts = [] ∧
      ¬ FallbackKept platform s.session.pipeline.routes c s₁ := by
  have hnone : ¬ RouteTakes [] ({ severity := .error } : LogCall).event := by
    rintro ⟨i, r, -, hr, -⟩
    exact absurd hr (by simp)
  refine ⟨⟨fun _ => ⟨70, 0, 1, 0, 0, 0⟩⟩, {}, _, { severity := .error }, .init rfl, rfl, rfl, hnone,
    ⟨rfl, rfl⟩, rfl, fun hkept => ?_⟩
  have hwritten := (hkept.1 hnone).2 _ ⟨[], by simp, rfl⟩ ⟨rfl, rfl⟩
  have hnil : ([] : List Output) = [.fallback _] := hwritten
  exact absurd hnil (by simp)

end SyLog
