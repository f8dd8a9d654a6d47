import SyLog.Session

set_option autoImplicit false

/-! # Per-route order over lifecycle changes

An event reaches a route through a lane's queue, through the lane of a rebuilt crossbar, or on the
calling thread. Whatever the calls and the workers do, a route writes the events in the order in
which they were submitted, each at most once.

The invariant speaks of what a route has written followed by what its lane has pending: together a
subsequence of what was submitted. It survives the switch to delivery on the calling thread because
nothing is pending whenever that is how `submit` delivers. -/

namespace SyLog

variable {platform : Platform} {s s' : SessionState}

/-- The events that were written on behalf of route `i`, in the order of the writes. -/
def History.writtenBy (h : History) (i : Nat) : List Event :=
  h.trace.filterMap (fun w => (w.2.dataFor i).map (fun _ => w.1))

/-- The calls that keep off the forced synchronous path, and configure a stopped pipeline only. -/
def SessionState.unforced (s : SessionState) : SessionLabel → Bool
  | .configure _ => !s.pipeline.running
  | .submit e forceSync => !forceSync && decide (e.severityPriority < Severity.fatal.priority)
  | _ => true

/-! ## What is written -/

theorem History.writtenBy_append (h : History) (e : Event) (out : List Output) (i : Nat) :
    ({ h with trace := h.trace ++ out.map (e, ·) } : History).writtenBy i
      = h.writtenBy i ++ (out.filterMap (Output.dataFor i)).map (fun _ => e) := by
  simp only [writtenBy, List.filterMap_append, List.filterMap_map, List.map_filterMap]
  rfl

/-- The outputs of a route are at most one write, on its own behalf. -/
theorem outputs_writtenBy (r : Route) (k i : Nat) (e : Event) :
    (((r.outputs k e).filterMap (Output.dataFor i)).map (fun _ => e)).Sublist
      (if i = k then [e] else []) := by
  by_cases hik : i = k
  · subst hik
    rw [if_pos rfl]
    unfold Route.outputs
    cases r.sinkRef with
    | none => exact List.nil_sublist _
    | some sink => by_cases hacc : r.accepts e <;> simp [hacc, Output.dataFor]
  · have hki : k ≠ i := fun he => hik he.symm
    rw [Route.outputs_dataFor hki]
    exact List.nil_sublist _

theorem dataFor_eq_nil {out : List Output} (h : ∀ o ∈ out, o.isWrite = false) (i : Nat) :
    out.filterMap (Output.dataFor i) = [] := by
  refine List.filterMap_eq_nil_iff.2 (fun o ho => ?_)
  have hw := h o ho
  cases o with
  | write j sink data => simp [Output.isWrite] at hw
  | flush j sink => rfl
  | fallback data => rfl

@[simp] theorem History.accept_writtenBy (h : History) (push : Option (Nat × Event)) (i : Nat) :
    (h.accept push).writtenBy i = h.writtenBy i := by
  simp [writtenBy]

/-! ## The invariant -/

/-- What route `i` has written, followed by what its lane has pending. -/
def SessionState.arriving (s : SessionState) (i : Nat) : List Event :=
  s.history.writtenBy i ++ s.pipeline.crossbar.pendingAt i

/-- The event in hand has reached the routes below `k`; the others have not seen it. -/
def ReachedBelow (k : Nat) (e : Event) (arriving : Nat → List Event) (submitted : List Event) :
    Prop :=
  ∃ before, submitted = before ++ [e] ∧
    ∀ i, (arriving i).Sublist (if i < k then submitted else before)

/-- Each route is in order, and nothing is pending where `submit` delivers on the calling thread. -/
def OrderInv (s : SessionState) : Prop :=
  match s.phase with
  | .idle => (∀ i, (s.arriving i).Sublist s.submitted) ∧
      (s.pipeline.accepting = false ∨ s.pipeline.cfg.asyncByDefault = false →
        ∀ i, s.pipeline.crossbar.pendingAt i = [])
  | .dispatching e _ k _ _ => ReachedBelow k e s.arriving s.submitted ∧
      ∀ i, s.pipeline.crossbar.pendingAt i = []
  | .crossbar (.submitting e _ k) after => ReachedBelow k e s.arriving s.submitted ∧
      after = .done ∧ s.pipeline.accepting = true ∧ s.pipeline.cfg.asyncByDefault = true
  | .crossbar (.closing _ _) after | .crossbar (.joining _ _) after =>
      (∀ i, (s.arriving i).Sublist s.submitted) ∧ after ≠ .done

theorem ReachedBelow.sublist {k : Nat} {e : Event} {arriving : Nat → List Event}
    {submitted : List Event} (h : ReachedBelow k e arriving submitted) (i : Nat) :
    (arriving i).Sublist submitted := by
  obtain ⟨before, rfl, hall⟩ := h
  have hi := hall i
  split at hi
  · exact hi
  · exact hi.trans (List.sublist_append_left _ _)

/-- Less may arrive. -/
theorem ReachedBelow.mono {k : Nat} {e : Event} {arriving arriving' : Nat → List Event}
    {submitted : List Event} (h : ReachedBelow k e arriving submitted)
    (hle : ∀ i, (arriving' i).Sublist (arriving i)) : ReachedBelow k e arriving' submitted := by
  obtain ⟨before, heq, hall⟩ := h
  exact ⟨before, heq, fun i => (hle i).trans (hall i)⟩

/-- Route `k` gets the event in hand, the others nothing. -/
theorem ReachedBelow.next {k : Nat} {e : Event} {arriving arriving' : Nat → List Event}
    {submitted : List Event} (h : ReachedBelow k e arriving submitted)
    (hle : ∀ i, (arriving' i).Sublist (arriving i ++ if i = k then [e] else [])) :
    ReachedBelow (k + 1) e arriving' submitted := by
  obtain ⟨before, rfl, hall⟩ := h
  refine ⟨before, rfl, fun i => (hle i).trans ?_⟩
  have hi := hall i
  by_cases hik : i = k
  · subst hik
    rw [if_neg (Nat.lt_irrefl i)] at hi
    rw [if_pos rfl, if_pos (Nat.lt_succ_self i)]
    exact hi.append_right [e]
  · have hiff : i < k + 1 ↔ i < k := by omega
    simpa [hik, hiff] using hi

/-! ## Steps keep the order -/

/-- What is pending in a crossbar that has just been made. -/
theorem result_pendingAt (p : Pipeline) {after : AfterCall} (h : after ≠ .done) (i : Nat) :
    (after.result p).crossbar.pendingAt i = [] := by
  cases after with
  | done => exact absurd rfl h
  | rebuild routes =>
      exact SinkCrossbar.pendingAt_eq_nil (fun l hl => SinkCrossbar.rebuild_pending hl) i
  | renew drain =>
      exact SinkCrossbar.pendingAt_eq_nil (fun l hl => SinkCrossbar.rebuild_pending hl) i

/-- A call ends with a new crossbar. -/
theorem OrderInv.of_result {p : Pipeline} {after : AfterCall} (hafter : after ≠ .done)
    (hphase : s'.phase = .idle) (hp : s'.pipeline = after.result p)
    (horder : ∀ i, (s'.history.writtenBy i).Sublist s'.submitted) : OrderInv s' := by
  have hpend : ∀ i, s'.pipeline.crossbar.pendingAt i = [] := by
    intro i
    rw [hp]
    exact result_pendingAt p hafter i
  unfold OrderInv
  rw [hphase]
  refine ⟨fun i => ?_, fun _ => hpend⟩
  rw [SessionState.arriving, hpend i, List.append_nil]
  exact horder i

theorem OrderInv.work (h : OrderInv s) {i : Nat} {act : WorkerAct} {x : SinkCrossbar Event}
    {out : Option Event} {written : List Output}
    (hwork : s.pipeline.crossbar.workProcess i act = some (x, out, written)) :
    OrderInv { s with pipeline := { s.pipeline with crossbar := x }
                      history := s.history.work i out written } := by
  have hpend := SinkCrossbar.workProcess_pendingAt hwork
  obtain ⟨l, l', buffer, -, -, -, hwritten⟩ := SinkCrossbar.workProcess_cases hwork
  -- the head of what is pending is written or filtered out
  have hle : ∀ j, ((s.history.work i out written).writtenBy j ++ x.pendingAt j).Sublist
      (s.arriving j) := by
    intro j
    rw [SessionState.arriving, hpend j, ← List.append_assoc]
    refine List.Sublist.append_right ?_ _
    cases out with
    | none => simp [History.work]
    | some e =>
        have hwrote : (s.history.work i (some e) written).writtenBy j
            = s.history.writtenBy j ++
              (written.filterMap (Output.dataFor j)).map (fun _ => e) :=
          s.history.writtenBy_append e written j
        rw [hwrote, hwritten]
        refine List.Sublist.append_left ?_ _
        simpa using outputs_writtenBy l.route i j e
  have hnil : (∀ j, s.pipeline.crossbar.pendingAt j = []) → ∀ j, x.pendingAt j = [] := by
    intro hnone j
    have hj := hpend j
    rw [hnone j] at hj
    exact (List.append_eq_nil_iff.1 hj.symm).2
  unfold OrderInv at h ⊢
  cases hphase : s.phase with
  | idle =>
      rw [hphase] at h
      exact ⟨fun j => (hle j).trans (h.1 j), fun hq => hnil (h.2 hq)⟩
  | dispatching e mask k rest buffer =>
      rw [hphase] at h
      exact ⟨h.1.mono hle, hnil h.2⟩
  | crossbar c after =>
      rw [hphase] at h
      cases c with
      | submitting e mask k => exact ⟨h.1.mono hle, h.2⟩
      | closing drain k => exact ⟨fun j => (hle j).trans (h.1 j), h.2⟩
      | joining drain k => exact ⟨fun j => (hle j).trans (h.1 j), h.2⟩

theorem OrderInv.advance (h : OrderInv s) (hstep : s.advance = some s') : OrderInv s' := by
  rcases SessionState.advance_cases hstep with ⟨e, mask, k, rest, buffer, hphase, rfl⟩ |
    ⟨e, mask, k, rest, buffer, rest', buffer', out, hphase, hout, rfl⟩ |
    ⟨c, after, x, phase', push, hphase, hround, rfl⟩
  · unfold OrderInv at h
    rw [hphase] at h
    exact ⟨h.1.sublist, fun _ => h.2⟩
  · unfold OrderInv at h
    rw [hphase] at h
    refine ⟨h.1.next (fun i => ?_), h.2⟩
    have hwrote := s.history.writtenBy_append e out i
    simp only [SessionState.arriving, hwrote, h.2 i, List.append_nil]
    refine List.Sublist.append_left ?_ _
    rcases hout with rfl | ⟨r, rfl⟩
    · exact List.nil_sublist _
    · exact outputs_writtenBy r k i e
  · have hpend := hround.pendingAt_sublist
    unfold OrderInv at h
    rw [hphase] at h
    cases hround with
    | deliver e mask k l l' ok hl hk hsel hsub =>
        refine ⟨h.1.next (fun i => ?_), h.2⟩
        show ((s.history.accept _).writtenBy i ++ SinkCrossbar.pendingAt _ i).Sublist _
        rw [History.accept_writtenBy, SessionState.arriving, List.append_assoc]
        refine List.Sublist.append_left ((hpend i).trans (List.Sublist.append_left ?_ _)) _
        cases ok <;> simp [pushedAt]
    | skip e mask k hsel =>
        refine ⟨h.1.next (fun i => ?_), h.2⟩
        exact List.sublist_append_left _ _
    | submitted e mask k hk =>
        -- the pipeline accepts and is asynchronous, so the lanes need not be empty
        obtain ⟨hreached, rfl, hacc, hasync⟩ := h
        refine ⟨hreached.sublist, fun hq => ?_⟩
        rcases hq with hq | hq
        · exact absurd (hacc.symm.trans hq) (by simp)
        · exact absurd (hasync.symm.trans hq) (by simp)
    | signal drain k l hl =>
        refine ⟨fun i => ?_, h.2⟩
        have hi := hpend i
        simp only [pushedAt, List.append_nil] at hi
        exact (List.Sublist.append_left hi _).trans (h.1 i)
    | signalled drain k hk => exact h
    | join drain k l hl hfin =>
        refine ⟨fun i => ?_, h.2⟩
        have hi := hpend i
        simp only [pushedAt, List.append_nil] at hi
        exact (List.Sublist.append_left hi _).trans (h.1 i)
    | joined drain k hk =>
        refine OrderInv.of_result h.2 rfl rfl (fun i => ?_)
        exact (List.sublist_append_left _ _).trans (h.1 i)

theorem OrderInv.stop (h : OrderInv s) (hidle : s.phase = .idle) (drain : Bool) :
    OrderInv ({ s with closed := false }.stop drain) := by
  unfold OrderInv at h
  rw [hidle] at h
  rcases SessionState.stop_cases { s with closed := false } drain with
    ⟨-, -, p, heq, -⟩ | heq
  · have hnew : AfterCall.renew drain ≠ .done := by simp
    rw [heq]
    exact OrderInv.of_result hnew rfl rfl
      (fun i => (List.sublist_append_left _ _).trans (h.1 i))
  · rw [heq]
    refine ⟨fun i => ?_, by simp⟩
    rw [SessionState.arriving, SinkCrossbar.beginStop_pendingAt]
    exact h.1 i

theorem OrderInv.reconfigure (h : OrderInv s) (hidle : s.phase = .idle) {p : Pipeline}
    (hx : p.crossbar = s.pipeline.crossbar) (routes : List Route) :
    OrderInv ({ s with closed := false }.reconfigure p routes) := by
  unfold OrderInv at h
  rw [hidle] at h
  rcases SessionState.reconfigure_cases { s with closed := false } p routes with
    ⟨-, heq⟩ | ⟨-, heq⟩
  · rw [heq]
    refine ⟨fun i => ?_, by simp⟩
    rw [SessionState.arriving, SinkCrossbar.beginStop_pendingAt, hx]
    exact h.1 i
  · -- a crossbar that does not run is rebuilt at once
    have hpend : ∀ i, (p.updateCrossbar routes).crossbar.pendingAt i = [] :=
      SinkCrossbar.pendingAt_eq_nil (fun l hl => SinkCrossbar.rebuild_pending hl)
    rw [heq]
    unfold OrderInv
    simp only [hidle]
    refine ⟨fun i => ?_, fun _ => hpend⟩
    rw [SessionState.arriving, hpend i, List.append_nil]
    exact (List.sublist_append_left _ _).trans (h.1 i)

theorem OrderInv.submit (h : OrderInv s) (hidle : s.phase = .idle) {e : Event} {forceSync : Bool}
    (hforce : forceSync = false) (hprio : e.severityPriority < Severity.fatal.priority) :
    OrderInv ({ s with closed := false }.submit platform e forceSync) := by
  unfold OrderInv at h
  rw [hidle] at h
  have hgrow : ∀ i, (s.arriving i).Sublist (s.submitted ++ [e]) :=
    fun i => (h.1 i).trans (List.sublist_append_left _ _)
  obtain ⟨p', hx, -, hacc, hcfg, hcases⟩ :=
    SessionState.submit_cases platform { s with closed := false } e forceSync
  rcases hcases with ⟨out, hout, heq⟩ | ⟨mask, rest, heq, hwhy⟩ | ⟨mask, heq, hasync, haccept⟩
  · rw [heq]
    unfold OrderInv
    simp only [hidle]
    refine ⟨fun i => ?_, fun hq i => ?_⟩
    · have hwrote := s.history.writtenBy_append e out i
      rw [dataFor_eq_nil hout, List.map_nil, List.append_nil] at hwrote
      rw [SessionState.arriving, hwrote, hx]
      exact hgrow i
    · rw [hacc, hcfg] at hq
      rw [hx]
      exact h.2 hq i
  · -- on the calling thread, which overtakes nothing: the lanes are empty in these modes
    rw [heq]
    have hquiet : ∀ i, s.pipeline.crossbar.pendingAt i = [] := by
      rcases hwhy with ha | ha | hf | hp
      · exact h.2 (Or.inr ha)
      · exact h.2 (Or.inl ha)
      · exact absurd (hf.symm.trans hforce) (by simp)
      · exact absurd hp (UInt16.not_le.2 hprio)
    refine ⟨⟨s.submitted, rfl, fun i => ?_⟩, fun i => ?_⟩
    · rw [if_neg (Nat.not_lt_zero i), SessionState.arriving, hx]
      exact h.1 i
    · rw [hx]
      exact hquiet i
  · rw [heq]
    refine ⟨⟨s.submitted, rfl, fun i => ?_⟩, rfl, hacc.trans haccept, ?_⟩
    · rw [if_neg (Nat.not_lt_zero i), SessionState.arriving, hx]
      exact h.1 i
    · rw [hcfg]
      exact hasync

theorem OrderInv.step {label : SessionLabel} (h : OrderInv s) (hok : s.unforced label = true)
    (hstep : (session platform).next s label = some s') : OrderInv s' := by
  cases sessionStep_of_next hstep with
  | advance hadv => exact h.advance hadv
  | work i act x out written hwork => exact h.work hwork
  | addRoute r hidle => exact h.reconfigure hidle (p := s.pipeline.pushRoute r) rfl _
  | clearRoutes hidle => exact h.reconfigure hidle (p := s.pipeline.dropRoutes) rfl _
  | close hidle => exact h.stop hidle true
  | requestStop hidle => exact h.stop hidle false
  | submit e forceSync hidle =>
      simp only [SessionState.unforced, Bool.and_eq_true, Bool.not_eq_true',
        decide_eq_true_eq] at hok
      exact h.submit hidle hok.1 hok.2
  | configure cfg hidle =>
      simp only [SessionState.unforced, Bool.not_eq_true'] at hok
      unfold OrderInv at h
      rw [hidle] at h
      have hpend : ∀ i, (s.pipeline.configure cfg).crossbar.pendingAt i = [] := by
        refine SinkCrossbar.pendingAt_eq_nil (fun l hl => ?_)
        simp only [Pipeline.configure, hok, Bool.not_false, if_true] at hl
        exact SinkCrossbar.rebuild_pending hl
      unfold OrderInv
      simp only [hidle]
      refine ⟨fun i => ?_, fun _ => hpend⟩
      rw [SessionState.arriving, hpend i, List.append_nil]
      exact (List.sublist_append_left _ _).trans (h.1 i)
  | start hidle =>
      unfold OrderInv at h
      rw [hidle] at h
      have hle := s.pipeline.start_pendingAt_sublist
      unfold OrderInv
      simp only [hidle]
      refine ⟨fun i => (List.Sublist.append_left (hle i) _).trans (h.1 i), fun hq i => ?_⟩
      rw [s.pipeline.start_accepting, s.pipeline.start_cfg] at hq
      have hnone := h.2 (Or.inr (hq.resolve_left (by simp))) i
      exact List.sublist_nil.1 (hnone ▸ hle i)

/-- **Per-route order survives every lifecycle change.** The events written on behalf of a route
    form a subsequence of the submitted events, in the order of submission. -/
theorem route_order
    (hs : (session platform).ReachableBy (fun s label => s.unforced label = true) s) (i : Nat) :
    (s.history.writtenBy i).Sublist s.submitted := by
  have hinit : ∀ s : SessionState, (session platform).init s → OrderInv s := by
    rintro _ rfl
    exact ⟨fun i => List.Sublist.refl _, fun _ i => rfl⟩
  have hinv : OrderInv s := hs.invariant hinit (fun _ _ _ h hok hstep => h.step hok hstep)
  have harriving : (s.arriving i).Sublist s.submitted := by
    unfold OrderInv at hinv
    cases hphase : s.phase with
    | idle =>
        rw [hphase] at hinv
        exact hinv.1 i
    | dispatching e mask k rest buffer =>
        rw [hphase] at hinv
        exact hinv.1.sublist i
    | crossbar c after =>
        rw [hphase] at hinv
        cases c with
        | submitting e mask k => exact hinv.1.sublist i
        | closing drain k => exact hinv.1 i
        | joining drain k => exact hinv.1 i
  exact (List.sublist_append_left _ _).trans harriving

/-- The first event goes through the lane, the second one is delivered after the close. -/
theorem route_order_across_close :
    ∃ s : SessionState,
      s.submitted = [{ message := bytes "hi" }, { message := bytes "ho" }] ∧
      s.history.writtenBy 0 = s.submitted ∧ (s.history.writtenBy 0).Sublist s.submitted := by
  have hinit : (session { localtime := fun _ => ⟨0, 0, 0, 0, 0, 0⟩ }).ReachableBy
      (fun s label => s.unforced label = true) {} := .init rfl
  have hs := hinit.runBy [.addRoute { sinkRef := some 7 }, .start,
    .submit { message := bytes "hi" } false, .advance, .advance, .work 0 .run, .work 0 .run,
    .work 0 .run, .work 0 .run, .close, .advance, .advance, .work 0 .giveUp, .work 0 .run,
    .work 0 .run, .advance, .advance, .submit { message := bytes "ho" } false, .advance,
    .advance] rfl
  exact ⟨_, rfl, by decide, route_order hs 0⟩

end SyLog
