import SyLog.Session
import SyLog.Concurrency.Lifecycle

set_option autoImplicit false

/-! # The calls of a session as a whole

A session takes a call apart into steps, with the workers in between; `SyLog.Pipeline` gives the
same call as one function. The two agree. Whatever the workers do during a lifecycle call, once it
has returned the pipeline is what the function computes (`lifecycle_call_returns`); a `submit` is
the function if the workers leave it alone (`submit_alone`). -/

namespace SyLog

variable {platform : Platform} {s s' : SessionState} {p : Pipeline}

/-! ## Lifecycle calls -/

/-- The label with which a session makes the call. -/
def LifecycleCall.label : LifecycleCall → SessionLabel
  | .configure cfg => .configure cfg
  | .addRoute r => .addRoute r
  | .clearRoutes => .clearRoutes
  | .start => .start
  | .close => .close
  | .requestStop => .requestStop

/-- The rest of a call that stops lanes overwrites the crossbar that it has stopped. -/
theorem AfterCall.result_crossbar {after : AfterCall} (hstops : after ≠ .done) (p : Pipeline)
    (x : SinkCrossbar Event) : after.result { p with crossbar := x } = after.result p := by
  cases after with
  | done => exact absurd rfl hstops
  | rebuild routes => rfl
  | renew drain => rfl

/-- A lifecycle call has returned and left the pipeline as `p`, or is stopping lanes and will. -/
inductive Returns (p : Pipeline) (s : SessionState) : Prop
  | returned (hphase : s.phase = .idle) (h : s.pipeline = p)
  | stopping (c : CrossbarPhase Event) (after : AfterCall) (hphase : s.phase = .crossbar c after)
      (hstops : after ≠ .done) (h : after.result s.pipeline = p)

theorem Returns.resume {after : AfterCall} (phase : Option (CrossbarPhase Event))
    (hstops : after ≠ .done) (h : after.result s.pipeline = p) :
    Returns p (s.resume phase after) := by
  cases phase with
  | none => exact .returned rfl h
  | some c => exact .stopping c after rfl hstops h

theorem Returns.reconfigure (hidle : s.phase = .idle) (q : Pipeline) (routes : List Route) :
    Returns (q.updateCrossbar routes) (s.reconfigure q routes) := by
  rcases s.reconfigure_cases q routes with ⟨hrun, heq⟩ | ⟨-, heq⟩
  · rw [heq]
    refine .stopping _ _ rfl (by simp) ?_
    simp [AfterCall.result, Pipeline.updateCrossbar, SinkCrossbar.configure, SinkCrossbar.rebuild,
      hrun]
  · rw [heq]
    exact .returned hidle rfl

theorem Returns.call {c : LifecycleCall} (h : SessionStep platform s c.label s') :
    Returns (c.alone s.pipeline) s' := by
  cases c with
  | configure cfg =>
      cases h with
      | configure _ hidle => exact .returned hidle rfl
  | addRoute r =>
      cases h with
      | addRoute _ hidle =>
          exact .reconfigure (s := { s with closed := false }) hidle _ _
  | clearRoutes =>
      cases h with
      | clearRoutes hidle =>
          exact .reconfigure (s := { s with closed := false }) hidle _ _
  | start =>
      cases h with
      | start hidle => exact .returned hidle rfl
  | close =>
      cases h with
      | close hidle => exact .resume _ (by simp) rfl
  | requestStop =>
      cases h with
      | requestStop hidle => exact .resume _ (by simp) rfl

/-- While the call has not returned only its own rounds and worker steps are possible, and neither
    changes what it will leave behind. -/
theorem Returns.step {label : SessionLabel} (h : Returns p s) (hbusy : s.phase ≠ .idle)
    (hstep : SessionStep platform s label s') : Returns p s' := by
  cases h with
  | returned hphase _ => exact absurd hphase hbusy
  | stopping c after hphase hstops hresult =>
      cases hstep with
      | advance hadv =>
          rcases SessionState.advance_cases hadv with ⟨e, mask, i, rest, buffer, hp, -⟩ |
            ⟨e, mask, i, rest, buffer, rest', buffer', out, hp, -⟩ |
            ⟨c', after', x, phase', push, hp, -, rfl⟩
          · exact absurd (hphase.symm.trans hp) (by simp)
          · exact absurd (hphase.symm.trans hp) (by simp)
          · obtain ⟨rfl, rfl⟩ : c = c' ∧ after = after' := by
              simpa using hphase.symm.trans hp
            exact .resume phase' hstops ((AfterCall.result_crossbar hstops _ x).trans hresult)
      | work i act x out written hwork =>
          exact .stopping c after hphase hstops
            ((AfterCall.result_crossbar hstops _ x).trans hresult)
      | _ => exact absurd ‹s.phase = .idle› hbusy

/-- A call goes on until it returns, its own rounds and worker steps in any order. -/
inductive CallRun (platform : Platform) : SessionState → SessionState → Prop
  | returned {s : SessionState} (hidle : s.phase = .idle) : CallRun platform s s
  | step {s s' t : SessionState} (label : SessionLabel) (hbusy : s.phase ≠ .idle)
      (h : (session platform).next s label = some s') (hrest : CallRun platform s' t) :
      CallRun platform s t

/-- **A lifecycle call does what the pipeline's function computes**, however the workers act before
    it returns. -/
theorem lifecycle_call_returns {c : LifecycleCall} {t : SessionState}
    (hcall : (session platform).next s c.label = some s') (hrun : CallRun platform s' t) :
    t.phase = .idle ∧ t.pipeline = c.alone s.pipeline := by
  have hreturns : Returns (c.alone s.pipeline) s' := .call (sessionStep_of_next hcall)
  clear hcall
  induction hrun with
  | returned hidle =>
      cases hreturns with
      | returned _ h => exact ⟨hidle, h⟩
      | stopping _ _ hphase => exact absurd (hphase.symm.trans hidle) (by simp)
  | step label hbusy h _ ih => exact ih (hreturns.step hbusy (sessionStep_of_next h))

/-! ## Submitting -/

theorem run_advance {n : Nat} {t : SessionState} (hadv : s.advance = some s')
    (hrun : (session platform).run s' (List.replicate n .advance) = some t) :
    (session platform).run s (List.replicate (n + 1) .advance) = some t := by
  rw [List.replicate_succ, Machine.run]
  exact Option.bind_eq_some_iff.2 ⟨s', hadv, hrun⟩

/-- The rounds of a `dispatch_sync_` write what the loop writes from there on. -/
theorem dispatching_alone (platform : Platform) {e : Event} {mask : RouteMask} {i : Nat}
    {rest : List Route} {buffer : Bytes} (hphase : s.phase = .dispatching e mask i rest buffer) :
    ∃ n, (session platform).run s (List.replicate n .advance)
      = some { s with phase := .idle
                      history := { s.history with
                        trace := s.history.trace ++
                          (dispatchLoop e mask i rest buffer).map (e, ·) } } := by
  induction rest generalizing s i buffer with
  | nil =>
      have hadv : s.advance = some { s with phase := .idle } := by
        simp [SessionState.advance, hphase]
      exact ⟨1, run_advance hadv (by simp [Machine.run, dispatchLoop])⟩
  | cons r rest ih =>
      by_cases hi : i < 64
      · cases hsel : selects mask i with
        | false =>
            have hadv : s.advance
                = some { s with phase := .dispatching e mask (i + 1) rest buffer } := by
              simp [SessionState.advance, hphase, hi, hsel]
            obtain ⟨n, hn⟩ := ih
              (s := { s with phase := .dispatching e mask (i + 1) rest buffer }) rfl
            refine ⟨n + 1, (run_advance hadv hn).trans ?_⟩
            simp [dispatchLoop, hi, hsel]
        | true =>
            let s₁ : SessionState :=
              { s with
                phase := .dispatching e mask (i + 1) rest (dispatchRoute r i e buffer).1
                history := { s.history with
                  trace := s.history.trace ++ (dispatchRoute r i e buffer).2.map (e, ·) } }
            have hadv : s.advance = some s₁ := by
              simp [SessionState.advance, hphase, hi, hsel, s₁]
            obtain ⟨n, hn⟩ := ih (s := s₁) rfl
            refine ⟨n + 1, (run_advance hadv hn).trans ?_⟩
            simp [dispatchLoop, hi, hsel, s₁]
      · have hadv : s.advance = some { s with phase := .idle } := by
          simp [SessionState.advance, hphase, hi]
        exact ⟨1, run_advance hadv (by simp [Machine.run, dispatchLoop, hi])⟩

/-- A round of a crossbar call, after which the call goes on (`some`) or has returned. -/
theorem advance_crossbar {c : CrossbarPhase Event} {after : AfterCall} {x : SinkCrossbar Event}
    {phase : Option (CrossbarPhase Event)} {push : Option (Nat × Event)}
    (hphase : s.phase = .crossbar c after)
    (hround : s.pipeline.crossbar.advance s.pipeline.accepting c = some (x, phase, push)) :
    s.advance = some (SessionState.resume
      { s with pipeline := { s.pipeline with crossbar := x }, history := s.history.accept push }
      phase after) := by
  simp [SessionState.advance, hphase, hround]

/-- Left alone, the thread finishes its `SinkCrossbar::submit` and leaves these lanes. -/
def SubmitsTo (platform : Platform) (s : SessionState) (lanes : List (Lane Event)) : Prop :=
  ∃ n history, (session platform).run s (List.replicate n .advance)
      = some { s with phase := .idle, closed := false, history
                      pipeline := { s.pipeline with
                        crossbar := { s.pipeline.crossbar with lanes } } } ∧
    history.trace = s.history.trace ∧ history.processed = s.history.processed

theorem SubmitsTo.returned {c : CrossbarPhase Event} (hphase : s.phase = .crossbar c .done)
    (hround : s.pipeline.crossbar.advance s.pipeline.accepting c
      = some (s.pipeline.crossbar, none, none)) :
    SubmitsTo platform s s.pipeline.crossbar.lanes :=
  ⟨1, s.history, run_advance (advance_crossbar hphase hround) rfl, rfl, rfl⟩

/-- A round changes the lanes, may push, and the call goes on. -/
theorem SubmitsTo.round {c next : CrossbarPhase Event} {lanes lanes' : List (Lane Event)}
    {push : Option (Nat × Event)} (hphase : s.phase = .crossbar c .done)
    (hround : s.pipeline.crossbar.advance s.pipeline.accepting c
      = some ({ s.pipeline.crossbar with lanes }, some next, push))
    (hrest : SubmitsTo platform
      { s with phase := .crossbar next .done, history := s.history.accept push
               pipeline := { s.pipeline with
                 crossbar := { s.pipeline.crossbar with lanes } } } lanes') :
    SubmitsTo platform s lanes' := by
  obtain ⟨n, history, hn, htrace, hprocessed⟩ := hrest
  exact ⟨n + 1, history, run_advance (advance_crossbar hphase hround) hn,
    htrace.trans (History.accept_trace _ _), hprocessed.trans (History.accept_processed _ _)⟩

/-- The rounds of `SinkCrossbar::submit` leave the lanes as its loop does. -/
theorem submitting_alone (platform : Platform) {e : Event} {mask : RouteMask}
    (done : List (Lane Event)) {rest rest' : List (Lane Event)} {any : Bool}
    (hphase : s.phase = .crossbar (.submitting e mask done.length) .done)
    (hlanes : s.pipeline.crossbar.lanes = done ++ rest)
    (hsub : SinkCrossbar.submitLoop e mask s.pipeline.accepting done.length rest
      = some (rest', any)) : SubmitsTo platform s (done ++ rest') := by
  induction rest generalizing s done rest' any with
  | nil =>
      obtain ⟨rfl, -⟩ := Prod.mk.inj (Option.some.inj hsub)
      rw [← hlanes]
      exact .returned hphase (by simp [SinkCrossbar.advance, hlanes])
  | cons l rest ih =>
      have hl : s.pipeline.crossbar.lanes[done.length]? = some l := by simp [hlanes]
      -- the lanes before the next one are `done` and this lane, as the round leaves it
      have hnext : ∀ (l' : Lane Event) (push : Option (Nat × Event)) (after : List (Lane Event))
          (more : Bool),
          s.pipeline.crossbar.advance s.pipeline.accepting (.submitting e mask done.length)
            = some ({ s.pipeline.crossbar with lanes := done ++ l' :: rest },
                some (.submitting e mask (done.length + 1)), push) →
          SinkCrossbar.submitLoop e mask s.pipeline.accepting (done.length + 1) rest
            = some (after, more) →
          SubmitsTo platform s (done ++ l' :: after) := by
        intro l' push after more hround hrest
        have hlen : (done ++ [l']).length = done.length + 1 := by simp
        have hsplit : ∀ ls, done ++ l' :: ls = (done ++ [l']) ++ ls := fun ls => by simp
        refine .round hphase hround ?_
        rw [hsplit after]
        exact ih (done ++ [l']) (by rw [hlen]) (hsplit rest) (by rw [hlen]; exact hrest)
      rw [SinkCrossbar.submitLoop] at hsub
      by_cases hi : done.length < 64
      · rw [if_pos hi] at hsub
        cases hsel : selects mask done.length with
        | true =>
            rw [if_pos hsel] at hsub
            obtain ⟨⟨l', ok⟩, hpush, hsub⟩ := Option.bind_eq_some_iff.1 hsub
            obtain ⟨⟨after, more⟩, hrest, hsub⟩ := Option.bind_eq_some_iff.1 hsub
            obtain ⟨rfl, -⟩ := Prod.mk.inj (Option.some.inj hsub)
            refine hnext l' (if ok then some (done.length, e) else none) after more ?_ hrest
            simp [SinkCrossbar.advance, SinkCrossbar.deliverLane, hi, hsel, hpush, hlanes]
        | false =>
            rw [if_neg (by simp [hsel])] at hsub
            obtain ⟨⟨after, more⟩, hrest, hsub⟩ := Option.bind_eq_some_iff.1 hsub
            obtain ⟨rfl, -⟩ := Prod.mk.inj (Option.some.inj hsub)
            refine hnext l none after more ?_ hrest
            rw [← hlanes]
            simp [SinkCrossbar.advance, hl, hi, hsel]
      · rw [if_neg hi] at hsub
        obtain ⟨rfl, -⟩ := Prod.mk.inj (Option.some.inj hsub)
        rw [← hlanes]
        exact .returned hphase (by simp [SinkCrossbar.advance, hl, hi])

/-- **A `submit` that the workers leave alone is the pipeline's `submit`**, unless it has to wait
    for room: it leaves the pipeline that the function computes and writes what the function
    writes. -/
theorem submit_alone {e : Event} {forceSync : Bool} {out : List Output} (hidle : s.phase = .idle)
    (hsub : s.pipeline.submit platform e forceSync = some (p, out)) :
    ∃ n history, (session platform).run s (.submit e forceSync :: List.replicate n .advance)
        = some { s with phase := .idle, closed := false, history, pipeline := p
                        submitted := s.submitted ++ [e] } ∧
      history.trace = s.history.trace ++ out.map (e, ·) ∧
      history.processed = s.history.processed := by
  have hcall : (session platform).next s (.submit e forceSync)
      = some ({ s with closed := false }.submit platform e forceSync) := by
    simp [session, hidle]
  simp only [Machine.run, hcall, Option.bind_some]
  unfold Pipeline.submit at hsub
  split at hsub
  · next q written heq =>
      obtain ⟨rfl, rfl⟩ := Prod.mk.inj (Option.some.inj hsub)
      refine ⟨0, { s.history with trace := s.history.trace ++ written.map (e, ·) }, ?_, rfl, rfl⟩
      simp [Machine.run, SessionState.submit, heq, hidle]
  · next q heq =>
      obtain ⟨rfl, rfl⟩ := Prod.mk.inj (Option.some.inj hsub)
      refine ⟨0, s.history, ?_, by simp, rfl⟩
      simp [Machine.run, SessionState.submit, heq, hidle]
  · next q mask heq =>
      obtain ⟨rfl, rfl⟩ := Prod.mk.inj (Option.some.inj hsub)
      let s₁ : SessionState :=
        { s with phase := .dispatching e mask 0 q.routes [], closed := false, pipeline := q
                 submitted := s.submitted ++ [e] }
      have hs₁ : { s with closed := false }.submit platform e forceSync = s₁ := by
        simp [SessionState.submit, heq, s₁]
      obtain ⟨n, hn⟩ := dispatching_alone platform (s := s₁) rfl
      let history : History :=
        { s.history with
          trace := s.history.trace ++ (dispatchSync q.routes e mask).map (e, ·) }
      exact ⟨n, history, hs₁ ▸ hn, rfl, rfl⟩
  · next q mask heq =>
      obtain ⟨⟨x, any⟩, hx, hsub⟩ := Option.map_eq_some_iff.1 hsub
      obtain ⟨rfl, rfl⟩ := Prod.mk.inj hsub
      obtain ⟨⟨lanes, any'⟩, hloop, hx⟩ := Option.map_eq_some_iff.1 hx
      obtain ⟨rfl, rfl⟩ := Prod.mk.inj hx
      let s₁ : SessionState :=
        { s with phase := .crossbar (.submitting e mask 0) .done, closed := false, pipeline := q
                 submitted := s.submitted ++ [e] }
      have hs₁ : { s with closed := false }.submit platform e forceSync = s₁ := by
        simp [SessionState.submit, heq, s₁]
      obtain ⟨n, history, hn, htrace, hprocessed⟩ := submitting_alone platform (s := s₁) []
        rfl rfl hloop
      exact ⟨n, history, hs₁ ▸ hn, by simpa using htrace, hprocessed⟩

end SyLog
