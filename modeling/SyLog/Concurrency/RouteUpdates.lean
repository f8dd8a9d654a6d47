import SyLog.Concurrency.Lifecycle

set_option autoImplicit false

/-! # Route updates by several threads

`add_route`, `clear_routes`, `configure`, `close` and `request_stop` copy the routes under `state_m`
and hand the copy to the crossbar under `worker_m`. Between the two, another call may change the
routes and hand over its own copy, which the first then overwrites with an older one.

The lanes serve the pipeline's routes as long as some call in flight still owes the current list to
the crossbar. `LosesUpdate` is the step after which none does. -/

namespace SyLog

/-- The call will hand the list that is current when it does so to a crossbar, or holds a copy that
    is still current. A `configure` that has not read `running` yet only does if it finds
    `false`. -/
def CallPhase.Owes (p : Pipeline) : CallPhase → Prop
  | .idle | .starting => False
  | .configuring _ | .testing => p.running = false
  | .installing _ snapshot | .updating snapshot => snapshot = p.routes
  | _ => True

/-- The step leaves the lanes without the pipeline's routes and no call to bring them: an outdated
    copy is handed over and no other call owes the current list; or `start` makes the pending
    `configure` calls return early, and no other call owes the list that the lanes lack. -/
def LifecycleState.LosesUpdate (s : LifecycleState) : LifecycleStep → Prop
  | .advance t =>
    match s.calls t with
    | .installing _ snapshot | .updating snapshot =>
      snapshot ≠ s.pipeline.routes ∧ ∀ t', t' ≠ t → ¬ (s.calls t').Owes s.pipeline
    | .starting =>
      s.pipeline.crossbar.routes ≠ s.pipeline.routes ∧
        ∀ t', ¬ (s.calls t').Owes { s.pipeline with running := true }
    | _ => False
  | _ => False

/-- The lanes serve the pipeline's routes, or some call owes them. -/
def LifecycleState.UpdateOwed (s : LifecycleState) : Prop :=
  s.pipeline.crossbar.routes = s.pipeline.routes ∨ ∃ t, (s.calls t).Owes s.pipeline

/-- What a call owes depends on the routes and on `running`, and `running` only matters to a
    `configure`: what is owed to a running pipeline is owed to a stopped one. -/
theorem CallPhase.Owes.mono {p p' : Pipeline} {phase : CallPhase} (h : phase.Owes p)
    (hroutes : p'.routes = p.routes) (hrun : p.running = false → p'.running = false) :
    phase.Owes p' := by
  cases phase with
  | idle => exact h
  | starting => exact h
  | configuring cfg => exact hrun h
  | testing => exact hrun h
  | installing reopen snapshot => exact Eq.trans h hroutes.symm
  | updating snapshot => exact Eq.trans h hroutes.symm
  | _ => trivial

/-! ## What a section does for the routes -/

/-- A section of a call other than `start` ends with the lanes serving the routes, or with the call
    owing them; or it changes neither the routes nor the lanes' and does not set `running`, and
    gives up only what it did not owe; or it hands over an outdated copy. -/
inductive SectionUpdates (p p' : Pipeline) (phase phase' : CallPhase) : Prop
  | served (h : p'.crossbar.routes = p'.routes)
  | owing (h : phase'.Owes p')
  | quiet (hroutes : p'.routes = p.routes) (hlanes : p'.crossbar.routes = p.crossbar.routes)
      (hrun : p.running = false → p'.running = false) (hself : ¬ phase.Owes p)
  | outdated (snapshot : List Route) (hphase : phase = .updating snapshot ∨
      ∃ reopen, phase = .installing reopen snapshot) (hne : snapshot ≠ p.routes)
      (hroutes : p'.routes = p.routes) (hrun : p.running = false → p'.running = false)

theorem sectionUpdates {p p' : Pipeline} {phase phase' : CallPhase}
    (h : p.runSection phase = some (p', phase')) (hstart : phase ≠ .starting) :
    SectionUpdates p p' phase phase' := by
  cases phase with
  | idle => exact absurd h (by simp [Pipeline.runSection])
  | starting => exact absurd rfl hstart
  | configuring cfg =>
      obtain ⟨rfl, rfl⟩ := Prod.mk.inj (Option.some.inj h)
      by_cases hrun : p.running = false
      · exact .owing hrun
      · exact .quiet rfl rfl id hrun
  | testing =>
      -- a `configure` that finds the pipeline running hands nothing over
      obtain ⟨rfl, rfl⟩ := Prod.mk.inj (Option.some.inj h)
      cases hrun : p.running with
      | false => exact .owing trivial
      | true => exact .quiet rfl rfl id (by simp [CallPhase.Owes, hrun])
  | addingRoute r =>
      obtain ⟨rfl, rfl⟩ := Prod.mk.inj (Option.some.inj h)
      exact .owing rfl
  | clearingRoutes =>
      obtain ⟨rfl, rfl⟩ := Prod.mk.inj (Option.some.inj h)
      exact .owing rfl
  | refusing drain =>
      obtain ⟨rfl, rfl⟩ := Prod.mk.inj (Option.some.inj h)
      exact .owing trivial
  | stopping drain =>
      obtain ⟨rfl, rfl⟩ := Prod.mk.inj (Option.some.inj h)
      exact .owing trivial
  | flushing =>
      obtain ⟨rfl, rfl⟩ := Prod.mk.inj (Option.some.inj h)
      exact .owing trivial
  | copying reopen =>
      obtain ⟨rfl, rfl⟩ := Prod.mk.inj (Option.some.inj h)
      exact .owing rfl
  | installing reopen snapshot =>
      obtain ⟨rfl, rfl⟩ := Prod.mk.inj (Option.some.inj h)
      have hlanes : (p.installCrossbar snapshot).crossbar.routes = snapshot :=
        SinkCrossbar.configure_routes _ _ _
      by_cases hsnap : snapshot = p.routes
      · exact .served (hlanes.trans hsnap)
      · exact .outdated snapshot (Or.inr ⟨reopen, rfl⟩) hsnap rfl id
  | updating snapshot =>
      obtain ⟨rfl, rfl⟩ := Prod.mk.inj (Option.some.inj h)
      have hlanes : (p.updateCrossbar snapshot).crossbar.routes = snapshot :=
        SinkCrossbar.configure_routes _ _ _
      by_cases hsnap : snapshot = p.routes
      · exact .served (hlanes.trans hsnap)
      · exact .outdated snapshot (Or.inl rfl) hsnap rfl id

theorem UpdateOwed.advance {s s' : LifecycleState} {t : Nat} (h : s.UpdateOwed)
    (hok : ¬ s.LosesUpdate (.advance t)) (hstep : lifecycle.next s (.advance t) = some s') :
    s'.UpdateOwed := by
  obtain ⟨⟨p, phase⟩, hsec, rfl⟩ := Option.map_eq_some_iff.1 hstep
  by_cases hstart : s.calls t = .starting
  · rw [hstart] at hsec
    obtain ⟨rfl, rfl⟩ := Prod.mk.inj (Option.some.inj hsec)
    have hlose : ¬ (s.pipeline.crossbar.routes ≠ s.pipeline.routes ∧
        ∀ t', ¬ (s.calls t').Owes { s.pipeline with running := true }) := by
      simpa [LifecycleState.LosesUpdate, hstart] using hok
    by_cases hsame : s.pipeline.crossbar.routes = s.pipeline.routes
    · left
      rw [s.pipeline.start_crossbar_routes, s.pipeline.start_routes, hsame]
    · -- some call owes the list even to a running pipeline
      have howed : ∃ t', (s.calls t').Owes { s.pipeline with running := true } := by
        by_contra hnone
        exact hlose ⟨hsame, not_exists.1 hnone⟩
      refine Machine.exists_update_or (CallPhase.Owes { s.pipeline with running := true })
        (CallPhase.Owes s.pipeline.start) howed (fun hself => ?_) (fun i _ hi => ?_)
      · simp [hstart, CallPhase.Owes] at hself
      · exact hi.mono s.pipeline.start_routes (fun hrun => by simp at hrun)
  · cases sectionUpdates hsec hstart with
    | served hserved => exact Or.inl hserved
    | owing howing => exact Or.inr ⟨t, by simpa using howing⟩
    | quiet hroutes hlanes hrun hself =>
        rcases h with hsame | howed
        · exact Or.inl (by rw [hlanes, hroutes, hsame])
        · exact Machine.exists_update_or (CallPhase.Owes s.pipeline) (CallPhase.Owes p) howed
            (fun hs => absurd hs hself) (fun i _ hi => hi.mono hroutes hrun)
    | outdated snapshot hphase hne hroutes hrun =>
        -- the step loses no update, so another call still owes the current list
        have howed : ∃ t', t' ≠ t ∧ (s.calls t').Owes s.pipeline := by
          by_contra hnone
          refine hok ?_
          have hothers : ∀ t', t' ≠ t → ¬ (s.calls t').Owes s.pipeline :=
            fun t' ht' ho => hnone ⟨t', ht', ho⟩
          rcases hphase with hphase | ⟨reopen, hphase⟩
          all_goals simpa [LifecycleState.LosesUpdate, hphase] using ⟨hne, hothers⟩
        obtain ⟨t', ht', ho⟩ := howed
        exact Or.inr ⟨t', by simpa [ht'] using ho.mono hroutes hrun⟩

theorem UpdateOwed.step {s s' : LifecycleState} {step : LifecycleStep} (h : s.UpdateOwed)
    (hok : ¬ s.LosesUpdate step) (hstep : lifecycle.next s step = some s') : s'.UpdateOwed := by
  cases step with
  | call t c =>
      simp only [lifecycle] at hstep
      split at hstep
      · next hidle =>
          obtain rfl := Option.some.inj hstep
          refine h.imp_right (fun howed => ?_)
          obtain ⟨t', ht'⟩ := howed
          have hne : t' ≠ t := by
            rintro rfl
            simp [hidle, CallPhase.Owes] at ht'
          exact ⟨t', by simpa [hne] using ht'⟩
      · exact absurd hstep (by simp)
  | advance t => exact UpdateOwed.advance h hok hstep
  | work i act =>
      obtain ⟨⟨x, out⟩, hwork, rfl⟩ := Option.map_eq_some_iff.1 hstep
      obtain ⟨l, l', hl, hlane, rfl⟩ := SinkCrossbar.workLane_cases hwork
      have hroutes := SinkCrossbar.routes_set hl hlane.frame.1
      exact h.imp (fun hsame => hroutes.trans hsame)
        (fun howed => howed.imp (fun t ht => ht.mono rfl id))
  | deliver i e =>
      obtain ⟨⟨x, ok⟩, hdel, rfl⟩ := Option.map_eq_some_iff.1 hstep
      obtain ⟨l, l', hl, hsub, rfl⟩ := SinkCrossbar.deliverLane_cases hdel
      obtain ⟨q, rfl, -⟩ := Lane.submit_frame hsub
      have hroutes :=
        SinkCrossbar.routes_set hl (show { l with queue := q }.route = l.route from rfl)
      exact h.imp (fun hsame => hroutes.trans hsame)
        (fun howed => howed.imp (fun t ht => ht.mono rfl id))

/-- **No route update is lost.** If no step loses an update, then whenever all calls have returned
    the crossbar's lanes serve exactly the pipeline's routes, so bit `i` of a mask names lane
    `i`. -/
theorem lanes_serve_routes {s : LifecycleState}
    (hs : lifecycle.ReachableBy (fun s step => ¬ s.LosesUpdate step) s)
    (hidle : ∀ t, s.calls t = .idle) :
    s.pipeline.crossbar.routes = s.pipeline.routes ∧
      ∀ i : Nat, (s.pipeline.crossbar.lanes[i]?).map Lane.route = s.pipeline.routes[i]? := by
  have hinit : ∀ s : LifecycleState, lifecycle.init s → s.UpdateOwed := by
    rintro _ rfl
    exact Or.inl rfl
  have howed : s.UpdateOwed :=
    hs.invariant hinit (fun _ _ _ h hok hstep => UpdateOwed.step h hok hstep)
  have hroutes : s.pipeline.crossbar.routes = s.pipeline.routes := by
    rcases howed with hsame | ⟨t, ht⟩
    · exact hsame
    · simp [hidle t, CallPhase.Owes] at ht
  refine ⟨hroutes, fun i => ?_⟩
  rw [← hroutes, SinkCrossbar.routes, List.getElem?_map]

theorem lanes_serve_routes_after_addRoute :
    ∃ s : LifecycleState, s.pipeline.routes ≠ [] ∧
      s.pipeline.crossbar.routes = s.pipeline.routes ∧
        ∀ i : Nat, (s.pipeline.crossbar.lanes[i]?).map Lane.route = s.pipeline.routes[i]? := by
  have hinit : lifecycle.ReachableBy (fun s step => ¬ s.LosesUpdate step) {} := .init rfl
  have hcall := hinit.step (l := .call 0 (.addRoute { sinkRef := some 7 }))
    (by simp [LifecycleState.LosesUpdate]) rfl
  have hpush := hcall.step (l := .advance 0)
    (by simp [LifecycleState.LosesUpdate, LifecycleCall.entry]) rfl
  have hupdate := hpush.step (l := .advance 0) (by simp [LifecycleState.LosesUpdate]) rfl
  refine ⟨_, List.cons_ne_nil _ _, lanes_serve_routes hupdate (fun t => ?_)⟩
  by_cases h0 : t = 0 <;> simp [Function.update, h0]

/-- After a step that loses an update the lanes are wrong, and no call in flight will mend them. -/
theorem not_updateOwed_of_losesUpdate {s s' : LifecycleState} {step : LifecycleStep}
    (hlose : s.LosesUpdate step) (hstep : lifecycle.next s step = some s') : ¬ s'.UpdateOwed := by
  cases step with
  | advance t =>
      obtain ⟨⟨p, phase⟩, hsec, rfl⟩ := Option.map_eq_some_iff.1 hstep
      -- an outdated copy becomes the lanes' routes; the others owe no more than before
      have hother : ∀ {snapshot : List Route} {p' : Pipeline},
          snapshot ≠ s.pipeline.routes ∧ (∀ t', t' ≠ t → ¬ (s.calls t').Owes s.pipeline) →
          p'.crossbar.routes = snapshot → p'.routes = s.pipeline.routes →
          p'.running = s.pipeline.running →
          ¬ LifecycleState.UpdateOwed ⟨p', Function.update s.calls t .idle⟩ := by
        rintro snapshot p' ⟨hne, hothers⟩ hlanes hroutes hrun (hsame | ⟨t', ht'⟩)
        · exact hne (hlanes.symm.trans (hsame.trans hroutes))
        · by_cases htt : t' = t
          · simp [htt, CallPhase.Owes] at ht'
          · refine hothers t' htt ?_
            have howes : (s.calls t').Owes p' := by simpa [htt] using ht'
            exact howes.mono hroutes.symm (fun hr => hrun.symm.trans hr)
      cases hphase : s.calls t with
      | installing reopen snapshot =>
          rw [hphase] at hsec
          obtain ⟨rfl, rfl⟩ := Prod.mk.inj (Option.some.inj hsec)
          simp only [LifecycleState.LosesUpdate, hphase] at hlose
          exact hother hlose (SinkCrossbar.configure_routes _ _ _) rfl rfl
      | updating snapshot =>
          rw [hphase] at hsec
          obtain ⟨rfl, rfl⟩ := Prod.mk.inj (Option.some.inj hsec)
          simp only [LifecycleState.LosesUpdate, hphase] at hlose
          exact hother hlose (SinkCrossbar.configure_routes _ _ _) rfl rfl
      | starting =>
          rw [hphase] at hsec
          obtain ⟨rfl, rfl⟩ := Prod.mk.inj (Option.some.inj hsec)
          simp only [LifecycleState.LosesUpdate, hphase] at hlose
          rintro (hsame | ⟨t', ht'⟩)
          · refine hlose.1 ?_
            rw [← s.pipeline.start_crossbar_routes, ← s.pipeline.start_routes, hsame]
          · by_cases htt : t' = t
            · simp [htt, CallPhase.Owes] at ht'
            · refine hlose.2 t' ?_
              have howes : (s.calls t').Owes s.pipeline.start := by simpa [htt] using ht'
              exact howes.mono s.pipeline.start_routes.symm
                (fun hr => by simp [Pipeline.start_running] at hr)
      | _ => simp [LifecycleState.LosesUpdate, hphase] at hlose
  | _ => simp [LifecycleState.LosesUpdate] at hlose

/-- Two threads add a route each; the one that changed the list first installs its copy last. -/
theorem lanes_miss_a_route :
    ∃ s, lifecycle.Reachable s ∧ (∀ t, s.calls t = .idle) ∧
      s.pipeline.crossbar.routes ≠ s.pipeline.routes := by
  have hinit : lifecycle.Reachable {} := .init rfl
  have hs := hinit.run [.call 0 (.addRoute { sinkRef := some 7 }),
    .call 1 (.addRoute { sinkRef := some 8 }), .advance 0, .advance 1, .advance 1, .advance 0] rfl
  refine ⟨_, hs, fun t => ?_, fun heq => ?_⟩
  · by_cases h0 : t = 0 <;> by_cases h1 : t = 1 <;> simp [Function.update, h0, h1]
  · exact absurd (show 1 = 2 from congrArg List.length heq) (by simp)

end SyLog
