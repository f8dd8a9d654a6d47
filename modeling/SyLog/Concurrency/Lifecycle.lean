import SyLog.Library.Machine
import SyLog.Pipeline

set_option autoImplicit false

/-! # Lifecycle calls by several threads

`configure`, `add_route`, `clear_routes`, `start`, `close` and `request_stop` each consist of a few
critical sections under `state_m` or `worker_m`, with nothing held in between. Any number of threads
make these calls here, one section a step, while lane workers and producers go on.

The question of this module is whether `Pipeline::running` and the crossbar agree once all calls
have returned. They do unless a crossbar is installed while the pipeline runs: `close`,
`request_stop` and `configure` install one that does not run, and a `start` may slip in before they
do. -/

namespace SyLog

/-! ## Calls as sequences of sections -/

/-- Where a thread is in a lifecycle call: the section it is about to run, with what it holds. -/
inductive CallPhase where
  | idle
  /-- `configure` stores the configuration -/
  | configuring (cfg : Config)
  /-- `configure` reads `running` -/
  | testing
  | addingRoute (r : Route)
  | clearingRoutes
  | starting
  /-- `close` (`drain`) or `request_stop` clears `accepting` -/
  | refusing (drain : Bool)
  | stopping (drain : Bool)
  | flushing
  /-- copy the routes for a new crossbar; `configure` also sets `accepting` again -/
  | copying (reopen : Bool)
  | installing (reopen : Bool) (snapshot : List Route)
  /-- hand the copied routes to the crossbar that is there -/
  | updating (snapshot : List Route)

inductive LifecycleCall where
  | configure (cfg : Config)
  | addRoute (r : Route)
  | clearRoutes
  | start
  | close
  | requestStop

def LifecycleCall.entry : LifecycleCall → CallPhase
  | .configure cfg => .configuring cfg
  | .addRoute r => .addingRoute r
  | .clearRoutes => .clearingRoutes
  | .start => .starting
  | .close => .refusing true
  | .requestStop => .refusing false

namespace Pipeline

/-- The section that a phase stands for, with the phase after it. -/
def runSection (p : Pipeline) : CallPhase → Option (Pipeline × CallPhase)
  | .idle => none
  | .configuring cfg => some ({ p with cfg }, .testing)
  | .testing => some (p, if p.running then .idle else .copying true)
  | .addingRoute r =>
    let p := p.pushRoute r
    some (p, .updating p.routes)
  | .clearingRoutes => some (p.dropRoutes, .updating [])
  | .starting => some (p.start, .idle)
  | .refusing drain => some ({ p with accepting := false }, .stopping drain)
  | .stopping drain => some (p.stopCrossbar drain, .flushing)
  | .flushing => some (p, .copying false)
  | .copying reopen => some (p, .installing reopen p.routes)
  | .installing reopen snapshot =>
    let p := p.installCrossbar snapshot
    some ({ p with accepting := reopen || p.accepting }, .idle)
  | .updating snapshot => some (p.updateCrossbar snapshot, .idle)

end Pipeline

structure LifecycleState where
  pipeline : Pipeline := .init
  calls : Nat → CallPhase := fun _ => .idle

inductive LifecycleStep where
  /-- thread `t` makes a call -/
  | call (t : Nat) (c : LifecycleCall)
  /-- thread `t` runs its next section -/
  | advance (t : Nat)
  /-- the worker of lane `i` takes a step -/
  | work (i : Nat) (act : WorkerAct)
  /-- a producer hands an event to lane `i` -/
  | deliver (i : Nat) (e : Event)

/-- Lifecycle calls by any number of threads, on a pipeline as it is constructed. -/
def lifecycle : Machine LifecycleState LifecycleStep where
  init s := s = {}
  next s
    | .call t c =>
      match s.calls t with
      | .idle => some { s with calls := Function.update s.calls t c.entry }
      | _ => none
    | .advance t =>
      (s.pipeline.runSection (s.calls t)).map fun (pipeline, phase) =>
        { pipeline, calls := Function.update s.calls t phase }
    | .work i act =>
      (s.pipeline.crossbar.workLane i act).map fun (crossbar, _) =>
        { s with pipeline := { s.pipeline with crossbar } }
    | .deliver i e =>
      (s.pipeline.crossbar.deliverLane i e s.pipeline.accepting).map fun (crossbar, _) =>
        { s with pipeline := { s.pipeline with crossbar } }

/-! ## One call without interruption -/

/-- What a call does to the pipeline when no other thread acts. -/
def LifecycleCall.alone (p : Pipeline) : LifecycleCall → Pipeline
  | .configure cfg => p.configure cfg
  | .addRoute r => (p.addRoute r).1
  | .clearRoutes => p.clearRoutes.1
  | .start => p.start
  | .close => p.stop true
  | .requestStop => p.stop false

/-- `n` sections of one thread, one after the other. -/
def Pipeline.runSections (p : Pipeline) (phase : CallPhase) : Nat → Option (Pipeline × CallPhase)
  | 0 => some (p, phase)
  | n + 1 => (p.runSection phase).bind (fun (p', phase') => p'.runSections phase' n)

/-- A thread that no other one interrupts runs the sections of its call. -/
theorem run_advances {t n : Nat} {p : Pipeline} {phase : CallPhase} {s : LifecycleState}
    (h : s.pipeline.runSections (s.calls t) n = some (p, phase)) :
    lifecycle.run s (List.replicate n (.advance t)) =
      some { pipeline := p, calls := Function.update s.calls t phase } := by
  induction n generalizing s with
  | zero =>
      obtain ⟨rfl, rfl⟩ := Prod.mk.inj (Option.some.inj h)
      rw [List.replicate_zero, Machine.run, Function.update_eq_self]
  | succ n ih =>
      obtain ⟨⟨p', phase'⟩, hsection, hrest⟩ := Option.bind_eq_some_iff.1 h
      have hnext : lifecycle.next s (.advance t) =
          some { pipeline := p', calls := Function.update s.calls t phase' } := by
        simp only [lifecycle, hsection, Option.map_some]
      rw [List.replicate_succ, Machine.run, hnext, Option.bind_some,
        ih (by simpa using hrest), Function.update_idem]

theorem runSections_entry (p : Pipeline) (c : LifecycleCall) :
    ∃ n, p.runSections c.entry n = some (c.alone p, .idle) := by
  cases c with
  | configure cfg =>
      cases hrun : p.running with
      | true => exact ⟨2, by simp [Pipeline.runSections, Pipeline.runSection,
          LifecycleCall.entry, LifecycleCall.alone, Pipeline.configure, hrun]⟩
      | false => exact ⟨4, by simp [Pipeline.runSections, Pipeline.runSection,
          LifecycleCall.entry, LifecycleCall.alone, Pipeline.configure, hrun]⟩
  | addRoute r => exact ⟨2, rfl⟩
  | clearRoutes => exact ⟨2, rfl⟩
  | start => exact ⟨1, rfl⟩
  | close => exact ⟨5, rfl⟩
  | requestStop => exact ⟨5, rfl⟩

/-- **The sections make up the calls.** -/
theorem lifecycle_alone (s : LifecycleState) (t : Nat) (c : LifecycleCall)
    (h : s.calls t = .idle) :
    ∃ n, lifecycle.run s (.call t c :: List.replicate n (.advance t))
      = some { s with pipeline := c.alone s.pipeline } := by
  obtain ⟨n, hn⟩ := runSections_entry s.pipeline c
  have hcall : lifecycle.next s (.call t c) =
      some { s with calls := Function.update s.calls t c.entry } := by
    simp only [lifecycle, h]
  have hrun : lifecycle.run { s with calls := Function.update s.calls t c.entry }
      (List.replicate n (.advance t)) = some { s with pipeline := c.alone s.pipeline } := by
    rw [run_advances (by simpa using hn), Function.update_idem, ← h, Function.update_eq_self]
  refine ⟨n, ?_⟩
  rw [Machine.run, hcall, Option.bind_some, hrun]

/-! ## Crossbars that work or can be started -/

/-- The lanes of a running crossbar are live; those of a stopped one can be started. -/
structure SinkCrossbar.Usable {α : Type} (x : SinkCrossbar α) : Prop where
  live : x.running = true → ∀ l ∈ x.lanes, l.Live
  queue_open : x.running = false → ∀ l ∈ x.lanes, l.queue.queue.closed = false

namespace SinkCrossbar

variable {α : Type} {x x' : SinkCrossbar α}

theorem configure_usable (x : SinkCrossbar α) (rs : List Route) (cap : UInt64) :
    (x.configure rs cap).Usable := by
  unfold configure
  cases hrun : x.running with
  | true =>
      refine ⟨fun _ l hl => ?_, fun h => absurd h (by simp [rebuild])⟩
      simp only [rebuild, if_true, List.mem_map] at hl
      obtain ⟨_, ⟨r, -, rfl⟩, rfl⟩ := hl
      exact ⟨rfl, rfl, rfl⟩
  | false =>
      refine ⟨fun h => absurd h (by simp [rebuild, hrun]), fun _ l hl => ?_⟩
      simp only [rebuild, Bool.false_eq_true, if_false, List.mem_map] at hl
      obtain ⟨r, -, rfl⟩ := hl
      rfl

theorem Usable.start (h : x.Usable) : x.start.Usable := by
  unfold SinkCrossbar.start
  cases hrun : x.running with
  | true => exact h
  | false =>
      refine ⟨fun _ l hl => ?_, fun hr => absurd hr (by simp)⟩
      simp only [Bool.false_eq_true, if_false, List.mem_map] at hl
      obtain ⟨l', hl', rfl⟩ := hl
      exact ⟨h.queue_open hrun l' hl', rfl, rfl⟩

/-- Replacing a lane by one that is as live, on a queue that is as open. -/
theorem Usable.set (h : x.Usable) {i : Nat} {l l' : Lane α} (hl : x.lanes[i]? = some l)
    (hlive : l.Live → l'.Live)
    (hopen : l.queue.queue.closed = false → l'.queue.queue.closed = false) :
    SinkCrossbar.Usable { x with lanes := x.lanes.set i l' } := by
  have hmem : l ∈ x.lanes := List.mem_of_getElem? hl
  constructor
  · intro hrun m hm
    rcases List.mem_or_eq_of_mem_set hm with hm | rfl
    · exact h.live hrun m hm
    · exact hlive (h.live hrun l hmem)
  · intro hrun m hm
    rcases List.mem_or_eq_of_mem_set hm with hm | rfl
    · exact h.queue_open hrun m hm
    · exact hopen (h.queue_open hrun l hmem)

theorem Usable.workLane (h : x.Usable) {i : Nat} {act : WorkerAct} {out : Option α}
    (hw : x.workLane i act = some (x', out)) : x'.Usable := by
  obtain ⟨l, l', hl, hstep, rfl⟩ := workLane_cases hw
  exact h.set hl hstep.live (fun hopen => by rw [hstep.frame.2.1, hopen])

theorem Usable.deliverLane (h : x.Usable) {i : Nat} {e : α} {accepting ok : Bool}
    (hd : x.deliverLane i e accepting = some (x', ok)) : x'.Usable := by
  obtain ⟨l, l', hl, hsub, rfl⟩ := deliverLane_cases hd
  obtain ⟨q, rfl, hclosed⟩ := Lane.submit_frame hsub
  exact h.set hl (fun hlive => ⟨hclosed.trans hlive.queue_open, hlive.not_stopped, hlive.serving⟩)
    hclosed.trans

end SinkCrossbar

/-! ## Agreement on running -/

/-- The call will install a new crossbar, whatever the others do. -/
def CallPhase.Renewing : CallPhase → Prop
  | .flushing | .copying false | .installing false _ => True
  | _ => False

/-- The step installs a crossbar, which does not run, while the pipeline counts as running. -/
def LifecycleState.installsOverRunning (s : LifecycleState) : LifecycleStep → Bool
  | .advance t =>
    match s.calls t with
    | .installing _ _ => s.pipeline.running
    | _ => false
  | _ => false

/-- The pipeline and its crossbar agree, and the lanes are usable unless a call is about to replace
    them. -/
structure RunningInv (s : LifecycleState) : Prop where
  agree : s.pipeline.running = s.pipeline.crossbar.running
  usable : s.pipeline.crossbar.Usable ∨ ∃ t, (s.calls t).Renewing

theorem runSection_agree {p p' : Pipeline} {phase phase' : CallPhase}
    (hagree : p.running = p.crossbar.running)
    (hinstall : ∀ reopen snapshot, phase = .installing reopen snapshot → p.running = false)
    (h : p.runSection phase = some (p', phase')) : p'.running = p'.crossbar.running := by
  cases phase with
  | idle => exact absurd h (by simp [Pipeline.runSection])
  | starting =>
      obtain ⟨rfl, -⟩ := Prod.mk.inj (Option.some.inj h)
      unfold Pipeline.start
      cases hrun : p.running with
      | true => simpa [hrun] using hagree
      | false => simp
  | stopping drain =>
      obtain ⟨rfl, -⟩ := Prod.mk.inj (Option.some.inj h)
      exact (p.crossbar.stopLanes_running drain).symm
  | installing reopen snapshot =>
      obtain ⟨rfl, -⟩ := Prod.mk.inj (Option.some.inj h)
      have hstopped := hinstall reopen snapshot rfl
      simpa [Pipeline.installCrossbar, Pipeline.freshCrossbar, SinkCrossbar.new] using hstopped
  | updating snapshot =>
      obtain ⟨rfl, -⟩ := Prod.mk.inj (Option.some.inj h)
      simpa [Pipeline.updateCrossbar] using hagree
  | _ =>
      obtain ⟨rfl, -⟩ := Prod.mk.inj (Option.some.inj h)
      exact hagree

/-- A section leaves usable lanes behind, or its call goes on to replace them. -/
theorem runSection_usable {p p' : Pipeline} {phase phase' : CallPhase}
    (h : p.runSection phase = some (p', phase')) (hok : p.crossbar.Usable ∨ phase.Renewing) :
    p'.crossbar.Usable ∨ phase'.Renewing := by
  cases phase with
  | idle => exact absurd h (by simp [Pipeline.runSection])
  | starting =>
      -- the other disjunct is about a call that is past its stop
      obtain ⟨rfl, -⟩ := Prod.mk.inj (Option.some.inj h)
      have husable : p.crossbar.Usable := hok.resolve_right (by simp [CallPhase.Renewing])
      unfold Pipeline.start
      cases hrun : p.running with
      | true => exact Or.inl (by simpa using husable)
      | false => exact Or.inl (by simpa using husable.start)
  | stopping drain =>
      obtain ⟨-, rfl⟩ := Prod.mk.inj (Option.some.inj h)
      exact Or.inr trivial
  | flushing =>
      obtain ⟨-, rfl⟩ := Prod.mk.inj (Option.some.inj h)
      exact Or.inr trivial
  | copying reopen =>
      obtain ⟨rfl, rfl⟩ := Prod.mk.inj (Option.some.inj h)
      cases reopen with
      | true => exact hok.imp_right (fun hr => by simp [CallPhase.Renewing] at hr)
      | false => exact Or.inr trivial
  | installing reopen snapshot =>
      obtain ⟨rfl, -⟩ := Prod.mk.inj (Option.some.inj h)
      exact Or.inl (SinkCrossbar.configure_usable (SinkCrossbar.new _) snapshot _)
  | updating snapshot =>
      obtain ⟨rfl, -⟩ := Prod.mk.inj (Option.some.inj h)
      exact Or.inl (SinkCrossbar.configure_usable _ _ _)
  | _ =>
      obtain ⟨rfl, -⟩ := Prod.mk.inj (Option.some.inj h)
      exact Or.inl (hok.resolve_right (by simp [CallPhase.Renewing]))

theorem RunningInv.step {s s' : LifecycleState} {step : LifecycleStep} (h : RunningInv s)
    (hok : s.installsOverRunning step = false) (hstep : lifecycle.next s step = some s') :
    RunningInv s' := by
  cases step with
  | call t c =>
      simp only [lifecycle] at hstep
      split at hstep
      · next hidle =>
          obtain rfl := Option.some.inj hstep
          refine ⟨h.agree, ?_⟩
          rcases h.usable with husable | hrenew
          · exact Or.inl husable
          · exact Machine.exists_update_or CallPhase.Renewing CallPhase.Renewing hrenew
              (fun hr => by simp [hidle, CallPhase.Renewing] at hr) (fun _ _ hi => hi)
      · exact absurd hstep (by simp)
  | advance t =>
      obtain ⟨⟨p, phase⟩, hsec, rfl⟩ := Option.map_eq_some_iff.1 hstep
      have hinstall : ∀ reopen snapshot, s.calls t = .installing reopen snapshot →
          s.pipeline.running = false := by
        intro reopen snapshot hphase
        simpa [LifecycleState.installsOverRunning, hphase] using hok
      refine ⟨runSection_agree h.agree hinstall hsec, ?_⟩
      rcases h.usable with husable | hrenew
      · rcases runSection_usable hsec (Or.inl husable) with hu | hr
        · exact Or.inl hu
        · exact Or.inr ⟨t, by simpa using hr⟩
      · exact Machine.exists_update_or CallPhase.Renewing CallPhase.Renewing hrenew
          (fun hr => (runSection_usable hsec (Or.inr hr)).symm) (fun _ _ hi => hi)
  | work i act =>
      obtain ⟨⟨x, out⟩, hwork, rfl⟩ := Option.map_eq_some_iff.1 hstep
      refine ⟨?_, h.usable.imp_left (fun hu => hu.workLane hwork)⟩
      obtain ⟨l, l', -, -, rfl⟩ := SinkCrossbar.workLane_cases hwork
      exact h.agree
  | deliver i e =>
      obtain ⟨⟨x, ok⟩, hdel, rfl⟩ := Option.map_eq_some_iff.1 hstep
      refine ⟨?_, h.usable.imp_left (fun hu => hu.deliverLane hdel)⟩
      obtain ⟨l, l', -, -, rfl⟩ := SinkCrossbar.deliverLane_cases hdel
      exact h.agree

/-- **Pipeline and crossbar agree on running.** If no crossbar is installed while the pipeline runs,
    then whenever all calls have returned the pipeline is running exactly when its crossbar is and
    each lane has a live worker on an open queue. -/
theorem running_iff_live {s : LifecycleState}
    (hs : lifecycle.ReachableBy (fun s step => s.installsOverRunning step = false) s)
    (hidle : ∀ t, s.calls t = .idle) :
    s.pipeline.running = true
      ↔ s.pipeline.crossbar.running = true ∧ ∀ l ∈ s.pipeline.crossbar.lanes, l.Live := by
  have hinit : ∀ s : LifecycleState, lifecycle.init s → RunningInv s := by
    rintro _ rfl
    exact ⟨rfl, Or.inl ⟨fun h => absurd h (by simp [Pipeline.init, SinkCrossbar.new]),
      fun _ l hl => absurd hl (by simp [Pipeline.init, SinkCrossbar.new])⟩⟩
  have hinv : RunningInv s := hs.invariant hinit (fun _ _ _ h hok hstep => h.step hok hstep)
  have husable : s.pipeline.crossbar.Usable := by
    rcases hinv.usable with hu | ⟨t, ht⟩
    · exact hu
    · simp [hidle t, CallPhase.Renewing] at ht
  rw [hinv.agree]
  exact ⟨fun hrun => ⟨hrun, husable.live hrun⟩, And.left⟩

theorem running_iff_live_after_start :
    ∃ s : LifecycleState, s.pipeline.running = true ∧ s.pipeline.crossbar.lanes ≠ [] ∧
      (s.pipeline.running = true
        ↔ s.pipeline.crossbar.running = true ∧ ∀ l ∈ s.pipeline.crossbar.lanes, l.Live) := by
  have hinit : lifecycle.ReachableBy (fun s step => s.installsOverRunning step = false) {} :=
    .init rfl
  have hs := hinit.runBy [.call 0 (.addRoute { sinkRef := some 7 }), .advance 0, .advance 0,
    .call 0 .start, .advance 0] rfl
  refine ⟨_, rfl, List.cons_ne_nil _ _, running_iff_live hs (fun t => ?_)⟩
  by_cases h0 : t = 0 <;> simp [Function.update, h0]

/-- Installing a crossbar over a running one breaks the agreement at once. -/
theorem not_agree_of_installsOverRunning {s s' : LifecycleState} {step : LifecycleStep}
    (hbad : s.installsOverRunning step = true) (hstep : lifecycle.next s step = some s') :
    s'.pipeline.running = true ∧ s'.pipeline.crossbar.running = false := by
  cases step with
  | advance t =>
      obtain ⟨⟨p, phase⟩, hsec, rfl⟩ := Option.map_eq_some_iff.1 hstep
      cases hphase : s.calls t with
      | installing reopen snapshot =>
          simp only [LifecycleState.installsOverRunning, hphase] at hbad
          rw [hphase] at hsec
          obtain ⟨rfl, -⟩ := Prod.mk.inj (Option.some.inj hsec)
          refine ⟨hbad, ?_⟩
          simp [Pipeline.installCrossbar, Pipeline.freshCrossbar, SinkCrossbar.new]
      | _ => simp [LifecycleState.installsOverRunning, hphase] at hbad
  | _ => simp [LifecycleState.installsOverRunning] at hbad

/-- Thread `0` closes the pipeline; thread `1` starts it before the new crossbar is in place. -/
theorem running_over_stopped_crossbar :
    ∃ s, lifecycle.Reachable s ∧ (∀ t, s.calls t = .idle) ∧
      ¬ (s.pipeline.running = true
        ↔ s.pipeline.crossbar.running = true ∧ ∀ l ∈ s.pipeline.crossbar.lanes, l.Live) := by
  have hinit : lifecycle.Reachable {} := .init rfl
  have hs := hinit.run [.call 0 (.addRoute { sinkRef := some 7 }), .advance 0, .advance 0,
    .call 0 .close, .advance 0, .advance 0, .call 1 .start, .advance 1, .advance 0, .advance 0,
    .advance 0] rfl
  refine ⟨_, hs, fun t => ?_, fun hiff => ?_⟩
  · by_cases h0 : t = 0 <;> by_cases h1 : t = 1 <;> simp [Function.update, h0, h1]
  · exact absurd (show false = true from (hiff.1 rfl).1) (by simp)

end SyLog
