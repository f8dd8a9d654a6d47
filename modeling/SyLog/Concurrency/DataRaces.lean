import SyLog.Library.DataRaces
import SyLog.Concurrency.Mutexes

set_option autoImplicit false

/-! # Data races

Of the data that calls share, which can two threads access at once, one of them to write it? Mutexes
keep the threads apart nearly everywhere. The exceptions are `cfg`, which `configure` writes under
`state_m` and others read under `worker_m` or without a mutex; the queue of a lane, which
`request_stop` replaces while `submit` may be about to push into it; and the stream of a file sink,
which `ok` looks at without the mutex of the sink. -/

namespace SyLog.Locking

open LockOrder

/-- What keeps the threads apart at a field, as long as no call is made that `unguards` it. -/
def guard : Field → Guard Mutex
  | .cfg => .constant
  | .globalFilters => .lock .stateM
  | .routes => .lock .stateM
  | .endpointCache => .lock .cacheM
  | .crossbar => .lock .workerM
  | .running crossbar => .lock (.lanesM crossbar)
  | .queueCapacity crossbar => .lock (.lanesM crossbar)
  | .lanes crossbar => .lock (.lanesM crossbar)
  | .laneQueue _ => .constant
  | .laneWorker _ => .lock .workerM
  | .stream sink => .lock (.sinkM sink)

/-- The calls that do not heed the guard of a field. -/
def PipelineCall.unguards : PipelineCall → Field → Bool
  | .configure _ _ _, .cfg => true
  | .requestStop stop _ _ _ _ _, .laneQueue n => (stop.lanes.getD []).any (fun lane => lane.1 = n)
  | .sinkOk sink, .stream k => sink = k
  | _, _ => false

section Heeds

variable {z z' : Field} {held : List (Mutex × Mode)} {p : Program}

theorem heeds_locked {m : Mutex} {mode : Mode} (hz : guard z' = .lock m)
    (hm : (m, .exclusive) ∈ held) (h : (guard z).Sound z held p) :
    (guard z).Sound z held (.access z' mode :: p) := by
  refine Guard.sound_access.2 ⟨?_, h⟩
  rintro rfl
  rw [hz]
  exact ⟨.exclusive, hm, fun _ => rfl⟩

theorem heeds_read (hz : guard z' = .constant) (h : (guard z).Sound z held p) :
    (guard z).Sound z held (read z' :: p) := by
  refine Guard.sound_access.2 ⟨?_, h⟩
  rintro rfl
  rw [hz]
  exact rfl

theorem heeds_other {mode : Mode} (hz : z' ≠ z) (h : (guard z).Sound z held p) :
    (guard z).Sound z held (.access z' mode :: p) :=
  Guard.sound_access.2 ⟨fun heq => absurd heq hz, h⟩

theorem heeds_lockGuard (m : Mutex) (hm : m ∉ held.map Prod.fst)
    (h : (guard z).Sound z ((m, .exclusive) :: held) p) :
    (guard z).Sound z held (lockGuard m p) :=
  Guard.Sound.guarded hm h

theorem heeds_useSink (sink : Option Nat) : (guard z).Sound z [] (useSink sink) := by
  cases sink with
  | none => exact Guard.sound_act.2 Guard.sound_nil
  | some sink =>
      exact heeds_lockGuard _ (by simp) (heeds_locked rfl (by simp) Guard.sound_nil)

theorem heeds_useSinks (sinks : List (Option Nat)) :
    (guard z).Sound z [] (sinks.flatMap useSink) :=
  Guard.Sound.flatMap (fun sink _ => heeds_useSink sink)

theorem heeds_process (e : Option (Option Nat)) : (guard z).Sound z [] (process e) := by
  cases e with
  | none => exact Guard.sound_act.2 Guard.sound_nil
  | some sink => exact Guard.sound_act.2 (heeds_useSink sink)

theorem heeds_laneLoop (worker : Nat) (popped : List (Option (Option Nat)))
    (drained : Option (List (Option (Option Nat)))) :
    (guard z).Sound z [] (laneLoop worker popped drained) := by
  refine heeds_read rfl (Guard.Sound.append (Guard.Sound.flatMap (fun e _ => ?_)) ?_)
  · exact heeds_read rfl (Guard.sound_poll.2 (heeds_process e))
  · refine heeds_read rfl (Guard.sound_poll.2 ?_)
    cases drained with
    | none => exact Guard.sound_nil
    | some events =>
        have hevents : (guard z).Sound z []
            (events.flatMap (fun e => read (.laneQueue worker) :: process e)) :=
          Guard.Sound.flatMap (fun e _ => heeds_read rfl (heeds_process e))
        exact hevents.append (heeds_read rfl Guard.sound_nil)

theorem heeds_push (push : Push) : (guard z).Sound z [] push.program := by
  have hact : (guard z).Sound z [] ([.act] : Program) := Guard.sound_act.2 Guard.sound_nil
  cases push with
  | tryPush => exact hact
  | pushBlocking queue wakeups =>
      have hspace : (guard z).Sound z [] (lockGuard (.spaceM queue) [.act]) :=
        heeds_lockGuard _ (by simp) (Guard.sound_act.2 Guard.sound_nil)
      refine Guard.Sound.append (Guard.Sound.flatMap (fun k _ => ?_)) hact
      exact hspace.append (Guard.Sound.flatMap (fun _ _ => Guard.sound_poll.2 hspace))

/-- Lanes are stopped under `worker_m`; those that do not drain get new queues. -/
theorem heeds_stopLanes (stop : Stop) (drain : Bool)
    (hz : drain = false → ∀ lane ∈ stop.lanes.getD [], .laneQueue lane.1 ≠ z) :
    (guard z).Sound z [(.workerM, .exclusive)] (stopLanes stop drain) := by
  obtain ⟨crossbar, lanes⟩ := stop
  have hlanesM : ∀ {body : Program},
      (guard z).Sound z [(.lanesM crossbar, .exclusive), (.workerM, .exclusive)] body →
      (guard z).Sound z [(.workerM, .exclusive)] (lockGuard (.lanesM crossbar) body) :=
    fun h => heeds_lockGuard _ (by simp) h
  cases lanes with
  | none =>
      exact hlanesM (heeds_locked rfl (by simp) (heeds_locked rfl (by simp) Guard.sound_nil))
  | some lanes =>
      refine (hlanesM (heeds_locked rfl (by simp) (heeds_locked rfl (by simp)
        (heeds_locked rfl (by simp) (heeds_locked rfl (by simp) Guard.sound_nil))))).append ?_
      refine Guard.Sound.append (Guard.Sound.append (Guard.Sound.flatMap (fun lane _ => ?_))
        (Guard.Sound.flatMap (fun lane _ => ?_))) ?_
      · refine heeds_read rfl (heeds_locked rfl (by simp) ?_)
        split <;> simp
      · refine heeds_locked rfl (by simp) ?_
        split
        · exact Guard.sound_join.2 (heeds_locked rfl (by simp) Guard.sound_nil)
        · exact Guard.sound_nil
      · cases drain with
        | true => exact Guard.sound_nil
        | false =>
            refine hlanesM (heeds_locked rfl (by simp) (Guard.Sound.flatMap (fun lane hlane => ?_)))
            exact heeds_locked rfl (by simp) (heeds_other (hz rfl lane hlane) Guard.sound_nil)

/-- Nobody else can reach a crossbar whose destructor runs. -/
theorem heeds_dropCrossbar (last : Option Stop)
    (hheld : ∀ stop ∈ last, .lanesM stop.crossbar ∉ held.map Prod.fst) :
    (guard z).Sound z held (dropCrossbar last) := by
  cases last with
  | none => exact Guard.sound_nil
  | some stop =>
      obtain ⟨crossbar, lanes⟩ := stop
      have hlanesM : ∀ {body : Program},
          (guard z).Sound z ((.lanesM crossbar, .exclusive) :: held) body →
          (guard z).Sound z held (guarded (.lanesM crossbar) .exclusive body) :=
        fun h => heeds_lockGuard _ (hheld _ rfl) h
      cases lanes with
      | none =>
          simp only [dropCrossbar, stopLanes, lockGuard, unshared_guarded]
          exact hlanesM (by simp)
      | some lanes =>
          simp only [dropCrossbar, stopLanes, lockGuard, unshared_append, unshared_flatMap,
            unshared_guarded, Bool.false_eq_true, if_false]
          refine (hlanesM (by simp)).append (Guard.Sound.append (Guard.Sound.append
            (Guard.Sound.flatMap (fun lane _ => ?_)) (Guard.Sound.flatMap (fun lane _ => ?_)))
            (hlanesM ?_))
          · obtain ⟨lane, joinable⟩ := lane
            cases joinable <;> simp [requestLane]
          · obtain ⟨lane, joinable⟩ := lane
            cases joinable <;> simp [joinLane]
          · rw [unshared_access, Guard.sound_act, unshared_flatMap]
            exact Guard.Sound.flatMap (by simp [renewLane])

/-- `configure` of the crossbar is called under `worker_m`. -/
theorem heeds_crossbarConfigure (crossbar : Nat) (restart : Option Restart) :
    (guard z).Sound z [(.workerM, .exclusive)] (crossbarConfigure crossbar restart) := by
  have hlanesM : ∀ {body : Program},
      (guard z).Sound z [(.lanesM crossbar, .exclusive), (.workerM, .exclusive)] body →
      (guard z).Sound z [(.workerM, .exclusive)] (lockGuard (.lanesM crossbar) body) :=
    fun h => heeds_lockGuard _ (by simp) h
  refine (hlanesM (heeds_locked rfl (by simp) Guard.sound_nil)).append ?_
  cases restart with
  | none =>
      exact hlanesM (heeds_locked rfl (by simp) (heeds_locked rfl (by simp) Guard.sound_nil))
  | some restart =>
      refine (heeds_stopLanes _ true (by simp)).append (hlanesM ?_)
      refine heeds_locked rfl (by simp) (heeds_locked rfl (by simp) (heeds_locked rfl (by simp) ?_))
      exact Guard.Sound.flatMap (fun lane _ => heeds_locked rfl (by simp) Guard.sound_nil)

theorem heeds_workerM (h : (guard z).Sound z [(.workerM, .exclusive)] p) :
    (guard z).Sound z [] (lockGuard .workerM p) :=
  heeds_lockGuard _ (by simp) h

/-- A critical section that accesses what its mutex guards. -/
theorem heeds_section (m : Mutex) {mode : Mode} (hz : guard z' = .lock m) :
    (guard z).Sound z [] (lockGuard m [.access z' mode]) :=
  heeds_lockGuard _ (by simp) (heeds_locked hz (by simp) Guard.sound_nil)

theorem heeds_installCrossbar (old : Option Stop) (fresh : Nat) :
    (guard z).Sound z [] (installCrossbar old fresh) := by
  refine heeds_workerM (heeds_read rfl (heeds_locked rfl (by simp) ?_))
  refine (heeds_dropCrossbar old (by simp)).append (heeds_locked rfl (by simp) ?_)
  exact heeds_read rfl (heeds_crossbarConfigure fresh none)

theorem heeds_updateCrossbar (crossbar : Nat) (restart : Option Restart) :
    (guard z).Sound z [] (updateCrossbar crossbar restart) :=
  heeds_workerM (heeds_locked rfl (by simp) (heeds_read rfl
    (heeds_crossbarConfigure crossbar restart)))

theorem heeds_flush (crossbar : Nat) (sinks : List (Option Nat)) (last : Option Stop) :
    (guard z).Sound z [] (flush crossbar sinks last) := by
  refine (heeds_section _ rfl).append (Guard.Sound.append ?_ (heeds_dropCrossbar last (by simp)))
  exact (heeds_section _ rfl).append (heeds_useSinks sinks)

theorem heeds_stopPipeline (drain : Bool) (stop : Stop) (flushed : Nat) (sinks : List (Option Nat))
    (last old : Option Stop) (fresh : Nat)
    (hz : drain = false → ∀ lane ∈ stop.lanes.getD [], .laneQueue lane.1 ≠ z) :
    (guard z).Sound z [] (stopPipeline drain stop flushed sinks last old fresh) := by
  refine Guard.sound_act.2 (Guard.Sound.append ?_ ((heeds_flush flushed sinks last).append
    ((heeds_section _ rfl).append (heeds_installCrossbar old fresh))))
  exact heeds_workerM (Guard.sound_act.2 (heeds_locked rfl (by simp)
    (heeds_stopLanes stop drain hz)))

/-- The cache is read under the shared mutex. -/
theorem heeds_cachedRouteMask (lookup : Lookup) :
    (guard z).Sound z [] (cachedRouteMask lookup) := by
  obtain ⟨dirty, consumed, found⟩ := lookup
  refine Guard.Sound.append ?_ (Guard.Sound.append ?_ ?_)
  · cases dirty with
    | false => exact Guard.sound_nil
    | true =>
        refine Guard.Sound.guarded (by simp) ?_
        cases consumed with
        | false => exact Guard.sound_act.2 Guard.sound_nil
        | true =>
            exact heeds_locked rfl (by simp)
              (heeds_lockGuard _ (by simp) (heeds_locked rfl (by simp) Guard.sound_nil))
  · refine Guard.Sound.guarded (by simp) (Guard.sound_access.2 ⟨?_, Guard.sound_nil⟩)
    rintro rfl
    exact ⟨.shared, by simp, by simp⟩
  · cases found with
    | false => exact (heeds_section _ rfl).append (heeds_section _ rfl)
    | true => exact Guard.sound_nil

theorem heeds_dispatchSync (sinks : List (Option Nat)) :
    (guard z).Sound z [] (dispatchSync sinks) :=
  (heeds_section _ rfl).append (heeds_useSinks sinks)

theorem heeds_crossbarSubmit (crossbar : Nat) (pushes : List (Nat × Push)) :
    (guard z).Sound z [] (crossbarSubmit crossbar pushes) :=
  (heeds_section _ rfl).append (Guard.Sound.flatMap (fun push _ =>
    heeds_read rfl (heeds_read rfl (heeds_push push.2))))

theorem heeds_submitPath (path : SubmitPath) : (guard z).Sound z [] path.program := by
  have hfilters : (guard z).Sound z [] (lockGuard .stateM [read .globalFilters]) :=
    heeds_section _ rfl
  have hworker : (guard z).Sound z [] (lockGuard .workerM [read .crossbar]) := heeds_section _ rfl
  cases path with
  | unrouted => exact Guard.sound_act.2 Guard.sound_nil
  | rejected => exact hfilters
  | sync sinks => exact hfilters.append (heeds_read rfl (heeds_dispatchSync sinks))
  | closed sinks last =>
      exact hfilters.append (heeds_read rfl (hworker.append
        ((heeds_dispatchSync sinks).append (heeds_dropCrossbar last (by simp)))))
  | async crossbar pushes last =>
      exact hfilters.append (heeds_read rfl (hworker.append
        ((heeds_crossbarSubmit crossbar pushes).append (heeds_dropCrossbar last (by simp)))))

theorem heeds_pipelineStart (running : Bool) (crossbar : Nat) (started : Option (List Nat)) :
    (guard z).Sound z [] (PipelineCall.start running crossbar started).program := by
  refine heeds_workerM (Guard.sound_act.2 ?_)
  cases running with
  | true => exact Guard.sound_nil
  | false =>
      refine heeds_locked rfl (by simp) (heeds_lockGuard _ (by simp)
        (heeds_locked rfl (by simp) ?_))
      cases started with
      | none => exact Guard.sound_nil
      | some lanes =>
          refine heeds_locked rfl (by simp) (heeds_locked rfl (by simp)
            (Guard.Sound.flatMap (fun lane _ => ?_)))
          exact heeds_read rfl (heeds_locked rfl (by simp) Guard.sound_nil)

/-- **Every call heeds the guards**, but for the fields that it `unguards`. -/
theorem heeds_program (call : PipelineCall) (hz : call.unguards z = false) :
    (guard z).Sound z [] call.program := by
  cases call with
  | configure running old fresh =>
      have hne : Field.cfg ≠ z := by
        rintro rfl
        simp [PipelineCall.unguards] at hz
      refine (heeds_lockGuard _ (by simp) (heeds_other hne Guard.sound_nil)).append ?_
      cases running with
      | false => exact (heeds_section _ rfl).append (heeds_installCrossbar old fresh)
      | true => exact Guard.sound_nil
  | editGlobalFilters => exact heeds_section _ rfl
  | addRoute crossbar restart =>
      refine Guard.Sound.append ?_ (heeds_updateCrossbar crossbar restart)
      exact heeds_lockGuard _ (by simp)
        (heeds_locked rfl (by simp) (heeds_locked rfl (by simp) Guard.sound_nil))
  | clearRoutes crossbar restart =>
      exact (heeds_section _ rfl).append (heeds_updateCrossbar crossbar restart)
  | start running crossbar started => exact heeds_pipelineStart running crossbar started
  | close stop flushed sinks last old fresh => exact heeds_stopPipeline _ _ _ _ _ _ _ (by simp)
  | requestStop stop flushed sinks last old fresh =>
      refine heeds_stopPipeline _ _ _ _ _ _ _ (fun _ lane hlane => ?_)
      rintro rfl
      simp only [PipelineCall.unguards, List.any_eq_false] at hz
      exact hz lane hlane (by simp)
  | flush crossbar sinks last => exact heeds_flush crossbar sinks last
  | cachedMinPriority lookup => exact heeds_cachedRouteMask lookup
  | submit lookup path => exact (heeds_cachedRouteMask lookup).append (heeds_submitPath path)
  | sinkOk sink =>
      refine heeds_other ?_ Guard.sound_nil
      rintro rfl
      simp [PipelineCall.unguards] at hz

end Heeds

/-! ## The races -/

theorem sourceStep_respects {allowed : PipelineCall → Prop} {z : Field} {l : LockStep}
    (hallowed : ∀ call, allowed call → call.unguards z = false) (hl : SourceStep allowed l) :
    l.Respects (guard z) z := by
  cases l with
  | start t p =>
      cases t with
      | caller n =>
          obtain ⟨call, hcall, rfl⟩ := hl
          exact (heeds_program call (hallowed call hcall)).respected
      | worker w =>
          obtain ⟨popped, drained, rfl⟩ := hl
          exact (heeds_laneLoop w popped drained).respected
  | advance t => exact trivial

/-- The route cache has the endpoint. -/
def Lookup.hit : Lookup := ⟨false, false, true⟩

/-- Caller `1` makes `n₁` steps in `call₁`, then caller `0` `n₀` steps in `call₀`. -/
theorem reached_both {s : LockState} (call₀ call₁ : PipelineCall) (n₀ n₁ : Nat)
    (hrun : machine.run (((({} : LockState).setTodo (.caller 0) call₀.program).setTodo (.caller 1)
        call₁.program))
      ((List.replicate n₁ (Thread.caller 1) ++ List.replicate n₀ (Thread.caller 0)).map .advance)
        = some s) : Reached s := by
  have hstart : Reached ({} : LockState) := .init rfl
  have hfirst : Reached (({} : LockState).setTodo (.caller 0) call₀.program) :=
    hstart.start (t := .caller 0) ⟨call₀, trivial, rfl⟩ rfl
  exact (hfirst.start (t := .caller 1) ⟨call₁, trivial, rfl⟩ rfl).advances _ hrun

/-- `configure` is about to write what `submit` is about to read. -/
theorem cfg_races : ∃ s, Reached s ∧ s.Races .cfg := by
  refine ⟨_, reached_both (.configure true none 1) (.submit .hit (.sync [])) 1 6 rfl, ?_⟩
  exact ⟨.caller 0, .caller 1, .shared, by decide, ⟨_, rfl⟩, ⟨_, rfl⟩⟩

/-- `request_stop` is about to replace the queue into which `submit` is about to push. -/
theorem laneQueue_races (n : Nat) : ∃ s, Reached s ∧ s.Races (.laneQueue n) := by
  refine ⟨_, reached_both (.requestStop ⟨0, some [(n, false)]⟩ 0 [] none none 1)
    (.submit .hit (.async 0 [(n, .tryPush)] none)) 16 13 rfl, ?_⟩
  exact ⟨.caller 0, .caller 1, .shared, by decide, ⟨_, rfl⟩, ⟨_, rfl⟩⟩

/-- A sink is about to write to the stream that `ok` is about to look at. -/
theorem stream_races (k : Nat) : ∃ s, Reached s ∧ s.Races (.stream k) := by
  refine ⟨_, reached_both (.submit .hit (.sync [some k])) (.sinkOk k) 11 0 rfl, ?_⟩
  exact ⟨.caller 0, .caller 1, .shared, by decide, ⟨_, rfl⟩, ⟨_, rfl⟩⟩

/-- **The data races of the pipeline.** In any reachable state, two threads are about to access a
    field at once, one of them to write it, only if a call is made that unguards the field; and for
    each field that a call unguards such a state is reachable. -/
theorem data_races (z : Field) :
    (∀ (allowed : PipelineCall → Prop) (s : LockState), ReachedBy allowed s → s.Races z →
      ∃ call, allowed call ∧ call.unguards z = true) ∧
    ((∃ call : PipelineCall, call.unguards z = true) → ∃ s, Reached s ∧ s.Races z) := by
  constructor
  · intro allowed s hs hraces
    by_contra hnone
    refine not_races_of_reachable (fun _ l hl => sourceStep_respects ?_ hl) hs hraces
    exact fun call hcall => Bool.eq_false_iff.2 (fun h => hnone ⟨call, hcall, h⟩)
  · rintro ⟨call, hcall⟩
    cases z with
    | cfg => exact cfg_races
    | laneQueue n => exact laneQueue_races n
    | stream k => exact stream_races k
    | _ => cases call <;> simp [PipelineCall.unguards] at hcall

end SyLog.Locking
