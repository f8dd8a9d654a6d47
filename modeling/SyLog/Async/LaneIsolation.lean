import SyLog.Library.Machine
import SyLog.Async.CrossbarSession

set_option autoImplicit false

/-! # Lanes are isolated

A crossbar driven by calls of `submit` with arbitrary masks and by steps of its lane workers. Seen
from one lane, a run is a run of a crossbar with this lane only: the submissions that do not select
the lane and the steps of the other workers are left out, and what remains finds the lane in the
same states. -/

namespace SyLog

/-- What an output writes on behalf of route `i`, and to which sink. -/
def Output.writeFor (i : Nat) : Output → Option (Nat × Bytes)
  | .write j sink data => if j = i then some (sink, data) else none
  | _ => none

theorem Route.outputs_writeFor_self (r : Route) (i : Nat) (e : Event) :
    (r.outputs i e).filterMap (Output.writeFor i) =
      (r.outputs 0 e).filterMap (Output.writeFor 0) := by
  unfold Route.outputs
  cases r.sinkRef with
  | none => rfl
  | some sink => by_cases hacc : r.accepts e <;> simp [hacc, Output.writeFor]

theorem Route.outputs_writeFor_of_ne (r : Route) {i j : Nat} (h : i ≠ j) (e : Event) :
    (r.outputs i e).filterMap (Output.writeFor j) = [] := by
  unfold Route.outputs
  cases r.sinkRef with
  | none => rfl
  | some sink => by_cases hacc : r.accepts e <;> simp [hacc, Output.writeFor, h]

/-! ## One round of the loop for each lane -/

namespace SinkCrossbar

variable {α : Type}

/-- The bit of lane `i` is set, and the loop of `submit` gets as far as lane `i`. -/
def reaches (mask : RouteMask) (i : Nat) : Bool := decide (i < 64) && selects mask i

/-- **What `submit` does to a lane**, `j` lanes after the one that the loop starts with: it hands
    the event to a lane that it reaches, and leaves the others alone. -/
theorem submitLoop_getElem? {e : α} {mask : RouteMask} {accepting : Bool} {k : Nat}
    {lanes lanes' : List (Lane α)} {any : Bool}
    (h : submitLoop e mask accepting k lanes = some (lanes', any)) (j : Nat) :
    (reaches mask (k + j) = false → lanes'[j]? = lanes[j]?) ∧
    (reaches mask (k + j) = true → ∀ l, lanes[j]? = some l →
      ∃ l' ok, l.submit e accepting = some (l', ok) ∧ lanes'[j]? = some l') := by
  induction lanes generalizing k lanes' any j with
  | nil =>
      simp only [submitLoop, Option.some.injEq, Prod.mk.injEq] at h
      obtain ⟨rfl, -⟩ := h
      exact ⟨fun _ => rfl, fun _ l hl => by simp at hl⟩
  | cons l rest ih =>
      rw [submitLoop] at h
      split at h
      · next hk =>
          split at h
          · next hsel =>
              obtain ⟨⟨l', ok⟩, hsub, h⟩ := Option.bind_eq_some_iff.1 h
              obtain ⟨⟨rest', any'⟩, hrest, h⟩ := Option.bind_eq_some_iff.1 h
              obtain ⟨rfl, -⟩ := Prod.mk.inj (Option.some.inj h)
              cases j with
              | zero =>
                  refine ⟨fun hnot => absurd hnot (by simp [reaches, hk, hsel]), fun _ m hm => ?_⟩
                  obtain rfl : l = m := by simpa using hm
                  exact ⟨l', ok, hsub, rfl⟩
              | succ j =>
                  have hj := ih hrest j
                  rw [show k + 1 + j = k + (j + 1) by omega] at hj
                  simpa using hj
          · next hsel =>
              obtain ⟨⟨rest', any'⟩, hrest, h⟩ := Option.bind_eq_some_iff.1 h
              obtain ⟨rfl, -⟩ := Prod.mk.inj (Option.some.inj h)
              cases j with
              | zero => exact ⟨fun _ => rfl, fun hr => absurd hr (by simp [reaches, hsel])⟩
              | succ j =>
                  have hj := ih hrest j
                  rw [show k + 1 + j = k + (j + 1) by omega] at hj
                  simpa using hj
      · next hk =>
          obtain ⟨rfl, -⟩ := Prod.mk.inj (Option.some.inj h)
          have hnot : reaches mask (k + j) = false := by
            simp only [reaches, Bool.and_eq_false_iff, decide_eq_false_iff_not]
            exact Or.inl (by omega)
          exact ⟨fun _ => rfl, fun hr => absurd hr (by simp [hnot])⟩

/-- With lanes that drop when full, `submit` never waits. -/
theorem submitLoop_isSome (e : α) (mask : RouteMask) (accepting : Bool) (k : Nat)
    {lanes : List (Lane α)} (h : ∀ l ∈ lanes, l.route.delivery = some .dropWhenFull) :
    (submitLoop e mask accepting k lanes).isSome := by
  induction lanes generalizing k with
  | nil => rfl
  | cons l rest ih =>
      obtain ⟨r, hr⟩ := Option.isSome_iff_exists.1
        (ih (k + 1) (fun m hm => h m (List.mem_cons_of_mem l hm)))
      have hl : l.submit e accepting =
          some ({ l with queue := (l.queue.tryPush e).1 }, (l.queue.tryPush e).2) := by
        rw [Lane.submit, h l List.mem_cons_self]
      rw [submitLoop, hl, hr]
      split
      · split <;> rfl
      · rfl

end SinkCrossbar

/-! ## The machine -/

structure LanesState where
  crossbar : SinkCrossbar Event
  /-- by lane, the events whose push has failed -/
  dropped : Nat → List Event := fun _ => []
  /-- what the workers have written, in order -/
  outputs : List Output := []

inductive LanesLabel where
  | submit (e : Event) (mask : RouteMask) (accepting : Bool)
  | work (i : Nat) (act : WorkerAct)

namespace LanesState

/-- The push of `e` into lane `i` fails. -/
def drops (x : SinkCrossbar Event) (e : Event) (mask : RouteMask) (accepting : Bool) (i : Nat) :
    Bool :=
  SinkCrossbar.reaches mask i &&
    (((x.lanes[i]?).bind (fun l => l.submit e accepting)).map Prod.snd == some false)

def submit (s : LanesState) (e : Event) (mask : RouteMask) (accepting : Bool) :
    Option LanesState :=
  (s.crossbar.submit e mask accepting).map fun (crossbar, _) =>
    { s with
      crossbar
      dropped := fun i => s.dropped i ++ (if drops s.crossbar e mask accepting i then [e] else []) }

def work (s : LanesState) (i : Nat) (act : WorkerAct) : Option LanesState :=
  (s.crossbar.workProcess i act).map fun (crossbar, _, written) =>
    { s with crossbar, outputs := s.outputs ++ written }

/-- The writes of lane `i`, in order, each with its sink. -/
def writes (s : LanesState) (i : Nat) : List (Nat × Bytes) :=
  s.outputs.filterMap (Output.writeFor i)

end LanesState

/-- Submissions and worker steps in any order, from a given crossbar. -/
def lanesRun (x : SinkCrossbar Event) : Machine LanesState LanesLabel where
  init s := s = { crossbar := x }
  next s
    | .submit e mask accepting => s.submit e mask accepting
    | .work i act => s.work i act

/-- What is left of a label for a crossbar with lane `i` only. -/
def LanesLabel.only (i : Nat) : LanesLabel → Option LanesLabel
  | .submit e mask accepting =>
      if SinkCrossbar.reaches mask i then some (.submit e 1#64 accepting) else none
  | .work j act => if j = i then some (.work 0 act) else none

/-- Lane `i` of `s` and the only lane of `t` are in the same state and have the same past. -/
structure SameLane (i : Nat) (s t : LanesState) : Prop where
  lane : ∃ l, s.crossbar.lanes[i]? = some l ∧ t.crossbar.lanes = [l]
  dropped : s.dropped i = t.dropped 0
  writes : s.writes i = t.writes 0

namespace SameLane

variable {i : Nat} {s s' t : LanesState}

/-- A call of `submit` is a run of its loop. -/
theorem submit_of_loop {s : LanesState} {e : Event} {mask : RouteMask} {accepting any : Bool}
    {lanes : List (Lane Event)}
    (h : SinkCrossbar.submitLoop e mask accepting 0 s.crossbar.lanes = some (lanes, any)) :
    s.submit e mask accepting = some { s with
      crossbar := { s.crossbar with lanes }
      dropped := fun i => s.dropped i ++
        (if LanesState.drops s.crossbar e mask accepting i then [e] else []) } := by
  rw [LanesState.submit, SinkCrossbar.submit, h]
  rfl

theorem loop_of_submit {s s' : LanesState} {e : Event} {mask : RouteMask} {accepting : Bool}
    (h : s.submit e mask accepting = some s') :
    ∃ lanes any,
      SinkCrossbar.submitLoop e mask accepting 0 s.crossbar.lanes = some (lanes, any) ∧
      s' = { s with
        crossbar := { s.crossbar with lanes }
        dropped := fun i => s.dropped i ++
          (if LanesState.drops s.crossbar e mask accepting i then [e] else []) } := by
  obtain ⟨⟨x, any⟩, hx, rfl⟩ := Option.map_eq_some_iff.1 h
  obtain ⟨⟨lanes, any'⟩, hloop, heq⟩ := Option.map_eq_some_iff.1 hx
  obtain ⟨rfl, -⟩ := Prod.mk.inj heq
  exact ⟨lanes, any', hloop, rfl⟩

theorem submit_reached (h : SameLane i s t) {e : Event} {mask : RouteMask} {accepting : Bool}
    (hs : s.submit e mask accepting = some s') (hr : SinkCrossbar.reaches mask i = true) :
    ∃ t', t.submit e 1#64 accepting = some t' ∧ SameLane i s' t' := by
  obtain ⟨⟨l, hl, ht⟩, hdropped, hwrites⟩ := h
  obtain ⟨lanes, any, hloop, rfl⟩ := loop_of_submit hs
  have hlane := (SinkCrossbar.submitLoop_getElem? hloop i).2
  rw [Nat.zero_add] at hlane
  obtain ⟨l', ok, hsub, hl'⟩ := hlane hr l hl
  have hone : SinkCrossbar.reaches 1#64 0 = true := by decide
  have hself : selects 1#64 0 = true := by decide
  have hloop' : SinkCrossbar.submitLoop e 1#64 accepting 0 t.crossbar.lanes =
      some ([l'], ok || false) := by
    rw [ht, SinkCrossbar.submitLoop, if_pos (by omega), if_pos hself, hsub]
    rfl
  have hdrop : LanesState.drops s.crossbar e mask accepting i =
      LanesState.drops t.crossbar e 1#64 accepting 0 := by
    simp [LanesState.drops, hr, hone, hl, ht]
  refine ⟨_, submit_of_loop hloop', ⟨l', hl', rfl⟩, ?_, hwrites⟩
  show s.dropped i ++ _ = t.dropped 0 ++ _
  rw [hdropped, hdrop]

theorem submit_passed (h : SameLane i s t) {e : Event} {mask : RouteMask} {accepting : Bool}
    (hs : s.submit e mask accepting = some s') (hr : SinkCrossbar.reaches mask i = false) :
    SameLane i s' t := by
  obtain ⟨⟨l, hl, ht⟩, hdropped, hwrites⟩ := h
  obtain ⟨lanes, any, hloop, rfl⟩ := loop_of_submit hs
  have hlane := (SinkCrossbar.submitLoop_getElem? hloop i).1
  rw [Nat.zero_add] at hlane
  refine ⟨⟨l, (hlane hr).trans hl, ht⟩, ?_, hwrites⟩
  show s.dropped i ++ _ = t.dropped 0
  simp [LanesState.drops, hr, hdropped]

/-- The buffer of a worker does not depend on the index of its route. -/
theorem process_buffer (r : Route) (i j : Nat) (e : Event) (buffer : Bytes) :
    (process r i e buffer).1 = (process r j e buffer).1 := by
  unfold process
  cases r.sinkRef with
  | none => rfl
  | some sink => cases routePasses r e <;> rfl

theorem writes_append (s : LanesState) (x : SinkCrossbar Event) (written : List Output) (j : Nat) :
    LanesState.writes { s with crossbar := x, outputs := s.outputs ++ written } j =
      s.writes j ++ written.filterMap (Output.writeFor j) := by
  rw [LanesState.writes, List.filterMap_append, LanesState.writes]

/-- The lane once its worker has taken a step to `l'`, with what the step handed to `process_`. -/
def laneAfter (l l' : Lane Event) : Option Event → Lane Event
  | none => l'
  | some e => { l' with buffer := (process l.route 0 e l.buffer).1 }

theorem work_eq {s : LanesState} {i : Nat} {l : Lane Event} (hl : s.crossbar.lanes[i]? = some l)
    (act : WorkerAct) :
    s.work i act = (l.work act).map (fun p => { s with
      crossbar := { s.crossbar with lanes := s.crossbar.lanes.set i (laneAfter l p.1 p.2) }
      outputs := s.outputs ++ p.2.toList.flatMap (l.route.outputs i) }) := by
  rw [LanesState.work, SinkCrossbar.workProcess, hl, Option.bind_some, Option.map_map]
  congr 1
  funext p
  obtain ⟨l', out⟩ := p
  cases out with
  | none => rfl
  | some e => simp [laneAfter, process_outputs, process_buffer l.route i 0]

theorem work_self (h : SameLane i s t) {act : WorkerAct} (hs : s.work i act = some s') :
    ∃ t', t.work 0 act = some t' ∧ SameLane i s' t' := by
  obtain ⟨⟨l, hl, ht⟩, hdropped, hwrites⟩ := h
  obtain ⟨hi, -⟩ := List.getElem?_eq_some_iff.1 hl
  have htl : t.crossbar.lanes[0]? = some l := by simp [ht]
  rw [work_eq hl] at hs
  obtain ⟨⟨l', out⟩, hwork, rfl⟩ := Option.map_eq_some_iff.1 hs
  have hwork' := work_eq htl act
  rw [hwork, Option.map_some] at hwork'
  refine ⟨_, hwork', ⟨laneAfter l l' out, by simp [hi], by simp [ht]⟩, hdropped, ?_⟩
  have hsame : (out.toList.flatMap (l.route.outputs i)).filterMap (Output.writeFor i) =
      (out.toList.flatMap (l.route.outputs 0)).filterMap (Output.writeFor 0) := by
    cases out with
    | none => rfl
    | some e => simpa using l.route.outputs_writeFor_self i e
  rw [writes_append, writes_append, hwrites, hsame]

theorem work_other (h : SameLane i s t) {j : Nat} {act : WorkerAct} (hj : j ≠ i)
    (hs : s.work j act = some s') : SameLane i s' t := by
  obtain ⟨⟨l, hl, ht⟩, hdropped, hwrites⟩ := h
  obtain ⟨⟨x, out, written⟩, hx, rfl⟩ := Option.map_eq_some_iff.1 hs
  obtain ⟨m, m', buffer, hm, -, rfl, rfl⟩ := SinkCrossbar.workProcess_cases hx
  refine ⟨⟨l, (List.getElem?_set_ne hj).trans hl, ht⟩, hdropped, ?_⟩
  have hnone : (out.toList.flatMap (m.route.outputs j)).filterMap (Output.writeFor i) = [] := by
    cases out with
    | none => rfl
    | some e => simpa using m.route.outputs_writeFor_of_ne hj e
  rw [writes_append, hnone, List.append_nil, hwrites]

/-- **Step lemma.** A step that concerns lane `i` is a step of the crossbar with this lane only; any
    other step leaves the lane alone. -/
theorem step (h : SameLane i s t) {x y : SinkCrossbar Event} {label : LanesLabel}
    (hs : (lanesRun x).next s label = some s') :
    (label.only i = none → SameLane i s' t) ∧
    ∀ label', label.only i = some label' →
      ∃ t', (lanesRun y).next t label' = some t' ∧ SameLane i s' t' := by
  cases label with
  | submit e mask accepting =>
      cases hr : SinkCrossbar.reaches mask i with
      | false =>
          refine ⟨fun _ => h.submit_passed hs hr, ?_⟩
          intro label' hlabel
          simp [LanesLabel.only, hr] at hlabel
      | true =>
          refine ⟨fun hlabel => by simp [LanesLabel.only, hr] at hlabel, ?_⟩
          intro label' hlabel
          obtain rfl : LanesLabel.submit e 1#64 accepting = label' := by
            simpa [LanesLabel.only, hr] using hlabel
          exact h.submit_reached hs hr
  | work j act =>
      by_cases hj : j = i
      · subst hj
        refine ⟨fun hlabel => by simp [LanesLabel.only] at hlabel, ?_⟩
        intro label' hlabel
        obtain rfl : LanesLabel.work 0 act = label' := by simpa [LanesLabel.only] using hlabel
        exact h.work_self hs
      · refine ⟨fun _ => h.work_other hj hs, ?_⟩
        intro label' hlabel
        simp [LanesLabel.only, hj] at hlabel

/-- **Run lemma.** -/
theorem run (h : SameLane i s t) {x y : SinkCrossbar Event} {labels : List LanesLabel}
    (hs : (lanesRun x).run s labels = some s') :
    ∃ t', (lanesRun y).run t (labels.filterMap (LanesLabel.only i)) = some t' ∧
      SameLane i s' t' :=
  Machine.run_project (LanesLabel.only i) (fun _ _ _ _ hr hn => (hr.step (y := y) hn).1)
    (fun _ _ _ _ _ hr hn => (hr.step (y := y) hn).2 _) h hs

end SameLane

/-! ## Isolation -/

theorem routes_of_next {x : SinkCrossbar Event} {s s' : LanesState} {label : LanesLabel}
    (h : (lanesRun x).next s label = some s') : s'.crossbar.routes = s.crossbar.routes := by
  cases label with
  | submit e mask accepting =>
      obtain ⟨lanes, any, hloop, rfl⟩ := SameLane.loop_of_submit h
      exact SinkCrossbar.submitLoop_routes hloop
  | work j act =>
      obtain ⟨⟨x', out, written⟩, hx, rfl⟩ := Option.map_eq_some_iff.1 h
      exact SinkCrossbar.workProcess_routes hx

/-- **Other lanes do not matter.** Two crossbars, whatever their other lanes are and do, whose runs
    are the same as far as a lane is concerned that starts in the same state in both: the lane ends
    in the same state, with the same events dropped and the same writes. -/
theorem lane_depends_on_itself {x y : SinkCrossbar Event} {i j : Nat} {l : Lane Event}
    {labels labels' : List LanesLabel} {s s' : LanesState} (hx : x.lanes[i]? = some l)
    (hy : y.lanes[j]? = some l)
    (hs : (lanesRun x).run { crossbar := x } labels = some s)
    (hs' : (lanesRun y).run { crossbar := y } labels' = some s')
    (hsame : labels.filterMap (LanesLabel.only i) = labels'.filterMap (LanesLabel.only j)) :
    s.crossbar.lanes[i]? = s'.crossbar.lanes[j]? ∧ s.dropped i = s'.dropped j ∧
      s.writes i = s'.writes j := by
  have hstart : ∀ {z : SinkCrossbar Event} {k : Nat}, z.lanes[k]? = some l →
      SameLane k { crossbar := z } { crossbar := { lanes := [l] } } :=
    fun hz => ⟨⟨l, hz, rfl⟩, rfl, rfl⟩
  obtain ⟨t, ht, ⟨m, hm, htm⟩, hdropped, hwrites⟩ := (hstart hx).run (y := x) hs
  obtain ⟨t', ht', ⟨m', hm', htm'⟩, hdropped', hwrites'⟩ := (hstart hy).run (y := x) hs'
  rw [hsame, ht'] at ht
  obtain rfl := Option.some.inj ht
  obtain rfl : m' = m := by simpa [htm'] using htm
  exact ⟨hm.trans hm'.symm, hdropped.trans hdropped'.symm, hwrites.trans hwrites'.symm⟩

/-- **Lanes are isolated.** After any run of submissions and worker steps of a crossbar with
    dropping routes, lane `i` is in the state, has dropped the events and has written the lines that
    a crossbar with route `i` only comes to when it gets the submissions that select lane `i` and
    the steps of its worker, in the same order; and the next submission returns. -/
theorem lanes_isolated (routes : List Route) (cap : UInt64)
    (hdrop : ∀ r ∈ routes, r.delivery = some .dropWhenFull) {i : Nat} {r : Route}
    (hi : routes[i]? = some r) {labels : List LanesLabel} {s : LanesState}
    (hs : (lanesRun ((SinkCrossbar.new cap).configure routes cap).start).run
      { crossbar := ((SinkCrossbar.new cap).configure routes cap).start } labels = some s) :
    (∃ t, (lanesRun ((SinkCrossbar.new cap).configure [r] cap).start).run
        { crossbar := ((SinkCrossbar.new cap).configure [r] cap).start }
        (labels.filterMap (LanesLabel.only i)) = some t ∧
      s.crossbar.lanes[i]? = t.crossbar.lanes[0]? ∧ s.dropped i = t.dropped 0 ∧
      s.writes i = t.writes 0) ∧
    ∀ e mask accepting, (s.submit e mask accepting).isSome := by
  have hlanes : ∀ rs, (((SinkCrossbar.new cap).configure rs cap).start : SinkCrossbar Event).lanes =
      rs.map (fun r => (Lane.fresh r (max cap 1)).start) := by
    intro rs
    simp [SinkCrossbar.configure, SinkCrossbar.start, SinkCrossbar.rebuild, SinkCrossbar.new]
  have hlane : SameLane i
      { crossbar := ((SinkCrossbar.new cap).configure routes cap).start }
      { crossbar := ((SinkCrossbar.new cap).configure [r] cap).start } :=
    ⟨⟨(Lane.fresh r (max cap 1)).start, by rw [hlanes]; simp [hi], by rw [hlanes]; rfl⟩, rfl, rfl⟩
  refine ⟨?_, fun e mask accepting => ?_⟩
  · obtain ⟨t, ht, ⟨l, hl, htl⟩, hdropped, hwrites⟩ := hlane.run hs
    exact ⟨t, ht, by rw [hl, htl]; rfl, hdropped, hwrites⟩
  · have hroutes : s.crossbar.routes = routes := by
      refine Machine.run_preserves (I := fun s => s.crossbar.routes = routes)
        (fun _ _ _ h hn => (routes_of_next hn).trans h) ?_ hs
      rw [SinkCrossbar.start_routes, SinkCrossbar.configure_routes]
    have hdelivery : ∀ l ∈ s.crossbar.lanes, l.route.delivery = some .dropWhenFull := by
      intro l hl
      refine hdrop _ ?_
      rw [← hroutes]
      exact List.mem_map.2 ⟨l, hl, rfl⟩
    have hsome := SinkCrossbar.submitLoop_isSome e mask accepting 0 hdelivery
    obtain ⟨⟨lanes, any⟩, hloop⟩ := Option.isSome_iff_exists.1 hsome
    rw [SameLane.submit_of_loop hloop]
    rfl

/-- Lane 0 is full when the second event comes and drops it; lane 1 is full too and drops the
    third one, which its own crossbar does as well. -/
theorem lanes_isolated_when_full :
    ∃ s t : LanesState,
      (lanesRun ((SinkCrossbar.new 1).configure [{ sinkRef := some 7 }, { sinkRef := some 8 }]
        1).start).run
        { crossbar := ((SinkCrossbar.new 1).configure [{ sinkRef := some 7 }, { sinkRef := some 8 }]
          1).start }
        [.submit { threadId := 1 } 3#64 true, .submit { threadId := 2 } 1#64 true,
          .submit { threadId := 3 } 2#64 true, .work 0 .run, .work 1 .run] = some s ∧
      (lanesRun ((SinkCrossbar.new 1).configure [{ sinkRef := some 8 }] 1).start).run
        { crossbar := ((SinkCrossbar.new 1).configure [{ sinkRef := some 8 }] 1).start }
        [.submit { threadId := 1 } 1#64 true, .submit { threadId := 3 } 1#64 true,
          .work 0 .run] = some t ∧
      s.crossbar.lanes[1]? = t.crossbar.lanes[0]? ∧ s.dropped 1 = t.dropped 0 ∧
      t.dropped 0 = [{ threadId := 3 }] := by
  have hrun : (lanesRun ((SinkCrossbar.new 1).configure
      [{ sinkRef := some 7 }, { sinkRef := some 8 }] 1).start).run
        { crossbar := ((SinkCrossbar.new 1).configure [{ sinkRef := some 7 }, { sinkRef := some 8 }]
          1).start }
        [.submit { threadId := 1 } 3#64 true, .submit { threadId := 2 } 1#64 true,
          .submit { threadId := 3 } 2#64 true, .work 0 .run, .work 1 .run] = some _ := rfl
  obtain ⟨⟨t, ht, hlane, hdropped, -⟩, -⟩ := lanes_isolated
    [{ sinkRef := some 7 }, { sinkRef := some 8 }] 1 (by simp) (i := 1) rfl hrun
  refine ⟨_, t, rfl, ht, hlane, hdropped, ?_⟩
  rw [← hdropped]
  rfl

end SyLog
