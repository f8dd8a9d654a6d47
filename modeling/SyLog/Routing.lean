import SyLog.Library.Machine
import SyLog.Pipeline

set_option autoImplicit false

/-! # Routing over whole histories

The pipeline as a machine whose labels are the calls that concern routing. Two questions are asked
of every state that a history of calls can reach: does `submit` write to exactly the routes that
accept the event, although it looks at a cached mask first; and does the severity check in front of
it (`Logger::enabled`) hide an event that some route accepts. -/

namespace SyLog

variable {platform : Platform} {p : Pipeline}

/-- The calls of a routing history. -/
inductive RoutingCall where
  | addRoute (r : Route)
  | clearRoutes
  | addGlobalFilter (f : Option Filter)
  | clearGlobalFilters
  | cachedMinPriority (endpoint : Bytes)
  | submit (e : Event) (forceSync : Bool)

def Pipeline.call (platform : Platform) (p : Pipeline) :
    RoutingCall → Option (Pipeline × List Output)
  | .addRoute r => some (p.addRoute r)
  | .clearRoutes => some p.clearRoutes
  | .addGlobalFilter f => some (p.addGlobalFilter f, [])
  | .clearGlobalFilters => some (p.clearGlobalFilters, [])
  | .cachedMinPriority endpoint => some ((p.cachedMinPriority endpoint).1, [])
  | .submit e forceSync => p.submit platform e forceSync

/-- A pipeline just configured, and perhaps started, on which one thread makes the calls. -/
def routing (platform : Platform) : Machine Pipeline RoutingCall where
  init p := ∃ (cfg : Config) (started : Bool),
    p = if started then (Pipeline.init.configure cfg).start else Pipeline.init.configure cfg
  next p c := (p.call platform c).map Prod.fst

/-! ## What routing owes an event -/

/-- The writes of the first 64 routes, in order, if the global filters accept the event. -/
def owedWrites (globalFilters : List (Option Filter)) (routes : List Route) (e : Event) :
    List Output :=
  if FiltersAccept globalFilters e then
    routes.zipIdx.flatMap (fun (r, i) => if i < 64 then r.outputs i e else [])
  else []

/-- The writes that a call owes: only `submit` owes any. -/
def RoutingCall.owed (p : Pipeline) : RoutingCall → List Output
  | .submit e _ => owedWrites p.globalFilters p.routes e
  | _ => []

/-- The writes owed, seen from one route: route `i` gets `data` exactly when it is below 64, has the
    sink, the global filters and its own accept the event, and `data` is its line for the event. -/
theorem mem_owedWrites {globalFilters : List (Option Filter)} {routes : List Route} {e : Event}
    {i sink : Nat} {data : Bytes} :
    .write i sink data ∈ owedWrites globalFilters routes e
      ↔ i < 64 ∧ FiltersAccept globalFilters e ∧ ∃ r, routes[i]? = some r ∧
        r.sinkRef = some sink ∧ r.accepts e ∧ data = r.line e := by
  unfold owedWrites
  by_cases hglobal : FiltersAccept globalFilters e
  · simp only [hglobal, if_true, List.mem_flatMap, true_and]
    constructor
    · rintro ⟨⟨r, j⟩, hmem, hout⟩
      have hget : routes[j]? = some r := by simpa using List.mem_zipIdx_iff_getElem?.1 hmem
      simp only at hout
      split at hout
      · next hj =>
          unfold Route.outputs at hout
          split at hout
          · next s hs =>
              split at hout
              · next hacc =>
                  obtain ⟨rfl, rfl, rfl⟩ := Output.write.inj (List.mem_singleton.1 hout)
                  exact ⟨hj, r, hget, hs, hacc, rfl⟩
              · simp at hout
          · simp at hout
      · simp at hout
    · rintro ⟨hi, r, hget, hs, hacc, rfl⟩
      refine ⟨(r, i), List.mem_zipIdx_iff_getElem?.2 (by simpa using hget), ?_⟩
      simp [hi, Route.outputs, hs, hacc]
  · simp [hglobal]

/-- **The mask loses no write.** Dispatching on the mask of the event's endpoint writes what the
    routes owe. -/
theorem dispatchSync_entry (routes : List Route) (e : Event) :
    dispatchSync routes e (computeCacheEntry routes e.endpoint).routeMask
      = routes.zipIdx.flatMap (fun (r, i) => if i < 64 then r.outputs i e else []) := by
  rw [dispatchSync, dispatchLoop_eq]
  refine List.flatMap_congr (fun ri hri => ?_)
  obtain ⟨r, i⟩ := ri
  have hget : routes[i]? = some r := by simpa using List.mem_zipIdx_iff_getElem?.1 hri
  by_cases hi : i < 64
  · by_cases hacc : r.accepts e
    · simp [hi, computeCacheEntry_selects hi hget hacc]
    · simp [hi, Route.outputs_of_not_accepts hacc]
  · simp [hi]

theorem dispatchSync_zero (routes : List Route) (e : Event) :
    dispatchSync routes e 0#64 = [] := by
  rw [dispatchSync, dispatchLoop_eq]
  exact List.flatMap_eq_nil_iff.2 (fun x _ => by simp [selects_zero])

/-- A dispatch writes to sinks and does nothing else. -/
theorem dispatchSync_filter (routes : List Route) (e : Event) (mask : RouteMask) :
    (dispatchSync routes e mask).filter Output.isWrite = dispatchSync routes e mask := by
  refine List.filter_eq_self.2 (fun o ho => ?_)
  rw [dispatchSync, dispatchLoop_eq] at ho
  obtain ⟨⟨r, i⟩, -, hout⟩ := List.mem_flatMap.1 ho
  simp only at hout
  split at hout
  · exact r.outputs_isWrite i e o hout
  · simp at hout

/-! ## The choice of `submit` -/

/-- `submit` delivers on the calling thread. -/
def Pipeline.SubmitsOnThread (p : Pipeline) (e : Event) (forceSync : Bool) : Prop :=
  p.cfg.asyncByDefault = false ∨ forceSync = true ∨
    (p.cfg.fatalSync = true ∧ Severity.fatal.priority ≤ e.severityPriority) ∨ p.accepting = false

instance (p : Pipeline) (e : Event) (forceSync : Bool) :
    Decidable (p.SubmitsOnThread e forceSync) :=
  inferInstanceAs (Decidable (_ ∨ _ ∨ _ ∨ _))

/-- The choice of `submit` for the mask that its lookup gives. -/
def Pipeline.disposition (platform : Platform) (p : Pipeline) (e : Event) (forceSync : Bool)
    (mask : RouteMask) : Disposition :=
  if mask = 0#64 then
    .unrouted (if Severity.error.priority ≤ e.severityPriority then
      [.fallback (fallbackText platform e)] else [])
  else if ¬ FiltersAccept p.globalFilters e then .filtered
  else if p.SubmitsOnThread e forceSync then .sync mask else .crossbar mask

theorem decideSubmit_eq (platform : Platform) (p : Pipeline) (e : Event) (forceSync : Bool) :
    p.decideSubmit platform e forceSync
      = ((p.cachedRouteMask e.endpoint).1,
          p.disposition platform e forceSync (p.cachedRouteMask e.endpoint).2.routeMask) := by
  obtain ⟨cache, least, hframe⟩ := p.cachedRouteMask_frame e.endpoint
  unfold Pipeline.decideSubmit Pipeline.disposition
  simp only [hframe]
  by_cases hzero : (p.cachedRouteMask e.endpoint).2.routeMask = 0#64
  · simp only [hzero, if_true]
    split <;> rfl
  · simp only [hzero, if_false]
    by_cases hglobal : FiltersAccept p.globalFilters e
    · have hpass : passesAll p.globalFilters e = true := (passesAll_iff _ _).2 hglobal
      simp only [hpass, hglobal, Bool.not_true, Bool.false_eq_true, if_false, not_true]
      have hmode : (!(p.cfg.asyncByDefault && !forceSync &&
            !(p.cfg.fatalSync && decide (Severity.fatal.priority ≤ e.severityPriority)))) = true
          ↔ p.cfg.asyncByDefault = false ∨ forceSync = true ∨
            (p.cfg.fatalSync = true ∧ Severity.fatal.priority ≤ e.severityPriority) := by
        cases p.cfg.asyncByDefault <;> cases forceSync <;> simp
      by_cases hsync : p.cfg.asyncByDefault = false ∨ forceSync = true ∨
          (p.cfg.fatalSync = true ∧ Severity.fatal.priority ≤ e.severityPriority)
      · have hthread : p.SubmitsOnThread e forceSync := by
          rcases hsync with h | h | h
          exacts [Or.inl h, Or.inr (Or.inl h), Or.inr (Or.inr (Or.inl h))]
        rw [if_pos (hmode.2 hsync), if_pos hthread]
      · have hthread : p.SubmitsOnThread e forceSync ↔ p.accepting = false := by
          simp only [Pipeline.SubmitsOnThread, ← or_assoc] at hsync ⊢
          exact or_iff_right hsync
        rw [if_neg (fun hb => hsync (hmode.1 hb))]
        cases hacc : p.accepting <;> simp [hthread, hacc]
    · have hpass : passesAll p.globalFilters e = false :=
        Bool.eq_false_iff.2 (fun hb => hglobal ((passesAll_iff _ _).1 hb))
      simp [hpass, hglobal]

/-- On the calling thread the event is dispatched, unless the mask is empty or a global filter
    rejects it. -/
theorem disposition_onThread (platform : Platform) {e : Event} {forceSync : Bool}
    (h : p.SubmitsOnThread e forceSync) (mask : RouteMask) :
    ((mask = 0#64 ∨ ¬ FiltersAccept p.globalFilters e) ∧
      ((∃ out, p.disposition platform e forceSync mask = .unrouted out ∧
          ∀ o ∈ out, o.isWrite = false) ∨
        p.disposition platform e forceSync mask = .filtered)) ∨
    (FiltersAccept p.globalFilters e ∧
      p.disposition platform e forceSync mask = .sync mask) := by
  unfold Pipeline.disposition
  by_cases hzero : mask = 0#64
  · refine Or.inl ⟨Or.inl hzero, Or.inl ⟨_, if_pos hzero, fun o ho => ?_⟩⟩
    split at ho
    · obtain rfl := List.mem_singleton.1 ho
      rfl
    · simp at ho
  · by_cases hglobal : FiltersAccept p.globalFilters e
    · exact Or.inr ⟨hglobal, by rw [if_neg hzero, if_neg (not_not.2 hglobal), if_pos h]⟩
    · exact Or.inl ⟨Or.inr hglobal, Or.inr (by rw [if_neg hzero, if_pos hglobal])⟩

/-- What a dispatch on `mask` writes, if the global filters accept the event. -/
def writesOn (globalFilters : List (Option Filter)) (routes : List Route) (e : Event)
    (mask : RouteMask) : List Output :=
  if FiltersAccept globalFilters e then dispatchSync routes e mask else []

/-- The mask of the current routes loses nothing that is owed. -/
theorem writesOn_entry (globalFilters : List (Option Filter)) (routes : List Route) (e : Event) :
    writesOn globalFilters routes e (computeCacheEntry routes e.endpoint).routeMask
      = owedWrites globalFilters routes e := by
  rw [writesOn, dispatchSync_entry, owedWrites]

/-- With an empty mask, or a global filter that rejects the event, there is nothing to write. -/
theorem writesOn_eq_nil {globalFilters : List (Option Filter)} {routes : List Route} {e : Event}
    {mask : RouteMask} (h : mask = 0#64 ∨ ¬ FiltersAccept globalFilters e) :
    writesOn globalFilters routes e mask = [] := by
  rcases h with rfl | h
  · rw [writesOn, dispatchSync_zero, ite_self]
  · exact if_neg h

/-- What `submit` does on the calling thread. -/
theorem submit_onThread (platform : Platform) {e : Event} {forceSync : Bool}
    (h : p.SubmitsOnThread e forceSync) :
    ∃ out, p.submit platform e forceSync = some ((p.cachedRouteMask e.endpoint).1, out) ∧
      out.filter Output.isWrite
        = writesOn p.globalFilters p.routes e (p.cachedRouteMask e.endpoint).2.routeMask := by
  obtain ⟨cache, least, hframe⟩ := p.cachedRouteMask_frame e.endpoint
  unfold Pipeline.submit
  rw [decideSubmit_eq]
  rcases disposition_onThread platform h (p.cachedRouteMask e.endpoint).2.routeMask with
    ⟨hnone, ⟨out, heq, hout⟩ | heq⟩ | ⟨hglobal, heq⟩
  · rw [heq, writesOn_eq_nil hnone]
    exact ⟨out, rfl, List.filter_eq_nil_iff.2 (fun o ho => by simp [hout o ho])⟩
  · rw [heq, writesOn_eq_nil hnone]
    exact ⟨[], rfl, rfl⟩
  · rw [heq, writesOn, if_pos hglobal]
    refine ⟨_, rfl, ?_⟩
    rw [dispatchSync_filter, hframe]

/-! ## The invariant of a history -/

/-- The cache is coherent, and a synchronous pipeline has nothing queued. -/
structure RoutingInv (p : Pipeline) : Prop where
  coherent : p.Coherent
  idle : p.cfg.asyncByDefault = false → ∀ l ∈ p.crossbar.lanes, l.pending = []

theorem start_pending {x : SinkCrossbar Event} (h : ∀ l ∈ x.lanes, l.pending = [])
    (hrun : x.running = false) : ∀ l ∈ x.start.lanes, l.pending = [] := by
  intro l hl
  simp only [SinkCrossbar.start, hrun, Bool.false_eq_true, if_false, List.mem_map] at hl
  obtain ⟨l', hl', rfl⟩ := hl
  have hpend : l'.worker.inHand ++ l'.queue.queue.items = [] := h l' hl'
  exact (List.append_eq_nil_iff.1 hpend).2

theorem RoutingInv.of_init {p : Pipeline} (h : (routing platform).init p) : RoutingInv p := by
  obtain ⟨cfg, started, rfl⟩ := h
  have hlanes : ∀ l ∈ (Pipeline.init.configure cfg).crossbar.lanes, l.pending = [] :=
    fun l hl => SinkCrossbar.rebuild_pending hl
  cases started with
  | false => exact ⟨fun hd => absurd (show true = false from hd) (by simp), fun _ => hlanes⟩
  | true =>
      refine ⟨fun hd => absurd (show true = false from hd) (by simp), fun _ => ?_⟩
      have hrun : (Pipeline.init.configure cfg).running = false := rfl
      simp only [if_true, Pipeline.start, hrun, Bool.false_eq_true, if_false]
      exact start_pending hlanes rfl

theorem RoutingInv.lookup (h : RoutingInv p) (endpoint : Bytes) :
    RoutingInv (p.cachedRouteMask endpoint).1 := by
  refine ⟨(h.coherent.cachedRouteMask endpoint).2, ?_⟩
  obtain ⟨cache, least, heq⟩ := p.cachedRouteMask_frame endpoint
  rw [heq]
  exact h.idle

theorem configure_pending {x : SinkCrossbar Event} {rs : List Route} {cap : UInt64} :
    ∀ l ∈ (x.configure rs cap).lanes, l.pending = [] :=
  fun _ hl => SinkCrossbar.rebuild_pending hl

theorem decideSubmit_fst (platform : Platform) (p : Pipeline) (e : Event) (forceSync : Bool) :
    (p.decideSubmit platform e forceSync).1 = (p.cachedRouteMask e.endpoint).1 := by
  rw [decideSubmit_eq]

/-- What `submit` does in a synchronous configuration. -/
theorem decideSubmit_sync (platform : Platform) (h : RoutingInv p)
    (hsync : p.cfg.asyncByDefault = false) (e : Event) (forceSync : Bool) :
    ∃ out, p.submit platform e forceSync = some ((p.cachedRouteMask e.endpoint).1, out) ∧
      out.filter Output.isWrite = owedWrites p.globalFilters p.routes e := by
  obtain ⟨out, hsub, hout⟩ := submit_onThread platform (Or.inl hsync)
  rw [(h.coherent.cachedRouteMask e.endpoint).1, writesOn_entry] at hout
  exact ⟨out, hsub, hout⟩

/-- What `submit` leaves alone in any configuration. -/
theorem submit_frame {p' : Pipeline} {e : Event} {forceSync : Bool} {out : List Output}
    (h : p.submit platform e forceSync = some (p', out)) :
    ∃ crossbar, p' = { (p.cachedRouteMask e.endpoint).1 with crossbar } ∧
      crossbar.routes = p.crossbar.routes := by
  have hfst := decideSubmit_fst platform p e forceSync
  obtain ⟨cache, least, hframe⟩ := p.cachedRouteMask_frame e.endpoint
  have hsame : (p.cachedRouteMask e.endpoint).1.crossbar = p.crossbar := by rw [hframe]
  have hstay : ∀ q : Pipeline, q = (p.cachedRouteMask e.endpoint).1 →
      ∃ crossbar, q = { (p.cachedRouteMask e.endpoint).1 with crossbar } ∧
        crossbar.routes = p.crossbar.routes := by
    rintro q rfl
    exact ⟨p.crossbar, by rw [← hsame], rfl⟩
  unfold Pipeline.submit at h
  split at h
  · next q out' heq =>
      obtain ⟨rfl, -⟩ := Prod.mk.inj (Option.some.inj h)
      exact hstay q (by rw [← hfst, heq])
  · next q heq =>
      obtain ⟨rfl, -⟩ := Prod.mk.inj (Option.some.inj h)
      exact hstay q (by rw [← hfst, heq])
  · next q mask heq =>
      obtain ⟨rfl, -⟩ := Prod.mk.inj (Option.some.inj h)
      exact hstay q (by rw [← hfst, heq])
  · next q mask heq =>
      obtain ⟨⟨x, any⟩, hx, hres⟩ := Option.map_eq_some_iff.1 h
      obtain ⟨rfl, -⟩ := Prod.mk.inj hres
      obtain ⟨⟨lanes, any'⟩, hloop, hx⟩ := Option.map_eq_some_iff.1 hx
      obtain ⟨rfl, -⟩ := Prod.mk.inj hx
      have hq : q = (p.cachedRouteMask e.endpoint).1 := by rw [← hfst, heq]
      have hroutes : SinkCrossbar.routes { q.crossbar with lanes } = q.crossbar.routes :=
        SinkCrossbar.submitLoop_routes hloop
      exact ⟨{ q.crossbar with lanes }, by rw [hq], by rw [hroutes, hq, hsame]⟩

/-- One call keeps the invariant. -/
theorem RoutingInv.call {p' : Pipeline} {c : RoutingCall} {out : List Output} (h : RoutingInv p)
    (hc : p.call platform c = some (p', out)) : RoutingInv p' := by
  cases c with
  | addRoute r =>
      obtain ⟨rfl, rfl⟩ := Prod.mk.inj (Option.some.inj hc)
      exact ⟨p.pushRoute_coherent r, fun _ => configure_pending⟩
  | clearRoutes =>
      obtain ⟨rfl, rfl⟩ := Prod.mk.inj (Option.some.inj hc)
      exact ⟨p.dropRoutes_coherent, fun _ => configure_pending⟩
  | addGlobalFilter f =>
      obtain ⟨rfl, rfl⟩ := Prod.mk.inj (Option.some.inj hc)
      exact ⟨h.coherent, h.idle⟩
  | clearGlobalFilters =>
      obtain ⟨rfl, rfl⟩ := Prod.mk.inj (Option.some.inj hc)
      exact ⟨h.coherent, h.idle⟩
  | cachedMinPriority endpoint =>
      obtain ⟨rfl, rfl⟩ := Prod.mk.inj (Option.some.inj hc)
      rw [Pipeline.cachedMinPriority_fst]
      exact h.lookup endpoint
  | submit e forceSync =>
      have hlookup := h.lookup e.endpoint
      by_cases hsync : p.cfg.asyncByDefault = false
      · obtain ⟨out', hsub, -⟩ := decideSubmit_sync platform h hsync e forceSync
        obtain ⟨rfl, -⟩ := Prod.mk.inj (Option.some.inj (hsub.symm.trans hc))
        exact hlookup
      · obtain ⟨crossbar, rfl, -⟩ := submit_frame hc
        obtain ⟨cache, least, hframe⟩ := p.cachedRouteMask_frame e.endpoint
        refine ⟨hlookup.coherent, fun hs => absurd ?_ hsync⟩
        simpa [hframe] using hs

theorem RoutingInv.reachable (hp : (routing platform).Reachable p) : RoutingInv p := by
  refine hp.invariant (fun _ h => .of_init h) (fun q c q' hq _ hstep => ?_)
  obtain ⟨⟨q₁, out⟩, hcall, rfl⟩ := Option.map_eq_some_iff.1 hstep
  exact hq.call hcall

/-! ## Exact routing -/

/-- **Routing is exact.** After any history of calls, in a synchronous configuration, each call
    returns having written what it owes and nothing else: `submit` writes to the accepting routes
    below 64 in order, and the other calls write nothing. -/
theorem routing_exact (hp : (routing platform).Reachable p) (hsync : p.cfg.asyncByDefault = false)
    (c : RoutingCall) :
    ∃ p' out, p.call platform c = some (p', out) ∧ out.filter Output.isWrite = c.owed p := by
  have hinv := RoutingInv.reachable hp
  have hquiet : ∀ q : Pipeline, q.crossbar = p.crossbar → q.reconfigureOutputs = [] := by
    intro q hq
    unfold Pipeline.reconfigureOutputs
    rw [hq, SinkCrossbar.drained_eq_nil (hinv.idle hsync), ite_self]
  cases c with
  | submit e forceSync =>
      obtain ⟨out, hsub, hout⟩ := decideSubmit_sync platform hinv hsync e forceSync
      exact ⟨_, out, hsub, hout⟩
  | addRoute r =>
      have hout := hquiet (p.pushRoute r) rfl
      exact ⟨_, _, rfl, by rw [hout]; rfl⟩
  | clearRoutes =>
      have hout := hquiet p.dropRoutes rfl
      exact ⟨_, _, rfl, by rw [hout]; rfl⟩
  | addGlobalFilter f => exact ⟨_, _, rfl, rfl⟩
  | clearGlobalFilters => exact ⟨_, _, rfl, rfl⟩
  | cachedMinPriority endpoint => exact ⟨_, _, rfl, rfl⟩

/-- A route for the endpoints that begin with `db`, from a severity on. -/
def databaseRoute (sink : Nat) (minimumPriority : UInt16) : Route :=
  { sinkRef := some sink
    filterList :=
      [some (.severity ⟨minimumPriority⟩), some (.endpoint { allowPrefixes := [bytes "db"] })] }

/-- Of three routes, the second rejects the severity of the event and the third its endpoint. -/
theorem routing_exact_three_routes : ∃ (platform : Platform) (p p' : Pipeline) (out : List Output),
    p.routes = [databaseRoute 7 300, databaseRoute 8 600,
      { sinkRef := some 9, filterList := [some (.endpoint { denyPrefixes := [bytes "db"] })] }] ∧
    p.call platform (.submit { endpoint := bytes "db", message := bytes "hi" } false)
      = some (p', out) ∧
    out.filter Output.isWrite = [.write 0 7 (bytes "hi\n")] := by
  have hinit : (routing ⟨fun _ => ⟨70, 0, 1, 0, 0, 0⟩⟩).Reachable
      (Pipeline.init.configure .synchronous) := .init ⟨.synchronous, false, rfl⟩
  have hadd := hinit.run
    [.addRoute (databaseRoute 7 300), .addRoute (databaseRoute 8 600),
      .addRoute { sinkRef := some 9, filterList :=
        [some (.endpoint { denyPrefixes := [bytes "db"] })] }] rfl
  obtain ⟨p', out, hcall, hout⟩ :=
    routing_exact hadd rfl (.submit { endpoint := bytes "db", message := bytes "hi" } false)
  exact ⟨_, _, p', out, rfl, hcall, hout⟩

/-! ## The severity check -/

/-- `enabled` answers `false` below the minimum of the endpoint's entry. -/
theorem enabled_eq_false_iff (hp : (routing platform).Reachable p) (endpoint : Bytes)
    (priority : UInt16) :
    (Logger.enabled p endpoint priority).2 = false
      ↔ priority < (computeCacheEntry p.routes endpoint).minPriority := by
  have hleast := (RoutingInv.reachable hp).coherent.cachedMinPriority endpoint
  have hdef : (Logger.enabled p endpoint priority).2
      = decide ((p.cachedMinPriority endpoint).2 ≤ priority) := rfl
  rw [hdef, hleast, decide_eq_false_iff_not]
  exact UInt16.not_le

/-- When the severity check hides nothing: the priority is at least that of `trace`; or a route of
    the endpoint has a last `SeverityFilter` whose bound the priority meets, and so enables it; or
    no route without a `SeverityFilter` accepts an event of the endpoint and the priority. -/
def SeverityCheckSafe (routes : List Route) (endpoint : Bytes) (priority : UInt16) : Prop :=
  Severity.trace.priority ≤ priority ∨
  (∃ i r m, i < 64 ∧ routes[i]? = some r ∧ endpointOk r.filterList endpoint = true ∧
    lastSeverity r.filterList = some m ∧ m ≤ priority) ∨
  (∀ i r, i < 64 → routes[i]? = some r → lastSeverity r.filterList = none →
    ∀ e : Event, e.endpoint = endpoint → e.severityPriority = priority → ¬ r.accepts e)

/-- **The severity check.** After any history of calls, `enabled` answers `false` only where no
    route below 64 accepts an event of the endpoint and the priority — precisely when
    `SeverityCheckSafe` holds. A route without a `SeverityFilter` accepts every priority, but counts
    in the minimum with the priority of `trace`. -/
theorem enabled_hides_nothing_iff (hp : (routing platform).Reachable p) (endpoint : Bytes)
    (priority : UInt16) :
    ((Logger.enabled p endpoint priority).2 = false →
        ∀ i r, i < 64 → p.routes[i]? = some r →
          ∀ e : Event, e.endpoint = endpoint → e.severityPriority = priority → ¬ r.accepts e)
      ↔ SeverityCheckSafe p.routes endpoint priority := by
  rw [enabled_eq_false_iff hp, lt_computeCacheEntry_minPriority]
  constructor
  · intro hhides
    by_cases htrace : Severity.trace.priority ≤ priority
    · exact Or.inl htrace
    · have hlow : priority < Severity.trace.priority := UInt16.not_le.1 htrace
      have htop : priority < 65535 := by
        have htraceVal : Severity.trace.priority = 100 := rfl
        grind
      by_cases hen : ∃ i r m, i < 64 ∧ p.routes[i]? = some r ∧
          endpointOk r.filterList endpoint = true ∧ lastSeverity r.filterList = some m ∧
          m ≤ priority
      · exact Or.inr (Or.inl hen)
      · -- every route of the endpoint asks for more than the priority, so the check says no
        refine Or.inr (Or.inr (fun i r hi hr _ => hhides ⟨htop, ?_⟩ i r hi hr))
        intro j r' hj hr' hok
        cases hm : lastSeverity r'.filterList with
        | none => simpa [Route.minPriority, hm] using hlow
        | some m =>
            have hlt : priority < m :=
              UInt16.not_le.1 (fun hle => hen ⟨j, r', m, hj, hr', hok, hm, hle⟩)
            simpa [Route.minPriority, hm] using hlt
  · rintro hsafe ⟨-, hall⟩ i r hi hr e hep hprio hacc
    subst hep hprio
    have hlt : e.severityPriority < r.minPriority := hall i r hi hr hacc.endpointOk
    cases hm : lastSeverity r.filterList with
    | some m =>
        have hle : m ≤ e.severityPriority := hacc.lastSeverity_le hm
        have hlt' : e.severityPriority < m := by simpa [Route.minPriority, hm] using hlt
        exact absurd hle (UInt16.not_le.2 hlt')
    | none =>
        -- the route accepts every priority, but the check counts it with that of `trace`
        rcases hsafe with htrace | ⟨j, r', m, hj, hr', hok, hm', hle⟩ | hnone
        · have hlt' : e.severityPriority < Severity.trace.priority := by
            simpa [Route.minPriority, hm] using hlt
          exact absurd htrace (UInt16.not_le.2 hlt')
        · have hlt' : e.severityPriority < m := by
            simpa [Route.minPriority, hm'] using hall j r' hj hr' hok
          exact absurd hle (UInt16.not_le.2 hlt')
        · exact hnone i r hi hr hm e rfl rfl hacc

/-- Where the only route takes `fatal` events of `db`, the check hides `info` there. -/
theorem enabled_hides_nothing_fatal_route : ∃ p : Pipeline,
    p.routes = [databaseRoute 7 600] ∧ (Logger.enabled p (bytes "db") 300).2 = false ∧
      (((Logger.enabled p (bytes "db") 300).2 = false →
          ∀ i r, i < 64 → p.routes[i]? = some r →
            ∀ e : Event, e.endpoint = bytes "db" → e.severityPriority = 300 → ¬ r.accepts e)
        ↔ SeverityCheckSafe p.routes (bytes "db") 300) := by
  have hinit : (routing ⟨fun _ => ⟨70, 0, 1, 0, 0, 0⟩⟩).Reachable
      (Pipeline.init.configure .synchronous) := .init ⟨.synchronous, false, rfl⟩
  have hadd := hinit.run [.addRoute (databaseRoute 7 600)] rfl
  exact ⟨_, rfl, rfl, enabled_hides_nothing_iff hadd (bytes "db") 300⟩

/-- A custom severity that keeps the priority of `severity_base` is hidden from a route that has no
    filter at all. -/
theorem enabled_hides_default_severity :
    ∃ (platform : Platform) (p : Pipeline) (r : Route) (e : Event),
      (routing platform).Reachable p ∧ (Logger.enabled p e.endpoint e.severityPriority).2 = false ∧
        e.severityPriority = ({} : Severity).priority ∧ p.routes[0]? = some r ∧ r.accepts e := by
  refine ⟨⟨fun _ => ⟨70, 0, 1, 0, 0, 0⟩⟩,
    ((Pipeline.init.configure .synchronous).addRoute { sinkRef := some 7 }).1,
    { sinkRef := some 7 }, { severityPriority := 0 }, ?_, rfl, rfl, rfl, by decide⟩
  have hinit : (routing ⟨fun _ => ⟨70, 0, 1, 0, 0, 0⟩⟩).Reachable
      (Pipeline.init.configure .synchronous) := .init ⟨.synchronous, false, rfl⟩
  exact hinit.run [.addRoute { sinkRef := some 7 }] rfl

/-! ### Tightness

The converse question: does the check hide what no route accepts. The scan of a route keeps one
bound and one endpoint verdict, so a filter counts only until the next one of its kind. -/

/-- Every filter of the route is one of the two built-in kinds. -/
def Route.BuiltIn (r : Route) : Prop :=
  ∀ f, some f ∈ r.filterList → (∃ sf, f = .severity sf) ∨ ∃ ef, f = .endpoint ef

/-- A built-in filter reads nothing of the event but its endpoint and its priority. -/
theorem Route.BuiltIn.pass_congr {r : Route} (hr : r.BuiltIn) {f : Filter}
    (hf : some f ∈ r.filterList) {e e' : Event} (hep : e.endpoint = e'.endpoint)
    (hprio : e.severityPriority = e'.severityPriority) : f.pass e = f.pass e' := by
  rcases hr f hf with ⟨sf, rfl⟩ | ⟨ef, rfl⟩
  · simp only [Filter.pass, SeverityFilter.pass, hprio]
  · exact ef.pass_congr hep

theorem Route.BuiltIn.accepts_congr {r : Route} (hr : r.BuiltIn) {e e' : Event}
    (hep : e.endpoint = e'.endpoint) (hprio : e.severityPriority = e'.severityPriority)
    (hacc : r.accepts e) : r.accepts e' := by
  intro f hf
  rw [← hr.pass_congr hf hep hprio]
  exact hacc f hf

/-- The last filters of the route let the endpoint and the priority through, a route without a
    `SeverityFilter` counting with the priority of `trace`, but an earlier filter does not. -/
def Route.RejectsEarlier (r : Route) (endpoint : Bytes) (priority : UInt16) : Prop :=
  endpointOk r.filterList endpoint = true ∧ r.minPriority ≤ priority ∧
    ∃ f, some f ∈ r.filterList ∧ f.pass { endpoint, severityPriority := priority } = false

/-- A route that lets the event through with its last filters, and overwrote no rejection, accepts
    it. -/
theorem Route.accepts_of_not_rejectsEarlier {r : Route} {endpoint : Bytes} {priority : UInt16}
    (hok : endpointOk r.filterList endpoint = true) (hle : r.minPriority ≤ priority)
    (hearly : ¬ r.RejectsEarlier endpoint priority) :
    r.accepts { endpoint, severityPriority := priority } := by
  intro f hf
  by_contra hrej
  exact hearly ⟨hok, hle, f, hf, Bool.eq_false_iff.2 hrej⟩

/-- **The severity check is tight.** After any history of calls, over routes with built-in filters
    only, `enabled` answers `false` where no route below 64 accepts an event of the endpoint and the
    priority — precisely when some route does accept one, or no route below 64 has a rejection that
    a later filter of the same kind overwrites. -/
theorem severity_check_tight_iff (hp : (routing platform).Reachable p)
    (hbuilt : ∀ r ∈ p.routes, r.BuiltIn) (endpoint : Bytes) {priority : UInt16}
    (htop : priority < 65535) :
    ((∀ i r, i < 64 → p.routes[i]? = some r →
          ∀ e : Event, e.endpoint = endpoint → e.severityPriority = priority → ¬ r.accepts e) →
        (Logger.enabled p endpoint priority).2 = false)
      ↔ (∃ i r, i < 64 ∧ p.routes[i]? = some r ∧
            r.accepts { endpoint, severityPriority := priority }) ∨
        ∀ i r, i < 64 → p.routes[i]? = some r → ¬ r.RejectsEarlier endpoint priority := by
  rw [enabled_eq_false_iff hp, lt_computeCacheEntry_minPriority]
  constructor
  · intro htight
    by_cases hacc : ∃ i r, i < 64 ∧ p.routes[i]? = some r ∧
        r.accepts { endpoint, severityPriority := priority }
    · exact Or.inl hacc
    · -- nobody accepts, so the check is closed, and then no route's last filters are open
      have hnone : ∀ i r, i < 64 → p.routes[i]? = some r →
          ∀ e : Event, e.endpoint = endpoint → e.severityPriority = priority → ¬ r.accepts e := by
        intro i r hi hr e hep hprio he
        have hbi : r.BuiltIn := hbuilt r (List.mem_of_getElem? hr)
        exact hacc ⟨i, r, hi, hr, hbi.accepts_congr hep hprio he⟩
      obtain ⟨-, hall⟩ := htight hnone
      refine Or.inr ?_
      rintro i r hi hr ⟨hok, hle, -⟩
      exact absurd hle (UInt16.not_le.2 (hall i r hi hr hok))
  · rintro hcond hnone
    refine ⟨htop, fun i r hi hr hok => UInt16.not_le.1 (fun hle => ?_)⟩
    rcases hcond with ⟨j, r', hj, hr', hacc⟩ | hearly
    · exact hnone j r' hj hr' _ rfl rfl hacc
    · have hacc := Route.accepts_of_not_rejectsEarlier hok hle (hearly i r hi hr)
      exact hnone i r hi hr _ rfl rfl hacc

/-- A route with two `SeverityFilter` objects, the stricter one last. -/
theorem severity_check_tight_stricter_last :
    ((∀ i r, i < 64 → ((Pipeline.init.configure .synchronous).addRoute
            { filterList := [some (.severity ⟨100⟩), some (.severity ⟨600⟩)] }).1.routes[i]?
              = some r →
          ∀ e : Event, e.endpoint = [] → e.severityPriority = 300 → ¬ r.accepts e) →
        (Logger.enabled ((Pipeline.init.configure .synchronous).addRoute
          { filterList := [some (.severity ⟨100⟩), some (.severity ⟨600⟩)] }).1 [] 300).2 = false)
      ↔ (∃ i r, i < 64 ∧ ((Pipeline.init.configure .synchronous).addRoute
            { filterList := [some (.severity ⟨100⟩), some (.severity ⟨600⟩)] }).1.routes[i]?
              = some r ∧
            r.accepts { endpoint := [], severityPriority := 300 }) ∨
        ∀ i r, i < 64 → ((Pipeline.init.configure .synchronous).addRoute
            { filterList := [some (.severity ⟨100⟩), some (.severity ⟨600⟩)] }).1.routes[i]?
              = some r → ¬ r.RejectsEarlier [] 300 := by
  have hinit : (routing ⟨fun _ => ⟨70, 0, 1, 0, 0, 0⟩⟩).Reachable
      (Pipeline.init.configure .synchronous) := .init ⟨.synchronous, false, rfl⟩
  have hadd := hinit.run
    [.addRoute { filterList := [some (.severity ⟨100⟩), some (.severity ⟨600⟩)] }] rfl
  refine severity_check_tight_iff hadd (fun r hr f hf => ?_) [] (by decide)
  obtain rfl := List.mem_singleton.1 (show r ∈ [_] from hr)
  simp only [List.mem_cons, Option.some.injEq, List.not_mem_nil, or_false] at hf
  rcases hf with rfl | rfl
  · exact Or.inl ⟨_, rfl⟩
  · exact Or.inl ⟨_, rfl⟩

/-- The order of two `SeverityFilter` objects decides. With the stricter one last the check hides
    `info`, which the route rejects; with the stricter one first it lets `info` through. -/
theorem severity_check_reads_last_filter :
    ∃ (platform : Platform) (p q : Pipeline) (r r' : Route),
      (routing platform).Reachable p ∧ (routing platform).Reachable q ∧
        p.routes = [r] ∧ q.routes = [r'] ∧ r.BuiltIn ∧ r'.filterList = r.filterList.reverse ∧
        (∀ e : Event, e.severityPriority = Severity.info.priority →
          ¬ r.accepts e ∧ ¬ r'.accepts e) ∧
        (Logger.enabled p [] Severity.info.priority).2 = true ∧
        (Logger.enabled q [] Severity.info.priority).2 = false := by
  have hinit : (routing ⟨fun _ => ⟨70, 0, 1, 0, 0, 0⟩⟩).Reachable
      (Pipeline.init.configure .synchronous) := .init ⟨.synchronous, false, rfl⟩
  refine ⟨_, _, _, { filterList := [some (.severity ⟨600⟩), some (.severity ⟨100⟩)] },
    { filterList := [some (.severity ⟨100⟩), some (.severity ⟨600⟩)] },
    hinit.run [.addRoute { filterList := [some (.severity ⟨600⟩), some (.severity ⟨100⟩)] }] rfl,
    hinit.run [.addRoute { filterList := [some (.severity ⟨100⟩), some (.severity ⟨600⟩)] }] rfl,
    rfl, rfl, ?_, rfl, ?_, rfl, rfl⟩
  · intro f hf
    simp only [List.mem_cons, Option.some.injEq, List.not_mem_nil, or_false] at hf
    rcases hf with rfl | rfl
    · exact Or.inl ⟨_, rfl⟩
    · exact Or.inl ⟨_, rfl⟩
  · intro e he
    have hlow : (SeverityFilter.mk 600).pass e = false := by
      simp [SeverityFilter.pass, he, Severity.info]
    constructor
    · intro hacc
      have hpass : (SeverityFilter.mk 600).pass e = true := hacc (.severity ⟨600⟩) (by simp)
      simp [hlow] at hpass
    · intro hacc
      have hpass : (SeverityFilter.mk 600).pass e = true := hacc (.severity ⟨600⟩) (by simp)
      simp [hlow] at hpass

end SyLog
