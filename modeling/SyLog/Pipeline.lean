import SyLog.Async.SinkCrossbar

set_option autoImplicit false

/-! # The pipeline on one thread

The state of `Pipeline::Impl` and its calls when no other thread acts during a call. `submit` is cut
at the point where it has decided what to do with the event (`Disposition`), since the interleaved
models share that decision and take the delivery apart. -/

namespace SyLog

/-- `Pipeline::Impl`. The map from endpoints to entries is an association list with unique keys. -/
structure Pipeline where
  cfg : Config := {}
  globalFilters : List (Option Filter) := []
  routes : List Route := []
  running : Bool := false
  accepting : Bool := true
  crossbar : SinkCrossbar Event := .new 65536
  dirtyCache : Bool := true
  endpointCache : List (Bytes × CacheEntry) := []
  globalMinPriority : UInt16 := Severity.trace.priority

/-! ## The endpoint cache -/

/-- `global_min_priority` as a cache reset computes it: here the *first* `SeverityFilter` of a route
    counts. Nothing reads the value. -/
def computeGlobalMin (routes : List Route) : UInt16 :=
  routes.foldl (fun least r =>
    let routeMin := (r.filterList.findSome? (fun f => match f with
      | some (.severity sf) => some sf.minimumPriority
      | _ => none)).getD Severity.trace.priority
    if routeMin < least then routeMin else least) 65535

/-- `unordered_map::emplace`, which keeps an entry that is there. -/
def emplace (cache : List (Bytes × CacheEntry)) (endpoint : Bytes) (entry : CacheEntry) :
    List (Bytes × CacheEntry) :=
  match cache.lookup endpoint with
  | some _ => cache
  | none => (endpoint, entry) :: cache

/-- Every cached entry is what `compute_cache_entry_` gives for the routes. -/
def CacheFresh (routes : List Route) (cache : List (Bytes × CacheEntry)) : Prop :=
  ∀ x ∈ cache, x.2 = computeCacheEntry routes x.1

theorem CacheFresh.lookup {routes : List Route} {cache : List (Bytes × CacheEntry)}
    {endpoint : Bytes} {entry : CacheEntry} (h : CacheFresh routes cache)
    (hl : cache.lookup endpoint = some entry) : entry = computeCacheEntry routes endpoint := by
  obtain ⟨as, bs, heq, _⟩ := List.lookup_eq_some_iff.1 hl
  exact h (endpoint, entry) (by simp [heq])

theorem CacheFresh.emplace {routes : List Route} {cache : List (Bytes × CacheEntry)}
    {endpoint : Bytes} {entry : CacheEntry} (h : CacheFresh routes cache)
    (he : entry = computeCacheEntry routes endpoint) :
    CacheFresh routes (SyLog.emplace cache endpoint entry) := by
  unfold SyLog.emplace
  split
  · exact h
  · intro x hx
    rcases List.mem_cons.1 hx with rfl | hx
    · exact he
    · exact h x hx

namespace Pipeline

/-- The first part of `cached_route_mask_`: a dirty cache is emptied and marked clean. -/
def refreshCache (p : Pipeline) : Pipeline :=
  if p.dirtyCache then
    { p with dirtyCache := false, endpointCache := []
             globalMinPriority := computeGlobalMin p.routes }
  else p

def cachedRouteMask (p : Pipeline) (endpoint : Bytes) : Pipeline × CacheEntry :=
  let p := p.refreshCache
  match p.endpointCache.lookup endpoint with
  | some entry => (p, entry)
  | none =>
    let computed := computeCacheEntry p.routes endpoint
    ({ p with endpointCache := emplace p.endpointCache endpoint computed }, computed)

def cachedMinPriority (p : Pipeline) (endpoint : Bytes) : Pipeline × UInt16 :=
  let (p, entry) := p.cachedRouteMask endpoint
  if entry.routeMask = 0#64 then (p, 65535) else (p, entry.minPriority)

end Pipeline

/-! ## Dispatch on the calling thread -/

/-- One round of the loop of `dispatch_sync_`, for a route that the mask selects. -/
def dispatchRoute (r : Route) (i : Nat) (e : Event) (buffer : Bytes) : Bytes × List Output :=
  if !passesAll r.filterList e then (buffer, [])
  else
    let buffer : Bytes := []
    let buffer := match r.rendererRef with
      | some renderer => renderer.render e buffer
      | none =>
        let buffer := e.message
        if !buffer.isEmpty && buffer.getLast? != some newline then buffer ++ [newline] else buffer
    match r.sinkRef with
    | some sink => (buffer, [.write i sink buffer])
    | none => (buffer, [])

/-- The loop of `dispatch_sync_`, from index `i` on. -/
def dispatchLoop (e : Event) (mask : RouteMask) : Nat → List Route → Bytes → List Output
  | _, [], _ => []
  | i, r :: rs, buffer =>
    if i < 64 then
      if !selects mask i then dispatchLoop e mask (i + 1) rs buffer
      else
        let (buffer, out) := dispatchRoute r i e buffer
        out ++ dispatchLoop e mask (i + 1) rs buffer
    else []

/-- `dispatch_sync_` on its snapshot of the routes. -/
def dispatchSync (routes : List Route) (e : Event) (mask : RouteMask) : List Output :=
  dispatchLoop e mask 0 routes []

/-- The synchronous path writes what the route owes the event, whatever the buffer held. -/
theorem dispatchRoute_outputs (r : Route) (i : Nat) (e : Event) (buffer : Bytes) :
    (dispatchRoute r i e buffer).2 = r.outputs i e := by
  unfold dispatchRoute Route.outputs
  by_cases hacc : r.accepts e
  · have hpass : passesAll r.filterList e = true := (passesAll_iff _ _).2 hacc
    simp only [hpass, hacc, Route.line, newline_rule, Bool.not_true, Bool.false_eq_true, if_false,
      if_true]
    cases r.sinkRef with
    | none => rfl
    | some sink => cases r.rendererRef <;> rfl
  · have hpass : passesAll r.filterList e = false :=
      Bool.eq_false_iff.2 (fun h => hacc ((passesAll_iff _ _).1 h))
    simp only [hpass, hacc, Bool.not_false, if_true, if_false]
    cases r.sinkRef <;> rfl

/-- What the loop writes: the outputs of the selected routes below 64. -/
theorem dispatchLoop_eq (e : Event) (mask : RouteMask) (rs : List Route) (i : Nat)
    (buffer : Bytes) :
    dispatchLoop e mask i rs buffer
      = (rs.zipIdx i).flatMap (fun (r, j) =>
          if j < 64 ∧ selects mask j = true then r.outputs j e else []) := by
  induction rs generalizing i buffer with
  | nil => rfl
  | cons r rs ih =>
      simp only [dispatchLoop, List.zipIdx_cons, List.flatMap_cons]
      by_cases hi : i < 64
      · cases hsel : selects mask i with
        | false => simp [hi, ih]
        | true => simp [hi, ih, dispatchRoute_outputs]
      · -- the loop ends, and the later routes have later positions
        have hrest : (rs.zipIdx (i + 1)).flatMap (fun (r, j) =>
            if j < 64 ∧ selects mask j = true then r.outputs j e else []) = [] := by
          refine List.flatMap_eq_nil_iff.2 (fun x hx => if_neg (fun hlt => ?_))
          have := (List.le_snd_of_mem_zipIdx hx)
          omega
        simp [hi, hrest]

/-! ## The calls -/

/-- What `submit` decides to do with an event. -/
inductive Disposition where
  /-- no route may match: nothing, or the emergency fallback for a severe event -/
  | unrouted (out : List Output)
  /-- a global filter rejects the event -/
  | filtered
  | sync (mask : RouteMask)
  | crossbar (mask : RouteMask)

namespace Pipeline

/-- The pipeline as the constructor leaves it. -/
def init : Pipeline := { crossbar := .new ({} : Config).queueCapacity }

def addGlobalFilter (p : Pipeline) (f : Option Filter) : Pipeline :=
  { p with globalFilters := p.globalFilters ++ [f] }

def clearGlobalFilters (p : Pipeline) : Pipeline := { p with globalFilters := [] }

/-! ### The critical sections under `worker_m` -/

/-- A new crossbar with the given routes, as three of the calls install it. -/
def freshCrossbar (p : Pipeline) (routes : List Route) : SinkCrossbar Event :=
  (SinkCrossbar.new p.cfg.queueCapacity).configure routes p.cfg.queueCapacity

def installCrossbar (p : Pipeline) (routes : List Route) : Pipeline :=
  { p with crossbar := p.freshCrossbar routes }

/-- `add_route` and `clear_routes` hand their copy of the routes to the crossbar that is there. -/
def updateCrossbar (p : Pipeline) (routes : List Route) : Pipeline :=
  { p with crossbar := p.crossbar.configure routes p.cfg.queueCapacity }

/-- `close` drains, `request_stop` does not. -/
def stopCrossbar (p : Pipeline) (drain : Bool) : Pipeline :=
  { p with running := false, crossbar := p.crossbar.stopLanes drain }

def start (p : Pipeline) : Pipeline :=
  let p := { p with accepting := true }
  if p.running then p else { p with running := true, crossbar := p.crossbar.start }

/-! ### Whole calls -/

def configure (p : Pipeline) (cfg : Config) : Pipeline :=
  let p := { p with cfg }
  if !p.running then { p.installCrossbar p.routes with accepting := true } else p

/-- `close` (`drain`) and `request_stop`, but for what the workers write. -/
def stop (p : Pipeline) (drain : Bool) : Pipeline :=
  let p := { p with accepting := false }
  let p := p.stopCrossbar drain
  p.installCrossbar p.routes

/-- What the workers write while `SinkCrossbar::configure` stops a running crossbar. -/
def reconfigureOutputs (p : Pipeline) : List Output :=
  if p.crossbar.running then p.crossbar.drained else []

/-- The part of `add_route` under `state_m`. -/
def pushRoute (p : Pipeline) (r : Route) : Pipeline :=
  { p with routes := p.routes ++ [r], dirtyCache := true }

/-- The part of `clear_routes` under `state_m`. -/
def dropRoutes (p : Pipeline) : Pipeline := { p with routes := [], dirtyCache := true }

def addRoute (p : Pipeline) (r : Route) : Pipeline × List Output :=
  let p := p.pushRoute r
  (p.updateCrossbar p.routes, p.reconfigureOutputs)

def clearRoutes (p : Pipeline) : Pipeline × List Output :=
  let p := p.dropRoutes
  (p.updateCrossbar [], p.reconfigureOutputs)

/-- The text of the emergency fallback. -/
def fallbackText (platform : Platform) (e : Event) : Bytes :=
  bytes "[sylog:fallback] " ++ formatTime platform e.timestamp ++ bytes " " ++ e.severityName ++
    bytes ": " ++ e.message ++ [newline]

/-- `submit` up to the choice of the way of delivery. -/
def decideSubmit (platform : Platform) (p : Pipeline) (e : Event) (forceSync : Bool) :
    Pipeline × Disposition :=
  let (p, entry) := p.cachedRouteMask e.endpoint
  if entry.routeMask = 0#64 then
    if Severity.error.priority ≤ e.severityPriority then
      (p, .unrouted [.fallback (fallbackText platform e)])
    else (p, .unrouted [])
  else if !passesAll p.globalFilters e then (p, .filtered)
  else
    let asyncMode := p.cfg.asyncByDefault && !forceSync &&
      !(p.cfg.fatalSync && decide (Severity.fatal.priority ≤ e.severityPriority))
    if !asyncMode then (p, .sync entry.routeMask)
    else if !p.accepting then (p, .sync entry.routeMask)
    else (p, .crossbar entry.routeMask)

/-- `none` when the call waits for room in a lane. -/
def submit (platform : Platform) (p : Pipeline) (e : Event) (forceSync : Bool) :
    Option (Pipeline × List Output) :=
  match p.decideSubmit platform e forceSync with
  | (p, .unrouted out) => some (p, out)
  | (p, .filtered) => some (p, [])
  | (p, .sync mask) => some (p, dispatchSync p.routes e mask)
  | (p, .crossbar mask) =>
    (p.crossbar.submit e mask p.accepting).map (fun (crossbar, _) => ({ p with crossbar }, []))

theorem start_routes (p : Pipeline) : p.start.routes = p.routes := by
  cases hrun : p.running <;> simp [start, hrun]

theorem start_crossbar (p : Pipeline) :
    p.start.crossbar = if p.running then p.crossbar else p.crossbar.start := by
  cases hrun : p.running <;> simp [start, hrun]

theorem start_crossbar_routes (p : Pipeline) : p.start.crossbar.routes = p.crossbar.routes := by
  cases hrun : p.running <;> simp [start, hrun]

theorem start_running (p : Pipeline) : p.start.running = true := by
  cases hrun : p.running <;> simp [start, hrun]

theorem start_accepting (p : Pipeline) : p.start.accepting = true := by
  cases hrun : p.running <;> simp [start, hrun]

theorem start_cfg (p : Pipeline) : p.start.cfg = p.cfg := by
  cases hrun : p.running <;> simp [start, hrun]

theorem freshCrossbar_routes (p : Pipeline) (routes : List Route) :
    (p.freshCrossbar routes).routes = routes := SinkCrossbar.configure_routes _ _ _

theorem configure_routes (p : Pipeline) (cfg : Config) : (p.configure cfg).routes = p.routes := by
  cases hrun : p.running <;> simp [configure, installCrossbar, hrun]

theorem configure_globalFilters (p : Pipeline) (cfg : Config) :
    (p.configure cfg).globalFilters = p.globalFilters := by
  cases hrun : p.running <;> simp [configure, installCrossbar, hrun]

/-- `configure` keeps lanes and routes together. -/
theorem configure_crossbar_routes {p : Pipeline} (h : p.crossbar.routes = p.routes) (cfg : Config) :
    (p.configure cfg).crossbar.routes = p.routes := by
  simp only [configure]
  split
  · exact freshCrossbar_routes _ _
  · exact h

end Pipeline

namespace Logger

/-- `Logger::enabled` for a severity of the given priority. -/
def enabled (p : Pipeline) (endpoint : Bytes) (priority : UInt16) : Pipeline × Bool :=
  let (p, least) := p.cachedMinPriority endpoint
  (p, decide (least ≤ priority))

end Logger

/-! ## The effect of a lookup -/

namespace Pipeline

/-- A clean cache holds what `compute_cache_entry_` gives for the current routes. -/
def Coherent (p : Pipeline) : Prop :=
  p.dirtyCache = false → CacheFresh p.routes p.endpointCache

theorem pushRoute_coherent (p : Pipeline) (r : Route) : (p.pushRoute r).Coherent :=
  fun hd => absurd hd (by simp [pushRoute])

theorem dropRoutes_coherent (p : Pipeline) : p.dropRoutes.Coherent :=
  fun hd => absurd hd (by simp [dropRoutes])

theorem Coherent.refreshCache {p : Pipeline} (h : p.Coherent) : p.refreshCache.Coherent := by
  unfold Pipeline.refreshCache
  split
  · intro _ x hx
    simp at hx
  · exact h

/-- What a lookup leaves alone. -/
theorem cachedRouteMask_frame (p : Pipeline) (endpoint : Bytes) :
    ∃ cache least, (p.cachedRouteMask endpoint).1
      = { p with dirtyCache := false, endpointCache := cache, globalMinPriority := least } := by
  unfold cachedRouteMask refreshCache
  cases hd : p.dirtyCache with
  | true =>
      simp only [if_true]
      split <;> exact ⟨_, _, rfl⟩
  | false =>
      simp only [Bool.false_eq_true, if_false]
      split
      · exact ⟨p.endpointCache, p.globalMinPriority, by rw [← hd]⟩
      · exact ⟨_, _, by rw [← hd]⟩

/-- **A lookup in a coherent cache** gives the entry of the current routes and keeps the cache
    coherent. -/
theorem Coherent.cachedRouteMask {p : Pipeline} (h : p.Coherent) (endpoint : Bytes) :
    (p.cachedRouteMask endpoint).2 = computeCacheEntry p.routes endpoint ∧
      (p.cachedRouteMask endpoint).1.Coherent := by
  have hfresh : CacheFresh p.routes (if p.dirtyCache then [] else p.endpointCache) := by
    cases hd : p.dirtyCache with
    | true => exact fun x hx => by simp at hx
    | false => exact h hd
  unfold Pipeline.cachedRouteMask Pipeline.refreshCache
  cases hd : p.dirtyCache with
  | true =>
      simp only [if_true, List.lookup_nil, true_and]
      have hnil : CacheFresh p.routes [] := fun x hx => by simp at hx
      exact fun _ => hnil.emplace rfl
  | false =>
      simp only [hd, Bool.false_eq_true, if_false] at hfresh ⊢
      split
      · next entry hl => exact ⟨hfresh.lookup hl, fun _ => hfresh⟩
      · exact ⟨rfl, fun _ => hfresh.emplace rfl⟩

/-- The threshold of the severity check is the minimum of the endpoint's entry. -/
theorem Coherent.cachedMinPriority {p : Pipeline} (h : p.Coherent) (endpoint : Bytes) :
    (p.cachedMinPriority endpoint).2 = (computeCacheEntry p.routes endpoint).minPriority := by
  have hentry := (h.cachedRouteMask endpoint).1
  unfold Pipeline.cachedMinPriority
  by_cases hzero : (p.cachedRouteMask endpoint).2.routeMask = 0#64
  · simp only [hzero, if_true]
    rw [hentry] at hzero
    exact (computeCacheEntry_minPriority_of_mask_zero hzero).symm
  · simp only [hzero, if_false]
    rw [hentry]

theorem cachedMinPriority_fst (p : Pipeline) (endpoint : Bytes) :
    (p.cachedMinPriority endpoint).1 = (p.cachedRouteMask endpoint).1 := by
  unfold cachedMinPriority
  split
  next q entry heq =>
    split <;> simp [heq]

end Pipeline

end SyLog
