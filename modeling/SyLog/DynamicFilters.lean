import SyLog.Routing

set_option autoImplicit false

/-! # Filters that grow while they are in use

A route holds its filters by pointer, so `EndpointFilter::allow` and `deny` act on routes that are
already configured. They do not mark the endpoint cache dirty: an entry may have been computed from
what the filters were earlier. A mask with too many bits does no harm, since the dispatch checks the
filters again. A mask with too few does, and only `allow` on a filter that has an allowed prefix
already can bring it about: without that, routing stays exact (`narrowing_keeps_exact`). -/

namespace SyLog

variable {platform : Platform}

/-! ## Routes over shared filters -/

/-- What a filter pointer points to: an `EndpointFilter` object, by its address, or an object that
    never changes. -/
inductive SharedFilter where
  | endpoint (object : Nat)
  | fixed (f : Filter)

/-- A `Route` before its filter pointers are followed. -/
structure SharedRoute where
  sinkRef : Option Nat := none
  rendererRef : Option Renderer := none
  filterList : List (Option SharedFilter) := []
  delivery : Option DeliveryStrategy := some .dropWhenFull

def SharedFilter.read (filters : Nat → EndpointFilter) : SharedFilter → Filter
  | .endpoint object => .endpoint (filters object)
  | .fixed f => f

/-- The route as the pipeline sees it now. -/
def SharedRoute.read (filters : Nat → EndpointFilter) (r : SharedRoute) : Route where
  sinkRef := r.sinkRef
  rendererRef := r.rendererRef
  filterList := r.filterList.map (Option.map (SharedFilter.read filters))
  delivery := r.delivery

/-! ## The machine -/

/-- The filter objects, the routes, and the pipeline with its filter pointers followed. -/
structure SharedFilters where
  filters : Nat → EndpointFilter := fun _ => {}
  routes : List SharedRoute := []
  pipeline : Pipeline

inductive FilterCall where
  | configure (cfg : Config)
  | allow (object : Nat) (pre : Bytes)
  | deny (object : Nat) (pre : Bytes)
  | addRoute (r : SharedRoute)
  | clearRoutes
  | cachedMinPriority (endpoint : Bytes)
  | submit (e : Event) (forceSync : Bool)

namespace SharedFilters

/-- The routes with the filters in their current state. -/
def current (s : SharedFilters) : List Route := s.routes.map (SharedRoute.read s.filters)

/-- A filter object changes, and with it every copy of a route that points to it. The cache stays
    as it is. -/
def assign (s : SharedFilters) (object : Nat) (f : EndpointFilter) : SharedFilters :=
  let filters := Function.update s.filters object f
  let routes := s.routes.map (SharedRoute.read filters)
  let lanes := List.zipWith (fun l r => { l with route := r }) s.pipeline.crossbar.lanes routes
  { s with filters
           pipeline := { s.pipeline with
             routes, crossbar := { s.pipeline.crossbar with lanes } } }

def call (platform : Platform) (s : SharedFilters) :
    FilterCall → Option (SharedFilters × List Output)
  | .configure cfg => some ({ s with pipeline := s.pipeline.configure cfg }, [])
  | .allow object pre => some (s.assign object ((s.filters object).allow pre), [])
  | .deny object pre => some (s.assign object ((s.filters object).deny pre), [])
  | .addRoute r =>
    let (pipeline, out) := s.pipeline.addRoute (r.read s.filters)
    some ({ s with routes := s.routes ++ [r], pipeline }, out)
  | .clearRoutes =>
    let (pipeline, out) := s.pipeline.clearRoutes
    some ({ s with routes := [], pipeline }, out)
  | .cachedMinPriority endpoint =>
    some ({ s with pipeline := (s.pipeline.cachedMinPriority endpoint).1 }, [])
  | .submit e forceSync =>
    (s.pipeline.submit platform e forceSync).map fun (pipeline, out) => ({ s with pipeline }, out)

end SharedFilters

/-- One thread on a pipeline just configured, and perhaps started, with filter objects of any
    contents. -/
def dynamicRouting (platform : Platform) : Machine SharedFilters FilterCall where
  init s := s.routes = [] ∧ (routing platform).init s.pipeline
  next s c := (s.call platform c).map Prod.fst

/-- The pipeline reads the filters as they are, each lane serves its route, and there are no global
    filters. -/
structure SharedInv (s : SharedFilters) : Prop where
  routes_eq : s.pipeline.routes = s.current
  lanes : s.pipeline.crossbar.routes = s.current
  globals : s.pipeline.globalFilters = []

namespace SharedInv

variable {s s' : SharedFilters}

theorem assign (h : SharedInv s) (object : Nat) (f : EndpointFilter) :
    SharedInv (s.assign object f) := by
  refine ⟨rfl, ?_, h.globals⟩
  have hlen : s.pipeline.crossbar.lanes.length = s.routes.length := by
    have hlanes := congrArg List.length h.lanes
    simpa [SinkCrossbar.routes, SharedFilters.current] using hlanes
  simp only [SinkCrossbar.routes, SharedFilters.assign, SharedFilters.current, List.map_zipWith]
  refine List.ext_getElem (by simp [hlen]) (fun i h₁ h₂ => by simp)

theorem of_init (h : (dynamicRouting platform).init s) : SharedInv s := by
  obtain ⟨hroutes, cfg, started, hp⟩ := h
  have hcurrent : s.current = [] := by rw [SharedFilters.current, hroutes, List.map_nil]
  cases started with
  | false => exact ⟨by rw [hp, hcurrent]; rfl, by rw [hp, hcurrent]; rfl, by rw [hp]; rfl⟩
  | true => exact ⟨by rw [hp, hcurrent]; rfl, by rw [hp, hcurrent]; rfl, by rw [hp]; rfl⟩

/-- One call keeps the invariant. -/
theorem call {c : FilterCall} {out : List Output} (h : SharedInv s)
    (hc : s.call platform c = some (s', out)) : SharedInv s' := by
  cases c with
  | configure cfg =>
      obtain ⟨rfl, -⟩ := Prod.mk.inj (Option.some.inj hc)
      have hlanes := Pipeline.configure_crossbar_routes (h.lanes.trans h.routes_eq.symm) cfg
      exact ⟨(s.pipeline.configure_routes cfg).trans h.routes_eq, hlanes.trans h.routes_eq,
        (s.pipeline.configure_globalFilters cfg).trans h.globals⟩
  | allow object pre =>
      obtain ⟨rfl, -⟩ := Prod.mk.inj (Option.some.inj hc)
      exact h.assign object _
  | deny object pre =>
      obtain ⟨rfl, -⟩ := Prod.mk.inj (Option.some.inj hc)
      exact h.assign object _
  | addRoute r =>
      obtain ⟨rfl, -⟩ := Prod.mk.inj (Option.some.inj hc)
      have hroutes : s.pipeline.routes ++ [r.read s.filters]
          = (s.routes ++ [r]).map (SharedRoute.read s.filters) := by
        rw [h.routes_eq, SharedFilters.current, List.map_append, List.map_singleton]
      exact ⟨hroutes, (SinkCrossbar.configure_routes _ _ _).trans hroutes, h.globals⟩
  | clearRoutes =>
      obtain ⟨rfl, -⟩ := Prod.mk.inj (Option.some.inj hc)
      exact ⟨rfl, SinkCrossbar.configure_routes _ _ _, h.globals⟩
  | cachedMinPriority endpoint =>
      obtain ⟨rfl, -⟩ := Prod.mk.inj (Option.some.inj hc)
      obtain ⟨cache, least, hframe⟩ := s.pipeline.cachedRouteMask_frame endpoint
      rw [Pipeline.cachedMinPriority_fst, hframe]
      exact ⟨h.routes_eq, h.lanes, h.globals⟩
  | submit e forceSync =>
      obtain ⟨⟨p, out'⟩, hsub, hres⟩ := Option.map_eq_some_iff.1 hc
      obtain ⟨rfl, -⟩ := Prod.mk.inj hres
      obtain ⟨crossbar, rfl, hlanes⟩ := submit_frame hsub
      obtain ⟨cache, least, hframe⟩ := s.pipeline.cachedRouteMask_frame e.endpoint
      rw [hframe]
      exact ⟨h.routes_eq, hlanes.trans h.lanes, h.globals⟩

theorem reachable {ok : SharedFilters → FilterCall → Prop}
    (hs : (dynamicRouting platform).ReachableBy ok s) : SharedInv s := by
  refine hs.invariant (fun _ h => of_init h) (fun s c s' h _ hstep => ?_)
  obtain ⟨⟨s₁, out⟩, hcall, rfl⟩ := Option.map_eq_some_iff.1 hstep
  exact h.call hcall

end SharedInv

/-! ## Stale masks -/

theorem outputs_route {r : Route} {i j sink : Nat} {e : Event} {data : Bytes}
    (h : .write i sink data ∈ r.outputs j e) : i = j := by
  unfold Route.outputs at h
  split at h
  · split at h
    · exact (Output.write.inj (List.mem_singleton.1 h)).1
    · simp at h
  · simp at h

/-- A dispatch on any mask writes what is owed precisely when the mask selects the routes that owe
    something. Bits too many do no harm. -/
theorem dispatchSync_owed_iff (routes : List Route) (e : Event) (mask : RouteMask) :
    dispatchSync routes e mask
        = routes.zipIdx.flatMap (fun (r, i) => if i < 64 then r.outputs i e else [])
      ↔ ∀ i r sink, i < 64 → routes[i]? = some r → r.sinkRef = some sink → r.accepts e →
          selects mask i = true := by
  rw [dispatchSync, dispatchLoop_eq]
  constructor
  · intro h i r sink hi hr hsink hacc
    have hmem : Output.write i sink (r.line e) ∈ routes.zipIdx.flatMap (fun (r, i) =>
        if i < 64 then r.outputs i e else []) := by
      refine List.mem_flatMap.2 ⟨(r, i), List.mem_zipIdx_iff_getElem?.2 (by simpa using hr), ?_⟩
      simp [hi, Route.outputs, hsink, hacc]
    rw [← h] at hmem
    obtain ⟨⟨r', j⟩, -, hout⟩ := List.mem_flatMap.1 hmem
    simp only at hout
    split at hout
    · next hsel =>
        obtain rfl := outputs_route hout
        exact hsel.2
    · simp at hout
  · intro h
    refine List.flatMap_congr (fun ri hri => ?_)
    obtain ⟨r, i⟩ := ri
    have hr : routes[i]? = some r := by simpa using List.mem_zipIdx_iff_getElem?.1 hri
    by_cases hi : i < 64
    · by_cases hacc : r.accepts e
      · cases hsink : r.sinkRef with
        | none => simp [Route.outputs, hsink]
        | some sink => simp [hi, h i r sink hi hr hsink hacc]
      · simp [hi, Route.outputs_of_not_accepts hacc]
    · simp [hi]

/-- What a lookup gives: the entry that is there, unless the cache is dirty. -/
theorem cachedRouteMask_entry (p : Pipeline) (endpoint : Bytes) :
    (p.cachedRouteMask endpoint).2
      = ((if p.dirtyCache then none else p.endpointCache.lookup endpoint).getD
          (computeCacheEntry p.routes endpoint)) := by
  unfold Pipeline.cachedRouteMask Pipeline.refreshCache
  cases hd : p.dirtyCache with
  | true => simp
  | false =>
      simp only [Bool.false_eq_true, if_false]
      split
      · next entry hl => rw [hl, Option.getD_some]
      · next hl => rw [hl, Option.getD_none]

/-- The cache serves the event: it is dirty, or has no entry for the endpoint, or the entry selects
    every route below 64 that has a sink and now accepts the event. -/
def CacheServes (p : Pipeline) (e : Event) : Prop :=
  p.dirtyCache = true ∨ p.endpointCache.lookup e.endpoint = none ∨
  ∃ entry, p.endpointCache.lookup e.endpoint = some entry ∧
    ∀ i r sink, i < 64 → p.routes[i]? = some r → r.sinkRef = some sink → r.accepts e →
      selects entry.routeMask i = true

/-- The cache serves the event precisely when the mask of the next lookup selects the routes that
    owe it something: an entry that is computed now does. -/
theorem cacheServes_iff {p : Pipeline} {e : Event} :
    CacheServes p e ↔ ∀ i r sink, i < 64 → p.routes[i]? = some r → r.sinkRef = some sink →
      r.accepts e → selects (p.cachedRouteMask e.endpoint).2.routeMask i = true := by
  have hnow : ∀ i r sink, i < 64 → p.routes[i]? = some r → r.sinkRef = some sink →
      r.accepts e → selects (computeCacheEntry p.routes e.endpoint).routeMask i = true :=
    fun _ _ _ hi hr _ hacc => computeCacheEntry_selects hi hr hacc
  rw [cachedRouteMask_entry, CacheServes]
  cases hd : p.dirtyCache with
  | true => simpa using hnow
  | false =>
      cases hl : p.endpointCache.lookup e.endpoint with
      | none => simpa using hnow
      | some entry => simp

theorem SharedInv.exact_iff {s : SharedFilters} (hinv : SharedInv s)
    (hsync : s.pipeline.cfg.asyncByDefault = false) (e : Event) (forceSync : Bool) :
    (∃ s' out, s.call platform (.submit e forceSync) = some (s', out) ∧
        out.filter Output.isWrite = owedWrites [] s.current e)
      ↔ CacheServes s.pipeline e := by
  have hthread : s.pipeline.SubmitsOnThread e forceSync := Or.inl hsync
  obtain ⟨out, hsub, hout⟩ := submit_onThread platform hthread
  have hno : FiltersAccept [] e := fun f hf => absurd hf (by simp)
  rw [hinv.globals, writesOn, if_pos hno] at hout
  have hcall : s.call platform (.submit e forceSync)
      = some ({ s with pipeline := (s.pipeline.cachedRouteMask e.endpoint).1 }, out) := by
    rw [SharedFilters.call, hsub, Option.map_some]
  have howed : owedWrites [] s.current e = s.pipeline.routes.zipIdx.flatMap
      (fun (r, i) => if i < 64 then r.outputs i e else []) := by
    rw [owedWrites, if_pos hno, hinv.routes_eq]
  calc (∃ s' out, s.call platform (.submit e forceSync) = some (s', out) ∧
        out.filter Output.isWrite = owedWrites [] s.current e)
      ↔ out.filter Output.isWrite = owedWrites [] s.current e := by
        constructor
        · rintro ⟨s', out', hcall', hwrites⟩
          obtain ⟨-, rfl⟩ := Prod.mk.inj (Option.some.inj (hcall.symm.trans hcall'))
          exact hwrites
        · exact fun hwrites => ⟨_, out, hcall, hwrites⟩
    _ ↔ ∀ i r sink, i < 64 → s.pipeline.routes[i]? = some r → r.sinkRef = some sink →
          r.accepts e →
          selects (s.pipeline.cachedRouteMask e.endpoint).2.routeMask i = true := by
        rw [hout, howed]
        exact dispatchSync_owed_iff _ _ _
    _ ↔ CacheServes s.pipeline e := cacheServes_iff.symm

/-- **Dynamic filters.** After any history of calls, with filters changing in between, a `submit` in
    a synchronous configuration writes what the routes with their filters as they are now owe the
    event, precisely when the cache serves the event. -/
theorem dynamic_filters_exact_iff {s : SharedFilters} (hs : (dynamicRouting platform).Reachable s)
    (hsync : s.pipeline.cfg.asyncByDefault = false) (e : Event) (forceSync : Bool) :
    (∃ s' out, s.call platform (.submit e forceSync) = some (s', out) ∧
        out.filter Output.isWrite = owedWrites [] s.current e)
      ↔ CacheServes s.pipeline e :=
  (SharedInv.reachable hs).exact_iff hsync e forceSync

/-- A deny after a lookup: the mask still has the bit, and the dispatch checks the filter again. -/
theorem dynamic_filters_exact_after_deny :
    ∃ s : SharedFilters,
      (dynamicRouting ⟨fun _ => ⟨70, 0, 1, 0, 0, 0⟩⟩).run
        { pipeline := Pipeline.init.configure .synchronous }
        [.addRoute { sinkRef := some 7, filterList := [some (.endpoint 0)] },
          .cachedMinPriority (bytes "net"), .deny 0 (bytes "net")] = some s ∧
      ∃ s' out, s.call ⟨fun _ => ⟨70, 0, 1, 0, 0, 0⟩⟩ (.submit { endpoint := bytes "net" } false)
          = some (s', out) ∧
        out.filter Output.isWrite = owedWrites [] s.current { endpoint := bytes "net" } := by
  have hinit : (dynamicRouting ⟨fun _ => ⟨70, 0, 1, 0, 0, 0⟩⟩).Reachable
      { pipeline := Pipeline.init.configure .synchronous } :=
    .init ⟨rfl, .synchronous, false, rfl⟩
  refine ⟨_, rfl, (dynamic_filters_exact_iff (hinit.run
    [.addRoute { sinkRef := some 7, filterList := [some (.endpoint 0)] },
      .cachedMinPriority (bytes "net"), .deny 0 (bytes "net")] rfl) rfl _ false).2 ?_⟩
  refine Or.inr (Or.inr ⟨_, rfl, fun i r sink _ hr _ _ => ?_⟩)
  cases i with
  | zero => rfl
  | succ i => exact absurd (show none = some r from hr) (by simp)

/-- An allow after a lookup: the mask lacks the bit of the only route, and the event that the route
    now accepts is lost. -/
theorem allow_after_lookup_loses :
    ∃ (platform : Platform) (s : SharedFilters) (e : Event),
      (dynamicRouting platform).Reachable s ∧ s.pipeline.cfg.asyncByDefault = false ∧
      owedWrites [] s.current e = [.write 0 7 (bytes "up\n")] ∧
      ¬ ∃ s' out, s.call platform (.submit e false) = some (s', out) ∧
        out.filter Output.isWrite = owedWrites [] s.current e := by
  have hinit : (dynamicRouting ⟨fun _ => ⟨70, 0, 1, 0, 0, 0⟩⟩).Reachable
      { filters := fun _ => ({} : EndpointFilter).allow (bytes "db")
        pipeline := Pipeline.init.configure .synchronous } :=
    .init ⟨rfl, .synchronous, false, rfl⟩
  have hs := hinit.run
    [.addRoute { sinkRef := some 7, filterList := [some (.endpoint 0)] },
      .cachedMinPriority (bytes "net"), .allow 0 (bytes "net")] rfl
  refine ⟨_, _, { endpoint := bytes "net", message := bytes "up" }, hs, rfl, rfl, ?_⟩
  rintro ⟨s', out, hcall, hout⟩
  obtain ⟨-, rfl⟩ := Prod.mk.inj (Option.some.inj hcall)
  have howed : ([] : List Output) = [.write 0 7 (bytes "up\n")] := hout
  exact absurd howed (by simp)

/-! ## Filters that only narrow -/

/-- The calls after which every filter passes at most what it passed before: any but an `allow` on a
    filter that has an allowed prefix. -/
def FilterCall.Narrows (s : SharedFilters) : FilterCall → Prop
  | .allow object _ => (s.filters object).allowPrefixes = []
  | _ => True

theorem deny_pass {f : EndpointFilter} {pre : Bytes} {e : Event}
    (h : (f.deny pre).pass e = true) : f.pass e = true := by
  simp only [EndpointFilter.pass, EndpointFilter.deny, List.any_append] at h ⊢
  split at h
  · exact absurd h (by simp)
  · next hdeny =>
      rw [Bool.or_eq_true, not_or] at hdeny
      rwa [if_neg hdeny.1]

theorem allow_pass {f : EndpointFilter} {pre : Bytes} {e : Event}
    (hfirst : f.allowPrefixes = []) (h : (f.allow pre).pass e = true) : f.pass e = true := by
  simp only [EndpointFilter.pass, EndpointFilter.allow, hfirst] at h ⊢
  split at h
  · exact absurd h (by simp)
  · next hdeny => rw [if_neg hdeny, List.isEmpty_nil, if_pos rfl]

theorem endpointOk_append (fs : List (Option Filter)) (f : Option Filter) (endpoint : Bytes) :
    endpointOk (fs ++ [f]) endpoint = match f with
      | some (.endpoint ef) => ef.pass (({} : Event).setEndpoint endpoint)
      | _ => endpointOk fs endpoint := by
  cases f with
  | none => simp [endpointOk, lastEndpoint]
  | some f => cases f <;> simp [endpointOk, lastEndpoint]

/-- Narrower filter objects leave the endpoint verdict of a route, or turn it to no. -/
theorem endpointOk_read_mono {filters filters' : Nat → EndpointFilter} {endpoint : Bytes}
    (hle : ∀ object (e : Event), (filters' object).pass e = true → (filters object).pass e = true)
    (fs : List (Option SharedFilter))
    (h : endpointOk (fs.map (Option.map (SharedFilter.read filters'))) endpoint = true) :
    endpointOk (fs.map (Option.map (SharedFilter.read filters))) endpoint = true := by
  induction fs using List.reverseRecOn with
  | nil => exact h
  | append_singleton fs f ih =>
      rw [List.map_append, List.map_singleton, endpointOk_append] at h ⊢
      cases f with
      | none => exact ih h
      | some f =>
          cases f with
          | endpoint object => exact hle object _ h
          | fixed f =>
              cases f with
              | endpoint ef => exact h
              | severity sf => exact ih h
              | custom q => exact ih h

/-- The entries select every route below 64 whose last endpoint filter now passes the endpoint. -/
def CacheCovers (routes : List Route) (cache : List (Bytes × CacheEntry)) : Prop :=
  ∀ x ∈ cache, ∀ i r, i < 64 → routes[i]? = some r → endpointOk r.filterList x.1 = true →
    selects x.2.routeMask i = true

def Pipeline.Covered (p : Pipeline) : Prop :=
  p.dirtyCache = false → CacheCovers p.routes p.endpointCache

theorem Pipeline.Covered.lookup {p : Pipeline} (h : p.Covered) (endpoint : Bytes) :
    (p.cachedRouteMask endpoint).1.Covered := by
  have hnew : ∀ cache, CacheCovers p.routes cache →
      CacheCovers p.routes (emplace cache endpoint (computeCacheEntry p.routes endpoint)) := by
    intro cache hcache x hx
    unfold emplace at hx
    split at hx
    · exact hcache x hx
    · rcases List.mem_cons.1 hx with rfl | hx
      · exact fun i r hi hr hok => (computeCacheEntry_mask _ _ i).2 ⟨hi, r, hr, hok⟩
      · exact hcache x hx
  have hempty : CacheCovers p.routes [] := fun x hx => absurd hx (by simp)
  unfold Pipeline.cachedRouteMask Pipeline.refreshCache
  cases hd : p.dirtyCache with
  | true =>
      simp only [if_true, List.lookup_nil]
      exact fun _ => hnew [] hempty
  | false =>
      simp only [Bool.false_eq_true, if_false]
      split
      · exact h
      · exact fun _ => hnew _ (h hd)

theorem Pipeline.Covered.serves {p : Pipeline} (h : p.Covered) (e : Event) : CacheServes p e := by
  cases hd : p.dirtyCache with
  | true => exact Or.inl hd
  | false =>
      cases hl : p.endpointCache.lookup e.endpoint with
      | none => exact Or.inr (Or.inl hl)
      | some entry =>
          obtain ⟨as, bs, heq, -⟩ := List.lookup_eq_some_iff.1 hl
          refine Or.inr (Or.inr ⟨entry, hl, fun i r sink hi hr _ hacc => ?_⟩)
          exact h hd (e.endpoint, entry) (by simp [heq]) i r hi hr hacc.endpointOk

theorem SharedFilters.assign_covered {s : SharedFilters} (hinv : SharedInv s)
    (h : s.pipeline.Covered) {object : Nat} {f : EndpointFilter}
    (hle : ∀ e : Event, f.pass e = true → (s.filters object).pass e = true) :
    (s.assign object f).pipeline.Covered := by
  intro hd x hx i r hi hr hok
  have hroute : (s.routes.map (SharedRoute.read (Function.update s.filters object f)))[i]?
      = some r := hr
  rw [List.getElem?_map] at hroute
  obtain ⟨r₀, hr₀, rfl⟩ := Option.map_eq_some_iff.1 hroute
  have hcurrent : s.pipeline.routes[i]? = some (r₀.read s.filters) := by
    rw [hinv.routes_eq, SharedFilters.current, List.getElem?_map, hr₀, Option.map_some]
  refine h hd x hx i _ hi hcurrent (endpointOk_read_mono (fun o e hpass => ?_) _ hok)
  by_cases ho : o = object
  · subst ho
    exact hle e (by simpa using hpass)
  · simpa [ho] using hpass

/-- One call that narrows keeps the cache good enough. -/
theorem covered_call {s s' : SharedFilters} {c : FilterCall} {out : List Output}
    (hinv : SharedInv s) (h : s.pipeline.Covered) (hc : s.call platform c = some (s', out))
    (hnarrow : c.Narrows s) : s'.pipeline.Covered := by
  cases c with
  | configure cfg =>
      obtain ⟨rfl, -⟩ := Prod.mk.inj (Option.some.inj hc)
      simp only [Pipeline.configure]
      split <;> exact h
  | allow object pre =>
      obtain ⟨rfl, -⟩ := Prod.mk.inj (Option.some.inj hc)
      exact SharedFilters.assign_covered hinv h (fun _ => allow_pass hnarrow)
  | deny object pre =>
      obtain ⟨rfl, -⟩ := Prod.mk.inj (Option.some.inj hc)
      exact SharedFilters.assign_covered hinv h (fun _ => deny_pass)
  | addRoute r =>
      obtain ⟨rfl, -⟩ := Prod.mk.inj (Option.some.inj hc)
      exact fun hd => absurd hd (by simp [Pipeline.pushRoute, Pipeline.updateCrossbar])
  | clearRoutes =>
      obtain ⟨rfl, -⟩ := Prod.mk.inj (Option.some.inj hc)
      exact fun hd => absurd hd (by simp [Pipeline.dropRoutes, Pipeline.updateCrossbar])
  | cachedMinPriority endpoint =>
      obtain ⟨rfl, -⟩ := Prod.mk.inj (Option.some.inj hc)
      rw [Pipeline.cachedMinPriority_fst]
      exact h.lookup endpoint
  | submit e forceSync =>
      obtain ⟨⟨p, out'⟩, hsub, hres⟩ := Option.map_eq_some_iff.1 hc
      obtain ⟨rfl, -⟩ := Prod.mk.inj hres
      obtain ⟨crossbar, rfl, -⟩ := submit_frame hsub
      exact h.lookup e.endpoint

/-- **Stale bits are repaired.** In a history whose filter changes only narrow, every `submit` in a
    synchronous configuration writes what the routes with their filters as they are now owe. -/
theorem narrowing_keeps_exact {s : SharedFilters}
    (hs : (dynamicRouting platform).ReachableBy (fun s c => c.Narrows s) s)
    (hsync : s.pipeline.cfg.asyncByDefault = false) (e : Event) (forceSync : Bool) :
    ∃ s' out, s.call platform (.submit e forceSync) = some (s', out) ∧
      out.filter Output.isWrite = owedWrites [] s.current e := by
  have hcovered : SharedInv s ∧ s.pipeline.Covered := by
    refine hs.invariant (I := fun t => SharedInv t ∧ t.pipeline.Covered)
      (fun t ht => ⟨.of_init ht, ?_⟩) (fun t c t' h hnarrow hstep => ?_)
    · obtain ⟨-, cfg, started, hp⟩ := ht
      rw [hp]
      cases started <;> exact fun hd => absurd (show true = false from hd) (by simp)
    · obtain ⟨⟨t₁, out⟩, hcall, rfl⟩ := Option.map_eq_some_iff.1 hstep
      exact ⟨h.1.call hcall, covered_call h.1 h.2 hcall hnarrow⟩
  exact (hcovered.1.exact_iff hsync e forceSync).2 (hcovered.2.serves e)

end SyLog
