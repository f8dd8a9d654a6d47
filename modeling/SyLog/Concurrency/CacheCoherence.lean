import SyLog.Library.Machine
import SyLog.Pipeline

set_option autoImplicit false

/-! # The endpoint cache under concurrent lookups

`cached_route_mask_` holds no lock from its first look at the cache to its last: it checks the dirty
flag, looks the endpoint up, copies the routes, computes the entry and stores it in four separate
critical sections. Here any number of threads run lookups, one section a step, while others change
the routes.

The routes that a lookup copied may be out of date by the time it stores its entry. This is harmless
as long as the dirty flag is still set, for then the entry is cleared again; but another lookup may
have consumed the flag in between. `staleEmplace` is that situation, and it is the only thing that
breaks the cache. -/

namespace SyLog

/-- Where a thread is in `cached_route_mask_`. -/
inductive LookupPhase where
  | idle
  /-- about to check the dirty flag -/
  | checking (endpoint : Bytes)
  /-- about to look the endpoint up -/
  | finding (endpoint : Bytes)
  /-- the endpoint was not there; `compute_cache_entry_` is about to copy the routes -/
  | snapshotting (endpoint : Bytes)
  /-- about to store the entry computed from the copy -/
  | emplacing (endpoint : Bytes) (snapshot : List Route)

structure LookupState where
  pipeline : Pipeline := .init
  lookups : Nat → LookupPhase := fun _ => .idle

inductive LookupStep where
  /-- the section of `add_route` that changes the routes -/
  | pushRoute (r : Route)
  /-- the section of `clear_routes` that changes the routes -/
  | dropRoutes
  /-- thread `t` calls `cached_route_mask_` -/
  | call (t : Nat) (endpoint : Bytes)
  /-- thread `t` runs its next section -/
  | advance (t : Nat)

namespace LookupState

def setLookup (s : LookupState) (t : Nat) (phase : LookupPhase) : LookupState :=
  { s with lookups := Function.update s.lookups t phase }

/-- The next section of the lookup of thread `t`. -/
def advance (s : LookupState) (t : Nat) : Option LookupState :=
  match s.lookups t with
  | .idle => none
  | .checking endpoint =>
    some ({ s with pipeline := s.pipeline.refreshCache }.setLookup t (.finding endpoint))
  | .finding endpoint =>
    match s.pipeline.endpointCache.lookup endpoint with
    | some _ => some (s.setLookup t .idle)
    | none => some (s.setLookup t (.snapshotting endpoint))
  | .snapshotting endpoint => some (s.setLookup t (.emplacing endpoint s.pipeline.routes))
  | .emplacing endpoint snapshot =>
    let computed := computeCacheEntry snapshot endpoint
    let cache := emplace s.pipeline.endpointCache endpoint computed
    some ({ s with pipeline := { s.pipeline with endpointCache := cache } }.setLookup t .idle)

end LookupState

/-- Lookups and route changes by any number of threads, on a pipeline as it is constructed. -/
def cacheLookups : Machine LookupState LookupStep where
  init s := s = {}
  next s
    | .pushRoute r => some { s with pipeline := s.pipeline.pushRoute r }
    | .dropRoutes => some { s with pipeline := s.pipeline.dropRoutes }
    | .call t endpoint =>
      match s.lookups t with
      | .idle => some (s.setLookup t (.checking endpoint))
      | _ => none
    | .advance t => s.advance t

/-! ## One lookup without interruption -/

/-- **The sections make up the lookup.** A thread that is not interrupted does to the pipeline what
    `cachedRouteMask` does. -/
theorem cacheLookups_alone (s : LookupState) (t : Nat) (endpoint : Bytes)
    (h : s.lookups t = .idle) :
    ∃ n, cacheLookups.run s (.call t endpoint :: List.replicate n (.advance t))
      = some { s with pipeline := (s.pipeline.cachedRouteMask endpoint).1 } := by
  have hback : ∀ phase, Function.update (Function.update s.lookups t phase) t .idle = s.lookups :=
    fun phase => by rw [Function.update_idem, ← h, Function.update_eq_self]
  cases hl : s.pipeline.refreshCache.endpointCache.lookup endpoint with
  | some entry =>
      refine ⟨2, ?_⟩
      simp [Machine.run, cacheLookups, h, LookupState.advance, LookupState.setLookup, hl, hback,
        Pipeline.cachedRouteMask]
  | none =>
      refine ⟨4, ?_⟩
      simp [Machine.run, cacheLookups, h, LookupState.advance, LookupState.setLookup, hl, hback,
        Pipeline.cachedRouteMask]

/-! ## Storing a stale entry -/

/-- The step stores an entry that the current routes do not give, under an endpoint that has none,
    while no clearing is due. -/
def LookupState.staleEmplace (s : LookupState) : LookupStep → Bool
  | .advance t =>
    match s.lookups t with
    | .emplacing endpoint snapshot =>
      !s.pipeline.dirtyCache && (s.pipeline.endpointCache.lookup endpoint).isNone &&
        computeCacheEntry snapshot endpoint != computeCacheEntry s.pipeline.routes endpoint
    | _ => false
  | _ => false

theorem LookupState.staleEmplace_emplacing {s : LookupState} {t : Nat} {endpoint : Bytes}
    {snapshot : List Route} (h : s.lookups t = .emplacing endpoint snapshot) :
    s.staleEmplace (.advance t) = true ↔
      s.pipeline.dirtyCache = false ∧ s.pipeline.endpointCache.lookup endpoint = none ∧
        computeCacheEntry snapshot endpoint ≠ computeCacheEntry s.pipeline.routes endpoint := by
  simp [staleEmplace, h, and_assoc]

/-- Any step but a stale store keeps the cache coherent. -/
theorem coherent_step {s s' : LookupState} {step : LookupStep} (h : s.pipeline.Coherent)
    (hfresh : s.staleEmplace step = false) (hstep : cacheLookups.next s step = some s') :
    s'.pipeline.Coherent := by
  cases step with
  | pushRoute r =>
      obtain rfl := Option.some.inj hstep
      exact s.pipeline.pushRoute_coherent r
  | dropRoutes =>
      obtain rfl := Option.some.inj hstep
      exact s.pipeline.dropRoutes_coherent
  | call t endpoint =>
      simp only [cacheLookups] at hstep
      split at hstep
      · obtain rfl := Option.some.inj hstep
        exact h
      · exact absurd hstep (by simp)
  | advance t =>
      simp only [cacheLookups, LookupState.advance] at hstep
      split at hstep
      · exact absurd hstep (by simp)
      · obtain rfl := Option.some.inj hstep
        exact h.refreshCache
      · split at hstep
        all_goals
          obtain rfl := Option.some.inj hstep
          exact h
      · obtain rfl := Option.some.inj hstep
        exact h
      · next endpoint snapshot hphase =>
          obtain rfl := Option.some.inj hstep
          intro hd
          cases hl : s.pipeline.endpointCache.lookup endpoint with
          | some entry =>
              -- an entry that is there is kept
              have hkeep : emplace s.pipeline.endpointCache endpoint
                  (computeCacheEntry snapshot endpoint) = s.pipeline.endpointCache := by
                simp [emplace, hl]
              intro x hx
              simp only [LookupState.setLookup, hkeep] at hx
              exact h hd x hx
          | none =>
              -- the entry is stored, and the guard says that it is current
              have heq : computeCacheEntry snapshot endpoint
                  = computeCacheEntry s.pipeline.routes endpoint := by
                by_contra hne
                have hstale := (LookupState.staleEmplace_emplacing hphase).2 ⟨hd, hl, hne⟩
                exact absurd (hstale.symm.trans hfresh) (by simp)
              exact CacheFresh.emplace (h hd) heq

/-- A stale store leaves a wrong entry in a cache that counts as clean. -/
theorem not_coherent_of_staleEmplace {s s' : LookupState} {step : LookupStep}
    (hstale : s.staleEmplace step = true) (hstep : cacheLookups.next s step = some s') :
    ¬ s'.pipeline.Coherent := by
  cases step with
  | advance t =>
      cases hphase : s.lookups t with
      | emplacing endpoint snapshot =>
          obtain ⟨hd, hl, hne⟩ := (LookupState.staleEmplace_emplacing hphase).1 hstale
          simp only [cacheLookups, LookupState.advance, hphase, Option.some.injEq] at hstep
          subst hstep
          intro hcoh
          refine hne (hcoh hd (endpoint, computeCacheEntry snapshot endpoint) ?_)
          simp [LookupState.setLookup, emplace, hl]
      | _ => simp [LookupState.staleEmplace, hphase] at hstale
  | _ => simp [LookupState.staleEmplace] at hstale

/-- **The cache is coherent** in every state that is reached without a stale store: unless the dirty
    flag is set, each entry is what the current routes give for its endpoint, whether or not lookups
    are in flight. A stale store breaks this at once (`not_coherent_of_staleEmplace`). -/
theorem endpointCache_coherent {s : LookupState}
    (hs : cacheLookups.ReachableBy (fun s step => s.staleEmplace step = false) s)
    (hd : s.pipeline.dirtyCache = false) (x : Bytes × CacheEntry)
    (hx : x ∈ s.pipeline.endpointCache) : x.2 = computeCacheEntry s.pipeline.routes x.1 := by
  have hinit : ∀ s : LookupState, cacheLookups.init s → s.pipeline.Coherent := by
    rintro _ rfl
    exact fun hd => by simp [Pipeline.init] at hd
  have hcoh : s.pipeline.Coherent :=
    hs.invariant (I := fun s => s.pipeline.Coherent) hinit
      (fun _ _ _ h hfresh hstep => coherent_step h hfresh hstep)
  exact hcoh hd x hx

theorem endpointCache_coherent_after_lookup :
    ∃ s : LookupState, s.pipeline.dirtyCache = false ∧ s.pipeline.endpointCache ≠ [] ∧
      ∀ x ∈ s.pipeline.endpointCache, x.2 = computeCacheEntry s.pipeline.routes x.1 := by
  have hinit : cacheLookups.ReachableBy (fun s step => s.staleEmplace step = false) {} := .init rfl
  have hs := hinit.runBy [.pushRoute { sinkRef := some 7 }, .call 0 (bytes "db"), .advance 0,
    .advance 0, .advance 0, .advance 0] rfl
  exact ⟨_, rfl, List.cons_ne_nil _ _, endpointCache_coherent hs rfl⟩

/-! ## A lookup that is overtaken -/

/-- One lookup copies the empty route list; a route is added; a lookup of another endpoint clears
    the cache; the first lookup stores its entry. -/
def overtakenLookup (r : Route) : List LookupStep :=
  [.call 0 (bytes "db"), .advance 0, .advance 0, .advance 0, .pushRoute r,
    .call 1 (bytes "net"), .advance 1, .advance 1, .advance 1, .advance 1, .advance 0]

theorem endpointCache_not_coherent :
    ∃ s, cacheLookups.Reachable s ∧ (∀ t, s.lookups t = .idle) ∧ s.pipeline.dirtyCache = false ∧
      ∃ x ∈ s.pipeline.endpointCache, x.2 ≠ computeCacheEntry s.pipeline.routes x.1 := by
  have hinit : cacheLookups.Reachable {} := .init rfl
  refine ⟨_, hinit.run (overtakenLookup { sinkRef := some 7 }) rfl, ?_, rfl,
    (bytes "db", computeCacheEntry [] (bytes "db")), List.mem_cons_self, by decide⟩
  intro t
  by_cases h0 : t = 0 <;> by_cases h1 : t = 1 <;>
    simp [LookupState.setLookup, Function.update, h0, h1]

end SyLog
