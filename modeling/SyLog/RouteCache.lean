import Mathlib.Data.List.Induction
import SyLog.Route

set_option autoImplicit false

/-! # Cache entries

`Pipeline::compute_cache_entry_` summarises the route list for one endpoint: a mask with a bit for
each of the first 64 routes that may accept an event of the endpoint, and the least severity that
one of these routes asks for. The summary reads, of each route, only the **last** `EndpointFilter`
and the **last** `SeverityFilter`; this file says what that makes of it. -/

namespace SyLog

abbrev RouteMask := BitVec 64

/-- The test `((route_mask >> i) & 1ull) != 0`. -/
def selects (mask : RouteMask) (i : Nat) : Bool := ((mask >>> i) &&& 1#64) != 0#64

theorem selects_eq_getLsbD (mask : RouteMask) (i : Nat) : selects mask i = mask.getLsbD i := by
  have hzero : ((mask >>> i) &&& 1#64 = 0#64) ↔ mask.getLsbD i = false := by
    constructor
    · intro h
      simpa using congrArg (fun b => b.getLsbD 0) h
    · intro h
      ext j
      by_cases hj : j = 0
      · subst hj
        simpa using h
      · simp [hj]
  cases hb : mask.getLsbD i with
  | true => simp [selects, hzero, hb]
  | false => simp [selects, hzero.2 hb]

/-- `Pipeline::CacheEntry`. -/
structure CacheEntry where
  minPriority : UInt16 := 65535
  routeMask : RouteMask := 0#64
  deriving DecidableEq, Repr

/-! ## The computation -/

/-- The two locals that the filter loop of one route fills. -/
structure FilterScan where
  endpointOk : Bool := true
  minPriority : UInt16 := Severity.trace.priority
  deriving DecidableEq, Repr

/-- One filter pointer of the loop. A later filter overwrites what an earlier one of its kind
    left. -/
def FilterScan.visit (endpoint : Bytes) (scan : FilterScan) : Option Filter → FilterScan
  | none => scan
  | some (.severity sf) => { scan with minPriority := sf.minimumPriority }
  | some (.endpoint ef) =>
      { scan with endpointOk := ef.pass (({} : Event).setEndpoint endpoint) }
  | some (.custom _) => scan

def scanFilters (endpoint : Bytes) (fs : List (Option Filter)) : FilterScan :=
  fs.foldl (FilterScan.visit endpoint) {}

/-- Account for the route with index `i`. -/
def CacheEntry.addRoute (endpoint : Bytes) (i : Nat) (out : CacheEntry) (r : Route) : CacheEntry :=
  let scan := scanFilters endpoint r.filterList
  if !scan.endpointOk then out
  else
    { routeMask := out.routeMask ||| (1#64 <<< i)
      minPriority :=
        if scan.minPriority < out.minPriority then scan.minPriority else out.minPriority }

/-- The loop `for (i = 0; i < routes.size() && i < 64; ++i)`. -/
def computeLoop (endpoint : Bytes) : Nat → List Route → CacheEntry → CacheEntry
  | _, [], out => out
  | i, r :: rs, out =>
    if i < 64 then computeLoop endpoint (i + 1) rs (out.addRoute endpoint i r) else out

/-- `compute_cache_entry_` on its snapshot of the routes. -/
def computeCacheEntry (routes : List Route) (endpoint : Bytes) : CacheEntry :=
  computeLoop endpoint 0 routes {}

/-! ## One route -/

/-- The minimum of the last `SeverityFilter` of a filter list. -/
def lastSeverity (fs : List (Option Filter)) : Option UInt16 :=
  (fs.filterMap (fun f => match f with
    | some (.severity sf) => some sf.minimumPriority
    | _ => none)).getLast?

/-- The last `EndpointFilter` of a filter list. -/
def lastEndpoint (fs : List (Option Filter)) : Option EndpointFilter :=
  (fs.filterMap (fun f => match f with
    | some (.endpoint ef) => some ef
    | _ => none)).getLast?

/-- The last `EndpointFilter`, if there is one, passes the endpoint. -/
def endpointOk (fs : List (Option Filter)) (endpoint : Bytes) : Bool :=
  match lastEndpoint fs with
  | some ef => ef.pass (({} : Event).setEndpoint endpoint)
  | none => true

theorem scanFilters_append (endpoint : Bytes) (fs : List (Option Filter)) (f : Option Filter) :
    scanFilters endpoint (fs ++ [f]) = (scanFilters endpoint fs).visit endpoint f := by
  simp only [scanFilters, List.foldl_append, List.foldl_cons, List.foldl_nil]

theorem scanFilters_eq (endpoint : Bytes) (fs : List (Option Filter)) :
    scanFilters endpoint fs
      = { endpointOk := endpointOk fs endpoint
          minPriority := (lastSeverity fs).getD Severity.trace.priority } := by
  induction fs using List.reverseRecOn with
  | nil => rfl
  | append_singleton fs f ih =>
      rw [scanFilters_append, ih]
      cases f with
      | none => simp [FilterScan.visit, endpointOk, lastEndpoint, lastSeverity]
      | some f =>
          cases f with
          | severity sf => simp [FilterScan.visit, endpointOk, lastEndpoint, lastSeverity]
          | endpoint ef => simp [FilterScan.visit, endpointOk, lastEndpoint, lastSeverity]
          | custom p => simp [FilterScan.visit, endpointOk, lastEndpoint, lastSeverity]

theorem lastEndpoint_mem {fs : List (Option Filter)} {ef : EndpointFilter}
    (h : lastEndpoint fs = some ef) : some (.endpoint ef) ∈ fs := by
  obtain ⟨f, hf, hef⟩ := List.mem_filterMap.1 (List.mem_of_getLast? h)
  split at hef
  · next ef' =>
      obtain rfl := Option.some.inj hef
      exact hf
  · exact absurd hef (by simp)

theorem lastSeverity_mem {fs : List (Option Filter)} {m : UInt16}
    (h : lastSeverity fs = some m) : some (.severity ⟨m⟩) ∈ fs := by
  obtain ⟨f, hf, hm⟩ := List.mem_filterMap.1 (List.mem_of_getLast? h)
  split at hm
  · next sf =>
      obtain rfl := Option.some.inj hm
      exact hf
  · exact absurd hm (by simp)

/-- The endpoint verdict errs only towards accepting. -/
theorem Route.accepts.endpointOk {r : Route} {e : Event} (h : r.accepts e) :
    endpointOk r.filterList e.endpoint = true := by
  unfold SyLog.endpointOk
  split
  · next ef hef =>
      have hpass : ef.pass e = true := h _ (lastEndpoint_mem hef)
      rw [← hpass]
      exact ef.pass_congr (by simp)
  · rfl

/-- An accepted event meets the last severity bound of the route. -/
theorem Route.accepts.lastSeverity_le {r : Route} {e : Event} {m : UInt16} (h : r.accepts e)
    (hm : lastSeverity r.filterList = some m) : m ≤ e.severityPriority :=
  of_decide_eq_true (h _ (lastSeverity_mem hm))

/-! ## The route list -/

/-- The bound that route `r` contributes to the minimum. -/
def Route.minPriority (r : Route) : UInt16 :=
  (lastSeverity r.filterList).getD Severity.trace.priority

theorem CacheEntry.addRoute_eq (endpoint : Bytes) (i : Nat) (out : CacheEntry) (r : Route) :
    out.addRoute endpoint i r
      = if endpointOk r.filterList endpoint then
          { routeMask := out.routeMask ||| (1#64 <<< i)
            minPriority :=
              if r.minPriority < out.minPriority then r.minPriority else out.minPriority }
        else out := by
  simp only [addRoute, scanFilters_eq, Route.minPriority]
  cases endpointOk r.filterList endpoint <;> rfl

theorem addRoute_mask (endpoint : Bytes) (i j : Nat) (out : CacheEntry) (r : Route) (hi : i < 64) :
    (out.addRoute endpoint i r).routeMask.getLsbD j
      = (out.routeMask.getLsbD j || (decide (j = i) && endpointOk r.filterList endpoint)) := by
  rw [CacheEntry.addRoute_eq]
  cases hok : endpointOk r.filterList endpoint with
  | false => simp
  | true =>
      simp only [if_true, BitVec.getLsbD_or, BitVec.getLsbD_shiftLeft, BitVec.getLsbD_one]
      congr 1
      rw [Bool.eq_iff_iff]
      simp only [Bool.and_eq_true, decide_eq_true_eq, Bool.not_eq_true', decide_eq_false_iff_not,
        and_true]
      omega

theorem lt_addRoute_minPriority (endpoint : Bytes) (i : Nat) (out : CacheEntry) (r : Route)
    (p : UInt16) :
    p < (out.addRoute endpoint i r).minPriority
      ↔ p < out.minPriority ∧ (endpointOk r.filterList endpoint = true → p < r.minPriority) := by
  rw [CacheEntry.addRoute_eq]
  cases hok : endpointOk r.filterList endpoint with
  | false => simp
  | true =>
      simp only [if_true, forall_const]
      split <;> grind

theorem computeLoop_mask (endpoint : Bytes) (rs : List Route) (i j : Nat) (out : CacheEntry) :
    (computeLoop endpoint i rs out).routeMask.getLsbD j = true
      ↔ out.routeMask.getLsbD j = true ∨
        (i ≤ j ∧ j < 64 ∧ ∃ r, rs[j - i]? = some r ∧
          endpointOk r.filterList endpoint = true) := by
  induction rs generalizing i out with
  | nil => simp [computeLoop]
  | cons r rs ih =>
      simp only [computeLoop]
      by_cases hi : i < 64
      · rw [if_pos hi, ih, addRoute_mask _ _ _ _ _ hi]
        by_cases hj : j = i
        · subst hj
          simp [hi]
        · -- bit `j` stands for position `j - i` of the list that is left
          have hidx : i ≤ j → (r :: rs)[j - i]? = rs[j - (i + 1)]? := by
            intro hle
            obtain ⟨k, hk⟩ : ∃ k, j - i = k + 1 := ⟨j - i - 1, by omega⟩
            rw [hk, List.getElem?_cons_succ, show j - (i + 1) = k by omega]
          constructor
          · rintro (h | ⟨hle, hlt, hr⟩)
            · left
              simpa [hj] using h
            · exact Or.inr ⟨by omega, hlt, by rwa [hidx (by omega)]⟩
          · rintro (h | ⟨hle, hlt, hr⟩)
            · left
              simp [h]
            · exact Or.inr ⟨by omega, hlt, by rwa [← hidx hle]⟩
      · rw [if_neg hi]
        constructor
        · exact Or.inl
        · rintro (h | ⟨hle, hlt, _⟩)
          · exact h
          · omega

theorem lt_computeLoop_minPriority (endpoint : Bytes) (rs : List Route) (i : Nat)
    (out : CacheEntry) (p : UInt16) :
    p < (computeLoop endpoint i rs out).minPriority
      ↔ p < out.minPriority ∧ ∀ k r, i + k < 64 → rs[k]? = some r →
          endpointOk r.filterList endpoint = true → p < r.minPriority := by
  induction rs generalizing i out with
  | nil => simp [computeLoop]
  | cons r rs ih =>
      simp only [computeLoop]
      by_cases hi : i < 64
      · rw [if_pos hi, ih, lt_addRoute_minPriority]
        constructor
        · rintro ⟨⟨hout, hr⟩, hrest⟩
          refine ⟨hout, fun k r' hk hr' hok => ?_⟩
          cases k with
          | zero =>
              obtain rfl : r = r' := by simpa using hr'
              exact hr hok
          | succ k => exact hrest k r' (by omega) (by simpa using hr') hok
        · rintro ⟨hout, hall⟩
          exact ⟨⟨hout, hall 0 r (by omega) (by simp)⟩,
            fun k r' hk hr' hok => hall (k + 1) r' (by omega) (by simpa using hr') hok⟩
      · rw [if_neg hi]
        exact ⟨fun h => ⟨h, fun k r' hk => by omega⟩, fun h => h.1⟩

/-- **The mask of an entry.** Bit `i` stands for the routes below 64 whose last endpoint filter
    passes the endpoint. -/
theorem computeCacheEntry_mask (routes : List Route) (endpoint : Bytes) (i : Nat) :
    selects (computeCacheEntry routes endpoint).routeMask i = true
      ↔ i < 64 ∧ ∃ r, routes[i]? = some r ∧ endpointOk r.filterList endpoint = true := by
  rw [selects_eq_getLsbD, computeCacheEntry, computeLoop_mask]
  simp

/-- **The minimum of an entry.** -/
theorem lt_computeCacheEntry_minPriority (routes : List Route) (endpoint : Bytes) (p : UInt16) :
    p < (computeCacheEntry routes endpoint).minPriority
      ↔ p < 65535 ∧ ∀ i r, i < 64 → routes[i]? = some r →
          endpointOk r.filterList endpoint = true → p < r.minPriority := by
  rw [computeCacheEntry, lt_computeLoop_minPriority]
  simp

/-- **Masks over-approximate.** The bit of a route that accepts an event is set. -/
theorem computeCacheEntry_selects {routes : List Route} {e : Event} {i : Nat} {r : Route}
    (hi : i < 64) (hr : routes[i]? = some r) (hacc : r.accepts e) :
    selects (computeCacheEntry routes e.endpoint).routeMask i = true :=
  (computeCacheEntry_mask routes e.endpoint i).2 ⟨hi, r, hr, hacc.endpointOk⟩

theorem selects_zero (i : Nat) : selects 0#64 i = false := by
  simp [selects_eq_getLsbD]

/-- The mask is empty when the last endpoint filter of each route below 64 rejects the endpoint. -/
theorem computeCacheEntry_mask_eq_zero_iff (routes : List Route) (endpoint : Bytes) :
    (computeCacheEntry routes endpoint).routeMask = 0#64
      ↔ ∀ i r, i < 64 → routes[i]? = some r → endpointOk r.filterList endpoint = false := by
  constructor
  · intro h i r hi hr
    refine Bool.eq_false_iff.2 (fun hok => ?_)
    have hsel := (computeCacheEntry_mask routes endpoint i).2 ⟨hi, r, hr, hok⟩
    rw [h, selects_zero] at hsel
    exact absurd hsel (by simp)
  · intro h
    refine BitVec.eq_of_getLsbD_eq (fun i hi => ?_)
    rw [← selects_eq_getLsbD, ← selects_eq_getLsbD, selects_zero]
    refine Bool.eq_false_iff.2 (fun hsel => ?_)
    obtain ⟨-, r, hr, hok⟩ := (computeCacheEntry_mask routes endpoint i).1 hsel
    rw [h i r hi hr] at hok
    exact absurd hok (by simp)

theorem le_65535 (p : UInt16) : p ≤ 65535 := by
  have hmax : p.toNat < 2 ^ 16 := p.toNat_lt
  rw [UInt16.le_iff_toNat_le]
  simp only [UInt16.reduceToNat]
  omega

/-- An empty mask comes with the greatest minimum. -/
theorem computeCacheEntry_minPriority_of_mask_zero {routes : List Route} {endpoint : Bytes}
    (h : (computeCacheEntry routes endpoint).routeMask = 0#64) :
    (computeCacheEntry routes endpoint).minPriority = 65535 := by
  have hnone := (computeCacheEntry_mask_eq_zero_iff routes endpoint).1 h
  by_contra hne
  have hlt : (computeCacheEntry routes endpoint).minPriority < 65535 :=
    UInt16.lt_of_le_of_ne (le_65535 _) hne
  have hself := (lt_computeCacheEntry_minPriority routes endpoint _).2
    ⟨hlt, fun i r hi hr hok => absurd hok (by simp [hnone i r hi hr])⟩
  grind

end SyLog
