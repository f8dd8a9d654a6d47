import SyLog.Event

set_option autoImplicit false

/-! # Filters, routes and configuration

A `shared_ptr` that may be null is an `Option`. Filters and renderers are pure, so a filter object
is the function it computes; the two built-in kinds stay apart from custom ones because the endpoint
cache tells them apart with `dynamic_cast`. A sink is its identity: what the pipeline does to a sink
is recorded as `Output`. -/

namespace SyLog

/-! ## Filters -/

structure SeverityFilter where
  minimumPriority : UInt16 := 0
  deriving DecidableEq, Repr

def SeverityFilter.pass (f : SeverityFilter) (e : Event) : Bool :=
  decide (f.minimumPriority ≤ e.severityPriority)

structure EndpointFilter where
  allowPrefixes : List Bytes := []
  denyPrefixes : List Bytes := []
  deriving DecidableEq, Repr

namespace EndpointFilter

def allow (f : EndpointFilter) (pre : Bytes) : EndpointFilter :=
  { f with allowPrefixes := f.allowPrefixes ++ [pre] }

def deny (f : EndpointFilter) (pre : Bytes) : EndpointFilter :=
  { f with denyPrefixes := f.denyPrefixes ++ [pre] }

def matchesPrefix (ep pre : Bytes) : Bool :=
  if pre.isEmpty then true
  else if ep.length < pre.length then false
  else ep.take pre.length == pre

def pass (f : EndpointFilter) (e : Event) : Bool :=
  if f.denyPrefixes.any (matchesPrefix e.endpoint) then false
  else if f.allowPrefixes.isEmpty then true
  else f.allowPrefixes.any (matchesPrefix e.endpoint)

/-- The verdict reads nothing of the event but its endpoint. -/
theorem pass_congr (f : EndpointFilter) {e e' : Event} (h : e.endpoint = e'.endpoint) :
    f.pass e = f.pass e' := by
  simp only [pass, h]

end EndpointFilter

/-- An `IFilter` object. `custom` is a class that derives from neither built-in filter. -/
inductive Filter where
  | severity (f : SeverityFilter)
  | endpoint (f : EndpointFilter)
  | custom (pass : Event → Bool)

def Filter.pass : Filter → Event → Bool
  | .severity f, e => f.pass e
  | .endpoint f, e => f.pass e
  | .custom p, e => p e

/-- The loop `if (f && !f->pass(e)) return false` over a list of filter pointers. -/
def passesAll (fs : List (Option Filter)) (e : Event) : Bool :=
  fs.all (fun f => match f with | none => true | some f => f.pass e)

/-- Every filter passes, null pointers counting as passing. -/
def FiltersAccept (fs : List (Option Filter)) (e : Event) : Prop :=
  ∀ f, some f ∈ fs → f.pass e = true

theorem passesAll_iff (fs : List (Option Filter)) (e : Event) :
    passesAll fs e = true ↔ FiltersAccept fs e := by
  simp only [passesAll, List.all_eq_true]
  constructor
  · intro h f hf
    exact h (some f) hf
  · intro h f hf
    cases f with
    | none => rfl
    | some f => exact h f hf

instance (fs : List (Option Filter)) (e : Event) : Decidable (FiltersAccept fs e) :=
  decidable_of_iff _ (passesAll_iff fs e)

/-! ## Routes -/

/-- An `IRenderer` object: `render(e, out)` maps the old contents of `out` to the new ones. -/
structure Renderer where
  render : Event → Bytes → Bytes

inductive DeliveryStrategy where
  | dropWhenFull
  | blockWhenFull
  deriving DecidableEq, Repr

structure Route where
  sinkRef : Option Nat := none
  rendererRef : Option Renderer := none
  filterList : List (Option Filter) := []
  delivery : Option DeliveryStrategy := some .dropWhenFull

/-- What the pipeline makes visible: a write or a flush of the sink of a route, named by the route's
    index, or a write to `stderr`. -/
inductive Output where
  | write (route sink : Nat) (data : Bytes)
  | flush (route sink : Nat)
  | fallback (data : Bytes)
  deriving DecidableEq, Repr

/-! ### What a route should do with an event

The purpose of a route, independent of the two places of the source that carry it out. -/

/-- Every filter of the route passes the event. -/
def Route.accepts (r : Route) (e : Event) : Prop := FiltersAccept r.filterList e

instance (r : Route) (e : Event) : Decidable (r.accepts e) :=
  inferInstanceAs (Decidable (FiltersAccept r.filterList e))

/-- The renderer's output, or the message with a newline if it is non-empty and lacks one. -/
def Route.line (r : Route) (e : Event) : Bytes :=
  match r.rendererRef with
  | some renderer => renderer.render e []
  | none => if e.message = [] ∨ e.message.getLast? = some newline then e.message
            else e.message ++ [newline]

/-- The one write that an accepting route with a sink owes an event. -/
def Route.outputs (r : Route) (i : Nat) (e : Event) : List Output :=
  match r.sinkRef with
  | some sink => if r.accepts e then [.write i sink (r.line e)] else []
  | none => []

/-- A write to a sink, rather than a flush or the fallback. -/
def Output.isWrite : Output → Bool
  | .write _ _ _ => true
  | _ => false

/-- The bytes that an output writes on behalf of route `i`. -/
def Output.dataFor (i : Nat) : Output → Option Bytes
  | .write j _ data => if j = i then some data else none
  | _ => none

theorem Route.outputs_dataFor {r : Route} {i j : Nat} (h : i ≠ j) (e : Event) :
    (r.outputs i e).filterMap (Output.dataFor j) = [] := by
  unfold Route.outputs
  cases r.sinkRef with
  | none => rfl
  | some sink =>
      by_cases hacc : r.accepts e
      · simp [hacc, Output.dataFor, h]
      · simp [hacc]

theorem Route.outputs_isWrite (r : Route) (i : Nat) (e : Event) :
    ∀ o ∈ r.outputs i e, o.isWrite = true := by
  intro o ho
  unfold Route.outputs at ho
  split at ho
  · split at ho
    · obtain rfl := List.mem_singleton.1 ho
      rfl
    · simp at ho
  · simp at ho

theorem Route.outputs_of_not_accepts {r : Route} {i : Nat} {e : Event} (h : ¬ r.accepts e) :
    r.outputs i e = [] := by
  unfold Route.outputs
  cases r.sinkRef with
  | none => rfl
  | some sink => exact if_neg h

/-! ## Configuration -/

structure Config where
  asyncByDefault : Bool := true
  queueCapacity : UInt64 := 65536
  fatalSync : Bool := true
  deriving DecidableEq, Repr

namespace Config

def asynchronous (queueCapacity : UInt64 := 65536) : Config := { queueCapacity }

def synchronous : Config := { asyncByDefault := false }

end Config

end SyLog
