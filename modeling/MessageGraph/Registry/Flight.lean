import MessageGraph.Blueprint.Text
import MessageGraph.Registry.Store

/-!
# Loads in flight

A registry holds the models that have been loaded or saved, and the *flights*: loads of a location
that have been started. A flight fetches both documents of its location, builds the model, loads the
models it links to and stands them in their groups. Whoever asks for a location in flight shares that
flight, so no location is fetched twice at a time.

A flight moves by small steps, each taken at once: a document arrives (`answer?`), the next link is
started (`startLink?`), a link whose flight is over is settled (`settleLink?`), the flight lands
(`land?`). Flights take their steps in any order between each other. A link to a location in flight
that waits for the importer itself, directly or through others, is refused; `waits` records who waits
for whom.
-/
namespace MessageGraph

/-- A link of a model being loaded. -/
inductive LinkProgress
  | waiting (flight : Nat)
  | settled (result : Except LoadError Blueprint)

structure LinkLoad where
  group : Id
  location : String
  progress : LinkProgress

inductive Stage
  /-- The documents that have arrived. -/
  | fetching (behavioral visual : Option (Except StoreError String))
  /-- The model without its linked content, the links to start and those started. -/
  | linking (model : Blueprint) (ahead : List (Id × String)) (started : List LinkLoad)
  | over (result : Except LoadError Blueprint)

structure Flight where
  location : String
  stage : Stage

structure Registry where
  options : Options := {}
  store : Store := {}
  models : ByLocation Blueprint := {}
  /-- The flight of each location in flight. -/
  pending : ByLocation Nat := {}
  flights : IdMap Flight := ∅
  nextFlight : Nat := 0
  /-- Importers with the locations they wait for. -/
  waits : List (String × String) := []

/-- How a request for a model stands. -/
inductive Ticket
  | ready (model : Blueprint)
  | waiting (flight : Nat)

namespace Registry

def model? (r : Registry) (location : String) : Option Blueprint := r.models.get? location

def contains (r : Registry) (location : String) : Bool := r.models.contains location

def size (r : Registry) : Nat := r.models.size

/-- Forgets a model, so that the next request loads it again. -/
def evict (r : Registry) (location : String) : Registry :=
  { r with models := r.models.erase location }

/-! ## Starting -/

/-- Starts a flight, which asks for both documents. -/
def launch (r : Registry) (location : String) : Nat × Registry :=
  (r.nextFlight,
    { r with
      store := (r.store.ask location).ask location
      pending := r.pending.insert location r.nextFlight
      flights := r.flights.insert r.nextFlight ⟨location, .fetching none none⟩
      nextFlight := r.nextFlight + 1 })

/-- Asks for a model: one that is there, a flight to share or a new flight. -/
def request (r : Registry) (location : String) : Ticket × Registry :=
  match r.model? location, r.pending.get? location with
  | some m, _ => (.ready m, r)
  | none, some flight => (.waiting flight, r)
  | none, none =>
    let (flight, r) := r.launch location
    (.waiting flight, r)

def setStage (r : Registry) (flight : Nat) (stage : Stage) : Registry :=
  { r with flights := r.flights.modify flight fun f => { f with stage := stage } }

/-- Ends a flight; a model that has been built is registered. -/
def complete (r : Registry) (flight : Nat) (location : String)
    (result : Except LoadError Blueprint) : Registry :=
  let r := r.setStage flight (.over result)
  { r with
    models := match result with
      | .ok m => r.models.insert location m
      | .error _ => r.models
    pending := r.pending.erase location }

/-! ## Fetching -/

/-- The model of a location from the answers of the store, its links not followed. -/
def build (options : Options) (location : String) (behavioral visual : Except StoreError String) :
    Except LoadError Blueprint := do
  let text ← match behavioral with
    | .ok text => pure text
    | .error e => throw (.behavioral location (.store e))
  match visual with
  | .ok v => Blueprint.load location text (some v) options.layout
  | .error e =>
    let b ← Blueprint.load location text none options.layout
    return { b with diagnostics := b.diagnostics ++ [Blueprint.visualFailure e.message] }

/-- Goes on when documents have arrived: with both, the model is built. -/
def gather (r : Registry) (flight : Nat) (location : String)
    (behavioral visual : Option (Except StoreError String)) : Registry :=
  match behavioral, visual with
  | some behavioral, some visual =>
    match build r.options location behavioral visual with
    | .error e => r.complete flight location (.error e)
    | .ok b => r.setStage flight (.linking b b.pendingLinks [])
  | behavioral, visual => r.setStage flight (.fetching behavioral visual)

/-- A document arrives that the flight still waits for. -/
def answer? (r : Registry) (flight : Nat) (kind : DocumentKind) : Option Registry :=
  match r.flights.get? flight with
  | some ⟨location, .fetching behavioral visual⟩ =>
    let text := r.store.answer location kind
    match kind with
    | .behavioral =>
      if behavioral.isSome then none else some (r.gather flight location (some text) visual)
    | .visual =>
      if visual.isSome then none else some (r.gather flight location behavioral (some text))
  | _ => none

/-! ## Linking -/

/-- Whether `goal` is reached from the locations on the stack by the relation, looking at no more than
`bound` of them. -/
def search (waits : List (String × String)) (goal : String) :
    Nat → List String → List String → Bool
  | 0, _, _ => false
  | _ + 1, [], _ => false
  | bound + 1, location :: stack, seen =>
    if location = goal then true
    else if seen.contains location then search waits goal bound stack seen
    else
      let next := (waits.filter (·.1 = location)).map (·.2)
      search waits goal bound (next ++ stack) (location :: seen)

/-- Whether `location` is `goal` or waits for it, directly or through others. Each entry is looked at
once. -/
def waitsOn (r : Registry) (location goal : String) : Bool :=
  search r.waits goal (r.waits.length + 1) [location] []

/-- Starts loading a link: takes a model that is there, shares a flight that does not wait for the
importer, or starts a new flight. -/
def loadLink (r : Registry) (importer location : String) : LinkProgress × Registry :=
  match r.model? location, r.pending.get? location with
  | some m, _ => (.settled (.ok m), r)
  | none, some flight =>
    if r.waitsOn location importer then (.settled (.error (.linkCycle location)), r)
    else (.waiting flight, { r with waits := r.waits ++ [(importer, location)] })
  | none, none =>
    let (flight, r) := r.launch location
    (.waiting flight, { r with waits := r.waits ++ [(importer, location)] })

/-- The next link is started. -/
def startLink? (r : Registry) (flight : Nat) : Option Registry :=
  match r.flights.get? flight with
  | some ⟨importer, .linking model ((group, location) :: ahead) started⟩ =>
    let (progress, r) := r.loadLink importer location
    some (r.setStage flight (.linking model ahead (started ++ [⟨group, location, progress⟩])))
  | _ => none

def isOver (r : Registry) (flight : Nat) : Bool :=
  match r.flights.get? flight with
  | some ⟨_, .over _⟩ => true
  | _ => false

def result? (r : Registry) (flight : Nat) : Option (Except LoadError Blueprint) :=
  match r.flights.get? flight with
  | some ⟨_, .over result⟩ => some result
  | _ => none

/-- The result that the `index`-th started link waits for, if it is there. -/
def arrived? (r : Registry) (started : List LinkLoad) (index : Nat) :
    Option (LinkLoad × Except LoadError Blueprint) :=
  (started[index]?).bind fun link =>
    match link.progress with
    | .waiting other => (r.result? other).map fun result => (link, result)
    | .settled _ => none

/-- The `index`-th started link takes the result of the flight it waited for. -/
def settleLink? (r : Registry) (flight : Nat) (index : Nat) : Option Registry :=
  match r.flights.get? flight with
  | some ⟨importer, .linking model ahead started⟩ =>
    (r.arrived? started index).map fun (link, result) =>
      let settled := { link with progress := .settled result }
      { r.setStage flight (.linking model ahead (started.set index settled)) with
        waits := r.waits.erase (importer, link.location) }
  | _ => none

/-! ## Landing -/

/-- Stands a loaded model in its group, or marks the group as broken. -/
def standIn (b : Blueprint) (group : Id) (location : String)
    (result : Except LoadError Blueprint) : Except LoadError Blueprint :=
  let outcome : Except String Blueprint := match result with
    | .ok linked => (b.expandLink group linked.graph).mapError EditError.message
    | .error e => .error e.message
  match outcome with
  | .ok b => .ok b
  | .error reason => (b.markLinkBroken group s!"'{location}': {reason}").mapError LoadError.edit

/-- The results of links, if all are settled. -/
def settled? : List LinkLoad → Option (List (Id × String × Except LoadError Blueprint))
  | [] => some []
  | link :: links =>
    match link.progress, settled? links with
    | .settled result, some rest => some ((link.group, link.location, result) :: rest)
    | _, _ => none

/-- The flight lands: all links are settled and stand in their groups. -/
def land? (r : Registry) (flight : Nat) : Option Registry :=
  match r.flights.get? flight with
  | some ⟨location, .linking model [] started⟩ =>
    (settled? started).map fun links =>
      r.complete flight location
        (links.foldlM (fun b (group, link, result) => standIn b group link result) model)
  | _ => none

/-! ## Saving -/

/-- Writes one document. -/
def write (r : Registry) (location : String) (kind : DocumentKind) (text : String) :
    Except LoadError Registry :=
  match r.store.write location kind text with
  | .ok store => .ok { r with store := store }
  | .error e => .error (.store e)

def register (r : Registry) (location : String) (model : Blueprint) : Registry :=
  { r with models := r.models.insert location model }

/-- Writes both documents of a model, the behavioral one first, and registers it; the first failure
ends it. -/
def save (r : Registry) (location : String) (model : Blueprint) :
    Except LoadError Unit × Registry :=
  let (behavioral, visual) := model.save
  match r.write location .behavioral behavioral with
  | .error e => (.error e, r)
  | .ok r =>
    match r.write location .visual visual with
    | .error e => (.error e, r)
    | .ok r => (.ok (), r.register location model)

end Registry
end MessageGraph
