import MessageGraph.Registry.Flight

/-!
# Taking turns

Loads that run together move in turns. Documents arrive in the turn after a number of turns that a
flight has spent waiting, its *delay*. From then on a flight in its turn goes through its links in
order: it starts a link that is not started, gives the flight that the link waits for a turn, and
settles the link if that flight is over. It lands once all links are settled. A flight whose turn is
going on gets no second turn inside it.

Without delay a load goes depth first: each link is loaded to its end before the next is started. With
a delay all links of a model are started before the first of their documents arrives.
-/
namespace MessageGraph

/-- A registry with the turns that each flight has had. -/
structure Turns where
  registry : Registry
  had : IdMap Nat := ∅

namespace Turns

def after (t : Turns) (r : Option Registry) : Turns := { t with registry := r.getD t.registry }

def count (t : Turns) (flight : Nat) : Nat := (t.had.get? flight).getD 0

/-- Counts a turn. -/
def tick (t : Turns) (flight : Nat) : Turns :=
  { t with had := t.had.insert flight (t.count flight + 1) }

/-- The links that a flight has started. -/
def started (t : Turns) (flight : Nat) : List LinkLoad :=
  match t.registry.flights.get? flight with
  | some ⟨_, .linking _ _ started⟩ => started
  | _ => []

/-- How many links a flight has, started or not. -/
def linkCount (t : Turns) (flight : Nat) : Nat :=
  match t.registry.flights.get? flight with
  | some ⟨_, .linking _ ahead started⟩ => ahead.length + started.length
  | _ => 0

/-- The flight that a link waits for. -/
def awaited? (t : Turns) (flight index : Nat) : Option Nat :=
  ((t.started flight)[index]?).bind fun link =>
    match link.progress with
    | .waiting other => some other
    | .settled _ => none

/-- Documents that are due arrive. -/
def fetch (t : Turns) (delay flight : Nat) : Turns :=
  match t.registry.flights.get? flight with
  | some ⟨_, .fetching _ _⟩ =>
    if t.count flight < delay then t.tick flight
    else
      let t := t.after (t.registry.answer? flight .behavioral)
      t.after (t.registry.answer? flight .visual)
  | _ => t

/-- A turn of a flight, inside the turns of others. Turns do not nest deeper than `bound`. -/
def turn (delay : Nat) : Nat → List Nat → Nat → Turns → Turns
  | 0, _, _, t => t
  | bound + 1, inside, flight, t =>
    if inside.contains flight then t
    else
      let t := t.fetch delay flight
      let link (t : Turns) (index : Nat) : Turns :=
        let t := if index < (t.started flight).length then t
          else t.after (t.registry.startLink? flight)
        let t := match t.awaited? flight index with
          | some other => turn delay bound (flight :: inside) other t
          | none => t
        t.after (t.registry.settleLink? flight index)
      let t := (List.range (t.linkCount flight)).foldl link t
      t.after (t.registry.land? flight)

/-- More flights than can come up: every one after those there is for a link in a stored text or for
one of the requests. -/
def flightBound (t : Turns) : Nat := t.registry.store.extent + t.registry.flights.size + 2

/-- A turn for a request. -/
def serve (delay : Nat) (t : Turns) : Ticket → Turns
  | .ready _ => t
  | .waiting flight => turn delay t.flightBound [] flight t

/-- Takes requests one after another, each with a first turn. -/
def requestAll (delay : Nat) : List String → Turns → List Ticket × Turns
  | [], t => ([], t)
  | location :: locations, t =>
    let (ticket, r) := t.registry.request location
    let (tickets, t) := requestAll delay locations (serve delay { t with registry := r } ticket)
    (ticket :: tickets, t)

def isServed (r : Registry) : Ticket → Bool
  | .ready _ => true
  | .waiting flight => r.isOver flight

/-- Rounds of turns for all requests that still wait. -/
def rounds (delay : Nat) (tickets : List Ticket) : Nat → Turns → Turns
  | 0, t => t
  | bound + 1, t =>
    if tickets.all (isServed t.registry) then t
    else rounds delay tickets bound (tickets.foldl (serve delay) t)

end Turns

namespace Registry

/-- What a request has come to; one that is not served waits in a circle. -/
def outcome (r : Registry) (location : String) : Ticket → Except LoadError Blueprint
  | .ready model => .ok model
  | .waiting flight => (r.result? flight).getD (.error (.linkCycle location))

/-- Loads models together, with everything they link to. -/
def loadMany (r : Registry) (delay : Nat) (locations : List String) :
    List (Except LoadError Blueprint) × Registry :=
  let (tickets, t) := Turns.requestAll delay locations { registry := r }
  let bound := (delay + 2) * (t.flightBound + locations.length)
  let r := (Turns.rounds delay tickets bound t).registry
  (List.zipWith r.outcome locations tickets, r)

/-- Loads a model, with everything it links to. -/
def load (r : Registry) (delay : Nat) (location : String) : Except LoadError Blueprint × Registry :=
  let (results, r) := r.loadMany delay [location]
  (results.headD (.error (.linkCycle location)), r)

/-- Loads a model and compiles it with the options of the registry. -/
def compile (r : Registry) (delay : Nat) (location : String) :
    Except LoadError Compilation × Registry :=
  let (result, r) := r.load delay location
  (result.map fun b => b.compile r.options, r)

end Registry
end MessageGraph
