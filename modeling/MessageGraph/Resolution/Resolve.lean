import MessageGraph.Resolution.Walk

/-!
# Destinations and origins

An *origin* owns destinations: an output pin, or an outgoing tack of a filtered bus. `Graph.resolve`
follows the routes from an origin through gates and unfiltered buses to everything a message can be
delivered to; `Graph.originsReaching` goes the other way, from an endpoint that sends to the origins
whose messages pass it.
-/
namespace MessageGraph

/-- Where a message can be delivered. -/
inductive Target
  /-- an input pin -/
  | pin (node pin : Id)
  /-- a tack of a filtered bus, which decides when it runs -/
  | tack (bus tack : Id)
  /-- a gate of the top-level group that leads no further -/
  | boundary (group gate : Id)
deriving DecidableEq, Repr

/-- The owner of a target. -/
inductive TargetOwner
  | node (id : Id)
  | bus (id : Id)
deriving DecidableEq, Repr

/-- What tells targets apart: the owner and the message name there, not the way that led to it. -/
structure TargetKey where
  owner : TargetOwner
  name : String
deriving DecidableEq, Repr

/-- The elements of a list whose key no earlier element has. -/
def firstByKey {α κ : Type} [DecidableEq κ] (key : α → κ) : List α → List α
  | [] => []
  | a :: as => a :: (firstByKey key as).filter fun b => key b ≠ key a

namespace Graph

def targetKey (g : Graph) : Target → TargetKey
  | .pin node pin => ⟨.node node, g.nameOf (.pin pin)⟩
  | .tack bus tack => ⟨.bus bus, g.nameOf (.tack tack)⟩
  | .boundary group gate => ⟨.node group, g.nameOf (.pad gate)⟩

/-! ## Origins -/

def busOf? (g : Graph) (tack : Id) : Option Bus := (g.tack? tack).bind fun t => g.bus? t.bus

def isOrigin (g : Graph) : Endpoint → Bool
  | .pin id => g.direction? (.pin id) = some .output
  | .tack id =>
    g.direction? (.tack id) = some .output && ((g.busOf? id).elim false (·.isFiltered))
  | _ => false

/-- Every origin: pins before tacks, each in the order of ids. -/
def origins (g : Graph) : List Endpoint :=
  (g.pins.ids.map Endpoint.pin ++ g.tacks.ids.map Endpoint.tack).filter g.isOrigin

/-! ## Downstream -/

/-- What a message of this name meets at the receiving end of a route. -/
def arrival (g : Graph) (name : String) : Endpoint → List (Step Target)
  | .pin id =>
    match g.pin? id with
    | some p => if Message.compatible name p.name then [.yield (.pin p.node id)] else []
    | none => []
  | .proxy gate => [.visit (.pad gate)]
  | .pad gate => [.visit (.proxy gate)]
  | .tack id =>
    match g.tack? id, g.busOf? id with
    | some t, some bus => if bus.isFiltered then [.yield (.tack t.bus id)] else [.visit (.tack id)]
    | _, _ => []

/-- What a message meets over the routes that an endpoint sends along. -/
def departures (g : Graph) (name : String) (e : Endpoint) : List (Step Target) :=
  (g.routesOf e).flatMap fun route =>
    match g.across? e route with
    | some far => if g.direction? far = some .input then g.arrival name far else []
    | none => []

/-- The outgoing tacks of a bus that carry a message of this name. -/
def fanOut (g : Graph) (name : String) (tack : Id) : List (Step Target) :=
  match g.busOf? tack with
  | none => []
  | some bus =>
    (bus.tacks.filter fun other => other ≠ tack &&
      ((g.tack? other).elim false fun t => t.flow = .outgoing && Message.overlap name t.message)).map
        fun other => .visit (.tack other)

/-- How a message goes on from an endpoint it has come to. A pad of the top-level group without routes
is where it leaves the graph. -/
def onward (g : Graph) (name : String) : Endpoint → List (Step Target)
  | .pad gate =>
    match g.gate? gate with
    | some p =>
      if p.padRoutes.isEmpty && p.group = g.root then
        if Message.compatible name p.name then [.yield (.boundary p.group gate)] else []
      else g.departures name (.pad gate)
    | none => []
  | .tack id =>
    if g.direction? (.tack id) = some .input then g.fanOut name id
    else g.departures name (.tack id)
  | e => g.departures name e

/-- Everything that messages from an endpoint can be delivered to, each once, in the order in which a
walk reaches them. -/
def resolve (g : Graph) (origin : Endpoint) : List Target :=
  let name := g.nameOf origin
  firstByKey g.targetKey (g.walk (g.onward name) (g.departures name origin) [origin])

/-! ## Against the stream -/

/-- The senders of the routes that an endpoint receives from. -/
def feeders (g : Graph) (e : Endpoint) : List (Step Endpoint) :=
  (g.routesOf e).flatMap fun route =>
    match g.across? e route with
    | some far => if g.direction? far = some .output then [.visit far] else []
    | none => []

/-- What sends to an endpoint in the sending role; an origin is where messages begin. -/
def backward (g : Graph) (e : Endpoint) : List (Step Endpoint) :=
  if g.isOrigin e then [.yield e]
  else
    match e with
    | .pin _ => []
    | .proxy gate => g.feeders (.pad gate)
    | .pad gate => g.feeders (.proxy gate)
    | .tack id =>
      match g.busOf? id with
      | none => []
      | some bus =>
        (bus.tacks.filter fun other => g.direction? (.tack other) = some .input).flatMap
          fun other => g.feeders (.tack other)

/-- The origins whose messages pass an endpoint that sends along a route. -/
def originsReaching (g : Graph) (sender : Endpoint) : List Endpoint :=
  g.walk g.backward [.visit sender] []

end Graph
end MessageGraph
