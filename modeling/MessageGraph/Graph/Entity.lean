import MessageGraph.Geometry
import MessageGraph.Message.Pattern

/-!
# The entities of a message graph

Nodes are sources, which run a behavior and have pins, or groups, which hold nodes and buses. Each
gate of a group is one boundary with two sides: its pad faces the outside and its proxy the inside.
A bus is a medium between many endpoints; each route to a bus ends at a tack of its own. All ids come
from one sequence, so an id names at most one entity of any kind. An entity does not hold its own id:
that is its key in the graph.
-/
namespace MessageGraph

abbrev Id := Nat

/-! ## Endpoints -/

/-- Which way messages pass an endpoint, seen by the route attached to it. -/
inductive Direction
  | input
  | output
deriving DecidableEq, Repr

namespace Direction

def opposite : Direction → Direction
  | input => output
  | output => input

def keyword : Direction → String
  | input => "input"
  | output => "output"

def ofKeyword? (text : String) : Option Direction :=
  [input, output].find? (·.keyword = text)

end Direction

/-- Whether a tack carries messages into its bus or out of it. -/
inductive Flow
  | incoming
  | outgoing
deriving DecidableEq, Repr

namespace Flow

/-- A tack that receives from its route is an input of that route. -/
def direction : Flow → Direction
  | incoming => .input
  | outgoing => .output

def keyword : Flow → String
  | incoming => "incoming"
  | outgoing => "outgoing"

end Flow

/-- One end of a route. -/
inductive Endpoint
  | pin (id : Id)
  | proxy (gate : Id)
  | pad (gate : Id)
  | tack (id : Id)
deriving DecidableEq, Repr

/-- What a connection is asked for: an endpoint, or a bus as a whole. -/
inductive Terminal
  | pin (id : Id)
  | proxy (gate : Id)
  | pad (gate : Id)
  | bus (id : Id)
deriving DecidableEq, Repr

/-- The classes that decide which pairs may be joined; a proxy counts as a pin. -/
inductive EndpointClass
  | pin
  | pad
  | tack
deriving DecidableEq, Repr

def EndpointClass.keyword : EndpointClass → String
  | pin => "pin"
  | pad => "pad"
  | tack => "tack"

namespace Endpoint

def text : Endpoint → String
  | pin id => s!"pin#{id}"
  | proxy gate => s!"proxy#{gate}"
  | pad gate => s!"pad#{gate}"
  | tack id => s!"tack#{id}"

def endpointClass : Endpoint → EndpointClass
  | pin _ => .pin
  | proxy _ => .pin
  | pad _ => .pad
  | tack _ => .tack

end Endpoint

namespace Terminal

def text : Terminal → String
  | pin id => s!"pin#{id}"
  | proxy gate => s!"proxy#{gate}"
  | pad gate => s!"pad#{gate}"
  | bus id => s!"bus#{id}"

def endpointClass : Terminal → EndpointClass
  | pin _ => .pin
  | proxy _ => .pin
  | pad _ => .pad
  | bus _ => .tack

/-- The endpoint a terminal stands for; a bus has none before it is joined. -/
def endpoint? : Terminal → Option Endpoint
  | pin id => some (.pin id)
  | proxy gate => some (.proxy gate)
  | pad gate => some (.pad gate)
  | bus _ => none

end Terminal

/-! ## Nodes -/

/-- A behavior by identifier, with the location it comes from where that is fixed. -/
structure BehaviorRef where
  identifier : String
  location : Option String := none
deriving DecidableEq, Repr

namespace BehaviorRef

def toJson (b : BehaviorRef) : Json :=
  .object <|
    ("identifier", .string b.identifier) ::
      (match b.location with
        | some location => [("location", .string location)]
        | none => [])

def decoder : Json.Decoder BehaviorRef :=
  Json.Decoder.record ["identifier", "location"] fun r => do
    let identifier ← r.required "identifier" Json.Decoder.string
    let location ← r.optional "location" Json.Decoder.string
    return { identifier, location }

end BehaviorRef

/-- What has become of a link to another model. -/
inductive LinkState
  /-- not loaded yet -/
  | pending
  /-- the content of the linked model stands in the group -/
  | expanded
  /-- the linked model could not be loaded -/
  | broken (reason : String)
deriving DecidableEq, Repr

/-- A group whose content is another model. -/
structure Link where
  location : String
  state : LinkState
deriving DecidableEq, Repr

def Link.isBroken (l : Link) : Bool :=
  match l.state with
  | .broken _ => true
  | _ => false

structure Source where
  behavior : BehaviorRef
  pins : List Id
deriving BEq, Repr

structure Group where
  children : List Id := []
  buses : List Id := []
  gates : List Id := []
  link : Option Link := none
  /-- Where behaviors inside this group come from that do not say so themselves. -/
  library : Option String := none
  view : Option View := none
deriving BEq, Repr

inductive NodeKind
  | source (source : Source)
  | group (group : Group)
deriving BEq, Repr

structure Node where
  name : String
  parent : Option Id
  kind : NodeKind
  settings : Settings := Settings.empty
  rect : Option Rect := none
  /-- The node is content of a linked model and is never written back. -/
  imported : Bool := false
deriving BEq

namespace Node

def source? (n : Node) : Option Source :=
  match n.kind with
  | .source s => some s
  | .group _ => none

def group? (n : Node) : Option Group :=
  match n.kind with
  | .source _ => none
  | .group g => some g

/-- Changes the source part; a group stays as it is. -/
def mapSource (n : Node) (change : Source → Source) : Node :=
  match n.kind with
  | .source s => { n with kind := .source (change s) }
  | .group _ => n

/-- Changes the group part; a source stays as it is. -/
def mapGroup (n : Node) (change : Group → Group) : Node :=
  match n.kind with
  | .source _ => n
  | .group g => { n with kind := .group (change g) }

end Node

/-! ## Wiring -/

/-- A named endpoint of a source. -/
structure Pin where
  node : Id
  name : String
  direction : Direction
  /-- A request through this pin expects a reply. -/
  channel : Bool
  routes : List Id := []
  label : Option Point := none
deriving BEq, Repr

/-- A named boundary of a group. `direction` is that of the pad; the proxy has the opposite one. -/
structure Gate where
  group : Id
  name : String
  direction : Direction
  channel : Bool
  padRoutes : List Id := []
  proxyRoutes : List Id := []
  padLabel : Option Point := none
  proxyLabel : Option Point := none
deriving BEq, Repr

/-- A medium between many endpoints. Without a filter messages pass it freely; with one, the filter
decides when it runs. -/
structure Bus where
  group : Id
  name : String
  filter : Option BehaviorRef
  tacks : List Id := []
  rect : Option Rect := none
  /-- The bus is content of a linked model and is never written back. -/
  imported : Bool := false
deriving BEq, Repr

def Bus.isFiltered (b : Bus) : Bool := b.filter.isSome

/-- The attachment of a route to a bus, with the message name of the route's other end. -/
structure Tack where
  bus : Id
  route : Id
  flow : Flow
  message : String
deriving DecidableEq, Repr

/-- A wire between two endpoints; their directions tell which one sends. -/
structure Route where
  a : Endpoint
  b : Endpoint
  wire : List Point := []
deriving BEq, Repr

namespace Route

/-- The end opposite to `e`, if `e` is an end. -/
def other? (r : Route) (e : Endpoint) : Option Endpoint :=
  if r.a = e then some r.b
  else if r.b = e then some r.a
  else none

def touches (r : Route) (e : Endpoint) : Bool := r.a = e || r.b = e

end Route
end MessageGraph
