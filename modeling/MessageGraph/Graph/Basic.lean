import MessageGraph.IdMap
import MessageGraph.Graph.Error

/-!
# Message graphs

A graph holds every entity by its id and refers from one to another by id. Walking any of its maps
visits entities in the order of their ids. This module has the type, the empty graph and the questions
about one endpoint or one node.
-/
namespace MessageGraph

structure Graph where
  /-- Above every id that is in use or reserved. -/
  nextId : Id
  root : Id
  nodes : IdMap Node
  pins : IdMap Pin := ∅
  gates : IdMap Gate := ∅
  buses : IdMap Bus := ∅
  tacks : IdMap Tack := ∅
  routes : IdMap Route := ∅
deriving BEq

/-- The next id from a sequence that has come to `next`, and how far the sequence has come then;
zero is never given out. -/
def takeId (next : Id) : Id × Id := (max next 1, max next 1 + 1)

/-- Keeps a sequence clear of an id. -/
def reserveAbove (next id : Id) : Id := if next ≤ id then id + 1 else next

namespace Graph

/-- A graph of a top-level group with the given id and nothing else. -/
def withRoot (root : Id) (name : String) : Graph where
  nextId := reserveAbove 1 root
  root := root
  nodes := IdMap.empty.insert root { name := name, parent := none, kind := .group {} }

def new (name : String) : Graph := withRoot 1 name

def fresh (g : Graph) : Id × Graph :=
  let (id, next) := takeId g.nextId
  (id, { g with nextId := next })

def reserveId (g : Graph) (id : Id) : Graph :=
  { g with nextId := reserveAbove g.nextId id }

/-! ## Nodes -/

def node? (g : Graph) (id : Id) : Option Node := g.nodes.get? id
def pin? (g : Graph) (id : Id) : Option Pin := g.pins.get? id
def gate? (g : Graph) (id : Id) : Option Gate := g.gates.get? id
def bus? (g : Graph) (id : Id) : Option Bus := g.buses.get? id
def tack? (g : Graph) (id : Id) : Option Tack := g.tacks.get? id
def route? (g : Graph) (id : Id) : Option Route := g.routes.get? id

def requireNode (g : Graph) (id : Id) : Except EditError Node :=
  match g.node? id with
  | some n => .ok n
  | none => .error (.nodeNotFound id)

def requireGroup (g : Graph) (id : Id) : Except EditError Group :=
  match g.node? id with
  | some n =>
    match n.group? with
    | some group => .ok group
    | none => .error (.notAGroup id)
  | none => .error (.nodeNotFound id)

def requireSource (g : Graph) (id : Id) : Except EditError Source :=
  match g.node? id with
  | some n =>
    match n.source? with
    | some source => .ok source
    | none => .error (.notASource id)
  | none => .error (.nodeNotFound id)

def group? (g : Graph) (id : Id) : Option Group := (g.node? id).bind Node.group?
def source? (g : Graph) (id : Id) : Option Source := (g.node? id).bind Node.source?

def name (g : Graph) : String :=
  match g.node? g.root with
  | some n => n.name
  | none => ""

/-- The pin of a source with this name and direction. -/
def findPin? (g : Graph) (node : Id) (name : String) (direction : Direction) : Option Id :=
  (g.source? node).bind fun s => s.pins.find? fun id =>
    match g.pin? id with
    | some p => p.name = name && p.direction = direction
    | none => false

/-- The gate of a group with this name. -/
def findGate? (g : Graph) (group : Id) (name : String) : Option Id :=
  (g.group? group).bind fun s => s.gates.find? fun id =>
    match g.gate? id with
    | some gate => gate.name = name
    | none => false

def parent? (g : Graph) (node : Id) : Option Id := (g.node? node).bind (·.parent)

/-- A node and its ancestors, at most `bound` of them. -/
def ancestry (g : Graph) : Nat → Id → List Id
  | 0, _ => []
  | bound + 1, id =>
    id :: match g.parent? id with
      | some parent => g.ancestry bound parent
      | none => []

/-- A node followed by its ancestors, up to the top-level group. -/
def lineage (g : Graph) (node : Id) : List Id := g.ancestry (g.nodes.size + 1) node

/-- Whether a group or one around it is the content of another model. -/
def insideLink (g : Graph) (group : Id) : Bool :=
  (g.lineage group).any fun id =>
    match g.group? id with
    | some s => s.link.isSome
    | none => false

/-! ## Endpoints -/

/-- The routes at an endpoint, in the order in which they were attached. -/
def routesOf (g : Graph) : Endpoint → List Id
  | .pin id => (g.pin? id).elim [] (·.routes)
  | .proxy id => (g.gate? id).elim [] (·.proxyRoutes)
  | .pad id => (g.gate? id).elim [] (·.padRoutes)
  | .tack id => (g.tack? id).elim [] ([·.route])

def contains (g : Graph) : Endpoint → Bool
  | .pin id => g.pins.contains id
  | .proxy id => g.gates.contains id
  | .pad id => g.gates.contains id
  | .tack id => g.tacks.contains id

def direction? (g : Graph) : Endpoint → Option Direction
  | .pin id => (g.pin? id).map (·.direction)
  | .proxy id => (g.gate? id).map (·.direction.opposite)
  | .pad id => (g.gate? id).map (·.direction)
  | .tack id => (g.tack? id).map (·.flow.direction)

/-- The message name at an endpoint. -/
def name? (g : Graph) : Endpoint → Option String
  | .pin id => (g.pin? id).map (·.name)
  | .proxy id => (g.gate? id).map (·.name)
  | .pad id => (g.gate? id).map (·.name)
  | .tack id => (g.tack? id).map (·.message)

/-- The message name at an endpoint, empty if it is not there. -/
def nameOf (g : Graph) (e : Endpoint) : String := (g.name? e).getD ""

/-- Whether an endpoint is a channel; a tack does not say. -/
def channel? (g : Graph) : Endpoint → Option Bool
  | .pin id => (g.pin? id).map (·.channel)
  | .proxy id => (g.gate? id).map (·.channel)
  | .pad id => (g.gate? id).map (·.channel)
  | .tack _ => none

def isPattern (g : Graph) (e : Endpoint) : Bool :=
  match g.name? e with
  | some name => Message.isPattern name
  | none => false

/-- The group in which the routes at an endpoint are drawn. -/
def scope? (g : Graph) : Endpoint → Option Id
  | .pin id => (g.pin? id).bind fun p => g.parent? p.node
  | .proxy id => (g.gate? id).map (·.group)
  | .pad id => (g.gate? id).bind fun p => g.parent? p.group
  | .tack id => ((g.tack? id).bind fun t => g.bus? t.bus).map (·.group)

def hasTerminal (g : Graph) : Terminal → Bool
  | .pin id => g.pins.contains id
  | .proxy id => g.gates.contains id
  | .pad id => g.gates.contains id
  | .bus id => g.buses.contains id

/-- The end opposite to `e` on a route. -/
def across? (g : Graph) (e : Endpoint) (route : Id) : Option Endpoint :=
  (g.route? route).bind (·.other? e)

/-- The end of a route that sends. -/
def sender? (g : Graph) (route : Id) : Option Endpoint :=
  (g.route? route).map fun r => if g.direction? r.a = some .output then r.a else r.b

/-- Groups whose link waits for its model, in the order of their ids. -/
def pendingLinks (g : Graph) : List (Id × String) :=
  g.nodes.entries.filterMap fun (id, n) =>
    (n.group?.bind (·.link)).bind fun link =>
      if link.state = .pending then some (id, link.location) else none

end Graph
end MessageGraph
