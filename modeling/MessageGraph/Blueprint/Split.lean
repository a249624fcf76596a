import MessageGraph.Blueprint.Basic
import MessageGraph.Blueprint.Document

/-!
# From a blueprint to documents

`Blueprint.split` projects a model onto its two documents. What was copied from linked models is left
out of both, and so are the routes drawn inside a linked group; the gates of a linked group stay.
-/
namespace MessageGraph.Graph

/-- The tree of nodes that belong to the model itself. -/
def ownTree (g : Graph) : Tree Id :=
  (g.outline g.root).prune fun id => (g.node? id).elim false fun n => !n.imported

/-- The buses of a group that belong to the model itself. -/
def ownBuses (g : Graph) (s : Group) : List (Id × Bus) :=
  (s.buses.filterMap fun id => (g.bus? id).map fun b => (id, b)).filter fun (_, b) => !b.imported

def pinSpec (p : Pin) : PinSpec := ⟨p.name, p.direction, p.channel⟩

def gateSpec (p : Gate) : GateSpec := ⟨p.name, p.direction, p.channel⟩

/-- The behavioral entry of a node. -/
def nodeSpec (g : Graph) (id : Id) : NodeSpec :=
  match g.node? id with
  | none => { tag := .group, id := id, name := "" }
  | some n =>
    match n.kind with
    | .source s =>
      { tag := .source
        id := id
        name := n.name
        behavior := some s.behavior
        settings := n.settings
        pins := (s.pins.filterMap g.pin?).map pinSpec }
    | .group s =>
      { tag := .group
        id := id
        name := n.name
        settings := n.settings
        gates := (s.gates.filterMap g.gate?).map gateSpec
        buses := (g.ownBuses s).map fun (id, b) => ⟨id, b.name, b.filter⟩
        link := s.link.map (·.location)
        library := s.library }

def pinVisual? (p : Pin) : Option PinVisual :=
  p.label.map fun label => ⟨p.name, p.direction, label⟩

def gateVisual? (p : Gate) : Option GateVisual :=
  if p.padLabel.isSome || p.proxyLabel.isSome then some ⟨p.name, p.padLabel, p.proxyLabel⟩ else none

def busVisual? (b : Bus) : Option BusVisual :=
  b.rect.map fun rect => ⟨b.name, rect⟩

/-- The visual entry of a node. -/
def nodeVisual (g : Graph) (id : Id) : NodeVisual :=
  match g.node? id with
  | none => { tag := .group, name := "" }
  | some n =>
    match n.kind with
    | .source s =>
      { tag := .source
        name := n.name
        rect := n.rect
        pins := (s.pins.filterMap g.pin?).filterMap pinVisual? }
    | .group s =>
      { tag := .group
        name := n.name
        rect := n.rect
        view := s.view
        gates := (s.gates.filterMap g.gate?).filterMap gateVisual?
        buses := (g.ownBuses s).filterMap fun (_, b) => busVisual? b }

def endpointSpec? (g : Graph) : Endpoint → Option EndpointSpec
  | .pin id => (g.pin? id).map fun p => .pin p.node p.name
  | .proxy id => (g.gate? id).map fun p => .proxy p.group p.name
  | .pad id => (g.gate? id).map fun p => .pad p.group p.name
  | .tack id => (g.tack? id).map fun t => .bus t.bus

/-- The stored form of a route, sender first, unless it is drawn inside a linked group. -/
def connectionSpec? (g : Graph) (route : Id) : Option ConnectionSpec := do
  let sender ← g.sender? route
  let receiver ← g.across? sender route
  let scope ← g.scope? sender
  if g.insideLink scope then none
  else return ⟨← g.endpointSpec? sender, ← g.endpointSpec? receiver⟩

/-- The stored routes in the order of their ids, each with the bends of its wire. -/
def ownConnections (g : Graph) : List (ConnectionSpec × List Point) :=
  g.routes.entries.filterMap fun (id, r) => (g.connectionSpec? id).map fun spec => (spec, r.wire)

end MessageGraph.Graph

namespace MessageGraph.Blueprint

/-- The two documents of a model. -/
def split (b : Blueprint) : BehavioralDocument × VisualDocument :=
  let g := b.graph
  let tree := g.ownTree
  let connections := g.ownConnections
  ({ root := tree.map g.nodeSpec, connections := connections.map (·.1) },
   { root := some (tree.map g.nodeVisual), wires := connections.map (·.2) })

end MessageGraph.Blueprint
