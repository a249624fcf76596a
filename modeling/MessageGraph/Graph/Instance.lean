import MessageGraph.Graph.Outline

/-!
# Standing one graph in a group of another

`Graph.instantiate` copies the content of a linked graph into a group, under fresh ids. Gates of the
linked top-level group are gates of that group, matched by name and added where missing. What was copied
is marked as imported. Routes at the outer side of the linked top-level gates are not copied.
-/
namespace MessageGraph

/-- A copy in progress: the graph so far, and which entity stands for which of the linked graph. -/
structure Copying where
  graph : Graph
  pins : List (Id × Id) := []
  gates : List (Id × Id) := []
  buses : List (Id × Id) := []

namespace Copying

/-- Binds a top-level gate of the linked graph to the gate of its name, which is added if missing. -/
def bindGate (linked : Graph) (group : Id) (c : Copying) (gate : Id) : Except EditError Copying :=
  match linked.gate? gate with
  | none => .ok c
  | some p =>
    match c.graph.findGate? group p.name with
    | some found => .ok { c with gates := (gate, found) :: c.gates }
    | none => do
      let (copy, graph) ← c.graph.addGate group p.name p.direction p.channel
      return { c with graph := graph, gates := (gate, copy) :: c.gates }

def copyBus (linked : Graph) (into : Id) (c : Copying) (bus : Id) : Except EditError Copying :=
  match linked.bus? bus with
  | none => .ok c
  | some b => do
    let (copy, graph) ← c.graph.addBus none into b.name b.filter
    let graph := graph.modifyBus copy fun n => { n with rect := b.rect, imported := true }
    return { c with graph := graph, buses := (bus, copy) :: c.buses }

def copyPin (linked : Graph) (into : Id) (c : Copying) (pin : Id) : Except EditError Copying :=
  match linked.pin? pin with
  | none => .ok c
  | some p => do
    let (copy, graph) ← c.graph.addPin into p.name p.direction p.channel
    let graph ← graph.setPinLabel copy p.label
    return { c with graph := graph, pins := (pin, copy) :: c.pins }

def copyGate (linked : Graph) (into : Id) (c : Copying) (gate : Id) : Except EditError Copying :=
  match linked.gate? gate with
  | none => .ok c
  | some p => do
    let (copy, graph) ← c.graph.addGate into p.name p.direction p.channel
    let graph ← graph.setGateLabels copy p.padLabel p.proxyLabel
    return { c with graph := graph, gates := (gate, copy) :: c.gates }

/-- Gives a copied node the presentation and settings of its model. -/
def finishNode (n : Node) (copy : Id) (c : Copying) : Copying :=
  { c with graph := c.graph.modifyNode copy fun m =>
      { m with settings := n.settings, rect := n.rect, imported := true } }

mutual

/-- Copies a node and everything below it into a group. -/
def copyNode (linked : Graph) (into : Id) : Tree Id → Copying → Except EditError Copying
  | .node id children, c => do
    let n ← linked.requireNode id
    match n.kind with
    | .source s =>
      let (copy, graph) ← c.graph.addSource none into n.name s.behavior
      let c ← s.pins.foldlM (copyPin linked copy) { c with graph := graph }
      return finishNode n copy c
    | .group s =>
      let (copy, graph) ← c.graph.addGroup none into n.name
      let c ← s.gates.foldlM (copyGate linked copy) { c with graph := graph }
      let graph := c.graph.modifyGroup copy fun m =>
        { m with link := s.link, library := s.library, view := s.view }
      let c ← s.buses.foldlM (copyBus linked copy) { c with graph := graph }
      let c ← copyNodes linked copy children c
      return finishNode n copy c

def copyNodes (linked : Graph) (into : Id) : List (Tree Id) → Copying → Except EditError Copying
  | [], c => .ok c
  | o :: os, c => do
    let c ← copyNode linked into o c
    copyNodes linked into os c

end

/-- The terminal that stands for an endpoint of the linked graph. The pads of its top-level group face
nothing and have none. -/
def terminal? (linked : Graph) (c : Copying) : Endpoint → Option Terminal
  | .pin id => (c.pins.lookup id).map Terminal.pin
  | .proxy id => (c.gates.lookup id).map Terminal.proxy
  | .pad id =>
    (linked.gate? id).bind fun p =>
      if p.group = linked.root then none else (c.gates.lookup id).map Terminal.pad
  | .tack id => (linked.tack? id).bind fun t => (c.buses.lookup t.bus).map Terminal.bus

/-- Copies a route whose two ends have been copied. -/
def copyRoute (linked : Graph) (c : Copying) (r : Route) : Except EditError Copying :=
  match c.terminal? linked r.a, c.terminal? linked r.b with
  | some a, some b => do
    let (id, graph) ← c.graph.attach a b
    return { c with graph := graph.modifyRoute id fun n => { n with wire := r.wire } }
  | _, _ => .ok c

end Copying

/-- Copies the content of `linked` into a group. -/
def Graph.instantiate (g : Graph) (group : Id) (linked : Graph) : Except EditError Graph := do
  let _ ← g.requireGroup group
  let top ← linked.requireGroup linked.root
  let c ← top.gates.foldlM (Copying.bindGate linked group) { graph := g }
  let c ← top.buses.foldlM (Copying.copyBus linked group) c
  let c ← Copying.copyNodes linked group (linked.outline linked.root).children c
  let c ← (linked.routes.entries.map (·.2)).foldlM (Copying.copyRoute linked) c
  return c.graph

end MessageGraph
