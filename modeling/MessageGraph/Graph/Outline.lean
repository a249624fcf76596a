import MessageGraph.Graph.Route
import MessageGraph.Tree

/-!
# The tree below a node

What is done with a node and everything in it is recursion on the tree of ids below it, where the
children of a group are in its order.

* `Graph.outline`: the tree below a node.
* `Graph.routesWithin`: the routes at anything a node holds.
* `Graph.removeSubtree`: the graph without a node and everything it holds.
-/
namespace MessageGraph

namespace Graph

def childrenOf (g : Graph) (node : Id) : List Id :=
  match g.group? node with
  | some s => s.children.filter g.nodes.contains
  | none => []

/-- The tree below a node, down to `depth` generations. -/
def outlineWithin (g : Graph) : Nat → Id → Tree Id
  | 0, id => .node id []
  | depth + 1, id => .node id ((g.childrenOf id).map (g.outlineWithin depth))

/-- The tree below a node; it has no more generations than the graph has nodes. -/
def outline (g : Graph) (node : Id) : Tree Id := g.outlineWithin g.nodes.size node

/-- A node and everything below it, each before its children. -/
def descendants (g : Graph) (node : Id) : List Id := (g.outline node).values

/-- The endpoints a node has itself: pins, both sides of gates, tacks of buses. -/
def endpointsOf (g : Graph) (node : Id) : List Endpoint :=
  match g.node? node with
  | none => []
  | some n =>
    match n.kind with
    | .source s => s.pins.map Endpoint.pin
    | .group s =>
      s.gates.flatMap (fun id => [Endpoint.pad id, Endpoint.proxy id]) ++
        s.buses.flatMap fun id => (g.bus? id).elim [] fun b => b.tacks.map Endpoint.tack

/-- The routes at an endpoint of a node or of anything below it, in the order of their ids. -/
def routesWithin (g : Graph) (node : Id) : List Id :=
  let found := ((g.descendants node).flatMap g.endpointsOf).flatMap g.routesOf
  g.routes.ids.filter found.contains

/-- The graph without a node, everything below it and what they own. Routes must be gone before. -/
def removeSubtree (g : Graph) (node : Id) : Except EditError Graph :=
  if node = g.root then .error (.rootExists node)
  else
    match g.node? node with
    | none => .error (.nodeNotFound node)
    | some n =>
      let removed := g.descendants node
      let lost := g.buses.filter fun _ b => removed.contains b.group
      let rest : Graph :=
        { g with
          nodes := g.nodes.filter fun id _ => !removed.contains id
          pins := g.pins.filter fun _ p => !removed.contains p.node
          gates := g.gates.filter fun _ p => !removed.contains p.group
          buses := g.buses.filter fun _ b => !removed.contains b.group
          tacks := g.tacks.filter fun _ t => !lost.contains t.bus }
      .ok (n.parent.elim rest fun parent =>
        rest.modifyGroup parent fun s => { s with children := s.children.filter (· ≠ node) })

end Graph
end MessageGraph
