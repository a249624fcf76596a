import MessageGraph.Blueprint.Error
import MessageGraph.Graph.Instance
import MessageGraph.Program.Compile

/-!
# Blueprints

A blueprint is a live model: a graph, the destination tables kept in step with it, and what loading
reported. Structural edits change the graph alone; routes and links change through the operations
here, which keep the tables.
-/
namespace MessageGraph

/-- How much of a model was placed from stored geometry. -/
inductive LayoutFidelity
  | full
  | reduced
deriving DecidableEq, Repr

def LayoutFidelity.keyword : LayoutFidelity → String
  | full => "full"
  | reduced => "reduced"

structure Blueprint where
  graph : Graph
  tables : Tables := Tables.empty
  diagnostics : Diagnostics := []
  layout : LayoutFidelity := .full
deriving BEq

namespace Blueprint

/-- A model with nothing but its top-level group. -/
def new (name : String) : Blueprint := { graph := Graph.new name }

def name (b : Blueprint) : String := b.graph.name

/-- Changes the graph by a structural edit. -/
def edit {α : Type} (b : Blueprint) (change : Graph → Except EditError (α × Graph)) :
    Except EditError (α × Blueprint) := do
  let (result, graph) ← change b.graph
  return (result, { b with graph := graph })

/-- Joins two terminals; a pair that is joined already keeps its route. -/
def connect (b : Blueprint) (x y : Terminal) : Except ConnectError (Id × Blueprint) := do
  let (route, graph, tables) ← b.tables.connect b.graph x y
  return (route, { b with graph := graph, tables := tables })

/-- Removes a route; `none` if there is no such route. -/
def disconnect? (b : Blueprint) (route : Id) : Option Blueprint :=
  (b.tables.disconnect? b.graph route).map fun (graph, tables) =>
    { b with graph := graph, tables := tables }

/-- Removes a node, everything below it and every route that touches them. -/
def removeNode (b : Blueprint) (node : Id) : Except EditError Blueprint := do
  let _ ← b.graph.requireNode node
  if node = b.graph.root then throw (.rootExists node)
  let apart := (b.graph.routesWithin node).foldl
    (fun c route => (c.disconnect? route).getD c) b
  let graph ← apart.graph.removeSubtree node
  return { apart with graph := graph, tables := apart.tables.prune graph }

/-- Stands the content of a linked model in a group. -/
def expandLink (b : Blueprint) (group : Id) (linked : Graph) : Except EditError Blueprint := do
  let graph ← b.graph.instantiate group linked
  let graph ← graph.setLinkState group .expanded
  return { b with graph := graph, tables := Tables.build graph }

/-- Records that the model of a group could not be loaded. -/
def markLinkBroken (b : Blueprint) (group : Id) (reason : String) : Except EditError Blueprint := do
  let graph ← b.graph.setLinkState group (.broken reason)
  return { b with graph := graph }

def pendingLinks (b : Blueprint) : List (Id × String) := b.graph.pendingLinks

/-- Compiles a model against its live tables. -/
def compile (b : Blueprint) (options : Options) : Compilation :=
  b.graph.compileWith b.tables options

end Blueprint
end MessageGraph
