import MessageGraph.Graph.Entity
import MessageGraph.Tree

/-!
# The two documents of a model

A model is stored as a *behavioral* document, which holds everything that has a meaning for the
compiled program, and a *visual* document, which holds geometry. Nodes of the visual tree are matched
to the behavioral tree by position, and what is inside a node by name. Equality of documents (`==`)
compares numbers numerically.
-/
namespace MessageGraph

/-- What kind of node a document speaks of. -/
inductive NodeTag
  | source
  | group
deriving DecidableEq, Repr

namespace NodeTag

def keyword : NodeTag → String
  | source => "source"
  | group => "group"

def ofKeyword? (text : String) : Option NodeTag :=
  [source, group].find? (·.keyword = text)

end NodeTag

/-! ## The behavioral document -/

structure PinSpec where
  name : String
  direction : Direction
  channel : Bool
deriving DecidableEq, Repr

/-- A gate; `direction` is that of its pad. -/
structure GateSpec where
  name : String
  direction : Direction
  channel : Bool
deriving DecidableEq, Repr

structure BusSpec where
  id : Id
  name : String
  filter : Option BehaviorRef
deriving DecidableEq, Repr

/-- A node without its children. -/
structure NodeSpec where
  tag : NodeTag
  id : Id
  name : String
  behavior : Option BehaviorRef := none
  settings : Settings := Settings.empty
  pins : List PinSpec := []
  gates : List GateSpec := []
  buses : List BusSpec := []
  /-- Where the content of the group comes from, if it is another model. -/
  link : Option String := none
  library : Option String := none
deriving BEq

/-- An endpoint by the name it has at its owner. -/
inductive EndpointSpec
  | pin (node : Id) (name : String)
  | proxy (group : Id) (name : String)
  | pad (group : Id) (name : String)
  | bus (id : Id)
deriving DecidableEq, Repr

def EndpointSpec.text : EndpointSpec → String
  | pin node name => s!"pin '{name}' of node {node}"
  | proxy group name => s!"proxy '{name}' of group {group}"
  | pad group name => s!"pad '{name}' of group {group}"
  | bus id => s!"bus {id}"

structure ConnectionSpec where
  sender : EndpointSpec
  receiver : EndpointSpec
deriving DecidableEq, Repr

structure BehavioralDocument where
  root : Tree NodeSpec
  connections : List ConnectionSpec
deriving BEq

namespace BehavioralDocument

/-- Every node id, in tree order. -/
def ids (d : BehavioralDocument) : List Id := d.root.values.map (·.id)

/-- The locations that groups link to, each once, in tree order. -/
def links (d : BehavioralDocument) : List String :=
  (d.root.values.filterMap (·.link)).eraseDups

end BehavioralDocument

/-! ## The visual document -/

structure PinVisual where
  name : String
  direction : Direction
  label : Point
deriving BEq, Repr

structure GateVisual where
  name : String
  pad : Option Point
  proxy : Option Point
deriving BEq, Repr

structure BusVisual where
  name : String
  rect : Rect
deriving BEq, Repr

/-- The picture of a node without its children. -/
structure NodeVisual where
  tag : NodeTag
  name : String
  rect : Option Rect := none
  view : Option View := none
  pins : List PinVisual := []
  gates : List GateVisual := []
  buses : List BusVisual := []
deriving BEq, Repr

structure VisualDocument where
  root : Option (Tree NodeVisual)
  /-- The bends of each connection, in the order of the connections. -/
  wires : List (List Point)
deriving BEq

def VisualDocument.empty : VisualDocument := ⟨none, []⟩

end MessageGraph
