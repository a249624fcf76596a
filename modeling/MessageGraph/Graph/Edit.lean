import MessageGraph.Graph.Basic

/-!
# Editing a graph

Adding nodes, pins, gates and buses and setting their properties. Every edit checks first: an error
leaves nothing half done. Pin names are unique per source and direction, gate names per group.
-/
namespace MessageGraph.Graph

/-- Whether an id names an entity of any kind. -/
def isTaken (g : Graph) (id : Id) : Bool :=
  g.nodes.contains id || g.buses.contains id || g.pins.contains id || g.gates.contains id ||
    g.tacks.contains id || g.routes.contains id

/-- The id asked for, if it is free and not zero; a fresh one if none is asked for. -/
def claim (g : Graph) : Option Id → Except EditError (Id × Graph)
  | some id => if g.isTaken id || id = 0 then .error (.duplicateId id) else .ok (id, g.reserveId id)
  | none => .ok g.fresh

/-! ## Changing one entity -/

def modifyNode (g : Graph) (id : Id) (change : Node → Node) : Graph :=
  { g with nodes := g.nodes.modify id change }

def modifyGroup (g : Graph) (id : Id) (change : Group → Group) : Graph :=
  g.modifyNode id (·.mapGroup change)

def modifyPin (g : Graph) (id : Id) (change : Pin → Pin) : Graph :=
  { g with pins := g.pins.modify id change }

def modifyGate (g : Graph) (id : Id) (change : Gate → Gate) : Graph :=
  { g with gates := g.gates.modify id change }

def modifyBus (g : Graph) (id : Id) (change : Bus → Bus) : Graph :=
  { g with buses := g.buses.modify id change }

def modifyRoute (g : Graph) (id : Id) (change : Route → Route) : Graph :=
  { g with routes := g.routes.modify id change }

/-! ## Adding -/

/-- Adds a node as the last child of a group. -/
def addNode (g : Graph) (id : Option Id) (parent : Id) (name : String) (kind : NodeKind) :
    Except EditError (Id × Graph) := do
  let _ ← g.requireGroup parent
  let (id, g) ← g.claim id
  let g := { g with nodes := g.nodes.insert id { name := name, parent := some parent, kind := kind } }
  return (id, g.modifyGroup parent fun s => { s with children := s.children ++ [id] })

def addGroup (g : Graph) (id : Option Id) (parent : Id) (name : String) :
    Except EditError (Id × Graph) :=
  g.addNode id parent name (.group {})

def addSource (g : Graph) (id : Option Id) (parent : Id) (name : String) (behavior : BehaviorRef) :
    Except EditError (Id × Graph) :=
  g.addNode id parent name (.source { behavior := behavior, pins := [] })

def addPin (g : Graph) (node : Id) (name : String) (direction : Direction) (channel : Bool) :
    Except EditError (Id × Graph) := do
  let _ ← g.requireSource node
  if (g.findPin? node name direction).isSome then throw (.duplicateName node name)
  let (id, g) := g.fresh
  let pin : Pin := { node := node, name := name, direction := direction, channel := channel }
  let g := { g with pins := g.pins.insert id pin }
  return (id, g.modifyNode node (·.mapSource fun s => { s with pins := s.pins ++ [id] }))

/-- Adds a gate; `direction` is that of its pad. -/
def addGate (g : Graph) (group : Id) (name : String) (direction : Direction) (channel : Bool) :
    Except EditError (Id × Graph) := do
  let _ ← g.requireGroup group
  if (g.findGate? group name).isSome then throw (.duplicateName group name)
  let (id, g) := g.fresh
  let gate : Gate := { group := group, name := name, direction := direction, channel := channel }
  let g := { g with gates := g.gates.insert id gate }
  return (id, g.modifyGroup group fun s => { s with gates := s.gates ++ [id] })

def addBus (g : Graph) (id : Option Id) (group : Id) (name : String) (filter : Option BehaviorRef) :
    Except EditError (Id × Graph) := do
  let _ ← g.requireGroup group
  let (id, g) ← g.claim id
  let g := { g with buses := g.buses.insert id { group := group, name := name, filter := filter } }
  return (id, g.modifyGroup group fun s => { s with buses := s.buses ++ [id] })

/-! ## Setting properties -/

/-- Makes a group a link that is yet to be loaded. -/
def setLink (g : Graph) (group : Id) (location : String) : Except EditError Graph := do
  let _ ← g.requireGroup group
  return g.modifyGroup group fun s => { s with link := some ⟨location, .pending⟩ }

/-- Sets the state of a link; a group that is no link stays as it is. -/
def setLinkState (g : Graph) (group : Id) (state : LinkState) : Except EditError Graph := do
  let _ ← g.requireGroup group
  return g.modifyGroup group fun s => { s with link := s.link.map fun l => { l with state := state } }

def setLibrary (g : Graph) (group : Id) (library : Option String) : Except EditError Graph := do
  let _ ← g.requireGroup group
  return g.modifyGroup group fun s => { s with library := library }

def setSettings (g : Graph) (node : Id) (settings : Settings) : Except EditError Graph := do
  let _ ← g.requireNode node
  return g.modifyNode node fun n => { n with settings := settings }

def setNodeRect (g : Graph) (node : Id) (rect : Option Rect) : Except EditError Graph := do
  let _ ← g.requireNode node
  return g.modifyNode node fun n => { n with rect := rect }

def setGroupView (g : Graph) (group : Id) (view : Option View) : Except EditError Graph := do
  let _ ← g.requireGroup group
  return g.modifyGroup group fun s => { s with view := view }

def setPinLabel (g : Graph) (pin : Id) (label : Option Point) : Except EditError Graph :=
  if g.pins.contains pin then .ok (g.modifyPin pin fun p => { p with label := label })
  else .error (.entityNotFound (.pin pin))

def setGateLabels (g : Graph) (gate : Id) (pad proxy : Option Point) : Except EditError Graph :=
  if g.gates.contains gate then
    .ok (g.modifyGate gate fun p => { p with padLabel := pad, proxyLabel := proxy })
  else .error (.entityNotFound (.gate gate))

def setBusRect (g : Graph) (bus : Id) (rect : Option Rect) : Except EditError Graph :=
  if g.buses.contains bus then .ok (g.modifyBus bus fun b => { b with rect := rect })
  else .error (.entityNotFound (.bus bus))

def setRouteWire (g : Graph) (route : Id) (wire : List Point) : Except EditError Graph :=
  if g.routes.contains route then .ok (g.modifyRoute route fun r => { r with wire := wire })
  else .error (.entityNotFound (.route route))

end MessageGraph.Graph
