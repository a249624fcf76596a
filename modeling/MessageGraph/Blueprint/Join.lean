import MessageGraph.Blueprint.Basic
import MessageGraph.Blueprint.Document

/-!
# From documents to a blueprint

`Blueprint.join` builds a model from a behavioral document and, where there is one, a visual document.
Only a top-level node that is no group stops it: any other element that cannot be added is left out
with a report, as is visual data that fits nothing. Elements without stored geometry are placed on the
grid of the layout options.
-/
namespace MessageGraph

/-- A model being built: what is there, what was reported, how many elements were placed on the grid. -/
structure Loading where
  graph : Graph
  diagnostics : Diagnostics := []
  placed : Nat := 0

namespace Loading

def report (l : Loading) (kind : DiagnosticKind) (subject : Id) (message : String) : Loading :=
  { l with diagnostics := l.diagnostics ++ [⟨kind, message, some subject⟩] }

def skip (l : Loading) (subject : Id) (message : String) : Loading :=
  l.report .skippedEntity subject message

def stale (l : Loading) (subject : Id) (message : String) : Loading :=
  l.report .staleVisualEntry subject message

/-- Sets a property of an element; a failure is reported. -/
def set (l : Loading) (subject : Id) (what : String) (change : Graph → Except EditError Graph) :
    Loading :=
  match change l.graph with
  | .ok graph => { l with graph := graph }
  | .error e => l.skip subject (what ++ ": " ++ e.message)

/-- Reports the visual entries with these names. -/
def staleAll (l : Loading) (subject : Id) (what : String) (names : List String) : Loading :=
  names.foldl (fun l name => l.stale subject s!"{what} '{name}'") l

/-! ## Inside a group -/

/-- Adds a gate with the labels of the first visual entry of its name. -/
def addGate (group : Id) (visuals : List GateVisual) (l : Loading) (spec : GateSpec) : Loading :=
  let name := spec.name
  match l.graph.addGate group name spec.direction spec.channel with
  | .error e => l.skip group (s!"port '{name}': " ++ e.message)
  | .ok (id, graph) =>
    let l := { l with graph := graph }
    match visuals.find? (·.name = name) with
    | some v => l.set group s!"port '{name}' labels" (·.setGateLabels id v.pad v.proxy)
    | none => l

/-- Adds buses from the `index`-th on. Each takes the first visual entry of its name that no bus has
taken; what remains in the end is stale. -/
def addBuses (options : LayoutOptions) (group children : Id) :
    Nat → List BusSpec → List BusVisual → Loading → Loading
  | _, [], visuals, l => l.staleAll group "bus" (visuals.map (·.name))
  | index, spec :: specs, visuals, l =>
    let name := spec.name
    match l.graph.addBus (some spec.id) group name spec.filter with
    | .error e =>
      addBuses options group children (index + 1) specs visuals
        (l.skip group (s!"bus '{name}': " ++ e.message))
    | .ok (id, graph) =>
      let l := { l with graph := graph }
      let what := s!"bus '{name}' rect"
      match visuals.find? (·.name = name) with
      | some v =>
        addBuses options group children (index + 1) specs (visuals.eraseP (·.name = name))
          (l.set group what (·.setBusRect id (some v.rect)))
      | none =>
        addBuses options group children (index + 1) specs visuals
          ({ l with placed := l.placed + 1 }.set group what
            (·.setBusRect id (some (options.busSlot children index))))

/-- Fills in everything of a group but its children, of which there are `children`. -/
def fillGroup (options : LayoutOptions) (spec : NodeSpec) (children : Nat) (id : Id)
    (visual : Option NodeVisual) (l : Loading) : Loading :=
  let l := l.set id "settings" (·.setSettings id spec.settings)
  let l := l.set id "library" (·.setLibrary id spec.library)
  let l := match spec.link with
    | some location => l.set id "link" (·.setLink id location)
    | none => l
  let l := match visual with
    | some v => (l.set id "rect" (·.setNodeRect id v.rect)).set id "view" (·.setGroupView id v.view)
    | none => l
  let gateVisuals := visual.elim [] (·.gates)
  let l := spec.gates.foldl (addGate id gateVisuals) l
  let unknown := gateVisuals.filter fun v => !spec.gates.any (·.name = v.name)
  let l := l.staleAll id "port" (unknown.map (·.name))
  addBuses options id children 0 spec.buses (visual.elim [] (·.buses)) l

/-! ## Inside a source -/

/-- Adds a pin with the label of the first visual entry of its name and direction. -/
def addPin (node : Id) (visuals : List PinVisual) (l : Loading) (spec : PinSpec) : Loading :=
  let name := spec.name
  match l.graph.addPin node name spec.direction spec.channel with
  | .error e => l.skip node (s!"pin '{name}': " ++ e.message)
  | .ok (id, graph) =>
    let l := { l with graph := graph }
    match visuals.find? fun v => v.name = name && v.direction = spec.direction with
    | some v => l.set node s!"pin '{name}' label" (·.setPinLabel id (some v.label))
    | none => l

def fillSource (spec : NodeSpec) (id : Id) (visual : Option NodeVisual) (l : Loading) : Loading :=
  let l := l.set id "settings" (·.setSettings id spec.settings)
  let visuals := visual.elim [] (·.pins)
  let l := spec.pins.foldl (addPin id visuals) l
  let unknown := visuals.filter fun v =>
    !spec.pins.any fun p => p.name = v.name && p.direction = v.direction
  l.staleAll id "pin label" (unknown.map (·.name))

/-! ## The tree -/

/-- Adds the node of a spec to a group; the outer `none` is a failure that has been reported. -/
def addNode (parent : Id) (spec : NodeSpec) (l : Loading) : Option Id × Loading :=
  let name := spec.name
  let added := match spec.tag, spec.behavior with
    | .source, none => none
    | .source, some behavior => some (l.graph.addSource (some spec.id) parent name behavior)
    | .group, _ => some (l.graph.addGroup (some spec.id) parent name)
  match added with
  | none => (none, l.skip spec.id s!"source '{name}' has no behavior")
  | some (.error e) => (none, l.skip spec.id (s!"node '{name}': " ++ e.message))
  | some (.ok (id, graph)) => (some id, { l with graph := graph })

/-- Places the `index`-th child of a group. -/
def placeNode (options : LayoutOptions) (id : Id) (index : Nat) (visual : Option NodeVisual)
    (l : Loading) : Loading :=
  match visual.bind (·.rect) with
  | some rect => l.set id "rect" (·.setNodeRect id (some rect))
  | none =>
    { l with placed := l.placed + 1 }.set id "rect"
      (·.setNodeRect id (some (options.nodeSlot index)))

/-- The visual entry at the position of a child, if it is of the same kind and name; another one is
stale. -/
def matchChild (group : Id) (index : Nat) (spec : NodeSpec) (visual : Option (Tree NodeVisual))
    (l : Loading) : Option (Tree NodeVisual) × Loading :=
  match visual with
  | none => (none, l)
  | some v =>
    if v.value.tag = spec.tag ∧ v.value.name = spec.name then (some v, l)
    else
      let shown := v.value.name
      let name := spec.name
      (none, l.stale group s!"child {index} is '{shown}' visually, '{name}' behaviorally")

mutual

/-- Adds the `index`-th child of a group with everything below it. -/
def addTree (options : LayoutOptions) (parent : Id) (index : Nat)
    (visual : Option (Tree NodeVisual)) : Tree NodeSpec → Loading → Loading
  | .node spec children, l =>
    match l.addNode parent spec with
    | (none, l) => l
    | (some id, l) =>
      let picture := visual.map Tree.value
      let l := l.placeNode options id index picture
      match spec.tag with
      | .source => l.fillSource spec id picture
      | .group =>
        let l := l.fillGroup options spec children.length id picture
        let visuals := visual.elim [] Tree.children
        let l := addTrees options id 0 visuals children l
        l.staleAll id "child" ((visuals.drop children.length).map (·.value.name))

/-- Adds the children of a group from the `index`-th on, with the visual entries from there on. -/
def addTrees (options : LayoutOptions) (group : Id) (index : Nat)
    (visuals : List (Tree NodeVisual)) : List (Tree NodeSpec) → Loading → Loading
  | [], l => l
  | t :: ts, l =>
    let (visual, l) := l.matchChild group index t.value visuals.head?
    let l := addTree options group index visual t l
    addTrees options group (index + 1) visuals.tail ts l

end

/-- Fills in the top-level group with everything below it. -/
def fillRoot (options : LayoutOptions) (root : Tree NodeSpec) (visual : Option (Tree NodeVisual))
    (l : Loading) : Loading :=
  let id := root.value.id
  let l := l.fillGroup options root.value root.children.length id (visual.map Tree.value)
  let visuals := visual.elim [] Tree.children
  let l := addTrees options id 0 visuals root.children l
  l.staleAll id "child" ((visuals.drop root.children.length).map (·.value.name))

/-! ## Connections -/

/-- What an endpoint of a document stands for; a pin is looked up in the direction of its role. -/
def terminal? (g : Graph) (role : Direction) : EndpointSpec → Option Terminal
  | .pin node name => (g.findPin? node name role).map Terminal.pin
  | .proxy group name => (g.findGate? group name).map Terminal.proxy
  | .pad group name => (g.findGate? group name).map Terminal.pad
  | .bus id => if g.buses.contains id then some (.bus id) else none

/-- Adds the `index`-th connection, with the bends of its wire where they are known. -/
def addConnection (index : Nat) (wire : Option (List Point)) (spec : ConnectionSpec) (l : Loading) :
    Loading :=
  let root := l.graph.root
  match terminal? l.graph .output spec.sender, terminal? l.graph .input spec.receiver with
  | some a, some b =>
    match l.graph.check a b with
    | .error e =>
      l.report .rejectedConnection root (s!"connection {index} dropped: " ++ e.message)
    | .ok () =>
      if (l.graph.existingRoute? a b).isSome then
        l.report .rejectedConnection root s!"connection {index} repeats an earlier one"
      else
        match l.graph.attach a b with
        | .error e =>
          l.report .unresolvedEndpoint root (s!"connection {index} dropped: " ++ e.message)
        | .ok (route, graph) =>
          let l := { l with graph := graph }
          match wire with
          | some points => l.set root s!"connection {index} wire" (·.setRouteWire route points)
          | none => l
  | _, _ =>
    l.report .unresolvedEndpoint root
      s!"connection {index} from {spec.sender.text} to {spec.receiver.text} dropped"

/-- Adds connections from the `index`-th on, with the wires from there on. -/
def addConnections : Nat → List (List Point) → List ConnectionSpec → Loading → Loading
  | _, _, [], l => l
  | index, wires, spec :: specs, l =>
    addConnections (index + 1) wires.tail specs (l.addConnection index wires.head? spec)

end Loading

/-- The graph of a top-level group alone, clear of every id that a document uses for a node or bus. -/
def BehavioralDocument.initialGraph (d : BehavioralDocument) : Graph :=
  d.root.values.foldl
    (fun g spec => (spec.id :: spec.buses.map (·.id)).foldl Graph.reserveId g)
    (Graph.withRoot d.root.value.id d.root.value.name)

/-- The visual root, if it is a group of the same name; another one is stale. -/
def Loading.matchRoot (spec : NodeSpec) (visual : Option (Tree NodeVisual)) (l : Loading) :
    Option (Tree NodeVisual) × Loading :=
  match visual with
  | none => (none, l)
  | some v =>
    if v.value.tag = .group ∧ v.value.name = spec.name then (some v, l)
    else
      let shown := v.value.name
      let name := spec.name
      (none, l.stale spec.id s!"visual root '{shown}' does not match '{name}'")

/-- Builds a model from its documents. -/
def Blueprint.join (behavioral : BehavioralDocument) (visual : Option VisualDocument)
    (options : LayoutOptions) : Except LoadError Blueprint :=
  let spec := behavioral.root.value
  if spec.tag ≠ .group then .error (.behavioral spec.name .rootIsNoGroup)
  else
    let l : Loading := { graph := behavioral.initialGraph }
    let (picture, l) := l.matchRoot spec (visual.bind (·.root))
    let l := l.fillRoot options behavioral.root picture
    let l := l.addConnections 0 (visual.elim [] (·.wires)) behavioral.connections
    let placed := l.placed
    let reduced := decide (0 < placed) || visual.isNone
    let l := if reduced then
        l.report .reducedLayoutFidelity spec.id s!"placed {placed} element(s) automatically"
      else l
    .ok
      { graph := l.graph
        tables := Tables.build l.graph
        diagnostics := l.diagnostics
        layout := if reduced then .reduced else .full }

end MessageGraph
