import MessageGraph.Blueprint.Split
import MessageGraph.Proofs.Graph.Undrawn
import MessageGraph.Proofs.Resolution.Walk

/-!
# Meaning without drawing

Messages are resolved, models are compiled and behavioral documents are written alike with and without the
drawing of a graph (`build_undrawn`, `undrawn_compileWith`, `undrawn_ownConnections`): each definition on the
way asks for nothing that `Graph.undrawn` takes off.
-/
namespace MessageGraph.Graph

/-! ## Resolution -/

@[simp] theorem undrawn_targetKey (g : Graph) : g.undrawn.targetKey = g.targetKey := by
  funext t
  cases t <;> simp [targetKey]

@[simp] theorem undrawn_busOf? (g : Graph) (i : Id) :
    g.undrawn.busOf? i = (g.busOf? i).map Bus.undrawn := by
  simp only [busOf?, undrawn_tack?, Option.map_bind]
  exact congrArg (Option.bind _) (funext fun t => undrawn_bus? g t.bus)

@[simp] theorem undrawn_isOrigin (g : Graph) (e : Endpoint) : g.undrawn.isOrigin e = g.isOrigin e := by
  cases e with
  | tack i =>
    simp only [isOrigin, undrawn_direction?, undrawn_busOf?]
    cases g.busOf? i <;> rfl
  | _ => simp [isOrigin]

@[simp] theorem undrawn_origins (g : Graph) : g.undrawn.origins = g.origins := by
  simp only [origins, funext g.undrawn_isOrigin]
  simp [undrawn]

@[simp] theorem undrawn_arrival (g : Graph) (name : String) (e : Endpoint) :
    g.undrawn.arrival name e = g.arrival name e := by
  cases e with
  | pin i => cases hp : g.pin? i <;> simp [arrival, hp, Pin.bare]
  | proxy i => rfl
  | pad i => rfl
  | tack i =>
    simp only [arrival, undrawn_tack?, undrawn_busOf?]
    cases g.tack? i with
    | none => rfl
    | some t => cases g.busOf? i <;> rfl

@[simp] theorem undrawn_departures (g : Graph) (name : String) (e : Endpoint) :
    g.undrawn.departures name e = g.departures name e := by
  simp only [departures, undrawn_routesOf, undrawn_across?, undrawn_direction?, undrawn_arrival]

@[simp] theorem undrawn_fanOut (g : Graph) (name : String) (i : Id) :
    g.undrawn.fanOut name i = g.fanOut name i := by
  simp only [fanOut, undrawn_busOf?, undrawn_tack?]
  cases g.busOf? i <;> rfl

@[simp] theorem undrawn_onward (g : Graph) (name : String) (e : Endpoint) :
    g.undrawn.onward name e = g.onward name e := by
  cases e with
  | pad i =>
    simp only [onward, undrawn_gate?, undrawn_departures]
    cases g.gate? i <;> rfl
  | tack i => simp only [onward, undrawn_direction?, undrawn_fanOut, undrawn_departures]
  | pin i => simp only [onward, undrawn_departures]
  | proxy i => simp only [onward, undrawn_departures]

@[simp] theorem undrawn_resolve (g : Graph) (e : Endpoint) : g.undrawn.resolve e = g.resolve e := by
  simp only [resolve, undrawn_nameOf, undrawn_targetKey, undrawn_departures,
    walk_congr g.undrawn_contains (g.undrawn_onward (g.nameOf e))]

theorem build_undrawn (g : Graph) : Tables.build g.undrawn = Tables.build g := by
  simp only [Tables.build, undrawn_origins, undrawn_resolve]

/-! ## The tree of nodes -/

@[simp] theorem undrawn_childrenOf (g : Graph) (n : Id) : g.undrawn.childrenOf n = g.childrenOf n := by
  have hcontains : g.undrawn.nodes.contains = g.nodes.contains :=
    funext (IdMap.contains_map _ g.nodes)
  simp only [childrenOf, undrawn_group?, hcontains]
  cases g.group? n <;> rfl

theorem undrawn_outlineWithin (g : Graph) (depth : Nat) (n : Id) :
    g.undrawn.outlineWithin depth n = g.outlineWithin depth n := by
  induction depth generalizing n with
  | zero => rfl
  | succ depth ih => simp only [outlineWithin, undrawn_childrenOf, funext ih]

@[simp] theorem undrawn_outline (g : Graph) (n : Id) : g.undrawn.outline n = g.outline n :=
  (undrawn_outlineWithin g _ n).trans (congrArg (g.outlineWithin · n) (IdMap.size_map _ g.nodes))

/-! ## Behavioral documents -/

@[simp] theorem undrawn_ownTree (g : Graph) : g.undrawn.ownTree = g.ownTree := by
  rw [ownTree, ownTree, undrawn_outline]
  congr 1
  funext n
  cases hn : g.node? n <;> simp [hn]

theorem undrawn_ownBuses (g : Graph) (s : Group) :
    g.undrawn.ownBuses s = (g.ownBuses s).map fun e => (e.1, e.2.undrawn) := by
  have hlive : (s.buses.filterMap fun i => (g.undrawn.bus? i).map fun b => (i, b)) =
      (s.buses.filterMap fun i => (g.bus? i).map fun b => (i, b)).map fun e => (e.1, e.2.undrawn) := by
    rw [List.map_filterMap]
    simp only [undrawn_bus?, Option.map_map]
    rfl
  rw [ownBuses, hlive, List.filter_map]
  rfl

theorem undrawn_nodeSpec (g : Graph) (n : Id) : g.undrawn.nodeSpec n = g.nodeSpec n := by
  simp only [nodeSpec, undrawn_node?]
  cases g.node? n with
  | none => rfl
  | some m =>
    cases hk : m.kind with
    | source s =>
      simp only [Option.map_some, Node.undrawn, hk, NodeKind.undrawn, funext g.undrawn_pin?,
        ← List.map_filterMap, List.map_map]
      rfl
    | group s =>
      have hbuses : g.undrawn.ownBuses s.undrawn = (g.ownBuses s).map fun e => (e.1, e.2.undrawn) :=
        undrawn_ownBuses g s
      simp only [Option.map_some, Node.undrawn, hk, NodeKind.undrawn, funext g.undrawn_gate?, hbuses,
        Group.gates_undrawn, ← List.map_filterMap, List.map_map]
      rfl

theorem undrawn_endpointSpec? (g : Graph) (e : Endpoint) :
    g.undrawn.endpointSpec? e = g.endpointSpec? e := by
  cases e with
  | pin i => cases hp : g.pin? i <;> simp [endpointSpec?, hp, Pin.bare]
  | proxy i => cases hp : g.gate? i <;> simp [endpointSpec?, hp, Gate.bare]
  | pad i => cases hp : g.gate? i <;> simp [endpointSpec?, hp, Gate.bare]
  | tack i => rfl

theorem undrawn_connectionSpec? (g : Graph) (s : Id) :
    g.undrawn.connectionSpec? s = g.connectionSpec? s := by
  simp only [connectionSpec?, undrawn_sender?, undrawn_across?, undrawn_scope?, undrawn_insideLink,
    undrawn_endpointSpec?]

/-- The stored routes are the same; only their wires are lost. -/
theorem undrawn_ownConnections (g : Graph) :
    g.undrawn.ownConnections.map (·.1) = g.ownConnections.map (·.1) := by
  have hroutes : g.undrawn.routes.entries = g.routes.entries.map fun e => (e.1, e.2.bare) := rfl
  rw [ownConnections, ownConnections, List.map_filterMap, List.map_filterMap, hroutes,
    List.filterMap_map]
  simp only [Function.comp_def, undrawn_connectionSpec?, Option.map_map]

/-! ## Compiling -/

@[simp] theorem undrawn_filteredBuses (g : Graph) (s : Group) :
    g.undrawn.filteredBuses s = g.filteredBuses s := by
  unfold filteredBuses
  congr 1
  funext i
  rw [undrawn_bus?]
  cases g.bus? i <;> rfl

mutual

theorem undrawn_flatten (g : Graph) : (t : Tree Id) → g.undrawn.flatten t = g.flatten t
  | .node id children => by
    simp only [flatten, undrawn_node?]
    cases g.node? id with
    | none => rfl
    | some n =>
      cases hk : n.kind with
      | source s => simp only [Option.map_some, Node.undrawn, hk, NodeKind.undrawn]
      | group s =>
        have hbuses : g.undrawn.filteredBuses s.undrawn = g.filteredBuses s := undrawn_filteredBuses g s
        have hbroken : brokenLink? s.undrawn = brokenLink? s := rfl
        simp only [Option.map_some, Node.undrawn, hk, NodeKind.undrawn, hbuses, hbroken,
          undrawn_flattenAll g children]
        rfl

theorem undrawn_flattenAll (g : Graph) : (ts : List (Tree Id)) → g.undrawn.flattenAll ts = g.flattenAll ts
  | [] => by simp only [flattenAll]
  | t :: ts => by simp only [flattenAll, undrawn_flatten g t, undrawn_flattenAll g ts]

end

@[simp] theorem undrawn_locationFor (g : Graph) (n : Id) (behavior : BehaviorRef) (default : String) :
    g.undrawn.locationFor n behavior default = g.locationFor n behavior default := by
  have hlibrary : (fun i => (g.undrawn.group? i).bind (·.library)) =
      fun i => (g.group? i).bind (·.library) := funext fun i => by
    rw [undrawn_group?]
    cases g.group? i <;> rfl
  simp only [Graph.locationFor, undrawn_lineage, hlibrary]

@[simp] theorem undrawn_behaviorOf? (g : Graph) (e : Element) :
    g.undrawn.behaviorOf? e = g.behaviorOf? e := by
  cases e with
  | source n => simp only [behaviorOf?, undrawn_source?]
  | filter i =>
    simp only [behaviorOf?, undrawn_bus?]
    cases g.bus? i <;> rfl

theorem undrawn_importAll (g : Graph) (options : Options) (es : List Element) (m : Manifest) :
    g.undrawn.importAll options es m = g.importAll options es m := by
  induction es generalizing m with
  | nil => rfl
  | cons e es ih => simp only [importAll, undrawn_behaviorOf?, undrawn_locationFor, ih]

theorem undrawn_describeTarget (g : Graph) (t : Target) (variant : String) :
    Destination.describe? g.undrawn t variant = Destination.describe? g t variant := by
  cases t with
  | pin n i => simp only [Destination.describe?, undrawn_node?, Option.map_map]; rfl
  | boundary n i => simp only [Destination.describe?, undrawn_node?, Option.map_map]; rfl
  | tack b i => simp only [Destination.describe?, undrawn_bus?, Option.map_map]; rfl

theorem undrawn_destination? (g : Graph) (variant : String) (fromPattern : Bool) (t : Target) :
    g.undrawn.destination? variant fromPattern t = g.destination? variant fromPattern t := by
  simp only [destination?, funext fun t => funext (undrawn_describeTarget g t), undrawn_pin?,
    undrawn_gate?, Option.bind_map]
  rfl

@[simp] theorem undrawn_destinations (g : Graph) (t : Tables) (origin : Endpoint) (variant : String)
    (fromPattern : Bool) :
    g.undrawn.destinations t origin variant fromPattern = g.destinations t origin variant fromPattern :=
  congrArg (List.filterMap · _) (funext (undrawn_destination? g variant fromPattern))

theorem undrawn_describeSource (g : Graph) (t : Tables) (id : Id) (n : Node) (s : Source)
    (binding : String) :
    g.undrawn.describeSource t id n.undrawn s binding = g.describeSource t id n s binding := by
  have hpins : (s.pins.filterMap fun i => (g.undrawn.pin? i).map fun p => (i, p)) =
      (s.pins.filterMap fun i => (g.pin? i).map fun p => (i, p)).map fun e => (e.1, e.2.bare) := by
    rw [List.map_filterMap]
    simp only [undrawn_pin?, Option.map_map]
    rfl
  simp only [describeSource, hpins, List.filter_map, List.flatMap_map, outputRows, undrawn_destinations]
  rfl

theorem undrawn_describe? (g : Graph) (t : Tables) (binding : String) (e : Element) :
    g.undrawn.describe? t binding e = g.describe? t binding e := by
  cases e with
  | source n =>
    simp only [describe?, undrawn_node?, Option.bind_map]
    congr 1
    funext m
    simp only [Function.comp, Node.source?_undrawn]
    congr 1
    funext s
    rw [undrawn_describeSource]
  | filter i =>
    simp only [describe?, undrawn_bus?, Option.map_map]
    congr 1
    funext b
    simp only [Function.comp, filterRows, undrawn_tack?, undrawn_destinations]
    rfl

/-- A graph compiles alike with and without its drawing. -/
theorem undrawn_compileWith (g : Graph) (t : Tables) (options : Options) :
    g.undrawn.compileWith t options = g.compileWith t options := by
  have hname : g.undrawn.name = g.name := by
    simp only [name, undrawn_node?, undrawn_root]
    cases g.node? g.root <;> rfl
  simp only [compileWith, undrawn_outline, undrawn_root, undrawn_flatten, undrawn_importAll, hname,
    undrawn_describe?]

end MessageGraph.Graph
