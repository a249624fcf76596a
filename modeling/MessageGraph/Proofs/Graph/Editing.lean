import MessageGraph.Proofs.Graph.Add
import MessageGraph.Proofs.Graph.Alike

/-!
# Edits

`Edit` is everything that changes a graph but for its routes. An edit adds one entity or changes how the
graph is presented (`Edit.edited`), and keeps a graph well-formed (`WellFormed.edited`). What is there can
be set (`setSettings_eq` and so on).
-/
namespace MessageGraph

/-- The edits of a graph. -/
inductive Edit
  | addGroup (id : Option Id) (parent : Id) (name : String)
  | addSource (id : Option Id) (parent : Id) (name : String) (behavior : BehaviorRef)
  | addPin (node : Id) (name : String) (direction : Direction) (channel : Bool)
  | addGate (group : Id) (name : String) (direction : Direction) (channel : Bool)
  | addBus (id : Option Id) (group : Id) (name : String) (filter : Option BehaviorRef)
  | reserveId (id : Id)
  | setLink (group : Id) (location : String)
  | setLinkState (group : Id) (state : LinkState)
  | setLibrary (group : Id) (library : Option String)
  | setSettings (node : Id) (settings : Settings)
  | setNodeRect (node : Id) (rect : Option Rect)
  | setGroupView (group : Id) (view : Option View)
  | setPinLabel (pin : Id) (label : Option Point)
  | setGateLabels (gate : Id) (pad proxy : Option Point)
  | setBusRect (bus : Id) (rect : Option Rect)
  | setRouteWire (route : Id) (wire : List Point)

def Edit.apply (g : Graph) : Edit → Except EditError Graph
  | addGroup id parent name => (·.2) <$> g.addGroup id parent name
  | addSource id parent name behavior => (·.2) <$> g.addSource id parent name behavior
  | addPin node name direction channel => (·.2) <$> g.addPin node name direction channel
  | addGate group name direction channel => (·.2) <$> g.addGate group name direction channel
  | addBus id group name filter => (·.2) <$> g.addBus id group name filter
  | reserveId id => .ok (g.reserveId id)
  | setLink group location => g.setLink group location
  | setLinkState group state => g.setLinkState group state
  | setLibrary group library => g.setLibrary group library
  | setSettings node settings => g.setSettings node settings
  | setNodeRect node rect => g.setNodeRect node rect
  | setGroupView group view => g.setGroupView group view
  | setPinLabel pin label => g.setPinLabel pin label
  | setGateLabels gate pad proxy => g.setGateLabels gate pad proxy
  | setBusRect bus rect => g.setBusRect bus rect
  | setRouteWire route wire => g.setRouteWire route wire

theorem map_snd_eq_ok {α β ε : Type} {x : Except ε (α × β)} {a : α} {b : β} (h : x = .ok (a, b)) :
    (·.2) <$> x = .ok b := by
  rw [h]
  rfl

theorem snd_of_map_eq_ok {α β ε : Type} {x : Except ε (α × β)} {b : β} (h : (·.2) <$> x = .ok b) :
    ∃ a, x = .ok (a, b) := by
  cases x with
  | ok p => obtain ⟨a, b'⟩ := p; cases h; exact ⟨a, rfl⟩
  | error e => cases h

/-- An edit adds one entity or changes how the graph is presented. -/
inductive Edited (g g' : Graph) : Prop
  | group {id : Option Id} {parent n : Id} {name : String}
      (h : g.addGroup id parent name = .ok (n, g'))
  | source {id : Option Id} {parent n : Id} {name : String} {behavior : BehaviorRef}
      (h : g.addSource id parent name behavior = .ok (n, g'))
  | pin {node n : Id} {name : String} {direction : Direction} {channel : Bool}
      (h : g.addPin node name direction channel = .ok (n, g'))
  | gate {group n : Id} {name : String} {direction : Direction} {channel : Bool}
      (h : g.addGate group name direction channel = .ok (n, g'))
  | bus {id : Option Id} {group n : Id} {name : String} {filter : Option BehaviorRef}
      (h : g.addBus id group name filter = .ok (n, g'))
  | alike (h : Graph.Alike g g')

theorem Edit.edited {g g' : Graph} {e : Edit} (h : e.apply g = .ok g') : Edited g g' := by
  cases e with
  | addGroup => obtain ⟨n, h⟩ := snd_of_map_eq_ok h; exact .group h
  | addSource => obtain ⟨n, h⟩ := snd_of_map_eq_ok h; exact .source h
  | addPin => obtain ⟨n, h⟩ := snd_of_map_eq_ok h; exact .pin h
  | addGate => obtain ⟨n, h⟩ := snd_of_map_eq_ok h; exact .gate h
  | addBus => obtain ⟨n, h⟩ := snd_of_map_eq_ok h; exact .bus h
  | reserveId id => cases h; exact .alike (g.reserveId_alike id)
  | setLink => exact .alike (Graph.setLink_alike h)
  | setLinkState => exact .alike (Graph.setLinkState_alike h)
  | setLibrary => exact .alike (Graph.setLibrary_alike h)
  | setSettings => exact .alike (Graph.setSettings_alike h)
  | setNodeRect => exact .alike (Graph.setNodeRect_alike h)
  | setGroupView => exact .alike (Graph.setGroupView_alike h)
  | setPinLabel => exact .alike (Graph.setPinLabel_alike h)
  | setGateLabels => exact .alike (Graph.setGateLabels_alike h)
  | setBusRect => exact .alike (Graph.setBusRect_alike h)
  | setRouteWire => exact .alike (Graph.setRouteWire_alike h)

theorem Graph.WellFormed.edited {g g' : Graph} (w : g.WellFormed) (h : Edited g g') :
    g'.WellFormed := by
  cases h with
  | group h => exact w.addGroup h
  | source h => exact w.addSource h
  | pin h => exact w.addPin h
  | gate h => exact w.addGate h
  | bus h => exact w.addBus h
  | alike h => exact w.of_alike h

/-! ## Setting what is there -/

namespace Graph

variable {g g' : Graph} {n : Id}

theorem Alike.isSome_group? (h : Alike g g') (n : Id) :
    (g'.group? n).isSome = (g.group? n).isSome :=
  view_eq Option.isSome (h.group?_bare n) fun _ => rfl

theorem requireNode_of_contains (h : g.nodes.contains n = true) :
    ∃ m, g.requireNode n = .ok m := by
  obtain ⟨m, hm⟩ := IdMap.contains_iff.1 h
  have hm : g.node? n = some m := hm
  exact ⟨m, by simp only [requireNode, hm]⟩

theorem requireGroup_of_isSome (h : (g.group? n).isSome = true) :
    ∃ s, g.requireGroup n = .ok s := by
  obtain ⟨s, hs⟩ := Option.isSome_iff_exists.1 h
  exact ⟨s, requireGroup_eq_ok.2 hs⟩

/-- A setter that only checks first succeeds where the check does. -/
theorem checked_eq_ok {α β ε : Type} {check : Except ε α} (y : β) (h : ∃ a, check = .ok a) :
    (do let _ ← check; return y) = Except.ok y := by
  obtain ⟨a, rfl⟩ := h
  rfl

theorem setSettings_eq (h : g.nodes.contains n = true) (settings : Settings) :
    g.setSettings n settings = .ok (g.modifyNode n fun m => { m with settings := settings }) :=
  checked_eq_ok _ (requireNode_of_contains h)

theorem setNodeRect_eq (h : g.nodes.contains n = true) (rect : Option Rect) :
    g.setNodeRect n rect = .ok (g.modifyNode n fun m => { m with rect := rect }) :=
  checked_eq_ok _ (requireNode_of_contains h)

theorem setLibrary_eq (h : (g.group? n).isSome = true) (library : Option String) :
    g.setLibrary n library = .ok (g.modifyGroup n fun s => { s with library := library }) :=
  checked_eq_ok _ (requireGroup_of_isSome h)

theorem setLink_eq (h : (g.group? n).isSome = true) (location : String) :
    g.setLink n location =
      .ok (g.modifyGroup n fun s => { s with link := some ⟨location, .pending⟩ }) :=
  checked_eq_ok _ (requireGroup_of_isSome h)

theorem setGroupView_eq (h : (g.group? n).isSome = true) (view : Option View) :
    g.setGroupView n view = .ok (g.modifyGroup n fun s => { s with view := view }) :=
  checked_eq_ok _ (requireGroup_of_isSome h)

theorem setPinLabel_eq (h : g.pins.contains n = true) (label : Option Point) :
    g.setPinLabel n label = .ok (g.modifyPin n fun p => { p with label := label }) :=
  if_pos h

theorem setGateLabels_eq (h : g.gates.contains n = true) (pad proxy : Option Point) :
    g.setGateLabels n pad proxy =
      .ok (g.modifyGate n fun p => { p with padLabel := pad, proxyLabel := proxy }) :=
  if_pos h

theorem setBusRect_eq (h : g.buses.contains n = true) (rect : Option Rect) :
    g.setBusRect n rect = .ok (g.modifyBus n fun b => { b with rect := rect }) :=
  if_pos h

theorem setRouteWire_eq (h : g.routes.contains n = true) (wire : List Point) :
    g.setRouteWire n wire = .ok (g.modifyRoute n fun r => { r with wire := wire }) :=
  if_pos h

end Graph

/-! ## What edits do to nodes and buses -/

/-- The edits that neither add what has a place nor set a place. -/
def Edit.placeless : Edit → Bool
  | addGroup .. | addSource .. | addBus .. | setNodeRect .. | setBusRect .. => false
  | _ => true

/-- A property that neither lists nor settings touch. -/
structure Node.Stable (Q : Node → Prop) : Prop where
  settings : ∀ {m} settings, Q m → Q { m with settings := settings }
  mapSource : ∀ {m} f, Q m → Q (m.mapSource f)
  mapGroup : ∀ {m} f, (∀ s, (f s).link = s.link) → Q m → Q (m.mapGroup f)

/-- A property that a new node has and no rectangle touches. -/
structure Node.Placeless (Q : Node → Prop) : Prop where
  source : ∀ name parent behavior, Q { name, parent, kind := .source { behavior, pins := [] } }
  group : ∀ name parent, Q { name, parent, kind := .group {} }
  rect : ∀ {m} rect, Q m → Q { m with rect := rect }

/-- The edits that make or change links. -/
def Edit.links : Edit → Bool
  | setLink .. | setLinkState .. => true
  | _ => false

namespace Graph

variable {g g' : Graph} {Q : Node → Prop}

theorem forall_modifyNode (h : ∀ n m, g.node? n = some m → Q m) {id : Id} {f : Node → Node}
    (hf : ∀ m, Q m → Q (f m)) (n : Id) (m : Node) (hm : (g.modifyNode id f).node? n = some m) :
    Q m := by
  have hm : (g.nodes.modify id f).get? n = some m := hm
  rw [IdMap.get?_modify] at hm
  split at hm
  · obtain ⟨m', hm', rfl⟩ := Option.map_eq_some_iff.1 hm
    exact hf m' (h n m' hm')
  · exact h n m hm

theorem forall_insertNode (h : ∀ n m, g.node? n = some m → Q m) {next id : Id} {x : Node} (hx : Q x)
    (n : Id) (m : Node) (hm : (g.insertNode next id x).node? n = some m) : Q m := by
  have hm : (g.nodes.insert id x).get? n = some m := hm
  rw [IdMap.get?_insert] at hm
  split at hm
  · cases hm
    exact hx
  · exact h n m hm

theorem addNode_forall (hs : Node.Stable Q) (w : g.IdsApart) (h : ∀ n m, g.node? n = some m → Q m)
    {id : Option Id} {parent x : Id} {name : String} {kind : NodeKind}
    (hnew : Q { name, parent := some parent, kind })
    (ha : g.addNode id parent name kind = .ok (x, g')) : ∀ n m, g'.node? n = some m → Q m := by
  obtain ⟨s, next, -, -, rfl⟩ := addNode_eq w ha
  exact forall_modifyNode (forall_insertNode h hnew) fun m hm => hs.mapGroup _ (fun _ => rfl) hm

end Graph

/-- What edits do not touch every node keeps; only edits of links change links, and only some edits change
places. -/
theorem Edit.forall_nodes {g g' : Graph} {Q : Node → Prop} (hs : Node.Stable Q) (w : g.IdsApart)
    {e : Edit} (hplace : e.placeless = false → Node.Placeless Q)
    (hlink : e.links = true → ∀ m f, Q m → Q (m.mapGroup f)) (h : ∀ n m, g.node? n = some m → Q m)
    (he : e.apply g = .ok g') : ∀ n m, g'.node? n = some m → Q m := by
  cases e with
  | addGroup id parent name =>
    obtain ⟨x, ha⟩ := snd_of_map_eq_ok he
    exact Graph.addNode_forall hs w h ((hplace rfl).group _ _) ha
  | addSource id parent name behavior =>
    obtain ⟨x, ha⟩ := snd_of_map_eq_ok he
    exact Graph.addNode_forall hs w h ((hplace rfl).source _ _ _) ha
  | addPin =>
    obtain ⟨x, ha⟩ := snd_of_map_eq_ok he
    obtain ⟨s, -, -, -, rfl⟩ := Graph.addPin_eq ha
    exact Graph.forall_modifyNode h fun m hm => hs.mapSource _ hm
  | addGate =>
    obtain ⟨x, ha⟩ := snd_of_map_eq_ok he
    obtain ⟨s, -, -, -, rfl⟩ := Graph.addGate_eq ha
    exact Graph.forall_modifyNode h fun m hm => hs.mapGroup _ (fun _ => rfl) hm
  | addBus =>
    obtain ⟨x, ha⟩ := snd_of_map_eq_ok he
    obtain ⟨s, next, -, -, rfl⟩ := Graph.addBus_eq w ha
    exact Graph.forall_modifyNode h fun m hm => hs.mapGroup _ (fun _ => rfl) hm
  | reserveId id => cases he; exact h
  | setLink =>
    rw [← eq_of_checked he]
    exact Graph.forall_modifyNode h fun m hm => hlink rfl m _ hm
  | setLinkState =>
    rw [← eq_of_checked he]
    exact Graph.forall_modifyNode h fun m hm => hlink rfl m _ hm
  | setLibrary =>
    rw [← eq_of_checked he]
    exact Graph.forall_modifyNode h fun m hm => hs.mapGroup _ (fun _ => rfl) hm
  | setSettings =>
    rw [← eq_of_checked he]
    exact Graph.forall_modifyNode h fun m hm => hs.settings _ hm
  | setNodeRect =>
    rw [← eq_of_checked he]
    exact Graph.forall_modifyNode h fun m hm => (hplace rfl).rect _ hm
  | setGroupView =>
    rw [← eq_of_checked he]
    exact Graph.forall_modifyNode h fun m hm => hs.mapGroup _ (fun _ => rfl) hm
  | setPinLabel => rw [← eq_of_guarded he]; exact h
  | setGateLabels => rw [← eq_of_guarded he]; exact h
  | setBusRect => rw [← eq_of_guarded he]; exact h
  | setRouteWire => rw [← eq_of_guarded he]; exact h

/-- The same for buses. -/
theorem Edit.forall_buses {g g' : Graph} {Q : Bus → Prop} (w : g.IdsApart) {e : Edit}
    (hnew : e.placeless = false → ∀ group name filter, Q { group, name, filter })
    (hrect : e.placeless = false → ∀ b rect, Q b → Q { b with rect := rect })
    (h : ∀ i b, g.bus? i = some b → Q b) (he : e.apply g = .ok g') :
    ∀ i b, g'.bus? i = some b → Q b := by
  cases e with
  | addGroup id parent name =>
    obtain ⟨x, ha⟩ := snd_of_map_eq_ok he
    obtain ⟨s, next, -, -, rfl⟩ := Graph.addNode_eq w ha
    exact h
  | addSource id parent name behavior =>
    obtain ⟨x, ha⟩ := snd_of_map_eq_ok he
    obtain ⟨s, next, -, -, rfl⟩ := Graph.addNode_eq w ha
    exact h
  | addPin =>
    obtain ⟨x, ha⟩ := snd_of_map_eq_ok he
    obtain ⟨s, -, -, -, rfl⟩ := Graph.addPin_eq ha
    exact h
  | addGate =>
    obtain ⟨x, ha⟩ := snd_of_map_eq_ok he
    obtain ⟨s, -, -, -, rfl⟩ := Graph.addGate_eq ha
    exact h
  | addBus =>
    obtain ⟨x, ha⟩ := snd_of_map_eq_ok he
    obtain ⟨s, next, -, -, rfl⟩ := Graph.addBus_eq w ha
    intro i b hb
    rw [Graph.bus?_insertBus] at hb
    split at hb
    · cases hb
      exact hnew rfl _ _ _
    · exact h i b hb
  | reserveId id => cases he; exact h
  | setLink => rw [← eq_of_checked he]; exact h
  | setLinkState => rw [← eq_of_checked he]; exact h
  | setLibrary => rw [← eq_of_checked he]; exact h
  | setSettings => rw [← eq_of_checked he]; exact h
  | setNodeRect => rw [← eq_of_checked he]; exact h
  | setGroupView => rw [← eq_of_checked he]; exact h
  | setPinLabel => rw [← eq_of_guarded he]; exact h
  | setGateLabels => rw [← eq_of_guarded he]; exact h
  | setBusRect bus rect =>
    intro i b hb
    rw [← eq_of_guarded he] at hb
    have hb : (g.buses.modify bus _).get? i = some b := hb
    rw [IdMap.get?_modify] at hb
    split at hb
    · obtain ⟨b', hb', rfl⟩ := Option.map_eq_some_iff.1 hb
      exact hrect rfl b' rect (h i b' hb')
    · exact h i b hb
  | setRouteWire => rw [← eq_of_guarded he]; exact h

end MessageGraph
