import MessageGraph.Graph.Legality
import MessageGraph.Graph.Route
import MessageGraph.Proofs.Except
import MessageGraph.Proofs.IdMap
import MessageGraph.Proofs.Graph.Alike

/-!
# Graphs without their drawing

`Graph.undrawn` takes off a graph what only a drawing shows: rectangles, views, labels and the bends of
wires. Everything else stays, ids and the next id included.

* What is asked about a graph outside its drawing has the same answer without it (`undrawn_check`,
  `undrawn_insideLink` and so on, all for `simp`).
* Adding an entity, joining terminals and setting what is no drawing do the same to both
  (`map_addNode`, `map_attach`, `map_setSettings`): they are refused for the same reason or give the same id
  and graphs that are the same undrawn.
* Drawing changes nothing of the undrawn graph (`undrawn_setNodeRect` and so on).
-/
namespace MessageGraph

/-! ## Changing every value of a map -/

namespace IdMap

variable {α β : Type}

/-- Changes every value. -/
def map (f : α → β) (m : IdMap α) : IdMap β :=
  ⟨m.entries.map fun e => (e.1, f e.2), List.pairwise_map.2 m.sorted⟩

theorem lookup_map (f : α → β) (es : List (Nat × α)) (i : Nat) :
    (es.map fun e => (e.1, f e.2)).lookup i = (es.lookup i).map f := by
  induction es with
  | nil => rfl
  | cons e es ih =>
    obtain ⟨k, v⟩ := e
    rw [List.map_cons, lookup_cons, lookup_cons, ih]
    split <;> rfl

@[simp] theorem get?_map (f : α → β) (m : IdMap α) (i : Nat) : (m.map f).get? i = (m.get? i).map f :=
  lookup_map f m.entries i

@[simp] theorem contains_map (f : α → β) (m : IdMap α) (i : Nat) : (m.map f).contains i = m.contains i := by
  rw [contains, get?_map, Option.isSome_map]
  rfl

@[simp] theorem ids_map (f : α → β) (m : IdMap α) : (m.map f).ids = m.ids := by
  rw [ids, map, List.map_map]
  rfl

@[simp] theorem size_map (f : α → β) (m : IdMap α) : (m.map f).size = m.size := List.length_map _

theorem map_insert (f : α → β) (m : IdMap α) (i : Nat) (v : α) :
    (m.insert i v).map f = (m.map f).insert i (f v) := ext_get? fun k => by
  rw [get?_map, get?_insert, get?_insert, get?_map]
  split <;> rfl

theorem map_modify {f : α → β} {change : α → α} {change' : β → β} (h : ∀ v, f (change v) = change' (f v))
    (m : IdMap α) (i : Nat) : (m.modify i change).map f = (m.map f).modify i change' :=
  ext_get? fun k => by
    rw [get?_map, get?_modify, get?_modify, get?_map]
    split
    · rw [Option.map_map, Option.map_map]
      exact congrArg (Option.map · _) (funext h)
    · rfl

/-- A change that `f` does not see. -/
theorem map_modify_unseen {f : α → β} {change : α → α} (h : ∀ v, f (change v) = f v) (m : IdMap α)
    (i : Nat) : (m.modify i change).map f = m.map f := ext_get? fun k => by
  rw [get?_map, get?_map]
  exact map_get?_modify h

end IdMap

/-! ## Without drawing -/

def Group.undrawn (s : Group) : Group := { s with view := none }

def NodeKind.undrawn : NodeKind → NodeKind
  | .source s => .source s
  | .group s => .group s.undrawn

def Node.undrawn (n : Node) : Node := { n with kind := n.kind.undrawn, rect := none }

def Bus.undrawn (b : Bus) : Bus := { b with rect := none }

/-- A graph without rectangles, views, labels and bends. -/
def Graph.undrawn (g : Graph) : Graph :=
  { g with
    nodes := g.nodes.map Node.undrawn
    pins := g.pins.map Pin.bare
    gates := g.gates.map Gate.bare
    buses := g.buses.map Bus.undrawn
    routes := g.routes.map Route.bare }

namespace Node

@[simp] theorem imported_undrawn (n : Node) : n.undrawn.imported = n.imported := rfl

@[simp] theorem source?_undrawn (n : Node) : n.undrawn.source? = n.source? := by
  cases hk : n.kind <;> simp [undrawn, NodeKind.undrawn, source?, hk]

@[simp] theorem group?_undrawn (n : Node) : n.undrawn.group? = n.group?.map Group.undrawn := by
  cases hk : n.kind <;> simp [undrawn, NodeKind.undrawn, group?, hk]

theorem undrawn_mapGroup {f f' : Group → Group} (h : ∀ s, (f s).undrawn = f' s.undrawn) (n : Node) :
    (n.mapGroup f).undrawn = n.undrawn.mapGroup f' := by
  cases hk : n.kind <;> simp [undrawn, NodeKind.undrawn, mapGroup, hk, h]

theorem undrawn_mapSource (f : Source → Source) (n : Node) :
    (n.mapSource f).undrawn = n.undrawn.mapSource f := by
  cases hk : n.kind <;> simp [undrawn, NodeKind.undrawn, mapSource, hk]

end Node

namespace Group

@[simp] theorem gates_undrawn (s : Group) : s.undrawn.gates = s.gates := rfl
@[simp] theorem link_undrawn (s : Group) : s.undrawn.link = s.link := rfl

end Group

namespace Graph

variable {g g' : Graph}

/-! ### What a graph without drawing holds -/

@[simp] theorem undrawn_root (g : Graph) : g.undrawn.root = g.root := rfl

@[simp] theorem undrawn_node? (g : Graph) (n : Id) : g.undrawn.node? n = (g.node? n).map Node.undrawn :=
  IdMap.get?_map ..

@[simp] theorem undrawn_pin? (g : Graph) (i : Id) : g.undrawn.pin? i = (g.pin? i).map Pin.bare :=
  IdMap.get?_map ..

@[simp] theorem undrawn_gate? (g : Graph) (i : Id) : g.undrawn.gate? i = (g.gate? i).map Gate.bare :=
  IdMap.get?_map ..

@[simp] theorem undrawn_bus? (g : Graph) (i : Id) : g.undrawn.bus? i = (g.bus? i).map Bus.undrawn :=
  IdMap.get?_map ..

@[simp] theorem undrawn_tack? (g : Graph) (i : Id) : g.undrawn.tack? i = g.tack? i := rfl

@[simp] theorem undrawn_route? (g : Graph) (s : Id) : g.undrawn.route? s = (g.route? s).map Route.bare :=
  IdMap.get?_map ..

@[simp] theorem undrawn_isTaken (g : Graph) (i : Id) : g.undrawn.isTaken i = g.isTaken i := by
  simp [isTaken, undrawn]

@[simp] theorem undrawn_group? (g : Graph) (n : Id) :
    g.undrawn.group? n = (g.group? n).map Group.undrawn := by
  rw [group?, group?, undrawn_node?, Option.bind_map, Option.map_bind]
  exact congrArg (Option.bind _) (funext Node.group?_undrawn)

@[simp] theorem undrawn_source? (g : Graph) (n : Id) : g.undrawn.source? n = g.source? n := by
  rw [source?, source?, undrawn_node?, Option.bind_map]
  exact congrArg (Option.bind _) (funext Node.source?_undrawn)

@[simp] theorem undrawn_parent? (g : Graph) (n : Id) : g.undrawn.parent? n = g.parent? n := by
  rw [parent?, parent?, undrawn_node?, Option.bind_map]
  rfl

@[simp] theorem undrawn_ancestry (g : Graph) (bound : Nat) (n : Id) :
    g.undrawn.ancestry bound n = g.ancestry bound n := by
  induction bound generalizing n with
  | zero => rfl
  | succ bound ih => simp only [ancestry, undrawn_parent?, ih]

@[simp] theorem undrawn_lineage (g : Graph) (n : Id) : g.undrawn.lineage n = g.lineage n := by
  rw [lineage, undrawn_ancestry]
  simp [undrawn, lineage]

@[simp] theorem undrawn_insideLink (g : Graph) (n : Id) : g.undrawn.insideLink n = g.insideLink n := by
  rw [insideLink, insideLink, undrawn_lineage]
  congr 1
  funext i
  cases hs : g.group? i <;> simp [hs]

@[simp] theorem undrawn_findPin? (g : Graph) (n : Id) (name : String) (direction : Direction) :
    g.undrawn.findPin? n name direction = g.findPin? n name direction := by
  rw [findPin?, findPin?, undrawn_source?]
  congr 1
  funext s
  congr 1
  funext i
  cases hp : g.pin? i <;> simp [hp, Pin.bare]

@[simp] theorem undrawn_findGate? (g : Graph) (n : Id) (name : String) :
    g.undrawn.findGate? n name = g.findGate? n name := by
  rw [findGate?, findGate?, undrawn_group?, Option.bind_map]
  congr 1
  funext s
  show s.gates.find? _ = _
  congr 1
  funext i
  cases hp : g.gate? i <;> simp [hp, Gate.bare]

/-! ### Endpoints -/

@[simp] theorem undrawn_routesOf (g : Graph) (e : Endpoint) : g.undrawn.routesOf e = g.routesOf e := by
  cases e with
  | pin i => cases hp : g.pin? i <;> simp [routesOf, hp, Pin.bare]
  | proxy i => cases hp : g.gate? i <;> simp [routesOf, hp, Gate.bare]
  | pad i => cases hp : g.gate? i <;> simp [routesOf, hp, Gate.bare]
  | tack i => rfl

@[simp] theorem undrawn_contains (g : Graph) (e : Endpoint) : g.undrawn.contains e = g.contains e := by
  cases e <;> simp [contains, undrawn]

@[simp] theorem undrawn_hasTerminal (g : Graph) (a : Terminal) :
    g.undrawn.hasTerminal a = g.hasTerminal a := by
  cases a <;> simp [hasTerminal, undrawn]

@[simp] theorem undrawn_direction? (g : Graph) (e : Endpoint) :
    g.undrawn.direction? e = g.direction? e := by
  cases e with
  | pin i => cases hp : g.pin? i <;> simp [direction?, hp, Pin.bare]
  | proxy i => cases hp : g.gate? i <;> simp [direction?, hp, Gate.bare]
  | pad i => cases hp : g.gate? i <;> simp [direction?, hp, Gate.bare]
  | tack i => rfl

@[simp] theorem undrawn_name? (g : Graph) (e : Endpoint) : g.undrawn.name? e = g.name? e := by
  cases e with
  | pin i => cases hp : g.pin? i <;> simp [name?, hp, Pin.bare]
  | proxy i => cases hp : g.gate? i <;> simp [name?, hp, Gate.bare]
  | pad i => cases hp : g.gate? i <;> simp [name?, hp, Gate.bare]
  | tack i => rfl

@[simp] theorem undrawn_nameOf (g : Graph) (e : Endpoint) : g.undrawn.nameOf e = g.nameOf e := by
  rw [nameOf, nameOf, undrawn_name?]

@[simp] theorem undrawn_channel? (g : Graph) (e : Endpoint) : g.undrawn.channel? e = g.channel? e := by
  cases e with
  | pin i => cases hp : g.pin? i <;> simp [channel?, hp, Pin.bare]
  | proxy i => cases hp : g.gate? i <;> simp [channel?, hp, Gate.bare]
  | pad i => cases hp : g.gate? i <;> simp [channel?, hp, Gate.bare]
  | tack i => rfl

@[simp] theorem undrawn_isPattern (g : Graph) (e : Endpoint) : g.undrawn.isPattern e = g.isPattern e := by
  rw [isPattern, isPattern, undrawn_name?]

@[simp] theorem undrawn_scope? (g : Graph) (e : Endpoint) : g.undrawn.scope? e = g.scope? e := by
  cases e with
  | pin i => cases hp : g.pin? i <;> simp [scope?, hp, Pin.bare]
  | proxy i => cases hp : g.gate? i <;> simp [scope?, hp, Gate.bare]
  | pad i => cases hp : g.gate? i <;> simp [scope?, hp, Gate.bare]
  | tack i =>
    simp only [scope?, undrawn_tack?, undrawn_bus?]
    cases g.tack? i with
    | none => rfl
    | some t => cases hb : g.bus? t.bus <;> simp [hb, Bus.undrawn]

@[simp] theorem undrawn_across? (g : Graph) (e : Endpoint) (s : Id) :
    g.undrawn.across? e s = g.across? e s := by
  cases hr : g.route? s <;> simp [across?, hr, Route.bare, Route.other?]

@[simp] theorem undrawn_sender? (g : Graph) (s : Id) : g.undrawn.sender? s = g.sender? s := by
  cases hr : g.route? s <;> simp [sender?, hr, Route.bare]

/-! ### Legal connections -/

@[simp] theorem undrawn_checkEndpoints (g : Graph) (x y : Endpoint) :
    g.undrawn.checkEndpoints x y = g.checkEndpoints x y := by
  simp only [checkEndpoints, undrawn_direction?, undrawn_channel?, undrawn_nameOf, undrawn_isPattern]

@[simp] theorem undrawn_check (g : Graph) (a b : Terminal) : g.undrawn.check a b = g.check a b := by
  simp only [check, undrawn_hasTerminal, undrawn_checkEndpoints]

@[simp] theorem undrawn_belongsTo (g : Graph) (e : Endpoint) (a : Terminal) :
    g.undrawn.belongsTo e a = g.belongsTo e a := by
  cases a <;> cases e <;> rfl

@[simp] theorem undrawn_routeTo? (g : Graph) (e : Endpoint) (a : Terminal) :
    g.undrawn.routeTo? e a = g.routeTo? e a := by
  simp only [routeTo?, undrawn_routesOf, undrawn_across?, undrawn_belongsTo]

@[simp] theorem undrawn_existingRoute? (g : Graph) (a b : Terminal) :
    g.undrawn.existingRoute? a b = g.existingRoute? a b := by
  simp only [existingRoute?, undrawn_routeTo?]

/-! ## Edits -/

variable {ε α β γ δ : Type}

/-- A result that is a graph with something beside it, without the drawing. -/
def dropDrawing (x : Except ε (α × Graph)) : Except ε (α × Graph) := x.map fun r => (r.1, r.2.undrawn)

/-- Results that are the same without drawing are refused for the same reason, or are graphs that are the
same without drawing with the same beside them. -/
theorem dropDrawing_cases {x y : Except ε (α × Graph)} (h : dropDrawing x = dropDrawing y) :
    (∃ e, x = .error e ∧ y = .error e) ∨
      ∃ a g g', x = .ok (a, g) ∧ y = .ok (a, g') ∧ g.undrawn = g'.undrawn := by
  cases x with
  | error e =>
    cases y with
    | error e' =>
      cases h
      exact .inl ⟨e, rfl, rfl⟩
    | ok r => cases h
  | ok r =>
    cases y with
    | error e => cases h
    | ok r' =>
      obtain ⟨ha, hg⟩ := Prod.mk.inj (Except.ok.inj h)
      exact .inr ⟨r.1, r.2, r'.2, rfl, by rw [ha], hg⟩

theorem map_checked {check : Except ε α} {check' : Except ε β} {f : α → β} (hc : check' = check.map f)
    {u : γ → δ} {y : γ} {y' : δ} (hy : u y = y') :
    (do let _ ← check; return y : Except ε γ).map u = (do let _ ← check'; return y') := by
  subst hc hy
  cases check <;> rfl

theorem undrawn_requireNode (g : Graph) (n : Id) :
    g.undrawn.requireNode n = (g.requireNode n).map Node.undrawn := by
  rw [requireNode, requireNode, undrawn_node?]
  cases g.node? n <;> rfl

theorem undrawn_requireGroup (g : Graph) (n : Id) :
    g.undrawn.requireGroup n = (g.requireGroup n).map Group.undrawn := by
  rw [requireGroup, requireGroup, undrawn_node?]
  cases g.node? n with
  | none => rfl
  | some m =>
    simp only [Option.map_some, Node.group?_undrawn]
    cases m.group? <;> rfl

theorem undrawn_requireSource (g : Graph) (n : Id) :
    g.undrawn.requireSource n = (g.requireSource n).map fun s => s := by
  rw [requireSource, requireSource, undrawn_node?]
  cases g.node? n with
  | none => rfl
  | some m =>
    simp only [Option.map_some, Node.source?_undrawn]
    cases m.source? <;> rfl

/-! ### Changing one entity -/

theorem undrawn_modifyNode {f f' : Node → Node} (h : ∀ n, (f n).undrawn = f' n.undrawn) (g : Graph)
    (n : Id) : (g.modifyNode n f).undrawn = g.undrawn.modifyNode n f' := by
  simp only [undrawn, modifyNode, IdMap.map_modify h]

theorem undrawn_modifyGroup {f f' : Group → Group} (h : ∀ s, (f s).undrawn = f' s.undrawn) (g : Graph)
    (n : Id) : (g.modifyGroup n f).undrawn = g.undrawn.modifyGroup n f' :=
  undrawn_modifyNode (Node.undrawn_mapGroup h) g n

theorem undrawn_modifyPin {f f' : Pin → Pin} (h : ∀ p, (f p).bare = f' p.bare) (g : Graph) (i : Id) :
    (g.modifyPin i f).undrawn = g.undrawn.modifyPin i f' := by
  simp only [undrawn, modifyPin, IdMap.map_modify h]

theorem undrawn_modifyGate {f f' : Gate → Gate} (h : ∀ p, (f p).bare = f' p.bare) (g : Graph) (i : Id) :
    (g.modifyGate i f).undrawn = g.undrawn.modifyGate i f' := by
  simp only [undrawn, modifyGate, IdMap.map_modify h]

theorem undrawn_modifyBus {f f' : Bus → Bus} (h : ∀ b, (f b).undrawn = f' b.undrawn) (g : Graph)
    (i : Id) : (g.modifyBus i f).undrawn = g.undrawn.modifyBus i f' := by
  simp only [undrawn, modifyBus, IdMap.map_modify h]

/-! ### Adding -/

theorem map_claim (g : Graph) (id : Option Id) : dropDrawing (g.claim id) = g.undrawn.claim id := by
  cases id with
  | none => rfl
  | some i =>
    simp only [claim, undrawn_isTaken]
    split <;> rfl

theorem map_addNode (g : Graph) (id : Option Id) (parent : Id) (name : String) (kind : NodeKind)
    (hkind : kind.undrawn = kind) :
    dropDrawing (g.addNode id parent name kind) = g.undrawn.addNode id parent name kind := by
  unfold addNode
  rw [undrawn_requireGroup, ← map_claim]
  cases g.requireGroup parent with
  | error e => rfl
  | ok s =>
    cases g.claim id with
    | error e => rfl
    | ok r =>
      obtain ⟨i, h⟩ := r
      refine congrArg Except.ok (Prod.ext rfl ?_)
      refine (undrawn_modifyGroup (fun _ => by rfl) _ _).trans (congrArg (modifyGroup · parent _) ?_)
      simp only [undrawn, IdMap.map_insert, Node.undrawn, hkind]

theorem map_addPin (g : Graph) (node : Id) (name : String) (direction : Direction) (channel : Bool) :
    dropDrawing (g.addPin node name direction channel) = g.undrawn.addPin node name direction channel := by
  unfold addPin
  rw [undrawn_requireSource, undrawn_findPin?]
  cases g.requireSource node with
  | error e => rfl
  | ok s =>
    cases (g.findPin? node name direction).isSome with
    | true => rfl
    | false =>
      refine congrArg Except.ok (Prod.ext rfl ?_)
      refine (undrawn_modifyNode (Node.undrawn_mapSource _) _ _).trans
        (congrArg (modifyNode · node _) ?_)
      simp only [undrawn, IdMap.map_insert]
      rfl

theorem map_addGate (g : Graph) (group : Id) (name : String) (direction : Direction) (channel : Bool) :
    dropDrawing (g.addGate group name direction channel) =
      g.undrawn.addGate group name direction channel := by
  unfold addGate
  rw [undrawn_requireGroup, undrawn_findGate?]
  cases g.requireGroup group with
  | error e => rfl
  | ok s =>
    cases (g.findGate? group name).isSome with
    | true => rfl
    | false =>
      refine congrArg Except.ok (Prod.ext rfl ?_)
      refine (undrawn_modifyGroup (fun _ => by rfl) _ _).trans (congrArg (modifyGroup · group _) ?_)
      simp only [undrawn, IdMap.map_insert]
      rfl

theorem map_addBus (g : Graph) (id : Option Id) (group : Id) (name : String)
    (filter : Option BehaviorRef) :
    dropDrawing (g.addBus id group name filter) = g.undrawn.addBus id group name filter := by
  unfold addBus
  rw [undrawn_requireGroup, ← map_claim]
  cases g.requireGroup group with
  | error e => rfl
  | ok s =>
    cases g.claim id with
    | error e => rfl
    | ok r =>
      obtain ⟨i, h⟩ := r
      refine congrArg Except.ok (Prod.ext rfl ?_)
      refine (undrawn_modifyGroup (fun _ => by rfl) _ _).trans (congrArg (modifyGroup · group _) ?_)
      simp only [undrawn, IdMap.map_insert]
      rfl

/-! ### Joining -/

theorem undrawn_attachEnd (g : Graph) (s : Id) (a b : Terminal) :
    ((g.attachEnd s a b).1, (g.attachEnd s a b).2.undrawn) = g.undrawn.attachEnd s a b := by
  cases a with
  | pin i => exact Prod.ext rfl (undrawn_modifyPin (fun _ => by rfl) g i)
  | proxy i => exact Prod.ext rfl (undrawn_modifyGate (fun _ => by rfl) g i)
  | pad i => exact Prod.ext rfl (undrawn_modifyGate (fun _ => by rfl) g i)
  | bus i =>
    have htack : g.undrawn.tackFacing i s b.endpoint? = g.tackFacing i s b.endpoint? := by
      simp only [tackFacing, funext g.undrawn_direction?, funext g.undrawn_name?]
    refine Prod.ext rfl ?_
    simp only [attachEnd, htack]
    exact undrawn_modifyBus (fun _ => by rfl) _ i

theorem map_attach (g : Graph) (a b : Terminal) :
    dropDrawing (g.attach a b) = g.undrawn.attach a b := by
  simp only [attach, undrawn_hasTerminal]
  split
  · rfl
  · split
    · rfl
    · split
      · rfl
      · have hfresh : g.undrawn.fresh = (g.fresh.1, g.fresh.2.undrawn) := rfl
        have ha := undrawn_attachEnd g.fresh.2 g.fresh.1 a b
        have hb := undrawn_attachEnd (g.fresh.2.attachEnd g.fresh.1 a b).2 g.fresh.1 b a
        rw [hfresh, ← ha, ← hb]
        refine congrArg Except.ok (Prod.ext rfl ?_)
        simp only [undrawn, IdMap.map_insert]
        rfl

/-! ### Setting what is no drawing -/

theorem map_setSettings (g : Graph) (n : Id) (settings : Settings) :
    (g.setSettings n settings).map undrawn = g.undrawn.setSettings n settings :=
  map_checked (undrawn_requireNode g n) (undrawn_modifyNode (fun _ => by rfl) g n)

theorem map_setLibrary (g : Graph) (n : Id) (library : Option String) :
    (g.setLibrary n library).map undrawn = g.undrawn.setLibrary n library :=
  map_checked (undrawn_requireGroup g n) (undrawn_modifyGroup (fun _ => by rfl) g n)

theorem map_setLink (g : Graph) (n : Id) (location : String) :
    (g.setLink n location).map undrawn = g.undrawn.setLink n location :=
  map_checked (undrawn_requireGroup g n) (undrawn_modifyGroup (fun _ => by rfl) g n)

/-! ### Drawing -/

theorem undrawn_setNodeRect {n : Id} {rect : Option Rect} (h : g.setNodeRect n rect = .ok g') :
    g'.undrawn = g.undrawn := by
  rw [← eq_of_checked h]
  simp only [undrawn, modifyNode, IdMap.map_modify_unseen fun (m : Node) => show
    ({ m with rect := rect } : Node).undrawn = m.undrawn from rfl]

theorem undrawn_setGroupView {n : Id} {view : Option View} (h : g.setGroupView n view = .ok g') :
    g'.undrawn = g.undrawn := by
  rw [← eq_of_checked h]
  have hview : ∀ m : Node, (m.mapGroup fun s => { s with view := view }).undrawn = m.undrawn := fun m => by
    cases hk : m.kind <;> simp [Node.undrawn, NodeKind.undrawn, Node.mapGroup, hk, Group.undrawn]
  simp only [undrawn, modifyGroup, modifyNode, IdMap.map_modify_unseen hview]

theorem undrawn_setPinLabel {i : Id} {label : Option Point} (h : g.setPinLabel i label = .ok g') :
    g'.undrawn = g.undrawn := by
  rw [← eq_of_guarded h]
  simp only [undrawn, modifyPin, IdMap.map_modify_unseen fun (p : Pin) => show
    ({ p with label := label } : Pin).bare = p.bare from rfl]

theorem undrawn_setGateLabels {i : Id} {pad proxy : Option Point}
    (h : g.setGateLabels i pad proxy = .ok g') : g'.undrawn = g.undrawn := by
  rw [← eq_of_guarded h]
  simp only [undrawn, modifyGate, IdMap.map_modify_unseen fun (p : Gate) => show
    ({ p with padLabel := pad, proxyLabel := proxy } : Gate).bare = p.bare from rfl]

theorem undrawn_setBusRect {i : Id} {rect : Option Rect} (h : g.setBusRect i rect = .ok g') :
    g'.undrawn = g.undrawn := by
  rw [← eq_of_guarded h]
  simp only [undrawn, modifyBus, IdMap.map_modify_unseen fun (b : Bus) => show
    ({ b with rect := rect } : Bus).undrawn = b.undrawn from rfl]

theorem undrawn_setRouteWire {s : Id} {wire : List Point} (h : g.setRouteWire s wire = .ok g') :
    g'.undrawn = g.undrawn := by
  rw [← eq_of_guarded h]
  simp only [undrawn, modifyRoute, IdMap.map_modify_unseen fun (r : Route) => show
    ({ r with wire := wire } : Route).bare = r.bare from rfl]

end Graph
end MessageGraph
