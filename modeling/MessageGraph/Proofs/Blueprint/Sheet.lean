import MessageGraph.Proofs.Graph.Editing
import MessageGraph.Proofs.Graph.Routes
import MessageGraph.Blueprint.Split
import Mathlib.Data.List.Basic

/-!
# What the documents say of a node

A document does not speak of the ids of pins, gates and tacks, nor of routes. The `sheet` of a node is what
is left of it and of what it owns without these: the documents say of a node what its sheet says
(`nodeSpec_eq`, `nodeVisual_eq`).

`Draws` says that a change redraws the sheet of one node and leaves everything else as it was: other
sheets, the tree, and the ids that are `Free` for what a document asks for. Each edit of one node does so
(`modifyNode_draws`, `insertPin_draws` and so on).
-/
namespace MessageGraph

/-- A node without its lists. -/
def Node.unlisted (m : Node) : Node :=
  { m with kind := match m.kind with
      | .source s => .source { s with pins := [] }
      | .group s => .group { s with children := [], buses := [], gates := [] } }

/-- A node and what it owns, without routes and tacks. -/
structure Sheet where
  node : Option Node
  pins : List Pin := []
  gates : List Gate := []
  buses : List (Id × Bus) := []

namespace Sheet

def ownBuses (s : Sheet) : List (Id × Bus) := s.buses.filter fun (_, b) => !b.imported

/-- The behavioral entry of a node with this sheet. -/
def spec (id : Id) (s : Sheet) : NodeSpec :=
  match s.node with
  | none => { tag := .group, id := id, name := "" }
  | some n =>
    match n.kind with
    | .source x =>
      { tag := .source
        id := id
        name := n.name
        behavior := some x.behavior
        settings := n.settings
        pins := s.pins.map Graph.pinSpec }
    | .group x =>
      { tag := .group
        id := id
        name := n.name
        settings := n.settings
        gates := s.gates.map Graph.gateSpec
        buses := s.ownBuses.map fun (id, b) => ⟨id, b.name, b.filter⟩
        link := x.link.map (·.location)
        library := x.library }

/-- The visual entry of a node with this sheet. -/
def visual (s : Sheet) : NodeVisual :=
  match s.node with
  | none => { tag := .group, name := "" }
  | some n =>
    match n.kind with
    | .source _ =>
      { tag := .source
        name := n.name
        rect := n.rect
        pins := s.pins.filterMap Graph.pinVisual? }
    | .group x =>
      { tag := .group
        name := n.name
        rect := n.rect
        view := x.view
        gates := s.gates.filterMap Graph.gateVisual?
        buses := s.ownBuses.filterMap fun (_, b) => Graph.busVisual? b }

end Sheet

namespace Graph

variable {g g' : Graph} {n : Id}

def sheet (g : Graph) (n : Id) : Sheet where
  node := (g.node? n).map Node.unlisted
  pins := (g.pinIds n).filterMap fun i => (g.pin? i).map Pin.unrouted
  gates := (g.gateIds n).filterMap fun i => (g.gate? i).map Gate.unrouted
  buses := (g.busIds n).filterMap fun i => (g.bus? i).map fun b => (i, b.untacked)

/-! ## The documents of a sheet -/

theorem map_ownBuses {β : Type} (s : Group) (f : Id × Bus → β)
    (hf : ∀ i b, f (i, b.untacked) = f (i, b)) :
    (g.ownBuses s).map f = ((s.buses.filterMap fun i => (g.bus? i).map fun b =>
      (i, b.untacked)).filter fun (_, b) => !b.imported).map f := by
  unfold ownBuses
  induction s.buses with
  | nil => rfl
  | cons i is ih =>
    cases hb : g.bus? i with
    | none => simpa only [List.filterMap_cons, hb, Option.map_none] using ih
    | some b =>
      simp only [List.filterMap_cons, hb, Option.map_some, List.filter_cons]
      have hi : b.untacked.imported = b.imported := rfl
      rw [hi]
      cases b.imported with
      | true => exact ih
      | false =>
        simp only [Bool.not_false, ↓reduceIte, List.map_cons, hf]
        rw [ih]

theorem filterMap_ownBuses {β : Type} (s : Group) (f : Id × Bus → Option β)
    (hf : ∀ i b, f (i, b.untacked) = f (i, b)) :
    (g.ownBuses s).filterMap f = ((s.buses.filterMap fun i => (g.bus? i).map fun b =>
      (i, b.untacked)).filter fun (_, b) => !b.imported).filterMap f := by
  have h := congrArg (·.filterMap id) (map_ownBuses (g := g) s f hf)
  simpa only [List.filterMap_map, Function.id_comp] using h

theorem nodeSpec_eq (g : Graph) (n : Id) : g.nodeSpec n = (g.sheet n).spec n := by
  unfold nodeSpec Sheet.spec sheet
  cases hn : g.node? n with
  | none => rfl
  | some m =>
    cases hk : m.kind with
    | source s =>
      have hs : g.pinIds n = s.pins := pinIds_of_source? (source?_of_kind hn hk)
      simp only [hk, Option.map_some, Node.unlisted, hs, List.map_filterMap, Option.map_map]
      rfl
    | group s =>
      have hg : g.gateIds n = s.gates := gateIds_of_group? (group?_of_kind hn hk)
      have hb : g.busIds n = s.buses := busIds_of_group? (group?_of_kind hn hk)
      simp only [hk, Option.map_some, Node.unlisted, hg, hb, List.map_filterMap, Option.map_map,
        Sheet.ownBuses]
      rw [map_ownBuses s _ fun _ _ => rfl]
      rfl

theorem nodeVisual_eq (g : Graph) (n : Id) : g.nodeVisual n = (g.sheet n).visual := by
  unfold nodeVisual Sheet.visual sheet
  cases hn : g.node? n with
  | none => rfl
  | some m =>
    cases hk : m.kind with
    | source s =>
      have hs : g.pinIds n = s.pins := pinIds_of_source? (source?_of_kind hn hk)
      simp only [hk, Option.map_some, Node.unlisted, hs, List.filterMap_filterMap, Option.bind_map]
      rfl
    | group s =>
      have hg : g.gateIds n = s.gates := gateIds_of_group? (group?_of_kind hn hk)
      have hb : g.busIds n = s.buses := busIds_of_group? (group?_of_kind hn hk)
      simp only [hk, Option.map_some, Node.unlisted, hg, hb, List.filterMap_filterMap,
        Option.bind_map, Sheet.ownBuses]
      rw [filterMap_ownBuses s _ fun _ _ => rfl]
      rfl

/-! ## Redrawing one sheet -/

/-- An id that a document can ask for: it names nothing, and fresh ids are past it. -/
structure Free (g : Graph) (i : Id) : Prop where
  below : i < g.nextId
  absent : ∀ k, g.has k i = false

theorem Free.of_alike (h : Alike g g') {i : Id} (hi : g.Free i) : g'.Free i where
  below := Nat.lt_of_lt_of_le hi.below h.nextId
  absent k := (h.has_eq k i).trans (hi.absent k)

/-- Two nodes have the same sheet if they differ in lists of children, in routes and in tacks alone. -/
theorem sheet_congr (hn : (g'.node? n).map Node.unlisted = (g.node? n).map Node.unlisted)
    (hpins : g'.pinIds n = g.pinIds n) (hgates : g'.gateIds n = g.gateIds n)
    (hbuses : g'.busIds n = g.busIds n)
    (hp : ∀ i, i ∈ g.pinIds n → (g'.pin? i).map Pin.unrouted = (g.pin? i).map Pin.unrouted)
    (hg : ∀ i, i ∈ g.gateIds n → (g'.gate? i).map Gate.unrouted = (g.gate? i).map Gate.unrouted)
    (hb : ∀ i, i ∈ g.busIds n → (g'.bus? i).map Bus.untacked = (g.bus? i).map Bus.untacked) :
    g'.sheet n = g.sheet n := by
  unfold sheet
  rw [hn, hpins, hgates, hbuses, List.filterMap_congr hp, List.filterMap_congr hg]
  congr 1
  refine List.filterMap_congr fun i hi => ?_
  have h := congrArg (·.map fun b => (i, b)) (hb i hi)
  simpa only [Option.map_map, Function.comp_def] using h

/-- A change redraws the sheet of one node, claims some ids, and leaves all else as it was. -/
structure Draws (g : Graph) (n : Id) (s : Sheet) (claimed : List Id) (g' : Graph) : Prop where
  wellFormed : g'.WellFormed
  root : g'.root = g.root
  sheet : g'.sheet n = s
  others : ∀ m, m ≠ n → g'.sheet m = g.sheet m
  children : ∀ m, g'.childIds m = g.childIds m
  free : ∀ i, i ∉ claimed → g.Free i → g'.Free i

theorem Draws.refl (w : g.WellFormed) (n : Id) : Draws g n (g.sheet n) [] g :=
  ⟨w, rfl, rfl, fun _ _ => rfl, fun _ => rfl, fun _ _ h => h⟩

theorem Draws.trans {g'' : Graph} {s s' : Sheet} {c c' : List Id} (h : Draws g n s c g')
    (h' : Draws g' n s' c' g'') : Draws g n s' (c ++ c') g'' where
  wellFormed := h'.wellFormed
  root := h'.root.trans h.root
  sheet := h'.sheet
  others m hm := (h'.others m hm).trans (h.others m hm)
  children m := (h'.children m).trans (h.children m)
  free i hi hf := by
    rw [List.mem_append, not_or] at hi
    exact h'.free i hi.2 (h.free i hi.1 hf)

/-! ### Properties of a node -/

theorem modifyNode_draws (w : g.WellFormed) (n : Id) {f : Node → Node}
    (hbare : ∀ m, (f m).bare = m.bare) (hf : ∀ m, (f m).unlisted = f m.unlisted) :
    Draws g n { g.sheet n with node := (g.sheet n).node.map f } [] (g.modifyNode n f) := by
  have hal := modifyNode_alike g n hbare
  refine ⟨w.of_alike hal, rfl, ?_, fun m hm => ?_, hal.childIds_eq, fun i _ hi => hi.of_alike hal⟩
  · have hn : ((g.modifyNode n f).node? n).map Node.unlisted =
        ((g.node? n).map Node.unlisted).map f := by
      show ((g.nodes.modify n f).get? n).map Node.unlisted = _
      rw [IdMap.get?_modify, if_pos rfl, Option.map_map, Option.map_map]
      exact congrArg (fun k => (g.node? n).map k) (funext hf)
    unfold Graph.sheet
    rw [hn, hal.pinIds_eq, hal.gateIds_eq, hal.busIds_eq]
    rfl
  · refine sheet_congr ?_ (hal.pinIds_eq m) (hal.gateIds_eq m) (hal.busIds_eq m) (fun _ _ => rfl)
      (fun _ _ => rfl) fun _ _ => rfl
    show ((g.nodes.modify n f).get? m).map Node.unlisted = _
    rw [IdMap.get?_modify, if_neg hm]
    rfl

theorem modifyGroup_draws (w : g.WellFormed) (n : Id) {f : Group → Group}
    (hbare : ∀ s, (f s).bare = s.bare)
    (hf : ∀ s : Group, { f s with children := [], buses := [], gates := [] } =
      f { s with children := [], buses := [], gates := [] }) :
    Draws g n { g.sheet n with node := (g.sheet n).node.map (·.mapGroup f) } []
      (g.modifyGroup n f) := by
  refine modifyNode_draws w n (fun m => ?_) fun m => ?_
  · cases hk : m.kind with
    | source s => simp [Node.mapGroup, hk]
    | group s => simp [Node.mapGroup, hk, Node.bare, NodeKind.bare, hbare]
  · cases hk : m.kind with
    | source s => simp only [Node.mapGroup, Node.unlisted, hk]
    | group s => simp only [Node.mapGroup, Node.unlisted, hk, hf]

/-! ### Adding to a node -/

theorem Free.of_adds {k : EntityKind} {x i : Id} (h : Adds g k x g') (hnext : g.nextId ≤ g'.nextId)
    (hi : g.Free i) (hne : i ≠ x) : g'.Free i where
  below := Nat.lt_of_lt_of_le hi.below hnext
  absent k' := by
    rw [Bool.eq_false_iff]
    intro hk
    rcases (h.has_iff k' i).1 hk with hk | ⟨-, rfl⟩
    · rw [hi.absent] at hk
      cases hk
    · exact hne rfl

/-- A free id is not fresh. -/
theorem Free.ne_fresh {i : Id} (hi : g.Free i) : i ≠ g.fresh.1 :=
  Nat.ne_of_lt (Nat.lt_of_lt_of_le hi.below (Nat.le_max_left _ _))

/-- What a node lists is there, so it is no unused id. -/
theorem ne_of_owned {owner : Id → Option Id} {held : Id → List Id} (w : Owned owner held)
    {kind : EntityKind} {x o i : Id} (hx : g.has kind x = false)
    (hhas : ∀ {i o}, owner i = some o → g.has kind i = true) (hi : i ∈ held o) : i ≠ x := by
  rintro rfl
  rw [hhas (w.mem_iff.1 hi)] at hx
  cases hx

section Insert

variable {next x : Id}

theorem WellFormed.ne_of_mem_pinIds (w : g.WellFormed) (u : g.Unused x next) {o i : Id}
    (hi : i ∈ g.pinIds o) : i ≠ x :=
  ne_of_owned w.pins (u.absent .pin) (fun h => by
    obtain ⟨p, hp, -⟩ := Option.map_eq_some_iff.1 h
    exact IdMap.contains_of_get? hp) hi

theorem WellFormed.ne_of_mem_gateIds (w : g.WellFormed) (u : g.Unused x next) {o i : Id}
    (hi : i ∈ g.gateIds o) : i ≠ x :=
  ne_of_owned w.gates (u.absent .gate) (fun h => by
    obtain ⟨p, hp, -⟩ := Option.map_eq_some_iff.1 h
    exact IdMap.contains_of_get? hp) hi

theorem WellFormed.ne_of_mem_busIds (w : g.WellFormed) (u : g.Unused x next) {o i : Id}
    (hi : i ∈ g.busIds o) : i ≠ x :=
  ne_of_owned w.buses (u.absent .bus) (fun h => by
    obtain ⟨p, hp, -⟩ := Option.map_eq_some_iff.1 h
    exact IdMap.contains_of_get? hp) hi

/-- What is added to the lists of one node is not seen at others, nor in what a node is without lists. -/
theorem unlisted_modifySource (f : Source → Source) (hf : ∀ s, (f s).behavior = s.behavior) (i m : Id) :
    ((g.modifyNode i (·.mapSource f)).node? m).map Node.unlisted = (g.node? m).map Node.unlisted :=
  IdMap.map_get?_modify fun m => by
    cases hk : m.kind <;> simp only [Node.mapSource, Node.unlisted, hk, hf]

theorem unlisted_modifyGroup (f : Group → Group)
    (hf : ∀ s : Group, { f s with children := [], buses := [], gates := [] } =
      { s with children := [], buses := [], gates := [] }) (i m : Id) :
    ((g.modifyGroup i f).node? m).map Node.unlisted = (g.node? m).map Node.unlisted :=
  IdMap.map_get?_modify fun m => by
    cases hk : m.kind <;> simp only [Node.mapGroup, Node.unlisted, hk, hf]

theorem insertPin_draws (w : g.WellFormed) {p : Pin} {s : Source} (hs : g.source? p.node = some s)
    (u : g.Unused x next) (hroutes : p.routes = [])
    (hname : ∀ {i q}, g.pin? i = some q → q.node = p.node → q.name = p.name →
      q.direction = p.direction → False) :
    Draws g p.node { g.sheet p.node with pins := (g.sheet p.node).pins ++ [p.unrouted] } [x]
      (g.insertPin next x p) := by
  have hold : ∀ {i o}, i ∈ g.pinIds o → (g.insertPin next x p).pin? i = g.pin? i := fun hi => by
    rw [pin?_insertPin, if_neg (w.ne_of_mem_pinIds u hi)]
  have hgroup : ∀ m, (g.insertPin next x p).group? m = g.group? m := fun m =>
    group?_modifySource _ m _
  have hgates : ∀ m, (g.insertPin next x p).gateIds m = g.gateIds m := fun m => by
    unfold gateIds
    rw [hgroup]
  have hbuses : ∀ m, (g.insertPin next x p).busIds m = g.busIds m := fun m => by
    unfold busIds
    rw [hgroup]
  have hnode : ∀ m, ((g.insertPin next x p).node? m).map Node.unlisted =
      (g.node? m).map Node.unlisted :=
    unlisted_modifySource (g := { g with nextId := next, pins := g.pins.insert x p })
      (fun s => { s with pins := s.pins ++ [x] }) (fun _ => rfl) p.node
  refine ⟨w.insertPin hs u hroutes hname, rfl, ?_, fun m hm => ?_, fun m => ?_, fun i hi hf => ?_⟩
  · unfold sheet
    rw [hnode, hgates, hbuses, pinIds_insertPin hs, if_pos rfl, List.filterMap_append]
    have hlist : (g.pinIds p.node).filterMap
        (fun i => ((g.insertPin next x p).pin? i).map Pin.unrouted) =
        (g.pinIds p.node).filterMap fun i => (g.pin? i).map Pin.unrouted :=
      List.filterMap_congr fun i hi => by rw [hold hi]
    rw [hlist]
    simp only [List.filterMap_cons, List.filterMap_nil, pin?_insertPin, ↓reduceIte, Option.map_some]
    rfl
  · refine sheet_congr (hnode m) ?_ (hgates m) (hbuses m) (fun i hi => by rw [hold hi])
      (fun _ _ => rfl) fun _ _ => rfl
    rw [pinIds_insertPin hs, if_neg hm]
  · unfold childIds
    rw [hgroup]
  · exact hf.of_adds ⟨u.absent, has_insertPin⟩ u.le (fun h => hi (List.mem_singleton.2 h))

theorem insertGate_draws (w : g.WellFormed) {p : Gate} {s : Group} (hs : g.group? p.group = some s)
    (u : g.Unused x next) (hpad : p.padRoutes = []) (hproxy : p.proxyRoutes = [])
    (hname : ∀ {i q}, g.gate? i = some q → q.group = p.group → q.name = p.name → False) :
    Draws g p.group { g.sheet p.group with gates := (g.sheet p.group).gates ++ [p.unrouted] } [x]
      (g.insertGate next x p) := by
  have hold : ∀ {i o}, i ∈ g.gateIds o → (g.insertGate next x p).gate? i = g.gate? i := fun hi => by
    rw [gate?_insertGate, if_neg (w.ne_of_mem_gateIds u hi)]
  have hpins : ∀ m, (g.insertGate next x p).pinIds m = g.pinIds m := fun m =>
    congrArg (fun o : Option Source => o.elim [] (·.pins)) (source?_modifyGroup _ m _)
  have hbuses : ∀ m, (g.insertGate next x p).busIds m = g.busIds m := fun m =>
    elim_group?_keep _ m (by intro t; rfl)
  have hgates : ∀ m, (g.insertGate next x p).gateIds m =
      if m = p.group then g.gateIds m ++ [x] else g.gateIds m := fun m =>
    elim_group?_push _ m Group.gates hs (by intro t; rfl)
  have hnode : ∀ m, ((g.insertGate next x p).node? m).map Node.unlisted =
      (g.node? m).map Node.unlisted :=
    unlisted_modifyGroup (g := { g with nextId := next, gates := g.gates.insert x p })
      (fun s => { s with gates := s.gates ++ [x] }) (fun _ => rfl) p.group
  refine ⟨w.insertGate hs u hpad hproxy hname, rfl, ?_, fun m hm => ?_, fun m => ?_, fun i hi hf => ?_⟩
  · unfold sheet
    rw [hnode, hpins, hbuses, hgates, if_pos rfl, List.filterMap_append]
    have hlist : (g.gateIds p.group).filterMap
        (fun i => ((g.insertGate next x p).gate? i).map Gate.unrouted) =
        (g.gateIds p.group).filterMap fun i => (g.gate? i).map Gate.unrouted :=
      List.filterMap_congr fun i hi => by rw [hold hi]
    rw [hlist]
    simp only [List.filterMap_cons, List.filterMap_nil, gate?_insertGate, ↓reduceIte,
      Option.map_some]
    rfl
  · refine sheet_congr (hnode m) (hpins m) ?_ (hbuses m) (fun _ _ => rfl)
      (fun i hi => by rw [hold hi]) fun _ _ => rfl
    rw [hgates, if_neg hm]
  · exact elim_group?_keep _ m (by intro t; rfl)
  · exact hf.of_adds ⟨u.absent, has_insertGate⟩ u.le (fun h => hi (List.mem_singleton.2 h))

theorem insertBus_draws (w : g.WellFormed) {b : Bus} {s : Group} (hs : g.group? b.group = some s)
    (u : g.Unused x next) (htacks : b.tacks = []) :
    Draws g b.group { g.sheet b.group with buses := (g.sheet b.group).buses ++ [(x, b.untacked)] } [x]
      (g.insertBus next x b) := by
  have hold : ∀ {i o}, i ∈ g.busIds o → (g.insertBus next x b).bus? i = g.bus? i := fun hi => by
    rw [bus?_insertBus, if_neg (w.ne_of_mem_busIds u hi)]
  have hpins : ∀ m, (g.insertBus next x b).pinIds m = g.pinIds m := fun m =>
    congrArg (fun o : Option Source => o.elim [] (·.pins)) (source?_modifyGroup _ m _)
  have hgates : ∀ m, (g.insertBus next x b).gateIds m = g.gateIds m := fun m =>
    elim_group?_keep _ m (by intro t; rfl)
  have hbuses : ∀ m, (g.insertBus next x b).busIds m =
      if m = b.group then g.busIds m ++ [x] else g.busIds m := fun m =>
    elim_group?_push _ m Group.buses hs (by intro t; rfl)
  have hnode : ∀ m, ((g.insertBus next x b).node? m).map Node.unlisted =
      (g.node? m).map Node.unlisted :=
    unlisted_modifyGroup (g := { g with nextId := next, buses := g.buses.insert x b })
      (fun s => { s with buses := s.buses ++ [x] }) (fun _ => rfl) b.group
  refine ⟨w.insertBus hs u htacks, rfl, ?_, fun m hm => ?_, fun m => ?_, fun i hi hf => ?_⟩
  · unfold sheet
    rw [hnode, hpins, hgates, hbuses, if_pos rfl, List.filterMap_append]
    have hlist : (g.busIds b.group).filterMap
        (fun i => ((g.insertBus next x b).bus? i).map fun b => (i, b.untacked)) =
        (g.busIds b.group).filterMap fun i => (g.bus? i).map fun b => (i, b.untacked) :=
      List.filterMap_congr fun i hi => by rw [hold hi]
    rw [hlist]
    simp only [List.filterMap_cons, List.filterMap_nil, bus?_insertBus, ↓reduceIte,
      Option.map_some]
    rfl
  · refine sheet_congr (hnode m) (hpins m) (hgates m) ?_ (fun _ _ => rfl) (fun _ _ => rfl)
      fun i hi => by rw [hold hi]
    rw [hbuses, if_neg hm]
  · exact elim_group?_keep _ m (by intro t; rfl)
  · exact hf.of_adds ⟨u.absent, has_insertBus⟩ u.le (fun h => hi (List.mem_singleton.2 h))

end Insert

/-- An id that is not free need not be said to be claimed. -/
theorem Draws.unclaim {s : Sheet} {x : Id} (h : Draws g n s [x] g') (hx : ¬ g.Free x) :
    Draws g n s [] g' :=
  { h with free := fun i _ hi => h.free i (fun hm => hx (List.mem_singleton.1 hm ▸ hi)) hi }

/-! ### A new node -/

/-- A new node with this sheet is the last child of `p`; all else is as it was, but for ids claimed. -/
structure Sprouts (g : Graph) (p x : Id) (s : Sheet) (claimed : List Id) (g' : Graph) : Prop where
  wellFormed : g'.WellFormed
  root : g'.root = g.root
  sheet : g'.sheet x = s
  others : ∀ m, m ≠ x → g'.sheet m = g.sheet m
  leaf : g'.childIds x = []
  parent : g'.childIds p = g.childIds p ++ [x]
  children : ∀ m, m ≠ p → m ≠ x → g'.childIds m = g.childIds m
  free : ∀ i, i ∉ claimed → g.Free i → g'.Free i

/-- What is drawn on the new node afterwards. -/
theorem Sprouts.draws {g'' : Graph} {p x : Id} {s s' : Sheet} {c c' : List Id}
    (h : Sprouts g p x s c g') (h' : Draws g' x s' c' g'') : Sprouts g p x s' (c ++ c') g'' where
  wellFormed := h'.wellFormed
  root := h'.root.trans h.root
  sheet := h'.sheet
  others m hm := (h'.others m hm).trans (h.others m hm)
  leaf := (h'.children x).trans h.leaf
  parent := (h'.children p).trans h.parent
  children m hp hx := (h'.children m).trans (h.children m hp hx)
  free i hi hf := by
    rw [List.mem_append, not_or] at hi
    exact h'.free i hi.2 (h.free i hi.1 hf)

theorem unlisted_insertChild {next n p : Id} {m : Node} (i : Id) :
    ((g.insertChild next n p m).node? i).map Node.unlisted =
      if i = n then some m.unlisted else (g.node? i).map Node.unlisted := by
  refine (unlisted_modifyGroup (g := g.insertNode next n m)
    (fun s => { s with children := s.children ++ [n] }) (fun _ => rfl) p i).trans ?_
  show ((g.nodes.insert n m).get? i).map Node.unlisted = _
  rw [IdMap.get?_insert]
  split <;> rfl

theorem insertChild_sprouts (w : g.WellFormed) {next p x : Id} {m : Node} {s : Group}
    (hs : g.group? p = some s) (u : g.Unused x next) (hm : m.parent = some p) (blank : m.Blank) :
    Sprouts g p x { node := some m.unlisted } [x] (g.insertChild next x p m) := by
  have hx : g.nodes.contains x = false := u.absent .node
  have hnone : g.node? x = none := node?_of_absent hx
  refine ⟨w.insertChild hs u hm blank, rfl, ?_, fun i hi => ?_, ?_, ?_, fun i hip _ => ?_,
    fun i hi hf => ?_⟩
  · unfold sheet
    rw [unlisted_insertChild, if_pos rfl, pinIds_insertChild hx blank, gateIds_insertChild hx blank,
      busIds_insertChild hx blank]
    simp only [pinIds, gateIds, busIds, source?, group?, hnone, Option.bind_none, Option.elim_none,
      List.filterMap_nil]
  · refine sheet_congr ?_ (pinIds_insertChild hx blank i) (gateIds_insertChild hx blank i)
      (busIds_insertChild hx blank i) (fun _ _ => rfl) (fun _ _ => rfl) fun _ _ => rfl
    rw [unlisted_insertChild, if_neg hi]
  · rw [childIds_insertChild hs hx blank, if_neg (ne_of_group? hs hx).symm]
    simp only [childIds, group?, hnone, Option.bind_none, Option.elim_none]
  · rw [childIds_insertChild hs hx blank, if_pos rfl]
  · rw [childIds_insertChild hs hx blank, if_neg hip]
  · exact hf.of_adds ⟨u.absent, has_insertChild⟩ u.le (fun h => hi (List.mem_singleton.2 h))

/-! ## What a sheet tells -/

theorem isSome_group?_eq (g : Graph) (n : Id) :
    (g.group? n).isSome = ((g.sheet n).node.bind Node.group?).isSome := by
  unfold group? sheet
  cases g.node? n with
  | none => rfl
  | some m => cases hk : m.kind <;> simp only [Option.bind_some, Option.map_some, Node.group?,
      Node.unlisted, hk, Option.isSome_some]

theorem isSome_source?_eq (g : Graph) (n : Id) :
    (g.source? n).isSome = ((g.sheet n).node.bind Node.source?).isSome := by
  unfold source? sheet
  cases g.node? n with
  | none => rfl
  | some m => cases hk : m.kind <;> simp only [Option.bind_some, Option.map_some, Node.source?,
      Node.unlisted, hk, Option.isSome_some]

theorem contains_eq_sheet (g : Graph) (n : Id) :
    g.nodes.contains n = (g.sheet n).node.isSome := by
  unfold sheet
  rw [Option.isSome_map]
  rfl

theorem contains_of_sheet_eq {g g' : Graph} {n : Id} (h : g'.sheet n = g.sheet n) :
    g'.nodes.contains n = g.nodes.contains n := by
  rw [contains_eq_sheet, h, contains_eq_sheet]

theorem parent?_eq_sheet (g : Graph) (n : Id) : g.parent? n = (g.sheet n).node.bind (·.parent) := by
  unfold parent? sheet
  cases g.node? n <;> rfl

/-- A pin of a source is found by its name and direction alone. -/
theorem findPin?_eq_none_iff {name : String} {d : Direction} :
    g.findPin? n name d = none ↔ ∀ p ∈ (g.sheet n).pins, ¬ (p.name = name ∧ p.direction = d) := by
  unfold findPin? sheet pinIds
  cases g.source? n with
  | none => simp
  | some s =>
    simp only [Option.bind_some, List.find?_eq_none, Option.elim_some, List.mem_filterMap,
      Option.map_eq_some_iff]
    constructor
    · rintro h p ⟨i, hi, q, hq, rfl⟩ hp
      have := h i hi
      rw [hq] at this
      simp only [Bool.and_eq_true, decide_eq_true_eq] at this
      exact this hp
    · intro h i hi hp
      cases hq : g.pin? i with
      | none => rw [hq] at hp; cases hp
      | some q =>
        rw [hq] at hp
        simp only [Bool.and_eq_true, decide_eq_true_eq] at hp
        exact h q.unrouted ⟨i, hi, q, hq, rfl⟩ hp

theorem findGate?_eq_none_iff {name : String} :
    g.findGate? n name = none ↔ ∀ p ∈ (g.sheet n).gates, p.name ≠ name := by
  unfold findGate? sheet gateIds
  cases g.group? n with
  | none => simp
  | some s =>
    simp only [Option.bind_some, List.find?_eq_none, Option.elim_some, List.mem_filterMap,
      Option.map_eq_some_iff]
    constructor
    · rintro h p ⟨i, hi, q, hq, rfl⟩ hp
      have := h i hi
      rw [hq] at this
      simp only [decide_eq_true_eq] at this
      exact this hp
    · intro h i hi hp
      cases hq : g.gate? i with
      | none => rw [hq] at hp; cases hp
      | some q =>
        rw [hq] at hp
        simp only [decide_eq_true_eq] at hp
        exact h q.unrouted ⟨i, hi, q, hq, rfl⟩ hp

/-! ## The sheets of a well-formed graph -/

end Graph

/-- What stands on the sheet of a node is its own, and told apart by names or ids. -/
structure Sheet.Sound (n : Id) (s : Sheet) : Prop where
  pins : ∀ p ∈ s.pins, p.node = n ∧ p.unrouted = p
  pin_names : (s.pins.map fun p => (p.name, p.direction)).Nodup
  gates : ∀ p ∈ s.gates, p.group = n ∧ p.unrouted = p
  gate_names : (s.gates.map (·.name)).Nodup
  buses : ∀ x ∈ s.buses, x.2.group = n ∧ x.2.untacked = x.2
  bus_ids : (s.buses.map (·.1)).Nodup

theorem nodup_filterMap_of_mem {α β : Type} {l : List α} (h : l.Nodup) {f : α → Option β}
    (hf : ∀ a ∈ l, ∀ a' ∈ l, ∀ b, f a = some b → f a' = some b → a = a') :
    (l.filterMap f).Nodup := by
  rw [List.Nodup, List.pairwise_filterMap]
  refine h.imp_of_mem fun ha ha' hne b hb b' hb' heq => hne ?_
  exact hf _ ha _ ha' b hb (heq ▸ hb')

namespace Graph

variable {g : Graph} {n : Id}

theorem WellFormed.pin_of_mem (w : g.WellFormed) {i : Id} {p : Pin} (hi : i ∈ g.pinIds n)
    (hp : g.pin? i = some p) : p.node = n := by
  have h := w.pins.mem_iff.1 hi
  rw [pinOwner?, hp] at h
  exact Option.some.inj h

theorem WellFormed.gate_of_mem (w : g.WellFormed) {i : Id} {p : Gate} (hi : i ∈ g.gateIds n)
    (hp : g.gate? i = some p) : p.group = n := by
  have h := w.gates.mem_iff.1 hi
  rw [gateOwner?, hp] at h
  exact Option.some.inj h

theorem WellFormed.bus_of_mem (w : g.WellFormed) {i : Id} {b : Bus} (hi : i ∈ g.busIds n)
    (hb : g.bus? i = some b) : b.group = n := by
  have h := w.buses.mem_iff.1 hi
  rw [busOwner?, hb] at h
  exact Option.some.inj h

/-! What there is stands on the sheet of its owner. -/

theorem WellFormed.pin_mem_sheet (w : g.WellFormed) {i : Id} {p : Pin} (hp : g.pin? i = some p) :
    p.unrouted ∈ (g.sheet p.node).pins :=
  List.mem_filterMap.2 ⟨i, w.pins.mem_iff.2 (by rw [pinOwner?, hp]; rfl), by rw [hp]; rfl⟩

theorem WellFormed.gate_mem_sheet (w : g.WellFormed) {i : Id} {p : Gate} (hp : g.gate? i = some p) :
    p.unrouted ∈ (g.sheet p.group).gates :=
  List.mem_filterMap.2 ⟨i, w.gates.mem_iff.2 (by rw [gateOwner?, hp]; rfl), by rw [hp]; rfl⟩

theorem bus_of_mem_sheet {y : Id × Bus} (hy : y ∈ (g.sheet n).buses) :
    ∃ b, g.bus? y.1 = some b ∧ y.2 = b.untacked := by
  obtain ⟨i, -, hy⟩ := List.mem_filterMap.1 hy
  obtain ⟨b, hb, rfl⟩ := Option.map_eq_some_iff.1 hy
  exact ⟨b, hb, rfl⟩

theorem WellFormed.sheet_sound (w : g.WellFormed) (n : Id) : (g.sheet n).Sound n where
  pins q hq := by
    obtain ⟨i, hi, hq⟩ := List.mem_filterMap.1 hq
    obtain ⟨p, hp, rfl⟩ := Option.map_eq_some_iff.1 hq
    exact ⟨(w.pin_of_mem hi hp : p.node = n), rfl⟩
  pin_names := by
    unfold sheet
    rw [List.map_filterMap]
    refine nodup_filterMap_of_mem (w.pins.nodup n) fun i hi j hj b hb hb' => ?_
    simp only [Option.map_map, Option.map_eq_some_iff] at hb hb'
    obtain ⟨p, hp, rfl⟩ := hb
    obtain ⟨q, hq, he⟩ := hb'
    obtain ⟨hname, hdir⟩ := Prod.mk.inj he
    exact w.names.pins hp hq ((w.pin_of_mem hi hp).trans (w.pin_of_mem hj hq).symm) hname.symm hdir.symm
  gates q hq := by
    obtain ⟨i, hi, hq⟩ := List.mem_filterMap.1 hq
    obtain ⟨p, hp, rfl⟩ := Option.map_eq_some_iff.1 hq
    exact ⟨(w.gate_of_mem hi hp : p.group = n), rfl⟩
  gate_names := by
    unfold sheet
    rw [List.map_filterMap]
    refine nodup_filterMap_of_mem (w.gates.nodup n) fun i hi j hj b hb hb' => ?_
    simp only [Option.map_map, Option.map_eq_some_iff] at hb hb'
    obtain ⟨p, hp, rfl⟩ := hb
    obtain ⟨q, hq, hname⟩ := hb'
    exact w.names.gates hp hq ((w.gate_of_mem hi hp).trans (w.gate_of_mem hj hq).symm) hname.symm
  buses x hx := by
    obtain ⟨i, hi, hx⟩ := List.mem_filterMap.1 hx
    obtain ⟨b, hb, rfl⟩ := Option.map_eq_some_iff.1 hx
    exact ⟨(w.bus_of_mem hi hb : b.group = n), rfl⟩
  bus_ids := by
    unfold sheet
    rw [List.map_filterMap]
    refine nodup_filterMap_of_mem (w.buses.nodup n) fun i hi j hj b hb hb' => ?_
    simp only [Option.map_map, Option.map_eq_some_iff] at hb hb'
    obtain ⟨p, hp, rfl⟩ := hb
    obtain ⟨q, hq, he⟩ := hb'
    exact he.symm

end Graph
end MessageGraph
