import MessageGraph.Proofs.Blueprint.Sheet
import MessageGraph.Proofs.Graph.Instance
import MessageGraph.Proofs.Graph.Outline

/-!
# What a copy in progress stands for

`Copying` keeps the ids that stand for pins, gates and buses. With those that stand for nodes beside it,
`Traced` says what holds between the linked graph, the graph that is copied into, and the graph so far: an
entity has one copy and is the original of one; what is new is a copy; the copy of what a node owns is owned
by the copy of that node; and the sheets of the nodes that were there are as they were, but for what the group
in question takes in (`Frame`).

Every step of copying adds one entity (`Traced.insert`), binds a gate that is there (`Traced.bind`) or changes
a node that is new (`Traced.modifyNode`).
-/
namespace MessageGraph

/-- The name of a node, the behavior of a source and the library of a group. -/
structure Label where
  name : String
  behavior : Option BehaviorRef
  library : Option String

def Node.label (m : Node) : Label where
  name := m.name
  behavior := m.source?.map (·.behavior)
  library := m.group?.bind (·.library)

theorem Node.label_unlisted (m : Node) : m.unlisted.label = m.label := by
  cases hk : m.kind <;> simp [Node.label, Node.unlisted, Node.source?, Node.group?, hk]

theorem Node.label_mapGroup {m : Node} {s : Group} (hm : m.group? = some s) (f : Group → Group) :
    (m.mapGroup f).label = { m.label with library := (f s).library } := by
  cases hk : m.kind with
  | source => simp [Node.group?, hk] at hm
  | group d =>
    simp only [Node.group?, hk, Option.some.injEq] at hm
    simp [Node.label, Node.mapGroup, Node.source?, Node.group?, hk, hm]

theorem Node.label_mapGroup_of_eq {f : Group → Group} (hf : ∀ s, (f s).library = s.library) (m : Node) :
    (m.mapGroup f).label = m.label := by
  cases hk : m.kind <;> simp [Node.label, Node.mapGroup, Node.source?, Node.group?, hk, hf]

def Graph.label? (g : Graph) (n : Id) : Option Label := (g.node? n).map Node.label

namespace Graph

variable {g g' base : Graph} {n x i o group : Id} {k k' : EntityKind}

/-! ## Owners of every kind -/

/-- The node that an entity belongs to: its parent, its source or its group. -/
def ownerOf? (g : Graph) : EntityKind → Id → Option Id
  | .node => g.parent?
  | .pin => g.pinOwner?
  | .gate => g.gateOwner?
  | .bus => g.busOwner?
  | .tack | .route => fun _ => none

/-- What a node lists, by kind. -/
def listed (g : Graph) : EntityKind → Id → List Id
  | .node => g.childIds
  | .pin => g.pinIds
  | .gate => g.gateIds
  | .bus => g.busIds
  | .tack | .route => fun _ => []

theorem WellFormed.owned (w : g.WellFormed) (k : EntityKind) : Owned (g.ownerOf? k) (g.listed k) := by
  cases k with
  | node => exact w.tree.children
  | pin => exact w.pins
  | gate => exact w.gates
  | bus => exact w.buses
  | tack | route => exact .of_none (fun _ => rfl) fun _ => rfl

theorem has_of_ownerOf? (h : g.ownerOf? k i = some o) : g.has k i = true := by
  cases k with
  | node => exact contains_of_parent? h
  | pin | gate | bus =>
    obtain ⟨_, hp, -⟩ := Option.map_eq_some_iff.1 h
    exact IdMap.contains_of_get? hp
  | tack | route => cases h

/-- An owner that lists something is there. -/
theorem WellFormed.contains_owner (w : g.WellFormed) (h : g.ownerOf? k i = some o) :
    g.nodes.contains o = true := by
  have hi : i ∈ g.listed k o := (w.owned k).mem_iff.2 h
  cases k with
  | node | gate | bus =>
    obtain ⟨s, hs, -⟩ := group?_of_mem_elim hi
    exact contains_of_group? hs
  | pin =>
    obtain ⟨s, hs, -⟩ := source?_of_mem_elim hi
    exact contains_of_source? hs
  | tack | route => cases hi

/-! ### What is seen of a node without its lists -/

/-- The node is the same, up to what it lists. -/
def SameNode (g g' : Graph) (n : Id) : Prop :=
  (g'.node? n).map Node.unlisted = (g.node? n).map Node.unlisted

theorem SameNode.of_sheet (h : (g'.sheet n).node = (g.sheet n).node) : SameNode g g' n := h

theorem SameNode.parent?_eq (h : SameNode g g' n) : g'.parent? n = g.parent? n :=
  view_eq (fun o : Option Node => o.bind (·.parent)) h fun _ => rfl

theorem SameNode.isSome_source? (h : SameNode g g' n) :
    (g'.source? n).isSome = (g.source? n).isSome := by
  rw [isSome_source?_eq, isSome_source?_eq]
  exact congrArg (fun o : Option Node => (o.bind Node.source?).isSome) h

theorem SameNode.isSome_group? (h : SameNode g g' n) :
    (g'.group? n).isSome = (g.group? n).isSome := by
  rw [isSome_group?_eq, isSome_group?_eq]
  exact congrArg (fun o : Option Node => (o.bind Node.group?).isSome) h

theorem SameNode.imported (h : SameNode g g' n) {m : Node} (hm : g.node? n = some m) :
    ∃ m', g'.node? n = some m' ∧ m'.imported = m.imported := by
  unfold SameNode at h
  rw [hm] at h
  obtain ⟨m', hm', heq⟩ := Option.map_eq_some_iff.1 h
  exact ⟨m', hm', show m'.unlisted.imported = m.unlisted.imported by rw [heq]⟩

theorem SameNode.label?_eq (h : SameNode g g' n) : g'.label? n = g.label? n :=
  view_eq (fun o : Option Node => o.map Node.label) h fun m => congrArg some m.label_unlisted

theorem label?_eq (g : Graph) (n : Id) : g.label? n = (g.sheet n).node.map Node.label := by
  rw [sheet, Option.map_map]
  exact congrFun (congrArg Option.map (funext fun m => m.label_unlisted.symm)) _

/-! ### One entity more -/

/-- One graph has an entity more than the other, which belongs to a node. -/
structure Inserts (g : Graph) (k : EntityKind) (x o : Id) (g' : Graph) : Prop where
  wellFormed : g'.WellFormed
  adds : Adds g k x g'
  ext : Extends g g'
  owner : g'.ownerOf? k x = some o
  nodes : ∀ {n}, g.nodes.contains n = true → SameNode g g' n

theorem Extends.ownerOf?_eq (h : Extends g g') (hn : k = .node → SameNode g g' i)
    (hi : g.has k i = true) : g'.ownerOf? k i = g.ownerOf? k i := by
  cases k with
  | node => exact (hn rfl).parent?_eq
  | pin => exact congrArg (·.map Pin.node) (h.pins hi)
  | gate => exact congrArg (·.map Gate.group) (h.gates hi)
  | bus => exact congrArg (·.map Bus.group) (h.buses hi)
  | tack | route => rfl

theorem Inserts.ownerOf?_eq (h : Inserts g k x o g') (hi : g.has k' i = true) :
    g'.ownerOf? k' i = g.ownerOf? k' i :=
  h.ext.ownerOf?_eq (fun he => h.nodes (by subst he; exact hi)) hi

section Insert

variable {next : Id}

theorem Draws.sameNode {s : Sheet} {claimed : List Id} (h : Draws g n s claimed g')
    (hs : s.node = (g.sheet n).node) (m : Id) : SameNode g g' m := by
  refine .of_sheet ?_
  by_cases hm : m = n
  · subst hm
    rw [h.sheet, hs]
  · rw [h.others m hm]

theorem insertPin_inserts (w : g.WellFormed) {p : Pin} {s : Source} (hs : g.source? p.node = some s)
    (u : g.Unused x next) (hroutes : p.routes = [])
    (hname : ∀ {i q}, g.pin? i = some q → q.node = p.node → q.name = p.name →
      q.direction = p.direction → False) : Inserts g .pin x p.node (g.insertPin next x p) where
  wellFormed := w.insertPin hs u hroutes hname
  adds := ⟨u.absent, has_insertPin⟩
  ext := insertPin_extends (u.absent .pin)
  owner := by
    show ((g.insertPin next x p).pin? x).map Pin.node = _
    rw [pin?_insertPin, if_pos rfl]
    rfl
  nodes _ := (insertPin_draws w hs u hroutes hname).sameNode rfl _

theorem insertGate_inserts (w : g.WellFormed) {p : Gate} {s : Group} (hs : g.group? p.group = some s)
    (u : g.Unused x next) (hpad : p.padRoutes = []) (hproxy : p.proxyRoutes = [])
    (hname : ∀ {i q}, g.gate? i = some q → q.group = p.group → q.name = p.name → False) :
    Inserts g .gate x p.group (g.insertGate next x p) where
  wellFormed := w.insertGate hs u hpad hproxy hname
  adds := ⟨u.absent, has_insertGate⟩
  ext := insertGate_extends (u.absent .gate)
  owner := by
    show ((g.insertGate next x p).gate? x).map Gate.group = _
    rw [gate?_insertGate, if_pos rfl]
    rfl
  nodes _ := (insertGate_draws w hs u hpad hproxy hname).sameNode rfl _

theorem insertBus_inserts (w : g.WellFormed) {b : Bus} {s : Group} (hs : g.group? b.group = some s)
    (u : g.Unused x next) (htacks : b.tacks = []) :
    Inserts g .bus x b.group (g.insertBus next x b) where
  wellFormed := w.insertBus hs u htacks
  adds := ⟨u.absent, has_insertBus⟩
  ext := insertBus_extends (u.absent .bus)
  owner := by
    show ((g.insertBus next x b).bus? x).map Bus.group = _
    rw [bus?_insertBus, if_pos rfl]
    rfl
  nodes _ := (insertBus_draws w hs u htacks).sameNode rfl _

theorem insertChild_inserts (w : g.WellFormed) {p : Id} {m : Node} {s : Group} (hs : g.group? p = some s)
    (u : g.Unused x next) (hm : m.parent = some p) (blank : m.Blank) :
    Inserts g .node x p (g.insertChild next x p m) where
  wellFormed := w.insertChild hs u hm blank
  adds := ⟨u.absent, has_insertChild⟩
  ext := ⟨rfl, fun _ => rfl, fun _ => rfl, fun _ => rfl, fun _ => rfl, fun _ => rfl⟩
  owner := by
    show Graph.parent? _ x = _
    rw [parent?_insertChild hm, if_pos rfl]
  nodes {n} hn := by
    refine .of_sheet ?_
    rw [(insertChild_sprouts w hs u hm blank).others n fun he => ?_]
    have hx := u.absent .node
    rw [← he] at hx
    exact absurd (hn.symm.trans hx) nofun

end Insert

/-! ## What happens to the nodes that were there -/

/-- The nodes of `base` are in `g` as they were, but that one group has more gates, imported buses and new
children after its own. -/
structure Frame (base : Graph) (group : Id) (added : List Gate) (g : Graph) : Prop where
  site : base.nodes.contains group = true
  others : ∀ {m}, base.nodes.contains m = true → m ≠ group → g.sheet m = base.sheet m
  children : ∀ {m}, base.nodes.contains m = true → m ≠ group → g.childIds m = base.childIds m
  host : ∃ buses : List (Id × Bus), (∀ b ∈ buses, b.2.imported = true) ∧ g.sheet group =
    { base.sheet group with
      gates := (base.sheet group).gates ++ added
      buses := (base.sheet group).buses ++ buses }
  hosted : ∃ nodes : List Id, (∀ m ∈ nodes, base.nodes.contains m = false) ∧
    g.childIds group = base.childIds group ++ nodes

namespace Frame

variable {added : List Gate} {s : Sheet} {claimed : List Id}

theorem refl (h : base.nodes.contains group = true) : Frame base group [] base where
  site := h
  others _ _ := rfl
  children _ _ := rfl
  host := ⟨[], nofun, by simp only [List.append_nil]⟩
  hosted := ⟨[], nofun, (List.append_nil _).symm⟩

theorem sameNode (h : Frame base group added g) (hn : base.nodes.contains n = true) :
    SameNode base g n := by
  refine .of_sheet ?_
  by_cases he : n = group
  · obtain ⟨buses, -, heq⟩ := h.host
    rw [he, heq]
  · rw [h.others hn he]

theorem ne_site (h : Frame base group added g) (hn : base.nodes.contains n = false) : group ≠ n := by
  rintro rfl
  exact absurd (h.site.symm.trans hn) nofun

/-- Drawing on a node that was not there. -/
theorem draw (h : Frame base group added g) (hn : base.nodes.contains n = false)
    (d : Draws g n s claimed g') : Frame base group added g' where
  site := h.site
  others {m} hm hne := (d.others m fun he => absurd ((he ▸ hm).symm.trans hn) nofun).trans (h.others hm hne)
  children {m} hm hne := (d.children m).trans (h.children hm hne)
  host := by
    rw [d.others group (h.ne_site hn)]
    exact h.host
  hosted := by
    rw [d.children]
    exact h.hosted

/-- Drawing one more gate on the group. -/
theorem gate (h : Frame base group added g) {p : Gate}
    (d : Draws g group { g.sheet group with gates := (g.sheet group).gates ++ [p] } claimed g') :
    Frame base group (added ++ [p]) g' where
  site := h.site
  others {m} hm hne := (d.others m hne).trans (h.others hm hne)
  children {m} hm hne := (d.children m).trans (h.children hm hne)
  host := by
    obtain ⟨buses, himp, heq⟩ := h.host
    refine ⟨buses, himp, ?_⟩
    rw [d.sheet, heq, List.append_assoc]
  hosted := by
    rw [d.children]
    exact h.hosted

/-- Drawing one more imported bus on the group. -/
theorem bus (h : Frame base group added g) {b : Bus} (hb : b.imported = true)
    (d : Draws g group { g.sheet group with buses := (g.sheet group).buses ++ [(x, b)] } claimed g') :
    Frame base group added g' where
  site := h.site
  others {m} hm hne := (d.others m hne).trans (h.others hm hne)
  children {m} hm hne := (d.children m).trans (h.children hm hne)
  host := by
    obtain ⟨buses, himp, heq⟩ := h.host
    refine ⟨buses ++ [(x, b)], fun y hy => ?_, ?_⟩
    · rcases List.mem_append.1 hy with hy | hy
      · exact himp y hy
      · rw [List.mem_singleton.1 hy]
        exact hb
    · rw [d.sheet, heq, List.append_assoc]
  hosted := by
    rw [d.children]
    exact h.hosted

/-- A new node in the group, or in a node that was not there. -/
theorem sprout (h : Frame base group added g) {p : Id}
    (hp : p = group ∨ base.nodes.contains p = false) (hx : base.nodes.contains x = false)
    (d : Sprouts g p x s claimed g') : Frame base group added g' where
  site := h.site
  others {m} hm hne := (d.others m fun he => absurd ((he ▸ hm).symm.trans hx) nofun).trans (h.others hm hne)
  children {m} hm hne := by
    refine (d.children m (fun he => ?_) fun he => ?_).trans (h.children hm hne)
    · rcases hp with hp | hp
      · exact hne (he.trans hp)
      · exact absurd ((he ▸ hm).symm.trans hp) nofun
    · exact absurd ((he ▸ hm).symm.trans hx) nofun
  host := by
    rw [d.others group (h.ne_site hx)]
    exact h.host
  hosted := by
    obtain ⟨nodes, hnodes, heq⟩ := h.hosted
    rcases hp with rfl | hp
    · refine ⟨nodes ++ [x], fun m hm => ?_, ?_⟩
      · rcases List.mem_append.1 hm with hm | hm
        · exact hnodes m hm
        · rw [List.mem_singleton.1 hm]
          exact hx
      · rw [d.parent, heq, List.append_assoc]
    · refine ⟨nodes, hnodes, ?_⟩
      rw [d.children group (h.ne_site hp) (h.ne_site hx), heq]

end Frame
end Graph

/-! ## Traces -/

namespace Copying

open MessageGraph.Graph (Frame)

variable {linked base : Graph} {group n i x o : Id} {added added' : List Gate} {pending pending' : List Id}
  {nodes nodes' : List (Id × Id)} {c c' : Copying} {k k' : EntityKind} {g : Graph}

/-- The copies of each kind. Those of nodes are not recorded while copying, and routes have none yet. -/
def copies (c : Copying) (nodes : List (Id × Id)) : EntityKind → List (Id × Id)
  | .node => nodes
  | .pin => c.pins
  | .gate => c.gates
  | .bus => c.buses
  | .tack | .route => []

/-- What an entity has in common with the one it stands for. A gate that was there before keeps its own
direction. -/
def Resembles (linked base g : Graph) : EntityKind → Id → Id → Prop
  | .node, i, x => (g.source? x).isSome = (linked.source? i).isSome ∧
      (g.group? x).isSome = (linked.group? i).isSome
  | .pin, i, x => ∃ p q, linked.pin? i = some p ∧ g.pin? x = some q ∧
      q.name = p.name ∧ q.direction = p.direction ∧ q.channel = p.channel
  | .gate, i, x => ∃ p q, linked.gate? i = some p ∧ g.gate? x = some q ∧
      q.name = p.name ∧ (base.gates.contains x = false →
        q.direction = p.direction ∧ q.channel = p.channel)
  | .bus, i, x => ∃ b d, linked.bus? i = some b ∧ g.bus? x = some d ∧
      d.name = b.name ∧ d.filter = b.filter ∧ d.imported = true
  | .tack, _, _ | .route, _, _ => False

/-- The copy of one entity is recorded, and nothing else. -/
structure Records (nodes : List (Id × Id)) (c : Copying) (k : EntityKind) (i x : Id)
    (nodes' : List (Id × Id)) (c' : Copying) : Prop where
  entry : c'.copies nodes' k = (i, x) :: c.copies nodes k
  others : ∀ k', k' ≠ k → c'.copies nodes' k' = c.copies nodes k'

theorem Records.mem_iff (h : Records nodes c k i x nodes' c') {y : Id × Id} :
    y ∈ c'.copies nodes' k' ↔ y ∈ c.copies nodes k' ∨ (k' = k ∧ y = (i, x)) := by
  by_cases hk : k' = k
  · subst hk
    rw [h.entry, List.mem_cons, or_comm]
    simp only [true_and]
  · rw [h.others k' hk]
    simp only [hk, false_and, or_false]

/-- What holds of the copies so far and of the new one holds of all. -/
theorem Records.forall {P : EntityKind → Id → Id → Prop} (h : Records nodes c k i x nodes' c')
    (hold : ∀ {k j y}, (j, y) ∈ c.copies nodes k → P k j y) (hnew : P k i x) {j y : Id}
    (hj : (j, y) ∈ c'.copies nodes' k') : P k' j y := by
  rcases h.mem_iff.1 hj with hj | ⟨rfl, he⟩
  · exact hold hj
  · cases he
    exact hnew

/-- Copies stay one to one if neither the original nor the copy is recorded yet. -/
theorem Records.single (h : Records nodes c k i x nodes' c')
    (hold : ∀ {k i j x y}, (i, x) ∈ c.copies nodes k → (j, y) ∈ c.copies nodes k → (i = j ↔ x = y))
    (hnew : ∀ y, (i, y) ∉ c.copies nodes k) (hfree : ∀ j, (j, x) ∉ c.copies nodes k) {j j' y y' : Id}
    (hj : (j, y) ∈ c'.copies nodes' k') (hj' : (j', y') ∈ c'.copies nodes' k') : j = j' ↔ y = y' := by
  rcases h.mem_iff.1 hj with hj | ⟨rfl, he⟩ <;> rcases h.mem_iff.1 hj' with hj' | ⟨hk, he'⟩
  · exact hold hj hj'
  · cases he'
    subst hk
    exact ⟨fun h => absurd (h ▸ hj) (hnew y), fun h => absurd (h ▸ hj) (hfree j)⟩
  · cases he
    exact ⟨fun h => absurd (h ▸ hj') (hnew y'), fun h => absurd (h ▸ hj') (hfree j')⟩
  · cases he
    cases he'
    exact ⟨fun _ => rfl, fun _ => rfl⟩

/-- How far copying has come: nodes whose content is not copied to its end are `pending`. -/
structure Traced (linked base : Graph) (group : Id) (added : List Gate) (pending : List Id)
    (nodes : List (Id × Id)) (c : Copying) : Prop where
  wellFormed : c.graph.WellFormed
  ext : Graph.Extends base c.graph
  frame : Frame base group added c.graph
  host : (linked.root, group) ∈ nodes
  live : ∀ {k i x}, (i, x) ∈ c.copies nodes k → linked.has k i = true ∧ c.graph.has k x = true
  single : ∀ {k i j x y}, (i, x) ∈ c.copies nodes k → (j, y) ∈ c.copies nodes k → (i = j ↔ x = y)
  made : ∀ {k x}, c.graph.has k x = true → base.has k x = true ∨ ∃ i, (i, x) ∈ c.copies nodes k
  bound : ∀ {k i x}, (i, x) ∈ c.copies nodes k → base.has k x = true →
    (k = .node ∧ i = linked.root) ∨ (k = .gate ∧ linked.gateOwner? i = some linked.root)
  owner : ∀ {k i x o}, (i, x) ∈ c.copies nodes k → linked.ownerOf? k i = some o →
    ∃ o', c.graph.ownerOf? k x = some o' ∧ (o, o') ∈ nodes
  alike : ∀ {k i x}, (i, x) ∈ c.copies nodes k → Resembles linked base c.graph k i x
  imported : ∀ {x}, c.graph.nodes.contains x = true → base.nodes.contains x = true ∨ x ∈ pending ∨
    ∃ m, c.graph.node? x = some m ∧ m.imported = true

/-- What was there is there still. -/
theorem Traced.grows (t : Traced linked base group added pending nodes c) :
    Graph.Grows base c.graph := by
  intro k i hi
  cases k with
  | node =>
    have h := t.frame.sameNode hi
    exact (Graph.view_eq Option.isSome h fun _ => rfl : (c.graph.node? i).isSome = _).trans hi
  | pin => exact (congrArg Option.isSome (t.ext.pins hi)).trans hi
  | gate => exact (congrArg Option.isSome (t.ext.gates hi)).trans hi
  | bus => exact (congrArg Option.isSome (t.ext.buses hi)).trans hi
  | tack => exact (congrArg Option.isSome (t.ext.tacks i)).trans hi
  | route => exact (congrArg Option.isSome (t.ext.routes i)).trans hi

/-- The copy of what a node owns belongs to the copy of that node. -/
theorem Traced.ownerOf?_eq (t : Traced linked base group added pending nodes c)
    (hi : (i, x) ∈ c.copies nodes k) (ho : linked.ownerOf? k i = some n) (hn : (n, o) ∈ nodes) :
    c.graph.ownerOf? k x = some o := by
  obtain ⟨o', ho', hmem⟩ := t.owner hi ho
  rw [ho', (t.single (k := .node) hmem hn).1 rfl]

/-- What belongs to a node that was not there is a copy. -/
theorem Traced.original (t : Traced linked base group added pending nodes c) (wb : base.WellFormed)
    (ho : base.nodes.contains o = false) (hx : c.graph.ownerOf? k x = some o) :
    ∃ i, (i, x) ∈ c.copies nodes k := by
  rcases t.made (Graph.has_of_ownerOf? hx) with hbase | h
  · have hsame := t.ext.ownerOf?_eq (fun hk => t.frame.sameNode (by subst hk; exact hbase)) hbase
    rw [hx] at hsame
    exact absurd ((wb.contains_owner hsame.symm).symm.trans ho) nofun
  · exact h

/-- Nothing of a node is copied before the node is. -/
theorem Traced.notMem_of_owner (t : Traced linked base group added pending nodes c)
    (hn : ∀ y, (n, y) ∉ nodes) (hi : linked.ownerOf? k i = some n) (y : Id) :
    (i, y) ∉ c.copies nodes k := fun hy =>
  have ⟨o, _, ho⟩ := t.owner hy hi
  hn o ho

theorem Resembles.extends (h : Resembles linked base c.graph k i x) (he : Graph.Extends c.graph g)
    (hn : k = .node → Graph.SameNode c.graph g x) (hx : c.graph.has k x = true) :
    Resembles linked base g k i x := by
  cases k with
  | node => exact ⟨(hn rfl).isSome_source?.trans h.1, (hn rfl).isSome_group?.trans h.2⟩
  | pin =>
    obtain ⟨p, q, hp, hq, h⟩ := h
    exact ⟨p, q, hp, (he.pins hx).trans hq, h⟩
  | gate =>
    obtain ⟨p, q, hp, hq, h⟩ := h
    exact ⟨p, q, hp, (he.gates hx).trans hq, h⟩
  | bus =>
    obtain ⟨p, q, hp, hq, h⟩ := h
    exact ⟨p, q, hp, (he.buses hx).trans hq, h⟩
  | tack | route => exact h

/-- A copy that was not there is added and recorded. -/
theorem Traced.insert (t : Traced linked base group added pending nodes c)
    (hr : Records nodes c k i x nodes' c') (hins : Graph.Inserts c.graph k x o c'.graph)
    (hn : linked.ownerOf? k i = some n) (hno : (n, o) ∈ nodes)
    (hnew : ∀ y, (i, y) ∉ c.copies nodes k) (halike : Resembles linked base c'.graph k i x)
    (hframe : Frame base group added' c'.graph) (hsub : pending ⊆ pending')
    (hpending : k = .node → x ∈ pending') : Traced linked base group added' pending' nodes' c' := by
  have hx : ∀ k', c.graph.has k' x = false := hins.adds.absent
  have hfree : ∀ j, (j, x) ∉ c.copies nodes k := fun j hj =>
    absurd ((t.live hj).2.symm.trans (hx k)) Bool.false_ne_true.symm
  have hnodes : ∀ {y}, y ∈ nodes → y ∈ nodes' := fun {y} hy =>
    show y ∈ c'.copies nodes' .node from hr.mem_iff.2 (Or.inl hy)
  refine
    { wellFormed := hins.wellFormed
      ext := ⟨hins.ext.root.trans t.ext.root, fun h => (hins.ext.pins (t.grows .pin _ h)).trans (t.ext.pins h),
        fun h => (hins.ext.gates (t.grows .gate _ h)).trans (t.ext.gates h),
        fun h => (hins.ext.buses (t.grows .bus _ h)).trans (t.ext.buses h),
        fun i => (hins.ext.tacks i).trans (t.ext.tacks i),
        fun i => (hins.ext.routes i).trans (t.ext.routes i)⟩
      frame := hframe
      host := hnodes t.host
      live := hr.forall (P := fun k j y => linked.has k j = true ∧ c'.graph.has k y = true)
        (fun hj => ⟨(t.live hj).1, hins.adds.grows _ _ (t.live hj).2⟩)
        ⟨Graph.has_of_ownerOf? hn, (hins.adds.has_iff _ _).2 (Or.inr ⟨rfl, rfl⟩)⟩
      single := hr.single t.single hnew hfree
      made := fun {k' y} hy => ?_
      bound := hr.forall t.bound fun hb => absurd ((t.grows _ _ hb).symm.trans (hx _)) Bool.false_ne_true.symm
      owner := fun {k' j y m} hj => hr.forall (P := fun k j y => linked.ownerOf? k j = some m →
        ∃ q, c'.graph.ownerOf? k y = some q ∧ (m, q) ∈ nodes') (fun hj hm => ?_) (fun hm => ?_) hj
      alike := hr.forall (fun hj => (t.alike hj).extends hins.ext
        (fun hk => hins.nodes (by subst hk; exact (t.live hj).2)) (t.live hj).2) halike
      imported := fun {y} hy => ?_ }
  · rcases (hins.adds.has_iff k' y).1 hy with hy | ⟨rfl, rfl⟩
    · refine (t.made hy).imp id ?_
      rintro ⟨j, hj⟩
      exact ⟨j, hr.mem_iff.2 (Or.inl hj)⟩
    · exact Or.inr ⟨i, hr.mem_iff.2 (Or.inr ⟨rfl, rfl⟩)⟩
  · obtain ⟨q, hq, hmem⟩ := t.owner hj hm
    exact ⟨q, (hins.ownerOf?_eq (t.live hj).2).trans hq, hnodes hmem⟩
  · cases hn.symm.trans hm
    exact ⟨o, hins.owner, hnodes hno⟩
  · rcases (hins.adds.has_iff .node y).1 hy with hy | ⟨hk, rfl⟩
    · refine (t.imported hy).imp id fun h => h.imp (fun hp => hsub hp) ?_
      rintro ⟨m, hm, himp⟩
      obtain ⟨m', hm', heq⟩ := (hins.nodes hy).imported hm
      exact ⟨m', hm', heq.trans himp⟩
    · exact Or.inr (Or.inl (hpending hk.symm))

/-- A gate of the group that is there already is the copy of a top-level one. -/
theorem Traced.bind (t : Traced linked base group added pending nodes c) {p q : Gate}
    (hp : linked.gate? i = some p) (hroot : p.group = linked.root) (hq : c.graph.gate? x = some q)
    (hgroup : q.group = group) (hname : q.name = p.name)
    (hnew : ∀ y, (i, y) ∉ c.gates) (hfree : ∀ j, (j, x) ∉ c.gates)
    (hbase : base.gates.contains x = true) :
    Traced linked base group added pending nodes { c with gates := (i, x) :: c.gates } := by
  have hr : Records nodes c .gate i x nodes { c with gates := (i, x) :: c.gates } :=
    ⟨rfl, fun k' hk' => by cases k' <;> first | rfl | exact absurd rfl hk'⟩
  have howner : linked.gateOwner? i = some linked.root := by
    rw [Graph.gateOwner?, hp, Option.map_some, hroot]
  refine
    { t with
      live := hr.forall t.live ⟨IdMap.contains_of_get? hp, IdMap.contains_of_get? hq⟩
      single := hr.single t.single hnew hfree
      made := fun {k' y} hy => ?_
      bound := hr.forall t.bound fun _ => Or.inr ⟨rfl, howner⟩
      owner := hr.forall t.owner fun ho => ?_
      alike := hr.forall t.alike
        ⟨p, q, hp, hq, hname, fun h => absurd (h.symm.trans hbase) Bool.false_ne_true⟩ }
  · refine (t.made hy).imp id ?_
    rintro ⟨j, hj⟩
    exact ⟨j, hr.mem_iff.2 (Or.inl hj)⟩
  · cases howner.symm.trans ho
    exact ⟨group, Option.map_eq_some_iff.2 ⟨q, hq, hgroup⟩, t.host⟩

/-- A node that was not there gets other properties. -/
theorem Traced.modifyNode (t : Traced linked base group added pending nodes c) {f : Node → Node}
    (hbare : ∀ m, (f m).bare = m.bare) (hunlisted : ∀ m, (f m).unlisted = f m.unlisted)
    (himported : ∀ m, m.imported = true → (f m).imported = true)
    (hx : base.nodes.contains x = false)
    (hpending : ∀ y ∈ pending, y ∈ pending' ∨ (y = x ∧ ∀ m, (f m).imported = true)) :
    Traced linked base group added pending' nodes { c with graph := c.graph.modifyNode x f } := by
  have hal := Graph.modifyNode_alike c.graph x hbare
  have howner : ∀ k i, (c.graph.modifyNode x f).ownerOf? k i = c.graph.ownerOf? k i := fun k i => by
    cases k with
    | node => exact hal.parent?_eq i
    | _ => rfl
  refine
    { wellFormed := t.wellFormed.of_alike hal
      ext := ⟨t.ext.root, t.ext.pins, t.ext.gates, t.ext.buses, t.ext.tacks, t.ext.routes⟩
      frame := t.frame.draw hx (Graph.modifyNode_draws t.wellFormed x hbare hunlisted)
      host := t.host
      live := fun hj => ⟨(t.live hj).1, (hal.has_eq _ _).trans (t.live hj).2⟩
      single := t.single
      made := fun hy => t.made ((hal.has_eq _ _).symm.trans hy)
      bound := t.bound
      owner := fun hj ho' => by
        obtain ⟨q, hq, hmem⟩ := t.owner hj ho'
        exact ⟨q, (howner _ _).trans hq, hmem⟩
      alike := fun {k' j y} hj => ?_
      imported := fun {y} hy => ?_ }
  · have h := t.alike hj
    cases k' with
    | node =>
      refine ⟨?_, (Graph.view_eq Option.isSome (hal.group?_bare y) fun _ => rfl).trans h.2⟩
      exact (congrArg Option.isSome (hal.source?_eq y)).trans h.1
    | _ => exact h
  · have hnode : ∀ m, c.graph.node? y = some m →
        (c.graph.modifyNode x f).node? y = some (if y = x then f m else m) := fun m hm => by
      refine (IdMap.get?_modify c.graph.nodes x y f).trans ?_
      have hm : c.graph.nodes.get? y = some m := hm
      rw [hm]
      split <;> rfl
    have hy' := (hal.has_eq .node y).symm.trans hy
    refine (t.imported hy').imp id ?_
    rintro (hp | ⟨m, hm, himp⟩)
    · rcases hpending y hp with hp | ⟨rfl, hf⟩
      · exact Or.inl hp
      · obtain ⟨m, hm⟩ := IdMap.contains_iff.1 hy'
        exact Or.inr ⟨f m, (hnode m hm).trans (by rw [if_pos rfl]), hf m⟩
    · refine Or.inr ⟨_, hnode m hm, ?_⟩
      split
      · exact himported m himp
      · exact himp

end Copying
end MessageGraph
