import MessageGraph.Proofs.Blueprint.Fill
import MessageGraph.Proofs.Blueprint.Reconnection
import MessageGraph.Proofs.Blueprint.Regrowth
import MessageGraph.Proofs.Blueprint.Trace

/-!
# Where everything is placed

Visual entries are matched to the behavioral tree by position: the picture of a child is the entry at the same
index of the picture of its parent, if it is of the same kind and name (`Pictured`). Whatever the documents are,
each node that is loaded comes of an entry and its picture (`Planted`), and connections leave the nodes alone
(`Wires`).

So every source and every bus has a rectangle: that of its picture, or else its slot (`join_places`). Of a group
this holds too, but for one case: a picture of the group that has no rectangle. Placing the group gives it its
slot, and filling it in sets its rectangle once more, to what the picture has, which is none
(`join_place_lost`).
-/
namespace MessageGraph

/-! ## Pictures -/

namespace Loading

theorem matchRoot_fst (l : Loading) {spec : NodeSpec} (htag : spec.tag = .group)
    (visual : Option (Tree NodeVisual)) : (l.matchRoot spec visual).1 = fitting spec visual := by
  unfold matchRoot fitting
  cases visual with
  | none => rfl
  | some v =>
    simp only
    split <;> rename_i h <;> simp [Option.filter, h, htag]

theorem matchRoot_tells (l : Loading) (spec : NodeSpec) (visual : Option (Tree NodeVisual)) :
    l.diagnostics <+: (l.matchRoot spec visual).2.diagnostics := by
  unfold matchRoot
  split
  · exact List.prefix_rfl
  · simp only
    split
    · exact List.prefix_rfl
    · exact report_tells _ _ _

end Loading

section Pictured

variable (d : BehavioralDocument) (visual : Option VisualDocument)

/-- The entries of a document down to its sources, each with its picture. -/
inductive Pictured : Tree NodeSpec → Option (Tree NodeVisual) → Prop
  | root : Pictured d.root (fitting d.root.value (visual.bind (·.root)))
  | child {t v} {i : Nat} {c} (h : Pictured t v) (htag : t.value.tag = .group) (hc : t.children[i]? = some c) :
      Pictured c (fitting c.value (v.bind (·.children[i]?)))

/-- An entry is the `i`-th child of an entry of the group `p`, and has this picture. -/
def ChildOf (p i : Nat) (v : Option (Tree NodeVisual)) (c : Tree NodeSpec) : Prop :=
  ∃ t w, Pictured d visual t w ∧ t.value.tag = .group ∧ t.value.id = p ∧ t.children[i]? = some c ∧
    v = fitting c.value (w.bind (·.children[i]?))

theorem ChildOf.pictured {p i : Nat} {v : Option (Tree NodeVisual)} {c : Tree NodeSpec}
    (h : ChildOf d visual p i v c) : Pictured d visual c v := by
  obtain ⟨t, w, ht, htag, rfl, hc, rfl⟩ := h
  exact ht.child htag hc

/-- A node below the top with this sheet comes of an entry and its picture. -/
def ComesOf (options : LayoutOptions) (n : Id) (s : Sheet) : Prop :=
  ∃ p i v c, ChildOf d visual p i v c ∧ c.value.id = n ∧ Loading.Drawn options c (v.map Tree.value) (some p)
    (Loading.restingPlace options i c.value (v.map Tree.value)) s

theorem descends_pictured (options : LayoutOptions) :
    Loading.Descends options (ChildOf d visual) (ComesOf d visual options) where
  child {_ _ v t _ _} h htag hc := ⟨t, v, h.pictured, htag, rfl, hc, rfl⟩
  drawn h hs := ⟨_, _, _, _, h, rfl, hs⟩

end Pictured

namespace Loading

variable {l l' : Loading} {options : LayoutOptions}

/-! ## Connections -/

/-- A connection is dropped with a report, or is a new route between the terminals that it names. -/
theorem addConnection_cases (w : l.graph.WellFormed) (index : Nat) (wire : Option (List Point))
    (spec : ConnectionSpec) :
    (∃ kind message, l.addConnection index wire spec = l.report kind l.graph.root message) ∨
    ∃ a b s r g', terminal? l.graph .output spec.sender = some a ∧
      terminal? l.graph .input spec.receiver = some b ∧
      l.addConnection index wire spec = { l with graph := g' } ∧ g'.WellFormed ∧
      Graph.OneMore l.graph g' s r ∧ s = l.graph.fresh.1 ∧ g'.terminalOf r.a = a ∧ g'.terminalOf r.b = b := by
  simp only [addConnection]
  cases ha : terminal? l.graph .output spec.sender with
  | none => exact Or.inl ⟨_, _, rfl⟩
  | some a =>
    cases hb : terminal? l.graph .input spec.receiver with
    | none => exact Or.inl ⟨_, _, rfl⟩
    | some b =>
      simp only
      cases hc : l.graph.check a b with
      | error e => exact Or.inl ⟨_, _, rfl⟩
      | ok _ =>
        simp only
        split
        · exact Or.inl ⟨_, _, rfl⟩
        cases hg : l.graph.attach a b with
        | error e => exact Or.inl ⟨_, _, rfl⟩
        | ok attached =>
          obtain ⟨s, g₁⟩ := attached
          have w₁ := w.attach hg (Graph.joinable_of_check hc)
          obtain ⟨r, hone⟩ := Graph.attach_oneMore w.ids hg
          obtain ⟨r', hr', hra, hrb⟩ := Graph.attach_joins hg
          cases hone.present.symm.trans hr'
          have hfresh := (Graph.attach_eq hg).1
          right
          cases wire with
          | none => exact ⟨a, b, s, r, g₁, rfl, rfl, rfl, w₁, hone, hfresh, hra, hrb⟩
          | some wire =>
            have hset := Graph.setRouteWire_eq (IdMap.contains_of_get? hone.present) wire
            exact ⟨a, b, s, { r with wire }, _, rfl, rfl, set_of_ok (l := { l with graph := g₁ }) hset,
              w₁.of_alike (Graph.setRouteWire_alike hset), hone.bent wire, hfresh, hra, hrb⟩

/-- Loading has added routes and changed no node. -/
structure Wires (l l' : Loading) : Prop where
  wellFormed : l'.graph.WellFormed
  root : l'.graph.root = l.graph.root
  sheet : ∀ n, l'.graph.sheet n = l.graph.sheet n
  children : ∀ n, l'.graph.childIds n = l.graph.childIds n
  tells : l.diagnostics <+: l'.diagnostics

theorem Wires.of_oneMore {r : Route} {i : Id} (hone : Graph.OneMore l.graph l'.graph i r)
    (w : l'.graph.WellFormed) (ht : l.diagnostics <+: l'.diagnostics) : Wires l l' where
  wellFormed := w
  root := hone.rerouted.root
  sheet := Graph.sheet_rerouted hone.rerouted hone.buses
  children n := by
    unfold Graph.childIds Graph.group? Graph.node?
    rw [hone.rerouted.nodes]
  tells := ht

theorem addConnections_wires (w : l.graph.WellFormed) (index : Nat) (wires : List (List Point))
    (specs : List ConnectionSpec) : Wires l (addConnections index wires specs l) := by
  induction specs generalizing l index wires with
  | nil => exact ⟨w, rfl, fun _ => rfl, fun _ => rfl, List.prefix_rfl⟩
  | cons spec specs ih =>
    have h : Wires l (l.addConnection index wires.head? spec) := by
      rcases addConnection_cases w index wires.head? spec with
        ⟨kind, message, heq⟩ | ⟨a, b, s, r, g', -, -, heq, w', hone, -⟩
      · rw [heq]
        exact ⟨w, rfl, fun _ => rfl, fun _ => rfl, report_tells _ _ _⟩
      · rw [heq]
        exact .of_oneMore hone w' List.prefix_rfl
    have h' := ih h.wellFormed (index + 1) wires.tail
    exact ⟨h'.wellFormed, h'.root.trans h.root, fun n => (h'.sheet n).trans (h.sheet n),
      fun n => (h'.children n).trans (h.children n), h.tells.trans h'.tells⟩

end Loading

/-! ## The whole document -/

section Join

variable {d : BehavioralDocument} {visual : Option VisualDocument} {options : LayoutOptions}
  {b : Blueprint}

/-- The picture of the top-level group. -/
def topPicture (d : BehavioralDocument) (visual : Option VisualDocument) : Option (Tree NodeVisual) :=
  fitting d.root.value (visual.bind (·.root))

/-- Loading starts from the top-level group alone. -/
theorem initialGraph_alone (d : BehavioralDocument) :
    d.initialGraph.WellFormed ∧ d.initialGraph.root = d.root.value.id ∧
      (∀ n, d.initialGraph.childIds n = []) ∧ ∀ n, d.initialGraph.sheet n =
        { node := (if n = d.root.value.id then
            some { name := d.root.value.name, parent := none, kind := .group {} } else none) } := by
  refine ⟨(Graph.kept_unwired.initialGraph d (Graph.withRoot_unwired _ _)).1, ?_⟩
  obtain ⟨next, hinit, -⟩ := initialGraph_eq d
  rw [hinit]
  exact ⟨rfl, Graph.elim_group?_withRoot Group.children rfl, Graph.sheet_withRoot⟩

/-- Loading fills in the top-level group (`s` is its sheet in `l₁`), adds what is below it (`l₂`), reports what
is left of its picture (`l₃`), and connects. -/
structure Stages (d : BehavioralDocument) (visual : Option VisualDocument) (options : LayoutOptions)
    (s : Sheet) (l₁ l₂ l₃ : Loading) : Prop where
  filled : Loading.Redraws { graph := d.initialGraph } d.root.value.id s l₁
  drawn : Loading.Drawn options d.root ((topPicture d visual).map Tree.value) none
    ((topPicture d visual).bind (·.value.rect)) s
  kept : l₁.diagnostics = [] → s.spec d.root.value.id = d.root.value.carried
  grown : Loading.addTrees options d.root.value.id 0 ((topPicture d visual).elim [] Tree.children)
    d.root.children l₁ = l₂
  same : l₃.graph = l₂.graph
  tells : l₂.diagnostics <+: l₃.diagnostics
  unwired : l₃.graph.Unwired
  wired : Loading.addConnections 0 (visual.elim [] (·.wires)) d.connections l₃ = loaded d visual options

theorem exists_stages (htag : d.root.value.tag = .group) (visual : Option VisualDocument)
    (options : LayoutOptions) : ∃ s l₁ l₂ l₃, Stages d visual options s l₁ l₂ l₃ := by
  obtain ⟨w, -, -, hsheet⟩ := initialGraph_alone d
  generalize hl₀ : ({ graph := d.initialGraph } : Loading) = l₀
  have hg₀ : l₀.graph = d.initialGraph := by rw [← hl₀]
  have hmatched : Loading.matchRoot d.root.value (visual.bind (·.root)) l₀ =
      (topPicture d visual, (Loading.matchRoot d.root.value (visual.bind (·.root)) l₀).2) :=
    Prod.ext (Loading.matchRoot_fst l₀ htag _) rfl
  have h₀ : Loading.Redraws l₀ d.root.value.id
      { node := some { name := d.root.value.name, parent := none, kind := .group {} } }
      (Loading.matchRoot d.root.value (visual.bind (·.root)) l₀).2 :=
    (Loading.Redraws.refl (hg₀ ▸ w) (by rw [hg₀, hsheet, if_pos rfl])).told
      (Loading.graph_matchRoot _ _) (Loading.matchRoot_tells _ _ _)
  have hg₀' : (Loading.matchRoot d.root.value (visual.bind (·.root)) l₀).2.graph = d.initialGraph :=
    (Loading.graph_matchRoot _ _).trans hg₀
  generalize (Loading.matchRoot d.root.value (visual.bind (·.root)) l₀).2 = l₀' at h₀ hmatched hg₀'
  -- everything but the connections
  have hunwired : (l₀'.fillRoot options d.root (topPicture d visual)).graph.Unwired := by
    refine Loading.keeps_fillRoot Graph.kept_unwired ?_ d.root ?_ _ <;> rw [hg₀']
    · exact Graph.kept_unwired.initialGraph d (Graph.withRoot_unwired _ _)
    · exact isSome_group?_initialGraph d
  have hloaded : (l₀'.fillRoot options d.root (topPicture d visual)).addConnections 0
      (visual.elim [] (·.wires)) d.connections = loaded d visual options := by
    unfold loaded
    rw [hl₀, hmatched]
  simp only [Loading.fillRoot] at hunwired hloaded
  generalize hl₁ : Loading.fillGroup options d.root.value d.root.children.length d.root.value.id
    ((topPicture d visual).map Tree.value) l₀' = l₁ at hunwired hloaded
  obtain ⟨G, B, h₁, hlabel, hseated, hkept⟩ :=
    Loading.fillGroup_redraws h₀.wellFormed h₀.sheet rfl _ _ _ hl₁
  refine ⟨_, l₁, _, _, ⟨hl₀ ▸ h₀.trans h₁,
    ⟨⟨_, rfl, ?_⟩, fun _ _ => Loading.view_filledGroup, ?_, hlabel, hseated⟩, fun hq => ?_, rfl,
    Loading.graph_staleAll _ _ _, Loading.staleAll_tells _ _ _, hunwired, hloaded⟩⟩
  · refine ⟨htag.symm, rfl, rfl, ?_⟩
    cases topPicture d visual <;> rfl
  · exact List.forall_mem_nil _
  · have hq₀ : l₁.diagnostics = l₀.diagnostics := by rw [hq, ← hl₀]
    obtain ⟨hgates, hbuses⟩ := hkept (Loading.quiet_between h₀.tells h₁.tells hq₀).2
    exact Loading.spec_filledGroup htag rfl hgates hbuses hseated.own

namespace Stages

variable {s : Sheet} {l₁ l₂ l₃ : Loading}

/-- Once the top-level group is filled in it is the only node. -/
theorem alone (h : Stages d visual options s l₁ l₂ l₃) (n : Id) :
    l₁.graph.nodes.contains n = true ↔ n = d.root.value.id := by
  obtain ⟨-, -, -, hsheet⟩ := initialGraph_alone d
  obtain ⟨c, hd⟩ := h.filled.draws
  by_cases hn : n = d.root.value.id
  · obtain ⟨m, hm, -⟩ := h.drawn.node
    exact iff_of_true (hn ▸ Loading.contains_of_sheet hd.sheet hm) hn
  · rw [Graph.contains_eq_sheet, hd.others n hn, hsheet, if_neg hn]
    exact iff_of_false nofun hn

theorem planted (h : Stages d visual options s l₁ l₂ l₃) (htag : d.root.value.tag = .group) :
    Loading.Planted (ComesOf d visual options) l₁ d.root.value.id l₂ := by
  rw [← h.grown]
  refine Loading.addTrees_planted (descends_pictured d visual options) d.root.children (fun j c hc => ?_)
    h.filled.wellFormed
  rw [Nat.zero_add, ← getElem?_children]
  exact ⟨d.root, _, .root, htag, rfl, hc, rfl⟩

theorem wires (h : Stages d visual options s l₁ l₂ l₃) (htag : d.root.value.tag = .group) :
    Loading.Wires l₃ (loaded d visual options) := by
  rw [← h.wired]
  exact Loading.addConnections_wires (h.same ▸ (h.planted htag).wellFormed) _ _ _

end Stages

/-- A graph in which the top-level group is the one of a document and every other node comes of an entry and its
picture. -/
structure OfEntries (d : BehavioralDocument) (visual : Option VisualDocument) (options : LayoutOptions)
    (g : Graph) : Prop where
  wellFormed : g.WellFormed
  root : g.root = d.root.value.id
  top : Loading.Drawn options d.root ((topPicture d visual).map Tree.value) none
    ((topPicture d visual).bind (·.value.rect)) (g.sheet g.root)
  below : ∀ n, n ≠ g.root → g.nodes.contains n = true → ComesOf d visual options n (g.sheet n)

theorem loaded_ofEntries (htag : d.root.value.tag = .group) (visual : Option VisualDocument)
    (options : LayoutOptions) : OfEntries d visual options (loaded d visual options).graph := by
  obtain ⟨-, hroot, -, -⟩ := initialGraph_alone d
  obtain ⟨s, l₁, l₂, l₃, h⟩ := exists_stages htag visual options
  obtain ⟨c, hd⟩ := h.filled.draws
  have hp := h.planted htag
  have hw := h.wires htag
  have hsheet : ∀ n, (loaded d visual options).graph.sheet n = l₂.graph.sheet n := fun n => by
    rw [hw.sheet, h.same]
  have htop : (loaded d visual options).graph.root = d.root.value.id := by
    rw [hw.root, h.same, hp.root, hd.root, hroot]
  refine ⟨hw.wellFormed, htop, ?_, fun n hn hlive => ?_⟩
  · rw [htop, hsheet, hp.kept _ ((h.alone _).2 rfl), hd.sheet]
    exact h.drawn
  · rw [htop] at hn
    rw [Graph.contains_of_sheet_eq (hsheet n)] at hlive
    rw [hsheet]
    exact hp.made n (Bool.eq_false_iff.2 fun h₁ => hn ((h.alone n).1 h₁)) hlive

end Join

/-! ## Buses in their group -/

namespace Graph

variable {g : Graph} {i : Id} {x : Bus}

/-- How many buses of its name come before a bus in its group. -/
def rank (g : Graph) (i : Id) (x : Bus) : Nat :=
  ((g.busIds x.group).takeWhile (· ≠ i)).countP fun j => (g.bus? j).any (·.name = x.name)

theorem WellFormed.sheet_buses (w : g.WellFormed) (hx : g.bus? i = some x) :
    ∃ pre post, (g.sheet x.group).buses = pre ++ (i, x.untacked) :: post ∧
      pre.countP (·.2.name = x.name) = g.rank i x ∧
      ∀ y ∈ pre, ∃ j ∈ (g.busIds x.group).takeWhile (· ≠ i), ∃ b, g.bus? j = some b ∧
        y = (j, b.untacked) := by
  have hmem : i ∈ g.busIds x.group := w.buses.mem_iff.2 (by rw [busOwner?, hx]; rfl)
  have hnodup := w.buses.nodup x.group
  unfold rank sheet
  obtain ⟨before, after, hsplit⟩ := List.append_of_mem hmem
  rw [hsplit] at hnodup ⊢
  have hnot : ∀ j ∈ before, j ≠ i := fun j hj he =>
    (List.nodup_append.1 hnodup).2.2 j hj i List.mem_cons_self he
  have htake : (before ++ i :: after).takeWhile (· ≠ i) = before := by
    rw [List.takeWhile_append_of_pos fun j hj => decide_eq_true (hnot j hj),
      List.takeWhile_cons_of_neg (by simp), List.append_nil]
  refine ⟨_, _, by rw [List.filterMap_append, List.filterMap_cons, hx]; rfl, ?_, fun y hy => ?_⟩
  · rw [htake, List.countP_filterMap]
    refine List.countP_congr fun j _ => ?_
    cases g.bus? j <;> rfl
  · obtain ⟨j, hj, hy⟩ := List.mem_filterMap.1 hy
    obtain ⟨b, hb, rfl⟩ := Option.map_eq_some_iff.1 hy
    exact ⟨j, htake.symm ▸ hj, b, hb, rfl⟩

end Graph

/-! ## Everything has its place -/

section Arranged

variable {d : BehavioralDocument} {visual : Option VisualDocument} {options : LayoutOptions}

/-- Every node below the top and every bus comes of an entry of the document, and stands where the picture of
that entry says: a bus by its rank among those of its name. What has no picture stands in the slot of its index,
and so does a source whose picture has no rectangle; a group whose picture has none stands nowhere. -/
structure Arranged (d : BehavioralDocument) (visual : Option VisualDocument) (options : LayoutOptions)
    (g : Graph) : Prop where
  nodes : ∀ n m, g.node? n = some m → n ≠ g.root → ∃ p i v c, ChildOf d visual p i v c ∧
    c.value.id = n ∧ m.tag = c.value.tag ∧ m.name = c.value.name ∧ m.parent = some p ∧
      m.rect = Loading.restingPlace options i c.value (v.map Tree.value)
  buses : ∀ i x, g.bus? i = some x →
    ∃ t v, ∃ j : Nat, ∃ spec : BusSpec, Pictured d visual t v ∧ t.value.id = x.group ∧
      t.value.buses[j]? = some spec ∧ spec.id = i ∧ x.name = spec.name ∧ x.filter = spec.filter ∧
      x.rect = some (Loading.busSeat options t.children.length j
        (((v.elim [] (·.value.buses)).filter (·.name = spec.name))[g.rank i x]?))

theorem tag_unlisted (m : Node) : m.unlisted.tag = m.tag := by
  unfold Node.unlisted Node.tag
  cases m.kind <;> rfl

/-- A bus that is loaded stands on the sheet of its group, which has the buses of an entry, each in its seat. -/
theorem OfEntries.seated {g : Graph} (h : OfEntries d visual options g) {i : Id} {x : Bus}
    (hx : g.bus? i = some x) :
    ∃ t v, Pictured d visual t v ∧ t.value.id = x.group ∧ Loading.Seated options x.group t.children.length 0
      t.value.buses (v.elim [] (·.value.buses)) (g.sheet x.group).buses := by
  have helim : ∀ v : Option (Tree NodeVisual),
      (v.map Tree.value).elim [] (·.buses) = v.elim [] (·.value.buses) := fun v => by cases v <;> rfl
  have howner : g.ownerOf? .bus i = some x.group := Option.map_eq_some_iff.2 ⟨x, hx, rfl⟩
  by_cases hn : x.group = g.root
  · have hseated := h.top.buses
    rw [helim, ← h.root, ← hn] at hseated
    exact ⟨d.root, _, .root, h.root.symm.trans hn.symm, hseated⟩
  · obtain ⟨p, i, v, c, hc, hid, hdrawn⟩ := h.below x.group hn (h.wellFormed.contains_owner howner)
    have hseated := hdrawn.buses
    rw [helim, hid] at hseated
    exact ⟨c, v, hc.pictured, hid, hseated⟩

/-- Any document of a top-level group is loaded, with any visual document or none, and everything in the model
has the place that the two give it. -/
theorem join_places (htag : d.root.value.tag = .group) (visual : Option VisualDocument)
    (options : LayoutOptions) :
    ∃ b, Blueprint.join d visual options = .ok b ∧ Arranged d visual options b.graph := by
  obtain ⟨reports, layout, hjoin, -⟩ := join_eq visual options htag
  refine ⟨_, hjoin, ?_⟩
  have h := loaded_ofEntries htag visual options
  generalize (loaded d visual options).graph = g at h ⊢
  refine ⟨fun n m hm hn => ?_, fun i x hx => ?_⟩
  · obtain ⟨p, i, v, c, hc, hid, hdrawn⟩ := h.below n hn (IdMap.contains_of_get? hm)
    obtain ⟨m', hm', htag', hname, hparent, hrect⟩ := hdrawn.node
    have he : m' = m.unlisted := by
      have : (g.sheet n).node = some m.unlisted := by
        unfold Graph.sheet
        rw [hm]
        rfl
      exact Option.some.inj (hm'.symm.trans this)
    subst he
    exact ⟨p, i, v, c, hc, hid, (tag_unlisted m).symm.trans htag', hname, hparent, hrect⟩
  · obtain ⟨pre, post, hsplit, hrank, -⟩ := h.wellFormed.sheet_buses hx
    obtain ⟨t, v, ht, hid, hseated⟩ := h.seated hx
    obtain ⟨j, spec, hj, he⟩ := hseated.rect hsplit
    obtain ⟨hi, hbus⟩ := Prod.mk.inj he
    have hname : x.name = spec.name := congrArg Bus.name hbus
    refine ⟨t, v, j, spec, ht, hid, hj, hi.symm, hname, congrArg Bus.filter hbus, ?_⟩
    rw [Nat.zero_add, ← hname, hrank, hname] at hbus
    exact congrArg Bus.rect hbus

/-- A group and a source in the top-level group, which has a bus too. -/
def hall : BehavioralDocument where
  root := .node { tag := .group, id := 1, name := "main", buses := [⟨4, "log", none⟩] }
    [.node { tag := .group, id := 2, name := "shelf" } [],
     .node { tag := .source, id := 3, name := "lamp", behavior := some ⟨"lamp", none⟩ } []]
  connections := []

/-- A picture of each of these nodes, but no rectangle. -/
def sketch : VisualDocument where
  root := some (.node { tag := .group, name := "main" }
    [.node { tag := .group, name := "shelf" } [], .node { tag := .source, name := "lamp" } []])
  wires := []

theorem join_places_hall : hall.root.value.tag = .group ∧
    ∃ b, Blueprint.join hall (some sketch) {} = .ok b ∧ Arranged hall (some sketch) {} b.graph :=
  ⟨rfl, join_places rfl (some sketch) {}⟩

/-- Without a picture the group of `hall` has a rectangle, with one that does not say where it stands it has
none. The source beside it has one although its picture does not say either. -/
theorem join_place_lost :
    ((Blueprint.join hall none {}).toOption.bind (·.graph.node? 2)).map (·.rect.isSome) = some true ∧
    ((Blueprint.join hall (some sketch) {}).toOption.bind (·.graph.node? 2)).map (·.rect.isSome) =
      some false ∧
    ((Blueprint.join hall (some sketch) {}).toOption.bind (·.graph.node? 3)).map (·.rect.isSome) =
      some true := by
  decide +kernel

end Arranged

end MessageGraph
