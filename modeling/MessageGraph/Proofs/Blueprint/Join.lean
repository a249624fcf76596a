import MessageGraph.Proofs.Graph.Attach
import MessageGraph.Proofs.Graph.Editing
import MessageGraph.Blueprint.Join

/-!
# What loading keeps

Whatever a document holds, loading changes the graph only by edits and checked connections, and what
fails is left out with a report. What each of these steps keeps (`NodesKept`, `Kept`), the model that comes
out has (`join_keeps`): its graph is well-formed (`join_wellFormed`).
-/
namespace MessageGraph

/-- A property of graphs that loading nodes and what they have keeps. What has a place is added together
with it. -/
structure NodesKept (P : Graph → Prop) : Prop where
  wellFormed : ∀ {g}, P g → g.WellFormed
  edit : ∀ {g g' e}, Edit.placeless e = true → P g → e.apply g = .ok g' → P g'
  group : ∀ {g g₁ g' id parent name n rect}, P g → g.addGroup id parent name = .ok (n, g₁) →
    g₁.setNodeRect n (some rect) = .ok g' → P g'
  source : ∀ {g g₁ g' id parent name behavior n rect}, P g →
    g.addSource id parent name behavior = .ok (n, g₁) →
    g₁.setNodeRect n (some rect) = .ok g' → P g'
  bus : ∀ {g g₁ g' id group name filter n rect}, P g →
    g.addBus id group name filter = .ok (n, g₁) → g₁.setBusRect n (some rect) = .ok g' → P g'
  regroup : ∀ {g g' n rect}, P g → (g.group? n).isSome = true → g.setNodeRect n rect = .ok g' → P g'

/-- A property that every step of loading keeps. -/
structure Kept (P : Graph → Prop) : Prop extends NodesKept P where
  attach : ∀ {g g' a b route}, P g → g.check a b = .ok () → g.existingRoute? a b = none →
    g.attach a b = .ok (route, g') → P g'

theorem NodesKept.of_edits {P : Graph → Prop} (hw : ∀ {g}, P g → g.WellFormed)
    (hedit : ∀ {g g' e}, P g → Edit.apply g e = .ok g' → P g') : NodesKept P where
  wellFormed := hw
  edit _ := hedit
  group {_ _ _ id parent name n rect} h ha hs :=
    hedit (e := .setNodeRect n (some rect)) (hedit (e := .addGroup id parent name) h
      (map_snd_eq_ok ha)) hs
  source {_ _ _ id parent name behavior n rect} h ha hs :=
    hedit (e := .setNodeRect n (some rect)) (hedit (e := .addSource id parent name behavior) h
      (map_snd_eq_ok ha)) hs
  bus {_ _ _ id group name filter n rect} h ha hs :=
    hedit (e := .setBusRect n (some rect)) (hedit (e := .addBus id group name filter) h
      (map_snd_eq_ok ha)) hs
  regroup {_ _ n rect} h _ hs := hedit (e := .setNodeRect n rect) h hs

/-- What every edit and every connection keeps, loading keeps. -/
theorem Kept.of_edits {P : Graph → Prop} (hw : ∀ {g}, P g → g.WellFormed)
    (hedit : ∀ {g g' e}, P g → Edit.apply g e = .ok g' → P g')
    (hattach : ∀ {g g' a b route}, P g → g.check a b = .ok () → g.existingRoute? a b = none →
      g.attach a b = .ok (route, g') → P g') : Kept P where
  toNodesKept := .of_edits hw hedit
  attach := hattach

namespace Loading

variable {l : Loading} {options : LayoutOptions}

/-! ## Reports -/

theorem graph_staleAll (subject : Id) (what : String) (names : List String) :
    (l.staleAll subject what names).graph = l.graph := by
  unfold staleAll
  induction names generalizing l with
  | nil => rfl
  | cons name names ih =>
    rw [List.foldl_cons, ih]
    rfl

theorem graph_matchChild (group index : Nat) (spec : NodeSpec) (visual : Option (Tree NodeVisual)) :
    (l.matchChild group index spec visual).2.graph = l.graph := by
  unfold matchChild
  split
  · rfl
  · simp only
    split <;> rfl

theorem graph_matchRoot (spec : NodeSpec) (visual : Option (Tree NodeVisual)) :
    (l.matchRoot spec visual).2.graph = l.graph := by
  unfold matchRoot
  split
  · rfl
  · simp only
    split <;> rfl

theorem set_of_ok {subject : Id} {what : String} {change : Graph → Except EditError Graph}
    {g' : Graph} (h : change l.graph = .ok g') :
    l.set subject what change = { l with graph := g' } := by
  simp only [set, h]

theorem graph_set_of_error {subject : Id} {what : String} {change : Graph → Except EditError Graph}
    {e : EditError} (h : change l.graph = .error e) :
    (l.set subject what change).graph = l.graph := by
  simp only [set, h]
  rfl

/-- Setting a property leaves the graph alike, whether it succeeds or not. -/
theorem alike_set {subject : Id} {what : String} {change : Graph → Except EditError Graph}
    (h : ∀ g', change l.graph = .ok g' → Graph.Alike l.graph g') :
    Graph.Alike l.graph (l.set subject what change).graph := by
  cases hc : change l.graph with
  | ok g' => rw [set_of_ok hc]; exact h g' hc
  | error e => rw [graph_set_of_error hc]; exact .refl _

/-! ## What adding a node gives -/

theorem addNode_eq_some {parent id : Id} {spec : NodeSpec} {l' : Loading}
    (h : l.addNode parent spec = (some id, l')) :
    ∃ g', l' = { l with graph := g' } ∧
      ((spec.tag = .group ∧ l.graph.addGroup (some spec.id) parent spec.name = .ok (id, g')) ∨
        (spec.tag = .source ∧ ∃ behavior,
          l.graph.addSource (some spec.id) parent spec.name behavior = .ok (id, g'))) := by
  simp only [addNode] at h
  cases htag : spec.tag with
  | group =>
    rw [htag] at h
    simp only at h
    split at h
    · cases h
    · cases h
    · rename_i ha
      cases h
      exact ⟨_, rfl, Or.inl ⟨rfl, Option.some.inj ha⟩⟩
  | source =>
    rw [htag] at h
    cases hb : spec.behavior with
    | none => rw [hb] at h; cases h
    | some behavior =>
      rw [hb] at h
      simp only at h
      split at h
      · cases h
      · cases h
      · rename_i ha
        cases h
        exact ⟨_, rfl, Or.inr ⟨rfl, behavior, Option.some.inj ha⟩⟩

theorem graph_addNode_none {parent : Id} {spec : NodeSpec} {l' : Loading}
    (h : l.addNode parent spec = (none, l')) : l'.graph = l.graph := by
  simp only [addNode] at h
  split at h
  · cases h; rfl
  · cases h; rfl
  · cases h

/-- A node gets a rectangle from its picture or from the grid. -/
theorem placeNode_eq (options : LayoutOptions) (id : Id) (index : Nat) (visual : Option NodeVisual)
    (l : Loading) : ∃ rect placed, l.placeNode options id index visual =
      { l with placed := placed }.set id "rect" (·.setNodeRect id (some rect)) := by
  unfold placeNode
  split
  · rename_i rect _
    exact ⟨rect, l.placed, rfl⟩
  · exact ⟨_, _, rfl⟩

section Kept

variable {P : Graph → Prop}

theorem keeps_set (k : NodesKept P) (h : P l.graph) {subject : Id} {what : String} {e : Edit}
    (he : e.placeless = true) : P (l.set subject what fun g => e.apply g).graph := by
  cases hc : e.apply l.graph with
  | ok g' => rw [set_of_ok hc]; exact k.edit he h hc
  | error e => rw [graph_set_of_error hc]; exact h

/-! ## What a node has -/

theorem keeps_addGate (k : NodesKept P) (h : P l.graph) (group : Id) (visuals : List GateVisual)
    (spec : GateSpec) :
    P (addGate group visuals l spec).graph := by
  simp only [addGate]
  split
  · exact h
  · rename_i id g' ha
    have hadd : P g' := k.edit (e := .addGate group spec.name spec.direction spec.channel) rfl h
      (map_snd_eq_ok ha)
    split
    · rename_i v _
      exact keeps_set k (l := { l with graph := g' }) (e := .setGateLabels id v.pad v.proxy) hadd rfl
    · exact hadd

theorem keeps_addPin (k : NodesKept P) (h : P l.graph) (node : Id) (visuals : List PinVisual)
    (spec : PinSpec) :
    P (addPin node visuals l spec).graph := by
  simp only [addPin]
  split
  · exact h
  · rename_i id g' ha
    have hadd : P g' := k.edit (e := .addPin node spec.name spec.direction spec.channel) rfl h
      (map_snd_eq_ok ha)
    split
    · rename_i v _
      exact keeps_set k (l := { l with graph := g' }) (e := .setPinLabel id (some v.label)) hadd rfl
    · exact hadd

/-- A bus that was added gets its place. -/
theorem keeps_placeBus (k : NodesKept P) (h : P l.graph) {group n : Id} {id : Option Id}
    {name what : String} {filter : Option BehaviorRef} {g' : Graph}
    (ha : l.graph.addBus id group name filter = .ok (n, g'))
    (l' : Loading) (hl : l'.graph = g') (rect : Rect) :
    P (l'.set group what (·.setBusRect n (some rect))).graph := by
  subst hl
  have hlive : l'.graph.buses.contains n = true :=
    ((Graph.addBus_adds (k.wellFormed h).ids ha).has_iff .bus n).2 (Or.inr ⟨rfl, rfl⟩)
  have hs := Graph.setBusRect_eq hlive (some rect)
  rw [set_of_ok hs]
  exact k.bus h ha hs

theorem keeps_addBuses (k : NodesKept P) (h : P l.graph) (group children index : Nat) (specs : List BusSpec)
    (visuals : List BusVisual) :
    P (addBuses options group children index specs visuals l).graph := by
  induction specs generalizing l index visuals with
  | nil =>
    unfold addBuses
    rw [graph_staleAll]
    exact h
  | cons spec specs ih =>
    simp only [addBuses]
    split
    · exact ih (l := l.skip group _) h _ _
    · rename_i id g' ha
      split
      · exact ih (keeps_placeBus k h ha { l with graph := g' } rfl _) _ _
      · exact ih (keeps_placeBus k h ha { l with graph := g', placed := l.placed + 1 } rfl _) _ _

theorem keeps_fillGroup (k : NodesKept P) {id : Id} (h : P l.graph) (hs : (l.graph.group? id).isSome = true)
    (spec : NodeSpec) (children : Nat) (visual : Option NodeVisual) :
    P (l.fillGroup options spec children id visual).graph := by
  simp only [fillGroup]
  refine keeps_addBuses k ?_ id children 0 _ _
  rw [graph_staleAll]
  refine foldl_keeps (fun l : Loading => P l.graph)
    (fun l spec _ h => keeps_addGate k h id _ spec) ?_
  have hlibrary : P ((l.set id "settings" (·.setSettings id spec.settings)).set id "library"
      (·.setLibrary id spec.library)).graph ∧
      (((l.set id "settings" (·.setSettings id spec.settings)).set id "library"
        (·.setLibrary id spec.library)).graph.group? id).isSome = true := by
    refine ⟨keeps_set k (e := .setLibrary id spec.library)
      (keeps_set k (e := .setSettings id spec.settings) h rfl) rfl, ?_⟩
    rw [(alike_set fun _ h => Graph.setLibrary_alike h).isSome_group?,
      (alike_set fun _ h => Graph.setSettings_alike h).isSome_group?]
    exact hs
  have hlink : ∀ {l : Loading} (location : String), P l.graph ∧ (l.graph.group? id).isSome = true →
      P (l.set id "link" (·.setLink id location)).graph ∧
        ((l.set id "link" (·.setLink id location)).graph.group? id).isSome = true := by
    rintro l location ⟨h, hs⟩
    refine ⟨keeps_set k (e := .setLink id location) h rfl, ?_⟩
    rw [(alike_set fun _ h => Graph.setLink_alike h).isSome_group?]
    exact hs
  have hview : ∀ {l : Loading} (v : NodeVisual), P l.graph ∧ (l.graph.group? id).isSome = true →
      P ((l.set id "rect" (·.setNodeRect id v.rect)).set id "view"
        (·.setGroupView id v.view)).graph := by
    rintro l v ⟨h, hs⟩
    refine keeps_set k (e := .setGroupView id v.view) ?_ rfl
    cases hc : l.graph.setNodeRect id v.rect with
    | ok g' => rw [set_of_ok hc]; exact k.regroup h hs hc
    | error e => rw [graph_set_of_error hc]; exact h
  cases spec.link with
  | none =>
    cases visual with
    | none => exact hlibrary.1
    | some v => exact hview v hlibrary
  | some location =>
    cases visual with
    | none => exact (hlink location hlibrary).1
    | some v => exact hview v (hlink location hlibrary)

theorem keeps_fillSource (k : NodesKept P) (h : P l.graph) (spec : NodeSpec) (id : Id)
    (visual : Option NodeVisual) : P (l.fillSource spec id visual).graph := by
  simp only [fillSource]
  rw [graph_staleAll]
  refine foldl_keeps (fun l : Loading => P l.graph)
    (fun l spec _ h => keeps_addPin k h id _ spec) ?_
  exact keeps_set k (e := .setSettings id spec.settings) h rfl

/-! ## The tree -/

/-- A node that was added gets its place; a group is one still. -/
theorem keeps_placeNode (k : NodesKept P) (h : P l.graph) {parent id : Id} {spec : NodeSpec} {l' : Loading}
    (ha : l.addNode parent spec = (some id, l')) (index : Nat) (visual : Option NodeVisual) :
    P (l'.placeNode options id index visual).graph ∧ (spec.tag = .group →
      ((l'.placeNode options id index visual).graph.group? id).isSome = true) := by
  obtain ⟨g', rfl, hadd⟩ := addNode_eq_some ha
  obtain ⟨rect, placed, hrect⟩ := placeNode_eq options id index visual { l with graph := g' }
  have hlive : g'.nodes.contains id = true := by
    rcases hadd with ⟨-, ha⟩ | ⟨-, behavior, ha⟩
    · exact ((Graph.addNode_adds (k.wellFormed h).ids ha).has_iff .node id).2 (Or.inr ⟨rfl, rfl⟩)
    · exact ((Graph.addNode_adds (k.wellFormed h).ids ha).has_iff .node id).2 (Or.inr ⟨rfl, rfl⟩)
  have hset := Graph.setNodeRect_eq hlive (some rect)
  rw [hrect, set_of_ok hset]
  rcases hadd with ⟨-, ha⟩ | ⟨htag, behavior, ha⟩
  · refine ⟨k.group h ha hset, fun _ => ?_⟩
    rw [(Graph.setNodeRect_alike hset).isSome_group?]
    exact Graph.isSome_group?_addGroup (k.wellFormed h).ids ha
  · exact ⟨k.source h ha hset, fun hgroup => by rw [htag] at hgroup; cases hgroup⟩

mutual

theorem keeps_addTree (k : NodesKept P) {parent : Id} {index : Nat} {visual : Option (Tree NodeVisual)} :
    (t : Tree NodeSpec) → {l : Loading} → P l.graph →
      P (addTree options parent index visual t l).graph
  | .node spec children, l, h => by
    unfold addTree
    split
    · rename_i l' heq
      rw [graph_addNode_none heq]
      exact h
    · rename_i id l' heq
      obtain ⟨hplace, hgroup⟩ := keeps_placeNode k h heq index (visual.map Tree.value)
      cases htag : spec.tag with
      | source => exact keeps_fillSource k hplace spec id _
      | group =>
        simp only
        rw [graph_staleAll]
        exact keeps_addTrees k children
          (keeps_fillGroup k hplace (hgroup htag) spec children.length _)

theorem keeps_addTrees (k : NodesKept P) {group : Id} {index : Nat} {visuals : List (Tree NodeVisual)} :
    (ts : List (Tree NodeSpec)) → {l : Loading} → P l.graph →
      P (addTrees options group index visuals ts l).graph
  | [], l, h => by
    unfold addTrees
    exact h
  | t :: ts, l, h => by
    unfold addTrees
    simp only
    refine keeps_addTrees k ts (keeps_addTree k t ?_)
    rw [graph_matchChild]
    exact h

end

theorem keeps_fillRoot (k : NodesKept P) (h : P l.graph) (root : Tree NodeSpec)
    (hs : (l.graph.group? root.value.id).isSome = true) (visual : Option (Tree NodeVisual)) :
    P (l.fillRoot options root visual).graph := by
  simp only [fillRoot]
  rw [graph_staleAll]
  exact keeps_addTrees k root.children (keeps_fillGroup k h hs root.value _ _)

/-! ## Connections -/

theorem keeps_addConnection (k : Kept P) (h : P l.graph) (index : Nat) (wire : Option (List Point))
    (spec : ConnectionSpec) : P (l.addConnection index wire spec).graph := by
  simp only [addConnection]
  split
  · split
    · exact h
    · rename_i a b _ _ hcheck
      split
      · exact h
      · rename_i hnew
        rw [Bool.not_eq_true, Option.isSome_eq_false_iff, Option.isNone_iff_eq_none] at hnew
        split
        · exact h
        · rename_i route g' ha
          have hadd : P g' := k.attach h hcheck hnew ha
          split
          · rename_i points
            exact keeps_set k.toNodesKept (l := { l with graph := g' })
              (e := .setRouteWire route points) hadd rfl
          · exact hadd
  · exact h

theorem keeps_addConnections (k : Kept P) (h : P l.graph) (index : Nat) (wires : List (List Point))
    (specs : List ConnectionSpec) : P (addConnections index wires specs l).graph := by
  induction specs generalizing l index wires with
  | nil => exact h
  | cons spec specs ih => exact ih (keeps_addConnection k h index _ spec) _ _

end Kept
end Loading

/-! ## The whole document -/

theorem initialGraph_alike (d : BehavioralDocument) :
    Graph.Alike (Graph.withRoot d.root.value.id d.root.value.name) d.initialGraph := by
  unfold BehavioralDocument.initialGraph
  refine foldl_keeps (Graph.Alike _) (fun g spec _ h => ?_) (.refl _)
  exact foldl_keeps (Graph.Alike _) (fun g id _ h => h.trans (Graph.reserveId_alike g id)) h

theorem NodesKept.initialGraph {P : Graph → Prop} (k : NodesKept P) (d : BehavioralDocument)
    (h : P (Graph.withRoot d.root.value.id d.root.value.name)) : P d.initialGraph := by
  unfold BehavioralDocument.initialGraph
  refine foldl_keeps P (fun g spec _ h => ?_) h
  exact foldl_keeps P (fun g id _ h => k.edit (e := .reserveId id) rfl h rfl) h

theorem isSome_group?_initialGraph (d : BehavioralDocument) :
    (d.initialGraph.group? d.root.value.id).isSome = true := by
  rw [(initialGraph_alike d).isSome_group?, Graph.group?, Graph.node?_withRoot, if_pos rfl]
  rfl

/-- The loading of the two documents, before it is said how much was placed. -/
def loaded (behavioral : BehavioralDocument) (visual : Option VisualDocument)
    (options : LayoutOptions) : Loading :=
  let matched := Loading.matchRoot behavioral.root.value (visual.bind (·.root))
    { graph := behavioral.initialGraph }
  (matched.2.fillRoot options behavioral.root matched.1).addConnections 0 (visual.elim [] (·.wires))
    behavioral.connections

section Join

variable {behavioral : BehavioralDocument} {visual : Option VisualDocument} {options : LayoutOptions}
  {b : Blueprint}

/-- A document of a top-level group is loaded in any case. What is reported at the end is at most how much
was placed. -/
theorem join_eq (visual : Option VisualDocument) (options : LayoutOptions)
    (htag : behavioral.root.value.tag = .group) :
    ∃ reports layout, Blueprint.join behavioral visual options = .ok
        { graph := (loaded behavioral visual options).graph
          tables := Tables.build (loaded behavioral visual options).graph
          diagnostics := (loaded behavioral visual options).diagnostics ++ reports
          layout := layout } ∧
      ∀ d ∈ reports, d.kind = .reducedLayoutFidelity := by
  simp only [Blueprint.join, htag, ne_eq, not_true_eq_false, ↓reduceIte]
  split
  · refine ⟨[_], .reduced, rfl, fun d hd => ?_⟩
    rw [List.mem_singleton.1 hd]
  · refine ⟨[], .full, ?_, nofun⟩
    rw [List.append_nil]
    rfl

/-- What every step of loading keeps the loaded model has. -/
theorem join_keeps {P : Graph → Prop} (k : Kept P)
    (h₀ : P (Graph.withRoot behavioral.root.value.id behavioral.root.value.name))
    (h : Blueprint.join behavioral visual options = .ok b) : P b.graph := by
  have htag : behavioral.root.value.tag = .group := by
    refine Decidable.by_contra fun hn => ?_
    simp only [Blueprint.join, ne_eq, hn, not_false_eq_true, ↓reduceIte] at h
    cases h
  obtain ⟨reports, layout, heq, -⟩ := join_eq visual options htag
  rw [h] at heq
  cases heq
  refine Loading.keeps_addConnections k (Loading.keeps_fillRoot k.toNodesKept ?_ _ ?_ _) _ _ _
  · rw [Loading.graph_matchRoot]
    exact k.toNodesKept.initialGraph behavioral h₀
  · rw [Loading.graph_matchRoot]
    exact isSome_group?_initialGraph behavioral

/-- The model built from any documents has a well-formed graph. -/
theorem join_wellFormed (h : Blueprint.join behavioral visual options = .ok b) :
    b.graph.WellFormed :=
  join_keeps (.of_edits id (fun w h => w.edited (Edit.edited h))
    fun w hc _ ha => w.attach ha (Graph.joinable_of_check hc)) (Graph.withRoot_wellFormed _ _) h

/-- What is loaded has its tables from scratch. -/
theorem join_tables (h : Blueprint.join behavioral visual options = .ok b) :
    b.tables = Tables.build b.graph := by
  simp only [Blueprint.join] at h
  split at h
  · cases h
  · cases h
    rfl

end Join

end MessageGraph
