import MessageGraph.Blueprint.Text
import MessageGraph.Proofs.Blueprint.Join
import MessageGraph.Proofs.Program.Undrawn

/-!
# Presentation never influences meaning

A model is built twice from one behavioral document, with different visual documents, or none, and with
different layouts. Both loadings are followed side by side: after every step their graphs are the same
undrawn (`Agree`). Each step asks the graph the same, adds the same with the same ids and is refused for the
same reason; what it takes from the visual document it draws.

`join_agree` says this of whole documents: the graphs, the tables, the behavioral half of what is saved and
every compilation agree. `presentation_no_meaning` says the same of texts, readable or not.
-/
namespace MessageGraph

namespace Loading

variable {l l' : Loading} {options options' : LayoutOptions}

/-- Two loadings with the same graph without its drawing. -/
def Agree (l l' : Loading) : Prop := l.graph.undrawn = l'.graph.undrawn

/-- Drawing is not seen. -/
theorem undrawn_set {subject : Id} {what : String} {change : Graph → Except EditError Graph}
    (h : ∀ g', change l.graph = .ok g' → g'.undrawn = l.graph.undrawn) :
    (l.set subject what change).graph.undrawn = l.graph.undrawn := by
  cases hc : change l.graph with
  | ok g' => rw [set_of_ok hc]; exact h g' hc
  | error e => rw [graph_set_of_error hc]

namespace Agree

theorem set (h : Agree l l') {subject : Id} {what : String}
    {change : Graph → Except EditError Graph}
    (hchange : (change l.graph).map Graph.undrawn = (change l'.graph).map Graph.undrawn) :
    Agree (l.set subject what change) (l'.set subject what change) := by
  unfold Agree
  cases hc : change l.graph with
  | ok g =>
    cases hc' : change l'.graph with
    | ok g' =>
      rw [hc, hc'] at hchange
      rw [set_of_ok hc, set_of_ok hc']
      exact Except.ok.inj hchange
    | error e =>
      rw [hc, hc'] at hchange
      cases hchange
  | error e =>
    cases hc' : change l'.graph with
    | ok g' =>
      rw [hc, hc'] at hchange
      cases hchange
    | error e' =>
      rw [graph_set_of_error hc, graph_set_of_error hc']
      exact h

theorem draw (h : Agree l l') {subject subject' : Id} {what what' : String}
    {change change' : Graph → Except EditError Graph}
    (hchange : ∀ g', change l.graph = .ok g' → g'.undrawn = l.graph.undrawn)
    (hchange' : ∀ g', change' l'.graph = .ok g' → g'.undrawn = l'.graph.undrawn) :
    Agree (l.set subject what change) (l'.set subject' what' change') :=
  (undrawn_set hchange).trans (h.trans (undrawn_set hchange').symm)

end Agree

/-! ## Inside a group -/

/-- The graph after an attempt to add something: what it was if that was refused. -/
def attempt {α : Type} (g : Graph) (x : Except EditError (α × Graph)) : Graph :=
  match x with
  | .ok r => r.2
  | .error _ => g

/-- Attempts that are the same without drawing give graphs that are the same without drawing. -/
theorem attempt_congr {α : Type} {g g' : Graph} {x y : Except EditError (α × Graph)}
    (hg : g.undrawn = g'.undrawn) (h : Graph.dropDrawing x = Graph.dropDrawing y) :
    (attempt g x).undrawn = (attempt g' y).undrawn := by
  obtain ⟨e, rfl, rfl⟩ | ⟨a, h, h', rfl, rfl, hh⟩ := Graph.dropDrawing_cases h
  · exact hg
  · exact hh

theorem undrawn_addGate (group : Id) (visuals : List GateVisual) (spec : GateSpec) :
    (l.addGate group visuals spec).graph.undrawn =
      (attempt l.graph (l.graph.addGate group spec.name spec.direction spec.channel)).undrawn := by
  cases hx : l.graph.addGate group spec.name spec.direction spec.channel with
  | error e => simp only [addGate, hx]; rfl
  | ok r =>
    simp only [addGate, hx]
    split
    · exact undrawn_set fun _ => Graph.undrawn_setGateLabels
    · rfl

theorem undrawn_addPin (node : Id) (visuals : List PinVisual) (spec : PinSpec) :
    (l.addPin node visuals spec).graph.undrawn =
      (attempt l.graph (l.graph.addPin node spec.name spec.direction spec.channel)).undrawn := by
  cases hx : l.graph.addPin node spec.name spec.direction spec.channel with
  | error e => simp only [addPin, hx]; rfl
  | ok r =>
    simp only [addPin, hx]
    split
    · exact undrawn_set fun _ => Graph.undrawn_setPinLabel
    · rfl

theorem undrawn_drawGroup (id : Id) (visual : Option NodeVisual) :
    (match visual with
      | some v => (l.set id "rect" (·.setNodeRect id v.rect)).set id "view" (·.setGroupView id v.view)
      | none => l).graph.undrawn = l.graph.undrawn := by
  cases visual with
  | none => rfl
  | some v =>
    exact (undrawn_set fun _ => Graph.undrawn_setGroupView).trans
      (undrawn_set fun _ => Graph.undrawn_setNodeRect)

theorem undrawn_placeNode (id index : Nat) (visual : Option NodeVisual) :
    (l.placeNode options id index visual).graph.undrawn = l.graph.undrawn := by
  unfold placeNode
  split
  · exact undrawn_set fun _ => Graph.undrawn_setNodeRect
  · exact undrawn_set (l := { l with placed := l.placed + 1 }) fun _ => Graph.undrawn_setNodeRect

theorem undrawn_terminal? (g : Graph) (role : Direction) (e : EndpointSpec) :
    terminal? g.undrawn role e = terminal? g role e := by
  cases e with
  | bus i => simp [terminal?, Graph.undrawn]
  | _ => simp only [terminal?, Graph.undrawn_findPin?, Graph.undrawn_findGate?]

theorem undrawn_bend (root : Id) (what : String) (s : Id) (wire : Option (List Point)) :
    (match wire with
      | some points => l.set root what (·.setRouteWire s points)
      | none => l).graph.undrawn = l.graph.undrawn := by
  cases wire with
  | none => rfl
  | some points => exact undrawn_set fun _ => Graph.undrawn_setRouteWire

namespace Agree

theorem staleAll (h : Agree l l') {subject subject' : Id} {what what' : String}
    {names names' : List String} :
    Agree (l.staleAll subject what names) (l'.staleAll subject' what' names') := by
  rw [Agree, graph_staleAll, graph_staleAll]
  exact h

theorem addGate (h : Agree l l') (group : Id) (visuals visuals' : List GateVisual) (spec : GateSpec) :
    Agree (l.addGate group visuals spec) (l'.addGate group visuals' spec) := by
  rw [Agree, undrawn_addGate, undrawn_addGate]
  refine attempt_congr h ?_
  rw [Graph.map_addGate, Graph.map_addGate, h]

theorem addPin (h : Agree l l') (node : Id) (visuals visuals' : List PinVisual) (spec : PinSpec) :
    Agree (l.addPin node visuals spec) (l'.addPin node visuals' spec) := by
  rw [Agree, undrawn_addPin, undrawn_addPin]
  refine attempt_congr h ?_
  rw [Graph.map_addPin, Graph.map_addPin, h]

/-- Steps taken side by side for the same list. -/
theorem foldl {α : Type} {step step' : Loading → α → Loading} {as : List α}
    (hstep : ∀ {l l'} a, Agree l l' → Agree (step l a) (step' l' a)) (h : Agree l l') :
    Agree (as.foldl step l) (as.foldl step' l') := by
  induction as generalizing l l' with
  | nil => exact h
  | cons a as ih => exact ih (hstep a h)

theorem addBuses (h : Agree l l') (group children index : Nat) (specs : List BusSpec)
    (visuals visuals' : List BusVisual) :
    Agree (l.addBuses options group children index specs visuals)
      (l'.addBuses options' group children index specs visuals') := by
  induction specs generalizing l l' index visuals visuals' with
  | nil => exact h.staleAll
  | cons spec specs ih =>
    have hadd : Graph.dropDrawing (l.graph.addBus (some spec.id) group spec.name spec.filter) =
        Graph.dropDrawing (l'.graph.addBus (some spec.id) group spec.name spec.filter) := by
      rw [Graph.map_addBus, Graph.map_addBus, h]
    obtain ⟨e, hx, hy⟩ | ⟨id, g, g', hx, hy, hg⟩ := Graph.dropDrawing_cases hadd
    · simp only [Loading.addBuses, hx, hy]
      refine ih ?_ _ _ _
      exact h
    · simp only [Loading.addBuses, hx, hy]
      have placed : ∀ {m m' : Loading} {subject subject' : Id} {what what' : String} {rect rect' : Option Rect},
          Agree m m' → Agree (m.set subject what (·.setBusRect id rect))
            (m'.set subject' what' (·.setBusRect id rect')) := fun h =>
        draw h (fun _ => Graph.undrawn_setBusRect) fun _ => Graph.undrawn_setBusRect
      split <;> split <;> exact ih (placed (by exact hg)) _ _ _

theorem fillGroup (h : Agree l l') (spec : NodeSpec) (children : Nat) (id : Id)
    (visual visual' : Option NodeVisual) :
    Agree (l.fillGroup options spec children id visual)
      (l'.fillGroup options' spec children id visual') := by
  unfold Loading.fillGroup
  refine addBuses (staleAll (foldl (fun spec h => h.addGate _ _ _ spec) ?_)) _ _ _ _ _ _
  refine Eq.trans (undrawn_drawGroup id visual) (Eq.trans ?_ (undrawn_drawGroup id visual').symm)
  have hsettings : Agree (l.set id "settings" (·.setSettings id spec.settings))
      (l'.set id "settings" (·.setSettings id spec.settings)) :=
    h.set (by rw [Graph.map_setSettings, Graph.map_setSettings, h])
  have hlibrary : Agree
      ((l.set id "settings" (·.setSettings id spec.settings)).set id "library"
        (·.setLibrary id spec.library))
      ((l'.set id "settings" (·.setSettings id spec.settings)).set id "library"
        (·.setLibrary id spec.library)) :=
    hsettings.set (by rw [Graph.map_setLibrary, Graph.map_setLibrary, hsettings])
  split
  · exact hlibrary.set (by rw [Graph.map_setLink, Graph.map_setLink, hlibrary])
  · exact hlibrary

/-! ## Inside a source -/

theorem fillSource (h : Agree l l') (spec : NodeSpec) (id : Id) (visual visual' : Option NodeVisual) :
    Agree (l.fillSource spec id visual) (l'.fillSource spec id visual') := by
  unfold Loading.fillSource
  refine staleAll (foldl (fun spec h => h.addPin _ _ _ spec) ?_)
  exact h.set (by rw [Graph.map_setSettings, Graph.map_setSettings, h])

/-! ## The tree -/

theorem addNode (h : Agree l l') (parent : Id) (spec : NodeSpec) :
    (l.addNode parent spec).1 = (l'.addNode parent spec).1 ∧
      Agree (l.addNode parent spec).2 (l'.addNode parent spec).2 := by
  have added : ∀ kind : NodeKind, kind.undrawn = kind →
      Graph.dropDrawing (l.graph.addNode (some spec.id) parent spec.name kind) =
        Graph.dropDrawing (l'.graph.addNode (some spec.id) parent spec.name kind) := fun kind hkind => by
    rw [Graph.map_addNode _ _ _ _ _ hkind, Graph.map_addNode _ _ _ _ _ hkind, h]
  cases htag : spec.tag with
  | source =>
    cases hbehavior : spec.behavior with
    | none =>
      simp only [Loading.addNode, htag, hbehavior]
      exact ⟨trivial, h⟩
    | some behavior =>
      obtain ⟨e, hx, hy⟩ | ⟨id, g, g', hx, hy, hg⟩ :=
        Graph.dropDrawing_cases (added (.source { behavior := behavior, pins := [] }) rfl)
      · simp only [Loading.addNode, htag, hbehavior, Graph.addSource, hx, hy]
        exact ⟨trivial, h⟩
      · simp only [Loading.addNode, htag, hbehavior, Graph.addSource, hx, hy]
        exact ⟨trivial, hg⟩
  | group =>
    obtain ⟨e, hx, hy⟩ | ⟨id, g, g', hx, hy, hg⟩ := Graph.dropDrawing_cases (added (.group {}) rfl)
    · simp only [Loading.addNode, htag, Graph.addGroup, hx, hy]
      exact ⟨trivial, h⟩
    · simp only [Loading.addNode, htag, Graph.addGroup, hx, hy]
      exact ⟨trivial, hg⟩

theorem placeNode (h : Agree l l') (id index : Nat) (visual visual' : Option NodeVisual) :
    Agree (l.placeNode options id index visual) (l'.placeNode options' id index visual') := by
  rw [Agree, undrawn_placeNode, undrawn_placeNode]
  exact h

mutual

theorem addTree {l l' : Loading} (h : Agree l l') (parent : Id) (index : Nat)
    (visual visual' : Option (Tree NodeVisual)) : (t : Tree NodeSpec) →
      Agree (Loading.addTree options parent index visual t l)
        (Loading.addTree options' parent index visual' t l')
  | .node spec children => by
    unfold Loading.addTree
    obtain ⟨hid, hadded⟩ := h.addNode parent spec
    generalize l.addNode parent spec = added at hid hadded
    generalize l'.addNode parent spec = added' at hid hadded
    obtain ⟨id, m⟩ := added
    obtain ⟨id', m'⟩ := added'
    cases hid
    cases id with
    | none => exact hadded
    | some id =>
      have hplaced : Agree (m.placeNode options id index (visual.map Tree.value))
          (m'.placeNode options' id index (visual'.map Tree.value)) := placeNode hadded _ _ _ _
      cases spec.tag with
      | source => exact hplaced.fillSource spec id _ _
      | group => exact staleAll (addTrees (hplaced.fillGroup spec _ id _ _) id 0 _ _ children)

theorem addTrees {l l' : Loading} (h : Agree l l') (group index : Nat)
    (visuals visuals' : List (Tree NodeVisual)) : (ts : List (Tree NodeSpec)) →
      Agree (Loading.addTrees options group index visuals ts l)
        (Loading.addTrees options' group index visuals' ts l')
  | [] => by
    unfold Loading.addTrees
    exact h
  | t :: ts => by
    unfold Loading.addTrees
    have hmatched : Agree (l.matchChild group index t.value visuals.head?).2
        (l'.matchChild group index t.value visuals'.head?).2 := by
      rw [Agree, graph_matchChild, graph_matchChild]
      exact h
    exact addTrees (addTree hmatched group index _ _ t) group (index + 1) _ _ ts

end

theorem fillRoot (h : Agree l l') (root : Tree NodeSpec) (visual visual' : Option (Tree NodeVisual)) :
    Agree (l.fillRoot options root visual) (l'.fillRoot options' root visual') :=
  staleAll (addTrees (h.fillGroup _ _ _ _ _) _ _ _ _ _)

/-! ## Connections -/

theorem addConnection (h : Agree l l') (index : Nat) (wire wire' : Option (List Point))
    (spec : ConnectionSpec) :
    Agree (l.addConnection index wire spec) (l'.addConnection index wire' spec) := by
  have hterminal : ∀ role e, terminal? l'.graph role e = terminal? l.graph role e := fun role e => by
    rw [← undrawn_terminal? l'.graph, ← h, undrawn_terminal?]
  have hcheck : ∀ a b, l'.graph.check a b = l.graph.check a b := fun a b => by
    rw [← Graph.undrawn_check l'.graph, ← h, Graph.undrawn_check]
  have hexisting : ∀ a b, l'.graph.existingRoute? a b = l.graph.existingRoute? a b := fun a b => by
    rw [← Graph.undrawn_existingRoute? l'.graph, ← h, Graph.undrawn_existingRoute?]
  unfold Loading.addConnection
  simp only [hterminal, hcheck, hexisting]
  split
  · rename_i a b _ _
    cases l.graph.check a b with
    | error e => exact h
    | ok _ =>
      cases (l.graph.existingRoute? a b).isSome with
      | true => exact h
      | false =>
        have hattach : Graph.dropDrawing (l.graph.attach a b) = Graph.dropDrawing (l'.graph.attach a b) := by
          rw [Graph.map_attach, Graph.map_attach, h]
        obtain ⟨e, hx, hy⟩ | ⟨s, g, g', hx, hy, hg⟩ := Graph.dropDrawing_cases hattach
        · simp only [hx, hy, Bool.false_eq_true, ↓reduceIte]
          exact h
        · simp only [hx, hy, Bool.false_eq_true, ↓reduceIte]
          refine Eq.trans (undrawn_bend _ _ s wire) (Eq.trans ?_ (undrawn_bend _ _ s wire').symm)
          exact hg
  · exact h

theorem addConnections (h : Agree l l') (index : Nat) (wires wires' : List (List Point))
    (specs : List ConnectionSpec) :
    Agree (Loading.addConnections index wires specs l)
      (Loading.addConnections index wires' specs l') := by
  induction specs generalizing l l' index wires wires' with
  | nil => exact h
  | cons spec specs ih => exact ih (h.addConnection _ _ _ _) _ _ _

end Agree
end Loading

/-! ## Documents -/

/-- Two models that mean the same: they differ in how they are drawn, and in what was reported. -/
structure Blueprint.Agree (b b' : Blueprint) : Prop where
  graph : b.graph.undrawn = b'.graph.undrawn
  tables : b.tables = b'.tables
  saved : b.split.1 = b'.split.1
  compiled (options : Options) : b.compile options = b'.compile options

/-- Models with the same graph without drawing and the tables of their graphs mean the same. -/
theorem Blueprint.Agree.of_graph {b b' : Blueprint} (h : b.graph.undrawn = b'.graph.undrawn)
    (ht : b.tables = Tables.build b.graph) (ht' : b'.tables = Tables.build b'.graph) :
    b.Agree b' := by
  have htables : b.tables = b'.tables := by
    rw [ht, ht', ← Graph.build_undrawn, h, Graph.build_undrawn]
  refine ⟨h, htables, ?_, fun options => ?_⟩
  · have htree : b.graph.ownTree = b'.graph.ownTree := by
      rw [← Graph.undrawn_ownTree, h, Graph.undrawn_ownTree]
    have hspecs : b.graph.nodeSpec = b'.graph.nodeSpec := by
      rw [← funext b.graph.undrawn_nodeSpec, h, funext b'.graph.undrawn_nodeSpec]
    have hconnections : b.graph.ownConnections.map (·.1) = b'.graph.ownConnections.map (·.1) := by
      rw [← Graph.undrawn_ownConnections, h, Graph.undrawn_ownConnections]
    show BehavioralDocument.mk _ _ = BehavioralDocument.mk _ _
    rw [htree, hspecs, hconnections]
  · rw [Blueprint.compile, Blueprint.compile, ← Graph.undrawn_compileWith, h, htables,
      Graph.undrawn_compileWith]

/-- Results that mean the same: the same error, or models that mean the same. -/
def SameMeaning : Except LoadError Blueprint → Except LoadError Blueprint → Prop
  | .error e, .error e' => e = e'
  | .ok b, .ok b' => b.Agree b'
  | _, _ => False

namespace SameMeaning

variable {x y : Except LoadError Blueprint}

theorem rfl_error (e : LoadError) : SameMeaning (.error e) (.error e) := rfl

/-- What is reported has no part in it. -/
theorem report (h : SameMeaning x y) (early early' : Diagnostics) :
    SameMeaning (x >>= fun b => pure { b with diagnostics := early ++ b.diagnostics })
      (y >>= fun b => pure { b with diagnostics := early' ++ b.diagnostics }) := by
  cases x with
  | error e =>
    cases y with
    | error e' => exact h
    | ok b' => exact h.elim
  | ok b =>
    cases y with
    | error e' => exact h.elim
    | ok b' => exact ⟨h.graph, h.tables, h.saved, h.compiled⟩

end SameMeaning

section Join

variable (behavioral : BehavioralDocument) (visual visual' : Option VisualDocument)
  (options options' : LayoutOptions)

theorem loaded_agree :
    (loaded behavioral visual options).Agree (loaded behavioral visual' options') := by
  refine .addConnections (.fillRoot ?_ _ _ _) _ _ _ _
  rw [Loading.Agree, Loading.graph_matchRoot, Loading.graph_matchRoot]

/-- One behavioral document means the same with any visual documents and layouts. -/
theorem join_agree : SameMeaning (Blueprint.join behavioral visual options)
    (Blueprint.join behavioral visual' options') := by
  by_cases htag : behavioral.root.value.tag = .group
  · obtain ⟨_, _, hx, -⟩ := join_eq visual options htag
    obtain ⟨_, _, hy, -⟩ := join_eq visual' options' htag
    rw [hx, hy]
    exact Blueprint.Agree.of_graph (loaded_agree behavioral visual visual' options options') rfl rfl
  · have herror : ∀ v o, Blueprint.join behavioral v o =
        .error (.behavioral behavioral.root.value.name .rootIsNoGroup) := fun v o => if_pos htag
    rw [herror, herror]
    exact .rfl_error _

end Join

/-- Presentation never influences meaning. A behavioral document is refused with all visual documents and
layouts for the same reason, or gives models with the same graph but for its drawing, the same tables, the
same behavioral document when saved and the same program with all options. The same holds of a behavioral
text with all visual texts, readable or not. -/
theorem presentation_no_meaning (behavioral : BehavioralDocument) (visual visual' : Option VisualDocument)
    (location text : String) (picture picture' : Option String) (options options' : LayoutOptions) :
    SameMeaning (Blueprint.join behavioral visual options) (Blueprint.join behavioral visual' options') ∧
      SameMeaning (Blueprint.load location text picture options)
        (Blueprint.load location text picture' options') := by
  refine ⟨join_agree .., ?_⟩
  unfold Blueprint.load
  cases BehavioralDocument.load location text with
  | error e => exact .rfl_error e
  | ok d => exact (join_agree d _ _ options options').report _ _

end MessageGraph
