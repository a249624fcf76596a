import MessageGraph.Blueprint.Text
import MessageGraph.Proofs.Blueprint.Codec
import MessageGraph.Proofs.Blueprint.SelfContained

/-!
# What a model is saved as can be read

Saving never fails, and what it writes is read back as the very documents that were written
(`saved_texts_read`), with one exception: the text of a reader is limited in how deep arrays and objects
nest, the writer is not. A node stands two levels deeper than its parent, so a model whose groups nest
too deep is saved as a text that nothing can be loaded from (`deep_text_unread`).
-/
namespace MessageGraph

/-! ## How deep a tree is written -/

namespace Tree

variable {α : Type}

mutual

/-- How many generations stand below the top of a tree. -/
def height : Tree α → Nat
  | node _ children => heightOf children

def heightOf : List (Tree α) → Nat
  | [] => 0
  | t :: ts => max (height t + 1) (heightOf ts)

end

end Tree

namespace NodeSpec

mutual

/-- A generation takes two levels, the list of the children and the object of each. -/
theorem height_lt_depth : (t : Tree NodeSpec) → 2 * t.height < (treeJson t).depth
  | .node n children => by
    have h := heightOf_le_depth children
    have hm : ("children", Json.Cells.ofList children treeJson) ∈ n.cells children := by simp [cells]
    have hc := Json.Cells.le_depth hm
    rw [treeJson, toJson_eq, Json.depth, Json.Cells.fieldsDepth_present, Tree.height]
    cases children with
    | nil => exact Nat.succ_pos _
    | cons t ts =>
      simp only [Json.Cells.ofList, List.isEmpty_cons, Bool.false_eq_true, if_false, Option.elim_some,
        Json.depth] at hc
      omega

theorem heightOf_le_depth :
    (ts : List (Tree NodeSpec)) → 2 * Tree.heightOf ts ≤ Json.itemsDepth (ts.map treeJson) + 1
  | [] => Nat.zero_le _
  | t :: ts => by
    have h := height_lt_depth t
    have ih := heightOf_le_depth ts
    simp only [Tree.heightOf, List.map_cons, Json.itemsDepth]
    omega

end

end NodeSpec

/-! ## The ids in a document -/

namespace Graph

variable {g : Graph} {n : Id}

theorem WellFormed.lt_of_node (w : g.WellFormed) (hn : g.nodes.contains n = true) : n < g.nextId :=
  w.ids.below (k := .node) hn

/-- An endpoint is written with the id of a live node or bus. -/
theorem WellFormed.ownerId_lt (w : g.WellFormed) {e : Endpoint} {c : EndpointSpec}
    (h : g.endpointSpec? e = some c) : c.ownerId < g.nextId := by
  cases e with
  | pin i =>
    obtain ⟨p, hp, rfl⟩ := Option.map_eq_some_iff.1 h
    obtain ⟨s, hs⟩ := Option.isSome_iff_exists.1
      (w.isSome_source?_of_owner (Option.map_eq_some_iff.2 ⟨p, hp, rfl⟩))
    obtain ⟨m, hm, -⟩ := source?_eq_some_iff.1 hs
    exact w.lt_of_node (IdMap.contains_of_get? hm)
  | proxy i | pad i =>
    obtain ⟨p, hp, rfl⟩ := Option.map_eq_some_iff.1 h
    obtain ⟨s, hs⟩ := Option.isSome_iff_exists.1
      (w.isSome_group?_of_owner (k := .gate) nofun (Option.map_eq_some_iff.2 ⟨p, hp, rfl⟩))
    obtain ⟨m, hm, -⟩ := group?_eq_some_iff.1 hs
    exact w.lt_of_node (IdMap.contains_of_get? hm)
  | tack i =>
    obtain ⟨k, hk, rfl⟩ := Option.map_eq_some_iff.1 h
    obtain ⟨x, hx⟩ := w.bus_of_tack hk
    exact w.ids.below (k := .bus) (IdMap.contains_of_get? hx)

end Graph

namespace Blueprint

variable {b : Blueprint}

/-- The ids in the behavioral document are ids of the model. -/
theorem split_idsBelow (w : b.graph.WellFormed) : b.split.1.IdsBelow b.graph.nextId where
  nodes spec hspec := by
    replace hspec : spec ∈ (b.graph.ownTree.map b.graph.nodeSpec).values := hspec
    rw [Tree.values_map, List.mem_map] at hspec
    obtain ⟨n, hn, rfl⟩ := hspec
    refine ⟨?_, fun x hx => ?_⟩
    · rw [id_nodeSpec]
      exact w.lt_of_node (w.mem_ownTree.1 hn).live
    · obtain ⟨y, -, hy, -⟩ := Graph.mem_buses_nodeSpec.1 hx
      exact w.ids.below (k := .bus) (IdMap.contains_of_get? hy)
  connections c hc := by
    obtain ⟨s, hs⟩ := mem_connections hc
    obtain ⟨x, y, -, -, -, -, -, hsender, hreceiver⟩ := Graph.connectionSpec?_eq_some_iff.1 hs
    exact ⟨w.ownerId_lt hsender, w.ownerId_lt hreceiver⟩

theorem tag_split_root (w : b.graph.WellFormed) : b.split.1.root.value.tag = .group := by
  obtain ⟨s, hs⟩ := w.tree.root_group
  have hv : b.split.1.root.value = b.graph.nodeSpec b.graph.ownTree.value := by
    show (b.graph.ownTree.map b.graph.nodeSpec).value = _
    rw [Tree.value_map]
  rw [hv, Graph.value_ownTree, Graph.tag_nodeSpec_group hs]

/-! ## Reading what was saved -/

/-- Whether each number in the settings and in the geometry that a model is saved with is finite and is
read back from its own text. -/
def Legible (b : Blueprint) : Prop := b.split.1.toJson.Legible ∧ b.split.2.toJson.Legible

instance (b : Blueprint) : Decidable b.Legible :=
  inferInstanceAs (Decidable (_ ∧ _))

theorem load_behavioral_text (w : b.graph.WellFormed) (hids : b.graph.nextId ≤ idLimit)
    (hl : b.Legible) (location : String) :
    BehavioralDocument.load location b.save.1 =
      if b.split.1.toJson.depth ≤ Json.levelLimit then .ok b.split.1
      else .error (.behavioral location .unreadable) := by
  have hread := BehavioralDocument.read?_text hl.1 ((split_idsBelow w).mono hids)
  have hsave : b.save.1 = b.split.1.text := rfl
  rw [hsave, BehavioralDocument.load, hread]
  by_cases hd : b.split.1.toJson.depth ≤ Json.levelLimit
  · simp only [if_pos hd, tag_split_root w, if_true]
  · simp only [if_neg hd]

theorem load_visual_text (hl : b.Legible) (location : String) :
    VisualDocument.load location b.save.2 =
      if b.split.2.toJson.depth ≤ Json.levelLimit then .ok b.split.2
      else .error (.visual location .unreadable) := by
  have hsave : b.save.2 = b.split.2.text := rfl
  rw [hsave, VisualDocument.load, VisualDocument.read?_text hl.2]
  by_cases hd : b.split.2.toJson.depth ≤ Json.levelLimit
  · simp only [if_pos hd]
  · simp only [if_neg hd]

/-- Both texts that a model is saved as are read back as the documents that were written, as long as these
nest no deeper than a text may. A text that nests deeper is refused. -/
theorem saved_texts_read (hb : b.Reachable) (hids : b.graph.nextId ≤ idLimit) (hl : b.Legible)
    (location : String) :
    (BehavioralDocument.load location b.save.1 =
      if b.split.1.toJson.depth ≤ Json.levelLimit then .ok b.split.1
      else .error (.behavioral location .unreadable)) ∧
    (VisualDocument.load location b.save.2 =
      if b.split.2.toJson.depth ≤ Json.levelLimit then .ok b.split.2
      else .error (.visual location .unreadable)) :=
  ⟨load_behavioral_text hb.wellFormed hids hl location, load_visual_text hl location⟩

/-- A model with settings and a drawn route. -/
def furnishedRoom : List Operation :=
  [.edit (.addSource none 1 "clock" { identifier := "clock" }),
    .edit (.addPin 2 "tick" .output false),
    .edit (.setSettings 2 (.ofFields [("zone", .string "UTC"), ("offset", .integer (-3)),
      ("drift", .real (1 / 8)), ("alarms", .array [.null, .bool true])])),
    .edit (.addGroup none 1 "room"),
    .edit (.addGate 4 "tick" .input false),
    .edit (.setNodeRect 4 (some ⟨40, -8, 160, 95 / 2⟩)),
    .edit (.setGroupView 4 (some ⟨⟨0, 12⟩, 3 / 4⟩)),
    .connect (.pin 3) (.pad 5),
    .edit (.setRouteWire 6 [⟨20, 1 / 2⟩])]

theorem saved_texts_read_furnished :
    ((new "app").run furnishedRoom).Reachable ∧
      ((new "app").run furnishedRoom).graph.nextId ≤ idLimit ∧
      ((new "app").run furnishedRoom).Legible ∧
      BehavioralDocument.load "app" ((new "app").run furnishedRoom).save.1 =
        .ok ((new "app").run furnishedRoom).split.1 ∧
      VisualDocument.load "app" ((new "app").run furnishedRoom).save.2 =
        .ok ((new "app").run furnishedRoom).split.2 := by
  have hb : ((new "app").run furnishedRoom).Reachable := .run_new "app" (by decide +kernel)
  have hids : ((new "app").run furnishedRoom).graph.nextId ≤ idLimit := by decide +kernel
  have hl : ((new "app").run furnishedRoom).Legible := by decide +kernel
  obtain ⟨hbehavioral, hvisual⟩ := saved_texts_read hb hids hl "app"
  rw [if_pos (by decide +kernel)] at hbehavioral hvisual
  exact ⟨hb, hids, hl, hbehavioral, hvisual⟩

/-- Where nodes of the model itself stand 63 generations below the top, what was saved cannot be loaded. -/
theorem deep_text_unread (w : b.graph.WellFormed) (hids : b.graph.nextId ≤ idLimit) (hl : b.Legible)
    (hdeep : 63 ≤ b.split.1.root.height) (location : String) :
    BehavioralDocument.load location b.save.1 = .error (.behavioral location .unreadable) := by
  have hroot := NodeSpec.height_lt_depth b.split.1.root
  have hd : (NodeSpec.treeJson b.split.1.root).depth < b.split.1.toJson.depth := by
    simp only [BehavioralDocument.toJson, Json.depth, Json.fieldsDepth]
    omega
  rw [load_behavioral_text w hids hl location, if_neg]
  have hlimit : Json.levelLimit = 127 := rfl
  omega

/-- Groups in one another, each the only thing in the one before it. -/
def nestedGroups (n : Nat) : List Operation :=
  (List.range n).map fun i => .edit (.addGroup none (i + 1) "room")

theorem saved_texts_read_fails :
    ((new "app").run (nestedGroups 63)).Reachable ∧
      ((new "app").run (nestedGroups 63)).graph.nextId ≤ idLimit ∧
      ((new "app").run (nestedGroups 63)).Legible ∧
      BehavioralDocument.load "app" ((new "app").run (nestedGroups 63)).save.1 =
        .error (.behavioral "app" .unreadable) := by
  have hb : ((new "app").run (nestedGroups 63)).Reachable :=
    .run_new "app" (by decide +kernel)
  have hids : ((new "app").run (nestedGroups 63)).graph.nextId ≤ idLimit := by decide +kernel
  have hl : ((new "app").run (nestedGroups 63)).Legible := by decide +kernel
  exact ⟨hb, hids, hl, deep_text_unread hb.wellFormed hids hl (by decide +kernel) "app"⟩

end Blueprint
end MessageGraph
