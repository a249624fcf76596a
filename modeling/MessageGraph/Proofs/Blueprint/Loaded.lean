import MessageGraph.Proofs.Blueprint.Join
import MessageGraph.Proofs.Graph.Own
import MessageGraph.Proofs.Graph.Wiring

/-!
# What a loaded model has

Whatever the documents are, the graph that is loaded from them is wired by legal connections (`join_wired`),
is all its own (`join_own`), and has a place for every source and every bus (`join_placed`).
-/
namespace MessageGraph

namespace Graph

variable {g g' : Graph}

/-- Every source and every bus has a rectangle. -/
structure Placed (g : Graph) : Prop where
  nodes : ∀ n m, g.node? n = some m → m.source?.isSome = true → m.rect.isSome = true
  buses : ∀ i b, g.bus? i = some b → b.rect.isSome = true

theorem source?_mapSource (m : Node) (f : Source → Source) :
    (m.mapSource f).source?.isSome = m.source?.isSome := by
  cases hk : m.kind <;> simp only [Node.mapSource, Node.source?, hk, Option.isSome_some]

theorem source?_mapGroup (m : Node) (f : Group → Group) : (m.mapGroup f).source? = m.source? := by
  cases hk : m.kind <;> simp only [Node.mapGroup, Node.source?, hk]

theorem rect_mapSource (m : Node) (f : Source → Source) : (m.mapSource f).rect = m.rect := by
  unfold Node.mapSource
  split <;> rfl

theorem rect_mapGroup (m : Node) (f : Group → Group) : (m.mapGroup f).rect = m.rect := by
  unfold Node.mapGroup
  split <;> rfl

/-- That a source has a rectangle does not depend on lists or settings. -/
theorem stable_placed :
    Node.Stable fun m => m.source?.isSome = true → m.rect.isSome = true where
  settings _ hm := hm
  mapSource {m} f hm := by
    rw [source?_mapSource, rect_mapSource]
    exact hm
  mapGroup {m} f _ hm := by
    rw [source?_mapGroup, rect_mapGroup]
    exact hm

/-- Setting the rectangle of one node places it, and leaves the others where they are. -/
theorem forall_setNodeRect {n : Id} {rect : Option Rect} (h : g.setNodeRect n rect = .ok g')
    (hothers : ∀ i m, i ≠ n → g.node? i = some m → m.source?.isSome = true → m.rect.isSome = true)
    (hself : ∀ m, g.node? n = some m → m.source?.isSome = true → rect.isSome = true) :
    ∀ i m, g'.node? i = some m → m.source?.isSome = true → m.rect.isSome = true := by
  rw [← eq_of_checked h]
  intro i m hm hs
  have hm : (g.nodes.modify n _).get? i = some m := hm
  rw [IdMap.get?_modify] at hm
  split at hm
  · rename_i hi
    obtain ⟨m', hm', rfl⟩ := Option.map_eq_some_iff.1 hm
    exact hself m' (hi ▸ hm') hs
  · rename_i hi
    exact hothers i m hi hm hs

theorem buses_setNodeRect {n : Id} {rect : Option Rect} (h : g.setNodeRect n rect = .ok g') :
    g'.buses = g.buses := by
  rw [← eq_of_checked h]
  rfl

namespace Placed

/-- A node that is added together with its rectangle is placed. -/
theorem addNode (hp : g.Placed) (w : g.IdsApart) {g₁ : Graph} {id : Option Id} {parent n : Id}
    {name : String} {kind : NodeKind} {rect : Rect} (ha : g.addNode id parent name kind = .ok (n, g₁))
    (hs : g₁.setNodeRect n (some rect) = .ok g') : g'.Placed where
  nodes := by
    obtain ⟨s, next, -, -, rfl⟩ := addNode_eq w ha
    refine forall_setNodeRect hs (fun i m hi hm => ?_) fun _ _ _ => rfl
    have hm : (((g.nodes.insert n _).modify parent _).get? i) = some m := hm
    rw [IdMap.get?_modify, IdMap.get?_insert, if_neg hi] at hm
    split at hm
    · obtain ⟨m', hm', rfl⟩ := Option.map_eq_some_iff.1 hm
      exact stable_placed.mapGroup _ (fun _ => rfl) (hp.nodes i m' hm')
    · exact hp.nodes i m hm
  buses := by
    obtain ⟨s, next, -, -, rfl⟩ := addNode_eq w ha
    unfold bus?
    rw [buses_setNodeRect hs]
    exact hp.buses

theorem addBus (hp : g.Placed) (w : g.IdsApart) {g₁ : Graph} {id : Option Id} {group n : Id}
    {name : String} {filter : Option BehaviorRef} {rect : Rect}
    (ha : g.addBus id group name filter = .ok (n, g₁))
    (hs : g₁.setBusRect n (some rect) = .ok g') : g'.Placed := by
  obtain ⟨s, next, -, -, rfl⟩ := addBus_eq w ha
  rw [← eq_of_guarded hs]
  refine ⟨?_, fun i b hb => ?_⟩
  · exact forall_modifyNode hp.nodes fun m hm => stable_placed.mapGroup _ (fun _ => rfl) hm
  · have hb : (((g.buses.insert n _).modify n _).get? i) = some b := hb
    rw [IdMap.get?_modify] at hb
    split at hb
    · obtain ⟨b', -, rfl⟩ := Option.map_eq_some_iff.1 hb
      rfl
    · rename_i hi
      rw [IdMap.get?_insert, if_neg hi] at hb
      exact hp.buses i b hb

theorem edited (hp : g.Placed) (w : g.IdsApart) {e : Edit} (he : e.placeless = true)
    (h : e.apply g = .ok g') : g'.Placed where
  nodes := Edit.forall_nodes stable_placed w (fun hn => by rw [he] at hn; cases hn)
    (fun _ m f hm => by rw [source?_mapGroup, rect_mapGroup]; exact hm) hp.nodes h
  buses := Edit.forall_buses (Q := fun b => b.rect.isSome = true) w
    (fun hn => by rw [he] at hn; cases hn) (fun hn => by rw [he] at hn; cases hn) hp.buses h

theorem rerouted (hp : g.Placed) (h : Rerouted g g')
    (hb : ∀ i, (g'.bus? i).map Bus.untacked = (g.bus? i).map Bus.untacked) : g'.Placed where
  nodes n m hm := by
    unfold node? at hm
    rw [h.nodes] at hm
    exact hp.nodes n m hm
  buses i b hb' := by
    obtain ⟨x, hx, he⟩ := Alike.some_of_map_eq (hb i) hb'
    have hr : b.rect = x.rect := show b.untacked.rect = x.untacked.rect by rw [he]
    rw [hr]
    exact hp.buses i x hx

end Placed

end Graph

/-! ## What every step of loading keeps -/

open MessageGraph.Graph (check_eq_ok_iff)

theorem kept_wired : Kept fun g => g.WellFormed ∧ g.Wired :=
  .of_edits (·.1) (fun h he => ⟨h.1.edited (Edit.edited he), h.2.edited h.1 (Edit.edited he)⟩)
    fun h hc hn ha => ⟨h.1.attach ha (Graph.joinable_of_check hc),
      h.2.attach h.1 (check_eq_ok_iff.1 hc) hn ha⟩

theorem kept_own : Kept fun g => g.WellFormed ∧ g.Own :=
  .of_edits (·.1) (fun h he => ⟨h.1.edited (Edit.edited he), h.2.edited h.1.ids he⟩)
    fun h hc _ ha => by
      obtain ⟨r, hone⟩ := Graph.attach_oneMore h.1.ids ha
      exact ⟨h.1.attach ha (Graph.joinable_of_check hc), h.2.rerouted hone.rerouted hone.buses⟩

section Join

variable {behavioral : BehavioralDocument} {visual : Option VisualDocument} {options : LayoutOptions}
  {b : Blueprint}

theorem join_wired (h : Blueprint.join behavioral visual options = .ok b) : b.graph.Wired :=
  (join_keeps kept_wired ⟨Graph.withRoot_wellFormed _ _, Graph.withRoot_wired _ _⟩ h).2

theorem join_own (h : Blueprint.join behavioral visual options = .ok b) : b.graph.Own :=
  (join_keeps kept_own ⟨Graph.withRoot_wellFormed _ _, Graph.withRoot_own _ _⟩ h).2

end Join

end MessageGraph
