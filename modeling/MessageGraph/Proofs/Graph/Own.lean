import MessageGraph.Proofs.Graph.Editing
import MessageGraph.Proofs.Graph.Subtree

/-!
# Graphs that are all their own

`Own` says that nothing in a graph is the content of another model, so that all of it is written back, and
that no id is zero but for the top-level group's, so that each can be asked for when it is loaded again.
`Unlinked` says that no group is a link. Edits and connections keep both.
-/
namespace MessageGraph

theorem Node.imported_mapSource (m : Node) (f : Source → Source) :
    (m.mapSource f).imported = m.imported := by
  unfold mapSource
  split <;> rfl

theorem Node.imported_mapGroup (m : Node) (f : Group → Group) :
    (m.mapGroup f).imported = m.imported := by
  unfold mapGroup
  split <;> rfl

theorem Node.group?_mapSource (m : Node) (f : Source → Source) :
    (m.mapSource f).group? = m.group? := by
  cases hk : m.kind <;> simp only [mapSource, group?, hk]

theorem Node.link_mapGroup {f : Group → Group} (hf : ∀ s, (f s).link = s.link) (m : Node) :
    (m.mapGroup f).group?.bind (·.link) = m.group?.bind (·.link) := by
  cases hk : m.kind <;> simp only [mapGroup, group?, hk, Option.bind_none, Option.bind_some, hf]

namespace Graph

variable {g g' : Graph}

structure Own (g : Graph) : Prop where
  nodes : ∀ n m, g.node? n = some m → m.imported = false
  buses : ∀ i b, g.bus? i = some b → b.imported = false
  node_ids : ∀ n, g.nodes.contains n = true → n ≠ g.root → n ≠ 0
  bus_ids : ∀ i, g.buses.contains i = true → i ≠ 0

def Unlinked (g : Graph) : Prop :=
  ∀ n m, g.node? n = some m → m.group?.bind (·.link) = none

/-! ## Edits -/

theorem claim_ne_zero {id : Option Id} {n : Id} (h : g.claim id = .ok (n, g')) : n ≠ 0 := by
  cases id with
  | none =>
    cases h
    exact Nat.ne_of_gt (Nat.lt_of_lt_of_le Nat.zero_lt_one (Nat.le_max_right _ _))
  | some id =>
    unfold claim at h
    simp only at h
    split at h
    · cases h
    · rename_i hfree
      simp only [Bool.or_eq_true, decide_eq_true_eq, not_or] at hfree
      cases h
      exact hfree.2

theorem addNode_ne_zero {id : Option Id} {parent n : Id} {name : String} {kind : NodeKind}
    (h : g.addNode id parent name kind = .ok (n, g')) : n ≠ 0 := by
  obtain ⟨s, -, h⟩ := bind_eq_ok.1 h
  obtain ⟨⟨m, g₁⟩, hc, h⟩ := bind_eq_ok.1 h
  cases h
  exact claim_ne_zero hc

theorem addBus_ne_zero {id : Option Id} {group n : Id} {name : String}
    {filter : Option BehaviorRef} (h : g.addBus id group name filter = .ok (n, g')) : n ≠ 0 := by
  obtain ⟨s, -, h⟩ := bind_eq_ok.1 h
  obtain ⟨⟨m, g₁⟩, hc, h⟩ := bind_eq_ok.1 h
  cases h
  exact claim_ne_zero hc

/-- An edit adds at most one entity, and none under the id zero. -/
theorem Edited.ne_zero (w : g.IdsApart) (h : Edited g g') {k : EntityKind} {i : Id}
    (hi : g'.has k i = true) (hk : k = .node ∨ k = .bus) : g.has k i = true ∨ i ≠ 0 := by
  have hadds : ∀ {kind x}, Adds g kind x g' → (kind = k → x ≠ 0) → g.has k i = true ∨ i ≠ 0 := by
    intro kind x ha hx
    rcases (ha.has_iff k i).1 hi with h | ⟨rfl, rfl⟩
    · exact Or.inl h
    · exact Or.inr (hx rfl)
  cases h with
  | group h => exact hadds (addNode_adds w h) fun _ => addNode_ne_zero h
  | source h => exact hadds (addNode_adds w h) fun _ => addNode_ne_zero h
  | pin h => exact hadds (addPin_adds w h) fun he => by rcases hk with rfl | rfl <;> cases he
  | gate h => exact hadds (addGate_adds w h) fun he => by rcases hk with rfl | rfl <;> cases he
  | bus h => exact hadds (addBus_adds w h) fun _ => addBus_ne_zero h
  | alike h => rw [h.has_eq] at hi; exact Or.inl hi

theorem Edited.root (w : g.IdsApart) (h : Edited g g') : g'.root = g.root := by
  cases h with
  | group h => exact (addNode_extends w h).root
  | source h => exact (addNode_extends w h).root
  | pin h => exact (addPin_extends w h).root
  | gate h => exact (addGate_extends w h).root
  | bus h => exact (addBus_extends w h).root
  | alike h => exact h.root

theorem Own.edited (w : g.IdsApart) (ho : g.Own) {e : Edit} (h : e.apply g = .ok g') : g'.Own where
  nodes := by
    refine Edit.forall_nodes (Q := fun m => m.imported = false) ?_ w (fun _ => ?_) (fun _ m f hm => ?_)
      ho.nodes h
    · exact ⟨fun _ hm => hm, fun f hm => (Node.imported_mapSource _ f).trans hm,
        fun f _ hm => (Node.imported_mapGroup _ f).trans hm⟩
    · exact ⟨fun _ _ _ => rfl, fun _ _ => rfl, fun _ hm => hm⟩
    · exact (m.imported_mapGroup f).trans hm
  buses := Edit.forall_buses (Q := fun b => b.imported = false) w (fun _ _ _ _ => rfl)
    (fun _ _ _ hb => hb) ho.buses h
  node_ids := by
    intro n hn hroot
    rw [Edited.root w (Edit.edited h)] at hroot
    rcases Edited.ne_zero w (Edit.edited h) (k := .node) hn (Or.inl rfl) with hn | hn
    · exact ho.node_ids n hn hroot
    · exact hn
  bus_ids := by
    intro i hi
    rcases Edited.ne_zero w (Edit.edited h) (k := .bus) hi (Or.inr rfl) with hi | hi
    · exact ho.bus_ids i hi
    · exact hi

/-- Only `setLink` makes a link; the state of a link that is not there cannot be set. -/
theorem Unlinked.edited (w : g.IdsApart) (hu : g.Unlinked) {e : Edit}
    (he : ∀ group location, e ≠ .setLink group location) (h : e.apply g = .ok g') :
    g'.Unlinked := by
  cases hl : e.links with
  | false =>
    refine Edit.forall_nodes (Q := fun m => m.group?.bind (·.link) = none) ?_ w (fun _ => ?_)
      (fun hl' => by rw [hl] at hl'; cases hl') hu h
    · exact ⟨fun _ hm => hm, fun {m} f hm => (by rw [m.group?_mapSource f]; exact hm),
        fun {m} f hf hm => (m.link_mapGroup hf).trans hm⟩
    · exact ⟨fun _ _ _ => rfl, fun _ _ => rfl, fun _ hm => hm⟩
  | true =>
    cases e with
    | setLink group location => exact absurd rfl (he group location)
    | setLinkState group state =>
      rw [← eq_of_checked h]
      refine forall_modifyNode hu fun m hm => ?_
      cases hk : m.kind with
      | source s => simp only [Node.mapGroup, Node.group?, hk, Option.bind_none]
      | group s =>
        simp only [Node.group?, hk, Option.bind_some] at hm
        simp only [Node.mapGroup, Node.group?, hk, Option.bind_some, hm, Option.map_none]
    | _ => cases hl

/-! ## Routes and nodes that go -/

/-- Nodes and buses do not depend on routes. -/
theorem Own.rerouted (ho : g.Own) (h : Rerouted g g')
    (hb : ∀ i, (g'.bus? i).map Bus.untacked = (g.bus? i).map Bus.untacked) : g'.Own where
  nodes n m hm := by
    unfold node? at hm
    rw [h.nodes] at hm
    exact ho.nodes n m hm
  buses i b hb' := by
    obtain ⟨x, hx, he⟩ := Alike.some_of_map_eq (hb i) hb'
    have hi : b.imported = x.imported := show b.untacked.imported = x.untacked.imported by rw [he]
    rw [hi]
    exact ho.buses i x hx
  node_ids n hn hr := by
    rw [h.nodes] at hn
    rw [h.root] at hr
    exact ho.node_ids n hn hr
  bus_ids i hi := by
    have hc : g'.buses.contains i = g.buses.contains i := view_eq Option.isSome (hb i) fun _ => rfl
    exact ho.bus_ids i (hc.symm.trans hi)

theorem Unlinked.rerouted (hu : g.Unlinked) (h : Rerouted g g') : g'.Unlinked := by
  intro n m hm
  unfold node? at hm
  rw [h.nodes] at hm
  exact hu n m hm

theorem forall_cutOff {Q : Node → Prop} (h : ∀ n m, g.node? n = some m → Q m) {gone : Id → Bool}
    {node parent : Id} (hQ : ∀ m f, (∀ s, (f s).link = s.link) → Q m → Q (m.mapGroup f)) :
    ∀ n m, (g.cutOff gone node parent).node? n = some m → Q m := by
  refine forall_modifyNode (fun n m hm => ?_) fun m hm => hQ m _ (fun _ => rfl) hm
  rw [node?_dropNodes] at hm
  split at hm
  · cases hm
  · exact h n m hm

theorem Own.cutOff (ho : g.Own) (gone : Id → Bool) (node parent : Id) :
    (g.cutOff gone node parent).Own where
  nodes := forall_cutOff ho.nodes fun m f _ hm => (m.imported_mapGroup f).trans hm
  buses i b hb := by
    rw [bus?_cutOff, Option.filter_eq_some_iff] at hb
    exact ho.buses i b hb.1
  node_ids n hn hr := ho.node_ids n (has_cutOff (k := .node) hn) hr
  bus_ids i hi := ho.bus_ids i (has_cutOff (k := .bus) hi)

theorem Unlinked.cutOff (hu : g.Unlinked) (gone : Id → Bool) (node parent : Id) :
    (g.cutOff gone node parent).Unlinked :=
  forall_cutOff hu fun m _ hf hm => (m.link_mapGroup hf).trans hm

theorem withRoot_own (root : Id) (name : String) : (withRoot root name).Own where
  nodes n m hm := by
    rw [node?_withRoot] at hm
    split at hm <;> cases hm
    rfl
  buses := nofun
  node_ids n hn hr := absurd (has_withRoot (k := .node) hn).2 hr
  bus_ids := nofun

theorem withRoot_unlinked (root : Id) (name : String) : (withRoot root name).Unlinked := by
  intro n m hm
  rw [node?_withRoot] at hm
  split at hm <;> cases hm
  rfl

end Graph
end MessageGraph
