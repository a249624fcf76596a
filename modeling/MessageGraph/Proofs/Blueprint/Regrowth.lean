import MessageGraph.Proofs.Blueprint.Graft
import MessageGraph.Proofs.Blueprint.Loaded
import MessageGraph.Proofs.Blueprint.Looks

/-!
# A saved tree grows again

Loading adds the nodes of a document in the order of its tree. Where the document was saved from a graph,
each node finds the ids it asks for still free (`Ready`), so that a subtree grows below its parent as it was
(`Grafts`), and the whole comes to look as it did when it was saved (`Looks`).
-/
namespace MessageGraph

namespace Tree

variable {α β γ : Type}

theorem value_node (v : α) (ts : List (Tree α)) : (node v ts).value = v := rfl

theorem children_node (v : α) (ts : List (Tree α)) : (node v ts).children = ts := rfl

theorem value_map (f : α → β) (t : Tree α) : (t.map f).value = f t.value := by
  cases t
  rfl

theorem children_map (f : α → β) (t : Tree α) : (t.map f).children = mapAll f t.children := by
  cases t
  rfl

theorem valuesOf_singleton (t : Tree α) : valuesOf [t] = t.values := List.append_nil _

theorem length_mapAll (f : α → β) (ts : List (Tree α)) : (mapAll f ts).length = ts.length := by
  rw [mapAll_eq_map, List.length_map]

mutual

/-- Nothing is cut off a tree whose values all pass. -/
theorem prune_eq_self {keep : α → Bool} :
    (t : Tree α) → (∀ x ∈ t.values, keep x = true) → t.prune keep = t
  | node v ts, h => by
    rw [prune, pruneAll_eq_self ts fun x hx => h x (List.mem_cons_of_mem v hx)]

theorem pruneAll_eq_self {keep : α → Bool} :
    (ts : List (Tree α)) → (∀ x ∈ valuesOf ts, keep x = true) → pruneAll keep ts = ts
  | [], _ => rfl
  | t :: ts, h => by
    have ht : ∀ x ∈ t.values, keep x = true := fun x hx => h x (List.mem_append_left _ hx)
    have hv : keep t.value = true := ht _ (by cases t; exact List.mem_cons_self)
    rw [pruneAll, if_pos hv, prune_eq_self t ht,
      pruneAll_eq_self ts fun x hx => h x (List.mem_append_right _ hx)]

end

mutual

theorem map_map (f : α → β) (f' : β → γ) : (t : Tree α) → (t.map f).map f' = t.map fun a => f' (f a)
  | node a ts => by rw [map, map, map, mapAll_mapAll f f' ts]

theorem mapAll_mapAll (f : α → β) (f' : β → γ) :
    (ts : List (Tree α)) → mapAll f' (mapAll f ts) = mapAll (fun a => f' (f a)) ts
  | [] => rfl
  | t :: ts => by rw [mapAll, mapAll, mapAll, map_map f f' t, mapAll_mapAll f f' ts]

end

mutual

theorem map_congr {f f' : α → β} : (t : Tree α) → (∀ a ∈ t.values, f a = f' a) → t.map f = t.map f'
  | node a ts, h => by
    rw [map, map, h a List.mem_cons_self, mapAll_congr ts fun b hb => h b (List.mem_cons_of_mem a hb)]

theorem mapAll_congr {f f' : α → β} :
    (ts : List (Tree α)) → (∀ a ∈ valuesOf ts, f a = f' a) → mapAll f ts = mapAll f' ts
  | [], _ => rfl
  | t :: ts, h => by
    rw [mapAll, mapAll, map_congr t fun a ha => h a (List.mem_append_left _ ha),
      mapAll_congr ts fun a ha => h a (List.mem_append_right _ ha)]

end

end Tree

namespace Graph

variable {g : Graph} {n : Id}

/-! ## What documents ask for -/

/-- The ids that the documents of a node ask for. -/
def claims (g : Graph) (n : Id) : List Id := (g.nodeSpec n).id :: (g.nodeSpec n).buses.map (·.id)

theorem tag_nodeVisual (g : Graph) (n : Id) : (g.nodeVisual n).tag = (g.nodeSpec n).tag := by
  unfold nodeVisual nodeSpec
  cases g.node? n with
  | none => rfl
  | some m => cases hk : m.kind <;> simp only [hk]

theorem name_nodeVisual (g : Graph) (n : Id) : (g.nodeVisual n).name = (g.nodeSpec n).name := by
  unfold nodeVisual nodeSpec
  cases g.node? n with
  | none => rfl
  | some m => cases hk : m.kind <;> simp only [hk]

theorem claims_source {m : Node} (hm : (g.sheet n).node = some m) {x : Source}
    (hk : m.kind = .source x) : g.claims n = [n] := by
  unfold claims
  rw [nodeSpec_eq, Sheet.spec_source hm hk]
  rfl

theorem claims_group {m : Node} (hm : (g.sheet n).node = some m) {x : Group}
    (hk : m.kind = .group x) : g.claims n = n :: (g.sheet n).ownBuses.map (·.1) := by
  unfold claims
  rw [nodeSpec_eq, Sheet.spec_group hm hk, List.map_map]
  rfl

theorem exists_sheet_node (hn : g.nodes.contains n = true) : ∃ m, (g.sheet n).node = some m := by
  rw [contains_eq_sheet] at hn
  exact Option.isSome_iff_exists.1 hn

theorem WellFormed.owner_of_mem_sheet (w : g.WellFormed) {y : Id × Bus}
    (hy : y ∈ (g.sheet n).ownBuses) : g.busOwner? y.1 = some n := by
  obtain ⟨i, hi, hy⟩ := List.mem_filterMap.1 (List.mem_of_mem_filter hy)
  obtain ⟨b, hb, rfl⟩ := Option.map_eq_some_iff.1 hy
  exact w.buses.mem_iff.1 hi

theorem WellFormed.mem_claims (w : g.WellFormed) (hn : g.nodes.contains n = true) {i : Id}
    (hi : i ∈ g.claims n) : i = n ∨ g.busOwner? i = some n := by
  obtain ⟨m, hm⟩ := exists_sheet_node hn
  cases hk : m.kind with
  | source x =>
    rw [claims_source hm hk] at hi
    exact Or.inl (List.mem_singleton.1 hi)
  | group x =>
    rw [claims_group hm hk] at hi
    rcases List.mem_cons.1 hi with hi | hi
    · exact Or.inl hi
    · obtain ⟨y, hy, rfl⟩ := List.mem_map.1 hi
      exact Or.inr (w.owner_of_mem_sheet hy)

theorem contains_of_busOwner? {i o : Id} (h : g.busOwner? i = some o) :
    g.buses.contains i = true := by
  obtain ⟨b, hb, -⟩ := Option.map_eq_some_iff.1 h
  exact IdMap.contains_of_get? hb

/-- A node is no bus. -/
theorem WellFormed.ne_bus (w : g.WellFormed) (hn : g.nodes.contains n = true) {o : Id}
    (h : g.busOwner? n = some o) : False :=
  w.node_or_bus hn (contains_of_busOwner? h)

theorem WellFormed.claims_nodup (w : g.WellFormed) (hn : g.nodes.contains n = true) :
    (g.claims n).Nodup := by
  obtain ⟨m, hm⟩ := exists_sheet_node hn
  cases hk : m.kind with
  | source x =>
    rw [claims_source hm hk]
    exact List.nodup_singleton n
  | group x =>
    rw [claims_group hm hk, List.nodup_cons]
    refine ⟨fun h => ?_, (w.sheet_sound n).bus_ids.sublist (List.filter_sublist.map _)⟩
    obtain ⟨y, hy, rfl⟩ := List.mem_map.1 h
    exact w.ne_bus hn (w.owner_of_mem_sheet hy)

/-- No two nodes ask for the same id. -/
theorem WellFormed.flatMap_claims_nodup (w : g.WellFormed) {ns : List Id} (hns : ns.Nodup)
    (hlive : ∀ n ∈ ns, g.nodes.contains n = true) : (ns.flatMap g.claims).Nodup := by
  refine List.nodup_flatMap.2 ⟨fun n hn => w.claims_nodup (hlive n hn), ?_⟩
  refine hns.imp_of_mem fun {a b} ha hb hne i hia hib => ?_
  rcases w.mem_claims (hlive a ha) hia with rfl | hoa <;>
    rcases w.mem_claims (hlive b hb) hib with rfl | hob
  · exact hne rfl
  · exact w.ne_bus (hlive i ha) hob
  · exact w.ne_bus (hlive i hb) hoa
  · exact hne (Option.some.inj (hoa.symm.trans hob))

/-- All that is there belongs to the outline that is saved. -/
theorem WellFormed.ownTree_eq (w : g.WellFormed) (ho : g.Own) : g.ownTree = g.outline g.root := by
  refine Tree.prune_eq_self _ fun n hn => ?_
  obtain ⟨m, hm⟩ := IdMap.contains_iff.1 (w.mem_outline.1 hn)
  have hm : g.node? n = some m := hm
  rw [hm, Option.elim_some, ho.nodes n m hm]
  rfl

end Graph

open MessageGraph.Graph (Sprouts)

variable {saved : Graph} {l l' l'' : Loading} {p n : Id} {ts : List (Tree Id)} {t : Tree Id}

/-! ## Growing -/

/-- Trees are ready to grow below a group: the ids that they ask for are free, each asked for once. -/
structure Ready (saved : Graph) (l : Loading) (p : Id) (ts : List (Tree Id)) : Prop where
  wellFormed : l.graph.WellFormed
  group : (l.graph.group? p).isSome = true
  free : ∀ i ∈ (Tree.valuesOf ts).flatMap saved.claims, l.graph.Free i ∧ i ≠ 0
  nodup : ((Tree.valuesOf ts).flatMap saved.claims).Nodup

/-- Trees have grown below a group: their nodes have the children and entries that were saved, and all else
is as it was. -/
structure Grafts (saved : Graph) (l : Loading) (p : Id) (ts : List (Tree Id)) (l' : Loading) : Prop where
  wellFormed : l'.graph.WellFormed
  root : l'.graph.root = l.graph.root
  others : ∀ m, m ∉ Tree.valuesOf ts → l'.graph.sheet m = l.graph.sheet m
  parent : l'.graph.childIds p = l.graph.childIds p ++ ts.map Tree.value
  children : ∀ m, m ≠ p → m ∉ Tree.valuesOf ts → l'.graph.childIds m = l.graph.childIds m
  below : ∀ m ∈ Tree.valuesOf ts,
    l'.graph.nodes.contains m = true ∧ l'.graph.childIds m = saved.childIds m
  spec : ∀ m ∈ Tree.valuesOf ts, l'.graph.nodeSpec m = saved.nodeSpec m
  visual : saved.Placed → ∀ m ∈ Tree.valuesOf ts, l'.graph.nodeVisual m = saved.nodeVisual m
  quiet : saved.Placed → l'.diagnostics = l.diagnostics
  free : ∀ i, i ∉ (Tree.valuesOf ts).flatMap saved.claims → l.graph.Free i → l'.graph.Free i

theorem id_nodeSpec (saved : Graph) (n : Id) : (saved.nodeSpec n).id = n := by
  unfold Graph.nodeSpec
  cases saved.node? n with
  | none => rfl
  | some m => cases hk : m.kind <;> simp only [hk]

/-- A node asks for its own id. -/
theorem mem_claims_self (saved : Graph) (n : Id) : n ∈ saved.claims n := by
  unfold Graph.claims
  rw [id_nodeSpec]
  exact List.mem_cons_self

namespace Ready

/-- The nodes that are to grow are not there yet. -/
theorem absent (h : Ready saved l p ts) {m : Id} (hm : m ∈ Tree.valuesOf ts) :
    l.graph.nodes.contains m = false :=
  (h.free m (List.mem_flatMap.2 ⟨m, hm, mem_claims_self saved m⟩)).1.absent .node

theorem outside (h : Ready saved l p ts) : p ∉ Tree.valuesOf ts := fun hm => by
  obtain ⟨s, hs⟩ := Option.isSome_iff_exists.1 h.group
  have := h.absent hm
  rw [Graph.contains_of_group? hs] at this
  cases this

theorem head (h : Ready saved l p (t :: ts)) : Ready saved l p [t] where
  wellFormed := h.wellFormed
  group := h.group
  free i hi := h.free i (by
    rw [Tree.valuesOf_singleton] at hi
    rw [Tree.valuesOf, List.flatMap_append]
    exact List.mem_append_left _ hi)
  nodup := by
    have hn := h.nodup
    rw [Tree.valuesOf, List.flatMap_append] at hn
    rw [Tree.valuesOf_singleton]
    exact (List.nodup_append.1 hn).1

/-- What is asked for by a tree is not asked for by those after it. -/
theorem apart (h : Ready saved l p (t :: ts)) {i : Id} (hi : i ∈ t.values.flatMap saved.claims) :
    i ∉ (Tree.valuesOf ts).flatMap saved.claims := fun hi' => by
  have hn := h.nodup
  rw [Tree.valuesOf, List.flatMap_append] at hn
  exact (List.nodup_append.1 hn).2.2 i hi i hi' rfl

theorem tail (h : Ready saved l p (t :: ts)) (hg : Grafts saved l p [t] l') :
    Ready saved l' p ts where
  wellFormed := hg.wellFormed
  group := by
    rw [Graph.isSome_group?_eq, hg.others p h.head.outside, ← Graph.isSome_group?_eq]
    exact h.group
  free i hi := by
    have hi' := h.free i (by
      rw [Tree.valuesOf, List.flatMap_append]
      exact List.mem_append_right _ hi)
    refine ⟨hg.free i (fun hit => ?_) hi'.1, hi'.2⟩
    rw [Tree.valuesOf_singleton] at hit
    exact h.apart hit hi
  nodup := by
    have hn := h.nodup
    rw [Tree.valuesOf, List.flatMap_append] at hn
    exact (List.nodup_append.1 hn).2.1

/-! What a tree asks for is what its top asks for, and then what those below ask for. -/

theorem claims_node (h : Ready saved l p [.node n ts]) :
    (∀ i ∈ saved.claims n ++ (Tree.valuesOf ts).flatMap saved.claims, l.graph.Free i ∧ i ≠ 0) ∧
      (saved.claims n ++ (Tree.valuesOf ts).flatMap saved.claims).Nodup := by
  have hv : Tree.valuesOf [.node n ts] = n :: Tree.valuesOf ts := Tree.valuesOf_singleton _
  rw [← List.flatMap_cons, ← hv]
  exact ⟨h.free, h.nodup⟩

theorem self (h : Ready saved l p [.node n ts]) : l.graph.Free n ∧ n ≠ 0 :=
  h.claims_node.1 n (List.mem_append_left _ (mem_claims_self saved n))

theorem not_below (h : Ready saved l p [.node n ts]) : n ∉ Tree.valuesOf ts := fun hn =>
  (List.nodup_append.1 h.claims_node.2).2.2 n (mem_claims_self saved n) n
    (List.mem_flatMap.2 ⟨n, hn, mem_claims_self saved n⟩) rfl

/-- Where a group has grown its children are ready to grow. -/
theorem below (h : Ready saved l p [.node n ts]) {s : Sheet}
    (hs : Sprouts l.graph p n s (saved.claims n) l'.graph)
    (hgroup : (s.node.bind Node.group?).isSome = true) : Ready saved l' n ts where
  wellFormed := hs.wellFormed
  group := by rw [Graph.isSome_group?_eq, hs.sheet]; exact hgroup
  free i hi := by
    obtain ⟨hfree, h0⟩ := h.claims_node.1 i (List.mem_append_right _ hi)
    exact ⟨hs.free i (fun hc => (List.nodup_append.1 h.claims_node.2).2.2 i hc i hi rfl) hfree, h0⟩
  nodup := (List.nodup_append.1 h.claims_node.2).2.1

end Ready

namespace Grafts

theorem nil (w : l.graph.WellFormed) : Grafts saved l p [] l where
  wellFormed := w
  root := rfl
  others _ _ := rfl
  parent := (List.append_nil _).symm
  children _ _ _ := rfl
  below := nofun
  spec := nofun
  visual _ := nofun
  quiet _ := rfl
  free _ _ h := h

/-- One tree grows after the other. -/
theorem cons (hr : Ready saved l p (t :: ts)) (h : Grafts saved l p [t] l')
    (h' : Grafts saved l' p ts l'') : Grafts saved l p (t :: ts) l'' := by
  have hapart : ∀ {m}, m ∈ t.values → m ∉ Tree.valuesOf ts := fun {m} hm hm' =>
    hr.apart (List.mem_flatMap.2 ⟨m, hm, mem_claims_self saved m⟩)
      (List.mem_flatMap.2 ⟨m, hm', mem_claims_self saved m⟩)
  have hne : ∀ {m}, m ∈ Tree.valuesOf [t] → m ≠ p := fun hm he => hr.head.outside (he ▸ hm)
  have hv : Tree.valuesOf [t] = t.values := Tree.valuesOf_singleton t
  have hold : ∀ m ∈ t.values, l''.graph.sheet m = l'.graph.sheet m := fun m hm =>
    h'.others m (hapart hm)
  refine
    { wellFormed := h'.wellFormed, root := h'.root.trans h.root
      others := fun m hm => ?_, parent := ?_, children := fun m hp hm => ?_
      below := fun m hm => ?_, spec := fun m hm => ?_, visual := fun hplaced m hm => ?_
      quiet := fun hp => (h'.quiet hp).trans (h.quiet hp), free := fun i hi hf => ?_ }
  · rw [Tree.valuesOf, List.mem_append, not_or] at hm
    exact (h'.others m hm.2).trans (h.others m (hv ▸ hm.1))
  · rw [h'.parent, h.parent, List.append_assoc]
    rfl
  · rw [Tree.valuesOf, List.mem_append, not_or] at hm
    exact (h'.children m hp hm.2).trans (h.children m hp (hv ▸ hm.1))
  · rcases List.mem_append.1 hm with hm | hm
    · have hb := h.below m (hv ▸ hm)
      rw [Graph.contains_of_sheet_eq (hold m hm)]
      exact ⟨hb.1, (h'.children m (hne (hv ▸ hm)) (hapart hm)).trans hb.2⟩
    · exact h'.below m hm
  · rcases List.mem_append.1 hm with hm | hm
    · rw [Graph.nodeSpec_eq l''.graph, hold m hm, ← Graph.nodeSpec_eq]
      exact h.spec m (hv ▸ hm)
    · exact h'.spec m hm
  · rcases List.mem_append.1 hm with hm | hm
    · rw [Graph.nodeVisual_eq l''.graph, hold m hm, ← Graph.nodeVisual_eq]
      exact h.visual hplaced m (hv ▸ hm)
    · exact h'.visual hplaced m hm
  · rw [Tree.valuesOf, List.flatMap_append, List.mem_append, not_or] at hi
    exact h'.free i hi.2 (h.free i (hv ▸ hi.1) hf)

/-- A node with what grows below it. -/
theorem node (hr : Ready saved l p [.node n ts]) {s : Sheet}
    (hs : Sprouts l.graph p n s (saved.claims n) l'.graph) (hlive : s.node.isSome = true)
    (hspec : s.spec n = saved.nodeSpec n)
    (hvisual : saved.Placed → s.visual = saved.nodeVisual n ∧ l'.diagnostics = l.diagnostics)
    (hchild : saved.childIds n = ts.map Tree.value) (h : Grafts saved l' n ts l'')
    (hn : n ∉ Tree.valuesOf ts) : Grafts saved l p [.node n ts] l'' := by
  have hv : Tree.valuesOf [.node n ts] = n :: Tree.valuesOf ts := Tree.valuesOf_singleton _
  have hp := hr.outside
  rw [hv, List.mem_cons, not_or] at hp
  have hsheet : l''.graph.sheet n = s := (h.others n hn).trans hs.sheet
  refine
    { wellFormed := h.wellFormed, root := h.root.trans hs.root
      others := fun m hm => ?_, parent := ?_, children := fun m hmp hm => ?_
      below := fun m hm => ?_, spec := fun m hm => ?_, visual := fun hplaced m hm => ?_
      quiet := fun hplaced => (h.quiet hplaced).trans (hvisual hplaced).2, free := fun i hi hf => ?_ }
  · rw [hv, List.mem_cons, not_or] at hm
    exact (h.others m hm.2).trans (hs.others m hm.1)
  · exact (h.children p hp.1 hp.2).trans hs.parent
  · rw [hv, List.mem_cons, not_or] at hm
    exact (h.children m hm.1 hm.2).trans (hs.children m hmp hm.1)
  · rw [hv] at hm
    rcases List.mem_cons.1 hm with rfl | hm
    · rw [Graph.contains_eq_sheet, hsheet, h.parent, hs.leaf, hchild]
      exact ⟨hlive, rfl⟩
    · exact h.below m hm
  · rw [hv] at hm
    rcases List.mem_cons.1 hm with rfl | hm
    · rw [Graph.nodeSpec_eq l''.graph, hsheet, hspec]
    · exact h.spec m hm
  · rw [hv] at hm
    rcases List.mem_cons.1 hm with rfl | hm
    · rw [Graph.nodeVisual_eq l''.graph, hsheet, (hvisual hplaced).1]
    · exact h.visual hplaced m hm
  · rw [hv, List.flatMap_cons, List.mem_append, not_or] at hi
    exact h.free i hi.2 (hs.free i hi.1 hf)

end Grafts

theorem Graph.Placed.source_rect {g : Graph} (h : g.Placed) {m : Node}
    (hm : (g.sheet n).node = some m) {x : Source} (hk : m.kind = .source x) :
    m.rect.isSome = true := by
  obtain ⟨m₀, hm₀, rfl⟩ := Option.map_eq_some_iff.1 hm
  refine h.nodes n m₀ hm₀ ?_
  unfold Node.unlisted at hk
  cases hk₀ : m₀.kind with
  | source s => simp only [Node.source?, hk₀, Option.isSome_some]
  | group s => simp only [hk₀, reduceCtorEq] at hk

theorem Graph.Placed.bus_rect {g : Graph} (h : g.Placed) {y : Id × Bus}
    (hy : y ∈ (g.sheet n).ownBuses) : y.2.rect.isSome = true := by
  obtain ⟨b, hb, he⟩ := Graph.bus_of_mem_sheet (List.mem_of_mem_filter hy)
  rw [he]
  exact h.buses y.1 b hb

theorem Graph.childIds_source {g : Graph} {m : Node} (hm : (g.sheet n).node = some m) {x : Source}
    (hk : m.kind = .source x) : g.childIds n = [] := by
  obtain ⟨m₀, hm₀, rfl⟩ := Option.map_eq_some_iff.1 hm
  unfold Node.unlisted at hk
  cases hk₀ : m₀.kind with
  | source s => simp only [childIds, group?, hm₀, Option.bind_some, Node.group?, hk₀, Option.elim_none]
  | group s => simp only [hk₀, reduceCtorEq] at hk

namespace Loading

theorem matchChild_saved (group index : Id) (l : Loading) (t : Tree Id) :
    l.matchChild group index (t.map saved.nodeSpec).value (some (t.map saved.nodeVisual)) =
      (some (t.map saved.nodeVisual), l) := by
  simp only [matchChild, Tree.value_map, Graph.tag_nodeVisual, Graph.name_nodeVisual, and_self,
    ↓reduceIte]

theorem staleAll_drop (l : Loading) (subject : Id) (what : String) (ts : List (Tree Id)) (k : Nat)
    (hk : k = ts.length) : l.staleAll subject what
      (((Tree.mapAll saved.nodeVisual ts).drop k).map (·.value.name)) = l := by
  rw [List.drop_of_length_le (Nat.le_of_eq (by rw [hk, Tree.length_mapAll])), List.map_nil]
  rfl

section Top

variable (w : saved.WellFormed) (options : LayoutOptions) (index : Nat) {m : Node}
  (hm : (saved.sheet n).node = some m) (hchild : saved.childIds n = ts.map Tree.value)
  (hr : Ready saved l p [.node n ts])

include w hm hchild hr

/-- A saved source grows again; it has no children. -/
theorem source_grafts {x : Source} (hk : m.kind = .source x) :
    Grafts saved l p [.node n ts] (addTree options p index
      (some ((Tree.node n ts).map saved.nodeVisual)) ((Tree.node n ts).map saved.nodeSpec) l) := by
  obtain rfl : ts = [] := List.map_eq_nil_iff.1 (hchild.symm.trans (Graph.childIds_source hm hk))
  obtain ⟨l₁, ha, hfill⟩ := source_sprouts options index (w.sheet_sound n) hm hk hr.wellFormed
    hr.group hr.self.1 hr.self.2
  obtain ⟨s', hs, hlive, hspec, hvisual⟩ := hfill _ rfl
  have htag : ((saved.sheet n).spec n).tag = .source := by rw [Sheet.spec_source hm hk]
  simp only [Tree.map, addTree, Option.map_some, Tree.value_node]
  rw [Graph.nodeSpec_eq saved n, Graph.nodeVisual_eq saved n, ha]
  simp only [htag]
  rw [← Graph.claims_source hm hk] at hs
  refine .node hr hs hlive (hspec.trans (Graph.nodeSpec_eq saved n).symm) (fun hplaced => ?_) hchild
    (.nil hs.wellFormed) hr.not_below
  rw [Graph.nodeVisual_eq saved n]
  exact hvisual (hplaced.source_rect hm hk)

/-- A saved group grows again if its children do. -/
theorem group_grafts (hn : saved.nodes.contains n = true) {x : Group} (hk : m.kind = .group x)
    (hbelow : ∀ {l}, Ready saved l n ts → Grafts saved l n ts (addTrees options n 0
      (Tree.mapAll saved.nodeVisual ts) (Tree.mapAll saved.nodeSpec ts) l)) :
    Grafts saved l p [.node n ts] (addTree options p index
      (some ((Tree.node n ts).map saved.nodeVisual)) ((Tree.node n ts).map saved.nodeSpec) l) := by
  have hclaims := Graph.claims_group hm hk
  have hbuses : ∀ y ∈ (saved.sheet n).ownBuses, y.1 ≠ n ∧ l.graph.Free y.1 ∧ y.1 ≠ 0 := by
    intro y hy
    refine ⟨fun he => ?_, hr.claims_node.1 y.1 (List.mem_append_left _ ?_)⟩
    · exact w.ne_bus hn (he ▸ w.owner_of_mem_sheet hy)
    · rw [hclaims]
      exact List.mem_cons_of_mem n (List.mem_map_of_mem hy)
  obtain ⟨l₁, ha, hfill⟩ := group_sprouts options index (Tree.mapAll saved.nodeSpec ts).length
    (w.sheet_sound n) hm hk hr.wellFormed hr.group hr.self.1 hr.self.2 hbuses
  have htag : ((saved.sheet n).spec n).tag = .group := by rw [Sheet.spec_group hm hk]
  simp only [Tree.map, addTree, Option.map_some, Tree.value_node]
  rw [Graph.nodeSpec_eq saved n, Graph.nodeVisual_eq saved n, ha]
  simp only [htag, Option.elim_some, Tree.children_node]
  generalize hl₂ : (l₁.placeNode options n index (some (saved.sheet n).visual)).fillGroup options
    ((saved.sheet n).spec n) (Tree.mapAll saved.nodeSpec ts).length n
      (some (saved.sheet n).visual) = l₂
  obtain ⟨s', hs, hgroup, hspec, hvisual⟩ := hfill l₂ hl₂
  rw [← hclaims] at hs
  rw [staleAll_drop _ _ _ _ _ (Tree.length_mapAll _ _)]
  refine .node hr hs (Option.isSome_of_isSome_bind hgroup)
    (hspec.trans (Graph.nodeSpec_eq saved n).symm) (fun hplaced => ?_) hchild
    (hbelow (hr.below hs hgroup)) hr.not_below
  rw [Graph.nodeVisual_eq saved n]
  exact hvisual fun y hy => hplaced.bus_rect hy

end Top

mutual

/-- A saved tree grows again below a group where its ids are free. -/
theorem addTree_grafts (w : saved.WellFormed) (options : LayoutOptions) {p : Id} (index : Nat) :
    (t : Tree Id) → {l : Loading} → saved.Spans t → Ready saved l p [t] →
      Grafts saved l p [t] (addTree options p index (some (t.map saved.nodeVisual))
        (t.map saved.nodeSpec) l)
  | .node n ts, l, hspan, hr => by
    obtain ⟨hn, hchild, hspans⟩ := hspan
    obtain ⟨m, hm⟩ := Graph.exists_sheet_node hn
    cases hk : m.kind with
    | source x => exact source_grafts w options index hm hchild hr hk
    | group x =>
      exact group_grafts w options index hm hchild hr hn hk fun hready =>
        addTrees_grafts w options 0 ts hspans hready

theorem addTrees_grafts (w : saved.WellFormed) (options : LayoutOptions) {p : Id} (index : Nat) :
    (ts : List (Tree Id)) → {l : Loading} → saved.SpansAll ts → Ready saved l p ts →
      Grafts saved l p ts (addTrees options p index (Tree.mapAll saved.nodeVisual ts)
        (Tree.mapAll saved.nodeSpec ts) l)
  | [], l, _, hr => by
    unfold Tree.mapAll addTrees
    exact .nil hr.wellFormed
  | t :: ts, l, hspan, hr => by
    unfold Tree.mapAll addTrees
    simp only [List.head?_cons, List.tail_cons, matchChild_saved]
    have h := addTree_grafts w options index t hspan.1 hr.head
    exact h.cons hr (addTrees_grafts w options (index + 1) ts hspan.2 (hr.tail h))

end

end Loading

/-! ## The whole tree -/

namespace Graph

variable {g g' : Graph}

theorem le_reserveAbove (next id : Nat) :
    next ≤ reserveAbove next id ∧ id < reserveAbove next id := by
  by_cases h : next ≤ id
  · rw [reserveAbove, if_pos h]
    exact ⟨Nat.le_succ_of_le h, Nat.lt_succ_self id⟩
  · rw [reserveAbove, if_neg h]
    exact ⟨Nat.le_refl next, Nat.not_le.1 h⟩

theorem foldl_reserveId (ids : List Id) (g : Graph) :
    ∃ next, ids.foldl reserveId g = { g with nextId := next } ∧ g.nextId ≤ next ∧
      ∀ i ∈ ids, i < next := by
  induction ids generalizing g with
  | nil => exact ⟨g.nextId, rfl, Nat.le_refl _, nofun⟩
  | cons i ids ih =>
    obtain ⟨next, heq, hle, hlt⟩ := ih (g.reserveId i)
    have hi := le_reserveAbove g.nextId i
    refine ⟨next, heq, Nat.le_trans hi.1 hle, fun j hj => ?_⟩
    rcases List.mem_cons.1 hj with rfl | hj
    · exact Nat.lt_of_lt_of_le hi.2 hle
    · exact hlt j hj

/-- A graph without routes. -/
def Unwired (g : Graph) : Prop := g.WellFormed ∧ ∀ i, g.routes.contains i = false

theorem Unwired.edited (h : g.Unwired) (he : Edited g g') : g'.Unwired := by
  refine ⟨h.1.edited he, fun i => ?_⟩
  have hadds : ∀ {k x}, Adds g k x g' → k ≠ .route → g'.routes.contains i = false := by
    intro k x ha hk
    rw [Bool.eq_false_iff]
    intro hi
    rcases (ha.has_iff .route i).1 hi with hi | ⟨hr, -⟩
    · rw [show g.has .route i = false from h.2 i] at hi
      cases hi
    · exact hk hr.symm
  cases he with
  | group he => exact hadds (addNode_adds h.1.ids he) nofun
  | source he => exact hadds (addNode_adds h.1.ids he) nofun
  | pin he => exact hadds (addPin_adds h.1.ids he) nofun
  | gate he => exact hadds (addGate_adds h.1.ids he) nofun
  | bus he => exact hadds (addBus_adds h.1.ids he) nofun
  | alike he => exact (he.has_eq .route i).trans (h.2 i)

theorem Unwired.ids (h : g.Unwired) : g.routes.ids = [] :=
  List.eq_nil_iff_forall_not_mem.2 fun i hi => by
    rw [IdMap.mem_ids_iff, h.2] at hi
    cases hi

theorem withRoot_unwired (root : Id) (name : String) : (withRoot root name).Unwired :=
  ⟨withRoot_wellFormed root name, fun _ => rfl⟩

theorem kept_unwired : NodesKept Unwired := .of_edits (·.1) fun h he => h.edited (Edit.edited he)

theorem childIds_of_absent {n : Id} (h : g.nodes.contains n = false) : g.childIds n = [] := by
  simp only [childIds, group?, node?_of_absent h, Option.bind_none, Option.elim_none]

theorem nodeSpec_of_absent {n : Id} (h : g.nodes.contains n = false) :
    g.nodeSpec n = { tag := .group, id := n, name := "" } := by
  simp only [nodeSpec, node?_of_absent h]

theorem nodeVisual_of_absent {n : Id} (h : g.nodes.contains n = false) :
    g.nodeVisual n = { tag := .group, name := "" } := by
  simp only [nodeVisual, node?_of_absent h]

end Graph

/-- The graph that loading starts from is past every id that is asked for. -/
theorem initialGraph_eq (d : BehavioralDocument) :
    ∃ next, d.initialGraph =
        { Graph.withRoot d.root.value.id d.root.value.name with nextId := next } ∧
      ∀ i ∈ d.root.values.flatMap fun spec => spec.id :: spec.buses.map (·.id), i < next := by
  unfold BehavioralDocument.initialGraph
  rw [← List.foldl_flatMap]
  obtain ⟨next, heq, -, hlt⟩ := Graph.foldl_reserveId
    (d.root.values.flatMap fun spec => spec.id :: spec.buses.map (·.id))
    (Graph.withRoot d.root.value.id d.root.value.name)
  exact ⟨next, heq, hlt⟩

namespace Graph

variable {root : Id} {name : String} {next : Id}

theorem sheet_withRoot (n : Id) : { withRoot root name with nextId := next }.sheet n =
    { node := if n = root then some { name := name, parent := none, kind := .group {} } else none } := by
  have hn : { withRoot root name with nextId := next }.node? n = _ := node?_withRoot n
  unfold sheet pinIds gateIds busIds source? group?
  rw [hn]
  split <;> rfl

theorem free_withRoot {i : Id} (hi : i < next) (hne : i ≠ root) :
    { withRoot root name with nextId := next }.Free i where
  below := hi
  absent k := by
    rw [Bool.eq_false_iff]
    intro h
    have h : (withRoot root name).has k i = true := by cases k <;> exact h
    exact hne (has_withRoot h).2

/-- The node at the top is a group. -/
theorem WellFormed.exists_root_group {g : Graph} (w : g.WellFormed) :
    ∃ m x, (g.sheet g.root).node = some m ∧ m.kind = .group x := by
  obtain ⟨m, hm⟩ := exists_sheet_node w.contains_root
  obtain ⟨s, hs⟩ := w.tree.root_group
  have hgroup := isSome_group?_eq g g.root
  rw [hs, hm] at hgroup
  cases hk : m.kind with
  | source x =>
    simp only [Option.isSome_some, Option.bind_some, Node.group?, hk, Option.isSome_none,
      Bool.true_eq_false] at hgroup
  | group x => exact ⟨m, x, hm, hk⟩

end Graph

section Root

variable {options : LayoutOptions}

/-- Once everything has grown below the top-level group, the whole looks as it was saved. -/
theorem Grafts.looks (w : saved.WellFormed) {l₀ l₁ : Loading} {s : Sheet} {c : List Id}
    (hmem : ∀ n, n ∈ saved.root :: Tree.valuesOf ts ↔ saved.nodes.contains n = true)
    (hnot : saved.root ∉ Tree.valuesOf ts) (hchild : saved.childIds saved.root = ts.map Tree.value)
    (hroot : l₀.graph.root = saved.root) (hbare : ∀ n, l₀.graph.childIds n = [])
    (hblank : ∀ n, n ≠ saved.root → (l₀.graph.sheet n).node = none)
    (hd : Graph.Draws l₀.graph saved.root s c l₁.graph) (hlive : s.node.isSome = true)
    (hspec : s.spec saved.root = saved.nodeSpec saved.root) (hg : Grafts saved l₁ saved.root ts l) :
    Graph.Looks saved l.graph ∧ (saved.Placed → s.visual = saved.nodeVisual saved.root →
      ∀ n, l.graph.nodeVisual n = saved.nodeVisual n) := by
  have hsheet : l.graph.sheet saved.root = s := (hg.others _ hnot).trans hd.sheet
  have habsent : ∀ n, n ∉ saved.root :: Tree.valuesOf ts →
      l.graph.nodes.contains n = false ∧ saved.nodes.contains n = false := fun n hn => by
    refine ⟨?_, Bool.eq_false_iff.2 fun h => hn ((hmem n).2 h)⟩
    rw [List.mem_cons, not_or] at hn
    rw [Graph.contains_eq_sheet, hg.others n hn.2, hd.others n hn.1, hblank n hn.1]
    rfl
  have hcases : ∀ n, n = saved.root ∨ n ∈ Tree.valuesOf ts ∨
      (l.graph.nodes.contains n = false ∧ saved.nodes.contains n = false) := fun n => by
    by_cases hn : n ∈ saved.root :: Tree.valuesOf ts
    · exact (List.mem_cons.1 hn).imp_right Or.inl
    · exact Or.inr (Or.inr (habsent n hn))
  refine ⟨⟨hg.root.trans (hd.root.trans hroot), fun n => ?_, fun n => ?_, fun n => ?_⟩,
    fun hplaced hvisual n => ?_⟩
  · rcases hcases n with rfl | hn | ⟨hn, hn'⟩
    · rw [w.contains_root, Graph.contains_eq_sheet, hsheet, hlive]
    · rw [(hg.below n hn).1, (hmem n).1 (List.mem_cons_of_mem _ hn)]
    · rw [hn, hn']
  · rcases hcases n with rfl | hn | ⟨hn, hn'⟩
    · rw [hg.parent, hd.children, hbare, hchild]
      rfl
    · exact (hg.below n hn).2
    · rw [Graph.childIds_of_absent hn, Graph.childIds_of_absent hn']
  · rcases hcases n with rfl | hn | ⟨hn, hn'⟩
    · rw [Graph.nodeSpec_eq l.graph, hsheet, hspec]
    · exact hg.spec n hn
    · rw [Graph.nodeSpec_of_absent hn, Graph.nodeSpec_of_absent hn']
  · rcases hcases n with rfl | hn | ⟨hn, hn'⟩
    · rw [Graph.nodeVisual_eq l.graph, hsheet, hvisual]
    · exact hg.visual hplaced n hn
    · rw [Graph.nodeVisual_of_absent hn, Graph.nodeVisual_of_absent hn']

/-- At the start the top-level group is there, and all else that is asked for is free. -/
theorem initialGraph_saved (w : saved.WellFormed) (ho : saved.Own) {d : BehavioralDocument}
    (hd : d.root = (saved.outline saved.root).map saved.nodeSpec) {name : String}
    (hname : (saved.nodeSpec saved.root).name = name) :
    d.initialGraph.root = saved.root ∧ (∀ n, d.initialGraph.childIds n = []) ∧
      d.initialGraph.sheet saved.root =
        { node := some { name := name, parent := none, kind := .group {} } } ∧
      (∀ n, n ≠ saved.root → (d.initialGraph.sheet n).node = none) ∧
      ∀ i ∈ (saved.outline saved.root).values.flatMap saved.claims, i ≠ saved.root →
        d.initialGraph.Free i ∧ i ≠ 0 := by
  obtain ⟨next, hinit, hlt⟩ := initialGraph_eq d
  have hvalue : d.root.value = saved.nodeSpec saved.root := by
    rw [hd, Tree.value_map, Graph.value_outline]
  rw [hvalue, id_nodeSpec, hname] at hinit
  rw [hd, Tree.values_map, List.flatMap_map] at hlt
  rw [hinit]
  refine ⟨rfl, Graph.elim_group?_withRoot Group.children rfl,
    by rw [Graph.sheet_withRoot, if_pos rfl], fun n hn => by rw [Graph.sheet_withRoot, if_neg hn],
    fun i hi hne => ⟨Graph.free_withRoot (hlt i hi) hne, ?_⟩⟩
  obtain ⟨n, hn, hi⟩ := List.mem_flatMap.1 hi
  have hn := w.mem_outline.1 hn
  rcases w.mem_claims hn hi with rfl | hi
  · exact ho.node_ids i hn hne
  · exact ho.bus_ids i (Graph.contains_of_busOwner? hi)

/-- Once the top-level group is filled in, all that is asked for below it is still free. -/
theorem ready_of_draws {g₀ : Graph} {l₁ : Loading} {s : Sheet} {c : List Id}
    (hd : Graph.Draws g₀ saved.root s c l₁.graph) (hgroup : (s.node.bind Node.group?).isSome = true)
    (hc : c ⊆ saved.claims saved.root)
    (hasks : (saved.claims saved.root ++ (Tree.valuesOf ts).flatMap saved.claims).Nodup)
    (hfree : ∀ i ∈ saved.claims saved.root ++ (Tree.valuesOf ts).flatMap saved.claims,
      i ≠ saved.root → g₀.Free i ∧ i ≠ 0) : Ready saved l₁ saved.root ts where
  wellFormed := hd.wellFormed
  group := by
    rw [Graph.isSome_group?_eq, hd.sheet]
    exact hgroup
  free i hi := by
    have hapart : i ∉ saved.claims saved.root := fun h => (List.nodup_append.1 hasks).2.2 i h i hi rfl
    obtain ⟨hf, h0⟩ := hfree i (List.mem_append_right _ hi) fun he =>
      hapart (he ▸ mem_claims_self saved _)
    exact ⟨hd.free i (fun h => hapart (hc h)) hf, h0⟩
  nodup := (List.nodup_append.1 hasks).2.1

/-- What is saved of a whole graph grows again from its top-level group. -/
theorem fillRoot_looks (w : saved.WellFormed) (ho : saved.Own) {d : BehavioralDocument}
    (hd : d.root = (saved.outline saved.root).map saved.nodeSpec) {l : Loading}
    (hl : ({ graph := d.initialGraph } : Loading).fillRoot options d.root
      (some ((saved.outline saved.root).map saved.nodeVisual)) = l) :
    l.graph.WellFormed ∧ Graph.Looks saved l.graph ∧
      (saved.Placed → (∀ n, l.graph.nodeVisual n = saved.nodeVisual n) ∧ l.diagnostics = []) := by
  obtain ⟨m, x, hm, hk⟩ := w.exists_root_group
  have hname : (saved.nodeSpec saved.root).name = m.name := by
    rw [Graph.nodeSpec_eq, Sheet.spec_group hm hk]
  obtain ⟨hroot, hbare, hsheet, hblank, hfree⟩ := initialGraph_saved w ho hd hname
  have hspan := w.spans_outline
  have hmem := fun n => w.mem_outline (n := n)
  have hnodup : (saved.outline saved.root).values.Nodup :=
    Graph.outlineWithin_nodup w.tree w.contains_root
  have hasks := w.flatMap_claims_nodup hnodup fun n hn => (hmem n).1 hn
  have hvalue := saved.value_outline saved.root
  generalize saved.outline saved.root = t at *
  obtain ⟨v, ts⟩ := t
  obtain rfl : v = saved.root := hvalue
  obtain ⟨-, hchild, hspans⟩ := hspan
  have hasks : (saved.claims saved.root ++ (Tree.valuesOf ts).flatMap saved.claims).Nodup := hasks
  have hfree : ∀ i ∈ saved.claims saved.root ++ (Tree.valuesOf ts).flatMap saved.claims,
    i ≠ saved.root → d.initialGraph.Free i ∧ i ≠ 0 := hfree
  have hclaims := Graph.claims_group hm hk
  -- the group at the top is filled in
  simp only [Loading.fillRoot, hd, Tree.value_map, Tree.children_map, Tree.value_node,
    Tree.children_node, id_nodeSpec, Option.map_some, Option.elim_some, Tree.length_mapAll] at hl
  rw [Loading.staleAll_drop _ _ _ _ _ rfl, Graph.nodeSpec_eq saved saved.root,
    Graph.nodeVisual_eq saved saved.root] at hl
  generalize hl₁ : Loading.fillGroup options _ _ _ _ _ = l₁ at hl
  have hsheet : ({ graph := d.initialGraph } : Loading).graph.sheet saved.root =
    { node := some { name := m.name, parent := none, kind := .group {} } } := hsheet
  obtain ⟨s, hdraws, hgroup, hspec, hvisual⟩ := Loading.fillGroup_draws (w.sheet_sound saved.root) hm
    hk (Graph.kept_unwired.initialGraph d (Graph.withRoot_unwired _ _)).1 hsheet rfl rfl
    (fun y hy => hfree y.1 (List.mem_append_left _ (by
      rw [hclaims]; exact List.mem_cons_of_mem _ (List.mem_map_of_mem hy)))
      fun he => w.ne_bus w.contains_root (he ▸ w.owner_of_mem_sheet hy)) hl₁
  -- and all else grows below it
  have hready : Ready saved l₁ saved.root ts := ready_of_draws hdraws hgroup
    (hclaims ▸ List.subset_cons_self _ _) hasks hfree
  have hg := Loading.addTrees_grafts w options 0 ts hspans hready
  rw [hl] at hg
  obtain ⟨hlooks, hpictured⟩ := Grafts.looks w hmem (List.nodup_cons.1 hnodup).1 hchild hroot hbare hblank
    hdraws (Option.isSome_of_isSome_bind hgroup) (hspec.trans (Graph.nodeSpec_eq saved _).symm) hg
  refine ⟨hg.wellFormed, hlooks, fun hplaced => ?_⟩
  obtain ⟨hv, hquiet⟩ := hvisual fun y hy => hplaced.bus_rect hy
  exact ⟨hpictured hplaced (hv.trans (Graph.nodeVisual_eq saved _).symm),
    (hg.quiet hplaced).trans hquiet⟩

end Root

end MessageGraph
