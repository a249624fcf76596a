import MessageGraph.Proofs.Graph.Add
import MessageGraph.Graph.Outline
import Mathlib.Data.List.Nodup
import Mathlib.Data.List.Perm.Subperm

/-!
# The tree below a node

`descendants` looks as many generations deep as the graph has nodes, which is deep enough: a chain of
parents up to the top never comes back to a node (`Generations.lt_size`), so what it lists are exactly
the nodes below (`mem_descendants`), each once (`outlineWithin_nodup`). `Spans` says without a depth that a
tree is the tree below its top; there is one such tree (`Spans.unique`). The endpoints of a node are those
that belong to it (`WellFormed.mem_endpointsOf`).
-/
namespace MessageGraph.Graph

variable {g g' : Graph}

/-! ## Generations -/

/-- A node is so many parents below another one. -/
inductive Generations (g : Graph) : Nat → Id → Id → Prop
  | zero (n : Id) : Generations g 0 n n
  | succ {k : Nat} {c p top : Id} (hc : g.parent? c = some p) (h : Generations g k p top) :
    Generations g (k + 1) c top

namespace Generations

theorem trans {j k : Nat} {x n top : Id} (h : Generations g j x n) (h' : Generations g k n top) :
    Generations g (j + k) x top := by
  induction h with
  | zero => simpa using h'
  | succ hc _ ih =>
    rw [Nat.succ_add]
    exact succ hc (ih h')

/-- The last step of a chain is to a child of its top. -/
theorem last {k : Nat} {x top : Id} (h : Generations g (k + 1) x top) :
    ∃ c, g.parent? c = some top ∧ Generations g k x c := by
  induction k generalizing x with
  | zero =>
    cases h with
    | succ hc h =>
      cases h
      exact ⟨x, hc, zero x⟩
  | succ k ih =>
    cases h with
    | succ hc h =>
      obtain ⟨c, hc', h'⟩ := ih h
      exact ⟨c, hc', succ hc h'⟩

/-- There is one way up to the top, so one number of generations. -/
theorem unique {j k : Nat} {x top : Id} (ht : g.parent? top = none) (h : Generations g j x top)
    (h' : Generations g k x top) : j = k := by
  induction h generalizing k with
  | zero n =>
    cases h' with
    | zero => rfl
    | succ hc _ => rw [ht] at hc; cases hc
  | succ hc _ ih =>
    cases h' with
    | zero => rw [ht] at hc; cases hc
    | succ hc' h' =>
      rw [hc] at hc'
      cases hc'
      rw [ih ht h']

/-- The nodes of a chain up to the top, each once. -/
theorem chain {k : Nat} {x top : Id} (ht : g.parent? top = none) (hl : g.nodes.contains top = true)
    (h : Generations g k x top) :
    ∃ l : List Id, l.length = k + 1 ∧ l.Nodup ∧
      ∀ y ∈ l, g.nodes.contains y = true ∧ ∃ j, j ≤ k ∧ Generations g j y top := by
  induction h with
  | zero n =>
    refine ⟨[n], rfl, by simp, fun y hy => ?_⟩
    rw [List.mem_singleton] at hy
    subst hy
    exact ⟨hl, 0, Nat.le_refl 0, zero y⟩
  | @succ k c p top hc h ih =>
    obtain ⟨l, hlen, hnd, hall⟩ := ih ht hl
    refine ⟨c :: l, by rw [List.length_cons, hlen], List.nodup_cons.2 ⟨fun hm => ?_, hnd⟩, ?_⟩
    · obtain ⟨-, j, hj, hgen⟩ := hall c hm
      have : k + 1 = j := (succ hc h).unique ht hgen
      omega
    · intro y hy
      rcases List.mem_cons.1 hy with hy | hy
      · subst hy
        exact ⟨contains_of_parent? hc, k + 1, Nat.le_refl _, succ hc h⟩
      · obtain ⟨hy', j, hj, hgen⟩ := hall y hy
        exact ⟨hy', j, Nat.le_succ_of_le hj, hgen⟩

theorem lt_size {k : Nat} {x top : Id} (ht : g.parent? top = none)
    (hl : g.nodes.contains top = true) (h : Generations g k x top) : k < g.nodes.size := by
  obtain ⟨l, hlen, hnd, hall⟩ := h.chain ht hl
  have hle : l.length ≤ g.nodes.ids.length :=
    (List.subperm_of_subset hnd fun y hy => IdMap.mem_ids_iff.2 (hall y hy).1).length_le
  have hsize : g.nodes.ids.length = g.nodes.size := List.length_map ..
  omega

theorem toBelow {k : Nat} {x top : Id} (h : Generations g k x top) : g.Below x top := by
  induction h with
  | zero n => exact Relation.ReflTransGen.refl
  | succ hc _ ih => exact Relation.ReflTransGen.head hc ih

end Generations

theorem Below.generations {x top : Id} (h : g.Below x top) : ∃ k, Generations g k x top := by
  refine Relation.ReflTransGen.head_induction_on h ⟨0, .zero top⟩ ?_
  intro c p hc _ ih
  obtain ⟨k, hk⟩ := ih
  exact ⟨k + 1, .succ hc hk⟩

/-! ## Descendants -/

theorem mem_childrenOf (w : g.IsTree) {n c : Id} : c ∈ g.childrenOf n ↔ g.parent? c = some n := by
  rw [← w.children.mem_iff]
  unfold childrenOf childIds
  cases hs : g.group? n with
  | none => rfl
  | some s =>
    simp only [Option.elim_some, List.mem_filter, and_iff_left_iff_imp]
    intro hc
    have hp : c ∈ g.childIds n := (childIds_of_group? hs).symm ▸ hc
    exact contains_of_parent? (w.children.mem_iff.1 hp)

theorem mem_outlineWithin (w : g.IsTree) {depth : Nat} {n x : Id} :
    x ∈ (g.outlineWithin depth n).values ↔ ∃ k, k ≤ depth ∧ Generations g k x n := by
  induction depth generalizing n with
  | zero =>
    simp only [outlineWithin, Tree.values, Tree.valuesOf, List.mem_singleton, Nat.le_zero]
    constructor
    · intro h
      subst h
      exact ⟨0, rfl, .zero x⟩
    · intro h
      obtain ⟨k, rfl, h⟩ := h
      cases h
      rfl
  | succ depth ih =>
    simp only [outlineWithin, Tree.values, Tree.valuesOf_eq_flatMap, List.mem_cons,
      List.mem_flatMap, List.mem_map, exists_exists_and_eq_and, mem_childrenOf w, ih]
    constructor
    · intro h
      rcases h with h | ⟨c, hc, k, hk, h⟩
      · subst h
        exact ⟨0, Nat.zero_le _, .zero x⟩
      · exact ⟨k + 1, Nat.succ_le_succ hk, h.trans (.succ hc (.zero n))⟩
    · intro h
      obtain ⟨k, hk, h⟩ := h
      cases k with
      | zero => cases h; exact Or.inl rfl
      | succ k =>
        obtain ⟨c, hc, h⟩ := h.last
        exact Or.inr ⟨c, hc, k, Nat.le_of_succ_le_succ hk, h⟩

/-- Nothing is as many generations below a node of the graph as the graph has nodes. -/
theorem IsTree.generations_lt_size (w : g.IsTree) {k : Nat} {n x : Id} (hn : g.nodes.contains n = true)
    (h : Generations g k x n) : k < g.nodes.size := by
  obtain ⟨j, hj⟩ := (w.rooted hn).generations
  obtain ⟨s, hs⟩ := w.root_group
  have hlt := (h.trans hj).lt_size w.root_top (contains_of_group? hs)
  omega

/-- A node is among the descendants of another exactly if it is that one or below it. -/
theorem mem_descendants (w : g.IsTree) {n x : Id} (hn : g.nodes.contains n = true) :
    x ∈ g.descendants n ↔ g.Below x n := by
  unfold descendants outline
  rw [mem_outlineWithin w]
  constructor
  · intro h
    obtain ⟨k, -, h⟩ := h
    exact h.toBelow
  · intro h
    obtain ⟨k, hk⟩ := h.generations
    exact ⟨k, Nat.le_of_lt (w.generations_lt_size hn hk), hk⟩

theorem WellFormed.contains_root (w : g.WellFormed) : g.nodes.contains g.root = true := by
  obtain ⟨s, hs⟩ := w.tree.root_group
  exact contains_of_group? hs

/-! ## The outline lists a node once -/

namespace Generations

/-- The chain of parents from a node passes one node at each height. -/
theorem eq_of_same {k : Nat} {x n m : Id} (h : Generations g k x n) (h' : Generations g k x m) :
    n = m := by
  induction h with
  | zero => cases h'; rfl
  | succ hc _ ih =>
    cases h' with
    | succ hc' h' =>
      rw [hc] at hc'
      cases hc'
      exact ih h'

end Generations

/-- Everything below a node of the graph is so many generations below it, and no other number. -/
theorem IsTree.generations_unique (w : g.IsTree) {j k : Nat} {x n : Id}
    (hn : g.nodes.contains n = true) (h : Generations g j x n) (h' : Generations g k x n) :
    j = k := by
  obtain ⟨i, hi⟩ := (w.rooted hn).generations
  have := (h.trans hi).unique w.root_top (h'.trans hi)
  omega

theorem childrenOf_nodup (w : g.IsTree) (n : Id) : (g.childrenOf n).Nodup := by
  have h := w.children.nodup n
  unfold childIds at h
  unfold childrenOf
  cases hs : g.group? n with
  | none => exact List.Pairwise.nil
  | some s =>
    rw [hs] at h
    exact h.filter _

theorem values_outlineWithin_succ (g : Graph) (depth : Nat) (n : Id) :
    (g.outlineWithin (depth + 1) n).values =
      n :: (g.childrenOf n).flatMap fun c => (g.outlineWithin depth c).values := by
  simp only [outlineWithin, Tree.values, Tree.valuesOf_eq_flatMap, List.flatMap_map]

theorem outlineWithin_nodup (w : g.IsTree) {depth : Nat} {n : Id}
    (hn : g.nodes.contains n = true) : (g.outlineWithin depth n).values.Nodup := by
  induction depth generalizing n with
  | zero => exact List.nodup_singleton n
  | succ depth ih =>
    have hchild : ∀ {c}, c ∈ g.childrenOf n → g.parent? c = some n := (mem_childrenOf w).1
    rw [values_outlineWithin_succ, List.nodup_cons, List.nodup_flatMap]
    refine ⟨fun h => ?_, fun c hc => ih (contains_of_parent? (hchild hc)), ?_⟩
    · -- nothing is below itself
      obtain ⟨c, hc, h⟩ := List.mem_flatMap.1 h
      obtain ⟨k, -, hk⟩ := (mem_outlineWithin w).1 h
      have := w.generations_unique hn (hk.trans (.succ (hchild hc) (.zero n))) (.zero n)
      omega
    · refine (childrenOf_nodup w n).imp_of_mem fun {c d} hc hd hne x hxc hxd => hne ?_
      obtain ⟨j, -, hj⟩ := (mem_outlineWithin w).1 hxc
      obtain ⟨k, -, hk⟩ := (mem_outlineWithin w).1 hxd
      have hjk := w.generations_unique hn (hj.trans (.succ (hchild hc) (.zero n)))
        (hk.trans (.succ (hchild hd) (.zero n)))
      have : j = k := by omega
      subst this
      exact hj.eq_of_same hk

/-! ## Trees that span what is below -/

theorem childrenOf_eq (w : g.IsTree) (n : Id) : g.childrenOf n = g.childIds n := by
  have hlive : ∀ c ∈ g.childIds n, g.nodes.contains c = true := fun c hc =>
    contains_of_parent? (w.children.mem_iff.1 hc)
  unfold childIds at hlive
  unfold childrenOf childIds
  cases hs : g.group? n with
  | none => rfl
  | some s =>
    rw [hs] at hlive
    exact List.filter_eq_self.2 hlive

mutual

/-- A tree of ids is the tree of nodes below the one at its top. -/
def Spans (g : Graph) : Tree Id → Prop
  | .node n ts => g.nodes.contains n = true ∧ g.childIds n = ts.map Tree.value ∧ g.SpansAll ts

def SpansAll (g : Graph) : List (Tree Id) → Prop
  | [] => True
  | t :: ts => g.Spans t ∧ g.SpansAll ts

end

theorem spansAll_iff {ts : List (Tree Id)} : g.SpansAll ts ↔ ∀ t ∈ ts, g.Spans t := by
  induction ts with
  | nil => simp [SpansAll]
  | cons t ts ih => simp [SpansAll, ih]

theorem spans_outlineWithin (w : g.IsTree) {depth : Nat} {n : Id} (hn : g.nodes.contains n = true)
    (hdeep : ∀ {k x}, Generations g k x n → k < depth) : g.Spans (g.outlineWithin depth n) := by
  induction depth generalizing n with
  | zero => exact absurd (hdeep (.zero n)) (Nat.not_lt_zero 0)
  | succ depth ih =>
    refine ⟨hn, ?_, spansAll_iff.2 fun t ht => ?_⟩
    · have hvalue : ∀ c, (g.outlineWithin depth c).value = c := fun c => by cases depth <;> rfl
      rw [List.map_map, ← childrenOf_eq w]
      exact (List.map_id'' hvalue _).symm
    · obtain ⟨c, hc, rfl⟩ := List.mem_map.1 ht
      have hc := (mem_childrenOf w).1 hc
      exact ih (contains_of_parent? hc) fun hx =>
        Nat.lt_of_succ_lt_succ (hdeep (hx.trans (.succ hc (.zero n))))

/-- The outline of a node is the tree of what is below it. -/
theorem IsTree.spans_outline (w : g.IsTree) {n : Id} (hn : g.nodes.contains n = true) :
    g.Spans (g.outline n) :=
  spans_outlineWithin w hn fun h => w.generations_lt_size hn h

theorem WellFormed.spans_outline (w : g.WellFormed) : g.Spans (g.outline g.root) :=
  w.tree.spans_outline w.contains_root

theorem value_outline (g : Graph) (n : Id) : (g.outline n).value = n := by
  unfold outline
  cases g.nodes.size <;> rfl

mutual

/-- One tree spans what is below a node. -/
theorem Spans.unique : (t t' : Tree Id) → g.Spans t → g.Spans t' → t.value = t'.value → t = t'
  | .node n ts, .node n' ts', h, h', hv => by
    obtain rfl : n = n' := hv
    rw [SpansAll.unique ts ts' h.2.2 h'.2.2 (h.2.1.symm.trans h'.2.1)]

theorem SpansAll.unique : (ts ts' : List (Tree Id)) → g.SpansAll ts → g.SpansAll ts' →
    ts.map Tree.value = ts'.map Tree.value → ts = ts'
  | [], [], _, _, _ => rfl
  | [], _ :: _, _, _, hv => by cases hv
  | _ :: _, [], _, _, hv => by cases hv
  | t :: ts, t' :: ts', h, h', hv => by
    obtain ⟨hv, hvs⟩ := List.cons.inj hv
    rw [Spans.unique t t' h.1 h'.1 hv, SpansAll.unique ts ts' h.2 h'.2 hvs]

end

mutual

/-- A tree spans the same nodes in every graph that has them with the same children. -/
theorem Spans.congr : (t : Tree Id) → g.Spans t →
    (∀ n ∈ t.values, g'.nodes.contains n = true ∧ g'.childIds n = g.childIds n) → g'.Spans t
  | .node n ts, h, hs =>
    ⟨(hs n List.mem_cons_self).1, (hs n List.mem_cons_self).2.trans h.2.1,
      SpansAll.congr ts h.2.2 fun m hm => hs m (List.mem_cons_of_mem n hm)⟩

theorem SpansAll.congr : (ts : List (Tree Id)) → g.SpansAll ts →
    (∀ n ∈ Tree.valuesOf ts, g'.nodes.contains n = true ∧ g'.childIds n = g.childIds n) →
      g'.SpansAll ts
  | [], _, _ => trivial
  | t :: ts, h, hs =>
    ⟨Spans.congr t h.1 fun n hn => hs n (List.mem_append_left _ hn),
      SpansAll.congr ts h.2 fun n hn => hs n (List.mem_append_right _ hn)⟩

end

theorem Spans.contains {t : Tree Id} (h : g.Spans t) : g.nodes.contains t.value = true := by
  cases t
  exact h.1

/-- What a tree that spans a node lists are the descendants of the node. -/
theorem Spans.values_eq (w : g.IsTree) {t : Tree Id} (h : g.Spans t) :
    t.values = g.descendants t.value := by
  rw [descendants, ← h.unique _ _ (w.spans_outline h.contains) (value_outline g t.value).symm]

/-- The descendants of a node are the node and then those of its children, child by child in its order. -/
theorem IsTree.descendants_eq (w : g.IsTree) {n : Id} (hn : g.nodes.contains n = true) :
    g.descendants n = n :: (g.childIds n).flatMap g.descendants := by
  have hspans := w.spans_outline hn
  have hvalue := value_outline g n
  unfold descendants
  cases ht : g.outline n with
  | node m ts =>
    rw [ht] at hspans hvalue
    obtain rfl : m = n := hvalue
    obtain ⟨-, hchildren, hbelow⟩ := hspans
    rw [Tree.values, Tree.valuesOf_eq_flatMap, hchildren, List.flatMap_map]
    congr 1
    exact List.flatMap_congr fun t hmem => (spansAll_iff.1 hbelow t hmem).values_eq w

/-- The nodes of the outline of the whole graph are all there are. -/
theorem WellFormed.mem_outline (w : g.WellFormed) {n : Id} :
    n ∈ (g.outline g.root).values ↔ g.nodes.contains n = true := by
  refine (mem_descendants w.tree w.contains_root).trans ⟨fun h => ?_, w.tree.rooted⟩
  obtain ⟨k, h⟩ := h.generations
  cases h with
  | zero => exact w.contains_root
  | succ hc _ => exact contains_of_parent? hc

/-! ## The node of an endpoint -/

/-- The node that has an endpoint: the source of a pin, the group of a gate or of a tack's bus. -/
def nodeOf? (g : Graph) : Endpoint → Option Id
  | .pin id => g.pinOwner? id
  | .proxy id => g.gateOwner? id
  | .pad id => g.gateOwner? id
  | .tack id => (g.tackOwner? id).bind g.busOwner?

/-- An endpoint is that of a group or of another node, or of a node below it. -/
def Inside (g : Graph) (group : Id) (e : Endpoint) : Prop :=
  ∃ n, g.nodeOf? e = some n ∧ g.Below n group

theorem endpointsOf_source {n : Id} {s : Source} (h : g.source? n = some s) :
    g.endpointsOf n = s.pins.map Endpoint.pin := by
  obtain ⟨m, hm, hk⟩ := source?_eq_some_iff.1 h
  simp only [endpointsOf, hm, hk]

theorem endpointsOf_group {n : Id} {s : Group} (h : g.group? n = some s) :
    g.endpointsOf n = s.gates.flatMap (fun id => [Endpoint.pad id, Endpoint.proxy id]) ++
      s.buses.flatMap fun id => (g.bus? id).elim [] fun b => b.tacks.map Endpoint.tack := by
  obtain ⟨m, hm, hk⟩ := group?_eq_some_iff.1 h
  simp only [endpointsOf, hm, hk]

theorem source?_of_mem_elim {n i : Id} {view : Source → List Id}
    (h : i ∈ (g.source? n).elim [] view) : ∃ s, g.source? n = some s ∧ i ∈ view s := by
  cases hs : g.source? n with
  | none => rw [hs] at h; cases h
  | some s => exact ⟨s, rfl, by rwa [hs] at h⟩

theorem group?_of_mem_elim {n i : Id} {view : Group → List Id}
    (h : i ∈ (g.group? n).elim [] view) : ∃ s, g.group? n = some s ∧ i ∈ view s := by
  cases hs : g.group? n with
  | none => rw [hs] at h; cases h
  | some s => rw [hs] at h; exact ⟨s, rfl, h⟩

/-- An endpoint is among those of its node. -/
theorem WellFormed.mem_endpointsOf (w : g.WellFormed) {e : Endpoint} {n : Id}
    (h : g.nodeOf? e = some n) : e ∈ g.endpointsOf n := by
  cases e with
  | pin i =>
    have hi : i ∈ g.pinIds n := w.pins.mem_iff.2 h
    obtain ⟨s, hs, hi⟩ := source?_of_mem_elim hi
    rw [endpointsOf_source hs]
    exact List.mem_map_of_mem hi
  | proxy i =>
    have hi : i ∈ g.gateIds n := w.gates.mem_iff.2 h
    obtain ⟨s, hs, hi⟩ := group?_of_mem_elim hi
    rw [endpointsOf_group hs]
    exact List.mem_append_left _ (List.mem_flatMap.2 ⟨i, hi, by simp⟩)
  | pad i =>
    have hi : i ∈ g.gateIds n := w.gates.mem_iff.2 h
    obtain ⟨s, hs, hi⟩ := group?_of_mem_elim hi
    rw [endpointsOf_group hs]
    exact List.mem_append_left _ (List.mem_flatMap.2 ⟨i, hi, by simp⟩)
  | tack i =>
    obtain ⟨b, hb, hn⟩ := Option.bind_eq_some_iff.1 h
    have hi : i ∈ g.tackIds b := w.tacks.mem_iff.2 hb
    have hb' : b ∈ g.busIds n := w.buses.mem_iff.2 hn
    obtain ⟨s, hs, hb'⟩ := group?_of_mem_elim hb'
    rw [endpointsOf_group hs]
    refine List.mem_append_right _ (List.mem_flatMap.2 ⟨b, hb', ?_⟩)
    unfold tackIds at hi
    cases hbus : g.bus? b with
    | none => rw [hbus] at hi; cases hi
    | some x => rw [hbus] at hi; exact List.mem_map.2 ⟨i, hi, rfl⟩

end MessageGraph.Graph
