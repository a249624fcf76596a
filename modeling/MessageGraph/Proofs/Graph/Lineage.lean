import MessageGraph.Proofs.Graph.Outline
import MessageGraph.Blueprint.Split

/-!
# What is around a node

The lineage of a node is looked up as many generations high as the graph has nodes, which is high enough: it is
all the nodes that the node is `Below` (`IsTree.mem_lineage`). So it is known without a bound whether a link is
around a node (`WellFormed.insideLink_iff`), and what nodes a document has: those with nothing imported from them
up to the top (`WellFormed.mem_ownTree`).

New content leaves both as they were: a graph that only grows by imported children has the same tree of nodes of
its own (`ownTree_eq_of_grown`).
-/
namespace MessageGraph

namespace Tree

variable {α : Type} {keep : α → Bool}

theorem value_prune (t : Tree α) : (t.prune keep).value = t.value := by
  cases t
  rfl

theorem pruneAll_eq_nil (ts : List (Tree α)) (h : ∀ t ∈ ts, keep t.value = false) :
    pruneAll keep ts = [] := by
  induction ts with
  | nil => rfl
  | cons t ts ih =>
    rw [pruneAll, h t List.mem_cons_self]
    exact ih fun u hu => h u (List.mem_cons_of_mem t hu)

end Tree

namespace Graph

variable {g g' : Graph} {n m : Id}

/-! ## The lineage -/

theorem mem_ancestry {bound : Nat} : m ∈ g.ancestry bound n ↔ ∃ k, k < bound ∧ Generations g k n m := by
  induction bound generalizing n with
  | zero =>
    refine ⟨nofun, ?_⟩
    rintro ⟨k, hk, -⟩
    cases hk
  | succ bound ih =>
    rw [ancestry, List.mem_cons]
    constructor
    · rintro (rfl | hm)
      · exact ⟨0, Nat.succ_pos _, .zero _⟩
      · cases hp : g.parent? n with
        | none => rw [hp] at hm; cases hm
        | some p =>
          rw [hp] at hm
          obtain ⟨k, hk, h⟩ := ih.1 hm
          exact ⟨k + 1, Nat.succ_lt_succ hk, .succ hp h⟩
    · rintro ⟨k, hk, h⟩
      cases h with
      | zero => exact Or.inl rfl
      | succ hp h =>
        rw [hp]
        exact Or.inr (ih.2 ⟨_, Nat.lt_of_succ_lt_succ hk, h⟩)

theorem IsTree.contains_parent (w : g.IsTree) (h : g.parent? n = some m) :
    g.nodes.contains m = true := by
  have hn : n ∈ g.childIds m := w.children.mem_iff.2 h
  unfold childIds at hn
  obtain ⟨s, hs, -⟩ := group?_of_mem_elim hn
  exact contains_of_group? hs

theorem IsTree.contains_of_below (w : g.IsTree) (hn : g.nodes.contains n = true) (h : g.Below n m) :
    g.nodes.contains m = true := by
  rcases Relation.ReflTransGen.cases_tail h with rfl | ⟨c, -, hc⟩
  · exact hn
  · exact w.contains_parent hc

/-- The lineage of a node is all that it is below. -/
theorem IsTree.mem_lineage (w : g.IsTree) (hn : g.nodes.contains n = true) :
    m ∈ g.lineage n ↔ g.Below n m := by
  rw [lineage, mem_ancestry]
  constructor
  · rintro ⟨k, -, h⟩
    exact h.toBelow
  · intro h
    obtain ⟨k, hk⟩ := h.generations
    have hlt := w.generations_lt_size (w.contains_of_below hn h) hk
    exact ⟨k, by omega, hk⟩

/-- A bound above all generations over a node could as well be higher. -/
theorem ancestry_succ {bound : Nat} (h : ∀ {k m}, Generations g k n m → k < bound) :
    g.ancestry (bound + 1) n = g.ancestry bound n := by
  induction bound generalizing n with
  | zero => exact absurd (h (.zero n)) (Nat.not_lt_zero 0)
  | succ bound ih =>
    rw [ancestry, ancestry]
    cases hp : g.parent? n with
    | none => rfl
    | some p => exact congrArg (n :: ·) (ih fun hk => Nat.lt_of_succ_lt_succ (h (.succ hp hk)))

/-- The lineage of a node is the node and the lineage of its parent. -/
theorem IsTree.lineage_eq (w : g.IsTree) (n : Id) :
    g.lineage n = n :: (g.parent? n).elim [] g.lineage := by
  rw [lineage, ancestry]
  cases hp : g.parent? n with
  | none => rfl
  | some p =>
    refine congrArg (n :: ·) (ancestry_succ fun hk => ?_).symm
    exact w.generations_lt_size (w.contains_of_below (w.contains_parent hp) hk.toBelow) hk

/-! ## Links around a node -/

def isLink (g : Graph) (n : Id) : Bool := ((g.group? n).bind (·.link)).isSome

/-- A group is inside a link if it is one or something around it is. -/
theorem WellFormed.insideLink_iff (w : g.WellFormed) (hn : g.nodes.contains n = true) :
    g.insideLink n = true ↔ ∃ m, g.Below n m ∧ g.isLink m = true := by
  rw [insideLink, List.any_eq_true]
  refine exists_congr fun m => and_congr (w.tree.mem_lineage hn) (iff_of_eq (congrArg (· = true) ?_))
  unfold isLink
  cases g.group? m <;> rfl

theorem below_congr (w : g.IsTree) (h : ∀ {m}, g.nodes.contains m = true → g'.parent? m = g.parent? m)
    (hn : g.nodes.contains n = true) : g'.Below n m ↔ g.Below n m := by
  constructor
  · intro hb
    induction hb using Relation.ReflTransGen.head_induction_on with
    | refl => exact .refl
    | head hc _ ih =>
      rw [h hn] at hc
      exact .head hc (ih (w.contains_parent hc))
  · intro hb
    induction hb using Relation.ReflTransGen.head_induction_on with
    | refl => exact .refl
    | head hc _ ih => exact .head ((h hn).trans hc) (ih (w.contains_parent hc))

/-- A link is around a node as long as it is around it and its parents stay. -/
theorem WellFormed.insideLink_congr (w : g.WellFormed) (w' : g'.WellFormed)
    (hlive : ∀ {m}, g.nodes.contains m = true → g'.nodes.contains m = true)
    (hparent : ∀ {m}, g.nodes.contains m = true → g'.parent? m = g.parent? m)
    (hlink : ∀ {m}, g.nodes.contains m = true → g'.isLink m = g.isLink m)
    (hn : g.nodes.contains n = true) : g'.insideLink n = g.insideLink n := by
  refine Bool.eq_iff_iff.2 ?_
  rw [w'.insideLink_iff (hlive hn), w.insideLink_iff hn]
  refine exists_congr fun m => ?_
  rw [below_congr w.tree hparent hn]
  refine and_congr_right fun hb => ?_
  rw [hlink (w.tree.contains_of_below hn hb)]

/-! ## Nodes of the model itself -/

/-- A node with nothing imported from it up to the top. What is at the top is never left out. -/
structure IsOwn (g : Graph) (n : Id) : Prop where
  live : g.nodes.contains n = true
  own : ∀ {m}, g.Below n m → m ≠ g.root → ∃ x, g.node? m = some x ∧ x.imported = false

/-- The test for the nodes that a document keeps. -/
def isKept (g : Graph) (n : Id) : Bool := (g.node? n).elim false fun x => !x.imported

theorem isKept_iff : g.isKept n = true ↔ ∃ x, g.node? n = some x ∧ x.imported = false := by
  unfold isKept
  cases g.node? n with
  | none => simp
  | some x => simp

mutual

/-- A node stays in a pruned tree if all from it up to the top pass. -/
theorem mem_prune {keep : Id → Bool} (w : g.IsTree) : (t : Tree Id) → g.Spans t →
    (n ∈ (t.prune keep).values ↔ Relation.ReflTransGen
      (fun child parent => g.parent? child = some parent ∧ keep child = true) n t.value)
  | .node v ts, h => by
    rw [Tree.prune, Tree.values, List.mem_cons, mem_pruneAll w ts h.2.2, Tree.value]
    constructor
    · rintro (rfl | ⟨t, ht, hkeep, hn⟩)
      · exact .refl
      · have hv : t.value ∈ g.childIds v := h.2.1 ▸ List.mem_map_of_mem ht
        exact hn.tail ⟨w.children.mem_iff.1 hv, hkeep⟩
    · intro hn
      rcases Relation.ReflTransGen.cases_tail hn with rfl | ⟨c, hn, hc, hkeep⟩
      · exact Or.inl rfl
      · have hv : c ∈ g.childIds v := w.children.mem_iff.2 hc
        rw [h.2.1] at hv
        obtain ⟨t, ht, rfl⟩ := List.mem_map.1 hv
        exact Or.inr ⟨t, ht, hkeep, hn⟩

theorem mem_pruneAll {keep : Id → Bool} (w : g.IsTree) : (ts : List (Tree Id)) → g.SpansAll ts →
    (n ∈ Tree.valuesOf (Tree.pruneAll keep ts) ↔ ∃ t ∈ ts, keep t.value = true ∧
      Relation.ReflTransGen
        (fun child parent => g.parent? child = some parent ∧ keep child = true) n t.value)
  | [], _ => by simp [Tree.pruneAll, Tree.valuesOf]
  | t :: ts, h => by
    rw [Tree.pruneAll, List.exists_mem_cons_iff, ← mem_pruneAll w ts h.2, ← mem_prune w t h.1]
    cases hkeep : keep t.value with
    | true => simp [Tree.valuesOf]
    | false => simp

end

theorem value_ownTree (g : Graph) : g.ownTree.value = g.root :=
  (Tree.value_prune _).trans (value_outline g g.root)

/-- The tree of a document has the nodes with nothing imported from them up to the top. -/
theorem WellFormed.mem_ownTree (w : g.WellFormed) : n ∈ g.ownTree.values ↔ g.IsOwn n := by
  have hmem : n ∈ g.ownTree.values ↔ Relation.ReflTransGen
      (fun child parent => g.parent? child = some parent ∧ g.isKept child = true) n g.root := by
    have h := @mem_prune g n g.isKept w.tree (g.outline g.root) w.spans_outline
    rw [value_outline] at h
    exact h
  rw [hmem]
  clear hmem
  constructor
  · intro h
    induction h using Relation.ReflTransGen.head_induction_on with
    | refl =>
      refine ⟨w.contains_root, fun hb hm => ?_⟩
      rcases Relation.ReflTransGen.cases_head hb with rfl | ⟨p, hp, -⟩
      · exact absurd rfl hm
      · rw [w.tree.root_top] at hp
        cases hp
    | head hc _ ih =>
      refine ⟨contains_of_parent? hc.1, fun hb hm => ?_⟩
      rcases Relation.ReflTransGen.cases_head hb with rfl | ⟨p, hp, hb⟩
      · exact isKept_iff.1 hc.2
      · cases hc.1.symm.trans hp
        exact ih.own hb hm
  · rintro ⟨hlive, hown⟩
    have hroot := w.tree.rooted hlive
    induction hroot using Relation.ReflTransGen.head_induction_on with
    | refl => exact .refl
    | head hc _ ih =>
      refine .head ⟨hc, isKept_iff.2 (hown .refl fun he => ?_)⟩
        (ih (w.tree.contains_parent hc) fun hb => hown (.head hc hb))
      rw [he, w.tree.root_top] at hc
      cases hc

/-! ## Imported children are left out -/

mutual

/-- Children that are refused make no difference to a pruned tree. -/
theorem prune_eq_of_grown {keep keep' : Id → Bool}
    (hchildren : ∀ {m}, g.nodes.contains m = true →
      ∃ new, (∀ x ∈ new, keep' x = false) ∧ g'.childIds m = g.childIds m ++ new)
    (hkeep : ∀ {m}, g.nodes.contains m = true → keep' m = keep m) :
    (t t' : Tree Id) → g.Spans t → g'.Spans t' → t'.value = t.value → t'.prune keep' = t.prune keep
  | .node v ts, .node v' ts', h, h', hv => by
    obtain rfl : v' = v := hv
    obtain ⟨new, hnew, heq⟩ := hchildren h.1
    rw [h.2.1, h'.2.1] at heq
    rw [Tree.prune, Tree.prune, pruneAll_eq_of_grown hchildren hkeep ts ts' h.2.2 h'.2.2 hnew heq]

theorem pruneAll_eq_of_grown {keep keep' : Id → Bool}
    (hchildren : ∀ {m}, g.nodes.contains m = true →
      ∃ new, (∀ x ∈ new, keep' x = false) ∧ g'.childIds m = g.childIds m ++ new)
    (hkeep : ∀ {m}, g.nodes.contains m = true → keep' m = keep m) :
    (ts ts' : List (Tree Id)) → g.SpansAll ts → g'.SpansAll ts' → {new : List Id} →
      (∀ x ∈ new, keep' x = false) → ts'.map Tree.value = ts.map Tree.value ++ new →
      Tree.pruneAll keep' ts' = Tree.pruneAll keep ts
  | [], ts', _, _, new, hnew, heq => by
    refine Tree.pruneAll_eq_nil ts' fun t ht => hnew _ ?_
    rw [List.map_nil, List.nil_append] at heq
    exact heq ▸ List.mem_map_of_mem ht
  | _ :: _, [], _, _, _, _, heq => by cases heq
  | t :: ts, t' :: ts', h, h', new, hnew, heq => by
    obtain ⟨hv, hvs⟩ := List.cons.inj heq
    rw [Tree.pruneAll, Tree.pruneAll, hv, hkeep h.1.contains, prune_eq_of_grown hchildren hkeep t t' h.1 h'.1 hv,
      pruneAll_eq_of_grown hchildren hkeep ts ts' h.2 h'.2 hnew hvs]

end

/-- A graph that only grows by imported children has the same tree of nodes of its own. -/
theorem ownTree_eq_of_grown (w : g.WellFormed) (w' : g'.WellFormed) (hroot : g'.root = g.root)
    (hchildren : ∀ {m}, g.nodes.contains m = true →
      ∃ new, (∀ x ∈ new, g'.isKept x = false) ∧ g'.childIds m = g.childIds m ++ new)
    (hkeep : ∀ {m}, g.nodes.contains m = true → g'.isKept m = g.isKept m) :
    g'.ownTree = g.ownTree :=
  prune_eq_of_grown hchildren hkeep _ _ w.spans_outline w'.spans_outline (by
    rw [value_outline, value_outline, hroot])

end Graph
end MessageGraph
