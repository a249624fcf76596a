import MessageGraph.Program.Compile
import MessageGraph.Proofs.Graph.Lineage

/-!
# What flattening lists

A node is live if no group that it is in has a broken link (`isLive_iff`). Flattening lists, node by node in the
order of the outline, what runs in the live nodes (`elements_eq`): their sources and filtered buses
(`mem_elements_iff`), each once (`elements_nodup`). In a graph without broken links these are all that there are
(`mem_elements`). Binding behaviors keeps them all (`importAll_elements`). A program is made of what is described of
them (`described`).
-/
namespace MessageGraph.Graph

variable {g : Graph}

/-- No link of the graph is broken. -/
def Unbroken (g : Graph) : Prop :=
  ∀ id s link, g.group? id = some s → s.link = some link → link.isBroken = false

/-- A graph none of whose nodes has a link has no broken one. -/
theorem unbroken_of_all (h : (g.nodes.entries.all fun e => (e.2.group?.bind (·.link)).isNone) = true) :
    g.Unbroken := by
  intro id s link hs hl
  obtain ⟨n, hn, hs⟩ := Option.bind_eq_some_iff.1 hs
  have hnone := List.all_eq_true.1 h _ (IdMap.get?_eq_some_iff.1 hn)
  simp only [hs, Option.bind_some, hl, Option.isNone_some, Bool.false_eq_true] at hnone

/-! ## Elements -/

/-- What runs in a node itself: a source, or the filters of a group. -/
def elementsOf (g : Graph) (id : Id) : List Element :=
  match g.node? id with
  | none => []
  | some n =>
    match n.kind with
    | .source _ => [.source id]
    | .group s => (g.filteredBuses s).map Element.filter

theorem elementsOf_source {n : Id} {s : Source} (h : g.source? n = some s) :
    g.elementsOf n = [.source n] := by
  obtain ⟨m, hm, hk⟩ := source?_eq_some_iff.1 h
  simp only [elementsOf, hm, hk]

theorem elementsOf_group {n : Id} {s : Group} (h : g.group? n = some s) :
    g.elementsOf n = (g.filteredBuses s).map Element.filter := by
  obtain ⟨m, hm, hk⟩ := group?_eq_some_iff.1 h
  simp only [elementsOf, hm, hk]

theorem mem_filteredBuses {s : Group} {bus : Id} :
    bus ∈ g.filteredBuses s ↔ bus ∈ s.buses ∧ ∃ b, g.bus? bus = some b ∧ b.isFiltered = true := by
  unfold filteredBuses
  rw [List.mem_filter]
  refine and_congr_right fun _ => ?_
  cases g.bus? bus with
  | none => simp
  | some b => simp

/-- A node runs itself if it is a source, and the filtered buses that stand in it. -/
theorem mem_elementsOf (w : g.WellFormed) {n : Id} {e : Element} :
    e ∈ g.elementsOf n ↔
      (e = .source n ∧ ∃ s, g.source? n = some s) ∨
        ∃ bus b, e = .filter bus ∧ g.bus? bus = some b ∧ b.group = n ∧ b.isFiltered = true := by
  have howner : ∀ {bus b}, g.bus? bus = some b → (bus ∈ g.busIds n ↔ b.group = n) := by
    intro bus b hb
    rw [w.buses.mem_iff, busOwner?, hb, Option.map_some, Option.some.injEq]
  constructor
  · intro h
    unfold elementsOf at h
    cases hn : g.node? n with
    | none => rw [hn] at h; cases h
    | some m =>
      rw [hn] at h
      cases hk : m.kind with
      | source s =>
        simp only [hk, List.mem_singleton] at h
        exact Or.inl ⟨h, s, source?_of_kind hn hk⟩
      | group s =>
        simp only [hk, List.mem_map, mem_filteredBuses] at h
        obtain ⟨bus, ⟨hmem, b, hb, hf⟩, rfl⟩ := h
        refine Or.inr ⟨bus, b, rfl, hb, (howner hb).1 ?_, hf⟩
        rw [busIds_of_group? (group?_of_kind hn hk)]
        exact hmem
  · intro h
    rcases h with ⟨rfl, s, hs⟩ | ⟨bus, b, rfl, hb, hgroup, hf⟩
    · rw [elementsOf_source hs]
      exact List.mem_singleton.2 rfl
    · obtain ⟨s, hs, hmem⟩ := group?_of_mem_elim ((howner hb).2 hgroup)
      rw [elementsOf_group hs]
      exact List.mem_map_of_mem (mem_filteredBuses.2 ⟨hmem, b, hb, hf⟩)

theorem elementsOf_nodup (w : g.WellFormed) (n : Id) : (g.elementsOf n).Nodup := by
  unfold elementsOf
  cases hn : g.node? n with
  | none => exact List.Pairwise.nil
  | some m =>
    cases hk : m.kind with
    | source s => simp only [hk]; exact List.nodup_singleton _
    | group s =>
      simp only [hk]
      have hnd := w.buses.nodup n
      rw [busIds_of_group? (group?_of_kind hn hk)] at hnd
      exact (hnd.filter _).map fun a b h => Element.filter.inj h

/-! ## What is left out -/

/-- A group whose link is broken. -/
def IsBroken (g : Graph) (id : Id) : Prop :=
  ∃ s link, g.group? id = some s ∧ s.link = some link ∧ link.isBroken = true

theorem Unbroken.not_isBroken (h : g.Unbroken) (id : Id) : ¬ g.IsBroken id := by
  rintro ⟨s, link, hs, hl, hb⟩
  rw [h id s link hs hl] at hb
  cases hb

theorem isBroken_iff {id : Id} {s : Group} (hs : g.group? id = some s) :
    g.IsBroken id ↔ (brokenLink? s).isSome = true := by
  have hlink : g.IsBroken id ↔ ∃ link, s.link = some link ∧ link.isBroken = true := by
    refine ⟨?_, fun ⟨link, hl, hb⟩ => ⟨s, link, hs, hl, hb⟩⟩
    rintro ⟨s', link, hs', hl, hb⟩
    cases hs.symm.trans hs'
    exact ⟨link, hl, hb⟩
  rw [hlink]
  unfold Graph.brokenLink? Link.isBroken
  cases hl : s.link with
  | none => simp
  | some link => cases hst : link.state <;> simp [hst]

/-- The test for the nodes at which flattening stops. -/
def isSkipped (g : Graph) (n : Id) : Bool := ((g.group? n).bind brokenLink?).isSome

theorem isSkipped_iff {n : Id} : g.isSkipped n = true ↔ g.IsBroken n := by
  unfold isSkipped
  cases hs : g.group? n with
  | none =>
    refine ⟨nofun, ?_⟩
    rintro ⟨s, -, hs', -⟩
    cases hs.symm.trans hs'
  | some s => exact (isBroken_iff hs).symm

/-- Whether what stands in a node runs: flattening is not stopped at it or above it. -/
def isLive (g : Graph) (n : Id) : Bool := (g.lineage n).all fun m => !g.isSkipped m

/-- A node is live if no group that it is in, at any depth, has a broken link. -/
theorem isLive_iff (w : g.IsTree) {n : Id} (hn : g.nodes.contains n = true) :
    g.isLive n = true ↔ ∀ m, g.Below n m → ¬ g.IsBroken m := by
  simp only [isLive, List.all_eq_true, w.mem_lineage hn, Bool.not_eq_true', ← isSkipped_iff,
    Bool.not_eq_true]

theorem isLive_eq_false_of_below (w : g.IsTree) {n m : Id} (hn : g.nodes.contains n = true)
    (h : g.Below n m) (hm : g.isSkipped m = true) : g.isLive n = false := by
  refine Bool.eq_false_iff.2 fun hlive => ?_
  exact (isLive_iff w hn).1 hlive m h (isSkipped_iff.1 hm)

/-- A node is live if it is not skipped itself and the group that it is in, if any, is live. -/
theorem isLive_of_parent (w : g.IsTree) {n : Id} (hn : g.nodes.contains n = true)
    (h : g.isSkipped n = false) (hparent : ∀ p, g.parent? n = some p → g.isLive p = true) :
    g.isLive n = true := by
  refine (isLive_iff w hn).2 fun m hm => ?_
  rcases Relation.ReflTransGen.cases_head hm with rfl | ⟨p, hp, hm⟩
  · rw [← isSkipped_iff, h]
    exact Bool.false_ne_true
  · exact (isLive_iff w (w.contains_parent hp)).1 (hparent p hp) m hm

/-! ## Flattening -/

theorem elements_append (a b : Flattened) : (a ++ b).elements = a.elements ++ b.elements := rfl

/-- Flattening a node stops at a broken link, and otherwise gives what runs in the node before what runs in
its children. -/
theorem elements_flatten_node {id : Id} {ts : List (Tree Id)}
    (hts : g.childIds id = ts.map Tree.value) :
    (g.flatten (.node id ts)).elements =
      if g.isSkipped id then [] else g.elementsOf id ++ (g.flattenAll ts).elements := by
  have hnone : g.childIds id = [] → (g.flattenAll ts).elements = [] := fun h => by
    rw [List.map_eq_nil_iff.1 (hts.symm.trans h)]
    rfl
  unfold flatten elementsOf isSkipped
  cases hn : g.node? id with
  | none =>
    have hgroup : g.group? id = none := by rw [group?, hn]; rfl
    rw [hgroup, hnone (childIds_of_no_group hgroup)]
    rfl
  | some m =>
    cases hk : m.kind with
    | source q =>
      have hgroup := group?_of_source? (source?_of_kind hn hk)
      rw [hgroup, hnone (childIds_of_no_group hgroup)]
      simp only [hk]
      rfl
    | group s =>
      have hs := group?_of_kind hn hk
      rw [hs, Option.bind_some]
      simp only [hk]
      cases hb : brokenLink? s with
      | some reason => rfl
      | none =>
        simp only [Option.isSome_none, Bool.false_eq_true, if_false]
        split
        · -- a group with nothing in it has no children to list
          rename_i h
          rw [hnone ((childIds_of_group? hs).trans h.1), h.2]
          rfl
        · rfl

mutual

/-- Flattening a tree whose top stands in no skipped group lists what runs in its live nodes, node by node in
its order. -/
theorem elements_flatten (w : g.IsTree) : (o : Tree Id) → g.Spans o →
    (∀ p, g.parent? o.value = some p → g.isLive p = true) →
    (g.flatten o).elements = (o.values.filter g.isLive).flatMap g.elementsOf
  | .node id ts, h, hparent => by
    rw [elements_flatten_node h.2.1]
    cases hs : g.isSkipped id with
    | true =>
      have hdead : ∀ n ∈ (Tree.node id ts).values, ¬ g.isLive n = true := by
        intro n hn
        rw [h.values_eq w] at hn
        have hbelow := (mem_descendants w h.1).1 hn
        have hlive : g.nodes.contains n = true := by
          rcases Relation.ReflTransGen.cases_head hbelow with rfl | ⟨p, hp, -⟩
          · exact h.1
          · exact contains_of_parent? hp
        rw [isLive_eq_false_of_below w hlive hbelow hs]
        exact Bool.false_ne_true
      rw [List.filter_eq_nil_iff.2 hdead]
      rfl
    | false =>
      have hlive := isLive_of_parent w h.1 hs hparent
      have hbelow : ∀ t ∈ ts, ∀ p, g.parent? t.value = some p → g.isLive p = true := by
        intro t ht p hp
        have hc : t.value ∈ g.childIds id := h.2.1 ▸ List.mem_map_of_mem ht
        cases hp.symm.trans (w.children.mem_iff.1 hc)
        exact hlive
      rw [Tree.values, List.filter_cons_of_pos hlive, List.flatMap_cons,
        ← elements_flattenAll w ts h.2.2 hbelow]
      rfl

theorem elements_flattenAll (w : g.IsTree) : (os : List (Tree Id)) → g.SpansAll os →
    (∀ o ∈ os, ∀ p, g.parent? o.value = some p → g.isLive p = true) →
    (g.flattenAll os).elements = ((Tree.valuesOf os).filter g.isLive).flatMap g.elementsOf
  | [], _, _ => rfl
  | o :: os, h, hparent => by
    rw [flattenAll, elements_append, Tree.valuesOf, List.filter_append, List.flatMap_append,
      elements_flatten w o h.1 (hparent o List.mem_cons_self),
      elements_flattenAll w os h.2 fun o' ho' => hparent o' (List.mem_cons_of_mem o ho')]

end

/-- What flattening the graph lists. -/
def elements (g : Graph) : List Element := (g.flatten (g.outline g.root)).elements

/-- Flattening the graph lists what runs in its live nodes. -/
theorem elements_eq (w : g.WellFormed) :
    g.elements = ((g.descendants g.root).filter g.isLive).flatMap g.elementsOf := by
  refine elements_flatten w.tree _ w.spans_outline fun p hp => ?_
  rw [value_outline, w.tree.root_top] at hp
  cases hp

theorem WellFormed.contains_group (w : g.WellFormed) {bus : Id} {b : Bus}
    (hb : g.bus? bus = some b) : g.nodes.contains b.group = true := by
  have hmem : bus ∈ g.busIds b.group :=
    w.buses.mem_iff.2 (by rw [busOwner?, hb]; rfl)
  obtain ⟨s, hs, -⟩ := group?_of_mem_elim hmem
  exact contains_of_group? hs

/-- What runs in a node is listed exactly if no group at or above the node has a broken link. -/
theorem mem_elements_iff (w : g.WellFormed) {e : Element} :
    e ∈ g.elements ↔ ∃ n, e ∈ g.elementsOf n ∧ ∀ m, g.Below n m → ¬ g.IsBroken m := by
  have hlive : ∀ {n}, e ∈ g.elementsOf n → g.nodes.contains n = true := by
    intro n he
    rcases (mem_elementsOf w).1 he with ⟨-, s, hs⟩ | ⟨bus, b, -, hb, rfl, -⟩
    · exact contains_of_source? hs
    · exact w.contains_group hb
  rw [elements_eq w, List.mem_flatMap]
  constructor
  · rintro ⟨n, hn, he⟩
    exact ⟨n, he, (isLive_iff w.tree (hlive he)).1 (List.mem_filter.1 hn).2⟩
  · rintro ⟨n, he, hn⟩
    refine ⟨n, List.mem_filter.2 ⟨w.mem_outline.2 (hlive he), ?_⟩, he⟩
    exact (isLive_iff w.tree (hlive he)).2 hn

/-- Nothing is listed but sources and filtered buses. -/
theorem exists_of_mem_elements (w : g.WellFormed) {e : Element} (h : e ∈ g.elements) :
    (∃ n s, e = .source n ∧ g.source? n = some s) ∨
      ∃ bus b, e = .filter bus ∧ g.bus? bus = some b ∧ b.isFiltered = true := by
  obtain ⟨n, he, -⟩ := (mem_elements_iff w).1 h
  rcases (mem_elementsOf w).1 he with ⟨rfl, s, hs⟩ | ⟨bus, b, rfl, hb, -, hf⟩
  · exact Or.inl ⟨n, s, rfl, hs⟩
  · exact Or.inr ⟨bus, b, rfl, hb, hf⟩

/-- Without broken links every source and every filtered bus is listed. -/
theorem mem_elements (w : g.WellFormed) (hu : g.Unbroken) {e : Element} :
    e ∈ g.elements ↔
      (∃ n s, e = .source n ∧ g.source? n = some s) ∨
        ∃ bus b, e = .filter bus ∧ g.bus? bus = some b ∧ b.isFiltered = true := by
  refine ⟨exists_of_mem_elements w, fun h => (mem_elements_iff w).2 ?_⟩
  rcases h with ⟨n, s, rfl, hs⟩ | ⟨bus, b, rfl, hb, hf⟩
  · exact ⟨n, (mem_elementsOf w).2 (Or.inl ⟨rfl, s, hs⟩), fun m _ => hu.not_isBroken m⟩
  · exact ⟨b.group, (mem_elementsOf w).2 (Or.inr ⟨bus, b, rfl, hb, rfl, hf⟩),
      fun m _ => hu.not_isBroken m⟩

/-- What runs in one node does not run in another. -/
theorem eq_of_mem_elementsOf (w : g.WellFormed) {n m : Id} {e : Element} (hn : e ∈ g.elementsOf n)
    (hm : e ∈ g.elementsOf m) : n = m := by
  rcases (mem_elementsOf w).1 hn with ⟨rfl, -⟩ | ⟨bus, b, rfl, hb, rfl, -⟩
  · rcases (mem_elementsOf w).1 hm with ⟨he, -⟩ | ⟨bus, b, he, -⟩
    · exact Element.source.inj he
    · cases he
  · rcases (mem_elementsOf w).1 hm with ⟨he, -⟩ | ⟨bus', b', he, hb', rfl, -⟩
    · cases he
    · cases he
      cases hb.symm.trans hb'
      rfl

theorem elements_nodup (w : g.WellFormed) : g.elements.Nodup := by
  rw [elements_eq w, List.nodup_flatMap]
  refine ⟨fun n _ => elementsOf_nodup w n, ?_⟩
  exact ((outlineWithin_nodup w.tree w.contains_root).filter _).imp fun hne _ hn hm =>
    hne (eq_of_mem_elementsOf w hn hm)

/-! ## Bindings -/

/-- Elements that have a behavior are all bound, in their order. -/
theorem importAll_elements {options : Options} {es : List Element} {m : Manifest}
    (h : ∀ e, e ∈ es → (g.behaviorOf? e).isSome = true) :
    (g.importAll options es m).1.map (·.1) = es := by
  induction es generalizing m with
  | nil => rfl
  | cons e es ih =>
    obtain ⟨⟨behavior, node⟩, hb⟩ := Option.isSome_iff_exists.1 (h e List.mem_cons_self)
    simp only [importAll, hb, List.map_cons]
    rw [ih fun e' he' => h e' (List.mem_cons_of_mem e he')]

theorem behaviorOf?_isSome (w : g.WellFormed) {e : Element} (he : e ∈ g.elements) :
    (g.behaviorOf? e).isSome = true := by
  rcases exists_of_mem_elements w he with ⟨n, s, rfl, hs⟩ | ⟨bus, b, rfl, hb, hf⟩
  · simp only [behaviorOf?, hs, Option.map_some, Option.isSome_some]
  · simp only [behaviorOf?, hb, Option.bind_some, Option.isSome_map]
    exact hf

/-! ## Descriptions -/

section Described

variable {t : Tables} {options : Options}

/-- Everything that compiling describes. -/
def described (g : Graph) (t : Tables) (options : Options) : List Described :=
  (g.importAll options g.elements { separator := options.aliasSeparator }).1.filterMap
    fun (e, binding) => g.describe? t binding e

theorem name_compileWith : (g.compileWith t options).program.name = g.name := rfl

theorem imports_compileWith : (g.compileWith t options).program.imports =
    (g.importAll options g.elements { separator := options.aliasSeparator }).2.1 := rfl

theorem nodes_compileWith : (g.compileWith t options).program.nodes =
    (g.described t options).filterMap Described.node? := rfl

theorem filters_compileWith : (g.compileWith t options).program.filters =
    (g.described t options).filterMap Described.filter? := rfl

theorem diagnostics_compileWith : (g.compileWith t options).diagnostics =
    (g.flatten (g.outline g.root)).diagnostics ++
      (g.importAll options g.elements { separator := options.aliasSeparator }).2.2 ++
      (if options.reportEmptyRows then (g.described t options).flatMap Described.emptyRowReports
        else []) := rfl

theorem stats_compileWith : (g.compileWith t options).stats =
    { groups := (g.flatten (g.outline g.root)).groups
      sources := (g.compileWith t options).program.nodes.length
      filters := (g.compileWith t options).program.filters.length
      rows := ((g.described t options).flatMap Described.rows).length
      emptyRows := (((g.described t options).flatMap Described.rows).filter Row.isEmpty).length
      imports := (g.compileWith t options).program.imports.size
      brokenLinks := (g.flatten (g.outline g.root)).brokenLinks } := rfl

end Described

end MessageGraph.Graph
