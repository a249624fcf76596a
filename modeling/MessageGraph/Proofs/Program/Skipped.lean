import MessageGraph.Proofs.Program.Declared

/-!
# What a skipped group contributes

Compiling skips a group whose link is broken. A program then has descriptors for exactly the sources and
filtered buses that no such group holds (`mem_nodes_iff`, `mem_filters_iff`). Destinations come from the
tables, which know of no links: one that such a group holds is there only where a route leads into the group
(`skipped_destinations`), and there it is (`skipped_reached`).
-/
namespace MessageGraph

namespace Graph

variable {g : Graph} {t : Tables} {options : Options}

/-- A group holds a source or a bus, at any depth. -/
def Holds (g : Graph) (group id : Id) : Prop :=
  ((∃ s, g.source? id = some s) ∧ g.Below id group) ∨ ∃ b, g.bus? id = some b ∧ g.Below b.group group

/-! ## Descriptors -/

theorem source_mem_elements_iff (w : g.WellFormed) {n : Id} : Element.source n ∈ g.elements ↔
    (∃ s, g.source? n = some s) ∧ ∀ m, g.IsBroken m → ¬ g.Below n m := by
  rw [mem_elements_iff w]
  constructor
  · rintro ⟨x, he, hfree⟩
    rcases (mem_elementsOf w).1 he with ⟨hx, hs⟩ | ⟨bus, b, hx, -⟩
    · cases hx
      exact ⟨hs, fun m hm hb => hfree m hb hm⟩
    · cases hx
  · rintro ⟨hs, hfree⟩
    exact ⟨n, (mem_elementsOf w).2 (Or.inl ⟨rfl, hs⟩), fun m hb hm => hfree m hm hb⟩

theorem filter_mem_elements_iff (w : g.WellFormed) {bus : Id} : Element.filter bus ∈ g.elements ↔
    ∃ b, g.bus? bus = some b ∧ b.isFiltered = true ∧ ∀ m, g.IsBroken m → ¬ g.Below b.group m := by
  rw [mem_elements_iff w]
  constructor
  · rintro ⟨n, he, hfree⟩
    rcases (mem_elementsOf w).1 he with ⟨hx, -⟩ | ⟨bus', b, hx, hb, rfl, hf⟩
    · cases hx
    · cases hx
      exact ⟨b, hb, hf, fun m hm hb => hfree m hb hm⟩
  · rintro ⟨b, hb, hf, hfree⟩
    exact ⟨b.group, (mem_elementsOf w).2 (Or.inr ⟨bus, b, rfl, hb, rfl, hf⟩),
      fun m hb hm => hfree m hm hb⟩

/-- The nodes of a program are the sources that stand in no group with a broken link. -/
theorem mem_nodes_iff (w : g.WellFormed) {n : Id} :
    n ∈ (g.compileWith t options).program.nodes.map (·.id) ↔
      (∃ s, g.source? n = some s) ∧ ∀ m, g.IsBroken m → ¬ g.Below n m := by
  rw [nodeIds_compileWith w, ← source_mem_elements_iff w, List.mem_filterMap]
  constructor
  · rintro ⟨e, he, hn⟩
    cases e <;> cases hn
    exact he
  · exact fun he => ⟨_, he, rfl⟩

/-- The filters of a program are the filtered buses that stand in no group with a broken link. -/
theorem mem_filters_iff (w : g.WellFormed) {bus : Id} :
    bus ∈ (g.compileWith t options).program.filters.map (·.bus) ↔
      ∃ b, g.bus? bus = some b ∧ b.isFiltered = true ∧ ∀ m, g.IsBroken m → ¬ g.Below b.group m := by
  rw [filterBuses_compileWith w, ← filter_mem_elements_iff w, List.mem_filterMap]
  constructor
  · rintro ⟨e, he, hbus⟩
    cases e <;> cases hbus
    exact he
  · exact fun he => ⟨_, he, rfl⟩

theorem not_holds_of_node (w : g.WellFormed) {group : Id} (hg : g.IsBroken group)
    {n : NodeDescriptor} (hn : n ∈ (g.compileWith t options).program.nodes) :
    ¬ g.Holds group n.id := by
  obtain ⟨⟨s, hs⟩, hfree⟩ := (mem_nodes_iff w).1 (List.mem_map_of_mem hn)
  rintro (⟨-, hbelow⟩ | ⟨b, hb, -⟩)
  · exact hfree group hg hbelow
  · exact w.node_or_bus (contains_of_source? hs) (IdMap.contains_of_get? hb)

theorem not_holds_of_filter (w : g.WellFormed) {group : Id} (hg : g.IsBroken group)
    {f : FilterDescriptor} (hf : f ∈ (g.compileWith t options).program.filters) :
    ¬ g.Holds group f.bus := by
  obtain ⟨b, hb, -, hfree⟩ := (mem_filters_iff w).1 (List.mem_map_of_mem hf)
  rintro (⟨⟨s, hs⟩, -⟩ | ⟨b', hb', hbelow⟩)
  · exact w.node_or_bus (contains_of_source? hs) (IdMap.contains_of_get? hb)
  · cases hb.symm.trans hb'
    exact hfree group hg hbelow

/-! ## Destinations -/

/-- No row is about an origin inside a skipped group. -/
theorem RowFrom.not_inside (w : g.WellFormed) {group : Id} (hg : g.IsBroken group) {row : Row}
    {o : Endpoint} (h : g.RowFrom (g.compileWith t options).program row o) :
    ¬ g.Inside group o := by
  rintro ⟨n, hn, hbelow⟩
  cases h with
  | pin hnode _ hq hid =>
    simp only [nodeOf?, pinOwner?, hq, Option.map_some, Option.some.injEq] at hn
    rw [← hn, hid] at hbelow
    exact ((mem_nodes_iff w).1 (List.mem_map_of_mem hnode)).2 group hg hbelow
  | tack hf _ hk hbus =>
    obtain ⟨b, hb, -, hfree⟩ := (mem_filters_iff w).1 (List.mem_map_of_mem hf)
    simp only [nodeOf?, tackOwner?, hk, Option.map_some, Option.bind_some, busOwner?, hbus, hb,
      Option.some.injEq] at hn
    rw [← hn] at hbelow
    exact hfree group hg hbelow

/-- A message gets inside a group by a route that leads in. -/
theorem Reaches.entry {name : String} {o e : Endpoint} {group : Id} (h : g.Reaches name o e)
    (ho : ¬ g.Inside group o) :
    ¬ g.Inside group e ∨ ∃ x far, g.Reaches name o x ∧ g.Crosses x far ∧ ¬ g.Inside group x ∧
      g.Inside group far := by
  -- the other side of a gate and the other tacks of a bus are inside with what a route leads to
  have hstep : ∀ {x far next}, g.Reaches name o x → g.Crosses x far →
      g.nodeOf? next = g.nodeOf? far → ¬ g.Inside group x →
      ¬ g.Inside group next ∨ ∃ x far, g.Reaches name o x ∧ g.Crosses x far ∧
        ¬ g.Inside group x ∧ g.Inside group far := by
    intro x far next hx hc hsame hout
    by_cases hin : g.Inside group far
    · exact Or.inr ⟨x, far, hx, hc, hout, hin⟩
    · refine Or.inl ?_
      unfold Inside at hin ⊢
      rw [hsame]
      exact hin
  induction h with
  | start => exact Or.inl ho
  | leave he hc _ ih => exact ih.elim (hstep he hc rfl) Or.inr
  | enter he hc ih => exact ih.elim (hstep he hc rfl) Or.inr
  | spread he hc hk _ _ hl hbus _ _ ih =>
    refine ih.elim (hstep he hc ?_) Or.inr
    simp only [nodeOf?, tackOwner?, hk, hl, Option.map_some, hbus]

/-- Where a message comes to an endpoint inside a group, some route on its way leads into the group. -/
theorem Crosses.entry {name : String} {o e far : Endpoint} {group : Id} (hc : g.Crosses e far)
    (he : g.Reaches name o e) (ho : ¬ g.Inside group o) (hin : g.Inside group far) :
    ∃ x far, g.Reaches name o x ∧ g.Crosses x far ∧ ¬ g.Inside group x ∧ g.Inside group far := by
  rcases he.entry ho with hout | hentry
  · exact ⟨e, far, he, hc, hout, hin⟩
  · exact hentry

/-- A destination that a group holds was reached at an endpoint inside the group. -/
theorem exists_inside_of_holds (w : g.WellFormed) {o : Endpoint} {target : Target}
    (ha : Tables.Admits g o target) {variant : String} {fromPattern : Bool} {d : Destination}
    (hd : g.destination? variant fromPattern target = some d) {group : Id}
    (hh : g.Holds group d.ownerId) :
    ∃ e far, g.Reaches (g.nameOf o) o e ∧ g.Crosses e far ∧ g.Inside group far := by
  obtain ⟨received, -, hd⟩ := Option.bind_eq_some_iff.1 hd
  -- the top-level group is neither a source nor a bus
  have htop : ∀ {m : Node}, g.node? g.root = some m → ¬ g.Holds group g.root := by
    rintro m hm (⟨⟨s, hs⟩, -⟩ | ⟨b, hb, -⟩)
    · obtain ⟨r, hr⟩ := w.tree.root_group
      cases (group?_of_source? hs).symm.trans hr
    · exact w.node_or_bus (IdMap.contains_of_get? hm) (IdMap.contains_of_get? hb)
  rcases ha with hdel | ⟨gate, p, rfl, -⟩
  · cases hdel with
    | @pin e i p he hc hp _ =>
      obtain ⟨m, hm, rfl⟩ := Option.map_eq_some_iff.1 hd
      refine ⟨e, .pin i, he, hc, p.node, by rw [nodeOf?, pinOwner?, hp]; rfl, ?_⟩
      rcases hh with ⟨-, hbelow⟩ | ⟨b, hb, -⟩
      · exact hbelow
      · exact (w.node_or_bus (IdMap.contains_of_get? hm) (IdMap.contains_of_get? hb)).elim
    | @tack e i k b he hc hk hb _ =>
      obtain ⟨b', hb', rfl⟩ := Option.map_eq_some_iff.1 hd
      refine ⟨e, .tack i, he, hc, b.group, ?_, ?_⟩
      · simp only [nodeOf?, tackOwner?, hk, Option.map_some, Option.bind_some, busOwner?, hb]
      · rcases hh with ⟨⟨s, hs⟩, -⟩ | ⟨b'', hb'', hbelow⟩
        · exact (w.node_or_bus (contains_of_source? hs) (IdMap.contains_of_get? hb)).elim
        · cases hb.symm.trans hb''
          exact hbelow
    | boundary _ _ _ hroot _ _ =>
      obtain ⟨m, hm, rfl⟩ := Option.map_eq_some_iff.1 hd
      rw [hroot] at hm hh
      exact absurd hh (htop hm)
  · obtain ⟨m, hm, rfl⟩ := Option.map_eq_some_iff.1 hd
    exact absurd hh (htop hm)

end Graph

namespace Blueprint

variable {b : Blueprint}

/-- Whether compiled against the live tables or from scratch, a program has no descriptor for what a group with a
broken link holds, and a destination there only where a route leads into the group, along the way of the
row's messages. -/
theorem skipped_destinations (hb : b.Reachable) {t : Tables}
    (ht : t = b.tables ∨ t = Tables.build b.graph) (options : Options) {group : Id}
    (hg : b.graph.IsBroken group) :
    (∀ n, n ∈ (b.graph.compileWith t options).program.nodes → ¬ b.graph.Holds group n.id) ∧
    (∀ f, f ∈ (b.graph.compileWith t options).program.filters → ¬ b.graph.Holds group f.bus) ∧
    ∀ row, row ∈ (b.graph.compileWith t options).program.rows → ∀ d, d ∈ row.destinations →
      b.graph.Holds group d.ownerId →
        ∃ o e far, b.graph.RowFrom (b.graph.compileWith t options).program row o ∧
          b.graph.Reaches (b.graph.nameOf o) o e ∧ b.graph.Crosses e far ∧
          ¬ b.graph.Inside group e ∧ b.graph.Inside group far := by
  have w := hb.wellFormed
  have hs : t.Sound b.graph := by
    rcases ht with rfl | rfl
    · exact hb.sound
    · exact (Tables.build_of b.graph).sound w
  refine ⟨fun n => Graph.not_holds_of_node w hg, fun f => Graph.not_holds_of_filter w hg,
    fun row hrow d hd hh => ?_⟩
  obtain ⟨o, target, fromPattern, hfrom, htarget, hdest⟩ := Graph.exists_target_of_mem_row w hrow hd
  obtain ⟨e, far, he, hc, hin⟩ := Graph.exists_inside_of_holds w
    (hs.admits (hs.isOrigin_of_mem htarget) htarget) hdest hh
  obtain ⟨x, far, hentry⟩ := hc.entry he (hfrom.not_inside w hg) hin
  exact ⟨o, x, far, hfrom, hentry⟩

/-- A source that sends through a gate of a group to a source in it, where the group's link is broken. -/
def severed : Blueprint :=
  (new "main").run
    [.edit (.addSource none 1 "X" { identifier := "x" }), .edit (.addPin 2 "go" .output false),
      .edit (.addGroup none 1 "G"), .edit (.addGate 4 "go" .input false),
      .edit (.addSource none 4 "Y" { identifier := "y" }), .edit (.addPin 6 "go" .input false),
      .connect (.pin 3) (.pad 5), .connect (.proxy 5) (.pin 7), .edit (.setLink 4 "lib"),
      .markLinkBroken 4 "not found"]

theorem severed_reachable : severed.Reachable := .run_new "main" rfl

theorem severed_broken : severed.graph.IsBroken 4 := by
  obtain ⟨s, hs⟩ : ∃ s, severed.graph.group? 4 = some s := Option.isSome_iff_exists.1 (by cbv)
  have hlink : ((severed.graph.group? 4).bind Graph.brokenLink?).isSome = true := by cbv
  rw [hs] at hlink
  exact (Graph.isBroken_iff hs).2 hlink

theorem severed_holds : severed.graph.Holds 4 6 := by
  refine Or.inl ⟨Option.isSome_iff_exists.1 (by cbv), .single ?_⟩
  cbv

theorem skipped_destinations_severed :
    severed.Reachable ∧ severed.graph.IsBroken 4 ∧
      ∃ o e far, severed.graph.RowFrom (severed.compile {}).program ⟨"go", [⟨"go", "Y", 6⟩]⟩ o ∧
        severed.graph.Reaches (severed.graph.nameOf o) o e ∧ severed.graph.Crosses e far ∧
        ¬ severed.graph.Inside 4 e ∧ severed.graph.Inside 4 far := by
  have hrows : (severed.compile {}).program.rows = [⟨"go", [⟨"go", "Y", 6⟩]⟩] := by cbv
  have hrow : ⟨"go", [⟨"go", "Y", 6⟩]⟩ ∈ (severed.compile {}).program.rows := by
    rw [hrows]
    exact List.mem_cons_self
  exact ⟨severed_reachable, severed_broken, (skipped_destinations severed_reachable (Or.inl rfl) {}
    severed_broken).2.2 _ hrow _ List.mem_cons_self severed_holds⟩

/-- The program has a destination at a source of the group that it skips, and no descriptor of it. -/
theorem skipped_reached :
    severed.Reachable ∧ severed.graph.IsBroken 4 ∧ severed.graph.Holds 4 6 ∧
      (severed.compile {}).program.rows = [⟨"go", [⟨"go", "Y", 6⟩]⟩] ∧
      (severed.graph.compile {}).program.rows = [⟨"go", [⟨"go", "Y", 6⟩]⟩] ∧
      (severed.compile {}).program.nodes.map (·.id) = [2] :=
  ⟨severed_reachable, severed_broken, severed_holds, by cbv, by cbv, by cbv⟩

end Blueprint
end MessageGraph
