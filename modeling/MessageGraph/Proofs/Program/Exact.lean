import MessageGraph.Proofs.Program.Declared
import MessageGraph.Proofs.Program.Order

/-!
# Flattening is exact

A compilation describes what runs and nothing else. Its nodes are the live sources and its filters the filtered
buses of live groups, each once and in the order in which the descendants of the top-level group come; the inputs
and the rows of a node are what the names of its pins stand for; and what is counted is what there is to count.
`Compilation.Exact` says so, field by field.

* Order: both lists are read off the elements of the graph (`nodeIds_eq`, `filterBuses_eq`).
* Pins: `inputs_describeSource`, `variants_describeSource`.
* Counts: rows are counted before they are sorted into nodes and filters (`rows_perm`), and no stage of compiling
  reports what another one counts (`kind_of_mem_importAll`, `Flattened.Counted`).

Result: `compile_exact`, for every model that operations lead to, with any tables.
-/
namespace MessageGraph

/-! ## Reports of one kind -/

namespace Diagnostics

theorem ofKind_append (ds es : Diagnostics) (kind : DiagnosticKind) :
    ofKind (ds ++ es) kind = ofKind ds kind ++ ofKind es kind := List.filter_append _ _

theorem ofKind_eq_self {ds : Diagnostics} {kind : DiagnosticKind} (h : ∀ d ∈ ds, d.kind = kind) :
    ofKind ds kind = ds := List.filter_eq_self.2 fun d hd => decide_eq_true (h d hd)

theorem ofKind_eq_nil {ds : Diagnostics} {kind : DiagnosticKind} (h : ∀ d ∈ ds, d.kind ≠ kind) :
    ofKind ds kind = [] := List.filter_eq_nil_iff.2 fun d hd => by simpa using h d hd

end Diagnostics

/-- What flattening reports are broken links, as many as it counts, and empty groups. -/
structure Flattened.Counted (f : Flattened) : Prop where
  kinds : ∀ d ∈ f.diagnostics, d.kind = .brokenGroupLink ∨ d.kind = .emptyGroup
  brokenLinks : f.brokenLinks = (Diagnostics.ofKind f.diagnostics .brokenGroupLink).length

theorem Flattened.Counted.append {f f' : Flattened} (h : f.Counted) (h' : f'.Counted) :
    (f ++ f').Counted where
  kinds d hd := (List.mem_append.1 hd).elim (h.kinds d) (h'.kinds d)
  brokenLinks := by
    show f.brokenLinks + f'.brokenLinks = (Diagnostics.ofKind (f.diagnostics ++ f'.diagnostics) _).length
    rw [Diagnostics.ofKind_append, List.length_append, h.brokenLinks, h'.brokenLinks]

theorem Manifest.kind_of_mem_add {m : Manifest} {identifier location : String} {subject : Option Id}
    {d : Diagnostic} (h : d ∈ (m.add identifier location subject).2.2) :
    d.kind = .duplicateBehaviorIdentifier := by
  unfold Manifest.add at h
  split at h
  · cases h
  · split at h
    · rw [List.mem_singleton.1 h]
      rfl
    · cases h

namespace Graph

variable {g : Graph} {t : Tables} {options : Options}

mutual

theorem counted_flatten (g : Graph) : (o : Tree Id) → (g.flatten o).Counted
  | .node id ts => by
    have hnone : ∀ es n, Flattened.Counted { elements := es, groups := n } := fun _ _ => ⟨nofun, rfl⟩
    unfold flatten
    split
    · exact hnone _ _
    · split
      · exact hnone _ _
      · split
        · exact ⟨fun d hd => Or.inl (List.mem_singleton.1 hd ▸ rfl), rfl⟩
        · split
          · exact ⟨fun d hd => Or.inr (List.mem_singleton.1 hd ▸ rfl), rfl⟩
          · exact (hnone _ _).append (counted_flattenAll g ts)

theorem counted_flattenAll (g : Graph) : (os : List (Tree Id)) → (g.flattenAll os).Counted
  | [] => ⟨nofun, rfl⟩
  | o :: os => (counted_flatten g o).append (counted_flattenAll g os)

end

theorem kind_of_mem_importAll {es : List Element} {m : Manifest} {d : Diagnostic}
    (h : d ∈ (g.importAll options es m).2.2) : d.kind = .duplicateBehaviorIdentifier := by
  induction es generalizing m with
  | nil => cases h
  | cons e es ih =>
    unfold importAll at h
    split at h
    · exact ih h
    · exact (List.mem_append.1 h).elim Manifest.kind_of_mem_add ih

/-! ## Order -/

def isSource (g : Graph) (n : Id) : Bool := (g.source? n).isSome

/-- The filtered buses of a group, in its order. -/
def filtersOf (g : Graph) (n : Id) : List Id :=
  (g.busIds n).filter fun id => (g.bus? id).elim false (·.isFiltered)

theorem WellFormed.mem_filtersOf (w : g.WellFormed) {n bus : Id} :
    bus ∈ g.filtersOf n ↔ ∃ x, g.bus? bus = some x ∧ x.group = n ∧ x.isFiltered = true := by
  rw [filtersOf, List.mem_filter, w.buses.mem_iff, busOwner?]
  cases g.bus? bus with
  | none => simp
  | some x => simp

theorem nodes_elementsOf (n : Id) :
    (g.elementsOf n).filterMap Element.node? = if g.isSource n then [n] else [] := by
  unfold elementsOf isSource source?
  cases g.node? n with
  | none => rfl
  | some m =>
    rw [Option.bind_some]
    cases hk : m.kind with
    | source s => simp only [Node.source?, hk]; rfl
    | group s =>
      simp only [Node.source?, hk, List.filterMap_map]
      exact List.filterMap_eq_nil_iff.2 fun _ _ => rfl

theorem buses_elementsOf (n : Id) : (g.elementsOf n).filterMap Element.bus? = g.filtersOf n := by
  unfold elementsOf filtersOf busIds group?
  cases g.node? n with
  | none => rfl
  | some m =>
    rw [Option.bind_some]
    cases hk : m.kind with
    | source s => simp only [Node.group?, hk]; rfl
    | group s =>
      simp only [Node.group?, hk, List.filterMap_map]
      exact List.filterMap_some

/-- The nodes of a program are the live sources, each before what comes after it in the tree. -/
theorem nodeIds_eq (w : g.WellFormed) :
    (g.compileWith t options).program.nodes.map (·.id) =
      (g.descendants g.root).filter fun n => g.isSource n && g.isLive n := by
  rw [nodeIds_compileWith w, elements_eq w, List.filterMap_flatMap]
  simp only [nodes_elementsOf, ← List.filter_filter]
  induction (g.descendants g.root).filter g.isLive with
  | nil => rfl
  | cons n ns ih =>
    rw [List.flatMap_cons, ih, List.filter_cons]
    split <;> rfl

/-- The filters of a program are the filtered buses of the live groups, group by group. -/
theorem filterBuses_eq (w : g.WellFormed) :
    (g.compileWith t options).program.filters.map (·.bus) =
      ((g.descendants g.root).filter g.isLive).flatMap g.filtersOf := by
  rw [filterBuses_compileWith w, elements_eq w, List.filterMap_flatMap]
  simp only [buses_elementsOf]

/-! ## Pins -/

/-- The pins of a source with a direction, in its order. -/
def pinsOf (g : Graph) (n : Id) (direction : Direction) : List Pin :=
  ((g.pinIds n).filterMap g.pin?).filter (·.direction = direction)

/-- Pins listed with their ids are the pins listed without. -/
theorem map_snd_pins (pins : List Id) (direction : Direction) :
    ((pins.filterMap fun i => (g.pin? i).map fun p => (i, p)).filter (·.2.direction = direction)).map (·.2) =
      (pins.filterMap g.pin?).filter (·.direction = direction) := by
  have hpins : (pins.filterMap fun i => (g.pin? i).map fun p => (i, p)).map (·.2) =
      pins.filterMap g.pin? := by
    rw [List.map_filterMap]
    refine List.filterMap_congr fun i _ => ?_
    cases g.pin? i <;> rfl
  rw [← hpins, List.filter_map]
  rfl

theorem inputs_describeSource {i : Id} {s : Source} (hs : g.source? i = some s) (n : Node)
    (binding : String) : (g.describeSource t i n s binding).inputs =
      (g.pinsOf i .input).flatMap fun p => (Message.expand p.name).map fun name => ⟨name, p.channel⟩ := by
  rw [pinsOf, pinIds_of_source? hs, ← map_snd_pins, List.flatMap_map]
  rfl

theorem variants_describeSource {i : Id} {s : Source} (hs : g.source? i = some s) (n : Node)
    (binding : String) : (g.describeSource t i n s binding).outputs.map (·.variant) =
      (g.pinsOf i .output).flatMap fun p => Message.expand p.name := by
  have hrows : ∀ pin p, (g.outputRows t pin p).map (·.variant) = Message.expand p.name := fun pin p => by
    rw [outputRows, List.map_map]
    exact List.map_id _
  rw [pinsOf, pinIds_of_source? hs, ← map_snd_pins, List.flatMap_map]
  simp only [describeSource, List.map_flatMap, hrows]

end Graph

/-! ## Rows -/

/-- Rows in the order of what has them are the rows of the nodes and those of the filters. -/
theorem Described.rows_perm (ds : List Described) :
    (ds.flatMap Described.rows).Perm
      ((ds.filterMap Described.node?).flatMap (·.outputs) ++
        (ds.filterMap Described.filter?).flatMap (·.rows)) := by
  induction ds with
  | nil => exact .nil
  | cons d ds ih =>
    rw [List.flatMap_cons]
    cases d with
    | node d =>
      show (d.outputs ++ _).Perm ((d.outputs ++ _) ++ _)
      rw [List.append_assoc]
      exact ih.append_left d.outputs
    | filter d group =>
      show (d.rows ++ _).Perm (_ ++ (d.rows ++ _))
      refine (ih.append_left d.rows).trans ?_
      rw [← List.append_assoc, ← List.append_assoc]
      exact List.perm_append_comm.append_right _

theorem Described.length_emptyRowReports (ds : List Described) :
    (ds.flatMap Described.emptyRowReports).length =
      ((ds.flatMap Described.rows).filter Row.isEmpty).length := by
  rw [List.filter_flatMap, List.length_flatMap, List.length_flatMap]
  congr 1
  exact List.map_congr_left fun d _ => List.length_map _

namespace Graph

variable {g : Graph} {t : Tables} {options : Options}

theorem rows_perm_compileWith : ((g.described t options).flatMap Described.rows).Perm
    (g.compileWith t options).program.rows := Described.rows_perm _

theorem ofKind_importAll {kind : DiagnosticKind} (h : kind ≠ .duplicateBehaviorIdentifier)
    (es : List Element) (m : Manifest) :
    Diagnostics.ofKind (g.importAll options es m).2.2 kind = [] :=
  Diagnostics.ofKind_eq_nil fun _ hd hk => h (hk.symm.trans (kind_of_mem_importAll hd))

/-- Empty rows are reported by their own stage alone, all of them or none. -/
theorem ofKind_emptyDestinationRow :
    Diagnostics.ofKind (g.compileWith t options).diagnostics .emptyDestinationRow =
      if options.reportEmptyRows then (g.described t options).flatMap Described.emptyRowReports else [] := by
  have hflat : Diagnostics.ofKind (g.flatten (g.outline g.root)).diagnostics .emptyDestinationRow = [] :=
    Diagnostics.ofKind_eq_nil fun d hd hk => by
      rcases (counted_flatten g _).kinds d hd with h | h <;> cases h.symm.trans hk
  rw [diagnostics_compileWith, Diagnostics.ofKind_append, Diagnostics.ofKind_append, hflat,
    ofKind_importAll (show DiagnosticKind.emptyDestinationRow ≠ _ from nofun), List.append_nil, List.nil_append]
  split
  · refine Diagnostics.ofKind_eq_self fun d hd => ?_
    obtain ⟨x, -, hd⟩ := List.mem_flatMap.1 hd
    exact Described.kind_of_mem_emptyRowReports hd
  · rfl

/-- Broken links are reported by flattening alone. -/
theorem ofKind_brokenGroupLink :
    Diagnostics.ofKind (g.compileWith t options).diagnostics .brokenGroupLink =
      Diagnostics.ofKind (g.flatten (g.outline g.root)).diagnostics .brokenGroupLink := by
  have hrows : Diagnostics.ofKind (if options.reportEmptyRows then
      (g.described t options).flatMap Described.emptyRowReports else []) .brokenGroupLink = [] :=
    Diagnostics.ofKind_eq_nil fun d hd hk => by
      split at hd
      · obtain ⟨x, -, hd⟩ := List.mem_flatMap.1 hd
        cases (Described.kind_of_mem_emptyRowReports hd).symm.trans hk
      · cases hd
  rw [diagnostics_compileWith, Diagnostics.ofKind_append, Diagnostics.ofKind_append, hrows,
    ofKind_importAll (show DiagnosticKind.brokenGroupLink ≠ _ from nofun), List.append_nil, List.append_nil]

end Graph

/-! ## The result -/

/-- A compilation describes what runs in a graph and nothing else, and counts it right. -/
structure Compilation.Exact (c : Compilation) (g : Graph) (options : Options) : Prop where
  nodes : c.program.nodes.map (·.id) = (g.descendants g.root).filter fun n => g.isSource n && g.isLive n
  nodes_nodup : (c.program.nodes.map (·.id)).Nodup
  filters : c.program.filters.map (·.bus) = ((g.descendants g.root).filter g.isLive).flatMap g.filtersOf
  filters_nodup : (c.program.filters.map (·.bus)).Nodup
  inputs : ∀ d ∈ c.program.nodes, d.inputs =
    (g.pinsOf d.id .input).flatMap fun p => (Message.expand p.name).map fun name => ⟨name, p.channel⟩
  variants : ∀ d ∈ c.program.nodes, d.outputs.map (·.variant) =
    (g.pinsOf d.id .output).flatMap fun p => Message.expand p.name
  sources : c.stats.sources = c.program.nodes.length
  filterCount : c.stats.filters = c.program.filters.length
  rows : c.stats.rows = c.program.rows.length
  emptyRows : c.stats.emptyRows = (c.program.rows.filter Row.isEmpty).length
  emptyRowReports : (c.diagnostics.ofKind .emptyDestinationRow).length =
    if options.reportEmptyRows then c.stats.emptyRows else 0
  brokenLinks : c.stats.brokenLinks = (c.diagnostics.ofKind .brokenGroupLink).length

theorem Graph.exact_compileWith {g : Graph} (w : g.WellFormed) (t : Tables) (options : Options) :
    (g.compileWith t options).Exact g options where
  nodes := nodeIds_eq w
  nodes_nodup := nodeIds_nodup w
  filters := filterBuses_eq w
  filters_nodup := filterBuses_nodup w
  inputs d hd := by
    obtain ⟨n, s, binding, hs, he⟩ := exists_source_of_mem_nodes hd
    rw [he]
    exact inputs_describeSource hs n binding
  variants d hd := by
    obtain ⟨n, s, binding, hs, he⟩ := exists_source_of_mem_nodes hd
    rw [he]
    exact variants_describeSource hs n binding
  sources := rfl
  filterCount := rfl
  rows := rows_perm_compileWith.length_eq
  emptyRows := (rows_perm_compileWith.filter _).length_eq
  emptyRowReports := by
    rw [ofKind_emptyDestinationRow, stats_compileWith]
    split
    · exact Described.length_emptyRowReports _
    · rfl
  brokenLinks := by
    rw [ofKind_brokenGroupLink]
    exact (counted_flatten g _).brokenLinks

namespace Blueprint

variable {b : Blueprint}

/-- In every model, with any tables and options, the program has a node for each live source and a filter for each
live filtered bus, once and in the order of the tree; their messages are those of their pins, and what is counted
and reported agrees. The descendants of the top-level group are all nodes, each followed by what is below its
children, child by child; the filters of a group are the filtered buses in it; and a node is live if no group that
it is in has a broken link. -/
theorem compile_exact (hb : b.Reachable) (t : Tables) (options : Options) :
    (b.graph.compileWith t options).Exact b.graph options ∧
    (∀ n, n ∈ b.graph.descendants b.graph.root ↔ b.graph.nodes.contains n = true) ∧
    (∀ n bus, bus ∈ b.graph.filtersOf n ↔
      ∃ x, b.graph.bus? bus = some x ∧ x.group = n ∧ x.isFiltered = true) ∧
    ∀ n, b.graph.nodes.contains n = true →
      b.graph.descendants n = n :: (b.graph.childIds n).flatMap b.graph.descendants ∧
      (b.graph.isLive n = true ↔ ∀ m, b.graph.Below n m → ¬ b.graph.IsBroken m) := by
  have w := hb.wellFormed
  exact ⟨Graph.exact_compileWith w t options, fun n => w.mem_outline,
    fun n bus => w.mem_filtersOf, fun n hn => ⟨w.tree.descendants_eq hn, Graph.isLive_iff w.tree hn⟩⟩

/-- A source and a filter in a group, a filter and a source at the top, and a source in a group whose link is
broken. The source in the first group has a message that reaches nothing. -/
def patchy : Blueprint :=
  (new "main").run
    [.edit (.addGroup none 1 "A"), .edit (.addSource none 2 "x" { identifier := "x" }),
      .edit (.addPin 3 "go [left, right]" .output false),
      .edit (.addBus none 2 "inner" (some { identifier := "f" })),
      .edit (.addBus none 1 "outer" (some { identifier := "f" })), .edit (.addGroup none 1 "L"),
      .edit (.setLink 7 "lib"), .edit (.addSource none 7 "lost" { identifier := "x" }),
      .edit (.addSource none 1 "y" { identifier := "y" }), .markLinkBroken 7 "not found"]

theorem compile_exact_patchy :
    patchy.Reachable ∧
    ((patchy.compile {}).program.nodes.map (·.id) = [3, 9] ∧
      (patchy.compile {}).program.filters.map (·.bus) = [6, 5] ∧
      (patchy.compile {}).program.rows.map (·.variant) = ["go left", "go right"] ∧
      (patchy.compile {}).stats.emptyRows = 2 ∧ (patchy.compile {}).stats.brokenLinks = 1) ∧
    (patchy.compile {}).Exact patchy.graph {} :=
  ⟨.run_new "main" rfl, by cbv, (compile_exact (.run_new "main" rfl) patchy.tables {}).1⟩

end Blueprint
end MessageGraph
