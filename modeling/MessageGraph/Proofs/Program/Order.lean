import MessageGraph.Proofs.Program.Flatten
import MessageGraph.Proofs.Blueprint.Rebuild

/-!
# Compiling from live tables and from scratch

Live tables have the targets in the order in which routes came to be, tables from scratch in the order
of a walk. What a program says of a target depends on its key alone (`destinations_eq`), so tables with
the same keys, each once, give programs that differ in nothing but the order of destinations within a
row. `Program.SameUpTo` says so of the destinations that a test accepts.

Results:
* `compile_same`: the program compiled from the live tables of any model is that compiled from scratch
  up to the order within rows, as far as destinations below the top-level group are concerned, and with
  all destinations where the live tables have the keys of those from scratch;
* `compile_order_differs`: the order itself can differ.
-/
namespace MessageGraph

/-! ## Programs up to order -/

/-- The same message, with the same destinations among those that a test accepts, in any order. -/
structure Row.SameUpTo (keep : Destination → Bool) (r r' : Row) : Prop where
  variant : r.variant = r'.variant
  destinations : (r.destinations.filter keep).Perm (r'.destinations.filter keep)

structure NodeDescriptor.SameUpTo (keep : Destination → Bool) (n n' : NodeDescriptor) : Prop where
  name : n.name = n'.name
  id : n.id = n'.id
  behavior : n.behavior = n'.behavior
  inputs : n.inputs = n'.inputs
  outputs : List.Forall₂ (Row.SameUpTo keep) n.outputs n'.outputs

structure FilterDescriptor.SameUpTo (keep : Destination → Bool) (f f' : FilterDescriptor) : Prop where
  name : f.name = f'.name
  bus : f.bus = f'.bus
  filter : f.filter = f'.filter
  rows : List.Forall₂ (Row.SameUpTo keep) f.rows f'.rows

/-- Programs that differ at most in the order of destinations within a row, and in destinations that
the test refuses. -/
structure Program.SameUpTo (keep : Destination → Bool) (p p' : Program) : Prop where
  name : p.name = p'.name
  imports : p.imports = p'.imports
  nodes : List.Forall₂ (NodeDescriptor.SameUpTo keep) p.nodes p'.nodes
  filters : List.Forall₂ (FilterDescriptor.SameUpTo keep) p.filters p'.filters

theorem firstByKey_perm {α : Type} [DecidableEq α] {l l' : List α} (h : l.Perm l') :
    (firstByKey (fun a => a) l).Perm (firstByKey (fun a => a) l') := by
  have hnodup : ∀ m : List α, (firstByKey (fun a => a) m).Nodup := fun m => by
    have h : ((firstByKey (fun a => a) m).map fun a => a).Nodup := Graph.nodup_keys_firstByKey m
    rwa [List.map_id'] at h
  have hmem : ∀ (m : List α) a, a ∈ firstByKey (fun a => a) m ↔ a ∈ m := fun m a => by
    have h : a ∈ (firstByKey (fun a => a) m).map (fun a => a) ↔ a ∈ m.map fun a => a :=
      Graph.mem_keys_firstByKey
    rwa [List.map_id', List.map_id'] at h
  refine (List.perm_ext_iff_of_nodup (hnodup l) (hnodup l')).2 fun a => ?_
  rw [hmem, hmem, h.mem_iff]

/-- Whether the first of equal elements are picked before or after a test makes no difference. -/
theorem filter_firstByKey {α : Type} [DecidableEq α] (keep : α → Bool) (l : List α) :
    (firstByKey (fun a => a) l).filter keep = firstByKey (fun a => a) (l.filter keep) :=
  Graph.filter_firstByKey_of_key fun _ _ _ _ h => congrArg keep h

namespace Graph

variable {g : Graph} {t t' : Tables} {keep : Destination → Bool}

/-! ## Destinations by key -/

/-- The destination that a message has at the targets of a key, if they receive it. -/
def destinationAt? (g : Graph) (variant : String) (fromPattern : Bool) (key : TargetKey) :
    Option Destination :=
  match key.owner with
  | .node n =>
    (Message.received variant fromPattern key.name).bind fun received =>
      (g.node? n).map fun m => ⟨received, m.name, n⟩
  | .bus bus => (g.bus? bus).map fun b => ⟨variant, b.name, bus⟩

theorem destination?_eq {origin : Endpoint} {x : Target} (hx : Tables.Admits g origin x)
    (variant : String) (fromPattern : Bool) :
    g.destination? variant fromPattern x = g.destinationAt? variant fromPattern (g.targetKey x) := by
  have htop : ∀ {group gate : Id} {p : Gate}, g.gate? gate = some p →
      g.destination? variant fromPattern (.boundary group gate) =
        g.destinationAt? variant fromPattern (g.targetKey (.boundary group gate)) := by
    intro group gate p hp
    simp only [destination?, destinationAt?, targetKey, nameOf, name?, hp, Option.map_some,
      Option.bind_some, Option.getD_some]
    rfl
  rcases hx with hd | ⟨gate, p, rfl, hp, -⟩
  · cases hd with
    | pin _ _ hp _ =>
      simp only [destination?, destinationAt?, targetKey, nameOf, name?, hp, Option.map_some,
        Option.bind_some, Option.getD_some]
      rfl
    | tack _ _ _ hb _ => rfl
    | boundary _ _ hp _ _ _ => exact htop hp
  · exact htop hp

theorem destinations_eq (ht : t.Sound g) (origin : Endpoint) (variant : String)
    (fromPattern : Bool) :
    g.destinations t origin variant fromPattern =
      (t.keys g origin).filterMap (g.destinationAt? variant fromPattern) := by
  unfold destinations Tables.keys
  rw [List.filterMap_map]
  exact List.filterMap_congr fun x hx =>
    destination?_eq (ht.admits (ht.isOrigin_of_mem hx) hx) variant fromPattern

/-! ## Compiling with the same destinations -/

/-- Two tables of a graph give every message from every endpoint the same destinations among those that a
test accepts, in any order. -/
def SameDestinations (g : Graph) (keep : Destination → Bool) (t t' : Tables) : Prop :=
  ∀ origin variant fromPattern,
    ((g.destinations t origin variant fromPattern).filter keep).Perm
      ((g.destinations t' origin variant fromPattern).filter keep)

end Graph

/-- Descriptions that differ at most in the order of destinations and in what the test refuses. -/
inductive Described.SameUpTo (keep : Destination → Bool) : Described → Described → Prop
  | node {d d' : NodeDescriptor} (h : d.SameUpTo keep d') : SameUpTo keep (.node d) (.node d')
  | filter {d d' : FilterDescriptor} {group : Id} (h : d.SameUpTo keep d') :
    SameUpTo keep (.filter d group) (.filter d' group)

theorem forall₂_flatMap {α β : Type} {R : β → β → Prop} {f f' : α → List β} {l : List α}
    (h : ∀ a, a ∈ l → List.Forall₂ R (f a) (f' a)) :
    List.Forall₂ R (l.flatMap f) (l.flatMap f') := by
  induction l with
  | nil => exact .nil
  | cons a as ih =>
    rw [List.flatMap_cons, List.flatMap_cons]
    exact List.rel_append (h a List.mem_cons_self)
      (ih fun b hb => h b (List.mem_cons_of_mem a hb))

theorem forall₂_map {α β : Type} {R : β → β → Prop} {f f' : α → β} {l : List α}
    (h : ∀ a, a ∈ l → R (f a) (f' a)) : List.Forall₂ R (l.map f) (l.map f') := by
  rw [List.forall₂_map_left_iff, List.forall₂_map_right_iff]
  exact List.forall₂_same.2 h

namespace Graph.SameDestinations

variable {g : Graph} {t t' : Tables} {keep : Destination → Bool}

theorem outputRows (h : g.SameDestinations keep t t') (pin : Id) (p : Pin) :
    List.Forall₂ (Row.SameUpTo keep) (g.outputRows t pin p) (g.outputRows t' pin p) :=
  forall₂_map fun variant _ => ⟨rfl, h (.pin pin) variant (Message.isPattern p.name)⟩

theorem describeSource (h : g.SameDestinations keep t t') (id : Id) (n : Node) (s : Source)
    (binding : String) :
    (g.describeSource t id n s binding).SameUpTo keep (g.describeSource t' id n s binding) where
  name := rfl
  id := rfl
  behavior := rfl
  inputs := rfl
  outputs := forall₂_flatMap fun (pin, p) _ => h.outputRows pin p

theorem filterRows (h : g.SameDestinations keep t t') (b : Bus) :
    List.Forall₂ (Row.SameUpTo keep) (g.filterRows t b) (g.filterRows t' b) := by
  refine forall₂_map fun arrival _ => ⟨rfl, ?_⟩
  simp only [filter_firstByKey, List.filter_flatMap]
  exact firstByKey_perm (List.Perm.flatMap_left _ fun tack _ =>
    h (.tack tack.1) arrival.1 (Message.isPattern arrival.2.message))

theorem describe? (h : g.SameDestinations keep t t') (binding : String) (e : Element) :
    Option.Rel (Described.SameUpTo keep) (g.describe? t binding e) (g.describe? t' binding e) := by
  cases e with
  | source id =>
    simp only [Graph.describe?]
    cases g.node? id with
    | none => exact .none
    | some n =>
      simp only [Option.bind_some]
      cases n.source? with
      | none => exact .none
      | some s => exact .some (.node (h.describeSource id n s binding))
  | filter bus =>
    simp only [Graph.describe?]
    cases g.bus? bus with
    | none => exact .none
    | some b => exact .some (.filter ⟨rfl, rfl, rfl, h.filterRows b⟩)

theorem described (h : g.SameDestinations keep t t') (options : Options) :
    List.Forall₂ (Described.SameUpTo keep) (g.described t options) (g.described t' options) := by
  refine List.rel_filterMap (R := fun a b => a = b) (fun {a b} hab => ?_) ?_
  · subst hab
    exact h.describe? a.2 a.1
  · exact List.forall₂_same.2 fun _ _ => rfl

theorem program (h : g.SameDestinations keep t t') (options : Options) :
    (g.compileWith t options).program.SameUpTo keep (g.compileWith t' options).program where
  name := by rw [name_compileWith, name_compileWith]
  imports := by rw [imports_compileWith, imports_compileWith]
  nodes := by
    rw [nodes_compileWith, nodes_compileWith]
    refine List.rel_filterMap (fun {d d'} hd => ?_) (h.described options)
    cases hd with
    | node hd => exact .some hd
    | filter hd => exact .none
  filters := by
    rw [filters_compileWith, filters_compileWith]
    refine List.rel_filterMap (fun {d d'} hd => ?_) (h.described options)
    cases hd with
    | node hd => exact .none
    | filter hd => exact .some hd

end Graph.SameDestinations

/-! ## Compilations up to order -/

/-- Compilations of programs that differ at most so, which report and count the same but for rows that
reach nothing. -/
structure Compilation.SameUpTo (keep : Destination → Bool) (c c' : Compilation) : Prop where
  program : c.program.SameUpTo keep c'.program
  diagnostics : c.diagnostics.filter (·.kind ≠ .emptyDestinationRow) =
    c'.diagnostics.filter (·.kind ≠ .emptyDestinationRow)
  stats : { c.stats with emptyRows := 0 } = { c'.stats with emptyRows := 0 }

namespace Described

variable {keep : Destination → Bool} {d d' : Described}

theorem SameUpTo.rows (h : d.SameUpTo keep d') :
    List.Forall₂ (Row.SameUpTo keep) d.rows d'.rows := by
  cases h with
  | node h => exact h.outputs
  | filter h => exact h.rows

theorem kind_of_mem_emptyRowReports {report : Diagnostic} (h : report ∈ d.emptyRowReports) :
    report.kind = .emptyDestinationRow := by
  obtain ⟨row, -, rfl⟩ := List.mem_map.1 h
  rfl

/-- The messages of the rows that reach nothing. -/
theorem emptyRows_eq {rows rows' : List Row}
    (h : List.Forall₂ (Row.SameUpTo fun _ => true) rows rows') :
    (rows.filter Row.isEmpty).map Row.variant = (rows'.filter Row.isEmpty).map Row.variant := by
  induction h with
  | nil => rfl
  | @cons r r' rs rs' hr _ ih =>
    have hperm : r.destinations.Perm r'.destinations := by
      simpa only [List.filter_true] using hr.destinations
    have hempty : r.isEmpty = r'.isEmpty := hperm.isEmpty_eq
    rw [List.filter_cons, List.filter_cons, ← hempty]
    split
    · rw [List.map_cons, List.map_cons, ih, hr.variant]
    · exact ih

theorem emptyRowReports_eq (h : d.SameUpTo (fun _ => true) d') :
    d.emptyRowReports = d'.emptyRowReports := by
  have hvariants := emptyRows_eq h.rows
  have hreports : ∀ x : Described, x.emptyRowReports =
      ((x.rows.filter Row.isEmpty).map Row.variant).map fun variant =>
        { kind := .emptyDestinationRow
          message := s!"'{variant}' on '{x.name}' reaches nothing"
          subject := some x.subject } := fun x => by
    rw [List.map_map]
    rfl
  rw [hreports, hreports, hvariants]
  cases h with
  | node h => simp only [Described.name, Described.subject, h.name, h.id]
  | filter h => simp only [Described.name, Described.subject, h.name]

end Described

namespace Graph.SameDestinations

variable {g : Graph} {t t' : Tables} {keep : Destination → Bool}

theorem rows (h : g.SameDestinations keep t t') (options : Options) :
    List.Forall₂ (Row.SameUpTo keep) ((g.described t options).flatMap Described.rows)
      ((g.described t' options).flatMap Described.rows) :=
  List.rel_flatMap (h.described options) fun {_ _} hd => hd.rows

theorem compileWith (h : g.SameDestinations keep t t') (options : Options) :
    (g.compileWith t options).SameUpTo keep (g.compileWith t' options) where
  program := h.program options
  diagnostics := by
    have hnone : ∀ u : Tables,
        ((g.described u options).flatMap Described.emptyRowReports).filter
          (·.kind ≠ .emptyDestinationRow) = [] := by
      intro u
      refine List.filter_eq_nil_iff.2 fun report hreport => ?_
      obtain ⟨d, -, hreport⟩ := List.mem_flatMap.1 hreport
      simp only [Described.kind_of_mem_emptyRowReports hreport, ne_eq, not_true_eq_false,
        decide_false, Bool.false_eq_true, not_false_eq_true]
    rw [diagnostics_compileWith, diagnostics_compileWith, List.filter_append,
      List.filter_append (_ ++ _)]
    split
    · rw [hnone, hnone]
    · rfl
  stats := by
    have hprogram := h.program options
    rw [stats_compileWith, stats_compileWith, hprogram.nodes.length_eq,
      hprogram.filters.length_eq, hprogram.imports, (h.rows options).length_eq]

/-- With all destinations alike the same is said of rows that reach nothing. -/
theorem reports (h : g.SameDestinations (fun _ => true) t t') (options : Options) :
    (g.compileWith t options).diagnostics = (g.compileWith t' options).diagnostics ∧
      (g.compileWith t options).stats = (g.compileWith t' options).stats := by
  have hreports : List.Forall₂ Eq ((g.described t options).flatMap Described.emptyRowReports)
      ((g.described t' options).flatMap Described.emptyRowReports) :=
    List.rel_flatMap (h.described options) fun {_ _} hd => by
      rw [Described.emptyRowReports_eq hd]
      exact List.forall₂_same.2 fun _ _ => rfl
  rw [List.forall₂_eq_eq_eq] at hreports
  have hempty := congrArg List.length (Described.emptyRows_eq (h.rows options))
  rw [List.length_map, List.length_map] at hempty
  have hprogram := h.program options
  constructor
  · rw [diagnostics_compileWith, diagnostics_compileWith, hreports]
  · rw [stats_compileWith, stats_compileWith, hprogram.nodes.length_eq,
      hprogram.filters.length_eq, hprogram.imports, (h.rows options).length_eq, hempty]

end Graph.SameDestinations

/-- Sound tables that have, each once, the same of those keys at which the test can accept a destination
give the same destinations. -/
theorem Graph.sameDestinations_of_keys {g : Graph} {t t' : Tables} {keep : Destination → Bool}
    (keepKey : TargetKey → Bool) (ht : t.Sound g) (ht' : t'.Sound g) (hd : t.Distinct g)
    (hd' : t'.Distinct g)
    (hkeep : ∀ variant fromPattern k d, g.destinationAt? variant fromPattern k = some d →
      keep d = true → keepKey k = true)
    (hkeys : ∀ o k, keepKey k = true → (k ∈ t.keys g o ↔ k ∈ t'.keys g o)) :
    g.SameDestinations keep t t' := by
  intro origin variant fromPattern
  have hperm : ((t.keys g origin).filter keepKey).Perm ((t'.keys g origin).filter keepKey) := by
    refine (List.perm_ext_iff_of_nodup ((hd origin).filter _) ((hd' origin).filter _)).2 fun k => ?_
    simp only [List.mem_filter]
    exact and_congr_left (hkeys origin k)
  have honly : ∀ keys : List TargetKey,
      (keys.filterMap (g.destinationAt? variant fromPattern)).filter keep =
        ((keys.filter keepKey).filterMap (g.destinationAt? variant fromPattern)).filter keep := by
    intro keys
    simp only [List.filter_filterMap, List.filterMap_filter]
    refine List.filterMap_congr fun k _ => ?_
    split
    · rfl
    · rename_i hk
      refine Option.filter_eq_none_iff.2 fun d hdest hacc => hk ?_
      exact hkeep variant fromPattern k d hdest hacc
  rw [destinations_eq ht, destinations_eq ht', honly (t.keys g origin), honly (t'.keys g origin)]
  exact (hperm.filterMap _).filter _

namespace Blueprint

variable {b : Blueprint}

/-- The program compiled from the live tables of a model and the one compiled from scratch have the same
name, imports, nodes, filters and messages. Every message has the same destinations in both, as far as
these are not the top-level group, though not always in the same order; and the same is reported and
counted, as far as it is not about messages without destination. All this holds without exception where
the live tables have the keys of top-level gates that tables from scratch have. -/
theorem compile_same (hb : b.Reachable) (options : Options) :
    (b.compile options).SameUpTo (fun d => d.ownerId ≠ b.graph.root) (b.graph.compile options) ∧
    ((∀ o k, k.owner = .node b.graph.root → b.Agrees o k) →
      (b.compile options).program.SameUpTo (fun _ => true) (b.graph.compile options).program ∧
      (b.compile options).diagnostics = (b.graph.compile options).diagnostics ∧
      (b.compile options).stats = (b.graph.compile options).stats) := by
  have w := hb.wellFormed
  have hbuilt := (Tables.build_of b.graph).sound w
  have hdistinct := Tables.distinct_build b.graph
  have hbelow := hb.agreesBelow
  refine ⟨?_, fun htop => ?_⟩
  · refine Graph.SameDestinations.compileWith ?_ options
    refine Graph.sameDestinations_of_keys (fun k => k.owner ≠ .node b.graph.root) hb.sound hbuilt
      hb.distinct hdistinct (fun variant fromPattern k d hdest hkeep => ?_)
      fun o k hk => hbelow o k (of_decide_eq_true hk)
    refine decide_eq_true fun howner => of_decide_eq_true hkeep ?_
    simp only [Graph.destinationAt?, howner] at hdest
    obtain ⟨received, -, hdest⟩ := Option.bind_eq_some_iff.1 hdest
    obtain ⟨n, -, rfl⟩ := Option.map_eq_some_iff.1 hdest
    rfl
  · have hsame : b.graph.SameDestinations (fun _ => true) b.tables (Tables.build b.graph) := by
      refine Graph.sameDestinations_of_keys (fun _ => true) hb.sound hbuilt hb.distinct hdistinct
        (fun _ _ _ _ _ _ => rfl) fun o k _ => ?_
      by_cases hk : k.owner = .node b.graph.root
      · exact htop o k hk
      · exact hbelow o k hk
    exact ⟨hsame.program options, hsame.reports options⟩

/-- A source that sends over a bus and to a lamp, until the last step puts another lamp on the bus. -/
def appended : Blueprint :=
  (new "main").run
    [.edit (.addSource none 1 "X" { identifier := "x" }), .edit (.addPin 2 "go" .output false),
      .edit (.addBus none 1 "line" none), .edit (.addSource none 1 "Y" { identifier := "y" }),
      .edit (.addPin 5 "go" .input false), .edit (.addSource none 1 "Z" { identifier := "z" }),
      .edit (.addPin 7 "go" .input false), .connect (.pin 3) (.bus 4), .connect (.pin 3) (.pin 6),
      .connect (.bus 4) (.pin 8)]

theorem appended_reachable : appended.Reachable := .run_new "main" rfl

theorem compile_same_appended :
    (appended.compile {}).SameUpTo (fun d => d.ownerId ≠ appended.graph.root)
        (appended.graph.compile {}) ∧
      (appended.compile {}).stats = (appended.graph.compile {}).stats := by
  have horigins : appended.graph.origins = [.pin 3] := by cbv
  have hlive : appended.tables.keys appended.graph (.pin 3) =
      [⟨.node 5, "go"⟩, ⟨.node 7, "go"⟩] := by cbv
  have hbuilt : (Tables.build appended.graph).keys appended.graph (.pin 3) =
      [⟨.node 7, "go"⟩, ⟨.node 5, "go"⟩] := by cbv
  have hagrees : ∀ o k, appended.Agrees o k := by
    intro o k
    by_cases ho : appended.graph.isOrigin o = true
    · have hpin := Tables.mem_origins.2 ho
      rw [horigins, List.mem_singleton] at hpin
      subst hpin
      unfold Agrees Tables.Agrees
      rw [hlive, hbuilt, List.mem_pair, List.mem_pair, or_comm]
    · exact appended_reachable.sound.agrees_of_not_isOrigin ho
  have h := compile_same appended_reachable {}
  exact ⟨h.1, (h.2 fun o k _ => hagrees o k).2.2⟩

/-- The two programs list the destinations of a message in different orders. -/
theorem compile_order_differs :
    appended.Reachable ∧ appended.compile {} ≠ appended.graph.compile {} := by
  have hlive : ((appended.compile {}).program.nodes.flatMap (·.outputs)).map (·.destinations) =
      [[⟨"go", "Y", 5⟩, ⟨"go", "Z", 7⟩]] := by cbv
  have hbuilt : ((appended.graph.compile {}).program.nodes.flatMap (·.outputs)).map
      (·.destinations) = [[⟨"go", "Z", 7⟩, ⟨"go", "Y", 5⟩]] := by cbv
  refine ⟨appended_reachable, fun h => ?_⟩
  rw [h, hbuilt] at hlive
  revert hlive
  decide

end Blueprint
end MessageGraph
