import MessageGraph.Proofs.Program.Flatten
import MessageGraph.Proofs.Blueprint.Rebuild

/-!
# Programs are closed

Every destination of a compiled program is declared by the program: the top-level group, one of its
filters, or one of its nodes with an input of that name. Rows come from the tables, descriptors from
flattening. Three facts bring them together:

* `described_elements`: there is a descriptor for each element, in their order;
* `exists_target_of_mem_row`: what stands in a row is the destination of a target in a table;
* `declares_of_admits`: what a sound table may hold is declared under the name it receives.

Result: `destinations_declared`, for every model that operations lead to and that has no broken link.
-/
namespace MessageGraph

/-- A name receives nothing but the messages it stands for. -/
theorem Message.mem_expand_of_received {variant name received : String} {fromPattern : Bool}
    (h : Message.received variant fromPattern name = some received) :
    received ∈ Message.expand name := by
  unfold Message.received at h
  unfold Message.expand
  cases hp : Pattern.parse? name with
  | some p =>
    rw [hp] at h
    exact List.mem_of_find?_eq_some h
  | none =>
    rw [hp] at h
    have hname : name = received := by
      simp only at h
      split at h
      · split at h
        · exact Option.some.inj h
        · cases h
      · exact Option.some.inj h
    rw [hname]
    exact List.mem_singleton.2 rfl

/-- In a list without repeated keys there is one element for the key of each. -/
theorem filter_eq_singleton {α κ : Type} [DecidableEq κ] {key : α → κ} {l : List α}
    (hnd : (l.map key).Nodup) {a : α} (ha : a ∈ l) : l.filter (key · = key a) = [a] := by
  induction l with
  | nil => cases ha
  | cons b l ih =>
    rw [List.map_cons, List.nodup_cons] at hnd
    rcases List.mem_cons.1 ha with rfl | ha'
    · have hrest : l.filter (key · = key a) = [] := by
        refine List.filter_eq_nil_iff.2 fun c hc hkey => hnd.1 ?_
        rw [← of_decide_eq_true hkey]
        exact List.mem_map_of_mem hc
      rw [List.filter_cons_of_pos (by simp), hrest]
    · have hne : key b ≠ key a := fun h => hnd.1 (h ▸ List.mem_map_of_mem ha')
      rw [List.filter_cons_of_neg (by simpa using hne), ih hnd.2 ha']

theorem mem_filterMap_pair {α : Type} {get? : Id → Option α} {l : List Id} {i : Id} {a : α}
    (h : (i, a) ∈ l.filterMap fun id => (get? id).map fun x => (id, x)) : i ∈ l ∧ get? i = some a := by
  obtain ⟨j, hj, h⟩ := List.mem_filterMap.1 h
  obtain ⟨x, hx, he⟩ := Option.map_eq_some_iff.1 h
  cases he
  exact ⟨hj, hx⟩

/-! ## Descriptors -/

namespace Element

def node? : Element → Option Id
  | source node => some node
  | filter _ => none

def bus? : Element → Option Id
  | source _ => none
  | filter bus => some bus

end Element

/-- The element that was described. -/
def Described.element : Described → Element
  | .node d => .source d.id
  | .filter d _ => .filter d.bus

namespace Graph

variable {g : Graph} {t : Tables} {options : Options}

theorem describe?_element {binding : String} {e : Element} {d : Described}
    (h : g.describe? t binding e = some d) : d.element = e := by
  cases e with
  | source n =>
    obtain ⟨m, -, h⟩ := Option.bind_eq_some_iff.1 h
    obtain ⟨s, -, rfl⟩ := Option.map_eq_some_iff.1 h
    rfl
  | filter bus =>
    obtain ⟨b, -, rfl⟩ := Option.map_eq_some_iff.1 h
    rfl

theorem describe?_isSome (w : g.WellFormed) {e : Element} (he : e ∈ g.elements) (t : Tables)
    (binding : String) : (g.describe? t binding e).isSome = true := by
  rcases exists_of_mem_elements w he with ⟨n, s, rfl, hs⟩ | ⟨bus, b, rfl, hb, -⟩
  · obtain ⟨m, hm, hs⟩ := Option.bind_eq_some_iff.1 hs
    simp only [describe?, hm, hs, Option.bind_some, Option.map_some, Option.isSome_some]
  · simp only [describe?, hb, Option.map_some, Option.isSome_some]

/-- There is a descriptor for each element, in their order. -/
theorem described_elements (w : g.WellFormed) (t : Tables) (options : Options) :
    (g.described t options).map Described.element = g.elements := by
  have hbound : (g.importAll options g.elements { separator := options.aliasSeparator }).1.map
      (·.1) = g.elements := importAll_elements fun e => behaviorOf?_isSome w
  unfold described
  rw [List.map_filterMap]
  conv => rhs; rw [← hbound]
  rw [← List.filterMap_eq_map]
  refine List.filterMap_congr fun (e, binding) hp => ?_
  have he : e ∈ g.elements := by
    rw [← hbound]
    exact List.mem_map_of_mem hp
  obtain ⟨d, hd⟩ := Option.isSome_iff_exists.1 (describe?_isSome w he t binding)
  show (g.describe? t binding e).map Described.element = some e
  rw [hd, Option.map_some, describe?_element hd]

theorem mem_described {d : Described} (h : d ∈ g.described t options) :
    ∃ e binding, g.describe? t binding e = some d := by
  obtain ⟨⟨e, binding⟩, -, h⟩ := List.mem_filterMap.1 h
  exact ⟨e, binding, h⟩

theorem exists_described (w : g.WellFormed) {e : Element} (he : e ∈ g.elements) (t : Tables)
    (options : Options) :
    ∃ d binding, d ∈ g.described t options ∧ g.describe? t binding e = some d := by
  rw [← described_elements w t options] at he
  obtain ⟨d, hd, rfl⟩ := List.mem_map.1 he
  obtain ⟨e, binding, h⟩ := mem_described hd
  exact ⟨d, binding, hd, by rw [describe?_element h]; exact h⟩

/-- A node of a program describes a source. -/
theorem exists_source_of_mem_nodes {d : NodeDescriptor}
    (h : d ∈ (g.compileWith t options).program.nodes) :
    ∃ n s binding, g.source? d.id = some s ∧ d = g.describeSource t d.id n s binding := by
  obtain ⟨x, hx, hnode⟩ := List.mem_filterMap.1 h
  obtain ⟨e, binding, he⟩ := mem_described hx
  cases e with
  | filter bus =>
    obtain ⟨b, -, rfl⟩ := Option.map_eq_some_iff.1 he
    cases hnode
  | source i =>
    obtain ⟨n, hn, he⟩ := Option.bind_eq_some_iff.1 he
    obtain ⟨s, hs, rfl⟩ := Option.map_eq_some_iff.1 he
    cases hnode
    refine ⟨n, s, binding, ?_, rfl⟩
    show (g.node? i).bind Node.source? = some s
    rw [hn, Option.bind_some, hs]

/-- A filter of a program describes a bus. -/
theorem exists_bus_of_mem_filters {d : FilterDescriptor}
    (h : d ∈ (g.compileWith t options).program.filters) :
    ∃ b, g.bus? d.bus = some b ∧ d.rows = g.filterRows t b := by
  obtain ⟨x, hx, hfilter⟩ := List.mem_filterMap.1 h
  obtain ⟨e, binding, he⟩ := mem_described hx
  cases e with
  | source i =>
    obtain ⟨n, -, he⟩ := Option.bind_eq_some_iff.1 he
    obtain ⟨s, -, rfl⟩ := Option.map_eq_some_iff.1 he
    cases hfilter
  | filter bus =>
    obtain ⟨b, hb, rfl⟩ := Option.map_eq_some_iff.1 he
    cases hfilter
    exact ⟨b, hb, rfl⟩

/-! ### Each stands for itself alone -/

theorem nodeIds_compileWith (w : g.WellFormed) :
    (g.compileWith t options).program.nodes.map (·.id) = g.elements.filterMap Element.node? := by
  rw [nodes_compileWith, ← described_elements w t options,
    List.map_filterMap, List.filterMap_map]
  refine List.filterMap_congr fun d _ => ?_
  cases d <;> rfl

theorem filterBuses_compileWith (w : g.WellFormed) :
    (g.compileWith t options).program.filters.map (·.bus) = g.elements.filterMap Element.bus? := by
  rw [filters_compileWith, ← described_elements w t options,
    List.map_filterMap, List.filterMap_map]
  refine List.filterMap_congr fun d _ => ?_
  cases d <;> rfl

theorem nodeIds_nodup (w : g.WellFormed) :
    ((g.compileWith t options).program.nodes.map (·.id)).Nodup := by
  rw [nodeIds_compileWith w]
  refine (elements_nodup w).filterMap fun a b n ha hb => ?_
  cases a <;> cases ha
  cases b <;> cases hb
  rfl

theorem filterBuses_nodup (w : g.WellFormed) :
    ((g.compileWith t options).program.filters.map (·.bus)).Nodup := by
  rw [filterBuses_compileWith w]
  refine (elements_nodup w).filterMap fun a b n ha hb => ?_
  cases a <;> cases ha
  cases b <;> cases hb
  rfl

/-- The ids of the top-level group, of the nodes and of the filters are all different. -/
theorem owners_nodup (w : g.WellFormed) :
    (g.root :: ((g.compileWith t options).program.nodes.map (·.id) ++
      (g.compileWith t options).program.filters.map (·.bus))).Nodup := by
  have hnode : ∀ n, n ∈ g.elements.filterMap Element.node? → ∃ s, g.source? n = some s := by
    intro n hn
    obtain ⟨e, he, hen⟩ := List.mem_filterMap.1 hn
    rcases exists_of_mem_elements w he with ⟨m, s, rfl, hs⟩ | ⟨bus, b, rfl, -⟩
    · cases hen
      exact ⟨s, hs⟩
    · cases hen
  have hbus : ∀ x, x ∈ g.elements.filterMap Element.bus? → g.has .bus x = true := by
    intro x hx
    obtain ⟨e, he, hex⟩ := List.mem_filterMap.1 hx
    rcases exists_of_mem_elements w he with ⟨m, s, rfl, -⟩ | ⟨bus, b, rfl, hb, -⟩
    · cases hex
    · cases hex
      exact IdMap.contains_of_get? hb
  rw [List.nodup_cons, List.nodup_append]
  refine ⟨fun h => ?_, nodeIds_nodup w, filterBuses_nodup w, fun n hn x hx hnx => ?_⟩
  · rw [nodeIds_compileWith w, filterBuses_compileWith w, List.mem_append] at h
    rcases h with h | h
    · -- the top-level node is a group
      obtain ⟨s, hs⟩ := hnode _ h
      obtain ⟨r, hr⟩ := w.tree.root_group
      cases (group?_of_source? hs).symm.trans hr
    · exact w.node_or_bus w.contains_root (hbus _ h)
  · rw [nodeIds_compileWith w] at hn
    rw [filterBuses_compileWith w] at hx
    obtain ⟨s, hs⟩ := hnode n hn
    exact w.node_or_bus (contains_of_source? hs) (hnx ▸ hbus x hx)

end Graph

/-! ## Closed programs -/

/-- Every row of a program. -/
def Program.rows (p : Program) : List Row :=
  p.nodes.flatMap (·.outputs) ++ p.filters.flatMap (·.rows)

/-- A program whose top-level group has this id says what a destination is: the top-level group, one
filter, or one node that has an input of this name; and it calls it what the destination calls it. -/
inductive Program.Declares (p : Program) (root : Id) (d : Destination) : Prop
  | boundary (hid : d.ownerId = root) (hname : d.owner = p.name)
  | filter {f : FilterDescriptor} (hid : p.filters.filter (·.bus = d.ownerId) = [f])
      (hname : d.owner = f.name)
  | node {n : NodeDescriptor} {i : Input} (hid : p.nodes.filter (·.id = d.ownerId) = [n])
      (hinput : i ∈ n.inputs) (hvariant : i.name = d.variant) (hname : d.owner = n.name)

namespace Graph

variable {g : Graph} {t : Tables} {options : Options}

/-- A row of a program is about one message of an origin: an output pin of a node, or an outgoing tack of a
filter. -/
inductive RowFrom (g : Graph) (p : Program) (row : Row) : Endpoint → Prop
  | pin {n : NodeDescriptor} {i : Id} {q : Pin} (hn : n ∈ p.nodes) (hrow : row ∈ n.outputs)
      (hq : g.pin? i = some q) (hnode : q.node = n.id) (hout : q.direction = .output)
      (hv : row.variant ∈ Message.expand q.name) : RowFrom g p row (.pin i)
  | tack {f : FilterDescriptor} {i : Id} {k : Tack} (hf : f ∈ p.filters) (hrow : row ∈ f.rows)
      (hk : g.tack? i = some k) (hbus : k.bus = f.bus) (hout : k.flow = .outgoing)
      (hv : Message.overlap row.variant k.message = true) : RowFrom g p row (.tack i)

/-- What stands in a row is the destination of a target in the table of the row's origin. -/
theorem exists_target_of_mem_row (w : g.WellFormed) {row : Row} {d : Destination}
    (hrow : row ∈ (g.compileWith t options).program.rows) (hd : d ∈ row.destinations) :
    ∃ origin target fromPattern, RowFrom g (g.compileWith t options).program row origin ∧
      target ∈ t.get origin ∧ g.destination? row.variant fromPattern target = some d := by
  rcases List.mem_append.1 hrow with hrow | hrow
  · obtain ⟨nd, hnd, hrow⟩ := List.mem_flatMap.1 hrow
    obtain ⟨n, s, binding, hs, hdesc⟩ := exists_source_of_mem_nodes hnd
    have hout := hrow
    rw [hdesc] at hout
    obtain ⟨⟨pin, p⟩, hp, hout⟩ := List.mem_flatMap.1 hout
    obtain ⟨variant, hv, rfl⟩ := List.mem_map.1 hout
    obtain ⟨hp, hdirection⟩ := List.mem_filter.1 hp
    obtain ⟨hmem, hget⟩ := mem_filterMap_pair hp
    have hnode : p.node = nd.id := by
      have howner : g.pinOwner? pin = some nd.id :=
        w.pins.mem_iff.1 ((pinIds_of_source? hs).symm ▸ hmem)
      rwa [pinOwner?, hget, Option.map_some, Option.some.injEq] at howner
    obtain ⟨target, ht, hd⟩ := List.mem_filterMap.1 hd
    exact ⟨.pin pin, target, _, .pin hnd hrow hget hnode (of_decide_eq_true hdirection) hv, ht, hd⟩
  · obtain ⟨fd, hfd, hrow⟩ := List.mem_flatMap.1 hrow
    obtain ⟨b, hb, hrows⟩ := exists_bus_of_mem_filters hfd
    have hout := hrow
    rw [hrows] at hout
    obtain ⟨⟨variant, incoming⟩, -, rfl⟩ := List.mem_map.1 hout
    have hd := (firstByKey_sublist _).subset hd
    obtain ⟨⟨tack, k⟩, hk, hd⟩ := List.mem_flatMap.1 hd
    obtain ⟨hk, hv⟩ := List.mem_filter.1 hk
    obtain ⟨hk, hflow⟩ := List.mem_filter.1 hk
    obtain ⟨hmem, hget⟩ := mem_filterMap_pair hk
    have hbus : k.bus = fd.bus := by
      have howner : g.tackOwner? tack = some fd.bus :=
        w.tacks.mem_iff.1 (by rw [tackIds, hb]; exact hmem)
      rwa [tackOwner?, hget, Option.map_some, Option.some.injEq] at howner
    obtain ⟨target, ht, hd⟩ := List.mem_filterMap.1 hd
    exact ⟨.tack tack, target, _, .tack hfd hrow hget hbus (of_decide_eq_true hflow) hv, ht, hd⟩

/-- A source that is listed has one descriptor, with an input for each message that a pin receives. -/
theorem declares_node (w : g.WellFormed) (hu : g.Unbroken) {i : Id} {p : Pin} {m : Node}
    (hp : g.pin? i = some p) (hin : p.direction = .input) (hm : g.node? p.node = some m)
    {variant : String} (hv : variant ∈ Message.expand p.name) :
    (g.compileWith t options).program.Declares g.root ⟨variant, m.name, p.node⟩ := by
  have hi : i ∈ g.pinIds p.node := w.pins.mem_iff.2 (by rw [pinOwner?, hp]; rfl)
  obtain ⟨s, hs, hi⟩ := source?_of_mem_elim hi
  have he : Element.source p.node ∈ g.elements :=
    (mem_elements w hu).2 (Or.inl ⟨p.node, s, rfl, hs⟩)
  obtain ⟨x, binding, hx, hdesc⟩ := exists_described w he t options
  have hsource : m.source? = some s := by
    rw [source?, hm, Option.bind_some] at hs
    exact hs
  simp only [describe?, hm, hsource, Option.bind_some, Option.map_some, Option.some.injEq] at hdesc
  subst hdesc
  have hmem : g.describeSource t p.node m s binding ∈ (g.compileWith t options).program.nodes :=
    List.mem_filterMap.2 ⟨_, hx, rfl⟩
  refine .node (filter_eq_singleton (nodeIds_nodup w) hmem) (i := ⟨variant, p.channel⟩) ?_ rfl rfl
  refine List.mem_flatMap.2 ⟨(i, p), List.mem_filter.2 ⟨?_, decide_eq_true hin⟩, ?_⟩
  · exact List.mem_filterMap.2 ⟨i, hi, by rw [hp]; rfl⟩
  · exact List.mem_map_of_mem hv

/-- A filtered bus has one descriptor. -/
theorem exists_filter (w : g.WellFormed) (hu : g.Unbroken) {bus : Id} {b : Bus}
    (hb : g.bus? bus = some b) (hf : b.isFiltered = true) (t : Tables) (options : Options) :
    ∃ binding, (g.compileWith t options).program.filters.filter (·.bus = bus) =
      [⟨b.name, bus, binding, g.filterRows t b⟩] := by
  have he : Element.filter bus ∈ g.elements := (mem_elements w hu).2 (Or.inr ⟨bus, b, rfl, hb, hf⟩)
  obtain ⟨x, binding, hx, hdesc⟩ := exists_described w he t options
  simp only [describe?, hb, Option.map_some, Option.some.injEq] at hdesc
  subst hdesc
  have hmem : (⟨b.name, bus, binding, g.filterRows t b⟩ : FilterDescriptor) ∈
      (g.compileWith t options).program.filters := List.mem_filterMap.2 ⟨_, hx, rfl⟩
  exact ⟨binding, filter_eq_singleton (filterBuses_nodup w) hmem⟩

theorem declares_filter (w : g.WellFormed) (hu : g.Unbroken) {bus : Id} {b : Bus}
    (hb : g.bus? bus = some b) (hf : b.isFiltered = true) (variant : String) :
    (g.compileWith t options).program.Declares g.root ⟨variant, b.name, bus⟩ := by
  obtain ⟨binding, hfilter⟩ := exists_filter w hu hb hf t options
  exact .filter hfilter rfl

/-- What a sound table may hold is declared under the name it receives. -/
theorem declares_of_admits (w : g.WellFormed) (hu : g.Unbroken) {origin : Endpoint} {target : Target}
    (ha : Tables.Admits g origin target) {variant : String} {fromPattern : Bool} {d : Destination}
    (hd : g.destination? variant fromPattern target = some d) :
    (g.compileWith t options).program.Declares g.root d := by
  obtain ⟨received, hr, hd⟩ := Option.bind_eq_some_iff.1 hd
  have htop : ∀ gate, g.destination? variant fromPattern (.boundary g.root gate) = some d →
      (g.compileWith t options).program.Declares g.root d := by
    intro gate h
    obtain ⟨received, -, h⟩ := Option.bind_eq_some_iff.1 h
    obtain ⟨m, hm, rfl⟩ := Option.map_eq_some_iff.1 h
    refine .boundary rfl ?_
    show m.name = g.name
    rw [name, hm]
  have hd' : g.destination? variant fromPattern target = some d :=
    Option.bind_eq_some_iff.2 ⟨received, hr, hd⟩
  rcases ha with hdel | ⟨gate, -, rfl, -⟩
  · cases hdel with
    | boundary _ _ _ hroot _ _ => exact htop _ (hroot ▸ hd')
    | @pin e i p _ hc hp _ =>
      simp only [hp, Option.bind_some] at hr
      obtain ⟨m, hm, rfl⟩ := Option.map_eq_some_iff.1 hd
      have hin : p.direction = .input := by
        have hinput := hc.input
        simpa only [direction?, hp, Option.map_some, Option.some.injEq] using hinput
      exact declares_node w hu hp hin hm (Message.mem_expand_of_received hr)
    | tack _ _ _ hb hf =>
      obtain ⟨b, hb', rfl⟩ := Option.map_eq_some_iff.1 hd
      rw [hb] at hb'
      cases hb'
      exact declares_filter w hu hb hf received
  · exact htop gate hd'

/-- A program that is compiled against sound tables is closed. -/
theorem compileWith_declares (w : g.WellFormed) (hu : g.Unbroken) (hs : t.Sound g) {row : Row}
    (hrow : row ∈ (g.compileWith t options).program.rows) {d : Destination}
    (hd : d ∈ row.destinations) : (g.compileWith t options).program.Declares g.root d := by
  obtain ⟨origin, target, fromPattern, -, ht, hd⟩ := exists_target_of_mem_row w hrow hd
  exact declares_of_admits w hu (hs.admits (hs.isOrigin_of_mem ht) ht) hd

end Graph

namespace Blueprint

variable {b : Blueprint}

/-- In every model without a broken link the compiled program tells nodes, filters and the top-level
group apart by id, and each destination of each row is one of these under its own name; a node has an
input called like the message that is delivered. -/
theorem destinations_declared (hb : b.Reachable) (hu : b.graph.Unbroken) (options : Options) :
    (b.graph.root :: ((b.compile options).program.nodes.map (·.id) ++
      (b.compile options).program.filters.map (·.bus))).Nodup ∧
    ∀ row, row ∈ (b.compile options).program.rows → ∀ d, d ∈ row.destinations →
      (b.compile options).program.Declares b.graph.root d :=
  ⟨Graph.owners_nodup hb.wellFormed, fun _ hrow _ hd =>
    Graph.compileWith_declares hb.wellFormed hu hb.sound hrow hd⟩

/-- A clock that sends to a lamp, to a filter in front of the lamp, and out of the model. -/
def sifted : Blueprint :=
  (new "main").run
    [.edit (.addSource none 1 "clock" { identifier := "clock" }),
      .edit (.addPin 2 "tick" .output false),
      .edit (.addSource none 1 "lamp" { identifier := "lamp" }), .edit (.addPin 4 "tick" .input false),
      .edit (.addGate 1 "tick" .output false), .edit (.addBus none 1 "sieve" (some { identifier := "sieve" })),
      .connect (.pin 3) (.pin 5), .connect (.pin 3) (.bus 7), .connect (.bus 7) (.pin 5),
      .connect (.pin 3) (.proxy 6)]

theorem destinations_declared_sifted :
    sifted.graph.Unbroken ∧
    ⟨"tick", [⟨"tick", "lamp", 4⟩, ⟨"tick", "sieve", 7⟩, ⟨"tick", "main", 1⟩]⟩ ∈
      (sifted.compile {}).program.rows ∧
    (sifted.compile {}).program.Declares sifted.graph.root ⟨"tick", "sieve", 7⟩ := by
  have hreach : sifted.Reachable := (Reachable.initial (.new "main")).run fun group linked h => by
    simp only [List.mem_cons, reduceCtorEq, List.not_mem_nil, or_self] at h
  have hu : sifted.graph.Unbroken := Graph.unbroken_of_all (by cbv)
  have hrows : (sifted.compile {}).program.rows.head? =
      some ⟨"tick", [⟨"tick", "lamp", 4⟩, ⟨"tick", "sieve", 7⟩, ⟨"tick", "main", 1⟩]⟩ := by cbv
  have hrow := List.mem_of_mem_head? hrows
  exact ⟨hu, hrow, (destinations_declared hreach hu {}).2 _ hrow _ (by simp)⟩

end Blueprint
end MessageGraph
