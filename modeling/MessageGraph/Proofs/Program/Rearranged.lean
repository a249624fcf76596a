import MessageGraph.Proofs.Program.Filter
import MessageGraph.Proofs.Program.Order

/-!
# The order in which messages arrive at a filter

A filter has one row for each message that arrives, made for the first tack that brings it. A message that
comes under a plain name goes on to any plain destination, one that a pattern stands for only to those that
are called like it. So the rows of a filter can depend on the order of its tacks.

* What goes on from a pattern is the part of what goes on from a plain name that keeps its name
  (`destinations_pattern`).
* `mem_row_iff` says of a row what it delivers to, with the order in no more than the kind of the name by
  which the message came first.
* Nothing else of a program depends on that order: no walk passes a filter (`withTacks_resolve`), and
  flattening and binding do not look at tacks.

Result: `compile_withTacks`, for any graph and any filter. The same message brought by a plain name and by a
pattern is delivered to more if the plain name comes first (`filter_order_matters`).
-/
namespace MessageGraph

/-- From a pattern a name receives a message only as itself. -/
theorem Message.received_pattern (variant name : String) :
    received variant true name = (received variant false name).filter (· = variant) := by
  unfold received
  cases Pattern.parse? name with
  | none =>
    by_cases h : name = variant <;> simp [h, Option.filter_some]
  | some p =>
    cases h : p.expand.find? (· = variant) with
    | none => simp only [h, Option.filter_none]
    | some received => simp only [h, Option.filter_some_pos (List.find?_some h)]

namespace Graph

variable {g : Graph} {t : Tables} {bus : Id} {b : Bus} {ts : List Id}

/-! ## Plain names and patterns -/

theorem variant_describe? {target : Target} {variant : String} {d : Destination}
    (h : Destination.describe? g target variant = some d) : d.variant = variant := by
  cases target <;> (obtain ⟨_, -, rfl⟩ := Option.map_eq_some_iff.1 h; rfl)

/-- Whether a message keeps its name can be seen before and after its destination is described. -/
theorem bind_describe?_filter (g : Graph) (target : Target) (variant : String) (o : Option String) :
    (o.filter (· = variant)).bind (Destination.describe? g target) =
      (o.bind (Destination.describe? g target)).filter (·.variant = variant) := by
  cases o with
  | none => rfl
  | some received =>
    rw [Option.filter_some, Option.bind_some]
    cases hd : Destination.describe? g target received with
    | none => split <;> simp [hd]
    | some d =>
      rw [Option.filter_some, variant_describe? hd]
      split <;> simp [hd]

theorem destination?_pattern (g : Graph) (variant : String) (target : Target) :
    g.destination? variant true target =
      (g.destination? variant false target).filter (·.variant = variant) := by
  unfold destination?
  rw [← bind_describe?_filter]
  cases target with
  | pin n i => cases hp : g.pin? i <;> simp [hp, Message.received_pattern]
  | boundary n i => cases hp : g.gate? i <;> simp [hp, Message.received_pattern]
  | tack i k => simp [Option.filter_some]

/-- What a message goes on to from a pattern are the destinations that it has from a plain name and that
take it under its own name. -/
theorem destinations_pattern (g : Graph) (t : Tables) (origin : Endpoint) (variant : String) :
    g.destinations t origin variant true =
      (g.destinations t origin variant false).filter (·.variant = variant) := by
  unfold destinations
  rw [List.filter_filterMap]
  exact List.filterMap_congr fun target _ => g.destination?_pattern variant target

theorem mem_destinations_iff {origin : Endpoint} {variant : String} {fromPattern : Bool}
    {d : Destination} : d ∈ g.destinations t origin variant fromPattern ↔
      d ∈ g.destinations t origin variant false ∧ (fromPattern = true → d.variant = variant) := by
  cases fromPattern with
  | false => simp only [Bool.false_eq_true, false_imp_iff, and_true]
  | true => simp only [destinations_pattern, List.mem_filter, decide_eq_true_eq, forall_const]

/-! ## One row -/

/-- An incoming tack of a bus brings a message. -/
def Brings (g : Graph) (b : Bus) (variant : String) (k : Tack) : Prop :=
  ∃ i ∈ b.tacks, g.tack? i = some k ∧ k.flow = .incoming ∧ variant ∈ Message.expand k.message

/-- An outgoing tack of a bus hands a message on to a destination, as it does from a plain name. -/
def HandsOn (g : Graph) (t : Tables) (b : Bus) (variant : String) (d : Destination) : Prop :=
  ∃ i ∈ b.tacks, ∃ k, g.tack? i = some k ∧ k.flow = .outgoing ∧
    Message.overlap variant k.message = true ∧ d ∈ g.destinations t (.tack i) variant false

theorem mem_tacks_iff {i : Id} {k : Tack} :
    (i, k) ∈ (b.tacks.filterMap fun id => (g.tack? id).map fun tack => (id, tack)) ↔
      i ∈ b.tacks ∧ g.tack? i = some k := by
  refine ⟨mem_filterMap_pair, fun ⟨hi, hk⟩ => List.mem_filterMap.2 ⟨i, hi, ?_⟩⟩
  rw [hk]
  rfl

/-- What arrives was brought. -/
theorem mem_arrivals {tacks : List Tack} {variant : String} {k : Tack}
    (h : (variant, k) ∈ arrivals tacks) :
    k ∈ tacks ∧ k.flow = .incoming ∧ variant ∈ Message.expand k.message := by
  obtain ⟨k', hk', h⟩ := List.mem_flatMap.1 ((firstByKey_sublist _).subset h)
  obtain ⟨v, hv, he⟩ := List.mem_map.1 h
  cases he
  obtain ⟨hk, hflow⟩ := List.mem_filter.1 hk'
  exact ⟨hk, of_decide_eq_true hflow, hv⟩

/-- A row delivers its message to all that the outgoing tacks carry it to from a plain name; if the message
came by a pattern first, only to those that take it under its own name. -/
theorem mem_row_iff {row : Row} (h : row ∈ g.filterRows t b) :
    ∃ k, g.Brings b row.variant k ∧ ∀ d, d ∈ row.destinations ↔
      g.HandsOn t b row.variant d ∧ (Message.isPattern k.message = true → d.variant = row.variant) := by
  obtain ⟨⟨variant, k⟩, hk, rfl⟩ := List.mem_map.1 h
  obtain ⟨hmem, hflow, hv⟩ := mem_arrivals hk
  obtain ⟨⟨i, k⟩, hi, rfl⟩ := List.mem_map.1 hmem
  obtain ⟨hi, hget⟩ := mem_tacks_iff.1 hi
  refine ⟨k, ⟨i, hi, hget, hflow, hv⟩, fun d => ?_⟩
  have hfirst : ∀ l : List Destination, d ∈ firstByKey (fun d => d) l ↔ d ∈ l := fun l => by
    have hkeys : d ∈ (firstByKey (fun d => d) l).map (fun d => d) ↔ d ∈ l.map fun d => d :=
      mem_keys_firstByKey
    rwa [List.map_id', List.map_id'] at hkeys
  simp only [hfirst, List.mem_flatMap, List.mem_filter, Prod.exists, mem_tacks_iff, decide_eq_true_eq]
  constructor
  · rintro ⟨j, out, ⟨⟨⟨hj, hout⟩, hflow⟩, hov⟩, hd⟩
    obtain ⟨hd, hname⟩ := mem_destinations_iff.1 hd
    exact ⟨⟨j, hj, out, hout, hflow, hov, hd⟩, hname⟩
  · rintro ⟨⟨j, hj, out, hout, hflow, hov, hd⟩, hname⟩
    exact ⟨j, out, ⟨⟨⟨hj, hout⟩, hflow⟩, hov⟩, mem_destinations_iff.2 ⟨hd, hname⟩⟩

theorem nodup_variants_filterRows (g : Graph) (t : Tables) (b : Bus) :
    ((g.filterRows t b).map (·.variant)).Nodup := by
  rw [variants_filterRows]
  exact nodup_variants_arrivals _

theorem mem_variants_iff {variant : String} :
    variant ∈ (g.filterRows t b).map (·.variant) ↔ ∃ k, g.Brings b variant k := by
  rw [variants_filterRows, mem_variants_arrivals]
  constructor
  · rintro ⟨k, hk, hflow, hv⟩
    obtain ⟨⟨i, k⟩, hi, rfl⟩ := List.mem_map.1 hk
    obtain ⟨hi, hget⟩ := mem_tacks_iff.1 hi
    exact ⟨k, i, hi, hget, hflow, hv⟩
  · rintro ⟨k, i, hi, hget, hflow, hv⟩
    exact ⟨k, List.mem_map.2 ⟨(i, k), mem_tacks_iff.2 ⟨hi, hget⟩, rfl⟩, hflow, hv⟩

/-! ## Another order -/

/-- The graph with the tacks of a bus in another order. -/
def withTacks (g : Graph) (bus : Id) (ts : List Id) : Graph :=
  g.modifyBus bus fun b => { b with tacks := ts }

theorem bus?_withTacks (g : Graph) (bus : Id) (ts : List Id) (i : Id) :
    (g.withTacks bus ts).bus? i =
      if i = bus then (g.bus? i).map fun b => { b with tacks := ts } else g.bus? i :=
  IdMap.get?_modify g.buses bus i _

/-- What does not look at the tacks of buses sees no difference. -/
theorem map_bus?_withTacks {α : Type} {view : Bus → α} (h : ∀ b, view { b with tacks := ts } = view b)
    (i : Id) : ((g.withTacks bus ts).bus? i).map view = (g.bus? i).map view :=
  IdMap.map_get?_modify h

theorem isFiltered_withTacks (g : Graph) (bus : Id) (ts : List Id) (k : Id) :
    ((g.withTacks bus ts).busOf? k).map (·.isFiltered) = (g.busOf? k).map (·.isFiltered) := by
  have htack : (g.withTacks bus ts).tack? k = g.tack? k := rfl
  unfold busOf?
  rw [htack]
  cases g.tack? k with
  | none => rfl
  | some k => exact map_bus?_withTacks (fun _ => rfl) k.bus

theorem isOrigin_withTacks (e : Endpoint) : (g.withTacks bus ts).isOrigin e = g.isOrigin e := by
  cases e with
  | tack k =>
    have hf := congrArg (·.elim false id) (isFiltered_withTacks g bus ts k)
    simp only [Option.elim_map] at hf
    exact congrArg (_ && ·) hf
  | _ => rfl

theorem arrival_withTacks (name : String) (e : Endpoint) :
    (g.withTacks bus ts).arrival name e = g.arrival name e := by
  cases e with
  | tack k =>
    have hf := isFiltered_withTacks g bus ts k
    have htack : (g.withTacks bus ts).tack? k = g.tack? k := rfl
    simp only [arrival, htack]
    cases hk : g.tack? k with
    | none => rfl
    | some k' =>
      cases hb : g.busOf? k with
      | none =>
        rw [hb, Option.map_none, Option.map_eq_none_iff] at hf
        simp only [hf]
      | some b =>
        rw [hb, Option.map_some] at hf
        obtain ⟨b', hb', hf⟩ := Option.map_eq_some_iff.1 hf
        simp only [hb', hf]
  | _ => rfl

theorem departures_withTacks (name : String) (e : Endpoint) :
    (g.withTacks bus ts).departures name e = g.departures name e := by
  have hacross : ∀ route, (g.withTacks bus ts).across? e route = g.across? e route := fun _ => rfl
  have hroutes : (g.withTacks bus ts).routesOf e = g.routesOf e := by cases e <;> rfl
  have hdirection : ∀ far, (g.withTacks bus ts).direction? far = g.direction? far := fun far => by
    cases far <;> rfl
  simp only [departures, hroutes, hacross, hdirection, arrival_withTacks]

/-- A message that has come to this endpoint goes on: it is not where a filter takes messages in. -/
def PassesOn (g : Graph) (e : Endpoint) : Prop :=
  ∀ k b, e = .tack k → g.direction? e = some .input → g.busOf? k = some b → b.isFiltered = false

theorem passesOn_of_departures {name : String} {e far : Endpoint}
    (h : Step.visit far ∈ g.departures name e) : g.PassesOn far := by
  rintro k b rfl - hb
  obtain ⟨route, -, h⟩ := List.mem_flatMap.1 h
  split at h
  · rename_i far' hacross
    split at h
    · cases far' with
      | tack k' =>
        simp only [arrival] at h
        split at h
        · rename_i k'' b' hk hb'
          split at h
          · cases List.mem_singleton.1 h
          · rename_i hf
            cases List.mem_singleton.1 h
            cases hb.symm.trans hb'
            exact Bool.not_eq_true _ ▸ hf
        · cases h
      | pin i =>
        simp only [arrival] at h
        split at h
        · split at h
          · cases List.mem_singleton.1 h
          · cases h
        · cases h
      | proxy i => cases List.mem_singleton.1 h
      | pad i => cases List.mem_singleton.1 h
    · cases h
  · cases h

/-- What a fan-out visits are outgoing tacks. -/
theorem passesOn_of_fanOut {name : String} {k : Id} {far : Endpoint}
    (h : Step.visit far ∈ g.fanOut name k) : g.PassesOn far := by
  unfold fanOut at h
  split at h
  · cases h
  · obtain ⟨other, hother, he⟩ := List.mem_map.1 h
    cases he
    intro k' b he hin _
    cases he
    have hout := (List.mem_filter.1 hother).2
    cases hk : g.tack? other with
    | none => simp [hk] at hout
    | some k'' =>
      simp only [hk, Option.elim_some, Bool.and_eq_true, decide_eq_true_eq] at hout
      rw [direction?_tack hk, hout.2.1] at hin
      cases hin

theorem passesOn_of_onward {name : String} {e far : Endpoint} (h : Step.visit far ∈ g.onward name e) :
    g.PassesOn far := by
  cases e with
  | pin i => exact passesOn_of_departures h
  | proxy i => exact passesOn_of_departures h
  | pad i =>
    simp only [onward] at h
    split at h
    · split at h
      · split at h
        · cases List.mem_singleton.1 h
        · cases h
      · exact passesOn_of_departures h
    · cases h
  | tack i =>
    simp only [onward] at h
    split at h
    · exact passesOn_of_fanOut h
    · exact passesOn_of_departures h

/-- From an endpoint that passes messages on, they go on alike. -/
theorem onward_withTacks (hb : g.bus? bus = some b) (hf : b.isFiltered = true) (name : String)
    {e : Endpoint} (he : g.PassesOn e) : (g.withTacks bus ts).onward name e = g.onward name e := by
  cases e with
  | pin i => exact departures_withTacks name _
  | proxy i => exact departures_withTacks name _
  | pad i =>
    have hgate : (g.withTacks bus ts).gate? i = g.gate? i := rfl
    have hroot : (g.withTacks bus ts).root = g.root := rfl
    simp only [onward, hgate, hroot, departures_withTacks]
  | tack i =>
    have hdirection : (g.withTacks bus ts).direction? (.tack i) = g.direction? (.tack i) := rfl
    simp only [onward, hdirection, departures_withTacks]
    by_cases hin : g.direction? (.tack i) = some .input
    · rw [if_pos hin, if_pos hin]
      have htack : (g.withTacks bus ts).tack? = g.tack? := rfl
      have hbus : (g.withTacks bus ts).busOf? i = g.busOf? i := by
        unfold busOf?
        rw [htack]
        cases hk : g.tack? i with
        | none => rfl
        | some k =>
          rw [Option.bind_some, Option.bind_some, bus?_withTacks, if_neg]
          rintro rfl
          have hpass := he i b rfl hin (by rw [busOf?, hk, Option.bind_some, hb])
          rw [hf] at hpass
          cases hpass
      simp only [fanOut, hbus, htack]
    · rw [if_neg hin, if_neg hin]

/-- Everything reaches the same. -/
theorem withTacks_resolve (hb : g.bus? bus = some b) (hf : b.isFiltered = true) (origin : Endpoint) :
    (g.withTacks bus ts).resolve origin = g.resolve origin := by
  have hname : ∀ e, (g.withTacks bus ts).nameOf e = g.nameOf e := fun e => by cases e <;> rfl
  have hkey : (g.withTacks bus ts).targetKey = g.targetKey := by
    funext x
    cases x <;> rfl
  have hlive : ∀ e, (g.withTacks bus ts).contains e = g.contains e := fun e => by cases e <;> rfl
  simp only [resolve, hname, hkey, departures_withTacks]
  exact congrArg _ (walk_congr_of (P := g.PassesOn) (fun e _ => hlive e)
    (fun e he => onward_withTacks hb hf _ he) (fun e x _ hx => passesOn_of_onward hx) _ _
    fun x hx => passesOn_of_departures hx)

theorem build_withTacks (hb : g.bus? bus = some b) (hf : b.isFiltered = true) :
    Tables.build (g.withTacks bus ts) = Tables.build g := by
  have horigins : (g.withTacks bus ts).origins = g.origins :=
    congrArg (List.filter · _) (funext isOrigin_withTacks)
  simp only [Tables.build, horigins, withTacks_resolve hb hf]

/-! ## Flattening and binding -/

theorem filteredBuses_withTacks (s : Group) :
    (g.withTacks bus ts).filteredBuses s = g.filteredBuses s := by
  unfold filteredBuses
  congr 1
  funext i
  exact IdMap.elim_get?_modify fun b : Bus => show ({ b with tacks := ts } : Bus).isFiltered = b.isFiltered from rfl

mutual

theorem flatten_withTacks : (tree : Tree Id) → (g.withTacks bus ts).flatten tree = g.flatten tree
  | .node id children => by
    have hnode : (g.withTacks bus ts).node? = g.node? := rfl
    simp only [flatten, hnode, filteredBuses_withTacks, flattenAll_withTacks children]

theorem flattenAll_withTacks :
    (trees : List (Tree Id)) → (g.withTacks bus ts).flattenAll trees = g.flattenAll trees
  | [] => by rw [flattenAll, flattenAll]
  | tree :: trees => by
    rw [flattenAll, flattenAll, flatten_withTacks tree, flattenAll_withTacks trees]

end

theorem outline_withTacks (n : Id) : (g.withTacks bus ts).outline n = g.outline n := by
  have hwithin : ∀ depth n, (g.withTacks bus ts).outlineWithin depth n = g.outlineWithin depth n := by
    intro depth
    induction depth with
    | zero => exact fun _ => rfl
    | succ depth ih =>
      intro n
      rw [outlineWithin, outlineWithin, funext ih]
      rfl
  exact hwithin g.nodes.size n

theorem locationFor_withTacks (n : Id) (behavior : BehaviorRef) (default : String) :
    (g.withTacks bus ts).locationFor n behavior default = g.locationFor n behavior default := by
  have hancestry : ∀ bound n, (g.withTacks bus ts).ancestry bound n = g.ancestry bound n := by
    intro bound
    induction bound with
    | zero => exact fun _ => rfl
    | succ bound ih =>
      intro n
      rw [ancestry, ancestry, funext ih]
      rfl
  have hlineage : (g.withTacks bus ts).lineage n = g.lineage n := hancestry _ n
  unfold locationFor
  rw [hlineage]
  rfl

theorem behaviorOf?_withTacks (e : Element) :
    (g.withTacks bus ts).behaviorOf? e = g.behaviorOf? e := by
  cases e with
  | source n => rfl
  | filter i =>
    exact IdMap.bind_get?_modify fun b : Bus =>
      show (({ b with tacks := ts } : Bus).filter.map fun f => (f, b.group)) =
        b.filter.map fun f => (f, b.group) from rfl

theorem importAll_withTacks (options : Options) (es : List Element) (m : Manifest) :
    (g.withTacks bus ts).importAll options es m = g.importAll options es m := by
  induction es generalizing m with
  | nil => rfl
  | cons e es ih => simp only [importAll, behaviorOf?_withTacks, locationFor_withTacks, ih]

/-! ## Rows -/

theorem destination?_withTacks (variant : String) (fromPattern : Bool) (target : Target) :
    (g.withTacks bus ts).destination? variant fromPattern target =
      g.destination? variant fromPattern target := by
  cases target with
  | tack i k =>
    exact map_bus?_withTacks (fun b => show Destination.mk variant _ i = ⟨variant, b.name, i⟩ from rfl) i
  | _ => rfl

theorem destinations_withTacks (t : Tables) (origin : Endpoint) (variant : String)
    (fromPattern : Bool) : (g.withTacks bus ts).destinations t origin variant fromPattern =
      g.destinations t origin variant fromPattern :=
  congrArg (List.filterMap · _) (funext (destination?_withTacks variant fromPattern))

theorem brings_withTacks (hts : ts.Perm b.tacks) {variant : String} {k : Tack} :
    (g.withTacks bus ts).Brings { b with tacks := ts } variant k ↔ g.Brings b variant k :=
  exists_congr fun _ => and_congr_left' hts.mem_iff

theorem handsOn_withTacks (hts : ts.Perm b.tacks) {variant : String} {d : Destination} :
    (g.withTacks bus ts).HandsOn t { b with tacks := ts } variant d ↔ g.HandsOn t b variant d := by
  unfold HandsOn
  simp only [destinations_withTacks, hts.mem_iff]
  rfl

/-- A message comes to a bus by names of one kind: all of them plain, or all of them patterns. -/
def OneKind (g : Graph) (b : Bus) (variant : String) : Prop :=
  ∀ k k', g.Brings b variant k → g.Brings b variant k' →
    Message.isPattern k.message = Message.isPattern k'.message

end Graph

/-- The rows of a filter that sees its tacks in one order and in another: one for each message in both, and
rows of the same message deliver it to the same destinations that take it under its own name. Those of a
message that satisfies the test deliver it to the same destinations altogether. -/
structure FilterDescriptor.Reordered (test : String → Prop) (f f' : FilterDescriptor) : Prop where
  name : f'.name = f.name
  bus : f'.bus = f.bus
  filter : f'.filter = f.filter
  nodup : (f.rows.map (·.variant)).Nodup
  nodup' : (f'.rows.map (·.variant)).Nodup
  variants : ∀ variant, variant ∈ f'.rows.map (·.variant) ↔ variant ∈ f.rows.map (·.variant)
  kept : ∀ row ∈ f.rows, ∀ row' ∈ f'.rows, row'.variant = row.variant → ∀ d : Destination,
    d.variant = row.variant → (d ∈ row'.destinations ↔ d ∈ row.destinations)
  all : ∀ row ∈ f.rows, ∀ row' ∈ f'.rows, row'.variant = row.variant → test row.variant →
    ∀ d, d ∈ row'.destinations ↔ d ∈ row.destinations

namespace Graph

variable {g : Graph} {t : Tables} {bus : Id} {b : Bus} {ts : List Id}

/-- The rows of a filter are of the same messages in any order of its tacks. -/
theorem reordered_filterRows (hts : ts.Perm b.tacks) (name binding : String) :
    FilterDescriptor.Reordered (g.OneKind b)
      { name := name, bus := bus, filter := binding, rows := g.filterRows t b }
      { name := name, bus := bus, filter := binding,
        rows := (g.withTacks bus ts).filterRows t { b with tacks := ts } } where
  name := rfl
  bus := rfl
  filter := rfl
  nodup := nodup_variants_filterRows g t b
  nodup' := nodup_variants_filterRows _ t _
  variants variant := by
    rw [mem_variants_iff, mem_variants_iff]
    exact exists_congr fun k => brings_withTacks hts
  kept row hrow row' hrow' hvariant d hd := by
    obtain ⟨k, -, hall⟩ := mem_row_iff hrow
    obtain ⟨k', -, hall'⟩ := mem_row_iff hrow'
    rw [hall, hall', handsOn_withTacks hts, hvariant]
    exact and_congr_right fun _ => iff_of_true (fun _ => hd) fun _ => hd
  all row hrow row' hrow' hvariant hkind d := by
    obtain ⟨k, hk, hall⟩ := mem_row_iff hrow
    obtain ⟨k', hk', hall'⟩ := mem_row_iff hrow'
    rw [hvariant, brings_withTacks hts] at hk'
    rw [hall, hall', handsOn_withTacks hts, hvariant, hkind k k' hk hk']

/-! ## Programs -/

end Graph

/-- Descriptions from a graph that has the tacks of one of its filters in another order. -/
inductive Described.Reordered (bus : Id) (test : String → Prop) : Described → Described → Prop
  | same (d : Described) (h : ∀ f, d.filter? = some f → f.bus ≠ bus) : Reordered bus test d d
  | filter {f f' : FilterDescriptor} {group : Id} (hbus : f.bus = bus) (h : f.Reordered test f') :
    Reordered bus test (.filter f group) (.filter f' group)

namespace Graph

variable {g : Graph} {t : Tables} {bus : Id} {b : Bus} {ts : List Id}

theorem describe?_withTacks (hb : g.bus? bus = some b) (hts : ts.Perm b.tacks) (binding : String)
    (e : Element) : Option.Rel (Described.Reordered bus (g.OneKind b)) (g.describe? t binding e)
      ((g.withTacks bus ts).describe? t binding e) := by
  cases e with
  | source n =>
    have hrows : (g.withTacks bus ts).describeSource t = g.describeSource t := by
      funext id n s binding
      simp only [describeSource, outputRows, destinations_withTacks]
      rfl
    have hsame : (g.withTacks bus ts).describe? t binding (.source n) =
        g.describe? t binding (.source n) := by
      simp only [describe?, hrows]
      rfl
    rw [hsame]
    cases hd : g.describe? t binding (.source n) with
    | none => exact .none
    | some d =>
      refine .some (.same d fun f hf => ?_)
      have := describe?_element hd
      cases d <;> cases hf
      cases this
  | filter i =>
    simp only [describe?, bus?_withTacks]
    by_cases hi : i = bus
    · subst hi
      rw [if_pos rfl, hb]
      exact .some (.filter rfl (reordered_filterRows hts b.name binding))
    · rw [if_neg hi]
      cases hbus : g.bus? i with
      | none => exact .none
      | some c =>
        have hrows : (g.withTacks bus ts).filterRows t c = g.filterRows t c := by
          simp only [filterRows, destinations_withTacks]
          rfl
        simp only [Option.map_some, hrows]
        exact .some (.same _ fun f hf => by cases hf; exact hi)

theorem elements_withTacks : (g.withTacks bus ts).elements = g.elements := by
  unfold elements
  rw [outline_withTacks, flatten_withTacks]
  rfl

theorem described_withTacks (hb : g.bus? bus = some b) (hts : ts.Perm b.tacks) (options : Options) :
    List.Forall₂ (Described.Reordered bus (g.OneKind b)) (g.described t options)
      ((g.withTacks bus ts).described t options) := by
  unfold described
  rw [elements_withTacks, importAll_withTacks]
  refine List.rel_filterMap (R := fun x y => x = y) (fun {x y} hxy => ?_)
    (List.forall₂_same.2 fun _ _ => rfl)
  subst hxy
  exact describe?_withTacks hb hts x.2 x.1

/-- The tacks of a filter can be put in any order. All that changes in the program are the rows of that
filter, and these only where a message comes by a plain name and by a pattern too: then they deliver it to
the same destinations as far as these take it under its own name. -/
theorem compile_withTacks (hb : g.bus? bus = some b) (hf : b.isFiltered = true)
    (hts : ts.Perm b.tacks) (options : Options) :
    let p := (g.compile options).program
    let p' := ((g.withTacks bus ts).compile options).program
    p'.name = p.name ∧ p'.imports = p.imports ∧ p'.nodes = p.nodes ∧
      List.Forall₂ (fun f f' => (f.bus ≠ bus → f' = f) ∧
        (f.bus = bus → FilterDescriptor.Reordered (g.OneKind b) f f')) p.filters p'.filters := by
  have hdescribed := described_withTacks (t := Tables.build g) hb hts options
  intro p p'
  have hp' : p' = ((g.withTacks bus ts).compileWith (Tables.build g) options).program := by
    show ((g.withTacks bus ts).compileWith (Tables.build (g.withTacks bus ts)) options).program = _
    rw [build_withTacks hb hf]
  rw [hp']
  refine ⟨rfl, ?_, ?_, ?_⟩
  · rw [imports_compileWith, elements_withTacks, importAll_withTacks]
    rfl
  · show _ = (g.compileWith (Tables.build g) options).program.nodes
    rw [nodes_compileWith, nodes_compileWith, eq_comm, ← List.forall₂_eq_eq_eq]
    refine List.rel_filterMap (fun {d d'} hd => ?_) hdescribed
    cases hd with
    | same d h => cases d.node? <;> constructor; rfl
    | filter hbus h => exact .none
  · show List.Forall₂ _ (g.compileWith (Tables.build g) options).program.filters _
    rw [filters_compileWith, filters_compileWith]
    refine List.rel_filterMap (fun {d d'} hd => ?_) hdescribed
    cases hd with
    | same d h =>
      cases hfilter : d.filter? with
      | none => exact .none
      | some f => exact .some ⟨fun _ => rfl, fun hbus => absurd hbus (h f hfilter)⟩
    | filter hbus h => exact .some ⟨fun hne => absurd hbus hne, fun _ => h⟩

end Graph

namespace Blueprint

/-- A filter to which the same message comes by a plain name and by a pattern, and goes on through a gate of
that name to a pin of another name. -/
def mixed : Blueprint :=
  (new "main").run
    [.edit (.addSource none 1 "X" { identifier := "x" }), .edit (.addPin 2 "evt a" .output false),
      .edit (.addSource none 1 "Y" { identifier := "y" }), .edit (.addPin 4 "evt [a, b]" .output false),
      .edit (.addGroup none 1 "G"), .edit (.addGate 6 "evt a" .input false),
      .edit (.addSource none 6 "Z" { identifier := "z" }), .edit (.addPin 8 "other" .input false),
      .edit (.addBus none 1 "sieve" (some { identifier := "sieve" })),
      .connect (.pin 3) (.bus 10), .connect (.pin 5) (.bus 10), .connect (.bus 10) (.pad 7),
      .connect (.proxy 7) (.pin 9)]

theorem mixed_reachable : mixed.Reachable := .run_new "main" rfl

theorem mixed_tacks : (mixed.graph.bus? 10).map (fun b => (b.isFiltered, b.tacks)) =
    some (true, [12, 14, 16]) := by decide +kernel

theorem compile_withTacks_mixed :
    ∃ b, mixed.graph.bus? 10 = some b ∧ b.isFiltered = true ∧ [14, 12, 16].Perm b.tacks ∧
      List.Forall₂ (fun f f' => (f.bus ≠ 10 → f' = f) ∧
        (f.bus = 10 → FilterDescriptor.Reordered (mixed.graph.OneKind b) f f'))
        (mixed.graph.compile {}).program.filters
        ((mixed.graph.withTacks 10 [14, 12, 16]).compile {}).program.filters := by
  obtain ⟨b, hb, hval⟩ := Option.map_eq_some_iff.1 mixed_tacks
  obtain ⟨hf, htacks⟩ := Prod.mk.inj hval
  have hts : [14, 12, 16].Perm b.tacks := by
    rw [htacks]
    exact List.Perm.swap 12 14 [16]
  exact ⟨b, hb, hf, hts, (Graph.compile_withTacks hb hf hts {}).2.2.2⟩

/-- The plain name first, the message is delivered to the pin; the pattern first, it is not. -/
theorem filter_order_matters :
    mixed.Reachable ∧
      (mixed.graph.bus? 10).map (fun b => (b.isFiltered, b.tacks)) = some (true, [12, 14, 16]) ∧
      [12, 14, 16].map (fun i => (mixed.graph.tack? i).map (·.flow)) =
        [some .incoming, some .incoming, some .outgoing] ∧
      (mixed.graph.compile {}).program.filters.map (·.rows) =
        [[⟨"evt a", [⟨"other", "Z", 8⟩]⟩, ⟨"evt b", []⟩]] ∧
      ((mixed.graph.withTacks 10 [14, 12, 16]).compile {}).program.filters.map (·.rows) =
        [[⟨"evt a", []⟩, ⟨"evt b", []⟩]] :=
  ⟨mixed_reachable, mixed_tacks, by decide +kernel, by cbv, by cbv⟩

end Blueprint
end MessageGraph
