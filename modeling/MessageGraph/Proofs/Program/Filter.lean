import MessageGraph.Proofs.Program.Declared
import MessageGraph.Proofs.Resolution.Upstream
import MessageGraph.Proofs.Graph.Wiring

/-!
# What filters are sent and what they have rows for

A filter is sent a message under the name that its sender gives it, and has a row for each message that the
name of an incoming tack stands for. A tack is named like the endpoint at the other end of its route, which
need not be the sender.

* A filter has one row for each message that an incoming tack brings (`mem_variants_filterRows`).
* A destination at a filter was reached at a tack that is named like the last endpoint before the bus
  (`exists_last`).

Result: `filters_have_rows`, for every model that operations lead to and that has no broken link. A message that
the last name before the bus does not stand for can have no row (`filters_lack_rows`).
-/
namespace MessageGraph

namespace Graph

variable {g : Graph} {t : Tables} {options : Options}

theorem nodup_variants_arrivals (tacks : List Tack) : ((arrivals tacks).map (·.1)).Nodup :=
  nodup_keys_firstByKey _

/-- What arrives are the messages that the names of incoming tacks stand for. -/
theorem mem_variants_arrivals {tacks : List Tack} {variant : String} :
    variant ∈ (arrivals tacks).map (·.1) ↔
      ∃ k ∈ tacks, k.flow = .incoming ∧ variant ∈ Message.expand k.message := by
  unfold arrivals
  rw [mem_keys_firstByKey, List.mem_map]
  constructor
  · rintro ⟨x, hx, rfl⟩
    obtain ⟨k, hk, hx⟩ := List.mem_flatMap.1 hx
    obtain ⟨hk, hflow⟩ := List.mem_filter.1 hk
    obtain ⟨v, hv, rfl⟩ := List.mem_map.1 hx
    exact ⟨k, hk, of_decide_eq_true hflow, hv⟩
  · rintro ⟨k, hk, hflow, hv⟩
    refine ⟨(variant, k), List.mem_flatMap.2 ⟨k, ?_, List.mem_map_of_mem hv⟩, rfl⟩
    exact List.mem_filter.2 ⟨hk, decide_eq_true hflow⟩

theorem variants_filterRows (b : Bus) :
    (g.filterRows t b).map (·.variant) =
      (arrivals ((b.tacks.filterMap fun id => (g.tack? id).map fun k => (id, k)).map (·.2))).map
        (·.1) := by
  unfold filterRows
  rw [List.map_map]
  rfl

/-- A filter has rows for the messages that its incoming tacks bring. -/
theorem mem_variants_filterRows (w : g.WellFormed) {bus : Id} {b : Bus} (hb : g.bus? bus = some b)
    {variant : String} :
    variant ∈ (g.filterRows t b).map (·.variant) ↔ ∃ i k, g.tack? i = some k ∧ k.bus = bus ∧
      k.flow = .incoming ∧ variant ∈ Message.expand k.message := by
  have howned : ∀ i, i ∈ b.tacks ↔ g.tackOwner? i = some bus := fun i => by
    rw [← w.tacks.mem_iff, tackIds, hb]
    rfl
  rw [variants_filterRows, mem_variants_arrivals]
  constructor
  · rintro ⟨k, hk, hflow, hv⟩
    obtain ⟨⟨i, k⟩, hik, rfl⟩ := List.mem_map.1 hk
    obtain ⟨hi, hget⟩ := mem_filterMap_pair hik
    have hbus := (howned i).1 hi
    rw [tackOwner?, hget] at hbus
    exact ⟨i, k, hget, Option.some.inj hbus, hflow, hv⟩
  · rintro ⟨i, k, hk, hbus, hflow, hv⟩
    have hi : i ∈ b.tacks := (howned i).2 (by rw [tackOwner?, hk, ← hbus]; rfl)
    refine ⟨k, List.mem_map.2 ⟨(i, k), List.mem_filterMap.2 ⟨i, hi, ?_⟩, rfl⟩, hflow, hv⟩
    rw [hk]
    rfl

/-! ## What is sent -/

/-- Only a tack gives a destination at a bus, and it takes the message as it is. -/
theorem destination?_bus (w : g.WellFormed) {variant : String} {fromPattern : Bool} {target : Target}
    {d : Destination} (h : g.destination? variant fromPattern target = some d) {b : Bus}
    (hb : g.bus? d.ownerId = some b) :
    ∃ tack, target = .tack d.ownerId tack ∧ d.variant = variant := by
  obtain ⟨received, hr, hd⟩ := Option.bind_eq_some_iff.1 h
  have hnode : ∀ {m}, g.node? d.ownerId ≠ some m := fun hm =>
    w.node_or_bus (IdMap.contains_of_get? hm) (IdMap.contains_of_get? hb)
  cases target with
  | pin node i =>
    obtain ⟨m, hm, rfl⟩ := Option.map_eq_some_iff.1 hd
    exact absurd hm hnode
  | boundary group i =>
    obtain ⟨m, hm, rfl⟩ := Option.map_eq_some_iff.1 hd
    exact absurd hm hnode
  | tack bus i =>
    obtain ⟨b', -, rfl⟩ := Option.map_eq_some_iff.1 hd
    exact ⟨i, rfl, (Option.some.inj hr).symm⟩

/-- What is delivered to a filter has come to one of its tacks. -/
theorem Delivers.at_tack {name : String} {o : Endpoint} {bus i : Id}
    (h : g.Delivers name o (.tack bus i)) :
    ∃ e k b, g.Reaches name o e ∧ g.Crosses e (.tack i) ∧ g.tack? i = some k ∧ k.bus = bus ∧
      g.bus? bus = some b ∧ b.isFiltered = true := by
  cases h with
  | tack he hc hk hb hf => exact ⟨_, _, _, he, hc, hk, rfl, hb, hf⟩

/-- The tack at which a message comes to a bus is named like the endpoint that sent it there. -/
theorem Crosses.message (w : g.WellFormed) {e : Endpoint} {i : Id} {k : Tack}
    (h : g.Crosses e (.tack i)) (hk : g.tack? i = some k) :
    k.flow = .incoming ∧ k.message = g.nameOf e := by
  obtain ⟨-, route, ha, hin⟩ := h
  obtain ⟨-, -, hname⟩ := w.faces_across hk (across?_comm w.routes ha)
  exact ⟨incoming_of_input hk hin, by rw [nameOf, hname]; rfl⟩

end Graph

namespace Blueprint

variable {b : Blueprint}

/-- Where a row has a destination at a bus, the bus is a filter, which takes the row's message as it is. The
program has one descriptor of it, with one row for each message that the name of an incoming tack stands
for; one of these tacks is where the row's messages come to the bus, and it is named like the last endpoint
before the bus. -/
theorem filters_have_rows (hb : b.Reachable) (hu : b.graph.Unbroken) (options : Options) {row : Row}
    {d : Destination} {bus : Bus} (hrow : row ∈ (b.graph.compile options).program.rows)
    (hd : d ∈ row.destinations) (hbus : b.graph.bus? d.ownerId = some bus) :
    bus.isFiltered = true ∧ d.variant = row.variant ∧
    ∃ f, (b.graph.compile options).program.filters.filter (·.bus = d.ownerId) = [f] ∧
      (f.rows.map (·.variant)).Nodup ∧
      (∀ v, v ∈ f.rows.map (·.variant) ↔ ∃ i k, b.graph.tack? i = some k ∧ k.bus = d.ownerId ∧
        k.flow = .incoming ∧ v ∈ Message.expand k.message) ∧
      ∃ o e i k, b.graph.RowFrom (b.graph.compile options).program row o ∧
        b.graph.Reaches (b.graph.nameOf o) o e ∧ b.graph.Crosses e (.tack i) ∧
        b.graph.tack? i = some k ∧ k.bus = d.ownerId ∧ k.message = b.graph.nameOf e ∧
        ∀ v, v ∈ Message.expand (b.graph.nameOf e) → v ∈ f.rows.map (·.variant) := by
  have w := hb.wellFormed
  obtain ⟨o, target, fromPattern, hfrom, ht, hdest⟩ := Graph.exists_target_of_mem_row w hrow hd
  obtain ⟨i, rfl, hvariant⟩ := Graph.destination?_bus w hdest hbus
  have hs := (Tables.build_of b.graph).sound w
  rcases hs.admits (hs.isOrigin_of_mem ht) ht with hdel | ⟨gate, p, hgate, -⟩
  · obtain ⟨e, k, bus', he, hc, hk, hkbus, hb', hf⟩ := hdel.at_tack
    cases hbus.symm.trans hb'
    obtain ⟨binding, hfilter⟩ := Graph.exists_filter w hu hbus hf (Tables.build b.graph) options
    obtain ⟨hflow, hmessage⟩ := hc.message w hk
    have hrows : ∀ v, v ∈ (b.graph.filterRows (Tables.build b.graph) bus).map (·.variant) ↔ _ :=
      fun v => Graph.mem_variants_filterRows w hbus
    refine ⟨hf, hvariant, _, hfilter, ?_, hrows, o, e, i, k, hfrom, he, hc, hk, hkbus, hmessage,
      fun v hv => (hrows v).2 ⟨i, k, hk, hkbus, hflow, hmessage ▸ hv⟩⟩
    rw [Graph.variants_filterRows]
    exact Graph.nodup_variants_arrivals _
  · cases hgate

/-- A source that sends into a group under one name, which a gate of the group passes to a filter under
another. -/
def renamed : Blueprint :=
  (new "main").run
    [.edit (.addSource none 1 "X" { identifier := "x" }), .edit (.addPin 2 "go" .output false),
      .edit (.addGroup none 1 "G"), .edit (.addGate 4 "run" .input false),
      .edit (.addBus none 4 "sieve" (some { identifier := "sieve" })),
      .connect (.pin 3) (.pad 5), .connect (.proxy 5) (.bus 6)]

theorem renamed_reachable : renamed.Reachable := .run_new "main" rfl

theorem rows_renamed : (renamed.graph.compile {}).program.rows =
    [⟨"go", [⟨"go", "sieve", 6⟩]⟩, ⟨"run", []⟩] := by cbv

theorem filters_have_rows_renamed :
    renamed.Reachable ∧ renamed.graph.Unbroken ∧
      ⟨"go", [⟨"go", "sieve", 6⟩]⟩ ∈ (renamed.graph.compile {}).program.rows ∧
      ∃ bus f, renamed.graph.bus? 6 = some bus ∧ bus.isFiltered = true ∧
        (renamed.graph.compile {}).program.filters.filter (·.bus = 6) = [f] := by
  have hu : renamed.graph.Unbroken := Graph.unbroken_of_all (by cbv)
  have hrow : ⟨"go", [⟨"go", "sieve", 6⟩]⟩ ∈ (renamed.graph.compile {}).program.rows := by
    rw [rows_renamed]
    exact List.mem_cons_self
  obtain ⟨bus, hbus⟩ : ∃ bus, renamed.graph.bus? 6 = some bus :=
    Option.isSome_iff_exists.1 (by cbv)
  obtain ⟨hf, -, f, hfilter, -⟩ :=
    filters_have_rows renamed_reachable hu {} hrow (List.mem_singleton_self _) hbus
  exact ⟨renamed_reachable, hu, hrow, bus, f, hbus, hf, hfilter⟩

/-- The filter is sent a message that it has no row for. -/
theorem filters_lack_rows :
    renamed.Reachable ∧ renamed.graph.Unbroken ∧
      ⟨"go", [⟨"go", "sieve", 6⟩]⟩ ∈ (renamed.graph.compile {}).program.rows ∧
      (renamed.graph.bus? 6).map (·.isFiltered) = some true ∧
      ∀ f, f ∈ (renamed.graph.compile {}).program.filters → "go" ∉ f.rows.map (·.variant) := by
  refine ⟨renamed_reachable, Graph.unbroken_of_all (by cbv), ?_, by cbv, fun f hf hgo => ?_⟩
  · rw [rows_renamed]
    exact List.mem_cons_self
  · have hvariants : (renamed.graph.compile {}).program.filters.map
        (fun f => f.rows.map (·.variant)) = [["run"]] := by cbv
    have hmem := List.mem_map_of_mem (f := fun f : FilterDescriptor => f.rows.map (·.variant)) hf
    rw [hvariants, List.mem_singleton] at hmem
    rw [hmem] at hgo
    exact absurd hgo (by decide)

end Blueprint
end MessageGraph
