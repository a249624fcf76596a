import MessageGraph.Proofs.Blueprint.Rebuild

/-!
# What live tables name

Tables are carried over from graph to graph: `connect` keeps the targets of the graph before, `disconnect`
looks them up again by key, and where two tacks share a key only one of them stands in the table. Still
nothing in them outlives what it names: every target is `Concrete` (`live_tables_concrete`), since what a
table may hold (`Tables.Admits`) is in the graph of the moment.
-/
namespace MessageGraph

namespace Graph

variable {g : Graph} {name : String} {origin : Endpoint} {x : Target}

/-- A target that names what is there: an input pin and the source that lists it, an incoming tack and the
filtered bus that lists it, or an output gate of the top-level group. -/
inductive Concrete (g : Graph) : Target → Prop
  | pin {i : Id} {p : Pin} {s : Source} (hp : g.pin? i = some p) (hin : p.direction = .input)
      (hs : g.source? p.node = some s) (hi : i ∈ s.pins) : Concrete g (.pin p.node i)
  | tack {t : Id} {k : Tack} {b : Bus} (hk : g.tack? t = some k) (hin : k.flow = .incoming)
      (hb : g.bus? k.bus = some b) (ht : t ∈ b.tacks) (hf : b.isFiltered = true) :
      Concrete g (.tack k.bus t)
  | boundary {i : Id} {p : Gate} {s : Group} (hp : g.gate? i = some p) (hout : p.direction = .output)
      (hroot : p.group = g.root) (hs : g.group? g.root = some s) (hi : i ∈ s.gates) :
      Concrete g (.boundary g.root i)

theorem Concrete.pin_of (w : g.WellFormed) {i : Id} {p : Pin} (hp : g.pin? i = some p)
    (hin : p.direction = .input) : g.Concrete (.pin p.node i) := by
  have hi : i ∈ g.pinIds p.node := w.pins.mem_iff.2 (by rw [pinOwner?, hp, Option.map_some])
  obtain ⟨s, hs, hi⟩ := source?_of_mem_elim hi
  exact .pin hp hin hs hi

theorem Concrete.tack_of (w : g.WellFormed) {t : Id} {k : Tack} {b : Bus} (hk : g.tack? t = some k)
    (hin : k.flow = .incoming) (hb : g.bus? k.bus = some b) (hf : b.isFiltered = true) :
    g.Concrete (.tack k.bus t) := by
  have ht : t ∈ g.tackIds k.bus := w.tacks.mem_iff.2 (by rw [tackOwner?, hk, Option.map_some])
  rw [tackIds, hb] at ht
  exact .tack hk hin hb ht hf

theorem Concrete.boundary_of (w : g.WellFormed) {i : Id} {p : Gate} (hp : g.gate? i = some p)
    (hroot : p.group = g.root) (hout : p.direction = .output) : g.Concrete (.boundary g.root i) := by
  have hi : i ∈ g.gateIds g.root := w.gates.mem_iff.2 (by rw [gateOwner?, hp, Option.map_some, hroot])
  obtain ⟨s, hs, hi⟩ := group?_of_mem_elim hi
  exact .boundary hp hout hroot hs hi

theorem Delivers.concrete (w : g.WellFormed) (h : g.Delivers name origin x) : g.Concrete x := by
  cases h with
  | pin _ hc hp _ =>
    have hin := hc.input
    rw [direction?, hp, Option.map_some, Option.some.injEq] at hin
    exact .pin_of w hp hin
  | tack _ hc hk hb hf => exact .tack_of w hk (incoming_of_input hk hc.input) hb hf
  | boundary he hc hp hroot hpad hn =>
    have hout := (Delivers.boundary he hc hp hroot hpad hn).gate_output hp
    rw [hroot]
    exact .boundary_of w hp hroot hout

end Graph

/-- What a table may hold is there. -/
theorem Tables.Admits.concrete {g : Graph} {origin : Endpoint} {x : Target} (w : g.WellFormed)
    (h : Tables.Admits g origin x) : g.Concrete x := by
  rcases h with hd | ⟨gate, p, rfl, hp, hroot, hout⟩
  · exact hd.concrete w
  · exact .boundary_of w hp hroot hout

namespace Blueprint

variable {b : Blueprint}

/-- Sound tables without repeated keys, of a graph that is well-formed. -/
structure Tabled (b : Blueprint) : Prop where
  wellFormed : b.graph.WellFormed
  sound : b.tables.Sound b.graph
  distinct : b.tables.Distinct b.graph

theorem Initial.tabled (h : b.Initial) : b.Tabled where
  wellFormed := h.wellFormed
  sound := by
    rw [h.tables_eq]
    exact (Tables.build_of _).sound h.wellFormed
  distinct := by
    rw [h.tables_eq]
    exact Tables.distinct_build _

theorem Tabled.perform {op : Operation} (h : b.Tabled)
    (hop : ∀ group linked, op = .expandLink group linked → linked.graph.WellFormed) :
    (b.perform op).Tabled where
  wellFormed := perform_wellFormed h.wellFormed hop
  sound := perform_sound h.wellFormed h.sound hop
  distinct := perform_distinct h.wellFormed h.sound hop h.distinct

theorem Tabled.run {ops : List Operation} (h : b.Tabled)
    (hops : ∀ group linked, .expandLink group linked ∈ ops → linked.graph.WellFormed) :
    (b.run ops).Tabled :=
  foldl_keeps Tabled (fun _ _ hmem hc => hc.perform fun group linked heq =>
    hops group linked (heq ▸ hmem)) h

/-- After every run from an initial model each table belongs to an origin, holds nothing but targets that
are there, and has no key twice. -/
theorem live_tables_concrete {start : Blueprint} {ops : List Operation} (hstart : start.Initial)
    (hops : ∀ group linked, .expandLink group linked ∈ ops → linked.graph.WellFormed) :
    let b := start.run ops
    (∀ e table, b.tables.table? e = some table → b.graph.isOrigin e = true) ∧
    (∀ e x, x ∈ b.tables.get e → b.graph.Concrete x) ∧
    ∀ e, ((b.tables.get e).map b.graph.targetKey).Nodup := by
  intro b
  have hb : b.Tabled := hstart.tabled.run hops
  refine ⟨fun e table he => ?_, fun e x hx => ?_, hb.distinct⟩
  · by_contra hno
    rw [hb.sound.absent (Bool.eq_false_iff.2 hno)] at he
    cases he
  · exact (hb.sound.admits (hb.sound.isOrigin_of_mem hx) hx).concrete hb.wellFormed

/-- A clock at a filtered bus, at first directly, then over a top-level gate too; both tacks have the same
key. At last the direct route goes. -/
def twoWays : List Operation :=
  [.edit (.addSource none 1 "clock" { identifier := "clock" }), .edit (.addPin 2 "tick" .output false),
    .edit (.addGate 1 "tick" .output false), .edit (.addBus none 1 "sieve" (some { identifier := "sieve" })),
    .connect (.pin 3) (.bus 5), .connect (.pin 3) (.proxy 4), .connect (.pad 4) (.bus 5), .disconnect 6]

/-- The tack that stood in the table went with its route, and the other one stands there now. -/
theorem live_tables_concrete_twoWays :
    (∀ group linked, .expandLink group linked ∈ twoWays → linked.graph.WellFormed) ∧
      ((new "main").run twoWays.dropLast).tables.get (.pin 3) = [.tack 5 7, .boundary 1 4] ∧
      ((new "main").run twoWays).tables.get (.pin 3) = [.tack 5 10] ∧
      ((new "main").run twoWays).graph.Concrete (.tack 5 10) := by
  have hops : ∀ group linked, .expandLink group linked ∈ twoWays → linked.graph.WellFormed :=
    fun group linked hmem => absurd hmem (Operation.expandLink_notMem rfl group linked)
  have hget : ((new "main").run twoWays).tables.get (.pin 3) = [.tack 5 10] := by cbv
  refine ⟨hops, by cbv, hget, ?_⟩
  refine (live_tables_concrete (.new "main") hops).2.1 (.pin 3) _ ?_
  rw [hget]
  exact List.mem_singleton_self _

end Blueprint
end MessageGraph
