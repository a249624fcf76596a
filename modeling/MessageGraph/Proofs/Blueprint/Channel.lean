import MessageGraph.Proofs.Blueprint.Lawful
import MessageGraph.Proofs.Blueprint.Rebuild

/-!
# Channels and the way to them

A channel input takes only what a channel output sends, and that is checked between the two ends of a route. A bus
has no channel flag, so a route to or from it is not checked.

* Along routes and gates alone messages keep to what is no channel (`Threads.quiet`).
* Where the messages of an output that is no channel come to a channel pin, they have passed an unfiltered
  bus, and one that is joined to a channel (`channel_past_bus`). Such a model there is
  (`channel_past_bus_adapted`).
-/
namespace MessageGraph

namespace Graph

variable {g : Graph} {name : String} {o e far : Endpoint}

/-- A message comes from one endpoint to another by routes and gates alone, through no bus. -/
inductive Threads (g : Graph) (o : Endpoint) : Endpoint → Prop
  | start : Threads g o o
  | leave {e : Endpoint} {gate : Id} (he : Threads g o e) (hc : g.Crosses e (.proxy gate)) :
      Threads g o (.pad gate)
  | enter {e : Endpoint} {gate : Id} (he : Threads g o e) (hc : g.Crosses e (.pad gate)) :
      Threads g o (.proxy gate)

/-- Messages of an origin pass an unfiltered bus and come out of it at a tack. -/
structure Passes (g : Graph) (name : String) (o : Endpoint) (tack : Id) : Prop where
  reached : g.Reaches name o (.tack tack)
  bus : ∃ e t k l b, g.Reaches name o e ∧ g.Crosses e (.tack t) ∧ g.tack? t = some k ∧
    g.tack? tack = some l ∧ l.bus = k.bus ∧ l.flow = .outgoing ∧ g.bus? k.bus = some b ∧
    b.isFiltered = false

/-- What is reached is reached by routes and gates alone, from the origin or from the last bus. -/
theorem Reaches.threads (h : g.Reaches name o e) :
    g.Threads o e ∨ ∃ u, g.Passes name o u ∧ g.Threads (.tack u) e := by
  induction h with
  | start => exact Or.inl .start
  | leave _ hc _ ih => exact ih.imp (·.leave hc) fun ⟨u, hu, ht⟩ => ⟨u, hu, ht.leave hc⟩
  | enter _ hc ih => exact ih.imp (·.enter hc) fun ⟨u, hu, ht⟩ => ⟨u, hu, ht.enter hc⟩
  | @spread e t u k l b he hc hk hb hf hl hbus hflow hn =>
    exact Or.inr ⟨u, ⟨.spread he hc hk hb hf hl hbus hflow hn,
      e, t, k, l, b, he, hc, hk, hl, hbus, hflow, hb, hf⟩, .start⟩

theorem channel?_gate (gate : Id) : g.channel? (.pad gate) = g.channel? (.proxy gate) := rfl

/-- A route to a channel comes from a channel, or from a tack. -/
theorem Lawful.channel (h : g.Lawful) (hc : g.Crosses e far) (he : e.endpointClass ≠ .tack)
    (hfar : g.channel? far = some true) : g.channel? e = some true := by
  obtain ⟨ho, route, ha, -⟩ := hc
  have hf : far.endpointClass ≠ .tack := by
    rintro hf
    cases far with
    | tack t => cases hfar
    | _ => cases hf
  obtain ⟨r, hr, hother⟩ := Option.bind_eq_some_iff.1 ha
  unfold Route.other? at hother
  split at hother
  · rename_i hra
    cases hother
    subst hra
    exact ((h route r hr).meets he hf).channel ho hfar
  · split at hother
    · rename_i hrb
      cases hother
      subst hrb
      exact ((h route r hr).meets hf he).channel' ho hfar
    · cases hother

/-- Where an endpoint sends to no channel, nothing that its messages come to by routes and gates does. -/
theorem Threads.quiet (hl : g.Lawful) (ho : ∀ far, g.Crosses o far → g.channel? far ≠ some true)
    (h : g.Threads o e) : ∀ far, g.Crosses e far → g.channel? far ≠ some true := by
  induction h with
  | start => exact ho
  | @leave e gate _ hc ih =>
    intro far hf htrue
    exact ih _ hc ((channel?_gate gate).symm.trans (hl.channel hf nofun htrue))
  | @enter e gate _ hc ih =>
    intro far hf htrue
    exact ih _ hc ((channel?_gate gate).trans (hl.channel hf nofun htrue))

/-- A channel pin is reached from an output that is no channel only past a bus that is joined to a channel. -/
theorem Lawful.channel_delivered (hl : g.Lawful) {i node : Id} (ho : o.endpointClass ≠ .tack)
    (hoc : g.channel? o ≠ some true) (hd : g.Delivers name o (.pin node i))
    (hi : g.channel? (.pin i) = some true) :
    (∀ e, g.Threads o e → ¬ g.Crosses e (.pin i)) ∧
      ∃ u far e, g.Passes name o u ∧ g.Crosses (.tack u) far ∧ g.channel? far = some true ∧
        g.Threads (.tack u) e ∧ g.Crosses e (.pin i) := by
  have hquiet : ∀ e, g.Threads o e → ¬ g.Crosses e (.pin i) := fun e he hc =>
    he.quiet hl (fun far hf htrue => hoc (hl.channel hf ho htrue)) _ hc hi
  refine ⟨hquiet, ?_⟩
  cases hd with
  | @pin e _ p he hc hp hn =>
    rcases he.threads with ht | ⟨u, hu, ht⟩
    · exact absurd hc (hquiet e ht)
    · by_contra hno
      exact ht.quiet hl (fun far hf htrue => hno ⟨u, far, e, hu, hf, htrue, ht, hc⟩) _ hc hi

end Graph

namespace Blueprint

variable {b : Blueprint}

/-- Where an output pin that is no channel has a channel pin in its table or among what it resolves to, its
messages come there by no routes and gates alone, but past an unfiltered bus that is joined to a channel. -/
theorem channel_past_bus {name : String} {ops : List Operation}
    (hops : ∀ group linked, .expandLink group linked ∉ ops) {o i node : Id} {p q : Pin}
    (hp : ((new name).run ops).graph.pin? o = some p) (hout : p.direction = .output)
    (hpc : p.channel = false)
    (ht : .pin node i ∈ ((new name).run ops).tables.get (.pin o) ∨
      .pin node i ∈ ((new name).run ops).graph.resolve (.pin o))
    (hq : ((new name).run ops).graph.pin? i = some q) (hqc : q.channel = true) :
    (∀ e, ((new name).run ops).graph.Threads (.pin o) e →
        ¬ ((new name).run ops).graph.Crosses e (.pin i)) ∧
      ∃ u far e, ((new name).run ops).graph.Passes p.name (.pin o) u ∧
        ((new name).run ops).graph.Crosses (.tack u) far ∧
        ((new name).run ops).graph.channel? far = some true ∧
        ((new name).run ops).graph.Threads (.tack u) e ∧
        ((new name).run ops).graph.Crosses e (.pin i) := by
  have hf : ((new name).run ops).Fitted := Fitted.run (.initial (.new name)) hops
  have w := hf.reachable.wellFormed
  have ho : ((new name).run ops).graph.isOrigin (.pin o) = true := by
    simp only [Graph.isOrigin, Graph.direction?, hp, Option.map_some, hout, decide_true]
  have hname : ((new name).run ops).graph.nameOf (.pin o) = p.name := by
    simp only [Graph.nameOf, Graph.name?, hp, Option.map_some, Option.getD_some]
  have hd : ((new name).run ops).graph.Delivers p.name (.pin o) (.pin node i) := by
    rw [← hname]
    rcases ht with ht | ht
    · rcases hf.reachable.sound.admits ho ht with hd | ⟨gate, _, hb, -⟩
      · exact hd
      · cases hb
    · exact Graph.delivers_of_mem_resolve w ho ht
  have hclass : (Endpoint.pin o).endpointClass ≠ .tack := by rintro ⟨⟩
  refine ((Graph.lawful_iff w).2 hf.ruled).channel_delivered hclass ?_ hd ?_
  · simp only [Graph.channel?, hp, Option.map_some, hpc, ne_eq, Option.some.injEq,
      Bool.false_eq_true, not_false_eq_true]
  · simp only [Graph.channel?, hq, Option.map_some, hqc]

/-- An output that is no channel and a channel input, both joined to a bus. -/
def adapted : List Operation :=
  [.edit (.addSource none 1 "X" { identifier := "x" }), .edit (.addPin 2 "ask" .output false),
    .edit (.addSource none 1 "Y" { identifier := "y" }), .edit (.addPin 4 "ask" .input true),
    .edit (.addBus none 1 "line" none), .connect (.pin 3) (.bus 6), .connect (.bus 6) (.pin 5)]

theorem adapted_kept : ∀ group linked, .expandLink group linked ∉ adapted :=
  Operation.expandLink_notMem rfl

theorem channel_past_bus_adapted :
    (∀ group linked, .expandLink group linked ∉ adapted) ∧
      .pin 4 5 ∈ ((new "main").run adapted).tables.get (.pin 3) ∧
      ∃ u far e, ((new "main").run adapted).graph.Passes "ask" (.pin 3) u ∧
        ((new "main").run adapted).graph.Crosses (.tack u) far ∧
        ((new "main").run adapted).graph.channel? far = some true ∧
        ((new "main").run adapted).graph.Threads (.tack u) e ∧
        ((new "main").run adapted).graph.Crosses e (.pin 5) := by
  have htable : ((new "main").run adapted).tables.get (.pin 3) = [.pin 4 5] := by cbv
  have hmem : .pin 4 5 ∈ ((new "main").run adapted).tables.get (.pin 3) := by
    rw [htable]
    exact List.mem_cons_self
  exact ⟨adapted_kept, hmem, (channel_past_bus adapted_kept (p := ⟨2, "ask", .output, false, [7], none⟩)
    (q := ⟨4, "ask", .input, true, [9], none⟩) (by cbv) rfl rfl (Or.inl hmem) (by cbv) rfl).2⟩

/-- The bus gives the channel pin what no channel sent. -/
theorem channel_fed_by_bus :
    (∀ group linked, .expandLink group linked ∉ adapted) ∧
      ((new "main").run adapted).graph.pin? 3 = some ⟨2, "ask", .output, false, [7], none⟩ ∧
      ((new "main").run adapted).graph.pin? 5 = some ⟨4, "ask", .input, true, [9], none⟩ ∧
      ((new "main").run adapted).tables.get (.pin 3) = [.pin 4 5] ∧
      ((new "main").run adapted).graph.resolve (.pin 3) = [.pin 4 5] :=
  ⟨adapted_kept, by cbv, by cbv, by cbv, by cbv⟩

end Blueprint
end MessageGraph
