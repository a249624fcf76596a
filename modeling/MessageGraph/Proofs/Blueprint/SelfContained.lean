import MessageGraph.Proofs.Blueprint.Sheltered

/-!
# Whether a document declares what it connects

A connection is stored if its sender stands outside of links, and whatever it leads to is stored with it. Nodes
and buses are written if they were not copied.

* `connections_declared`: an end of a stored connection is declared by the document exactly if nothing from it
  up to the top was copied. Where only links are expanded, this holds of every sender.
* `connections_undeclared`: a receiver can be the pin of a copy, which is not written. Loading the document
  then loses the connection.
-/
namespace MessageGraph

/-- Whether an endpoint of a document is one of a node or bus of its tree. -/
def BehavioralDocument.declares (d : BehavioralDocument) : EndpointSpec → Bool
  | .pin node name => d.root.values.any fun spec =>
      spec.id = node && spec.tag = .source && spec.pins.any (·.name = name)
  | .proxy group name | .pad group name => d.root.values.any fun spec =>
      spec.id = group && spec.tag = .group && spec.gates.any (·.name = name)
  | .bus id => d.root.values.any fun spec => spec.buses.any (·.id = id)

namespace Graph

variable {g : Graph} {n : Id}

theorem tag_nodeSpec_source {s : Source} (hs : g.source? n = some s) : (g.nodeSpec n).tag = .source := by
  obtain ⟨m, hm, hk⟩ := source?_eq_some_iff.1 hs
  rw [nodeSpec_source hm hk]

theorem tag_nodeSpec_group {s : Group} (hs : g.group? n = some s) : (g.nodeSpec n).tag = .group := by
  obtain ⟨m, hm, hk⟩ := group?_eq_some_iff.1 hs
  rw [nodeSpec_group hm hk]

end Graph

namespace Blueprint

variable {b : Blueprint} {e : Endpoint} {c : EndpointSpec}

theorem any_split (test : NodeSpec → Bool) :
    b.split.1.root.values.any test = b.graph.ownTree.values.any fun n => test (b.graph.nodeSpec n) := by
  show (b.graph.ownTree.map b.graph.nodeSpec).values.any test = _
  rw [Tree.values_map, List.any_map]
  rfl

/-- A test that only one node can pass, and does, is passed in the document if that node is written. -/
theorem any_split_id {n : Id} {f : NodeSpec → Bool} (h : f (b.graph.nodeSpec n) = true) :
    (b.split.1.root.values.any fun spec => spec.id = n && f spec) =
      b.graph.ownTree.values.contains n := by
  rw [any_split]
  refine Bool.eq_iff_iff.2 ?_
  rw [List.any_eq_true, List.contains_iff_mem]
  simp only [id_nodeSpec, Bool.and_eq_true, decide_eq_true_eq]
  constructor
  · rintro ⟨m, hm, rfl, -⟩
    exact hm
  · exact fun hn => ⟨n, hn, rfl, h⟩

theorem declares_pin (w : b.graph.WellFormed) {i : Id} {p : Pin} (hp : b.graph.pin? i = some p) :
    b.split.1.declares (.pin p.node p.name) = b.graph.ownTree.values.contains p.node := by
  obtain ⟨s, hs⟩ := Option.isSome_iff_exists.1
    (w.isSome_source?_of_owner (Option.map_eq_some_iff.2 ⟨p, hp, rfl⟩))
  simp only [BehavioralDocument.declares, Bool.and_assoc]
  refine any_split_id (f := fun spec => spec.tag = .source && spec.pins.any (·.name = p.name)) ?_
  simp only [Graph.tag_nodeSpec_source hs, decide_true, Bool.true_and, List.any_eq_true, decide_eq_true_eq]
  exact ⟨_, w.mem_pins_nodeSpec.2 ⟨i, p, hp, rfl, rfl⟩, rfl⟩

theorem declares_gate (w : b.graph.WellFormed) {i : Id} {p : Gate} (hp : b.graph.gate? i = some p) :
    (b.split.1.root.values.any fun spec =>
      spec.id = p.group && spec.tag = .group && spec.gates.any (·.name = p.name)) =
      b.graph.ownTree.values.contains p.group := by
  obtain ⟨s, hs⟩ := Option.isSome_iff_exists.1
    (w.isSome_group?_of_owner (k := .gate) nofun (Option.map_eq_some_iff.2 ⟨p, hp, rfl⟩))
  simp only [Bool.and_assoc]
  refine any_split_id (f := fun spec => spec.tag = .group && spec.gates.any (·.name = p.name)) ?_
  simp only [Graph.tag_nodeSpec_group hs, decide_true, Bool.true_and, List.any_eq_true, decide_eq_true_eq]
  exact ⟨_, w.mem_gates_nodeSpec.2 ⟨i, p, hp, rfl, rfl⟩, rfl⟩

/-- A bus is declared if its group is written and it was not copied itself. -/
theorem declares_bus (w : b.graph.WellFormed) {i : Id} {x : Bus} (hx : b.graph.bus? i = some x) :
    b.split.1.declares (.bus i) = (!x.imported && b.graph.ownTree.values.contains x.group) := by
  simp only [BehavioralDocument.declares, any_split]
  refine Bool.eq_iff_iff.2 ?_
  rw [List.any_eq_true, Bool.and_eq_true, List.contains_iff_mem, Bool.not_eq_true']
  constructor
  · rintro ⟨m, hm, hany⟩
    obtain ⟨y, hy, hid⟩ := List.any_eq_true.1 hany
    obtain ⟨z, hmem, hz, himp, -⟩ := Graph.mem_buses_nodeSpec.1 hy
    rw [of_decide_eq_true hid] at hmem hz
    cases hx.symm.trans hz
    obtain ⟨x', hx', hgroup⟩ := Option.map_eq_some_iff.1 (w.buses.mem_iff.1 hmem)
    cases hx.symm.trans hx'
    exact ⟨himp, hgroup ▸ hm⟩
  · rintro ⟨himp, hm⟩
    refine ⟨x.group, hm, List.any_eq_true.2 ⟨⟨i, x.name, x.filter⟩, ?_, decide_eq_true rfl⟩⟩
    exact Graph.mem_buses_nodeSpec.2
      ⟨x, w.buses.mem_iff.2 (Option.map_eq_some_iff.2 ⟨x, hx, rfl⟩), hx, himp, rfl⟩

/-- The document declares the endpoints that are written, and no others. -/
theorem declares_eq_isWritten (w : b.graph.WellFormed) (he : b.graph.endpointSpec? e = some c) :
    b.split.1.declares c = b.graph.isWritten e := by
  cases e with
  | pin i =>
    obtain ⟨p, hp, rfl⟩ := Option.map_eq_some_iff.1 he
    simp only [declares_pin w hp, Graph.isWritten, Graph.pinOwner?, hp, Option.map_some, Option.elim_some]
  | proxy i | pad i =>
    obtain ⟨p, hp, rfl⟩ := Option.map_eq_some_iff.1 he
    simp only [BehavioralDocument.declares, declares_gate w hp, Graph.isWritten, Graph.gateOwner?, hp,
      Option.map_some, Option.elim_some]
  | tack t =>
    obtain ⟨k, hk, rfl⟩ := Option.map_eq_some_iff.1 he
    obtain ⟨x, hx⟩ := w.bus_of_tack hk
    simp only [declares_bus w hx, Graph.isWritten, hk, Option.bind_some, hx, Option.elim_some]

/-- An end of a stored connection is declared if it is written. Every sender is, where only links are
expanded. -/
theorem connections_declared (hb : b.Reachable) :
    (∀ c ∈ b.split.1.connections, ∃ s x y, b.graph.sender? s = some x ∧ b.graph.across? x s = some y ∧
      b.graph.endpointSpec? x = some c.sender ∧ b.graph.endpointSpec? y = some c.receiver ∧
      b.split.1.declares c.sender = b.graph.isWritten x ∧
      b.split.1.declares c.receiver = b.graph.isWritten y) ∧
    (b.Linked → ∀ c ∈ b.split.1.connections, b.split.1.declares c.sender = true) := by
  have w := hb.wellFormed
  refine ⟨fun c hc => ?_, fun hlinked c hc => ?_⟩
  all_goals
    obtain ⟨s, hs⟩ := mem_connections hc
    obtain ⟨x, y, n, hx, hy, hn, hout, hsender, hreceiver⟩ := Graph.connectionSpec?_eq_some_iff.1 hs
  · exact ⟨s, x, y, hx, hy, hsender, hreceiver, declares_eq_isWritten w hsender,
      declares_eq_isWritten w hreceiver⟩
  · rw [declares_eq_isWritten w hsender]
    exact hlinked.sheltered.isWritten w hn hout

/-- A model to link in which there is a lamp. -/
def bulb : Blueprint :=
  (new "room").run
    [.edit (.addSource none 1 "lamp" { identifier := "lamp" }), .edit (.addPin 2 "tick" .input false)]

/-- A clock that sends to the lamp of an expanded link. -/
def reachingIn : Blueprint :=
  (new "main").run
    [.edit (.addSource none 1 "clock" { identifier := "clock" }), .edit (.addPin 2 "tick" .output false),
      .edit (.addGroup none 1 "room"), .edit (.setLink 4 "room"), .expandLink 4 bulb,
      .connect (.pin 3) (.pin 6)]

theorem reachingIn_linked : reachingIn.Linked := by
  have hroom : ((new "main").run
      [.edit (.addSource none 1 "clock" { identifier := "clock" }), .edit (.addPin 2 "tick" .output false),
        .edit (.addGroup none 1 "room"), .edit (.setLink 4 "room")]).Linked :=
    .run (.initial (.new "main")) rfl
  have hexpanded : (perform _ (.expandLink 4 bulb)).Linked := .perform hroom fun group linked he => by
    cases he
    exact ⟨.run_new "room" rfl, by decide +kernel⟩
  have hops : [Operation.connect (.pin 3) (.pin 6)].any Operation.isExpansion = false := rfl
  exact hexpanded.run hops

theorem connections_declared_reachingIn :
    reachingIn.Reachable ∧ reachingIn.Linked ∧
      reachingIn.split.1.connections = [⟨.pin 2 "tick", .pin 5 "tick"⟩] ∧
      ∀ c ∈ reachingIn.split.1.connections, reachingIn.split.1.declares c.sender = true :=
  ⟨reachingIn_linked.reachable, reachingIn_linked, by decide +kernel,
    (connections_declared reachingIn_linked.reachable).2 reachingIn_linked⟩

/-- The lamp of the link is not written, but the connection to it is, and is lost when the document is
loaded. -/
theorem connections_undeclared :
    reachingIn.Reachable ∧
      (∃ c ∈ reachingIn.split.1.connections, reachingIn.split.1.declares c.receiver = false) ∧
      ∃ b', join reachingIn.split.1 (some reachingIn.split.2) {} = .ok b' ∧
        ∃ d ∈ b'.diagnostics, d.kind = .unresolvedEndpoint := by
  refine ⟨reachingIn_linked.reachable, by decide +kernel, ?_⟩
  have hreports : (join reachingIn.split.1 (some reachingIn.split.2) {}).toOption.map (fun b' =>
      b'.diagnostics.any fun d => d.kind = .unresolvedEndpoint) = some true := by decide +kernel
  obtain ⟨b', hjoin, hany⟩ := Option.map_eq_some_iff.1 hreports
  obtain ⟨d, hd, hkind⟩ := List.any_eq_true.1 hany
  exact ⟨b', of_toOption hjoin, d, hd, of_decide_eq_true hkind⟩

end Blueprint
end MessageGraph
