import MessageGraph.Proofs.Blueprint.Replay

/-!
# The graph that an expanded link leaves

Expanding a link never fails on well-formed graphs (`exists_expansion`). `Expanded` says what the new graph is
made of: the content was copied, then the routes that do not touch an outer pad were joined again. Routes and
tacks that were there stay as they were, and every other route joins what stands for the ends of a route of the
linked graph (`Expanded.route_cases`).
-/
namespace MessageGraph

/-- The group when its link, if it is one, has been expanded. -/
def Group.expanded (s : Group) : Group :=
  { s with link := s.link.map fun l => { l with state := .expanded } }

namespace Copying

variable {linked base h : Graph} {group i x s : Id} {nodes done : List (Id × Id)} {c c' : Copying}
  {k : EntityKind}

/-- A graph in which the content of another stands: `c` is the copy before routes are joined again, `c'` the
one after. -/
structure Expanded (linked base : Graph) (group : Id) (nodes done : List (Id × Id)) (c c' : Copying)
    (h : Graph) : Prop where
  traced : Traced linked base group (boundGates linked base group) [] nodes c
  complete : Complete linked nodes c
  labelled : Labelled linked nodes c
  replayed : Replayed linked c (c.standIn nodes) done c'
  covered : ∀ s, (∃ s', (s, s') ∈ done) ↔
    ∃ r, linked.route? s = some r ∧ (linked.isTopPad r.a || linked.isTopPad r.b) = false
  graph : h = c'.graph.modifyGroup group Group.expanded

/-- Standing a well-formed graph in a group of another does not fail. -/
theorem exists_expansion (wb : base.WellFormed) (wl : linked.WellFormed) {t : Group}
    (ht : base.group? group = some t) :
    ∃ nodes done c c' g h, base.instantiate group linked = .ok g ∧ g.setLinkState group .expanded = .ok h ∧
      Expanded linked base group nodes done c c' h := by
  obtain ⟨top, htop⟩ := wl.tree.root_group
  obtain ⟨c₁, c₂, c₃, nodes, h₁, h₂, h₃, t₃, hc, hlabel⟩ := exists_content wb wl ht htop
  obtain ⟨c₄, done, h₄, hreplayed, hcovered⟩ := t₃.replay wl hc
    (fun p hp => IdMap.get?_eq_some_iff.2 hp) linked.routes.sorted
    (replayed_start (t₃.routing wb) _) nofun
  have hinst : base.instantiate group linked = .ok c₄.graph :=
    bind_eq_ok.2 ⟨t, Graph.requireGroup_eq_ok.2 ht, bind_eq_ok.2 ⟨top, Graph.requireGroup_eq_ok.2 htop,
      bind_eq_ok.2 ⟨c₁, h₁, bind_eq_ok.2 ⟨c₂, h₂, bind_eq_ok.2 ⟨c₃, h₃, bind_eq_ok.2 ⟨c₄, h₄, rfl⟩⟩⟩⟩⟩⟩
  have hgroup : (c₄.graph.group? group).isSome = true := by
    have hnodes : c₄.graph.group? group = c₃.graph.group? group := by
      unfold Graph.group? Graph.node?
      rw [hreplayed.rerouted.nodes]
    rw [hnodes, (t₃.frame.sameNode (Graph.contains_of_group? ht)).isSome_group?, ht]
    rfl
  obtain ⟨d, hd⟩ := Graph.requireGroup_of_isSome hgroup
  refine ⟨nodes, done, c₃, c₄, c₄.graph, _, hinst, bind_eq_ok.2 ⟨d, hd, rfl⟩, t₃, hc, hlabel, hreplayed,
    fun s => ?_, rfl⟩
  have hs : (∃ s', (s, s') ∈ done) ↔ s ∈ done.map (·.1) := by
    simp only [List.mem_map, Prod.exists, exists_and_right, exists_eq_right]
  rw [hs, hcovered, List.map_nil, List.nil_append]
  simp only [List.mem_map, List.mem_filter, Prod.exists, exists_and_right, exists_eq_right,
    Bool.not_eq_true']
  refine exists_congr fun r => and_congr_left fun _ => ?_
  exact IdMap.get?_eq_some_iff.symm

/-! ## The new graph -/

namespace Expanded

variable (y : Expanded linked base group nodes done c c' h)

include y

theorem alike : Graph.Alike c'.graph h := by
  rw [y.graph]
  exact Graph.modifyGroup_alike c'.graph group fun _ => rfl

theorem wellFormed : h.WellFormed := y.replayed.routing.graph.of_alike y.alike

theorem root : h.root = base.root :=
  (y.alike.root.trans y.replayed.rerouted.root).trans y.traced.ext.root

theorem pin?_eq (i : Id) : (h.pin? i).map Pin.unrouted = (c.graph.pin? i).map Pin.unrouted := by
  rw [y.graph]
  exact y.replayed.rerouted.pins i

theorem gate?_eq (i : Id) : (h.gate? i).map Gate.unrouted = (c.graph.gate? i).map Gate.unrouted := by
  rw [y.graph]
  exact y.replayed.rerouted.gates i

theorem bus?_eq (i : Id) : (h.bus? i).map Bus.untacked = (c.graph.bus? i).map Bus.untacked := by
  rw [y.graph]
  exact y.replayed.untacked i

/-- Joining routes changes nothing of a copy but its routes. -/
theorem pin_unrouted {q : Pin} (hq : c.graph.pin? i = some q) :
    (h.pin? i).map (·.unrouted.bare) = some q.unrouted.bare := by
  obtain ⟨q', hq', heq⟩ := Option.map_eq_some_iff.1 ((y.pin?_eq i).trans (congrArg _ hq))
  rw [hq', Option.map_some, heq]

theorem gate_unrouted {q : Gate} (hq : c.graph.gate? i = some q) :
    (h.gate? i).map (·.unrouted.bare) = some q.unrouted.bare := by
  obtain ⟨q', hq', heq⟩ := Option.map_eq_some_iff.1 ((y.gate?_eq i).trans (congrArg _ hq))
  rw [hq', Option.map_some, heq]

theorem bus_untacked {d : Bus} (hd : c.graph.bus? i = some d) :
    (h.bus? i).map (·.untacked.bare) = some d.untacked.bare := by
  obtain ⟨d', hd', heq⟩ := Option.map_eq_some_iff.1 ((y.bus?_eq i).trans (congrArg _ hd))
  rw [hd', Option.map_some, heq]

theorem route?_eq (s : Id) : h.route? s = c'.graph.route? s := by
  rw [y.graph]
  rfl

theorem tack?_eq (t : Id) : h.tack? t = c'.graph.tack? t := by
  rw [y.graph]
  rfl

theorem terminalOf_eq (e : Endpoint) : h.terminalOf e = c'.graph.terminalOf e := by
  cases e with
  | tack t => simp only [Graph.terminalOf, Graph.tackOwner?, y.tack?_eq]
  | _ => rfl

/-- A copy is as live as it was before routes were joined. -/
theorem has_eq (ht : k ≠ .tack) (hr : k ≠ .route) (i : Id) : h.has k i = c.graph.has k i := by
  cases k with
  | node => exact (y.alike.has_eq .node i).trans (congrArg (fun m : IdMap Node => m.contains i)
      y.replayed.rerouted.nodes)
  | pin => exact Graph.view_eq Option.isSome (y.pin?_eq i) fun _ => rfl
  | gate => exact Graph.view_eq Option.isSome (y.gate?_eq i) fun _ => rfl
  | bus => exact Graph.view_eq Option.isSome (y.bus?_eq i) fun _ => rfl
  | tack => exact absurd rfl ht
  | route => exact absurd rfl hr

/-- The copy of what a node owns belongs to the copy of the node. -/
theorem ownerOf?_standIn (wl : linked.WellFormed) (hi : (i, x) ∈ c.copies nodes k) {o : Id}
    (ho : linked.ownerOf? k i = some o) : c.graph.ownerOf? k x = some (c.standIn nodes .node o) :=
  y.traced.ownerOf?_eq hi ho
    (y.traced.mem_standIn y.complete (k := .node) nofun nofun (wl.contains_owner ho))

theorem copy_pin (wl : linked.WellFormed) {p : Pin} (hp : linked.pin? i = some p) :
    ∃ q, c.graph.pin? (c.standIn nodes .pin i) = some q ∧ q.node = c.standIn nodes .node p.node ∧
      q.name = p.name ∧ q.direction = p.direction ∧ q.channel = p.channel := by
  have hi := y.traced.mem_standIn y.complete (k := .pin) nofun nofun (IdMap.contains_of_get? hp)
  obtain ⟨p', q, hp', hq, h⟩ := y.traced.alike hi
  cases hp.symm.trans hp'
  have howner := y.ownerOf?_standIn wl hi (Option.map_eq_some_iff.2 ⟨p, hp, rfl⟩)
  obtain ⟨q', hq', hnode⟩ := Option.map_eq_some_iff.1 howner
  cases hq.symm.trans hq'
  exact ⟨q, hq, hnode, h⟩

/-- A gate that was there before keeps its own direction. -/
theorem copy_gate (wl : linked.WellFormed) {p : Gate} (hp : linked.gate? i = some p) :
    ∃ q, c.graph.gate? (c.standIn nodes .gate i) = some q ∧ q.group = c.standIn nodes .node p.group ∧
      q.name = p.name ∧ (base.gates.contains (c.standIn nodes .gate i) = false →
        q.direction = p.direction ∧ q.channel = p.channel) := by
  have hi := y.traced.mem_standIn y.complete (k := .gate) nofun nofun (IdMap.contains_of_get? hp)
  obtain ⟨p', q, hp', hq, hname, h⟩ := y.traced.alike hi
  cases hp.symm.trans hp'
  have howner := y.ownerOf?_standIn wl hi (Option.map_eq_some_iff.2 ⟨p, hp, rfl⟩)
  obtain ⟨q', hq', hgroup⟩ := Option.map_eq_some_iff.1 howner
  cases hq.symm.trans hq'
  exact ⟨q, hq, hgroup, hname, h⟩

theorem copy_bus (wl : linked.WellFormed) {b : Bus} (hb : linked.bus? i = some b) :
    ∃ d, c.graph.bus? (c.standIn nodes .bus i) = some d ∧ d.group = c.standIn nodes .node b.group ∧
      d.name = b.name ∧ d.filter = b.filter := by
  have hi := y.traced.mem_standIn y.complete (k := .bus) nofun nofun (IdMap.contains_of_get? hb)
  obtain ⟨b', d, hb', hd, hname, hfilter, -⟩ := y.traced.alike hi
  cases hb.symm.trans hb'
  have howner := y.ownerOf?_standIn wl hi (Option.map_eq_some_iff.2 ⟨b, hb, rfl⟩)
  obtain ⟨d', hd', hgroup⟩ := Option.map_eq_some_iff.1 howner
  cases hd.symm.trans hd'
  exact ⟨d, hd, hgroup, hname, hfilter⟩

/-- A route that was there joins what it joined. -/
theorem route?_old (hs : base.routes.contains s = true) : h.route? s = base.route? s := by
  have hc : c.graph.routes.contains s = true := (congrArg Option.isSome (y.traced.ext.routes s)).trans hs
  exact ((y.route?_eq s).trans (y.replayed.old hc)).trans (y.traced.ext.routes s)

theorem tack?_old {t : Id} (ht : base.tacks.contains t = true) : h.tack? t = base.tack? t := by
  have hc : c.graph.tacks.contains t = true := (congrArg Option.isSome (y.traced.ext.tacks t)).trans ht
  exact ((y.tack?_eq t).trans (y.replayed.tacks hc)).trans (y.traced.ext.tacks t)

/-- A route of the new graph was there before or joins what stands for the ends of a route that was copied. -/
theorem route_cases {r : Route} (hr : h.route? s = some r) :
    base.routes.contains s = true ∨ ∃ s₀ r₀, (s₀, s) ∈ done ∧ linked.route? s₀ = some r₀ ∧
      h.terminalOf r.a = (linked.terminalOf r₀.a).rename (c.standIn nodes) ∧
      h.terminalOf r.b = (linked.terminalOf r₀.b).rename (c.standIn nodes) := by
  have hlive : c'.graph.routes.contains s = true :=
    IdMap.contains_of_get? ((y.route?_eq s).symm.trans hr)
  rcases y.replayed.made hlive with hs | ⟨s₀, hs₀⟩
  · exact Or.inl ((congrArg Option.isSome (y.traced.ext.routes s)).symm.trans hs)
  · obtain ⟨r₀, r', hr₀, hr', hra, hrb⟩ := y.replayed.joins hs₀
    obtain rfl : r' = r := Option.some.inj (hr'.symm.trans ((y.route?_eq s).symm.trans hr))
    exact Or.inr ⟨s₀, r₀, hs₀, hr₀, (y.terminalOf_eq _).trans hra, (y.terminalOf_eq _).trans hrb⟩

end Expanded

end Copying

/-- Expanding a link of a well-formed model does not fail. -/
theorem Blueprint.exists_expandLink {b : Blueprint} {group : Id} {linked : Graph}
    (wb : b.graph.WellFormed) (wl : linked.WellFormed) {t : Group} (ht : b.graph.group? group = some t) :
    ∃ b' nodes done c c', b.expandLink group linked = .ok b' ∧
      Copying.Expanded linked b.graph group nodes done c c' b'.graph := by
  obtain ⟨nodes, done, c, c', g, h, hcopy, hstate, y⟩ := Copying.exists_expansion wb wl ht
  exact ⟨_, nodes, done, c, c', bind_eq_ok.2 ⟨g, hcopy, bind_eq_ok.2 ⟨h, hstate, rfl⟩⟩, y⟩

end MessageGraph
