import MessageGraph.Proofs.Blueprint.Expansion
import MessageGraph.Proofs.Blueprint.Saved

/-!
# Content of links is not saved

What expanding a link adds to a model does not get into its documents. New nodes and buses are marked as imported
and left out; new routes have no such mark, but all of them are drawn in the group or below, so inside the link.
Only the gates that the group gets for the top-level gates of the linked model are written with the group.

* `split_expandLink`: the visual document stays the same, and so does the behavioral one up to these gates.
-/
namespace MessageGraph

/-- The entry of a group with those gates added that have names of their own. -/
def NodeSpec.withGates (spec : NodeSpec) (gates : List GateSpec) : NodeSpec :=
  { spec with gates := spec.gates ++ gates.filter fun p => !spec.gates.any (·.name = p.name) }

/-- If nothing that is new has a value, a function has the same values at all ids. -/
theorem IdMap.filterMap_ids_of_grown {α β : Type} {m m' : IdMap α} {f f' : Id → Option β}
    (hgrows : ∀ i, m.contains i = true → m'.contains i = true)
    (hold : ∀ i, m.contains i = true → f' i = f i)
    (hnew : ∀ i, m'.contains i = true → m.contains i = false → f' i = none) :
    m'.ids.filterMap f' = m.ids.filterMap f := by
  have hsorted : ∀ m : IdMap α, m.ids.Pairwise (· < ·) := fun m => List.pairwise_map.2 m.sorted
  have hids : m'.ids.filter m.contains = m.ids :=
    ((hsorted m').filter _).eq_of_mem_iff (hsorted m) fun i => by
      rw [List.mem_filter, mem_ids_iff, mem_ids_iff]
      exact ⟨(·.2), fun h => ⟨hgrows i h, h⟩⟩
  rw [← List.filterMap_congr fun i hi => hold i (mem_ids_iff.1 hi), ← hids, List.filterMap_filter]
  refine List.filterMap_congr fun i hi => ?_
  cases hm : m.contains i with
  | true => rfl
  | false => exact hnew i (mem_ids_iff.1 hi) hm

/-! ## The group on its sheet -/

namespace Sheet

variable {s : Sheet} {m : Node} {x : Group} {buses : List (Id × Bus)}

/-- The sheet of a group when its link has been expanded. -/
def stood (s : Sheet) (added : List Gate) (buses : List (Id × Bus)) : Sheet :=
  { s with
    node := s.node.map (·.mapGroup Group.expanded)
    gates := s.gates ++ added
    buses := s.buses ++ buses }

theorem ownBuses_stood (hb : ∀ b ∈ buses, b.2.imported = true) (added : List Gate) :
    (s.stood added buses).ownBuses = s.ownBuses := by
  have hnone : { s with buses := buses }.ownBuses = [] :=
    List.filter_eq_nil_iff.2 fun b h => by simp only [hb b h, Bool.not_true, Bool.false_eq_true,
      not_false_eq_true]
  unfold ownBuses at hnone ⊢
  rw [stood, List.filter_append, hnone, List.append_nil]

theorem node_stood (hm : s.node = some m) (hk : m.kind = .group x) (added : List Gate) :
    (s.stood added buses).node = some { m with kind := .group x.expanded } := by
  rw [stood, hm, Option.map_some, Node.mapGroup, hk]

theorem spec_stood (hm : s.node = some m) (hk : m.kind = .group x)
    (hb : ∀ b ∈ buses, b.2.imported = true) (added : List Gate) (n : Id) :
    (s.stood added buses).spec n =
      { s.spec n with gates := (s.spec n).gates ++ added.map Graph.gateSpec } := by
  rw [spec_group (node_stood hm hk added) rfl, spec_group hm hk, ownBuses_stood hb]
  simp only [stood, List.map_append, Group.expanded, Option.map_map]
  rfl

/-- New gates have no labels. -/
theorem visual_stood (hm : s.node = some m) (hk : m.kind = .group x)
    (hb : ∀ b ∈ buses, b.2.imported = true) {added : List Gate}
    (hbare : ∀ p ∈ added, p.bare = p) : (s.stood added buses).visual = s.visual := by
  have hnone : added.filterMap Graph.gateVisual? = [] :=
    List.filterMap_eq_nil_iff.2 fun p hp => by
      rw [← hbare p hp]
      rfl
  rw [visual_group (node_stood hm hk added) rfl, visual_group hm hk, ownBuses_stood hb]
  simp only [stood, List.filterMap_append, hnone, List.append_nil, Group.expanded]

end Sheet

namespace Graph

variable {g g' : Graph} {n : Id}

theorem isKept_eq_sheet (g : Graph) (n : Id) :
    g.isKept n = (g.sheet n).node.elim false fun m => !m.imported := by
  unfold isKept sheet
  cases g.node? n <;> rfl

theorem isLink_eq_sheet (g : Graph) (n : Id) :
    g.isLink n = (((g.sheet n).node.bind Node.group?).bind (·.link)).isSome := by
  unfold isLink sheet group?
  cases hm : g.node? n with
  | none => rfl
  | some m => cases hk : m.kind <;> simp [Node.group?, Node.unlisted, hk]

theorem exists_sheet_group (ht : (g.group? n).isSome = true) :
    ∃ m x, (g.sheet n).node = some m ∧ m.kind = .group x := by
  rw [isSome_group?_eq, Option.isSome_iff_exists] at ht
  obtain ⟨x, hx⟩ := ht
  obtain ⟨m, hm, hx⟩ := Option.bind_eq_some_iff.1 hx
  cases hk : m.kind with
  | source s => simp only [Node.group?, hk, reduceCtorEq] at hx
  | group s => exact ⟨m, s, hm, hk⟩

/-- A route is not stored if what it joins is drawn inside a link. -/
theorem connectionSpec?_eq_none {s : Id}
    (h : ∀ e n, g.Ends s e → g.scope? e = some n → g.insideLink n = true) :
    g.connectionSpec? s = none := by
  refine Option.eq_none_iff_forall_ne_some.2 fun c hc => ?_
  obtain ⟨x, y, n, hx, -, hn, hinside, -⟩ := connectionSpec?_eq_some_iff.1 hc
  exact absurd ((h x n (ends_of_sender? hx) hn).symm.trans hinside) nofun

/-- A route is stored in the same form if it is there in both graphs and its ends say the same of
themselves. -/
theorem connectionSpec?_congr {s : Id} (hroute : g'.route? s = g.route? s)
    (hdir : ∀ e, g.Ends s e → g'.direction? e = g.direction? e)
    (hspec : ∀ e, g.Ends s e → g'.endpointSpec? e = g.endpointSpec? e)
    (hscope : ∀ e, g.Ends s e → g'.scope? e = g.scope? e)
    (hinside : ∀ e n, g.Ends s e → g.scope? e = some n → g'.insideLink n = g.insideLink n) :
    g'.connectionSpec? s = g.connectionSpec? s := by
  have hsender : g'.sender? s = g.sender? s := by
    unfold sender?
    rw [hroute]
    refine Option.map_congr fun r hr => ?_
    rw [hdir r.a ⟨r, hr, Or.inl rfl⟩]
  have hacross : ∀ x, g'.across? x s = g.across? x s := fun x => by
    unfold across?
    rw [hroute]
  refine Option.ext fun c => ?_
  rw [connectionSpec?_eq_some_iff, connectionSpec?_eq_some_iff, hsender]
  refine exists_congr fun x => exists_congr fun y => exists_congr fun n => and_congr_right fun hx => ?_
  rw [hacross]
  refine and_congr_right fun hy => ?_
  have hex := ends_of_sender? hx
  have hey := (ends_of_across? hy).2
  rw [hscope x hex, hspec x hex, hspec y hey]
  refine and_congr_right fun hn => ?_
  rw [hinside x n hex hn]

end Graph

/-- The entries of the gates that a group gets. -/
theorem Copying.map_gateSpec_boundGates (linked base : Graph) (group : Id) :
    (boundGates linked base group).map Graph.gateSpec =
      (linked.nodeSpec linked.root).gates.filter fun p =>
        !(base.nodeSpec group).gates.any (·.name = p.name) := by
  have hsheet : (base.sheet group).gates =
      ((base.gateIds group).filterMap base.gate?).map Gate.unrouted := List.map_filterMap.symm
  rw [boundGates, unclaimed, List.map_map, Graph.gates_nodeSpec, Graph.gates_nodeSpec, hsheet,
    List.filter_map]
  simp only [List.any_map]
  rfl

/-! ## What is saved of the new graph -/

namespace Copying.Expanded

variable {linked base h : Graph} {group n s : Id} {nodes done : List (Id × Id)} {c c' : Copying}
  {e : Endpoint}

variable (y : Expanded linked base group nodes done c c' h)

include y

/-! ### Nodes that were there -/

theorem draws : Graph.Draws c'.graph group
    { c'.graph.sheet group with node := (c'.graph.sheet group).node.map (·.mapGroup Group.expanded) } []
    h := by
  rw [y.graph]
  exact Graph.modifyGroup_draws y.replayed.routing.graph group (fun _ => rfl) fun _ => rfl

theorem sheet_old (hn : base.nodes.contains n = true) (hne : n ≠ group) : h.sheet n = base.sheet n :=
  ((y.draws.others n hne).trans (Graph.sheet_rerouted y.replayed.rerouted y.replayed.untacked n)).trans
    (y.traced.frame.others hn hne)

theorem sheet_site : ∃ buses : List (Id × Bus), (∀ b ∈ buses, b.2.imported = true) ∧
    h.sheet group = (base.sheet group).stood (boundGates linked base group) buses := by
  obtain ⟨buses, himp, heq⟩ := y.traced.frame.host
  refine ⟨buses, himp, ?_⟩
  rw [y.draws.sheet, Graph.sheet_rerouted y.replayed.rerouted y.replayed.untacked, heq]
  rfl

theorem childIds_eq (n : Id) : h.childIds n = c.graph.childIds n := by
  rw [y.draws.children]
  unfold Graph.childIds Graph.group? Graph.node?
  rw [y.replayed.rerouted.nodes]

/-- A node that was there is the same but for the state of the link. -/
theorem view_old {β : Type} (view : Option Node → β)
    (hview : ∀ m : Node, view (some (m.mapGroup Group.expanded)) = view (some m))
    (hn : base.nodes.contains n = true) : view (h.sheet n).node = view (base.sheet n).node := by
  by_cases hne : n = group
  · obtain ⟨buses, -, heq⟩ := y.sheet_site
    rw [hne, heq, Sheet.stood]
    cases (base.sheet group).node with
    | none => rfl
    | some m => exact hview m
  · rw [y.sheet_old hn hne]

theorem isKept_old (hn : base.nodes.contains n = true) : h.isKept n = base.isKept n := by
  rw [Graph.isKept_eq_sheet, Graph.isKept_eq_sheet]
  refine y.view_old (fun o => o.elim false fun m => !m.imported) (fun m => ?_) hn
  simp only [Option.elim_some, Node.imported_mapGroup]

theorem parent?_old (hn : base.nodes.contains n = true) : h.parent? n = base.parent? n := by
  rw [Graph.parent?_eq_sheet, Graph.parent?_eq_sheet]
  refine y.view_old (fun o => o.bind (·.parent)) (fun m => ?_) hn
  cases hk : m.kind <;> simp only [Option.bind_some, Node.mapGroup, hk]

theorem isLink_old (hn : base.nodes.contains n = true) : h.isLink n = base.isLink n := by
  rw [Graph.isLink_eq_sheet, Graph.isLink_eq_sheet]
  refine y.view_old (fun o => ((o.bind Node.group?).bind (·.link)).isSome) (fun m => ?_) hn
  cases hk : m.kind <;> simp [Node.mapGroup, Node.group?, Group.expanded, hk]

theorem live_old (hn : base.nodes.contains n = true) : h.nodes.contains n = true :=
  (y.has_eq (k := .node) nofun nofun n).trans (y.traced.grows .node n hn)

theorem insideLink_old (wb : base.WellFormed) (hn : base.nodes.contains n = true) :
    h.insideLink n = base.insideLink n :=
  wb.insideLink_congr y.wellFormed y.live_old y.parent?_old y.isLink_old hn

/-! ### Nodes that are new -/

theorem isKept_new (hn : base.nodes.contains n = false) : h.isKept n = false := by
  have hne : n ≠ group := fun he => y.traced.frame.ne_site hn he.symm
  have hnode : h.node? n = c.graph.node? n := by
    rw [y.graph]
    refine (IdMap.get?_modify c'.graph.nodes group n _).trans ?_
    rw [if_neg hne]
    exact congrArg (fun m : IdMap Node => m.get? n) y.replayed.rerouted.nodes
  unfold Graph.isKept
  rw [hnode]
  cases hm : c.graph.node? n with
  | none => rfl
  | some m =>
    rcases y.traced.imported (IdMap.contains_of_get? hm) with hold | hp | ⟨m', hm', himp⟩
    · exact absurd (hold.symm.trans hn) nofun
    · cases hp
    · cases hm.symm.trans hm'
      rw [Option.elim_some, himp]
      rfl

theorem ownTree_eq (wb : base.WellFormed) : h.ownTree = base.ownTree := by
  refine Graph.ownTree_eq_of_grown wb y.wellFormed y.root (fun {m} hm => ?_) y.isKept_old
  rw [y.childIds_eq]
  by_cases hne : m = group
  · obtain ⟨new, hnew, heq⟩ := y.traced.frame.hosted
    exact ⟨new, fun x hx => y.isKept_new (hnew x hx), by rw [hne, heq]⟩
  · exact ⟨[], nofun, by rw [y.traced.frame.children hm hne, List.append_nil]⟩

/-! ### Entries -/

/-- The group is written with the gates that it gets. -/
theorem nodeSpec_site (ht : (base.group? group).isSome = true) :
    h.nodeSpec group = (base.nodeSpec group).withGates (linked.nodeSpec linked.root).gates := by
  obtain ⟨m, x, hm, hk⟩ := Graph.exists_sheet_group ht
  obtain ⟨buses, himp, heq⟩ := y.sheet_site
  rw [Graph.nodeSpec_eq, heq, Sheet.spec_stood hm hk himp, NodeSpec.withGates, Copying.map_gateSpec_boundGates,
    ← Graph.nodeSpec_eq]

theorem nodeVisual_site (ht : (base.group? group).isSome = true) :
    h.nodeVisual group = base.nodeVisual group := by
  obtain ⟨m, x, hm, hk⟩ := Graph.exists_sheet_group ht
  obtain ⟨buses, himp, heq⟩ := y.sheet_site
  rw [Graph.nodeVisual_eq, heq, Sheet.visual_stood hm hk himp fun p hp => ?_, ← Graph.nodeVisual_eq]
  obtain ⟨q, -, rfl⟩ := List.mem_map.1 hp
  rfl

theorem nodeSpec_old (hn : base.nodes.contains n = true) (hne : n ≠ group) :
    h.nodeSpec n = base.nodeSpec n := by
  rw [Graph.nodeSpec_eq, Graph.nodeSpec_eq, y.sheet_old hn hne]

theorem nodeVisual_old (hn : base.nodes.contains n = true) (hne : n ≠ group) :
    h.nodeVisual n = base.nodeVisual n := by
  rw [Graph.nodeVisual_eq, Graph.nodeVisual_eq, y.sheet_old hn hne]

/-! ### Connections that were there -/

theorem pin?_old {i : Id} {p : Pin} (hp : base.pin? i = some p) :
    ∃ q, h.pin? i = some q ∧ q.unrouted = p.unrouted :=
  Option.map_eq_some_iff.1 ((y.pin?_eq i).trans
    (congrArg _ ((y.traced.ext.pins (IdMap.contains_of_get? hp)).trans hp)))

theorem gate?_old {i : Id} {p : Gate} (hp : base.gate? i = some p) :
    ∃ q, h.gate? i = some q ∧ q.unrouted = p.unrouted :=
  Option.map_eq_some_iff.1 ((y.gate?_eq i).trans
    (congrArg _ ((y.traced.ext.gates (IdMap.contains_of_get? hp)).trans hp)))

theorem bus?_old {i : Id} {b : Bus} (hb : base.bus? i = some b) :
    ∃ d, h.bus? i = some d ∧ d.untacked = b.untacked :=
  Option.map_eq_some_iff.1 ((y.bus?_eq i).trans
    (congrArg _ ((y.traced.ext.buses (IdMap.contains_of_get? hb)).trans hb)))

/-- An endpoint that was there says the same of itself, and stands in the same group. -/
theorem endpoint_old (wb : base.WellFormed) (he : base.contains e = true) :
    h.direction? e = base.direction? e ∧ h.endpointSpec? e = base.endpointSpec? e ∧
      h.scope? e = base.scope? e := by
  cases e with
  | pin i =>
    obtain ⟨p, hp⟩ := IdMap.contains_iff.1 he
    have hp : base.pin? i = some p := hp
    obtain ⟨q, hq, heq⟩ := y.pin?_old hp
    simp only [Pin.unrouted, Pin.mk.injEq] at heq
    have hnode : base.nodes.contains p.node = true :=
      wb.contains_owner (k := .pin) (Option.map_eq_some_iff.2 ⟨p, hp, rfl⟩)
    simp only [Graph.direction?, Graph.endpointSpec?, Graph.scope?, hp, hq, Option.map_some,
      Option.bind_some, heq, y.parent?_old hnode, and_self]
  | proxy i | pad i =>
    obtain ⟨p, hp⟩ := IdMap.contains_iff.1 he
    have hp : base.gate? i = some p := hp
    obtain ⟨q, hq, heq⟩ := y.gate?_old hp
    simp only [Gate.unrouted, Gate.mk.injEq] at heq
    have hgroup : base.nodes.contains p.group = true :=
      wb.contains_owner (k := .gate) (Option.map_eq_some_iff.2 ⟨p, hp, rfl⟩)
    simp only [Graph.direction?, Graph.endpointSpec?, Graph.scope?, hp, hq, Option.map_some,
      Option.bind_some, heq, y.parent?_old hgroup, and_self]
  | tack t =>
    obtain ⟨k, hk⟩ := IdMap.contains_iff.1 he
    have hk : base.tack? t = some k := hk
    obtain ⟨b, hb⟩ := wb.bus_of_tack hk
    obtain ⟨d, hd, heq⟩ := y.bus?_old hb
    simp only [Bus.untacked, Bus.mk.injEq] at heq
    simp only [Graph.direction?, Graph.endpointSpec?, Graph.scope?, y.tack?_old he, hk, hb, hd,
      Option.map_some, Option.bind_some, heq, and_self]

theorem connectionSpec?_old (wb : base.WellFormed) (hs : base.routes.contains s = true) :
    h.connectionSpec? s = base.connectionSpec? s := by
  have hold : ∀ e, base.Ends s e → _ := fun e he => y.endpoint_old wb (wb.contains_of_ends he)
  exact Graph.connectionSpec?_congr (y.route?_old hs) (fun e he => (hold e he).1)
    (fun e he => (hold e he).2.1) (fun e he => (hold e he).2.2)
    fun e n _ hn => y.insideLink_old wb (wb.contains_scope hn)

/-! ### Connections that are new -/

theorem parent?_eq (n : Id) : h.parent? n = c.graph.parent? n := by
  rw [y.alike.parent?_eq]
  unfold Graph.parent? Graph.node?
  rw [y.replayed.rerouted.nodes]

/-- The copy of an endpoint stands in the copy of the group that the endpoint stands in. -/
theorem terminalScope?_copy (wl : linked.WellFormed) (he : linked.contains e = true) {o : Id}
    (ho : linked.scope? e = some o) :
    h.terminalScope? ((linked.terminalOf e).rename (c.standIn nodes)) =
      some (c.standIn nodes .node o) := by
  have hparent : ∀ {m}, linked.parent? m = some o →
      h.parent? (c.standIn nodes .node m) = some (c.standIn nodes .node o) := fun {m} hm => by
    rw [y.parent?_eq]
    exact y.ownerOf?_standIn (k := .node) wl
      (y.traced.mem_standIn y.complete (k := .node) nofun nofun (Graph.contains_of_parent? hm)) hm
  cases e with
  | pin i =>
    obtain ⟨p, hp, hm⟩ := Option.bind_eq_some_iff.1 ho
    obtain ⟨q, hq, hnode, -⟩ := y.copy_pin wl hp
    obtain ⟨q', hq', heq⟩ := Option.map_eq_some_iff.1 ((y.pin?_eq _).trans (congrArg _ hq))
    simp only [Pin.unrouted, Pin.mk.injEq] at heq
    simp only [Graph.terminalOf, Terminal.rename, Graph.terminalScope?, hq', Option.bind_some, heq,
      hnode, hparent hm]
  | proxy i =>
    obtain ⟨p, hp, rfl⟩ := Option.map_eq_some_iff.1 ho
    obtain ⟨q, hq, hgroup, -⟩ := y.copy_gate wl hp
    obtain ⟨q', hq', heq⟩ := Option.map_eq_some_iff.1 ((y.gate?_eq _).trans (congrArg _ hq))
    simp only [Gate.unrouted, Gate.mk.injEq] at heq
    simp only [Graph.terminalOf, Terminal.rename, Graph.terminalScope?, hq', Option.map_some, heq,
      hgroup]
  | pad i =>
    obtain ⟨p, hp, hm⟩ := Option.bind_eq_some_iff.1 ho
    obtain ⟨q, hq, hgroup, -⟩ := y.copy_gate wl hp
    obtain ⟨q', hq', heq⟩ := Option.map_eq_some_iff.1 ((y.gate?_eq _).trans (congrArg _ hq))
    simp only [Gate.unrouted, Gate.mk.injEq] at heq
    simp only [Graph.terminalOf, Terminal.rename, Graph.terminalScope?, hq', Option.bind_some, heq,
      hgroup, hparent hm]
  | tack t =>
    obtain ⟨b, hb, rfl⟩ := Option.map_eq_some_iff.1 ho
    obtain ⟨k, hk, hb⟩ := Option.bind_eq_some_iff.1 hb
    obtain ⟨d, hd, hgroup, -⟩ := y.copy_bus wl hb
    obtain ⟨d', hd', heq⟩ := Option.map_eq_some_iff.1 ((y.bus?_eq _).trans (congrArg _ hd))
    simp only [Bus.untacked, Bus.mk.injEq] at heq
    simp only [Graph.terminalOf, Graph.tackOwner?, hk, Option.map_some, Option.getD_some,
      Terminal.rename, Graph.terminalScope?, hd', heq, hgroup]

/-- Every copy of a node is below the group. -/
theorem below_site (wl : linked.WellFormed) {o o' : Id} (ho : (o, o') ∈ nodes) : h.Below o' group := by
  have hroot := wl.tree.rooted (y.traced.live (k := .node) ho).1
  induction hroot using Relation.ReflTransGen.head_induction_on generalizing o' with
  | refl =>
    rw [(y.traced.single (k := .node) ho y.traced.host).1 rfl]
    exact .refl
  | head hp _ ih =>
    obtain ⟨p', hp', hmem⟩ := y.traced.owner (k := .node) ho hp
    exact .head ((y.parent?_eq o').trans hp') (ih hmem)

/-- A route that is new is drawn in the group or below. -/
theorem connectionSpec?_new (wl : linked.WellFormed) (hlink : h.isLink group = true) {r : Route}
    (hr : h.route? s = some r) (hs : base.routes.contains s = false) : h.connectionSpec? s = none := by
  rcases y.route_cases hr with hold | ⟨s₀, r₀, hs₀, hr₀, hra, hrb⟩
  · exact absurd (hold.symm.trans hs) nofun
  obtain ⟨r₁, hr₁, hpad⟩ := (y.covered s₀).1 ⟨s, hs₀⟩
  cases hr₀.symm.trans hr₁
  obtain ⟨hpa, hpb⟩ := Bool.or_eq_false_iff.1 hpad
  -- each end is the copy of an end that stands in a group
  have hend : ∀ e e₀, h.Ends s e → linked.Ends s₀ e₀ → linked.isTopPad e₀ = false →
      h.terminalOf e = (linked.terminalOf e₀).rename (c.standIn nodes) →
      ∀ n, h.scope? e = some n → h.insideLink n = true := by
    intro e e₀ he he₀ hpad₀ hat n hn
    have hlive := wl.contains_of_ends he₀
    have hscope := Graph.isSome_scope? wl hlive
    rw [hpad₀, Bool.not_false, Option.isSome_iff_exists] at hscope
    obtain ⟨o, ho⟩ := hscope
    rw [Graph.scope?_eq (y.wellFormed.contains_of_ends he), hat, y.terminalScope?_copy wl hlive ho,
      Option.some.injEq] at hn
    have hmem := y.traced.mem_standIn y.complete (k := .node) nofun nofun (wl.contains_scope ho)
    have hnode : h.nodes.contains (c.standIn nodes .node o) = true :=
      (y.has_eq (k := .node) nofun nofun _).trans (y.traced.live hmem).2
    rw [← hn, y.wellFormed.insideLink_iff hnode]
    exact ⟨group, y.below_site wl hmem, hlink⟩
  refine Graph.connectionSpec?_eq_none fun e n he hn => ?_
  obtain ⟨r', hr', he'⟩ := he
  cases hr.symm.trans hr'
  rcases he' with rfl | rfl
  · exact hend _ _ ⟨r, hr, Or.inl rfl⟩ ⟨r₀, hr₀, Or.inl rfl⟩ hpa hra n hn
  · exact hend _ _ ⟨r, hr, Or.inr rfl⟩ ⟨r₀, hr₀, Or.inr rfl⟩ hpb hrb n hn

/-- The stored connections and their wires are those that were there. -/
theorem ownConnections_eq (wb : base.WellFormed) (wl : linked.WellFormed)
    (hlink : base.isLink group = true) : h.ownConnections = base.ownConnections := by
  have hlink : h.isLink group = true := (y.isLink_old y.traced.frame.site).trans hlink
  rw [Graph.ownConnections_eq_filterMap, Graph.ownConnections_eq_filterMap]
  refine IdMap.filterMap_ids_of_grown (fun s hs => ?_) (fun s hs => ?_) fun s hs hnew => ?_
  · exact (congrArg Option.isSome (y.route?_old hs)).trans hs
  · rw [Graph.connection?, Graph.connection?, y.connectionSpec?_old wb hs, y.route?_old hs]
  · obtain ⟨r, hr⟩ := IdMap.contains_iff.1 hs
    rw [Graph.connection?, y.connectionSpec?_new wl hlink hr hnew, Option.bind_none]

end Copying.Expanded

namespace Blueprint

variable {b l : Blueprint} {group : Id} {s : Group}

/-- Expanding a link does not fail, and of what it adds only the new gates of the group are saved. -/
theorem split_expandLink (hb : b.Reachable) (hl : l.Reachable) (hs : b.graph.group? group = some s)
    (hlink : s.link.isSome = true) :
    ∃ b', b.expandLink group l.graph = .ok b' ∧ b'.split.2 = b.split.2 ∧
      b'.split.1 = { b.split.1 with
        root := b.split.1.root.map fun spec =>
          if spec.id = group then spec.withGates l.split.1.root.value.gates else spec } := by
  have wb := hb.wellFormed
  have wl := hl.wellFormed
  obtain ⟨b', nodes, done, c, c', hok, y⟩ := exists_expandLink wb wl hs
  have hsite : (b.graph.group? group).isSome = true := by rw [hs]; rfl
  have hislink : b.graph.isLink group = true := by rw [Graph.isLink, hs, Option.bind_some, hlink]
  have htree := y.ownTree_eq wb
  have hcons := y.ownConnections_eq wb wl hislink
  have hlive : ∀ n ∈ b.graph.ownTree.values, b.graph.nodes.contains n = true := fun n hn =>
    (wb.mem_ownTree.1 hn).live
  have hgates : l.split.1.root.value = l.graph.nodeSpec l.graph.root := by
    show (l.graph.ownTree.map l.graph.nodeSpec).value = _
    rw [Tree.value_map, Graph.value_ownTree]
  refine ⟨b', hok, ?_, ?_⟩
  · simp only [split, htree, hcons]
    have hpictures : ∀ n ∈ b.graph.ownTree.values, b'.graph.nodeVisual n = b.graph.nodeVisual n := by
      intro n hn
      by_cases hne : n = group
      · rw [hne, y.nodeVisual_site hsite]
      · exact y.nodeVisual_old (hlive n hn) hne
    rw [Tree.map_congr _ hpictures]
  · rw [hgates]
    simp only [split, htree, hcons, Tree.map_map, id_nodeSpec]
    rw [Tree.map_congr _ fun n hn => ?_]
    split
    · rename_i hne
      rw [hne, y.nodeSpec_site hsite]
    · exact y.nodeSpec_old (hlive n hn) ‹_›

/-- A model whose link declares a gate of its own. -/
def awaitingLink : Blueprint :=
  (new "main").run
    [.edit (.addGroup none 1 "room"), .edit (.setLink 2 "room"),
      .edit (.addGate 2 "bell" .input false)]

/-- A model to link with one more gate, and a lamp that is lit through it. -/
def lit : Blueprint :=
  (new "room").run
    [.edit (.addGate 1 "bell" .input false), .edit (.addGate 1 "light" .input false),
      .edit (.addSource none 1 "lamp" { identifier := "lamp" }), .edit (.addPin 4 "light" .input false),
      .connect (.proxy 3) (.pin 5)]

theorem split_expandLink_lit :
    awaitingLink.Reachable ∧ lit.Reachable ∧
      (∃ s, awaitingLink.graph.group? 2 = some s ∧ s.link.isSome = true) ∧
      ∃ b', awaitingLink.expandLink 2 lit.graph = .ok b' ∧ b'.split.2 = awaitingLink.split.2 ∧
        b'.split.1 = { awaitingLink.split.1 with
          root := awaitingLink.split.1.root.map fun spec =>
            if spec.id = 2 then spec.withGates lit.split.1.root.value.gates else spec } ∧
        b'.split.1.root.values.map (fun spec => spec.gates.map (·.name)) = [[], ["bell", "light"]] := by
  have hawaiting : awaitingLink.Reachable := .run_new "main" rfl
  have hlit : lit.Reachable := .run_new "room" rfl
  have hs : ∃ s, awaitingLink.graph.group? 2 = some s ∧ s.link.isSome = true := ⟨_, rfl, rfl⟩
  obtain ⟨s, hs, hlink⟩ := hs
  obtain ⟨b', hok, hvisual, hbehavioral⟩ := split_expandLink hawaiting hlit hs hlink
  have hgates : (awaitingLink.expandLink 2 lit.graph).toOption.map (fun b' =>
      b'.split.1.root.values.map fun spec => spec.gates.map (·.name)) =
        some [[], ["bell", "light"]] := by decide +kernel
  rw [hok] at hgates
  exact ⟨hawaiting, hlit, ⟨s, hs, hlink⟩, b', hok, hvisual, hbehavioral, Option.some.inj hgates⟩

end Blueprint
end MessageGraph
