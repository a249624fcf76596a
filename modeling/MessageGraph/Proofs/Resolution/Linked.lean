import MessageGraph.Proofs.Blueprint.Expansion
import MessageGraph.Proofs.Resolution.Renaming

/-!
# A linked model inside the model that links it

If a group has no gates of its own, the graph that an expanded link leaves has two graphs in it. One is the
linked graph without the routes at its outer pads (`Expanded.replica`), under new ids; the other is the graph
that was there (`Expanded.kept`). So messages that start in the content go as they do in the linked model, but
not out of it, and all other messages go as before (`expandLink_reproduces`).
-/
namespace MessageGraph

namespace Graph

variable {g g' : Graph} {k : EntityKind} {i s : Id} {r : Route}

/-- What a link brings in: pins, gates, buses, and all nodes but the top-level group. -/
structure Content (g : Graph) (k : EntityKind) (i : Id) : Prop where
  live : g.has k i = true
  ne_tack : k ≠ .tack
  ne_route : k ≠ .route
  ne_root : k = .node → i ≠ g.root

/-- The graph without the routes at its outer pads. -/
def inner (g : Graph) : Graph := g.detachAll g.outerRoutes

theorem WellFormed.inner_wellFormed (w : g.WellFormed) : g.inner.WellFormed := w.detachAll _

theorem WellFormed.inner_cleared (w : g.WellFormed) : Cleared g g.inner := w.detachAll_cleared _

theorem WellFormed.route?_inner (w : g.WellFormed) :
    g.inner.route? s = some r ↔
      g.route? s = some r ∧ (g.isTopPad r.a || g.isTopPad r.b) = false := by
  rw [Graph.inner, w.route?_detachAll_iff, and_congr_right_iff]
  intro hr
  have hlive : s ∈ g.routes.ids := IdMap.mem_ids_iff.2 (IdMap.contains_of_get? hr)
  rw [outerRoutes, List.mem_filter, hr, Option.elim_some, and_iff_right hlive, Bool.not_eq_true]

theorem Cleared.has_eq (h : Cleared g g') (ht : k ≠ .tack) (hr : k ≠ .route) (i : Id) :
    g'.has k i = g.has k i := by
  cases k with
  | node => exact congrArg (fun m : IdMap Node => m.contains i) h.rerouted.nodes
  | pin => exact h.rerouted.contains_pin i
  | gate => exact h.rerouted.contains_gate i
  | bus => exact h.contains_bus i
  | tack => exact absurd rfl ht
  | route => exact absurd rfl hr

end Graph

namespace Copying

open MessageGraph.Graph (Embeds Replica)

variable {linked base h : Graph} {group i x s s' : Id} {nodes done : List (Id × Id)} {c c' : Copying}
  {k : EntityKind} {a : Terminal}

/-- What stands for each entity of the linked graph. A tack stands where the copy of its route does. -/
def place (c : Copying) (linked h : Graph) (nodes done : List (Id × Id)) : Renaming
  | .route => fun s => (done.lookup s).getD 0
  | .tack => fun t =>
      ((linked.tack? t).bind fun k => h.tackOf? ((done.lookup k.route).getD 0)).getD 0
  | k => c.standIn nodes k

theorem place_eq (hi : linked.Content k i) : c.place linked h nodes done k i = c.standIn nodes k i := by
  cases k with
  | tack => exact absurd rfl hi.ne_tack
  | route => exact absurd rfl hi.ne_route
  | _ => rfl

theorem rename_place (a : Terminal) :
    a.rename (c.place linked h nodes done) = a.rename (c.standIn nodes) := by
  cases a <;> rfl

namespace Expanded

variable (y : Expanded linked base group nodes done c c' h)

include y

/-- Copies of routes are in the order of the routes. -/
theorem lt_iff {p q : Id × Id} (hp : p ∈ done) (hq : q ∈ done) : p.1 < q.1 ↔ p.2 < q.2 := by
  have hsorted : done.Pairwise fun p q => (p.1 < q.1 ↔ p.2 < q.2) ∧ (q.1 < p.1 ↔ q.2 < p.2) :=
    y.replayed.sorted.imp fun {p q} hlt =>
      ⟨⟨fun _ => hlt.2, fun _ => hlt.1⟩, ⟨fun h => absurd h (Nat.lt_asymm hlt.1),
        fun h => absurd h (Nat.lt_asymm hlt.2)⟩⟩
  have hsymm : Std.Symm fun p q : Id × Id => (p.1 < q.1 ↔ p.2 < q.2) ∧ (q.1 < p.1 ↔ q.2 < p.2) :=
    ⟨fun _ _ h => h.symm⟩
  exact (hsorted.forall_of_forall (fun _ _ => ⟨by simp, by simp⟩) hp hq).1

theorem place_route (hs : (s, s') ∈ done) : c.place linked h nodes done .route s = s' := by
  have hlookup : done.lookup s = some s' := lookup_of_unique hs fun ht =>
    Nat.le_antisymm (Nat.le_of_not_lt (mt (y.lt_iff hs ht).2 (Nat.lt_irrefl s)))
      (Nat.le_of_not_lt (mt (y.lt_iff ht hs).2 (Nat.lt_irrefl s)))
  simp only [place, hlookup, Option.getD_some]

/-- A route that does not touch an outer pad has a copy. -/
theorem exists_copy (wl : linked.WellFormed) (hs : linked.inner.routes.contains s = true) :
    (s, c.place linked h nodes done .route s) ∈ done := by
  obtain ⟨r, hr⟩ := IdMap.contains_iff.1 hs
  obtain ⟨s', hs'⟩ := (y.covered s).2 ⟨r, wl.route?_inner.1 hr⟩
  rw [y.place_route hs']
  exact hs'

/-! ## What is new -/

/-- Copies were not there before, if no gate could be bound. -/
theorem absent (wb : base.WellFormed) (hgates : base.gateIds group = [])
    (hi : (i, x) ∈ c.copies nodes k) (hroot : k = .node → i ≠ linked.root) : base.has k x = false := by
  cases hx : base.has k x with
  | false => rfl
  | true =>
    rcases y.traced.bound hi hx with ⟨hk, he⟩ | ⟨rfl, hown⟩
    · exact (hroot hk he).elim
    · have howner := y.traced.ownerOf?_eq (k := .gate) hi hown y.traced.host
      rw [y.traced.ext.ownerOf?_eq (k := .gate) nofun hx] at howner
      have hmem : x ∈ base.gateIds group := wb.gates.mem_iff.2 howner
      rw [hgates] at hmem
      cases hmem

theorem absent_terminal (wb : base.WellFormed) (hgates : base.gateIds group = [])
    (ha : linked.hasTerminal a = true) :
    base.hasTerminal (a.rename (c.standIn nodes)) = false := by
  have t := y.traced
  cases a with
  | pin i => exact y.absent wb hgates (t.mem_standIn y.complete (k := .pin) nofun nofun ha) nofun
  | proxy i | pad i =>
    exact y.absent wb hgates (t.mem_standIn y.complete (k := .gate) nofun nofun ha) nofun
  | bus i => exact y.absent wb hgates (t.mem_standIn y.complete (k := .bus) nofun nofun ha) nofun

/-- What has been there joins what it did, so no new route is at it. -/
theorem not_ends_copy (wb : base.WellFormed) (wl : linked.WellFormed) (hgates : base.gateIds group = [])
    {r : Route} (hr : h.route? s = some r) (hs : base.routes.contains s = false) :
    base.hasTerminal (h.terminalOf r.a) = false ∧ base.hasTerminal (h.terminalOf r.b) = false := by
  rcases y.route_cases hr with hold | ⟨s₀, r₀, -, hr₀, ha, hb⟩
  · exact absurd (hold.symm.trans hs) nofun
  · rw [ha, hb]
    exact ⟨y.absent_terminal wb hgates (Graph.hasTerminal_terminalOf wl
        (wl.contains_of_ends ⟨r₀, hr₀, Or.inl rfl⟩)),
      y.absent_terminal wb hgates (Graph.hasTerminal_terminalOf wl
        (wl.contains_of_ends ⟨r₀, hr₀, Or.inr rfl⟩))⟩

/-! ## The two graphs inside -/

theorem terminalOf_old {e : Endpoint} (he : base.contains e = true) :
    h.terminalOf e = base.terminalOf e := by
  cases e with
  | tack t => simp only [Graph.terminalOf, Graph.tackOwner?, y.tack?_old he]
  | _ => rfl

/-- A route at a terminal was there before if and only if the terminal was. -/
theorem contains_of_mem_routesAt (wb : base.WellFormed) (wl : linked.WellFormed)
    (hgates : base.gateIds group = []) (hs : s ∈ h.routesAt a) :
    base.routes.contains s = base.hasTerminal a := by
  obtain ⟨e, ⟨r, hr, he⟩, rfl⟩ := Graph.ends_of_mem_routesAt y.wellFormed hs
  cases hold : base.routes.contains s with
  | true =>
    have hend := wb.contains_of_ends ⟨r, (y.route?_old hold).symm.trans hr, he⟩
    rw [y.terminalOf_old hend, Graph.hasTerminal_terminalOf wb hend]
  | false =>
    have hnone := y.not_ends_copy wb wl hgates hr hold
    rcases he with rfl | rfl
    · exact hnone.1.symm
    · exact hnone.2.symm

/-- The graph that was there is in the new one under its own ids. -/
theorem kept (wb : base.WellFormed) (wl : linked.WellFormed) (ho : base.InOrder) (ho' : h.InOrder)
    (hgates : base.gateIds group = []) : Replica base h .same where
  left := wb
  right := y.wellFormed
  order := ho
  order' := ho'
  inj _ _ _ _ he := he
  pins {i p} hp := by
    rw [Pin.rename_same]
    exact y.pin_unrouted ((y.traced.ext.pins (IdMap.contains_of_get? hp)).trans hp)
  gates {i p} hp := by
    rw [Gate.rename_same]
    exact y.gate_unrouted ((y.traced.ext.gates (IdMap.contains_of_get? hp)).trans hp)
  buses {i b} hb := by
    rw [Bus.rename_same]
    exact y.bus_untacked ((y.traced.ext.buses (IdMap.contains_of_get? hb)).trans hb)
  tacks {t k} hk := by
    obtain ⟨r, hr, he⟩ := wb.ends_of_tack hk
    have hends : h.Ends k.route (.tack t) := ⟨r, (y.route?_old (IdMap.contains_of_get? hr)).trans hr, he⟩
    simp only [Renaming.same_eq, id_eq, y.wellFormed.tackOf?_eq hends, Option.getD_some]
  joins {s r} hr := by
    refine ⟨r, (y.route?_old (IdMap.contains_of_get? hr)).trans hr, ?_, ?_⟩
    · rw [Terminal.rename_same, y.terminalOf_old (wb.contains_of_ends ⟨r, hr, Or.inl rfl⟩)]
    · rw [Terminal.rename_same, y.terminalOf_old (wb.contains_of_ends ⟨r, hr, Or.inr rfl⟩)]
  only {a s} ha hs := by
    rw [Terminal.rename_same] at hs
    exact ⟨s, (y.contains_of_mem_routesAt wb wl hgates hs).trans ha, rfl⟩
  mono _ _ hlt := hlt

/-- The linked graph without the routes at its outer pads is in the new one. -/
theorem replica (wb : base.WellFormed) (wl : linked.WellFormed) (ho : linked.InOrder) (ho' : h.InOrder)
    (hgates : base.gateIds group = []) :
    Replica linked.inner h (c.place linked h nodes done) where
  left := wl.inner_wellFormed
  right := y.wellFormed
  order := ho.of_part (.of_detachAll wl _)
  order' := ho'
  inj {k i j} ht hr hi hj he := by
    rw [wl.inner_cleared.has_eq ht hr] at hi hj
    have hi' := y.traced.mem_standIn y.complete ht hr hi
    have hj' := y.traced.mem_standIn y.complete ht hr hj
    refine (y.traced.single hi' hj').2 ?_
    cases k with
    | tack => exact absurd rfl ht
    | route => exact absurd rfl hr
    | _ => exact he
  pins {i p} hp := by
    obtain ⟨p₀, hp₀, heq⟩ := Graph.Alike.some_of_map_eq (wl.inner_cleared.rerouted.pins i) hp
    obtain ⟨q, hq, hnode, hname, hdir, hchan⟩ := y.copy_pin wl hp₀
    rw [Pin.unrouted, Pin.unrouted, Pin.mk.injEq] at heq
    refine (y.pin_unrouted hq).trans (congrArg some ?_)
    simp only [Pin.unrouted, Pin.bare, Pin.rename, place, hnode, hname, hdir, hchan, heq]
  gates {i p} hp := by
    obtain ⟨p₀, hp₀, heq⟩ := Graph.Alike.some_of_map_eq (wl.inner_cleared.rerouted.gates i) hp
    obtain ⟨q, hq, hgroup, hname, hsame⟩ := y.copy_gate wl hp₀
    have hi := y.traced.mem_standIn y.complete (k := .gate) (by decide) (by decide) (IdMap.contains_of_get? hp₀)
    obtain ⟨hdir, hchan⟩ := hsame (y.absent wb hgates hi fun hk => by cases hk)
    rw [Gate.unrouted, Gate.unrouted, Gate.mk.injEq] at heq
    refine (y.gate_unrouted hq).trans (congrArg some ?_)
    simp only [Gate.unrouted, Gate.bare, Gate.rename, place, hgroup, hname, hdir, hchan, heq]
  buses {i b} hb := by
    obtain ⟨b₀, hb₀, heq⟩ := Graph.Alike.some_of_map_eq (wl.inner_cleared.buses i) hb
    obtain ⟨d, hd, hgroup, hname, hfilter⟩ := y.copy_bus wl hb₀
    rw [Bus.untacked, Bus.untacked, Bus.mk.injEq] at heq
    refine (y.bus_untacked hd).trans (congrArg some ?_)
    simp only [Bus.untacked, Bus.bare, Bus.rename, place, hgroup, hname, hfilter, heq]
  tacks {t k} hk := by
    simp only [place, wl.inner_cleared.tacks hk, Option.bind_some]
  joins {s r} hr := by
    have hlive := fun {e} (he : r.a = e ∨ r.b = e) => wl.inner_wellFormed.contains_of_ends ⟨r, hr, he⟩
    have hcopy := y.exists_copy wl (IdMap.contains_of_get? hr)
    obtain ⟨r₀, r', hr₀, hr', hra, hrb⟩ := y.replayed.joins hcopy
    cases hr₀.symm.trans (wl.route?_inner.1 hr).1
    refine ⟨r', (y.route?_eq _).trans hr', ?_, ?_⟩
    · rw [y.terminalOf_eq, hra, rename_place, wl.inner_cleared.terminalOf_eq (hlive (Or.inl rfl))]
    · rw [y.terminalOf_eq, hrb, rename_place, wl.inner_cleared.terminalOf_eq (hlive (Or.inr rfl))]
  only {a s} ha hs := by
    rw [hasTerminal_congr wl.inner_cleared.rerouted wl.inner_cleared.buses] at ha
    rw [rename_place] at hs
    obtain ⟨e, ⟨r, hr, -⟩, -⟩ := Graph.ends_of_mem_routesAt y.wellFormed hs
    rcases y.route_cases hr with hold | ⟨s₀, r₀, hs₀, hr₀, -, -⟩
    · -- a route that was there is at no copy
      have hnone := (y.contains_of_mem_routesAt wb wl hgates hs).trans (y.absent_terminal wb hgates ha)
      exact absurd (hnone.symm.trans hold) Bool.false_ne_true
    · refine ⟨s₀, ?_, (y.place_route hs₀).symm⟩
      obtain ⟨r₁, hr₁, hpad⟩ := (y.covered s₀).1 ⟨s, hs₀⟩
      exact IdMap.contains_of_get? (wl.route?_inner.2 ⟨hr₁, hpad⟩)
  mono hs hs' hlt := (y.lt_iff (y.exists_copy wl hs) (y.exists_copy wl hs')).1 hlt

/-- Content has new ids: nothing of any kind had them. -/
theorem place_fresh (wb : base.WellFormed) (hgates : base.gateIds group = []) (hi : linked.Content k i) :
    h.has k (c.place linked h nodes done k i) = true ∧
      ∀ k', base.has k' (c.place linked h nodes done k i) = false := by
  have t := y.traced
  have hmem := t.mem_standIn y.complete hi.ne_tack hi.ne_route hi.live
  have hlive := (t.live hmem).2
  rw [place_eq hi]
  refine ⟨(y.has_eq hi.ne_tack hi.ne_route _).trans hlive, fun k' => ?_⟩
  cases hold : base.has k' (c.standIn nodes k i) with
  | false => rfl
  | true =>
    cases t.wellFormed.ids.one_kind hlive (t.grows k' _ hold)
    exact absurd (hold.symm.trans (y.absent wb hgates hmem hi.ne_root)) nofun

/-- A top-level gate of the linked graph is inside the new one. -/
theorem place_group_ne_root (wb : base.WellFormed) (wl : linked.WellFormed) (hroot : group ≠ base.root)
    {p : Gate} (hp : linked.inner.gate? i = some p) :
    c.place linked h nodes done .node p.group ≠ h.root := by
  obtain ⟨p₀, hp₀, heq⟩ := Graph.Alike.some_of_map_eq (wl.inner_cleared.rerouted.gates i) hp
  have hgroup : p.group = p₀.group := show p.unrouted.group = p₀.unrouted.group by rw [heq]
  have hlive : linked.has .node p.group = true :=
    wl.contains_owner (k := .gate) (i := i) (Option.map_eq_some_iff.2 ⟨p₀, hp₀, hgroup.symm⟩)
  have hmem := y.traced.mem_standIn y.complete (k := .node) nofun nofun hlive
  rw [y.root]
  intro he
  have he : c.standIn nodes .node p.group = base.root := he
  rcases y.traced.bound hmem (he ▸ wb.contains_root) with ⟨-, hr⟩ | ⟨hk, -⟩
  · rw [hr, y.traced.standIn_eq (k := .node) y.traced.host] at he
    exact hroot he
  · cases hk

end Expanded

end Copying

/-! ## Messages in and around the content -/

namespace Graph

/-- The content of `linked` stands in a group of `g'`, under new ids, and what was in `g` is as it was. -/
structure Reproduces (linked g : Graph) (group : Id) (g' : Graph) (f : Renaming) : Prop where
  site : f .node linked.root = group
  fresh : ∀ {k i}, linked.Content k i → g'.has k (f k i) = true ∧ ∀ k', g.has k' (f k i) = false
  inj : ∀ {k k' i j}, linked.Content k i → linked.Content k' j → f k i = f k' j → k = k' ∧ i = j
  embeds : Embeds linked.inner g' f
  inside : ∀ {o}, linked.inner.isOrigin o = true → g'.isOrigin (o.rename f) = true ∧
    g'.resolve (o.rename f) = ((linked.inner.resolve o).filter fun t => !t.isBoundary).map (·.rename f)
  outside : ∀ {o}, g.isOrigin o = true → g'.isOrigin o = true ∧ g'.resolve o = g.resolve o

end Graph

theorem Copying.Expanded.reproduces {linked base h : Graph} {group : Id} {nodes done : List (Id × Id)}
    {c c' : Copying} (y : Expanded linked base group nodes done c c' h) (wb : base.WellFormed)
    (wl : linked.WellFormed) (ho : base.InOrder) (hlo : linked.InOrder) (ho' : h.InOrder)
    (hgates : base.gateIds group = []) (hroot : group ≠ base.root) :
    Graph.Reproduces linked base group h (c.place linked h nodes done) := by
  have e := (y.replica wb wl hlo ho' hgates).embeds
  have e' := (y.kept wb wl ho ho' hgates).embeds
  have hlive : ∀ {g : Graph} {o}, g.isOrigin o = true → g.contains o = true := fun ho =>
    Graph.contains_of_direction (Graph.output_of_isOrigin ho)
  refine
    { site := y.traced.standIn_eq (k := .node) y.traced.host
      fresh := y.place_fresh wb hgates
      inj := fun {k k' i j} hi hj he => ?_
      embeds := e
      inside := fun {o} ho => ⟨(e.isOrigin_rename wl.inner_wellFormed (hlive ho)).trans ho, ?_⟩
      outside := fun {o} ho => ?_ }
  · have hi' := (y.place_fresh wb hgates hi).1
    have hj' := (y.place_fresh wb hgates hj).1
    rw [he] at hi'
    cases y.wellFormed.ids.one_kind hi' hj'
    refine ⟨rfl, e.inj ?_ ?_ he⟩
    · rw [wl.inner_cleared.has_eq hi.ne_tack hi.ne_route]
      exact hi.live
    · rw [wl.inner_cleared.has_eq hi.ne_tack hi.ne_route]
      exact hj.live
  · refine e.resolve wl.inner_wellFormed (fun hp => (?_ : _ ↔ false = true ∧ _)) ho
    exact iff_of_false (y.place_group_ne_root wb wl hroot hp) fun h => Bool.false_ne_true h.1
  · have hor := e'.isOrigin_rename wb (hlive ho)
    have hres := e'.resolve wb (fun {i p} _ => (?_ : _ ↔ true = true ∧ _)) ho
    · rw [Endpoint.rename_same] at hor hres
      refine ⟨hor.trans ho, hres.trans ?_⟩
      simp only [Bool.true_or, List.filter_true, Target.rename_same, List.map_id']
    · rw [Renaming.same_eq, id_eq, y.root]
      exact (and_iff_right rfl).symm

namespace Blueprint

variable {b l : Blueprint} {group : Id} {s : Group}

/-- Expanding a link of a group that has no gates does not fail, and reproduces the linked model there. -/
theorem expandLink_reproduces (hb : b.Reachable) (hl : l.Reachable)
    (hs : b.graph.group? group = some s) (hgates : s.gates = []) (hroot : group ≠ b.graph.root) :
    ∃ b' f, b.expandLink group l.graph = .ok b' ∧
      Graph.Reproduces l.graph b.graph group b'.graph f := by
  have wb := hb.wellFormed
  have wl := hl.wellFormed
  obtain ⟨b', nodes, done, c, c', hok, y⟩ := exists_expandLink wb wl hs
  have ho' : b'.graph.InOrder := by
    obtain ⟨g, g', hg, hg', rfl⟩ := expandLink_eq hok
    exact (hb.inOrder.instantiate wb wl hg).of_part (.of_alike (Graph.setLinkState_alike hg'))
  have hnone : b.graph.gateIds group = [] := (Graph.gateIds_of_group? hs).trans hgates
  exact ⟨b', _, hok, y.reproduces wb wl hb.inOrder hl.inOrder ho' hnone hroot⟩

/-- A model with an empty group. -/
def slotted : Blueprint := (new "main").run [.edit (.addGroup none 1 "slot")]

/-- A clock that ticks for a lamp, past a bus with a filter, and for what is outside. -/
def ticking : Blueprint :=
  (new "ticking").run
    [.edit (.addSource none 1 "clock" { identifier := "clock" }),
      .edit (.addPin 2 "tick" .output false), .edit (.addSource none 1 "lamp" { identifier := "lamp" }),
      .edit (.addPin 4 "tick" .input false), .edit (.addGate 1 "tick" .output false),
      .edit (.addBus none 1 "gate" (some { identifier := "sieve" })),
      .connect (.pin 3) (.pin 5), .connect (.pin 3) (.proxy 6), .connect (.pin 3) (.bus 7),
      .connect (.bus 7) (.pin 5)]

theorem expandLink_reproduces_ticking :
    slotted.Reachable ∧ ticking.Reachable ∧ (∃ s, slotted.graph.group? 2 = some s ∧ s.gates = []) ∧
      2 ≠ slotted.graph.root ∧
      ∃ b' f, slotted.expandLink 2 ticking.graph = .ok b' ∧
        Graph.Reproduces ticking.graph slotted.graph 2 b'.graph f := by
  have hslotted : slotted.Reachable := .run_new "main" rfl
  have hticking : ticking.Reachable := .run_new "ticking" rfl
  refine ⟨hslotted, hticking, ⟨_, rfl, rfl⟩, by decide, ?_⟩
  exact expandLink_reproduces hslotted hticking (s := { }) rfl rfl (by decide)

end Blueprint
end MessageGraph
