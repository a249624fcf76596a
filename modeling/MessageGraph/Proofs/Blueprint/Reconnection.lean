import MessageGraph.Proofs.Blueprint.Looks
import MessageGraph.Proofs.Graph.Wiring
import MessageGraph.Proofs.Blueprint.Join
import Mathlib.Data.List.Forall2

/-!
# Saved connections are made again

A route of one graph `Matches` a route of a graph that looks the same if the two send between twins. Loading
makes for each saved route one that matches it, in the order of the ids of the saved routes
(`rewires_addConnections`): every saved connection is found, is legal and is not there yet.
-/
namespace MessageGraph.Graph

variable {g h h' : Graph} {s s' : Id} {a a' b b' : Terminal} {x y x' y' : Endpoint}

/-! ## What the documents say of a terminal -/

/-- The stored form of a terminal. -/
def terminalSpec? (g : Graph) : Terminal → Option EndpointSpec
  | .pin i => (g.pin? i).map fun p => .pin p.node p.name
  | .proxy i => (g.gate? i).map fun p => .proxy p.group p.name
  | .pad i => (g.gate? i).map fun p => .pad p.group p.name
  | .bus i => some (.bus i)

/-- The group in which the routes at a terminal are drawn. -/
def terminalScope? (g : Graph) : Terminal → Option Id
  | .pin i => (g.pin? i).bind fun p => g.parent? p.node
  | .proxy i => (g.gate? i).map (·.group)
  | .pad i => (g.gate? i).bind fun p => g.parent? p.group
  | .bus i => (g.bus? i).map (·.group)

theorem endpointSpec?_eq (hx : g.contains x = true) :
    g.endpointSpec? x = g.terminalSpec? (g.terminalOf x) := by
  cases x with
  | tack t =>
    obtain ⟨k, hk⟩ := IdMap.contains_iff.1 hx
    have hk : g.tack? t = some k := hk
    simp only [endpointSpec?, terminalOf, tackOwner?, hk, Option.map_some, Option.getD_some,
      terminalSpec?]
  | _ => rfl

theorem scope?_eq (hx : g.contains x = true) : g.scope? x = g.terminalScope? (g.terminalOf x) := by
  cases x with
  | tack t =>
    obtain ⟨k, hk⟩ := IdMap.contains_iff.1 hx
    have hk : g.tack? t = some k := hk
    simp only [scope?, terminalOf, tackOwner?, hk, Option.map_some, Option.getD_some, terminalScope?,
      Option.bind_some]
  | _ => rfl

namespace Twin

theorem terminalSpec? (t : Twin g h a a') : h.terminalSpec? a' = g.terminalSpec? a := by
  cases t with
  | pin hp hq hnode hspec =>
    simp only [pinSpec, PinSpec.mk.injEq] at hspec
    simp only [Graph.terminalSpec?, hp, hq, Option.map_some, hnode, hspec.1]
  | proxy hp hq hgroup hspec =>
    simp only [gateSpec, GateSpec.mk.injEq] at hspec
    simp only [Graph.terminalSpec?, hp, hq, Option.map_some, hgroup, hspec.1]
  | pad hp hq hgroup hspec =>
    simp only [gateSpec, GateSpec.mk.injEq] at hspec
    simp only [Graph.terminalSpec?, hp, hq, Option.map_some, hgroup, hspec.1]
  | bus _ _ => rfl

theorem terminalScope? (t : Twin g h a a') (l : Looks g h) (w : g.WellFormed) (w' : h.WellFormed)
    (ho : g.Own) : h.terminalScope? a' = g.terminalScope? a := by
  cases t with
  | pin hp hq hnode _ =>
    simp only [Graph.terminalScope?, hp, hq, Option.bind_some, hnode, l.parent?_eq w.tree w'.tree]
  | proxy hp hq hgroup _ => simp only [Graph.terminalScope?, hp, hq, Option.map_some, hgroup]
  | pad hp hq hgroup _ =>
    simp only [Graph.terminalScope?, hp, hq, Option.bind_some, hgroup, l.parent?_eq w.tree w'.tree]
  | bus hb _ =>
    obtain ⟨b, hb⟩ := IdMap.contains_iff.1 hb
    obtain ⟨b', hb', hgroup, -⟩ := l.bus w w' ho hb
    have hb : g.bus? _ = some b := hb
    simp only [Graph.terminalScope?, hb, hb', Option.map_some, hgroup]

end Twin

theorem findPin?_eq_some (w : h.WellFormed) {i : Id} {q : Pin} (hq : h.pin? i = some q) :
    h.findPin? q.node q.name q.direction = some i := by
  cases hf : h.findPin? q.node q.name q.direction with
  | none => exact absurd ⟨rfl, rfl⟩ (findPin?_eq_none_iff.1 hf _ (w.pin_mem_sheet hq))
  | some j =>
    obtain ⟨p, hp, hnode, hname, hdirection⟩ := pin_of_findPin? w.pins hf
    rw [w.names.pins hp hq hnode hname hdirection]

theorem findGate?_eq_some (w : h.WellFormed) {i : Id} {q : Gate} (hq : h.gate? i = some q) :
    h.findGate? q.group q.name = some i := by
  cases hf : h.findGate? q.group q.name with
  | none => exact absurd (rfl : q.unrouted.name = q.name) (findGate?_eq_none_iff.1 hf _ (w.gate_mem_sheet hq))
  | some j =>
    obtain ⟨p, hp, hgroup, hname⟩ := gate_of_findGate? w.gates hf
    rw [w.names.gates hp hq hgroup hname]

/-- A terminal is found again from its stored form and the direction in which it is used. -/
theorem terminal?_eq (w : h.WellFormed) (ha : h.hasTerminal a' = true) {spec : EndpointSpec}
    (hspec : h.terminalSpec? a' = some spec) {role : Direction}
    (hrole : ∀ e, a'.endpoint? = some e → h.direction? e = some role) :
    Loading.terminal? h role spec = some a' := by
  cases a' with
  | pin i =>
    obtain ⟨q, hq, rfl⟩ := Option.map_eq_some_iff.1 hspec
    have hd := hrole _ rfl
    simp only [direction?, hq, Option.map_some, Option.some.injEq] at hd
    rw [← hd, Loading.terminal?, findPin?_eq_some w hq]
    rfl
  | proxy i =>
    obtain ⟨q, hq, rfl⟩ := Option.map_eq_some_iff.1 hspec
    rw [Loading.terminal?, findGate?_eq_some w hq]
    rfl
  | pad i =>
    obtain ⟨q, hq, rfl⟩ := Option.map_eq_some_iff.1 hspec
    rw [Loading.terminal?, findGate?_eq_some w hq]
    rfl
  | bus i =>
    cases hspec
    exact if_pos ha

/-! ## Matching routes -/

/-- Two routes that send between twins, with the same bends. -/
structure Matches (g h : Graph) (s s' : Id) : Prop where
  ends : ∃ x y x' y', g.Sends s x y ∧ h.Sends s' x' y' ∧
    Twin g h (g.terminalOf x) (h.terminalOf x') ∧ Twin g h (g.terminalOf y) (h.terminalOf y')
  wire : (h.route? s').map (·.wire) = (g.route? s).map (·.wire)

/-- What a route joins, the route that it matches joins too. -/
theorem Matches.joins (m : Matches g h s s') (w : g.WellFormed) (ta : Twin g h a a')
    (tb : Twin g h b b') (hj : h.Joins s' a' b') : g.Joins s a b := by
  obtain ⟨x, y, x', y', hs, hs', tx, ty⟩ := m.ends
  rw [hs.joins_iff]
  rcases hs'.joins_iff.1 hj with ⟨rfl, rfl⟩ | ⟨rfl, rfl⟩
  · exact Or.inl ⟨tx.symm.unique w ta.symm, ty.symm.unique w tb.symm⟩
  · exact Or.inr ⟨ty.symm.unique w ta.symm, tx.symm.unique w tb.symm⟩

theorem connectionSpec?_of_sends (w : g.WellFormed) (hs : g.Sends s x y) : g.connectionSpec? s =
    (g.terminalScope? (g.terminalOf x)).bind fun scope => if g.insideLink scope then none else
      (g.terminalSpec? (g.terminalOf x)).bind fun sender =>
        (g.terminalSpec? (g.terminalOf y)).map fun receiver => ⟨sender, receiver⟩ := by
  obtain ⟨hx, hy⟩ := hs.contains w
  unfold connectionSpec?
  rw [hs.sender]
  simp only [Option.bind_eq_bind, Option.bind_some, hs.across, scope?_eq hx, endpointSpec?_eq hx,
    endpointSpec?_eq hy]
  refine congrArg (Option.bind _) (funext fun scope => ?_)
  split
  · rfl
  · simp only [Option.map_eq_bind]
    rfl

/-- Routes that match are stored in the same form. -/
theorem Matches.connectionSpec?_eq (m : Matches g h s s') (l : Looks g h) (w : g.WellFormed)
    (w' : h.WellFormed) (ho : g.Own) : h.connectionSpec? s' = g.connectionSpec? s := by
  obtain ⟨x, y, x', y', hs, hs', tx, ty⟩ := m.ends
  rw [connectionSpec?_of_sends w hs, connectionSpec?_of_sends w' hs', tx.terminalSpec?,
    ty.terminalSpec?, tx.terminalScope? l w w' ho]
  refine congrArg (Option.bind _) (funext fun scope => ?_)
  rw [l.insideLink_eq w.tree w'.tree]

/-- A twin of an end of a route faces the same way. -/
theorem Twin.direction?_eq (t : Twin g h (g.terminalOf x) a') (he : a'.endpoint? = some x') :
    h.direction? x' = g.direction? x := by
  obtain ⟨e, hx, hd, -⟩ := t.symm.endpoint he
  rw [← hd, eq_of_endpoint?_terminalOf hx]

/-- A route that joins the twins of a sender and a receiver sends from the one to the other. -/
theorem Sends.of_twins (hs : g.Sends s x y) (ta : Twin g h (g.terminalOf x) a')
    (tb : Twin g h (g.terminalOf y) b') (hbus : ¬ (a'.endpoint? = none ∧ b'.endpoint? = none))
    (hs' : h.Sends s' x' y') (hj : h.Joins s' a' b') :
    h.terminalOf x' = a' ∧ h.terminalOf y' = b' := by
  rcases hs'.joins_iff.1 hj with hends | ⟨rfl, rfl⟩
  · exact hends
  -- sent the other way round, the ends that are no tacks would face the wrong way
  exfalso
  have hne : (some Direction.output : Option Direction) ≠ some .input := nofun
  cases ha : (h.terminalOf y').endpoint? with
  | some e =>
    have hd := ta.direction?_eq ha
    rw [eq_of_endpoint?_terminalOf ha, hs.output, hs'.input] at hd
    exact hne hd.symm
  | none =>
    cases hb : (h.terminalOf x').endpoint? with
    | some e =>
      have hd := tb.direction?_eq hb
      rw [eq_of_endpoint?_terminalOf hb, hs.input, hs'.output] at hd
      exact hne hd
    | none => exact hbus ⟨ha, hb⟩

/-! ## One more route that matches -/

/-- The bends of the new route make no difference. -/
theorem OneMore.bent {small big : Graph} {r : Route} (hone : OneMore small big s r)
    (wire : List Point) : OneMore small (big.modifyRoute s fun r => { r with wire := wire }) s
      { r with wire := wire } where
  rerouted := ⟨hone.rerouted.root, hone.rerouted.nodes, hone.rerouted.pins, hone.rerouted.gates⟩
  absent := hone.absent
  present := by
    show (big.routes.modify s _).get? s = _
    have hr : big.routes.get? s = some r := hone.present
    rw [IdMap.get?_modify, if_pos rfl, hr]
    rfl
  others i hi := by
    show (big.routes.modify s _).get? i = _
    rw [IdMap.get?_modify, if_neg hi]
    exact hone.others i hi
  tacks := hone.tacks
  tack_absent := hone.tack_absent
  buses := hone.buses

section OneMore

variable {r : Route}

theorem Sends.one_more (hs : h.Sends s x y) (w : h.WellFormed) (hone : OneMore h h' s' r) :
    h'.Sends s x y := by
  obtain ⟨hx, hy⟩ := hs.contains w
  obtain ⟨r₀, hr₀, -⟩ := hs.route
  have hne : s ≠ s' := by
    rintro rfl
    rw [hone.absent] at hr₀
    cases hr₀
  refine ⟨?_, (hone.direction?_eq hx).trans hs.output, (hone.direction?_eq hy).trans hs.input⟩
  have ha := hs.across
  unfold across? at ha ⊢
  rwa [hone.others s hne]

theorem Matches.one_more {s₀ : Id} (m : Matches g h s s₀) (w : h.WellFormed)
    (hone : OneMore h h' s' r) : Matches g h' s s₀ := by
  obtain ⟨x, y, x', y', hs, hs', tx, ty⟩ := m.ends
  obtain ⟨hx, hy⟩ := hs'.contains w
  refine ⟨⟨x, y, x', y', hs, hs'.one_more w hone, ?_, ?_⟩, ?_⟩
  · rw [hone.terminalOf_eq hx]
    exact tx.rerouted hone.rerouted hone.contains_bus
  · rw [hone.terminalOf_eq hy]
    exact ty.rerouted hone.rerouted hone.contains_bus
  · obtain ⟨r₀, hr₀, -⟩ := hs'.route
    have hne : s₀ ≠ s' := by
      rintro rfl
      rw [hone.absent] at hr₀
      cases hr₀
    rw [hone.others s₀ hne]
    exact m.wire

/-- A new route has an id that is past all others, and comes last. -/
theorem OneMore.ids (hone : OneMore h h' s' r) (w : h.IdsApart) (hs : s' = h.fresh.1) :
    h'.routes.ids = h.routes.ids ++ [s'] := by
  have hlt : ∀ i ∈ h.routes.ids, i < s' := fun i hi => by
    rw [hs]
    exact Nat.lt_of_lt_of_le (w.below (k := .route) (IdMap.mem_ids_iff.1 hi)) (Nat.le_max_left _ _)
  have hsorted : ∀ m : IdMap Route, m.ids.Pairwise (· < ·) := fun m => List.pairwise_map.2 m.sorted
  have happend : (h.routes.ids ++ [s']).Pairwise (· < ·) :=
    List.pairwise_append.2 ⟨hsorted _, List.pairwise_singleton _ _, fun i hi j hj => by
      rw [List.mem_singleton.1 hj]
      exact hlt i hi⟩
  refine (hsorted _).eq_of_mem_iff happend fun i => ?_
  rw [List.mem_append, List.mem_singleton, IdMap.mem_ids_iff, IdMap.mem_ids_iff]
  by_cases hi : i = s'
  · subst hi
    exact iff_of_true (IdMap.contains_of_get? hone.present) (Or.inr rfl)
  · have : h'.routes.contains i = h.routes.contains i := congrArg Option.isSome (hone.others i hi)
    rw [this]
    exact ⟨Or.inl, fun h => h.resolve_right hi⟩

end OneMore

/-! ## What is stored of the routes -/

/-- Whether a route is stored. -/
def isSaved (g : Graph) (route : Id) : Bool := (g.connectionSpec? route).isSome

/-- The stored forms of some routes, each with its bends. -/
def connectionsOf (g : Graph) (entries : List (Id × Route)) : List (ConnectionSpec × List Point) :=
  entries.filterMap fun (id, r) => (g.connectionSpec? id).map fun spec => (spec, r.wire)

/-- The stored form of a route with its bends. -/
def connection? (g : Graph) (route : Id) : Option (ConnectionSpec × List Point) :=
  (g.connectionSpec? route).bind fun spec => ((g.route? route).map (·.wire)).map (spec, ·)

theorem Matches.connection?_eq (m : Matches g h s s') (l : Looks g h) (w : g.WellFormed)
    (w' : h.WellFormed) (ho : g.Own) : h.connection? s' = g.connection? s := by
  unfold connection?
  rw [m.connectionSpec?_eq l w w' ho, m.wire]

theorem ownConnections_eq_filterMap (g : Graph) :
    g.ownConnections = g.routes.ids.filterMap g.connection? := by
  unfold ownConnections IdMap.ids
  rw [List.filterMap_map]
  refine List.filterMap_congr fun e he => ?_
  have hr : g.route? e.1 = some e.2 := IdMap.get?_eq_some_iff.2 he
  simp only [Function.comp_apply, connection?, hr, Option.map_eq_bind]
  rfl

end MessageGraph.Graph

namespace MessageGraph

open MessageGraph.Graph (Looks Matches Twin)

/-- A graph that looks as it was saved, wired again as far as the routes `ss` go. -/
structure Rewired (saved : Graph) (ss : List Id) (h : Graph) : Prop where
  wellFormed : h.WellFormed
  wired : h.Wired
  looks : Looks saved h
  matched : List.Forall₂ (Matches saved h) ss h.routes.ids

variable {saved h : Graph} {ss : List Id} {s : Id} {a b : Terminal}

theorem exists_of_mem_right {α β : Type} {R : α → β → Prop} {as : List α} {bs : List β}
    (h : List.Forall₂ R as bs) {b : β} (hb : b ∈ bs) : ∃ a ∈ as, R a b := by
  induction h with
  | nil => cases hb
  | cons hab _ ih =>
    rcases List.mem_cons.1 hb with rfl | hb
    · exact ⟨_, List.mem_cons_self, hab⟩
    · obtain ⟨a, ha, h⟩ := ih hb
      exact ⟨a, List.mem_cons_of_mem _ ha, h⟩

/-- A route that matches none so far has no route in its place yet. -/
theorem Rewired.existingRoute?_eq_none (hr : Rewired saved ss h) (w : saved.WellFormed)
    (hw : saved.Wired) {x y : Endpoint} (hs : saved.Sends s x y) (hnew : s ∉ ss)
    (ta : Twin saved h (saved.terminalOf x) a) (tb : Twin saved h (saved.terminalOf y) b)
    (hbus : ¬ (a.endpoint? = none ∧ b.endpoint? = none)) : h.existingRoute? a b = none := by
  refine (Graph.existingRoute?_eq_none_iff hr.wellFormed hbus).2 fun s' hj => ?_
  have hmem : s' ∈ h.routes.ids := by
    obtain ⟨r, hr, -⟩ := hj
    exact IdMap.mem_ids_iff.2 (IdMap.contains_of_get? hr)
  obtain ⟨s₀, hs₀, m⟩ := exists_of_mem_right hr.matched hmem
  have hsame : saved.Joins s (saved.terminalOf x) (saved.terminalOf y) :=
    hs.joins_iff.2 (Or.inl ⟨rfl, rfl⟩)
  exact hnew (hw.single hsame (m.joins w ta tb hj) ▸ hs₀)

/-- Attaching the twins of the two ends of a route, and bending the new route as it was, makes a route
that matches. -/
theorem Rewired.attach (hr : Rewired saved ss h) {r : Route} (hroute : saved.route? s = some r)
    {x y : Endpoint} (hs : saved.Sends s x y) (ta : Twin saved h (saved.terminalOf x) a)
    (tb : Twin saved h (saved.terminalOf y) b) (hm : h.MayJoin a b)
    (hnone : h.existingRoute? a b = none) {s' : Id} {h₁ h₂ : Graph}
    (ha : h.attach a b = .ok (s', h₁)) (hset : h₁.setRouteWire s' r.wire = .ok h₂) :
    Rewired saved (ss ++ [s]) h₂ ∧ ∀ n, h₂.sheet n = h.sheet n := by
  obtain ⟨r₁, hone₁⟩ := Graph.attach_oneMore hr.wellFormed.ids ha
  obtain ⟨r₁', hr₁, hra, hrb⟩ := Graph.attach_joins ha
  cases hone₁.present.symm.trans hr₁
  have hfresh := (Graph.attach_eq ha).1
  have w₁ := hr.wellFormed.attach ha (Graph.joinable_of_check (Graph.check_eq_ok_iff.2 hm))
  have hw₁ := hr.wired.attach hr.wellFormed hm hnone ha
  have halike := Graph.setRouteWire_alike hset
  have w₂ := w₁.of_alike halike
  have hw₂ := hw₁.of_part w₂ (.of_alike halike)
  rw [Graph.setRouteWire_eq (IdMap.contains_of_get? hone₁.present)] at hset
  cases hset
  have hone := hone₁.bent r.wire
  obtain ⟨x', y', hs'⟩ := hw₂.exists_sends w₂ hone.present
  have hbuses := hone.contains_bus
  have ha₂ := ta.rerouted hone.rerouted hbuses
  have hb₂ := tb.rerouted hone.rerouted hbuses
  obtain ⟨rfl, rfl⟩ := hs.of_twins ha₂ hb₂ hm.endpoint hs' ⟨_, hone.present, Or.inl ⟨hra, hrb⟩⟩
  refine ⟨⟨w₂, hw₂, hr.looks.rerouted hone.rerouted hone.buses, ?_⟩,
    Graph.sheet_rerouted hone.rerouted hone.buses⟩
  rw [hone.ids hr.wellFormed.ids hfresh]
  refine List.rel_append (hr.matched.imp fun _ _ m => m.one_more hr.wellFormed hone)
    (List.Forall₂.cons ⟨⟨x, y, x', y', hs, hs', ha₂, hb₂⟩, ?_⟩ .nil)
  rw [hone.present, hroute]
  rfl

namespace Loading

variable {l : Loading} {c : ConnectionSpec}

/-- A saved connection is made again: it is found, is legal and is not there yet. -/
theorem addConnection_rewired (w : saved.WellFormed) (hw : saved.Wired) (ho : saved.Own)
    (hr : Rewired saved ss l.graph) {r : Route} (hroute : saved.route? s = some r)
    (hspec : saved.connectionSpec? s = some c) (hnew : s ∉ ss) (index : Nat) :
    Rewired saved (ss ++ [s]) (l.addConnection index (some r.wire) c).graph ∧
      (∀ n, (l.addConnection index (some r.wire) c).graph.sheet n = l.graph.sheet n) ∧
      (l.addConnection index (some r.wire) c).diagnostics = l.diagnostics := by
  obtain ⟨x, y, hs⟩ := hw.exists_sends w hroute
  obtain ⟨hx, hy⟩ := hs.contains w
  obtain ⟨a, ta⟩ := Twin.exists_of_looks hr.looks w hr.wellFormed ho
    (Graph.hasTerminal_terminalOf w hx)
  obtain ⟨b, tb⟩ := Twin.exists_of_looks hr.looks w hr.wellFormed ho
    (Graph.hasTerminal_terminalOf w hy)
  have hm : l.graph.MayJoin a b := ta.mayJoin w tb (hs.mayJoin hw)
  have hnone := hr.existingRoute?_eq_none w hw hs hnew ta tb hm.endpoint
  obtain ⟨s', h₁, ha⟩ := Graph.exists_attach hm.left hm.right hm.endpoint
  obtain ⟨r₁, hone⟩ := Graph.attach_oneMore hr.wellFormed.ids ha
  have hset := Graph.setRouteWire_eq (IdMap.contains_of_get? hone.present) r.wire
  -- the terminals are found by what is stored of them
  rw [Graph.connectionSpec?_of_sends w hs] at hspec
  obtain ⟨scope, -, hspec⟩ := Option.bind_eq_some_iff.1 hspec
  split at hspec
  · cases hspec
  obtain ⟨sender, hsender, hspec⟩ := Option.bind_eq_some_iff.1 hspec
  obtain ⟨receiver, hreceiver, rfl⟩ := Option.map_eq_some_iff.1 hspec
  have hfirst : terminal? l.graph .output sender = some a :=
    Graph.terminal?_eq hr.wellFormed ta.hasTerminal (ta.terminalSpec?.trans hsender)
      fun e he => (ta.direction?_eq he).trans hs.output
  have hsecond : terminal? l.graph .input receiver = some b :=
    Graph.terminal?_eq hr.wellFormed tb.hasTerminal (tb.terminalSpec?.trans hreceiver)
      fun e he => (tb.direction?_eq he).trans hs.input
  obtain ⟨hrewired, hsheets⟩ := hr.attach hroute hs ta tb hm hnone ha hset
  simp only [addConnection, hfirst, hsecond, Graph.check_eq_ok_iff.2 hm, hnone, Option.isSome_none,
    Bool.false_eq_true, ↓reduceIte, ha]
  rw [set_of_ok hset]
  exact ⟨hrewired, hsheets, rfl⟩

/-- All saved connections are made again, one after the other. -/
theorem addConnections_rewired (w : saved.WellFormed) (hw : saved.Wired) (ho : saved.Own)
    (entries : List (Id × Route)) (hroutes : ∀ e ∈ entries, saved.route? e.1 = some e.2)
    (hnodup : (ss ++ entries.map (·.1)).Nodup) (hr : Rewired saved ss l.graph) (index : Nat)
    {l' : Loading} (hl : l.addConnections index ((saved.connectionsOf entries).map (·.2))
      ((saved.connectionsOf entries).map (·.1)) = l') :
    Rewired saved (ss ++ (entries.map (·.1)).filter saved.isSaved) l'.graph ∧
      (∀ n, l'.graph.sheet n = l.graph.sheet n) ∧ l'.diagnostics = l.diagnostics := by
  induction entries generalizing l ss index with
  | nil =>
    obtain rfl : l = l' := hl
    rw [List.map_nil, List.filter_nil, List.append_nil]
    exact ⟨hr, fun _ => rfl, rfl⟩
  | cons e es ih =>
    obtain ⟨s, r⟩ := e
    have hroute : saved.route? s = some r := hroutes _ List.mem_cons_self
    have hrest : ∀ e ∈ es, saved.route? e.1 = some e.2 := fun e he =>
      hroutes e (List.mem_cons_of_mem _ he)
    have hnodup : (ss ++ s :: es.map (·.1)).Nodup := hnodup
    rw [List.map_cons]
    cases hspec : saved.connectionSpec? s with
    | none =>
      -- what is not saved is not made again
      have hsaved : ¬ saved.isSaved s = true := by
        simp only [Graph.isSaved, hspec, Option.isSome_none, Bool.false_eq_true, not_false_eq_true]
      have hconn : saved.connectionsOf ((s, r) :: es) = saved.connectionsOf es := by
        simp only [Graph.connectionsOf, List.filterMap_cons, hspec, Option.map_none]
      rw [hconn] at hl
      rw [List.filter_cons_of_neg hsaved]
      refine ih hrest (hnodup.sublist ?_) hr index hl
      exact (List.sublist_cons_self _ _).append_left _
    | some c =>
      have hsaved : saved.isSaved s = true := by simp only [Graph.isSaved, hspec, Option.isSome_some]
      have hconn : saved.connectionsOf ((s, r) :: es) = (c, r.wire) :: saved.connectionsOf es := by
        simp only [Graph.connectionsOf, List.filterMap_cons, hspec, Option.map_some]
      rw [hconn] at hl
      have hnew : s ∉ ss := fun h => (List.nodup_append.1 hnodup).2.2 s h s List.mem_cons_self rfl
      obtain ⟨hr₁, hsheets₁, hquiet₁⟩ := addConnection_rewired w hw ho hr hroute hspec hnew index
      rw [List.append_cons] at hnodup
      obtain ⟨hr₂, hsheets₂, hquiet₂⟩ := ih hrest hnodup hr₁ (index + 1) hl
      rw [List.filter_cons_of_pos hsaved, List.append_cons]
      exact ⟨hr₂, fun n => (hsheets₂ n).trans (hsheets₁ n), hquiet₂.trans hquiet₁⟩

end Loading

/-- A graph that is wired again as it was saved stores the same connections. -/
theorem Rewired.ownConnections_eq (hr : Rewired saved (saved.routes.ids.filter saved.isSaved) h)
    (w : saved.WellFormed) (ho : saved.Own) : h.ownConnections = saved.ownConnections := by
  have hmatched : ∀ {ss ss'}, List.Forall₂ (Matches saved h) ss ss' →
      ss'.filterMap h.connection? = ss.filterMap saved.connection? := fun hm => by
    induction hm with
    | nil => rfl
    | cons m _ ih =>
      simp only [List.filterMap_cons, m.connection?_eq hr.looks w hr.wellFormed ho, ih]
  rw [Graph.ownConnections_eq_filterMap, Graph.ownConnections_eq_filterMap, hmatched hr.matched,
    List.filterMap_filter]
  refine List.filterMap_congr fun s _ => ?_
  split
  · rfl
  · rename_i hs
    rw [Graph.isSaved, Bool.not_eq_true, Option.isSome_eq_false_iff, Option.isNone_iff_eq_none] at hs
    rw [Graph.connection?, hs]
    rfl

end MessageGraph
