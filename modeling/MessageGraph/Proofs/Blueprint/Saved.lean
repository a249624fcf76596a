import MessageGraph.Proofs.Blueprint.Rejoined
import MessageGraph.Proofs.Blueprint.RoundTrip
import MessageGraph.Proofs.Graph.Lineage

/-!
# Which connections a document has

A route is stored by the group that its sender stands in: routes in or below a link are left out, and so are
those that the pad of a top-level gate sends along, which stands in no group at all.

* `connections_exact`: the document of every model has exactly the other connections, in the order of the
  routes. It makes no difference who drew a route, nor whether the nodes at its ends are written.
* `connections_miss`: so routes between nodes that are written can be missing.
-/
namespace MessageGraph

/-- The values of a partial function are those at the elements that have one. -/
theorem forall₂_filterMap {α β : Type} {f : α → Option β} {p : α → Bool}
    (h : ∀ a, (f a).isSome = p a) (l : List α) :
    List.Forall₂ (fun a b => f a = some b) (l.filter p) (l.filterMap f) := by
  induction l with
  | nil => exact .nil
  | cons a l ih =>
    cases ha : f a with
    | none =>
      have hp : p a = false := by rw [← h, ha]; rfl
      rw [List.filterMap_cons_none ha, List.filter_cons_of_neg (Bool.eq_false_iff.1 hp)]
      exact ih
    | some b =>
      have hp : p a = true := by rw [← h, ha]; rfl
      rw [List.filterMap_cons_some ha, List.filter_cons_of_pos hp]
      exact .cons ha ih

namespace Graph

variable {g g' : Graph} {s n : Id} {x y : Endpoint}

/-! ## Senders and their scopes -/

theorem ends_of_sender? (h : g.sender? s = some x) : g.Ends s x := by
  obtain ⟨r, hr, rfl⟩ := Option.map_eq_some_iff.1 h
  refine ⟨r, hr, ?_⟩
  split
  · exact Or.inl rfl
  · exact Or.inr rfl

/-- A live route has a sender and a receiver. -/
theorem exists_sender (h : g.routes.contains s = true) :
    ∃ x y, g.sender? s = some x ∧ g.across? x s = some y := by
  obtain ⟨r, hr⟩ := IdMap.contains_iff.1 h
  have hs : g.sender? s = some (if g.direction? r.a = some .output then r.a else r.b) :=
    Option.map_eq_some_iff.2 ⟨r, hr, rfl⟩
  obtain ⟨y, hy⟩ := exists_across? (ends_of_sender? hs)
  exact ⟨_, y, hs, hy⟩

theorem WellFormed.contains_scope (w : g.WellFormed) (h : g.scope? x = some n) :
    g.nodes.contains n = true := by
  cases x with
  | pin i =>
    obtain ⟨p, -, h⟩ := Option.bind_eq_some_iff.1 h
    exact w.tree.contains_parent h
  | proxy i =>
    obtain ⟨p, hp, rfl⟩ := Option.map_eq_some_iff.1 h
    have hi : i ∈ g.gateIds p.group := w.gates.mem_iff.2 (Option.map_eq_some_iff.2 ⟨p, hp, rfl⟩)
    obtain ⟨t, ht, -⟩ := group?_of_mem_elim hi
    exact contains_of_group? ht
  | pad i =>
    obtain ⟨p, -, h⟩ := Option.bind_eq_some_iff.1 h
    exact w.tree.contains_parent h
  | tack i =>
    obtain ⟨b, hb, rfl⟩ := Option.map_eq_some_iff.1 h
    obtain ⟨k, -, hb⟩ := Option.bind_eq_some_iff.1 hb
    have hi : k.bus ∈ g.busIds b.group := w.buses.mem_iff.2 (Option.map_eq_some_iff.2 ⟨b, hb, rfl⟩)
    obtain ⟨t, ht, -⟩ := group?_of_mem_elim hi
    exact contains_of_group? ht

theorem endpointSpec?_isSome (hx : g.contains x = true) : (g.endpointSpec? x).isSome = true := by
  cases x with
  | _ =>
    simp only [endpointSpec?, Option.isSome_map]
    exact hx

/-! ## Stored routes -/

/-- What the stored form of a route says. -/
theorem connectionSpec?_eq_some_iff {c : ConnectionSpec} : g.connectionSpec? s = some c ↔
    ∃ x y n, g.sender? s = some x ∧ g.across? x s = some y ∧ g.scope? x = some n ∧
      g.insideLink n = false ∧ g.endpointSpec? x = some c.sender ∧
      g.endpointSpec? y = some c.receiver := by
  obtain ⟨sender, receiver⟩ := c
  unfold connectionSpec?
  simp only [Option.bind_eq_bind, Option.bind_eq_some_iff, Option.pure_def]
  constructor
  · rintro ⟨x, hx, y, hy, n, hn, h⟩
    split at h
    · cases h
    · rename_i hinside
      obtain ⟨a, ha, b, hb, he⟩ : ∃ a, _ ∧ ∃ b, _ ∧ _ := by
        simpa only [Option.bind_eq_some_iff] using h
      cases he
      exact ⟨x, y, n, hx, hy, hn, Bool.eq_false_iff.2 hinside, ha, hb⟩
  · rintro ⟨x, y, n, hx, hy, hn, hinside, ha, hb⟩
    refine ⟨x, hx, y, hy, n, hn, ?_⟩
    rw [if_neg (Bool.eq_false_iff.1 hinside), ha, hb]
    rfl

/-- A route is stored if its sender stands in a group and no link is around it. -/
def isOutside (g : Graph) (route : Id) : Bool :=
  ((g.sender? route).bind g.scope?).elim false fun n => !g.insideLink n

theorem isSaved_eq_isOutside (w : g.WellFormed) (s : Id) : g.isSaved s = g.isOutside s := by
  refine Bool.eq_iff_iff.2 ?_
  rw [isSaved, Option.isSome_iff_exists]
  constructor
  · rintro ⟨c, hc⟩
    obtain ⟨x, y, n, hx, -, hn, hinside, -, -⟩ := connectionSpec?_eq_some_iff.1 hc
    simp only [isOutside, hx, Option.bind_some, hn, Option.elim_some, hinside, Bool.not_false]
  · intro h
    unfold isOutside at h
    cases hx : g.sender? s with
    | none => rw [hx] at h; cases h
    | some x =>
      cases hn : g.scope? x with
      | none => rw [hx, Option.bind_some, hn] at h; cases h
      | some n =>
        rw [hx, Option.bind_some, hn, Option.elim_some, Bool.not_eq_true'] at h
        obtain ⟨y, hy⟩ := exists_across? (ends_of_sender? hx)
        obtain ⟨a, ha⟩ := Option.isSome_iff_exists.1
          (endpointSpec?_isSome (w.contains_of_ends (ends_of_sender? hx)))
        obtain ⟨b, hb⟩ := Option.isSome_iff_exists.1
          (endpointSpec?_isSome (w.contains_of_ends (ends_of_across? hy).2))
        exact ⟨⟨a, b⟩, connectionSpec?_eq_some_iff.2 ⟨x, y, n, hx, hy, hn, h, ha, hb⟩⟩

/-- The group that a route is drawn in is missing only at the pads of top-level gates. -/
theorem WellFormed.isOutside_iff (w : g.WellFormed) (hx : g.sender? s = some x) :
    g.isOutside s = true ↔ g.isTopPad x = false ∧
      ∀ n m, g.scope? x = some n → g.Below n m → g.isLink m = false := by
  have hscope := isSome_scope? w (w.contains_of_ends (ends_of_sender? hx))
  simp only [isOutside, hx, Option.bind_some]
  cases hn : g.scope? x with
  | none =>
    rw [hn, Option.isSome_none] at hscope
    have htop : g.isTopPad x = true := by simpa using hscope.symm
    simp [htop]
  | some n =>
    rw [hn, Option.isSome_some] at hscope
    have htop : g.isTopPad x = false := by simpa using hscope.symm
    rw [Option.elim_some, Bool.not_eq_true', Bool.eq_false_iff, Ne,
      w.insideLink_iff (w.contains_scope hn)]
    simp only [htop, true_and, Option.some.injEq, not_exists, not_and, Bool.not_eq_true]
    constructor
    · rintro h _ m rfl hb
      exact h m hb
    · exact fun h m hb => h n m rfl hb

/-! ## What is written -/

/-- An endpoint of a node in the tree of the document, and of a bus that is written if it is a tack. -/
def isWritten (g : Graph) : Endpoint → Bool
  | .pin i => (g.pinOwner? i).elim false g.ownTree.values.contains
  | .proxy i | .pad i => (g.gateOwner? i).elim false g.ownTree.values.contains
  | .tack t => ((g.tack? t).bind fun k => g.bus? k.bus).elim false fun b =>
      !b.imported && g.ownTree.values.contains b.group

end Graph

namespace Blueprint

variable {b : Blueprint}

theorem connections_eq (b : Blueprint) :
    b.split.1.connections = b.graph.routes.ids.filterMap b.graph.connectionSpec? := by
  show b.graph.ownConnections.map (·.1) = _
  rw [Graph.ownConnections, List.map_filterMap, IdMap.ids, List.filterMap_map]
  refine List.filterMap_congr fun e _ => ?_
  rw [Option.map_map]
  exact Option.map_id'

theorem mem_connections {c : ConnectionSpec} (h : c ∈ b.split.1.connections) :
    ∃ s, b.graph.connectionSpec? s = some c := by
  rw [connections_eq] at h
  obtain ⟨s, -, hs⟩ := List.mem_filterMap.1 h
  exact ⟨s, hs⟩

/-- The stored connections are those of the routes that are outside of links and have a scope at all, one for
each and in the order of the routes. -/
theorem connections_exact (hb : b.Reachable) :
    List.Forall₂ (fun s c => ∃ x y, b.graph.sender? s = some x ∧ b.graph.across? x s = some y ∧
        b.graph.endpointSpec? x = some c.sender ∧ b.graph.endpointSpec? y = some c.receiver)
      (b.graph.routes.ids.filter b.graph.isOutside) b.split.1.connections ∧
    ∀ s, b.graph.routes.contains s = true → ∃ x, b.graph.sender? s = some x ∧
      (b.graph.isOutside s = true ↔ b.graph.isTopPad x = false ∧
        ∀ n m, b.graph.scope? x = some n → b.graph.Below n m → b.graph.isLink m = false) := by
  have w := hb.wellFormed
  refine ⟨?_, fun s hs => ?_⟩
  · rw [connections_eq]
    refine (forall₂_filterMap (fun s => Graph.isSaved_eq_isOutside w s) _).imp fun s c hc => ?_
    obtain ⟨x, y, n, hx, hy, -, -, ha, hb⟩ := Graph.connectionSpec?_eq_some_iff.1 hc
    exact ⟨x, y, hx, hy, ha, hb⟩
  · obtain ⟨x, -, hx, -⟩ := Graph.exists_sender hs
    exact ⟨x, hx, w.isOutside_iff hx⟩

/-- A model without expansions. A clock sends out of the model and, by the pad there, to a lamp; in a group
that is made a link another clock sends to another lamp. -/
def drawn : Blueprint :=
  (new "main").run
    [.edit (.addSource none 1 "clock" { identifier := "clock" }),
      .edit (.addPin 2 "tick" .output false), .edit (.addGate 1 "tick" .output false),
      .edit (.addSource none 1 "lamp" { identifier := "lamp" }), .edit (.addPin 5 "tick" .input false),
      .connect (.pin 3) (.proxy 4), .connect (.pad 4) (.pin 6),
      .edit (.addGroup none 1 "room"), .edit (.setLink 9 "room"),
      .edit (.addSource none 9 "clock" { identifier := "clock" }),
      .edit (.addPin 10 "tick" .output false),
      .edit (.addSource none 9 "lamp" { identifier := "lamp" }), .edit (.addPin 12 "tick" .input false),
      .connect (.pin 11) (.pin 13)]

theorem drawn_reachable : drawn.Reachable := .run_new "main" rfl

theorem connections_exact_drawn :
    drawn.Reachable ∧
      List.Forall₂ (fun s c => ∃ x y, drawn.graph.sender? s = some x ∧
          drawn.graph.across? x s = some y ∧ drawn.graph.endpointSpec? x = some c.sender ∧
          drawn.graph.endpointSpec? y = some c.receiver)
        (drawn.graph.routes.ids.filter drawn.graph.isOutside) drawn.split.1.connections ∧
      drawn.graph.routes.ids = [7, 8, 14] ∧ drawn.graph.routes.ids.filter drawn.graph.isOutside = [7] :=
  ⟨drawn_reachable, (connections_exact drawn_reachable).1, by decide +kernel, by decide +kernel⟩

/-- Two connections between nodes that are written are not: by the pad of a top-level gate, and inside a
link. -/
theorem connections_miss :
    drawn.Reachable ∧
      (∀ s ∈ [8, 14], (drawn.graph.route? s).any (fun r =>
        drawn.graph.isWritten r.a && drawn.graph.isWritten r.b) = true) ∧
      drawn.split.1.connections = [⟨.pin 2 "tick", .proxy 1 "tick"⟩] :=
  ⟨drawn_reachable, by decide +kernel, by decide +kernel⟩

end Blueprint
end MessageGraph
