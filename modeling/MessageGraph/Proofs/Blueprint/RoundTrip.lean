import MessageGraph.Proofs.Blueprint.Operation
import MessageGraph.Proofs.Blueprint.Rejoined
import MessageGraph.Proofs.Program.Mirrored

/-!
# Saving and loading a program

A model without links that is saved and loaded again compiles to the same program, up to one kind of route:
the pad of a gate of the top-level group stands in no group, so a route that it sends along is drawn
nowhere and is not saved (`isSaved_eq`).

* What is loaded compiles to what the model compiles to without these routes (`reload_compile`), and so to
  the same wherever there are none.
* With one of them the programs can differ (`reload_compile_differs`).
-/
namespace MessageGraph

namespace Graph

variable {g g' h : Graph} {s : Id} {x y : Endpoint}

/-! ## Routes that are not saved -/

/-- The pad of a gate of the top-level group. -/
def isTopPad (g : Graph) : Endpoint → Bool
  | .pad gate => (g.gate? gate).elim false fun p => p.group = g.root
  | _ => false

/-- The routes that such pads send along. -/
def topRoutes (g : Graph) : List Id :=
  g.routes.ids.filter fun route => (g.sender? route).elim false g.isTopPad

theorem parent?_of_ne_root (w : g.WellFormed) {n : Id} (hn : g.nodes.contains n = true)
    (hne : n ≠ g.root) : (g.parent? n).isSome = true := by
  rcases Relation.ReflTransGen.cases_head (w.tree.rooted hn) with rfl | ⟨p, hp, -⟩
  · exact absurd rfl hne
  · rw [hp]
    rfl

theorem Unlinked.insideLink (hu : g.Unlinked) (n : Id) : g.insideLink n = false := by
  unfold Graph.insideLink
  rw [List.any_eq_false]
  intro i _
  cases hs : g.group? i with
  | none => simp only [Bool.false_eq_true, not_false_eq_true]
  | some s =>
    obtain ⟨m, hm, hk⟩ := Option.bind_eq_some_iff.1 hs
    have hnone := hu i m hm
    rw [hk, Option.bind_some] at hnone
    simp only [hnone, Option.isSome_none, Bool.false_eq_true, not_false_eq_true]

theorem terminalSpec?_isSome {a : Terminal} (ha : g.hasTerminal a = true) :
    (g.terminalSpec? a).isSome = true := by
  cases a with
  | bus i => rfl
  | _ =>
    simp only [terminalSpec?, Option.isSome_map]
    exact ha

/-- Every endpoint but the pad of a top-level gate stands in a group. -/
theorem isSome_scope? (w : g.WellFormed) (hx : g.contains x = true) :
    (g.scope? x).isSome = !g.isTopPad x := by
  cases x with
  | pin i =>
    obtain ⟨p, hp⟩ := IdMap.contains_iff.1 hx
    have hp : g.pin? i = some p := hp
    have hmem : i ∈ g.pinIds p.node := w.pins.mem_iff.2 (by rw [pinOwner?, hp]; rfl)
    -- a source is not the top-level group
    obtain ⟨t, ht⟩ := w.tree.root_group
    have hsource : ∃ q, g.source? p.node = some q := by
      cases hq : g.source? p.node with
      | none => rw [pinIds, hq] at hmem; cases hmem
      | some q => exact ⟨q, rfl⟩
    obtain ⟨q, hq⟩ := hsource
    have hne : p.node ≠ g.root := by
      intro he
      rw [he] at hq
      rw [group?_of_source? hq] at ht
      cases ht
    simp only [scope?, hp, Option.bind_some, isTopPad, Bool.not_false]
    exact parent?_of_ne_root w (contains_of_source? hq) hne
  | proxy i =>
    obtain ⟨p, hp⟩ := IdMap.contains_iff.1 hx
    have hp : g.gate? i = some p := hp
    simp only [scope?, hp, Option.map_some, Option.isSome_some, isTopPad, Bool.not_false]
  | pad i =>
    obtain ⟨p, hp⟩ := IdMap.contains_iff.1 hx
    have hp : g.gate? i = some p := hp
    simp only [scope?, hp, Option.bind_some, isTopPad, Option.elim_some]
    by_cases hroot : p.group = g.root
    · rw [hroot, w.tree.root_top, decide_eq_true rfl]
      rfl
    · have hmem : i ∈ g.gateIds p.group := w.gates.mem_iff.2 (by rw [gateOwner?, hp]; rfl)
      obtain ⟨t, ht, -⟩ := group?_of_mem_elim hmem
      rw [parent?_of_ne_root w (contains_of_group? ht) hroot, decide_eq_false hroot]
      rfl
  | tack t =>
    obtain ⟨k, hk⟩ := IdMap.contains_iff.1 hx
    have hk : g.tack? t = some k := hk
    obtain ⟨b, hb⟩ := w.bus_of_tack hk
    simp only [scope?, hk, Option.bind_some, hb, Option.map_some, Option.isSome_some, isTopPad,
      Bool.not_false]

/-- Without links every route is saved whose sender stands in a group. -/
theorem isSaved_eq (w : g.WellFormed) (hu : g.Unlinked) (hs : g.Sends s x y) :
    g.isSaved s = !g.isTopPad x := by
  obtain ⟨hx, hy⟩ := hs.contains w
  rw [← isSome_scope? w hx, scope?_eq hx, isSaved, connectionSpec?_of_sends w hs]
  cases g.terminalScope? (g.terminalOf x) with
  | none => rfl
  | some scope =>
    obtain ⟨a, ha⟩ := Option.isSome_iff_exists.1
      (terminalSpec?_isSome (hasTerminal_terminalOf w hx))
    obtain ⟨b, hb⟩ := Option.isSome_iff_exists.1
      (terminalSpec?_isSome (hasTerminal_terminalOf w hy))
    simp only [Option.bind_some, hu.insideLink, Bool.false_eq_true, ↓reduceIte, ha, hb,
      Option.map_some, Option.isSome_some]

theorem filter_isSaved (w : g.WellFormed) (hw : g.Wired) (hu : g.Unlinked) :
    g.routes.ids.filter g.isSaved = g.routes.ids.filter fun s => decide (s ∉ g.topRoutes) := by
  refine List.filter_congr fun s hs => ?_
  obtain ⟨r, hr⟩ := IdMap.contains_iff.1 (IdMap.mem_ids_iff.1 hs)
  obtain ⟨x, y, hsends⟩ := hw.exists_sends w hr
  have hmem : s ∈ g.topRoutes ↔ g.isTopPad x = true := by
    rw [topRoutes, List.mem_filter, hsends.sender, Option.elim_some]
    exact ⟨(·.2), fun h => ⟨hs, h⟩⟩
  rw [isSaved_eq w hu hsends]
  cases hpad : g.isTopPad x <;> simp [hmem, hpad]

/-! ## The graph without these routes -/

theorem ids_detachAll (w : g.WellFormed) (routes : List Id) :
    (g.detachAll routes).routes.ids = g.routes.ids.filter fun s => decide (s ∉ routes) := by
  have hsorted : ∀ m : IdMap Route, m.ids.Pairwise (· < ·) := fun m => List.pairwise_map.2 m.sorted
  refine (hsorted _).eq_of_mem_iff ((hsorted _).filter _) fun i => ?_
  rw [List.mem_filter, IdMap.mem_ids_iff, IdMap.mem_ids_iff, decide_eq_true_eq]
  by_cases hi : i ∈ routes
  · have hgone : (g.detachAll routes).routes.contains i = false :=
      IdMap.contains_eq_false_iff.2 (w.route?_detachAll hi)
    rw [hgone]
    exact ⟨nofun, fun h => absurd hi h.2⟩
  · have hkept : (g.detachAll routes).routes.contains i = g.routes.contains i :=
      congrArg Option.isSome (w.route?_detachAll_of_not_mem hi)
    rw [hkept]
    exact ⟨fun h => ⟨h, hi⟩, (·.1)⟩

namespace Cleared

variable (hc : Cleared g g')

include hc

theorem tack?_eq {t : Id} (ht : g'.contains (.tack t) = true) : g'.tack? t = g.tack? t := by
  obtain ⟨k, hk⟩ := IdMap.contains_iff.1 ht
  have hk : g'.tack? t = some k := hk
  rw [hk, hc.tacks hk]

theorem terminalOf_eq (hx : g'.contains x = true) : g'.terminalOf x = g.terminalOf x := by
  cases x with
  | tack t => simp only [terminalOf, tackOwner?, hc.tack?_eq hx]
  | _ => rfl

theorem contains_bus (i : Id) : g'.buses.contains i = g.buses.contains i :=
  view_eq Option.isSome (hc.buses i) fun _ => rfl

/-- A route that stays sends as before. -/
theorem sends (w' : g'.WellFormed) (hs : g.Sends s x y) {r : Route} (hr : g'.route? s = some r) :
    g'.Sends s x y := by
  have hacross : g'.across? x s = some y := by
    have ha := hs.across
    unfold across? at ha ⊢
    rwa [hr, ← hc.routes hr]
  have hlive := w'.contains_of_across? hacross
  have hd : ∀ e, g'.contains e = true → g'.direction? e = g.direction? e := fun e he =>
    hc.rerouted.direction?_eq fun t ht => hc.tack?_eq (ht ▸ he)
  exact ⟨hacross, (hd x hlive.1).trans hs.output, (hd y hlive.2).trans hs.input⟩

/-- A route that stays matches as before. -/
theorem still_matches (w' : g'.WellFormed) {s' : Id} (m : Matches g h s s') {r : Route}
    (hr : g'.route? s = some r) : Matches g' h s s' := by
  obtain ⟨x, y, x', y', hs, hs', tx, ty⟩ := m.ends
  have hs₁ := hc.sends w' hs hr
  obtain ⟨hx, hy⟩ := hs₁.contains w'
  refine ⟨⟨x, y, x', y', hs₁, hs', ?_, ?_⟩, by rw [m.wire, hr, hc.routes hr]⟩
  · rw [hc.terminalOf_eq hx]
    exact (tx.symm.rerouted hc.rerouted hc.contains_bus).symm
  · rw [hc.terminalOf_eq hy]
    exact (ty.symm.rerouted hc.rerouted hc.contains_bus).symm

end Cleared

/-- What is loaded mirrors the graph without the routes that are not saved. -/
theorem mirror_of_rewired (w : g.WellFormed) (hw : g.Wired) (ho : g.Own) (hu : g.Unlinked)
    (ho' : h.Own) (hr : Rewired g g.savedRoutes h) : Mirror (g.detachAll g.topRoutes) h := by
  have hc := w.detachAll_cleared g.topRoutes
  have wd := w.detachAll g.topRoutes
  have hlooks := hr.looks.symm.rerouted hc.rerouted hc.buses
  have hids : (g.detachAll g.topRoutes).routes.ids = g.savedRoutes := by
    rw [ids_detachAll w, savedRoutes, filter_isSaved w hw hu]
  refine
    { left := wd
      right := hr.wellFormed
      wired := hw.detachAll w _
      wired' := hr.wired
      own := ho.rerouted hc.rerouted hc.buses
      own' := ho'
      looks := hlooks.symm
      matched := ?_ }
  rw [hids]
  refine (forall₂_and_mem hr.matched).imp fun s s' ⟨m, hs, _⟩ => ?_
  rw [← hids, IdMap.mem_ids_iff] at hs
  obtain ⟨r, hroute⟩ := IdMap.contains_iff.1 hs
  exact hc.still_matches wd m hroute

/-! ## Models without links -/

/-- A graph of legal connections that has no links and is all its own. -/
structure Plain (g : Graph) : Prop where
  wellFormed : g.WellFormed
  wired : g.Wired
  own : g.Own
  unlinked : g.Unlinked

namespace Plain

theorem detachAll (h : g.Plain) (routes : List Id) : (g.detachAll routes).Plain where
  wellFormed := h.wellFormed.detachAll routes
  wired := h.wired.detachAll h.wellFormed routes
  own := h.own.rerouted (h.wellFormed.detachAll_cleared routes).rerouted
    (h.wellFormed.detachAll_cleared routes).buses
  unlinked := h.unlinked.rerouted (h.wellFormed.detachAll_cleared routes).rerouted

theorem edited (h : g.Plain) {e : Edit} (he : ∀ group location, e ≠ .setLink group location)
    (ha : e.apply g = .ok g') : g'.Plain where
  wellFormed := h.wellFormed.edited (Edit.edited ha)
  wired := h.wired.edited h.wellFormed (Edit.edited ha)
  own := h.own.edited h.wellFormed.ids ha
  unlinked := h.unlinked.edited h.wellFormed.ids he ha

theorem attach (h : g.Plain) {a b : Terminal} {route : Id} (hcheck : g.check a b = .ok ())
    (hnew : g.existingRoute? a b = none) (ha : g.attach a b = .ok (route, g')) : g'.Plain := by
  obtain ⟨r, hone⟩ := attach_oneMore h.wellFormed.ids ha
  exact
    { wellFormed := h.wellFormed.attach ha (joinable_of_check hcheck)
      wired := h.wired.attach h.wellFormed (check_eq_ok_iff.1 hcheck) hnew ha
      own := h.own.rerouted hone.rerouted hone.buses
      unlinked := h.unlinked.rerouted hone.rerouted }

theorem removeNode (h : g.Plain) {node : Id}
    (hr : (g.detachAll (g.routesWithin node)).removeSubtree node = .ok g') : g'.Plain := by
  have hd := h.detachAll (g.routesWithin node)
  refine ⟨h.wellFormed.removeNode hr, h.wired.removeNode h.wellFormed hr, ?_, ?_⟩
  all_goals obtain ⟨-, parent, -, rfl⟩ := removeSubtree_eq hd.wellFormed.tree hr
  · exact hd.own.cutOff _ _ _
  · exact hd.unlinked.cutOff _ _ _

end Plain
end Graph

/-- Whether an operation makes no link and brings in no content of another model. -/
def Operation.isOwn : Operation → Bool
  | .edit (.setLink _ _) => false
  | .expandLink _ _ => false
  | _ => true

namespace Blueprint

variable {b b' : Blueprint}

theorem perform_plain {op : Operation} (hp : b.graph.Plain) (hop : op.isOwn = true) :
    (b.perform op).graph.Plain := by
  refine perform_keeps (P := Graph.Plain) hp fun {g'} h => ?_
  cases h with
  | edit h =>
    refine hp.edited (fun group location he => ?_) h
    rw [he] at hop
    cases hop
  | joined => exact hp
  | join hcheck hnew h => exact hp.attach hcheck hnew h
  | part route => exact hp.detachAll [route]
  | remove h => exact hp.removeNode h
  | expand => cases hop
  | @spoil group reason _ h =>
    exact hp.edited (e := .setLinkState group (.broken reason)) (fun _ _ => nofun) h

theorem run_plain {ops : List Operation} (hp : b.graph.Plain)
    (hops : ∀ op ∈ ops, op.isOwn = true) : (b.run ops).graph.Plain :=
  foldl_keeps (fun c : Blueprint => c.graph.Plain) (fun _ op hop hc => perform_plain hc (hops op hop)) hp

theorem new_plain (name : String) : (new name).graph.Plain :=
  ⟨Graph.withRoot_wellFormed 1 name, Graph.withRoot_wired 1 name, Graph.withRoot_own 1 name,
    Graph.withRoot_unlinked 1 name⟩

/-- What is loaded of a model without links compiles to what the model does without the routes that are
not saved. -/
theorem join_split_compile (hp : b.graph.Plain) (layout : LayoutOptions) (options : Options) :
    ∃ b', join b.split.1 (some b.split.2) layout = .ok b' ∧
      b'.graph.compile options = (b.graph.detachAll b.graph.topRoutes).compile options := by
  obtain ⟨b', hjoin, hr, -⟩ := join_split hp.wellFormed hp.wired hp.own layout
  have hm := Graph.mirror_of_rewired hp.wellFormed hp.wired hp.own hp.unlinked (join_own hjoin) hr
  exact ⟨b', hjoin, hm.compile (hp.detachAll _).unlinked options⟩

/-- A model that was made without links can be saved and loaded, and then compiles to what it compiled to
without the routes that the pad of a top-level gate sends along. Where there are none it compiles to the
same. -/
theorem reload_compile (name : String) (ops : List Operation) (hops : ∀ op ∈ ops, op.isOwn = true)
    (layout : LayoutOptions) (options : Options) :
    let b := (new name).run ops
    ∃ b', join b.split.1 (some b.split.2) layout = .ok b' ∧
      b'.graph.compile options = (b.graph.detachAll b.graph.topRoutes).compile options ∧
      (b.graph.topRoutes = [] → b'.graph.compile options = b.graph.compile options) := by
  intro b
  obtain ⟨b', hjoin, hc⟩ := join_split_compile (run_plain (new_plain name) hops) layout options
  refine ⟨b', hjoin, hc, fun hnone => ?_⟩
  rw [hc, hnone]
  rfl

theorem reload_compile_ledOn :
    (∀ op ∈ ledOn, op.isOwn = true) ∧
      ∃ b', join ((new "app").run ledOn).split.1 (some ((new "app").run ledOn).split.2) {} =
          .ok b' ∧
        b'.graph.compile {} = (((new "app").run ledOn).graph.detachAll
          ((new "app").run ledOn).graph.topRoutes).compile {} := by
  have hops : ∀ op ∈ ledOn, op.isOwn = true := by decide
  obtain ⟨b', hjoin, hc, -⟩ := reload_compile "app" ledOn hops {} {}
  exact ⟨hops, b', hjoin, hc⟩

/-- The route from the pad is not saved, and with it goes the way from the one pin to the other. -/
theorem reload_compile_differs :
    (∀ op ∈ ledOn, op.isOwn = true) ∧
      ∃ b', join ((new "app").run ledOn).split.1 (some ((new "app").run ledOn).split.2) {} =
          .ok b' ∧ b'.graph.compile {} ≠ ((new "app").run ledOn).graph.compile {} := by
  have hops : ∀ op ∈ ledOn, op.isOwn = true := by decide
  obtain ⟨b', hjoin, hc⟩ := join_split_compile (run_plain (new_plain "app") hops) {} {}
  refine ⟨hops, b', hjoin, fun heq => ?_⟩
  have hwith : ((((new "app").run ledOn).graph.compile {}).program.nodes.flatMap
      (·.outputs)).map (·.destinations) = [[⟨"go", "Y", 5⟩]] := by cbv
  have hwithout : (((((new "app").run ledOn).graph.detachAll
      ((new "app").run ledOn).graph.topRoutes).compile {}).program.nodes.flatMap
      (·.outputs)).map (·.destinations) = [[⟨"go", "app", 1⟩]] := by cbv
  rw [← heq, hc, hwithout] at hwith
  revert hwith
  decide

end Blueprint
end MessageGraph
