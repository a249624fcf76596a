import MessageGraph.Proofs.Blueprint.Expansion
import MessageGraph.Proofs.Blueprint.Operation

/-!
# Properties that most steps leave alone

A property that edits, routes and removals leave alone is `Steady`; of such a property only expansions have to
be looked at (`Steady.step`).
-/
namespace MessageGraph.Graph

variable {g g' : Graph} {P : Graph → Prop}

/-- A property that edits keep, that routes make no difference to and that the removal of nodes keeps. -/
structure Steady (P : Graph → Prop) : Prop where
  edited : ∀ {g g' e}, g.WellFormed → P g → Edit.apply g e = .ok g' → P g'
  rerouted : ∀ {g g'}, g.WellFormed → g'.WellFormed → P g → Rerouted g g' →
    (∀ i, (g'.bus? i).map Bus.untacked = (g.bus? i).map Bus.untacked) → P g'
  cutOff : ∀ {g gone node parent}, g.WellFormed → (g.cutOff gone node parent).WellFormed → P g →
    P (g.cutOff gone node parent)

theorem Steady.step {op : Operation} (hs : Steady P) (w : g.WellFormed) (hp : P g)
    (hop : ∀ group linked, op = .expandLink group linked → linked.graph.WellFormed)
    (hexpand : ∀ {group linked nodes done c c'}, op = .expandLink group linked →
      Copying.Expanded linked.graph g group nodes done c c' g' → P g')
    (h : g.Step op g') : P g' := by
  have w' := h.wellFormed w hop
  cases h with
  | edit h => exact hs.edited w hp h
  | joined => exact hp
  | join _ _ h =>
    obtain ⟨r, hone⟩ := attach_oneMore w.ids h
    exact hs.rerouted w w' hp hone.rerouted hone.buses
  | part route =>
    have hc := w.detachAll_cleared [route]
    exact hs.rerouted w w' hp hc.rerouted hc.buses
  | @remove node _ h =>
    have hc := w.detachAll_cleared (g.routesWithin node)
    have wd := w.detachAll (g.routesWithin node)
    obtain ⟨-, parent, -, rfl⟩ := removeSubtree_eq wd.tree h
    exact hs.cutOff wd w' (hs.rerouted w wd hp hc.rerouted hc.buses)
  | @expand group linked h₁ _ hcopy hstate =>
    obtain ⟨t, ht, -⟩ := bind_eq_ok.1 hcopy
    obtain ⟨nodes, done, c, c', h₂, g₂, hcopy₂, hstate₂, y⟩ :=
      Copying.exists_expansion w (hop group linked rfl) (requireGroup_eq_ok.1 ht)
    cases hcopy.symm.trans hcopy₂
    cases hstate.symm.trans hstate₂
    exact hexpand rfl y
  | @spoil group reason _ h => exact hs.edited (e := .setLinkState group (.broken reason)) w hp h

end MessageGraph.Graph
