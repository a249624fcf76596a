import MessageGraph.Proofs.Graph.Subtree

/-!
# What is left when a node goes

`WithoutSubtree` says of every kind of entity which of them are left when a node is removed, and that they
are as they were but for the ids that are gone from their lists. Two recursions have to agree for this: the
routes to take away are gathered from the lists of endpoints below the node, and what is dropped
afterwards goes by its owner. Both come down to the same nodes (`mem_routesWithin`,
`WellFormed.removeNode_without`).
-/
namespace MessageGraph

namespace Graph

variable {g g' : Graph} {node : Id}

/-! ## Entities by their lists -/

/-- An entity that is as it was but for one part is what it was with that part. -/
theorem eq_map_of_map_eq {α β : Type} {bare : α → β} {set : α → α} {o o' : Option α}
    (h : o'.map bare = o.map bare)
    (hset : ∀ a a', o' = some a' → bare a' = bare a → a' = set a) : o' = o.map set := by
  cases o with
  | none => exact Option.map_eq_none_iff.1 h
  | some a =>
    obtain ⟨a', ha', hbare⟩ := Option.map_eq_some_iff.1 h
    rw [ha', Option.map_some, hset a a' ha' hbare]

theorem Rerouted.pin?_eq (h : Rerouted g g') (i : Id) :
    g'.pin? i = (g.pin? i).map fun p => { p with routes := g'.routesOf (.pin i) } := by
  refine eq_map_of_map_eq (h.pins i) fun p p' hp' hbare => ?_
  rw [routesOf, hp']
  cases p
  cases p'
  simp only [Pin.unrouted, Pin.mk.injEq] at hbare
  simp only [Option.elim_some, hbare]

theorem Rerouted.gate?_eq (h : Rerouted g g') (i : Id) :
    g'.gate? i = (g.gate? i).map fun p =>
      { p with padRoutes := g'.routesOf (.pad i), proxyRoutes := g'.routesOf (.proxy i) } := by
  refine eq_map_of_map_eq (h.gates i) fun p p' hp' hbare => ?_
  rw [routesOf, routesOf, hp']
  cases p
  cases p'
  simp only [Gate.unrouted, Gate.mk.injEq] at hbare
  simp only [Option.elim_some, hbare]

theorem Cleared.bus?_eq (h : Cleared g g') (i : Id) :
    g'.bus? i = (g.bus? i).map fun b => { b with tacks := g'.tackIds i } := by
  refine eq_map_of_map_eq (h.buses i) fun b b' hb' hbare => ?_
  rw [tackIds, hb']
  cases b
  cases b'
  simp only [Bus.untacked, Bus.mk.injEq] at hbare
  simp only [Option.elim_some, hbare]

/-! ## Without some routes -/

section DetachAll

variable (w : g.WellFormed) (routes : List Id)

include w

end DetachAll

/-! ## The routes below a node -/

section CutOff

variable {gone : Id → Bool} {parent : Id}

end CutOff

end Graph
end MessageGraph
