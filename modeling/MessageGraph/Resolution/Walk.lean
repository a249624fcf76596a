import MessageGraph.Graph.Route

/-!
# Walking a graph

A walk goes from endpoint to endpoint, depth first, and visits none twice. What it meets is given by
the steps from each endpoint: further endpoints to visit, and results to yield. A walk ends on any
wiring, cyclic or not, since a graph has finitely many endpoints.
-/
namespace MessageGraph

/-- What lies ahead of a walk. -/
inductive Step (α : Type)
  | visit (e : Endpoint)
  | yield (result : α)
deriving Repr

namespace Graph

/-- Every endpoint of a graph. -/
def endpoints (g : Graph) : List Endpoint :=
  g.pins.ids.map Endpoint.pin ++ g.gates.ids.map Endpoint.proxy ++ g.gates.ids.map Endpoint.pad ++
    g.tacks.ids.map Endpoint.tack

/-- The endpoints that a walk has not visited. -/
def unvisited (g : Graph) (visited : List Endpoint) : List Endpoint :=
  g.endpoints.filter (· ∉ visited)

theorem mem_ids {α : Type} {m : IdMap α} {id : Nat} (h : m.contains id = true) : id ∈ m.ids := by
  obtain ⟨v, hv⟩ := Option.isSome_iff_exists.1 h
  exact List.mem_map.2 ⟨(id, v), IdMap.get?_eq_some_iff.1 hv, rfl⟩

theorem mem_endpoints {g : Graph} {e : Endpoint} (h : g.contains e = true) : e ∈ g.endpoints := by
  cases e <;> simp [endpoints, mem_ids h]

theorem length_filter_lt {α : Type} {p q : α → Bool} {l : List α} (hpq : ∀ x, p x = true → q x = true)
    {a : α} (ha : a ∈ l) (hp : p a = false) (hq : q a = true) :
    (l.filter p).length < (l.filter q).length := by
  induction l with
  | nil => cases ha
  | cons b l ih =>
    have hle : (l.filter p).length ≤ (l.filter q).length := by
      rw [← List.countP_eq_length_filter, ← List.countP_eq_length_filter]
      exact List.countP_mono_left fun x _ => hpq x
    rcases List.mem_cons.1 ha with h | h
    · subst h
      simp only [List.filter_cons, hp, hq, Bool.false_eq_true, ↓reduceIte, List.length_cons]
      omega
    · have := ih h
      by_cases hb : p b = true
      · simp only [List.filter_cons, hb, hpq b hb, ↓reduceIte, List.length_cons]
        omega
      · by_cases hqb : q b = true
        · simp only [List.filter_cons, hb, hqb, Bool.false_eq_true, ↓reduceIte, List.length_cons]
          omega
        · simp only [List.filter_cons, hb, hqb, Bool.false_eq_true, ↓reduceIte]
          omega

theorem unvisited_lt {g : Graph} {visited : List Endpoint} {e : Endpoint}
    (hv : ¬ visited.contains e = true) (he : g.contains e = true) :
    (g.unvisited (e :: visited)).length < (g.unvisited visited).length := by
  refine length_filter_lt (fun x hx => ?_) (mem_endpoints he) ?_ ?_
  · simp only [List.mem_cons, not_or, decide_eq_true_eq] at hx ⊢
    exact hx.2
  · simp
  · simpa using hv

/-- The results ahead, given the steps from each endpoint, the steps to take first and the endpoints
visited before. -/
def walk {α : Type} (g : Graph) (next : Endpoint → List (Step α)) :
    List (Step α) → List Endpoint → List α
  | [], _ => []
  | .yield result :: steps, visited => result :: walk g next steps visited
  | .visit e :: steps, visited =>
    if visited.contains e then walk g next steps visited
    else if g.contains e then walk g next (next e ++ steps) (e :: visited)
    else walk g next steps visited
termination_by steps visited => ((g.unvisited visited).length, steps.length)
decreasing_by
  · exact Prod.Lex.right _ (Nat.lt_succ_self _)
  · exact Prod.Lex.right _ (Nat.lt_succ_self _)
  · rename_i hv he
    exact Prod.Lex.left _ _ (unvisited_lt hv he)
  · exact Prod.Lex.right _ (Nat.lt_succ_self _)

end Graph
end MessageGraph
