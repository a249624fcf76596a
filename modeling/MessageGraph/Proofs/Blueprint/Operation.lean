import MessageGraph.Proofs.Blueprint.Join
import MessageGraph.Proofs.Graph.Instance
import MessageGraph.Proofs.Graph.Subtree
import MessageGraph.Proofs.Resolution.Tables
import MessageGraph.Blueprint.Basic

/-!
# What a model can come to

`Operation` is everything that changes a live model; an operation that is refused leaves it as it was.
A model is `Reachable` if operations lead to it from an empty model or from one that was loaded.

What an operation does to the graph is a `Graph.Step`, and there is nothing else it can do
(`perform?_step`). Steps keep the graph well-formed, so that of every reachable model is (`run_wellFormed`).
-/
namespace MessageGraph

/-- The operations on a model. -/
inductive Operation
  | edit (edit : Edit)
  | connect (a b : Terminal)
  | disconnect (route : Id)
  | removeNode (node : Id)
  | expandLink (group : Id) (linked : Blueprint)
  | markLinkBroken (group : Id) (reason : String)

namespace Operation

def isExpansion : Operation → Bool
  | .expandLink _ _ => true
  | _ => false

theorem expandLink_notMem {ops : List Operation} (h : ops.any isExpansion = false) (group : Id)
    (linked : Blueprint) : .expandLink group linked ∉ ops := fun hmem =>
  Bool.false_ne_true (h.symm.trans (List.any_eq_true.2 ⟨_, hmem, rfl⟩))

end Operation

namespace Blueprint

/-- What an operation makes of a model; `none` if it is refused. -/
def perform? (b : Blueprint) : Operation → Option Blueprint
  | .edit e => (e.apply b.graph).toOption.map fun g => { b with graph := g }
  | .connect x y => (b.connect x y).toOption.map (·.2)
  | .disconnect route => b.disconnect? route
  | .removeNode node => (b.removeNode node).toOption
  | .expandLink group linked => (b.expandLink group linked.graph).toOption
  | .markLinkBroken group reason => (b.markLinkBroken group reason).toOption

/-- The model after an operation; a refused one changes nothing. -/
def perform (b : Blueprint) (op : Operation) : Blueprint := (b.perform? op).getD b

def run (b : Blueprint) (ops : List Operation) : Blueprint := ops.foldl perform b

/-- The models to start from: an empty one, or what documents of any content are joined to. -/
inductive Initial : Blueprint → Prop
  | new (name : String) : Initial (new name)
  | join {behavioral : BehavioralDocument} {visual : Option VisualDocument}
      {options : LayoutOptions} {b : Blueprint} (h : join behavioral visual options = .ok b) :
      Initial b

/-- The models that operations lead to; a linked model is itself one of them. -/
inductive Reachable : Blueprint → Prop
  | initial {b : Blueprint} (h : Initial b) : Reachable b
  | perform {b : Blueprint} {op : Operation} (hb : Reachable b)
      (hop : ∀ group linked, op = .expandLink group linked → Reachable linked) :
      Reachable (b.perform op)

theorem Reachable.run {b : Blueprint} {ops : List Operation} (hb : Reachable b)
    (hops : ∀ group linked, .expandLink group linked ∈ ops → Reachable linked) :
    Reachable (b.run ops) := by
  induction ops generalizing b with
  | nil => exact hb
  | cons op ops ih =>
    refine ih (hb.perform fun group linked h => ?_) fun group linked h =>
      hops group linked (List.mem_cons_of_mem op h)
    exact hops group linked (h ▸ List.mem_cons_self)

theorem Reachable.run_new (name : String) {ops : List Operation}
    (h : ops.any Operation.isExpansion = false) : Reachable ((new name).run ops) :=
  (Reachable.initial (.new name)).run fun group linked hmem =>
    absurd hmem (Operation.expandLink_notMem h group linked)

end Blueprint

/-! ## Steps -/

namespace Blueprint

variable {b b' : Blueprint}

/-! ### What each operation does to the graph -/

theorem graph_disconnect (c : Blueprint) (route : Id) :
    ((c.disconnect? route).getD c).graph = c.graph.detach route := by
  unfold disconnect? Tables.disconnect? Graph.sender?
  cases hr : c.graph.route? route with
  | some r => rfl
  | none => simp only [Graph.detach, hr]; rfl

/-- The model without some routes. -/
def clear (b : Blueprint) (routes : List Id) : Blueprint :=
  routes.foldl (fun c route => (c.disconnect? route).getD c) b

theorem graph_clear (b : Blueprint) (routes : List Id) :
    (b.clear routes).graph = b.graph.detachAll routes := by
  induction routes generalizing b with
  | nil => rfl
  | cons route routes ih =>
    show (clear _ routes).graph = (b.graph.detach route).detachAll routes
    rw [ih, graph_disconnect]

theorem removeNode_eq {node : Id} (h : b.removeNode node = .ok b') :
    ∃ g, (b.clear (b.graph.routesWithin node)).graph.removeSubtree node = .ok g ∧
      b' = { b.clear (b.graph.routesWithin node) with
        graph := g, tables := (b.clear (b.graph.routesWithin node)).tables.prune g } := by
  obtain ⟨_, -, h⟩ := bind_eq_ok.1 h
  split at h
  · cases h
  · obtain ⟨g, hg, h⟩ := bind_eq_ok.1 h
    cases h
    exact ⟨g, hg, rfl⟩

theorem expandLink_eq {group : Id} {linked : Graph} (h : b.expandLink group linked = .ok b') :
    ∃ g g', b.graph.instantiate group linked = .ok g ∧ g.setLinkState group .expanded = .ok g' ∧
      b' = { b with graph := g', tables := Tables.build g' } := by
  obtain ⟨g, hg, h⟩ := bind_eq_ok.1 h
  obtain ⟨g', hg', h⟩ := bind_eq_ok.1 h
  cases h
  exact ⟨g, g', hg, hg', rfl⟩

theorem markLinkBroken_eq {group : Id} {reason : String}
    (h : b.markLinkBroken group reason = .ok b') :
    ∃ g, b.graph.setLinkState group (.broken reason) = .ok g ∧ b' = { b with graph := g } := by
  obtain ⟨g, hg, h⟩ := bind_eq_ok.1 h
  cases h
  exact ⟨g, hg, rfl⟩

theorem connect_eq {x y : Terminal} {route : Id} (h : b.connect x y = .ok (route, b')) :
    ∃ t, b.tables.connect b.graph x y = .ok (route, b'.graph, t) ∧
      b' = { b with graph := b'.graph, tables := t } := by
  obtain ⟨⟨r, g, t⟩, hc, h⟩ := bind_eq_ok.1 h
  cases h
  exact ⟨t, hc, rfl⟩

end Blueprint

namespace Graph

/-- A graph before and after an operation that is not refused. -/
inductive Step (g : Graph) : Operation → Graph → Prop
  | edit {e : Edit} {g' : Graph} (h : e.apply g = .ok g') : Step g (.edit e) g'
  | joined (a b : Terminal) : Step g (.connect a b) g
  | join {a b : Terminal} {route : Id} {g' : Graph} (hcheck : g.check a b = .ok ())
      (hnew : g.existingRoute? a b = none) (h : g.attach a b = .ok (route, g')) :
      Step g (.connect a b) g'
  | part (route : Id) : Step g (.disconnect route) (g.detach route)
  | remove {node : Id} {g' : Graph}
      (h : (g.detachAll (g.routesWithin node)).removeSubtree node = .ok g') :
      Step g (.removeNode node) g'
  | expand {group : Id} {linked : Blueprint} {h g' : Graph}
      (hcopy : g.instantiate group linked.graph = .ok h)
      (hstate : h.setLinkState group .expanded = .ok g') : Step g (.expandLink group linked) g'
  | spoil {group : Id} {reason : String} {g' : Graph}
      (h : g.setLinkState group (.broken reason) = .ok g') : Step g (.markLinkBroken group reason) g'

end Graph

namespace Blueprint

variable {b b' : Blueprint} {op : Operation}

/-- An operation that is not refused takes a step. -/
theorem perform?_step (h : b.perform? op = some b') : b.graph.Step op b'.graph := by
  cases op with
  | edit e =>
    obtain ⟨g, hg, rfl⟩ := Option.map_eq_some_iff.1 h
    exact .edit (of_toOption hg)
  | connect x y =>
    obtain ⟨⟨route, c⟩, hc, rfl⟩ := Option.map_eq_some_iff.1 h
    obtain ⟨t, ht, -⟩ := connect_eq (of_toOption hc)
    obtain ⟨hcheck, ⟨-, hg, -⟩ | ⟨hnew, hat, -⟩⟩ := Tables.connect_eq ht
    · exact hg ▸ .joined x y
    · exact .join hcheck hnew hat
  | disconnect route =>
    have hg := graph_disconnect b route
    have hb : b.disconnect? route = some b' := h
    rw [hb] at hg
    exact hg ▸ .part route
  | removeNode node =>
    obtain ⟨g, hg, rfl⟩ := removeNode_eq (of_toOption h)
    rw [graph_clear] at hg
    exact .remove hg
  | expandLink group linked =>
    obtain ⟨g, g', hg, hg', rfl⟩ := expandLink_eq (of_toOption h)
    exact .expand hg hg'
  | markLinkBroken group reason =>
    obtain ⟨g, hg, rfl⟩ := markLinkBroken_eq (of_toOption h)
    exact .spoil hg

/-- An operation keeps what its steps keep. -/
theorem perform_keeps {P : Graph → Prop} (hp : P b.graph) (hstep : ∀ {g'}, b.graph.Step op g' → P g') :
    P (b.perform op).graph := by
  unfold perform
  cases h : b.perform? op with
  | none => exact hp
  | some b' => exact hstep (perform?_step h)

end Blueprint

/-! ## Well-formedness along a run -/

/-- A step keeps the graph well-formed if the model it stands in a group has such a graph. -/
theorem Graph.Step.wellFormed {g g' : Graph} {op : Operation} (h : g.Step op g') (w : g.WellFormed)
    (hop : ∀ group linked, op = .expandLink group linked → linked.graph.WellFormed) : g'.WellFormed := by
  cases h with
  | edit h => exact w.edited (Edit.edited h)
  | joined => exact w
  | join hcheck _ h => exact w.attach h (joinable_of_check hcheck)
  | part => exact w.detach
  | remove h => exact w.removeNode h
  | expand hcopy hstate => exact (w.instantiate (hop _ _ rfl) hcopy).of_alike (setLinkState_alike hstate)
  | spoil h => exact w.of_alike (setLinkState_alike h)

namespace Blueprint

variable {b b' : Blueprint}

theorem Initial.wellFormed (h : b.Initial) : b.graph.WellFormed := by
  cases h with
  | new name => exact Graph.withRoot_wellFormed 1 name
  | join h => exact join_wellFormed h

theorem perform_wellFormed {op : Operation} (w : b.graph.WellFormed)
    (hop : ∀ group linked, op = .expandLink group linked → linked.graph.WellFormed) :
    (b.perform op).graph.WellFormed :=
  perform_keeps (P := Graph.WellFormed) w fun h => h.wellFormed w hop

theorem Reachable.wellFormed (h : b.Reachable) : b.graph.WellFormed := by
  induction h with
  | initial h => exact h.wellFormed
  | perform _ _ ihb ihop => exact perform_wellFormed ihb ihop

end Blueprint
end MessageGraph
