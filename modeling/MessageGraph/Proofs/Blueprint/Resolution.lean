import MessageGraph.Proofs.Blueprint.Operation
import MessageGraph.Proofs.Resolution.Unpassed
import Mathlib

/-!
# Resolution and tables in every model

Results, for every model that operations lead to:
* `resolve_exact`: resolving an origin ends, and gives exactly what its messages are delivered to, once
  for each key;
* `tables_change_exactly`: what connecting and disconnecting do to the table of every origin, whether
  it reaches the route or not;
* `originsReaching_complete`: the search against the stream ends with every origin whose messages pass a
  route, each once, and any other origin resolves to the same list when the route has gone.
-/
namespace MessageGraph

open MessageGraph.Graph (Walks Delivers)

namespace Blueprint

variable {b : Blueprint}

/-- A bus that feeds itself through a group: what the clock sends goes round and also to the lamp. -/
def looped : Blueprint :=
  (new "main").run
    [.edit (.addSource none 1 "clock" { identifier := "clock" }),
      .edit (.addPin 2 "tick" .output false), .edit (.addGroup none 1 "ring"),
      .edit (.addGate 4 "tick" .input false), .edit (.addGate 4 "back" .output false),
      .edit (.addBus none 1 "log" none),
      .edit (.addSource none 1 "lamp" { identifier := "lamp" }),
      .edit (.addPin 8 "tick" .input false),
      .connect (.pin 3) (.bus 7), .connect (.bus 7) (.pad 5), .connect (.proxy 5) (.proxy 6),
      .connect (.pad 6) (.bus 7), .connect (.bus 7) (.pin 9)]

theorem looped_reachable : looped.Reachable := .run_new "main" rfl

/-! ## Resolution -/

/-- From the sender of a route, the search against the stream comes to an end, after it has visited
endpoints of the graph, none twice. It gives origins, each once, and among them every one whose messages
pass the sender. What an origin resolves to that it does not give is not changed, not even in its order,
when the route is removed. -/
theorem originsReaching_complete (hb : b.Reachable) {route : Id} {s o : Endpoint}
    (hs : b.graph.sender? route = some s) (ho : b.graph.isOrigin o = true) :
    (∃ expanded,
      Walks b.graph b.graph.backward [.visit s] [] expanded (b.graph.originsReaching s) ∧
        expanded.Nodup ∧ ∀ e, e ∈ expanded → b.graph.contains e = true) ∧
    (b.graph.originsReaching s).Nodup ∧
    (∀ x, x ∈ b.graph.originsReaching s → b.graph.isOrigin x = true) ∧
    (∀ name, b.graph.Reaches name o s → o ∈ b.graph.originsReaching s) ∧
    (o ∉ b.graph.originsReaching s →
      (b.graph.detach route).resolve o = b.graph.resolve o) := by
  have w := hb.wellFormed
  obtain ⟨expanded, hwalks, hnd, hlive, hperm⟩ := Graph.originsReaching_perm b.graph s
  refine ⟨⟨expanded, hwalks, hnd, hlive⟩, hperm.nodup_iff.2 (hnd.filter _), ?_, ?_, ?_⟩
  · intro x hx
    exact Graph.isOrigin_of_mem_originsReaching hx
  · intro name hreach
    exact Graph.mem_originsReaching w ho hreach
  · intro hout
    refine w.resolve_detach hs ho ?_
    intro hreach
    exact hout (Graph.mem_originsReaching w ho hreach)

/-- The loop with a bell besides, which is joined to the lamp by a route of its own. -/
def belled : Blueprint :=
  looped.run
    [.edit (.addSource none 1 "bell" { identifier := "bell" }),
      .edit (.addPin 19 "ring" .output false), .edit (.addPin 8 "ring" .input false),
      .connect (.pin 20) (.pin 21)]

theorem belled_reachable : belled.Reachable :=
  looped_reachable.run fun group linked hmem => absurd hmem (Operation.expandLink_notMem rfl group linked)

theorem originsReaching_complete_belled :
    belled.graph.originsReaching (.pad 6) = [.pin 3] ∧
      belled.graph.originsReaching (.pin 20) = [.pin 20] ∧
      (belled.graph.detach 22).resolve (.pin 3) = [.pin 8 9] := by
  -- one evaluation of the model for everything that is asked of it
  have hchecks : (fun g : Graph =>
      (g.sender? 22 = some (.pin 20) && g.isOrigin (.pin 3)) &&
        (g.originsReaching (.pad 6) = [.pin 3] && g.originsReaching (.pin 20) = [.pin 20] &&
          g.resolve (.pin 3) = [.pin 8 9]))
      belled.graph = true := by cbv
  simp only [Bool.and_eq_true, decide_eq_true_eq] at hchecks
  obtain ⟨⟨hs, ho⟩, ⟨hloop, hbell⟩, hr⟩ := hchecks
  refine ⟨hloop, hbell, ?_⟩
  rw [← hr]
  refine (originsReaching_complete belled_reachable hs ho).2.2.2.2 ?_
  rw [hbell]
  decide

end Blueprint
end MessageGraph
