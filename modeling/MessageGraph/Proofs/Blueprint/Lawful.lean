import MessageGraph.Proofs.Blueprint.Loaded
import MessageGraph.Proofs.Blueprint.Operation
import MessageGraph.Proofs.Graph.Faithful
import Mathlib

/-!
# Which routes of a model are legal

`connect` and loading check what they join; expanding a link copies routes unchecked, onto gates that were
bound by their names.

* In every model the names along a route agree, and a route is legal unless it touches a proxy without
  meeting a tack. All routes are legal if at each expansion the linked top-level gates fit the gates of the
  group (`routes_lawful`).
* Where one does not fit, a route can have two inputs (`routes_lawful_misfit`).
-/
namespace MessageGraph.Blueprint

open MessageGraph.Graph (Ruled)

variable {b : Blueprint} {proxies : Prop}

/-- The models that operations lead to where links are expanded to such models, and only where the linked
top-level gates fit the gates of the group. -/
inductive Fitted : Blueprint → Prop
  | initial {b : Blueprint} (h : Initial b) : Fitted b
  | perform {b : Blueprint} {op : Operation} (hb : Fitted b)
      (hlinked : ∀ group linked, op = .expandLink group linked → Fitted linked)
      (hfits : ∀ group linked, op = .expandLink group linked → b.graph.Fits group linked.graph) :
      Fitted (b.perform op)

theorem Fitted.reachable (h : b.Fitted) : b.Reachable := by
  induction h with
  | initial h => exact .initial h
  | perform _ _ _ ihb ihlinked => exact ihb.perform ihlinked

/-- Operations other than expansions ask for no fitting. -/
theorem Fitted.run {ops : List Operation} (hb : b.Fitted)
    (hops : ∀ group linked, .expandLink group linked ∉ ops) : (b.run ops).Fitted := by
  induction ops generalizing b with
  | nil => exact hb
  | cons op ops ih =>
    have hop : ∀ group linked, op ≠ .expandLink group linked := fun group linked h =>
      hops group linked (h ▸ List.mem_cons_self)
    exact ih (.perform hb (fun group linked h => absurd h (hop group linked))
      fun group linked h => absurd h (hop group linked)) fun group linked h =>
        hops group linked (List.mem_cons_of_mem op h)

theorem Initial.ruled (h : b.Initial) : Ruled proxies b.graph := by
  cases h with
  | new name => exact (Graph.withRoot_wired 1 name).ruled
  | join h => exact (join_wired h).ruled

/-- An operation keeps a graph ruled, with the proxies if what it stands in a group fits. -/
theorem perform_ruled {op : Operation} (w : b.graph.WellFormed) (hr : Ruled proxies b.graph)
    (hlinked : ∀ group linked, op = .expandLink group linked →
      linked.graph.WellFormed ∧ Ruled proxies linked.graph)
    (hfits : proxies → ∀ group linked, op = .expandLink group linked →
      b.graph.Fits group linked.graph) : Ruled proxies (b.perform op).graph := by
  refine perform_keeps (P := Ruled proxies) hr fun {g'} h => ?_
  cases h with
  | edit h => exact hr.edited w (Edit.edited h)
  | joined => exact hr
  | join hcheck _ h =>
    exact hr.attach w (fun hx hy => ((Graph.check_eq_ok_iff.1 hcheck).endpoints hx hy).agree) h
  | part route => exact hr.detach w route
  | remove h => exact hr.removeNode w h
  | expand hcopy hstate =>
    obtain ⟨wl, hl⟩ := hlinked _ _ rfl
    exact (hr.instantiate w wl hl (fun hs => hfits hs _ _ rfl) hcopy).of_part
      (.of_alike (Graph.setLinkState_alike hstate))
  | spoil h => exact hr.of_part (.of_alike (Graph.setLinkState_alike h))

theorem Reachable.ruled (h : b.Reachable) : Ruled False b.graph := by
  induction h with
  | initial h => exact h.ruled
  | perform hb hop ihb ihop =>
    exact perform_ruled hb.wellFormed ihb
      (fun group linked he => ⟨(hop group linked he).wellFormed, ihop group linked he⟩) nofun

theorem Fitted.ruled (h : b.Fitted) : Ruled True b.graph := by
  induction h with
  | initial h => exact h.ruled
  | perform hb hlinked hfits ihb ihlinked =>
    exact perform_ruled hb.reachable.wellFormed ihb
      (fun group linked he =>
        ⟨(hlinked group linked he).reachable.wellFormed, ihlinked group linked he⟩)
      fun _ => hfits

/-- Names agree along every route in every model, a route is legal if no proxy is an end or a tack is one,
and all routes are if links were expanded only where they fit. -/
theorem routes_lawful (h : b.Reachable) :
    (∀ s r, b.graph.route? s = some r → r.a.endpointClass ≠ .tack → r.b.endpointClass ≠ .tack →
      (b.graph.isPattern r.a || b.graph.isPattern r.b) = true →
        Message.overlap (b.graph.nameOf r.a) (b.graph.nameOf r.b) = true) ∧
    (∀ s r, b.graph.route? s = some r →
      (r.a.endpointClass = .tack ∨ r.b.endpointClass = .tack ∨
        ∀ gate, r.a ≠ .proxy gate ∧ r.b ≠ .proxy gate) → b.graph.Legal r) ∧
    (b.Fitted → b.graph.Lawful) := by
  refine ⟨fun s r hs ha hb => (h.ruled s r hs ha hb).message, fun s r hs hends => ?_, fun hf => ?_⟩
  · refine h.ruled.legal h.wellFormed hs (hends.imp_right (Or.imp_right fun hproxy => ?_))
    exact ⟨Endpoint.sure_of_ne_proxy fun gate => (hproxy gate).1,
      Endpoint.sure_of_ne_proxy fun gate => (hproxy gate).2⟩
  · exact (Graph.lawful_iff h.wellFormed).2 hf.ruled

/-- A model with one top-level gate of a given direction, joined to a pin of a source. -/
def gated (direction : Direction) : Blueprint :=
  (new "part").run
    [.edit (.addGate 1 "go" direction false), .edit (.addSource none 1 "X" { identifier := "x" }),
      .edit (.addPin 3 "go" direction false), .connect (.pin 4) (.proxy 2)]

/-- A group with a gate that sends, to which a model is linked. -/
def awaiting : Blueprint :=
  (new "main").run [.edit (.addGroup none 1 "part"), .edit (.addGate 2 "go" .output false)]

theorem gated_fitted (direction : Direction) : (gated direction).Fitted :=
  Fitted.run (.initial (.new "part")) (Operation.expandLink_notMem rfl)

theorem awaiting_fitted : awaiting.Fitted :=
  Fitted.run (.initial (.new "main")) (Operation.expandLink_notMem rfl)

theorem awaiting_fits : awaiting.graph.Fits 2 (gated .output).graph := by
  intro i p j q hp _ hq _ _
  have hi : i ∈ (gated .output).graph.gates.ids :=
    IdMap.mem_ids_iff.2 (IdMap.contains_of_get? hp)
  have hj : j ∈ awaiting.graph.gates.ids := IdMap.mem_ids_iff.2 (IdMap.contains_of_get? hq)
  have hi' : (gated .output).graph.gates.ids = [2] := by cbv
  have hj' : awaiting.graph.gates.ids = [3] := by cbv
  rw [hi', List.mem_singleton] at hi
  rw [hj', List.mem_singleton] at hj
  subst hi hj
  have hp' : ((gated .output).graph.gate? 2).map (fun p => (p.direction, p.channel)) =
      some (.output, false) := by cbv
  have hq' : (awaiting.graph.gate? 3).map (fun p => (p.direction, p.channel)) =
      some (.output, false) := by cbv
  rw [hp] at hp'
  rw [hq] at hq'
  have he := Option.some.inj (hq'.trans hp'.symm)
  exact ⟨congrArg Prod.fst he, congrArg Prod.snd he⟩

theorem routes_lawful_fitted :
    (awaiting.perform (.expandLink 2 (gated .output))).Reachable ∧
      (awaiting.perform (.expandLink 2 (gated .output))).Fitted ∧
      (awaiting.perform (.expandLink 2 (gated .output))).graph.routes.ids = [6] ∧
      (awaiting.perform (.expandLink 2 (gated .output))).graph.Lawful := by
  have hfitted : (awaiting.perform (.expandLink 2 (gated .output))).Fitted := by
    refine .perform awaiting_fitted (fun group linked h => ?_) fun group linked h => ?_
    · cases h; exact gated_fitted .output
    · cases h; exact awaiting_fits
  exact ⟨hfitted.reachable, hfitted, by cbv, (routes_lawful hfitted.reachable).2.2 hfitted⟩

/-- A linked gate that receives is bound to the one that sends, and the route that led from it leads to it. -/
theorem routes_lawful_misfit :
    (awaiting.perform (.expandLink 2 (gated .input))).Reachable ∧
      ∃ r, (awaiting.perform (.expandLink 2 (gated .input))).graph.route? 6 = some r ∧
        ¬ (awaiting.perform (.expandLink 2 (gated .input))).graph.Paired r.a r.b := by
  refine ⟨awaiting_fitted.reachable.perform fun group linked h => ?_, ⟨.pin 5, .proxy 3, []⟩, by cbv, ?_⟩
  · cases h; exact (gated_fitted .input).reachable
  · have hx : (awaiting.perform (.expandLink 2 (gated .input))).graph.direction? (.pin 5) =
        some .input := by cbv
    have hy : (awaiting.perform (.expandLink 2 (gated .input))).graph.direction? (.proxy 3) =
        some .input := by cbv
    rintro (⟨h, -⟩ | ⟨-, h⟩)
    · cases hx.symm.trans h
    · cases hy.symm.trans h

end MessageGraph.Blueprint
