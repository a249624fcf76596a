import MessageGraph.Proofs.Resolution.Tables

/-!
# The same graph drawn another way

What messages do does not depend on how far the sequence of ids has come, nor on which end of a route is
called first. `Redrawn g g'` says that two graphs differ in nothing else, and each question about messages
has one answer for both.
-/
namespace MessageGraph

namespace Graph

/-- The same graph but for how far its sequence of ids has come and for how each route is held; every
route leads from where it led to where it led. -/
structure Redrawn (g g' : Graph) : Prop where
  eq : g' = { g with nextId := g'.nextId, routes := g'.routes }
  across : ∀ e route, g'.across? e route = g.across? e route

variable {g g' : Graph}

namespace Redrawn

theorem of_nextId (g : Graph) (next : Id) : Redrawn g { g with nextId := next } := ⟨rfl, fun _ _ => rfl⟩

theorem routesOf_eq (h : Redrawn g g') (e : Endpoint) : g'.routesOf e = g.routesOf e := by
  rw [h.eq]; cases e <;> rfl

theorem contains_eq (h : Redrawn g g') (e : Endpoint) : g'.contains e = g.contains e := by
  rw [h.eq]; cases e <;> rfl

theorem direction?_eq (h : Redrawn g g') (e : Endpoint) : g'.direction? e = g.direction? e := by
  rw [h.eq]; cases e <;> rfl

theorem nameOf_eq (h : Redrawn g g') (e : Endpoint) : g'.nameOf e = g.nameOf e := by
  rw [h.eq]; cases e <;> rfl

theorem busOf?_eq (h : Redrawn g g') (t : Id) : g'.busOf? t = g.busOf? t := by
  rw [h.eq]; rfl

theorem targetKey_eq (h : Redrawn g g') : g'.targetKey = g.targetKey := by
  funext x
  cases x <;> simp only [targetKey, h.nameOf_eq]

theorem isOrigin_eq (h : Redrawn g g') (e : Endpoint) : g'.isOrigin e = g.isOrigin e := by
  cases e <;> simp only [isOrigin, h.direction?_eq, h.busOf?_eq]

theorem arrival_eq (h : Redrawn g g') (name : String) (e : Endpoint) :
    g'.arrival name e = g.arrival name e := by
  rw [h.eq]; cases e <;> rfl

theorem departures_eq (h : Redrawn g g') (name : String) (e : Endpoint) :
    g'.departures name e = g.departures name e := by
  simp only [departures, h.routesOf_eq, h.across, h.direction?_eq, h.arrival_eq]

theorem fanOut_eq (h : Redrawn g g') (name : String) (t : Id) :
    g'.fanOut name t = g.fanOut name t := by
  rw [h.eq]; rfl

theorem onward_eq (h : Redrawn g g') (name : String) (e : Endpoint) :
    g'.onward name e = g.onward name e := by
  cases e with
  | pad gate =>
    have hgate : g'.gate? gate = g.gate? gate := by rw [h.eq]; rfl
    have hroot : g'.root = g.root := by rw [h.eq]
    simp only [onward, hgate, hroot, h.departures_eq]
  | tack t => simp only [onward, h.direction?_eq, h.fanOut_eq, h.departures_eq]
  | _ => exact h.departures_eq name _

theorem resolve_eq (h : Redrawn g g') (origin : Endpoint) : g'.resolve origin = g.resolve origin := by
  simp only [resolve, h.targetKey_eq, h.nameOf_eq, h.departures_eq]
  exact congrArg _ (walk_congr h.contains_eq (h.onward_eq _) _ _)

end Redrawn

end Graph

namespace Tables

open MessageGraph.Graph (Redrawn)

variable {g g' : Graph} {t t' : Tables}

/-- Tables with the same look-ups are the same. -/
theorem ext_table? (h : ∀ e, t.table? e = t'.table? e) : t = t' := by
  have hpins : t.pins = t'.pins := IdMap.ext_get? fun i => h (.pin i)
  have htacks : t.tacks = t'.tacks := IdMap.ext_get? fun i => h (.tack i)
  cases t
  cases t'
  subst hpins htacks
  rfl

end Tables

end MessageGraph
