import MessageGraph.Proofs.Registry.Coherent
import MessageGraph.Registry.Turn
import Mathlib.Data.List.Forall2

/-!
# Turns are runs

Loading by turns is one of the ways in which the steps of loads can fall: whatever the delay, the turns
that are taken are a run of load events, and what is given out for a location is what a request for it in
this run has come to (`loadMany_run`). So what holds of every run holds of `loadMany`, `load` and
`compile`.
-/
namespace MessageGraph

open Registry (Event)

namespace Registry

/-- Load events lead from a registry to another. -/
def Leads (r r' : Registry) : Prop :=
  ∃ events : List Event, (∀ e ∈ events, e.isLoad = true) ∧ r' = r.run events

namespace Leads

variable {r r' r'' : Registry}

theorem refl (r : Registry) : Leads r r := ⟨[], nofun, rfl⟩

theorem trans (h : Leads r r') (h' : Leads r' r'') : Leads r r'' := by
  obtain ⟨events, hload, rfl⟩ := h
  obtain ⟨events', hload', rfl⟩ := h'
  refine ⟨events ++ events', fun e he => ?_, (run_append ..).symm⟩
  exact (List.mem_append.1 he).elim (hload e) (hload' e)

/-- One event, if it can happen. -/
theorem perform (r : Registry) {e : Event} (he : e.isLoad = true) :
    Leads r ((r.perform? e).getD r) :=
  ⟨[e], by simpa using he, rfl⟩

/-- What every step of a load keeps is kept. -/
theorem keeps {P : Registry → Prop} (h : Leads r r')
    (hstep : ∀ {r e r'}, e.isLoad = true → P r → Step r e r' → P r') (hr : P r) : P r' := by
  obtain ⟨events, hload, rfl⟩ := h
  exact run_keeps_of hstep hload hr

theorem options (h : Leads r r') : r'.options = r.options := by
  obtain ⟨events, -, rfl⟩ := h
  exact r.run_options events

end Leads
end Registry

namespace Turns

open Registry (Leads)

variable (delay : Nat)

theorem leads_fetch (t : Turns) (flight : Nat) :
    Leads t.registry (t.fetch delay flight).registry := by
  unfold fetch
  split
  · split
    · exact .refl _
    · exact (Leads.perform t.registry (e := .answer flight .behavioral) rfl).trans
        (Leads.perform _ (e := .answer flight .visual) rfl)
  · exact .refl _

theorem leads_foldl {α : Type} {step : Turns → α → Turns}
    (hstep : ∀ t a, Leads t.registry (step t a).registry) (l : List α) (t : Turns) :
    Leads t.registry (l.foldl step t).registry :=
  foldl_keeps (fun t' => Leads t.registry t'.registry) (fun t' a _ h => h.trans (hstep t' a)) (.refl _)

/-- The turns of others that a turn gives are turns too. -/
theorem leads_turn (bound : Nat) : ∀ (inside : List Nat) (flight : Nat) (t : Turns),
    Leads t.registry (turn delay bound inside flight t).registry := by
  induction bound with
  | zero => exact fun _ _ _ => .refl _
  | succ bound ih =>
    intro inside flight t
    unfold turn
    split
    · exact .refl _
    · refine (leads_fetch delay t flight).trans ((leads_foldl (fun t index => ?_) _ _).trans
        (Leads.perform _ (e := .land flight) rfl))
      refine Leads.trans ?_ (Leads.perform _ (e := .settleLink flight index) rfl)
      have hstart : Leads t.registry (if index < (t.started flight).length then t
          else t.after (t.registry.startLink? flight)).registry := by
        split
        · exact .refl _
        · exact Leads.perform t.registry (e := .startLink flight) rfl
      refine hstart.trans ?_
      generalize (if index < (t.started flight).length then t
        else t.after (t.registry.startLink? flight)) = t
      split
      · exact ih _ _ _
      · exact .refl _

theorem leads_serve (t : Turns) (ticket : Ticket) :
    Leads t.registry (serve delay t ticket).registry := by
  cases ticket with
  | ready _ => exact .refl _
  | waiting flight => exact leads_turn delay _ _ _ _

theorem leads_rounds (tickets : List Ticket) (bound : Nat) : ∀ t : Turns,
    Leads t.registry (rounds delay tickets bound t).registry := by
  induction bound with
  | zero => exact fun _ => .refl _
  | succ bound ih =>
    intro t
    unfold rounds
    split
    · exact .refl _
    · exact (leads_foldl (leads_serve delay) tickets t).trans (ih _)

/-- Each location is requested once on the way. -/
theorem leads_requestAll (locations : List String) : ∀ t : Turns,
    Leads t.registry (requestAll delay locations t).2.registry ∧
      List.Forall₂ (fun l ticket => ∃ r, Leads t.registry r ∧ ticket = (r.request l).1 ∧
          Leads (r.request l).2 (requestAll delay locations t).2.registry)
        locations (requestAll delay locations t).1 := by
  induction locations with
  | nil => exact fun t => ⟨.refl _, .nil⟩
  | cons l locations ih =>
    intro t
    have hrequest : Leads t.registry (t.registry.request l).2 :=
      Leads.perform t.registry (e := .request l) rfl
    have hserve := leads_serve delay { t with registry := (t.registry.request l).2 }
      (t.registry.request l).1
    obtain ⟨hrest, htickets⟩ := ih (serve delay { t with registry := (t.registry.request l).2 }
      (t.registry.request l).1)
    refine ⟨hrequest.trans (hserve.trans hrest), .cons ⟨_, .refl _, rfl, hserve.trans hrest⟩ ?_⟩
    exact htickets.imp fun _ _ ⟨r, hr, hticket, hafter⟩ =>
      ⟨r, hrequest.trans (hserve.trans hr), hticket, hafter⟩

end Turns

namespace Registry

theorem outcome_eq (r : Registry) (l : String) (ticket : Ticket) :
    r.outcome l ticket = (ticket.result? r).getD (.error (.linkCycle l)) := by
  cases ticket <;> rfl

theorem forall₂_zipWith {α β γ : Type} {R : α → β → Prop} {f : α → β → γ} {as : List α}
    {bs : List β} (h : List.Forall₂ R as bs) :
    List.Forall₂ (fun a c => ∃ b, R a b ∧ c = f a b) as (List.zipWith f as bs) := by
  induction h with
  | nil => exact .nil
  | cons h _ ih => exact .cons ⟨_, h, rfl⟩ ih

/-- What is given out for each location is what a request for it has come to in a run of load events, or
that nothing has come of it. -/
theorem loadMany_run (r : Registry) (delay : Nat) (locations : List String) :
    Leads r (r.loadMany delay locations).2 ∧
      List.Forall₂ (fun l result => ∃ s, Leads r s ∧
          Leads (s.request l).2 (r.loadMany delay locations).2 ∧
          result = ((s.request l).1.result? (r.loadMany delay locations).2).getD
            (.error (.linkCycle l)))
        locations (r.loadMany delay locations).1 := by
  obtain ⟨hrequests, htickets⟩ := Turns.leads_requestAll delay locations { registry := r }
  have hrounds := Turns.leads_rounds delay
    (Turns.requestAll delay locations { registry := r }).1
    ((delay + 2) * ((Turns.requestAll delay locations { registry := r }).2.flightBound +
      locations.length)) (Turns.requestAll delay locations { registry := r }).2
  refine ⟨hrequests.trans hrounds, (forall₂_zipWith htickets).imp ?_⟩
  rintro l _ ⟨_, ⟨s, hs, rfl, hafter⟩, rfl⟩
  exact ⟨s, hs, hafter.trans hrounds, outcome_eq ..⟩

theorem load_run (r : Registry) (delay : Nat) (l : String) :
    Leads r (r.load delay l).2 ∧ ∃ s, Leads r s ∧ Leads (s.request l).2 (r.load delay l).2 ∧
      (r.load delay l).1 =
        ((s.request l).1.result? (r.load delay l).2).getD (.error (.linkCycle l)) := by
  obtain ⟨hleads, hresults⟩ := r.loadMany_run delay [l]
  refine ⟨hleads, ?_⟩
  have hload : r.load delay l = ((r.loadMany delay [l]).1.headD (.error (.linkCycle l)),
      (r.loadMany delay [l]).2) := rfl
  rw [hload]
  generalize (r.loadMany delay [l]).1 = results at hresults
  cases hresults with
  | cons h _ => exact h

/-- A model that is there is given out without a load. -/
theorem load_of_model {r : Registry} {l : String} {m : Blueprint} (hm : r.model? l = some m)
    (delay : Nat) : (r.load delay l).1 = .ok m := by
  have hrequest : r.request l = (.ready m, r) := by rw [request, hm]
  unfold load loadMany
  rw [Turns.requestAll]
  simp only [hrequest]
  rfl

end Registry
end MessageGraph
