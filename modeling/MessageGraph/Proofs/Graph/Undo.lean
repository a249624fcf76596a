import MessageGraph.Proofs.Graph.Attach
import MessageGraph.Proofs.Graph.Detach

/-!
# Taking the newest route away again

A route goes to the end of the lists of its two ends, and a tack to the end of the list of its bus. Taken
away it leaves every list as it was, so the graph is back but for the ids that were given out
(`WellFormed.detach_attach`).

The argument: the graph before and the graph after are both the graph in between less the same route;
two such graphs can differ in the lists of endpoints and buses alone (`OneMore.unique`).
-/
namespace MessageGraph.Graph

variable {g g' : Graph} {route : Id} {r : Route}

/-! ## One graph less one route -/

/-- Entities that agree up to one part, and in that part, are the same. -/
theorem eq_of_map_eq {α β γ : Type} {bare : α → β} (part : α → γ) {o o' : Option α}
    (hinj : ∀ a a', bare a' = bare a → part a' = part a → a' = a)
    (h : o'.map bare = o.map bare)
    (hpart : ∀ a a', o = some a → o' = some a' → part a' = part a) : o' = o := by
  cases o with
  | none => exact Option.map_eq_none_iff.1 h
  | some a =>
    obtain ⟨a', rfl, hbare⟩ := Option.map_eq_some_iff.1 h
    rw [hinj a a' hbare (hpart a a' rfl rfl)]

theorem Rerouted.pins_eq (h : Rerouted g g') (hroutes : ∀ e, g'.routesOf e = g.routesOf e) :
    g'.pins = g.pins := IdMap.ext_get? fun i => by
  refine eq_of_map_eq Pin.routes ?_ (h.pins i) fun p p' hp hp' => ?_
  · rintro ⟨⟩ ⟨⟩ hbare rfl
    simpa only [Pin.unrouted, Pin.mk.injEq, and_true, true_and] using hbare
  · have hlist : (g'.pins.get? i).elim [] (·.routes) = (g.pins.get? i).elim [] (·.routes) :=
      hroutes (.pin i)
    rwa [hp, hp'] at hlist

theorem Rerouted.gates_eq (h : Rerouted g g') (hroutes : ∀ e, g'.routesOf e = g.routesOf e) :
    g'.gates = g.gates := IdMap.ext_get? fun i => by
  refine eq_of_map_eq (fun p : Gate => (p.padRoutes, p.proxyRoutes)) ?_ (h.gates i)
    fun p p' hp hp' => ?_
  · rintro ⟨⟩ ⟨⟩ hbare hlists
    cases hlists
    simpa only [Gate.unrouted, Gate.mk.injEq, and_true, true_and] using hbare
  · have hpad : (g'.gates.get? i).elim [] (·.padRoutes) =
        (g.gates.get? i).elim [] (·.padRoutes) := hroutes (.pad i)
    have hproxy : (g'.gates.get? i).elim [] (·.proxyRoutes) =
        (g.gates.get? i).elim [] (·.proxyRoutes) := hroutes (.proxy i)
    rw [hp, hp'] at hpad hproxy
    exact Prod.ext hpad hproxy

theorem buses_eq_of_untacked (h : ∀ i, (g'.bus? i).map Bus.untacked = (g.bus? i).map Bus.untacked)
    (htacks : ∀ b, g'.tackIds b = g.tackIds b) : g'.buses = g.buses := IdMap.ext_get? fun i => by
  refine eq_of_map_eq Bus.tacks ?_ (h i) fun b b' hb hb' => ?_
  · rintro ⟨⟩ ⟨⟩ hbare rfl
    simpa only [Bus.untacked, Bus.mk.injEq, and_true, true_and] using hbare
  · have hlist : (g'.buses.get? i).elim [] (·.tacks) = (g.buses.get? i).elim [] (·.tacks) :=
      htacks i
    rwa [hb, hb'] at hlist

/-- What is left of a graph when a route goes is given by the lists of endpoints and buses. -/
theorem OneMore.unique {small small' big : Graph} (h : OneMore small big route r)
    (h' : OneMore small' big route r) (hnext : small'.nextId = small.nextId)
    (hroutes : ∀ e, small'.routesOf e = small.routesOf e)
    (htacks : ∀ b, small'.tackIds b = small.tackIds b) : small' = small := by
  have hre : Rerouted small small' := h.rerouted.trans h'.rerouted.symm
  have hpins := hre.pins_eq hroutes
  have hgates := hre.gates_eq hroutes
  have hbuses := buses_eq_of_untacked (fun i => (h'.buses i).symm.trans (h.buses i)) htacks
  have htack : small'.tacks = small.tacks := IdMap.ext_get? fun t => by
    show small'.tack? t = small.tack? t
    by_cases hend : r.a = .tack t ∨ r.b = .tack t
    · rw [h.tack_absent t hend, h'.tack_absent t hend]
    · rw [not_or] at hend
      rw [← h.tacks t hend.1 hend.2, h'.tacks t hend.1 hend.2]
  have hroute : small'.routes = small.routes := IdMap.ext_get? fun i => by
    show small'.route? i = small.route? i
    by_cases hi : i = route
    · rw [hi, h.absent, h'.absent]
    · rw [← h.others i hi, h'.others i hi]
  have hroot := hre.root
  have hnodes := hre.nodes
  cases small
  cases small'
  subst hnext hpins hgates hbuses htack hroute hroot hnodes
  rfl

/-! ## Lists when a route comes -/

theorem WellFormed.routesOf_attach (w : g.WellFormed) {a b : Terminal}
    (h : g.attach a b = .ok (route, g')) (hne : a ≠ b) (hr : g'.route? route = some r)
    (e : Endpoint) :
    g'.routesOf e = if r.a = e ∨ r.b = e then g.routesOf e ++ [route] else g.routesOf e := by
  obtain ⟨rfl, ⟨x, y, hx, hy, hcx, hcy, rfl⟩ | ⟨bus, x, r', -, hcx, htx, hr', rfl⟩⟩ := attach_eq h
  · have hxy : x ≠ y := by
      rintro rfl
      cases a <;> cases b <;> cases hx <;> cases hy <;> exact hne rfl
    rw [route?_joined, if_pos rfl] at hr
    cases hr
    exact routesOf_joined hxy hcx hcy (endpointClass_of_endpoint? hx)
      (endpointClass_of_endpoint? hy) e
  · have hpresent : (g.joinedToBus bus x r').route? g.fresh.1 = some r' :=
      (route?_joined _).trans (if_pos rfl)
    rw [hpresent] at hr
    cases hr
    exact routesOf_joinedToBus w.ids hcx htx (hr'.imp (·.2.2) (·.2.2)) e

/-- Not at an end of the route. -/
def apartFrom (r : Route) (tack : Id) : Bool := r.a ≠ .tack tack && r.b ≠ .tack tack

theorem apartFrom_of_ne {t : Id} (ha : r.a ≠ .tack t) (hb : r.b ≠ .tack t) : apartFrom r t = true := by
  simp only [apartFrom, ha, hb, ne_eq, not_false_eq_true, decide_true, Bool.and_self]

/-- All tacks but one are apart from a route with one end at a tack. -/
theorem apartFrom_of_end {t : Id}
    (h : r.a = .tack t ∧ (∀ s, r.b ≠ .tack s) ∨ r.b = .tack t ∧ ∀ s, r.a ≠ .tack s) (s : Id) :
    apartFrom r s = decide (s ≠ t) := by
  rcases h with ⟨ha, hb⟩ | ⟨hb, ha⟩
  · simp only [apartFrom, ha, hb, ne_eq, Endpoint.tack.injEq, not_false_eq_true, decide_true,
      Bool.and_true, eq_comm]
  · simp only [apartFrom, ha, hb, ne_eq, Endpoint.tack.injEq, not_false_eq_true, decide_true,
      Bool.true_and, eq_comm]

/-- A bus lists the tacks that it listed, and at the end one for the route. -/
theorem WellFormed.tackIds_attach (w : g.WellFormed) {a b : Terminal}
    (h : g.attach a b = .ok (route, g')) (hr : g'.route? route = some r) (bus : Id) :
    (g'.tackIds bus).filter (apartFrom r) = g.tackIds bus := by
  obtain ⟨rfl, ⟨x, y, hx, hy, -, -, rfl⟩ | ⟨bus', x, r', hbus, -, htx, hr', rfl⟩⟩ := attach_eq h
  · rw [route?_joined, if_pos rfl] at hr
    cases hr
    have hlist : (g.joined { a := x, b := y }).tackIds bus = g.tackIds bus := by
      unfold tackIds
      rw [bus?_joined]
    rw [hlist]
    refine List.filter_eq_self.2 fun t _ => apartFrom_of_ne ?_ ?_
    · rintro rfl
      exact endpointClass_of_endpoint? hx rfl
    · rintro rfl
      exact endpointClass_of_endpoint? hy rfl
  · have hpresent : (g.joinedToBus bus' x r').route? g.fresh.1 = some r' :=
      (route?_joined _).trans (if_pos rfl)
    rw [hpresent] at hr
    cases hr
    have hxt : ∀ t, x ≠ .tack t := by
      rintro t rfl
      exact htx rfl
    -- the new tack is the only one at an end of the route
    have hapart := apartFrom_of_end (r := r) (t := g.fresh.2.fresh.1) (by
      rcases hr' with ⟨-, -, rfl⟩ | ⟨-, -, rfl⟩
      · exact Or.inl ⟨rfl, hxt⟩
      · exact Or.inr ⟨rfl, hxt⟩)
    have hold : (g.tackIds bus).filter (apartFrom r) = g.tackIds bus := by
      refine List.filter_eq_self.2 fun t ht => ?_
      rw [hapart, decide_eq_true_eq]
      rintro rfl
      have hfresh : g.tack? g.fresh.2.fresh.1 = none :=
        IdMap.contains_eq_false_iff.1 w.ids.freshTack
      rw [w.tacks.mem_iff, tackOwner?, hfresh] at ht
      cases ht
    rw [tackIds_joinedToBus hbus]
    split
    · have hnew : apartFrom r g.fresh.2.fresh.1 = false := by
        rw [hapart, decide_eq_false_iff_not]
        exact fun h => h rfl
      rw [List.filter_append, hold, List.filter_cons, hnew]
      exact List.append_nil _
    · exact hold

/-! ## Lists when a route goes -/

theorem WellFormed.tackIds_detach_eq (w : g.WellFormed) (hr : g.route? route = some r) (bus : Id) :
    (g.detach route).tackIds bus = (g.tackIds bus).filter (apartFrom r) := by
  have hlist : (g.withoutRoute route r).tackIds bus = g.tackIds bus := by
    unfold tackIds
    rw [bus?_withoutRoute]
  rcases w.detach_eq hr with ⟨ha, hb, he⟩ | ⟨t, k, hk, -, hend, he⟩
  · rw [he, hlist]
    refine (List.filter_eq_self.2 fun t _ => apartFrom_of_ne ?_ ?_).symm
    · exact fun h => ha (by rw [h]; rfl)
    · exact fun h => hb (by rw [h]; rfl)
  · have hapart := apartFrom_of_end (r := r) (t := t) (hend.imp
      (fun h => ⟨h.1, fun s hs => h.2 (by rw [hs]; rfl)⟩)
      fun h => ⟨h.1, fun s hs => h.2 (by rw [hs]; rfl)⟩)
    rw [he, tackIds_withoutTack, hlist]
    split
    · exact List.filter_congr fun s _ => (hapart s).symm
    · -- a bus that is not the owner of the tack does not list it
      rename_i hne
      refine (List.filter_eq_self.2 fun s hs => ?_).symm
      rw [hapart, decide_eq_true_eq]
      rintro rfl
      rw [w.tacks.mem_iff, tackOwner?, hk] at hs
      exact hne (Option.some.inj hs).symm

/-! ## There and back -/

/-- Taking away the route that was just made gives back the graph, but for the ids given out. -/
theorem WellFormed.detach_attach (w : g.WellFormed) {a b : Terminal}
    (h : g.attach a b = .ok (route, g')) (hj : g.Joinable a b) :
    g'.detach route = { g with nextId := g'.nextId } := by
  have w' := w.attach h hj
  obtain ⟨r, hone⟩ := attach_oneMore w.ids h
  have hback : OneMore (g'.detach route) g' route r := w'.detach_oneMore hone.present
  have hthere : OneMore { g with nextId := g'.nextId } g' route r :=
    { rerouted := ⟨hone.rerouted.root, hone.rerouted.nodes, hone.rerouted.pins,
        hone.rerouted.gates⟩
      absent := hone.absent
      present := hone.present
      others := hone.others
      tacks := hone.tacks
      tack_absent := hone.tack_absent
      buses := hone.buses }
  refine hthere.unique hback (w'.nextId_detach route) (fun e => ?_) fun bus => ?_
  · have hfree : (g.routesOf e).filter (· ≠ route) = g.routesOf e := by
      refine List.filter_eq_self.2 fun i hi => ?_
      obtain ⟨x, hx, -⟩ := w.routes.mem_iff.1 hi
      rw [decide_eq_true_eq]
      rintro rfl
      rw [hone.absent] at hx
      cases hx
    rw [w'.routesOf_detach, w.routesOf_attach h hj.ne hone.present]
    split
    · rw [List.filter_append, hfree, List.filter_cons]
      simp only [ne_eq, not_true_eq_false, decide_false, Bool.false_eq_true, ↓reduceIte,
        List.filter_nil, List.append_nil]
      rfl
    · exact hfree
  · rw [w'.tackIds_detach_eq hone.present, w.tackIds_attach h hone.present]
    rfl

end MessageGraph.Graph
