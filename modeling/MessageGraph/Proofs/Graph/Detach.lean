import MessageGraph.Proofs.Graph.Routes

/-!
# Taking a route away

`detach` gives the graph without a route and without the tack at its end, if one end is a tack
(`WellFormed.detach_oneMore`). A graph stays well-formed (`WellFormed.detach`).
-/
namespace MessageGraph.Graph

variable {g g' : Graph}

/-- The graph without a route, which its ends list no more; a tack keeps its own. -/
def withoutRoute (g : Graph) (route : Id) (r : Route) : Graph :=
  { g.relistEnds (·.filter (· ≠ route)) r with routes := g.routes.erase route }

/-- The graph without a tack, which its bus lists no more. -/
def withoutTack (g : Graph) (tack : Id) (k : Tack) : Graph :=
  { g with tacks := g.tacks.erase tack }.modifyBus k.bus fun b =>
    { b with tacks := b.tacks.filter (· ≠ tack) }

theorem detachEnd_of_endpoint {route : Id} {e : Endpoint} (he : e.endpointClass ≠ .tack) :
    g.detachEnd route e = g.relist (·.filter (· ≠ route)) e := by
  cases e with
  | tack t => exact absurd rfl he
  | _ => rfl

theorem detachEnd_tack {route t : Id} {k : Tack} (hk : g.tack? t = some k) :
    g.detachEnd route (.tack t) = g.withoutTack t k := by
  simp only [detachEnd, hk]
  rfl

/-- In a well-formed graph one end of a route at most is a tack, and that tack is there. -/
theorem WellFormed.route_cases (w : g.WellFormed) {route : Id} {r : Route}
    (h : g.route? route = some r) :
    (r.a.endpointClass ≠ .tack ∧ r.b.endpointClass ≠ .tack) ∨
      ∃ t k, g.tack? t = some k ∧ k.route = route ∧
        ((r.a = .tack t ∧ r.b.endpointClass ≠ .tack) ∨
          (r.b = .tack t ∧ r.a.endpointClass ≠ .tack)) := by
  have hd := w.routes.differ h
  have hlive : ∀ t, r.a = .tack t ∨ r.b = .tack t →
      ∃ k, g.tack? t = some k ∧ k.route = route := by
    intro t ht
    have hm : route ∈ g.routesOf (.tack t) := w.routes.mem_iff.2 ⟨r, h, ht⟩
    obtain ⟨k, hk⟩ := IdMap.contains_iff.1 (contains_of_mem_routesOf hm)
    have hk : g.tack? t = some k := hk
    simp only [routesOf, hk, Option.elim_some, List.mem_singleton] at hm
    exact ⟨k, hk, hm.symm⟩
  by_cases ha : r.a.endpointClass = .tack
  · obtain ⟨t, ht⟩ : ∃ t, r.a = .tack t := by
      cases hra : r.a with
      | tack t => exact ⟨t, rfl⟩
      | _ => rw [hra] at ha; cases ha
    obtain ⟨k, hk, hkr⟩ := hlive t (Or.inl ht)
    obtain ⟨far, hfar, hc, -⟩ := w.faced t k hk
    have : far = r.b := by
      rw [across?, hkr, h, Option.bind_some, Route.other?, if_pos ht] at hfar
      exact (Option.some.inj hfar).symm
    subst this
    exact Or.inr ⟨t, k, hk, hkr, Or.inl ⟨ht, hc⟩⟩
  · by_cases hb : r.b.endpointClass = .tack
    · obtain ⟨t, ht⟩ : ∃ t, r.b = .tack t := by
        cases hrb : r.b with
        | tack t => exact ⟨t, rfl⟩
        | _ => rw [hrb] at hb; cases hb
      obtain ⟨k, hk, hkr⟩ := hlive t (Or.inr ht)
      exact Or.inr ⟨t, k, hk, hkr, Or.inr ⟨ht, ha⟩⟩
    · exact Or.inl ⟨ha, hb⟩

/-- What `detach` gives: the graph without the route and without the tack at its end, if one is. -/
theorem WellFormed.detach_eq (w : g.WellFormed) {route : Id} {r : Route}
    (h : g.route? route = some r) :
    (r.a.endpointClass ≠ .tack ∧ r.b.endpointClass ≠ .tack ∧
        g.detach route = g.withoutRoute route r) ∨
      ∃ t k, g.tack? t = some k ∧ k.route = route ∧
        ((r.a = .tack t ∧ r.b.endpointClass ≠ .tack) ∨
          (r.b = .tack t ∧ r.a.endpointClass ≠ .tack)) ∧
        g.detach route = (g.withoutRoute route r).withoutTack t k := by
  have hdetach : g.detach route =
      ({ g with routes := g.routes.erase route }.detachEnd route r.a).detachEnd route r.b := by
    simp only [detach, h]
  obtain ⟨x, y, wire⟩ := r
  rcases w.route_cases h with ⟨ha, hb⟩ | ⟨t, k, hk, hkr, ⟨rfl, hb⟩ | ⟨rfl, ha⟩⟩
  · refine Or.inl ⟨ha, hb, ?_⟩
    rw [hdetach, detachEnd_of_endpoint ha, detachEnd_of_endpoint hb]
    cases x <;> cases y <;> rfl
  · refine Or.inr ⟨t, k, hk, hkr, Or.inl ⟨rfl, hb⟩, ?_⟩
    have hk' : ({ g with routes := g.routes.erase route } : Graph).tack? t = some k := hk
    rw [hdetach, detachEnd_tack hk', detachEnd_of_endpoint hb]
    cases y <;> rfl
  · refine Or.inr ⟨t, k, hk, hkr, Or.inr ⟨rfl, ha⟩, ?_⟩
    have hk' : (({ g with routes := g.routes.erase route } : Graph).relist
        (·.filter (· ≠ route)) x).tack? t = some k := by
      unfold tack?
      rw [relist_tacks]
      exact hk
    rw [hdetach, detachEnd_of_endpoint ha, detachEnd_tack hk']
    cases x <;> rfl

section Detached

variable {route t : Id} {r : Route} {k : Tack}

theorem withoutRoute_rerouted (g : Graph) (route : Id) (r : Route) :
    Rerouted g (g.withoutRoute route r) :=
  have h := relistEnds_rerouted g (·.filter (· ≠ route)) r
  ⟨h.root, h.nodes, h.pins, h.gates⟩

theorem tack?_withoutRoute (i : Id) : (g.withoutRoute route r).tack? i = g.tack? i :=
  congrArg (fun m : IdMap Tack => m.get? i) relistEnds_tacks

theorem bus?_withoutRoute (i : Id) : (g.withoutRoute route r).bus? i = g.bus? i :=
  congrArg (fun m : IdMap Bus => m.get? i) relistEnds_buses

theorem route?_withoutRoute (i : Id) :
    (g.withoutRoute route r).route? i = if i = route then none else g.route? i :=
  IdMap.get?_erase _ _ _

theorem tack?_withoutTack (i : Id) :
    (g.withoutTack t k).tack? i = if i = t then none else g.tack? i :=
  IdMap.get?_erase _ _ _

theorem bus?_withoutTack (i : Id) :
    ((g.withoutTack t k).bus? i).map Bus.untacked = (g.bus? i).map Bus.untacked :=
  IdMap.map_get?_modify (by intro b; rfl)

theorem tackIds_withoutTack (i : Id) :
    (g.withoutTack t k).tackIds i =
      if i = k.bus then (g.tackIds i).filter (· ≠ t) else g.tackIds i := by
  show ((g.buses.modify k.bus _).get? i).elim [] _ = _
  rw [IdMap.get?_modify]
  unfold tackIds bus?
  split <;> cases g.buses.get? i <;> rfl

end Detached

theorem WellFormed.detach_oneMore (w : g.WellFormed) {route : Id} {r : Route}
    (h : g.route? route = some r) : OneMore (g.detach route) g route r := by
  rcases w.detach_eq h with ⟨ha, hb, he⟩ | ⟨t, k, hk, -, hend, he⟩
  · rw [he]
    exact
      { rerouted := (withoutRoute_rerouted g route r).symm
        absent := by rw [route?_withoutRoute, if_pos rfl]
        present := h
        others := by intro i hi; rw [route?_withoutRoute, if_neg hi]
        tacks := fun t _ _ => (tack?_withoutRoute t).symm
        tack_absent := by
          rintro t (ht | ht)
          · rw [ht] at ha; exact absurd rfl ha
          · rw [ht] at hb; exact absurd rfl hb
        buses := by intro i; rw [bus?_withoutRoute] }
  · have hre := withoutRoute_rerouted g route r
    rw [he]
    exact
      { rerouted := Rerouted.symm ⟨hre.root, hre.nodes, hre.pins, hre.gates⟩
        absent := (route?_withoutRoute (r := r) _).trans (if_pos rfl)
        present := h
        others := fun i hi => ((route?_withoutRoute (r := r) i).trans (if_neg hi)).symm
        tacks := by
          intro s ha hb
          rw [tack?_withoutTack, if_neg, tack?_withoutRoute]
          rintro rfl
          rcases hend with ⟨h, -⟩ | ⟨h, -⟩
          · exact ha h
          · exact hb h
        tack_absent := by
          intro s hs
          have : s = t := by
            rcases hend with ⟨h, hc⟩ | ⟨h, hc⟩ <;> rcases hs with hs | hs
            · exact Endpoint.tack.inj (hs.symm.trans h)
            · rw [hs] at hc; exact absurd rfl hc
            · rw [hs] at hc; exact absurd rfl hc
            · exact Endpoint.tack.inj (hs.symm.trans h)
          rw [tack?_withoutTack, if_pos this]
        buses := by intro i; rw [bus?_withoutTack, bus?_withoutRoute] }

/-! ## Well-formedness -/

theorem has_withoutRoute {route : Id} {r : Route} {k : EntityKind} {i : Id}
    (h : (g.withoutRoute route r).has k i = true) : g.has k i = true := by
  have hre := withoutRoute_rerouted g route r
  cases k with
  | node => simpa [has, hre.nodes] using h
  | pin => simpa [has, hre.contains_pin] using h
  | gate => simpa [has, hre.contains_gate] using h
  | bus => simpa [has, withoutRoute, relistEnds_buses] using h
  | tack => simpa [has, withoutRoute, relistEnds_tacks] using h
  | route => exact (IdMap.contains_erase.1 h).2

theorem has_withoutTack {t : Id} {k : Tack} {kind : EntityKind} {i : Id}
    (h : (g.withoutTack t k).has kind i = true) : g.has kind i = true := by
  cases kind with
  | bus => simpa [has, withoutTack, modifyBus, IdMap.contains_modify] using h
  | tack => exact (IdMap.contains_erase.1 h).2
  | _ => exact h

theorem nextId_withoutRoute {route : Id} {r : Route} :
    (g.withoutRoute route r).nextId = g.nextId :=
  (relist_nextId r.b).trans (relist_nextId r.a)

theorem WellFormed.nextId_detach (w : g.WellFormed) (route : Id) :
    (g.detach route).nextId = g.nextId := by
  cases h : g.route? route with
  | none => simp only [Graph.detach, h]
  | some r =>
    rcases w.detach_eq h with ⟨-, -, he⟩ | ⟨t, k, -, -, -, he⟩
    · rw [he, nextId_withoutRoute]
    · rw [he]
      exact nextId_withoutRoute

/-- A graph that has fewer entities and has come as far in the sequence of ids keeps them apart. -/
theorem IdsApart.of_has (w : g.IdsApart) (hnext : g'.nextId = g.nextId)
    (h : ∀ {k i}, g'.has k i = true → g.has k i = true) : g'.IdsApart where
  below := by intro k i hk; rw [hnext]; exact w.below (h hk)
  one_kind hk hk' := w.one_kind (h hk) (h hk')

/-- A route that is taken off every list it is on leaves the others as they were. -/
theorem RoutesListed.remove (w : g.RoutesListed) {route : Id}
    (hroute : ∀ i, g'.route? i = if i = route then none else g.route? i)
    (hlist : ∀ e, g'.routesOf e = (g.routesOf e).filter (· ≠ route)) : g'.RoutesListed where
  mem_iff := by
    intro e i
    rw [hlist, List.mem_filter, w.mem_iff]
    unfold Ends
    rw [hroute]
    by_cases hi : i = route <;> simp [hi]
  nodup e := by rw [hlist]; exact (w.nodup e).filter _
  differ := by
    intro i x hx
    rw [hroute] at hx
    split at hx
    · cases hx
    · exact w.differ hx

/-- Nothing is lost where a route that is not listed is taken off. -/
theorem RoutesListed.filter_routesOf (w : g.RoutesListed) {route : Id} {r : Route}
    (h : g.route? route = some r) {e : Endpoint} (he : ¬ (r.a = e ∨ r.b = e)) :
    (g.routesOf e).filter (· ≠ route) = g.routesOf e := by
  refine List.filter_eq_self.2 fun i hi => ?_
  simp only [ne_eq, decide_eq_true_eq]
  rintro rfl
  obtain ⟨x, hx, hend⟩ := w.mem_iff.1 hi
  rw [h] at hx
  cases hx
  exact he hend

theorem WellFormed.routesOf_withoutRoute (w : g.WellFormed) {route : Id} {r : Route}
    (h : g.route? route = some r) {e : Endpoint} (he : e.endpointClass ≠ .tack) :
    (g.withoutRoute route r).routesOf e = (g.routesOf e).filter (· ≠ route) := by
  have hlive : ∀ x, r.a = x ∨ r.b = x → g.contains x = true := fun x hx =>
    w.contains_of_ends ⟨r, h, hx⟩
  have hlist : (g.withoutRoute route r).routesOf e = _ :=
    routesOf_relistEnds (f := (·.filter (· ≠ route))) (w.routes.differ h)
      (fun _ => hlive _ (Or.inl rfl)) (fun _ => hlive _ (Or.inr rfl)) e
  rw [hlist]
  split
  · rfl
  · rename_i hn
    exact (w.routes.filter_routesOf h fun hend => hn ⟨hend, he⟩).symm

/-- Where no end is a tack, a route goes from the lists of endpoints alone. -/
theorem WellFormed.routesOf_withoutRoute_of_ends (w : g.WellFormed) {route : Id} {r : Route}
    (h : g.route? route = some r) (ha : r.a.endpointClass ≠ .tack)
    (hb : r.b.endpointClass ≠ .tack) (e : Endpoint) :
    (g.withoutRoute route r).routesOf e = (g.routesOf e).filter (· ≠ route) := by
  by_cases he : e.endpointClass = .tack
  · rw [w.routes.filter_routesOf h]
    · cases e with
      | tack t => simp only [routesOf, tack?_withoutRoute]
      | _ => cases he
    · rintro (rfl | rfl)
      · exact ha he
      · exact hb he
  · exact w.routesOf_withoutRoute h he

theorem WellFormed.withoutRoute (w : g.WellFormed) {route : Id} {r : Route}
    (h : g.route? route = some r) (ha : r.a.endpointClass ≠ .tack)
    (hb : r.b.endpointClass ≠ .tack) (hone : OneMore (g.withoutRoute route r) g route r) :
    (g.withoutRoute route r).WellFormed := by
  have hre := withoutRoute_rerouted g route r
  refine
    { ids := w.ids.of_has nextId_withoutRoute has_withoutRoute
      tree := hre.isTree w.tree
      pins := hre.pins_owned w.pins
      gates := hre.gates_owned w.gates
      buses := hre.buses_owned (fun i => (hone.buses i).symm) w.buses
      tacks := w.tacks.congr (by intro t; unfold tackOwner?; rw [tack?_withoutRoute])
        (by intro b; unfold tackIds; rw [bus?_withoutRoute])
      routes := w.routes.remove route?_withoutRoute (w.routesOf_withoutRoute_of_ends h ha hb)
      faced := ?_
      names := hre.namesApart w.names
      opposed := hone.opposed_small w }
  intro t k hk
  have hk' := hk
  rw [tack?_withoutRoute] at hk'
  exact hone.faces_small hk (w.faced _ _ hk')

/-- A bus that is not the owner of the tack does not list it. -/
theorem WellFormed.mem_tackIds_withoutTack (w : g.WellFormed) {route t b i : Id} {r : Route}
    {k : Tack} (hk : g.tack? t = some k) :
    i ∈ ((g.withoutRoute route r).withoutTack t k).tackIds b ↔
      i ∈ g.tackIds b ∧ (i != t) = true := by
  have hb : (g.withoutRoute route r).tackIds b = g.tackIds b := by
    unfold tackIds; rw [bus?_withoutRoute]
  rw [tackIds_withoutTack, hb]
  split
  · simp
  · rename_i hne
    simp only [bne_iff_ne, ne_eq, iff_self_and]
    rintro hi rfl
    rw [w.tacks.mem_iff, tackOwner?, hk] at hi
    exact hne (Option.some.inj hi).symm

theorem WellFormed.routesOf_withoutTack (w : g.WellFormed) {route t : Id} {r : Route} {k : Tack}
    (h : g.route? route = some r) (hk : g.tack? t = some k) (hkr : k.route = route)
    (hend : (r.a = .tack t ∧ r.b.endpointClass ≠ .tack) ∨
      (r.b = .tack t ∧ r.a.endpointClass ≠ .tack)) (e : Endpoint) :
    ((g.withoutRoute route r).withoutTack t k).routesOf e =
      (g.routesOf e).filter (· ≠ route) := by
  by_cases he : e.endpointClass = .tack
  · cases e with
    | tack s =>
      simp only [routesOf, tack?_withoutTack, tack?_withoutRoute]
      by_cases hs : s = t
      · subst hs; simp [hk, hkr]
      · rw [if_neg hs]
        refine (w.routes.filter_routesOf h (e := .tack s) ?_).symm
        rcases hend with ⟨ha, hb⟩ | ⟨hb, ha⟩ <;> rintro (h | h)
        · exact hs (Endpoint.tack.inj (h.symm.trans ha))
        · rw [h] at hb; exact hb rfl
        · rw [h] at ha; exact ha rfl
        · exact hs (Endpoint.tack.inj (h.symm.trans hb))
    | _ => cases he
  · rw [← w.routesOf_withoutRoute h he]
    cases e with
    | tack s => exact absurd rfl he
    | _ => rfl

theorem WellFormed.withoutTack (w : g.WellFormed) {route t : Id} {r : Route} {k : Tack}
    (h : g.route? route = some r) (hk : g.tack? t = some k) (hkr : k.route = route)
    (hend : (r.a = .tack t ∧ r.b.endpointClass ≠ .tack) ∨
      (r.b = .tack t ∧ r.a.endpointClass ≠ .tack))
    (hone : OneMore ((g.withoutRoute route r).withoutTack t k) g route r) :
    ((g.withoutRoute route r).withoutTack t k).WellFormed := by
  have hre := hone.rerouted.symm
  refine
    { ids := w.ids.of_has nextId_withoutRoute fun hi => has_withoutRoute (has_withoutTack hi)
      tree := hre.isTree w.tree
      pins := hre.pins_owned w.pins
      gates := hre.gates_owned w.gates
      buses := hre.buses_owned (fun i => (hone.buses i).symm) w.buses
      tacks := w.tacks.restrict (· != t) (fun i => ?_) (fun _ _ => w.mem_tackIds_withoutTack hk)
        fun b => ?_
      routes := w.routes.remove (fun i => route?_withoutRoute (r := r) i)
        (w.routesOf_withoutTack h hk hkr hend)
      faced := ?_
      names := hre.namesApart w.names
      opposed := hone.opposed_small w }
  · unfold tackOwner?
    rw [tack?_withoutTack, tack?_withoutRoute]
    by_cases hi : i = t <;> simp [hi]
  · rw [tackIds_withoutTack]
    unfold tackIds
    rw [bus?_withoutRoute]
    split
    · exact List.filter_sublist
    · exact List.Sublist.refl _
  · intro s l hl
    have hl' := hl
    rw [tack?_withoutTack, tack?_withoutRoute] at hl'
    split at hl'
    · cases hl'
    · exact hone.faces_small hl (w.faced _ _ hl')

theorem WellFormed.routesOf_detach (w : g.WellFormed) (route : Id) (e : Endpoint) :
    (g.detach route).routesOf e = (g.routesOf e).filter (· ≠ route) := by
  cases h : g.route? route with
  | none =>
    have hd : g.detach route = g := by simp only [Graph.detach, h]
    rw [hd]
    refine (List.filter_eq_self.2 fun i hi => ?_).symm
    obtain ⟨r, hr, -⟩ := w.routes.mem_iff.1 hi
    rw [decide_eq_true_eq]
    rintro rfl
    rw [h] at hr
    cases hr
  | some r =>
    rcases w.detach_eq h with ⟨ha, hb, he⟩ | ⟨t, k, hk, hkr, hend, he⟩
    · rw [he]
      exact w.routesOf_withoutRoute_of_ends h ha hb e
    · rw [he]
      exact w.routesOf_withoutTack h hk hkr hend e

theorem WellFormed.tackIds_detach (w : g.WellFormed) (route bus : Id) :
    ((g.detach route).tackIds bus).Sublist (g.tackIds bus) := by
  cases h : g.route? route with
  | none =>
    have hd : g.detach route = g := by simp only [Graph.detach, h]
    simp only [hd, List.Sublist.refl]
  | some r =>
    have hb : (g.withoutRoute route r).tackIds bus = g.tackIds bus := by
      unfold tackIds
      rw [bus?_withoutRoute]
    rcases w.detach_eq h with ⟨-, -, he⟩ | ⟨t, k, -, -, -, he⟩
    · simp only [he, hb, List.Sublist.refl]
    · rw [he, tackIds_withoutTack, hb]
      split
      · exact List.filter_sublist
      · exact List.Sublist.refl _

/-- Removing a route keeps a graph well-formed. -/
theorem WellFormed.detach (w : g.WellFormed) {route : Id} : (g.detach route).WellFormed := by
  cases h : g.route? route with
  | none => simpa only [Graph.detach, h] using w
  | some r =>
    have hone := w.detach_oneMore h
    rcases w.detach_eq h with ⟨ha, hb, he⟩ | ⟨t, k, hk, hkr, hend, he⟩
    · rw [he] at hone ⊢
      exact w.withoutRoute h ha hb hone
    · rw [he] at hone ⊢
      exact w.withoutTack h hk hkr hend hone

end MessageGraph.Graph
