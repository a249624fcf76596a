import MessageGraph.Proofs.Graph.Add
import MessageGraph.Proofs.Graph.Alike
import MessageGraph.Graph.Route

/-!
# A graph with a route and the graph without it

Joining and parting change the lists of routes at two endpoints, the map of routes and, where an end is
at a bus, one tack.

* `Rerouted`: two graphs have the same nodes, pins and gates, up to the lists of routes;
* `OneMore small big`: `big` is `small` with one more route;
* `relist`, `relistEnds`: what is done to the lists.
-/
namespace MessageGraph

def Pin.unrouted (p : Pin) : Pin := { p with routes := [] }

def Gate.unrouted (p : Gate) : Gate := { p with padRoutes := [], proxyRoutes := [] }

def Bus.untacked (b : Bus) : Bus := { b with tacks := [] }

namespace Graph

variable {g g' : Graph}

/-! ## Changing lists of routes -/

/-- The same nodes, pins and gates, up to the lists of routes. -/
structure Rerouted (g g' : Graph) : Prop where
  root : g'.root = g.root
  nodes : g'.nodes = g.nodes
  pins : ∀ i, (g'.pin? i).map Pin.unrouted = (g.pin? i).map Pin.unrouted
  gates : ∀ i, (g'.gate? i).map Gate.unrouted = (g.gate? i).map Gate.unrouted

/-- Changes the routes listed at an endpoint; a tack keeps its one route. -/
def relist (g : Graph) (f : List Id → List Id) : Endpoint → Graph
  | .pin id => g.modifyPin id fun p => { p with routes := f p.routes }
  | .proxy id => g.modifyGate id fun p => { p with proxyRoutes := f p.proxyRoutes }
  | .pad id => g.modifyGate id fun p => { p with padRoutes := f p.padRoutes }
  | .tack _ => g

/-- Changes the routes listed at both ends of a route. -/
def relistEnds (g : Graph) (f : List Id → List Id) (r : Route) : Graph :=
  (g.relist f r.a).relist f r.b

section Relist

variable {f : List Id → List Id}

theorem relist_rerouted (g : Graph) (f : List Id → List Id) (e : Endpoint) :
    Rerouted g (g.relist f e) := by
  cases e with
  | pin id => exact ⟨rfl, rfl, fun _ => IdMap.map_get?_modify fun _ => rfl, fun _ => rfl⟩
  | proxy id => exact ⟨rfl, rfl, fun _ => rfl, fun _ => IdMap.map_get?_modify fun _ => rfl⟩
  | pad id => exact ⟨rfl, rfl, fun _ => rfl, fun _ => IdMap.map_get?_modify fun _ => rfl⟩
  | tack id => exact ⟨rfl, rfl, fun _ => rfl, fun _ => rfl⟩

theorem relist_buses (e : Endpoint) : (g.relist f e).buses = g.buses := by cases e <;> rfl
theorem relist_tacks (e : Endpoint) : (g.relist f e).tacks = g.tacks := by cases e <;> rfl
theorem relist_nextId (e : Endpoint) : (g.relist f e).nextId = g.nextId := by cases e <;> rfl

theorem routesOf_relist_ne {e x : Endpoint} (h : e ≠ x) :
    (g.relist f x).routesOf e = g.routesOf e := by
  cases x with
  | pin i =>
    cases e with
    | pin j =>
      have hj : j ≠ i := fun he => h (by rw [he])
      show ((g.pins.modify i _).get? j).elim [] _ = _
      rw [IdMap.get?_modify, if_neg hj]; rfl
    | _ => rfl
  | proxy i =>
    cases e with
    | proxy j =>
      have hj : j ≠ i := fun he => h (by rw [he])
      show ((g.gates.modify i _).get? j).elim [] _ = _
      rw [IdMap.get?_modify, if_neg hj]; rfl
    | pad j => exact IdMap.elim_get?_modify fun _ => rfl
    | _ => rfl
  | pad i =>
    cases e with
    | pad j =>
      have hj : j ≠ i := fun he => h (by rw [he])
      show ((g.gates.modify i _).get? j).elim [] _ = _
      rw [IdMap.get?_modify, if_neg hj]; rfl
    | proxy j => exact IdMap.elim_get?_modify fun _ => rfl
    | _ => rfl
  | tack i => rfl

theorem routesOf_relist_self {x : Endpoint} (hx : g.contains x = true)
    (ht : x.endpointClass ≠ .tack) : (g.relist f x).routesOf x = f (g.routesOf x) := by
  cases x with
  | pin i =>
    obtain ⟨p, hp⟩ := IdMap.contains_iff.1 hx
    show ((g.pins.modify i _).get? i).elim [] _ = f ((g.pins.get? i).elim [] _)
    rw [IdMap.get?_modify, if_pos rfl, hp]; rfl
  | proxy i =>
    obtain ⟨p, hp⟩ := IdMap.contains_iff.1 hx
    show ((g.gates.modify i _).get? i).elim [] _ = f ((g.gates.get? i).elim [] _)
    rw [IdMap.get?_modify, if_pos rfl, hp]; rfl
  | pad i =>
    obtain ⟨p, hp⟩ := IdMap.contains_iff.1 hx
    show ((g.gates.modify i _).get? i).elim [] _ = f ((g.gates.get? i).elim [] _)
    rw [IdMap.get?_modify, if_pos rfl, hp]; rfl
  | tack i => exact absurd rfl ht

end Relist

namespace Rerouted

theorem trans {g₁ g₂ g₃ : Graph} (h : Rerouted g₁ g₂) (k : Rerouted g₂ g₃) : Rerouted g₁ g₃ where
  root := k.root.trans h.root
  nodes := k.nodes.trans h.nodes
  pins i := (k.pins i).trans (h.pins i)
  gates i := (k.gates i).trans (h.gates i)

theorem pinOwner?_eq (h : Rerouted g g') (i : Id) : g'.pinOwner? i = g.pinOwner? i :=
  view_eq (fun o : Option Pin => o.map Pin.node) (h.pins i) fun _ => rfl

theorem gateOwner?_eq (h : Rerouted g g') (i : Id) : g'.gateOwner? i = g.gateOwner? i :=
  view_eq (fun o : Option Gate => o.map Gate.group) (h.gates i) fun _ => rfl

theorem direction?_eq (h : Rerouted g g') {e : Endpoint}
    (ht : ∀ t, e = .tack t → g'.tack? t = g.tack? t) : g'.direction? e = g.direction? e := by
  cases e with
  | pin i => exact view_eq (fun o : Option Pin => o.map (·.direction)) (h.pins i) fun _ => rfl
  | proxy i =>
    exact view_eq (fun o : Option Gate => o.map (·.direction.opposite)) (h.gates i) fun _ => rfl
  | pad i => exact view_eq (fun o : Option Gate => o.map (·.direction)) (h.gates i) fun _ => rfl
  | tack i => simp only [direction?, ht i rfl]

theorem name?_eq (h : Rerouted g g') {e : Endpoint}
    (ht : ∀ t, e = .tack t → g'.tack? t = g.tack? t) : g'.name? e = g.name? e := by
  cases e with
  | pin i => exact view_eq (fun o : Option Pin => o.map (·.name)) (h.pins i) fun _ => rfl
  | proxy i => exact view_eq (fun o : Option Gate => o.map (·.name)) (h.gates i) fun _ => rfl
  | pad i => exact view_eq (fun o : Option Gate => o.map (·.name)) (h.gates i) fun _ => rfl
  | tack i => simp only [name?, ht i rfl]

theorem channel?_eq (h : Rerouted g g') (e : Endpoint) : g'.channel? e = g.channel? e := by
  cases e with
  | pin i => exact view_eq (fun o : Option Pin => o.map (·.channel)) (h.pins i) fun _ => rfl
  | proxy i => exact view_eq (fun o : Option Gate => o.map (·.channel)) (h.gates i) fun _ => rfl
  | pad i => exact view_eq (fun o : Option Gate => o.map (·.channel)) (h.gates i) fun _ => rfl
  | tack i => rfl

theorem contains_pin (h : Rerouted g g') (i : Id) : g'.pins.contains i = g.pins.contains i :=
  view_eq Option.isSome (h.pins i) fun _ => rfl

theorem contains_gate (h : Rerouted g g') (i : Id) : g'.gates.contains i = g.gates.contains i :=
  view_eq Option.isSome (h.gates i) fun _ => rfl

theorem isTree (h : Rerouted g g') (w : g.IsTree) : g'.IsTree :=
  w.congr h.root (by intro n; unfold group? node?; rw [h.nodes])
    (by intro n; unfold parent? node?; rw [h.nodes])
    (by intro n; unfold childIds group? node?; rw [h.nodes]) (by intro n; rw [h.nodes])

theorem pins_owned (h : Rerouted g g') (w : Owned g.pinOwner? g.pinIds) :
    Owned g'.pinOwner? g'.pinIds :=
  w.congr h.pinOwner?_eq (by intro n; unfold pinIds source? node?; rw [h.nodes])

theorem gates_owned (h : Rerouted g g') (w : Owned g.gateOwner? g.gateIds) :
    Owned g'.gateOwner? g'.gateIds :=
  w.congr h.gateOwner?_eq (by intro n; unfold gateIds group? node?; rw [h.nodes])

theorem buses_owned (h : Rerouted g g')
    (hb : ∀ i, (g'.bus? i).map Bus.untacked = (g.bus? i).map Bus.untacked)
    (w : Owned g.busOwner? g.busIds) : Owned g'.busOwner? g'.busIds :=
  w.congr (fun i => view_eq (fun o : Option Bus => o.map Bus.group) (hb i) fun _ => rfl)
    (by intro n; unfold busIds group? node?; rw [h.nodes])

theorem symm (h : Rerouted g g') : Rerouted g' g :=
  ⟨h.root.symm, h.nodes.symm, fun i => (h.pins i).symm, fun i => (h.gates i).symm⟩

theorem namesApart (h : Rerouted g g') (w : g.NamesApart) : g'.NamesApart :=
  w.congr
    (fun i => view_eq (fun o : Option Pin => o.map fun p => (p.node, p.name, p.direction)) (h.pins i)
      fun _ => rfl)
    fun i => view_eq (fun o : Option Gate => o.map fun p => (p.group, p.name)) (h.gates i)
      fun _ => rfl

theorem tackFacing_eq (h : Rerouted g g') (bus route : Id) {e : Endpoint}
    (he : e.endpointClass ≠ .tack) :
    g'.tackFacing bus route (some e) = g.tackFacing bus route (some e) := by
  have ht : ∀ t, e = .tack t → g'.tack? t = g.tack? t := by
    rintro t rfl
    exact absurd rfl he
  simp only [tackFacing, Option.bind_some, h.direction?_eq ht, h.name?_eq ht]

theorem contains_eq (h : Rerouted g g') {e : Endpoint} (he : e.endpointClass ≠ .tack) :
    g'.contains e = g.contains e := by
  rw [contains_eq_isSome_name, contains_eq_isSome_name, h.name?_eq]
  rintro t rfl
  exact absurd rfl he

end Rerouted

section Relist

variable {f : List Id → List Id} {r : Route}

theorem relistEnds_rerouted (g : Graph) (f : List Id → List Id) (r : Route) :
    Rerouted g (g.relistEnds f r) :=
  (relist_rerouted g f r.a).trans (relist_rerouted _ f r.b)

theorem relistEnds_buses : (g.relistEnds f r).buses = g.buses :=
  (relist_buses r.b).trans (relist_buses r.a)

theorem relistEnds_tacks : (g.relistEnds f r).tacks = g.tacks :=
  (relist_tacks r.b).trans (relist_tacks r.a)

theorem routesOf_relist {x e : Endpoint} (hx : x.endpointClass ≠ .tack → g.contains x = true) :
    (g.relist f x).routesOf e =
      if x = e ∧ e.endpointClass ≠ .tack then f (g.routesOf e) else g.routesOf e := by
  by_cases he : x = e
  · subst he
    by_cases ht : x.endpointClass = .tack
    · rw [if_neg (fun h => h.2 ht)]
      cases x with
      | tack t => rfl
      | _ => cases ht
    · rw [if_pos ⟨rfl, ht⟩, routesOf_relist_self (hx ht) ht]
  · rw [if_neg (fun h => he h.1), routesOf_relist_ne (Ne.symm he)]

theorem routesOf_relistEnds (hd : r.a ≠ r.b)
    (ha : r.a.endpointClass ≠ .tack → g.contains r.a = true)
    (hb : r.b.endpointClass ≠ .tack → g.contains r.b = true) (e : Endpoint) :
    (g.relistEnds f r).routesOf e =
      if (r.a = e ∨ r.b = e) ∧ e.endpointClass ≠ .tack then f (g.routesOf e)
      else g.routesOf e := by
  have hb' : r.b.endpointClass ≠ .tack → (g.relist f r.a).contains r.b = true := by
    intro h
    rw [(relist_rerouted g f r.a).contains_eq h]
    exact hb h
  unfold relistEnds
  rw [routesOf_relist hb', routesOf_relist ha]
  by_cases ht : e.endpointClass = .tack
  · simp [ht]
  · by_cases hbe : r.b = e
    · have hae : r.a ≠ e := fun h => hd (h.trans hbe.symm)
      simp [ht, hbe, hae]
    · simp [ht, hbe]

end Relist

/-! ## The graph with a route and the graph without it -/

/-- `big` is `small` with one more route and, where the route ends at a bus, one more tack. -/
structure OneMore (small big : Graph) (route : Id) (r : Route) : Prop where
  rerouted : Rerouted small big
  absent : small.route? route = none
  present : big.route? route = some r
  others : ∀ i, i ≠ route → big.route? i = small.route? i
  tacks : ∀ t, r.a ≠ .tack t → r.b ≠ .tack t → big.tack? t = small.tack? t
  tack_absent : ∀ t, r.a = .tack t ∨ r.b = .tack t → small.tack? t = none
  buses : ∀ i, (big.bus? i).map Bus.untacked = (small.bus? i).map Bus.untacked

/-- A tack that was there before keeps facing the other end of its route. -/
theorem OneMore.faces_big {small big : Graph} {route : Id} {r : Route}
    (h : OneMore small big route r) {t : Id} {k : Tack} (hk' : big.tack? t = some k)
    (w : small.Faces t k) : big.Faces t k := by
  refine w.congr hk' ?_ (fun e he _ => h.rerouted.direction?_eq ?_)
    fun e he _ => h.rerouted.name?_eq ?_
  · obtain ⟨far, ha, -⟩ := w
    obtain ⟨x, hx, -⟩ := Option.bind_eq_some_iff.1 ha
    have hne : k.route ≠ route := by
      intro he
      rw [he, h.absent] at hx
      cases hx
    simp only [across?, h.others _ hne]
  · rintro t rfl; exact absurd rfl he
  · rintro t rfl; exact absurd rfl he

/-- A tack that stays when a route goes keeps facing the other end of its own. -/
theorem OneMore.faces_small {small big : Graph} {route : Id} {r : Route}
    (h : OneMore small big route r) {t : Id} {k : Tack} (hk : small.tack? t = some k)
    (w : big.Faces t k) : small.Faces t k := by
  refine w.congr hk ?_ (fun e he _ => h.rerouted.symm.direction?_eq ?_)
    fun e he _ => h.rerouted.symm.name?_eq ?_
  · obtain ⟨far, ha, -⟩ := w
    have hne : k.route ≠ route := by
      intro he
      rw [he, across?, h.present] at ha
      have hend : r.a = .tack t ∨ r.b = .tack t := by
        simp only [Option.bind_some, Route.other?] at ha
        split at ha
        · rename_i h₁; exact Or.inl h₁
        · split at ha
          · rename_i h₂; exact Or.inr h₂
          · cases ha
      rw [h.tack_absent t hend] at hk
      cases hk
    simp only [across?, h.others _ hne]
  · rintro t rfl; exact absurd rfl he
  · rintro t rfl; exact absurd rfl he

/-- A tack that is there without the route is the same with it. -/
theorem OneMore.tack?_eq {small big : Graph} {route : Id} {r : Route}
    (h : OneMore small big route r) {t : Id} (ht : small.tacks.contains t = true) :
    big.tack? t = small.tack? t := by
  obtain ⟨k, hk⟩ := IdMap.contains_iff.1 ht
  have hk : small.tack? t = some k := hk
  refine h.tacks t (fun ha => ?_) fun hb => ?_
  · rw [h.tack_absent t (Or.inl ha)] at hk; cases hk
  · rw [h.tack_absent t (Or.inr hb)] at hk; cases hk

theorem OneMore.direction?_eq {small big : Graph} {route : Id} {r : Route}
    (h : OneMore small big route r) {e : Endpoint} (he : small.contains e = true) :
    big.direction? e = small.direction? e := by
  refine h.rerouted.direction?_eq fun t ht => ?_
  subst ht
  exact h.tack?_eq he

/-- A gate is of the same group and direction on both sides. -/
theorem Rerouted.gate?_eq_some (h : Rerouted g g') {i : Id} {p' : Gate} (hp : g'.gate? i = some p') :
    ∃ p, g.gate? i = some p ∧ p.group = p'.group ∧ p.direction = p'.direction := by
  obtain ⟨p, hp, hb⟩ := Alike.some_of_map_eq (h.gates i) hp
  have hg : p'.unrouted.group = p.unrouted.group := by rw [hb]
  have hd : p'.unrouted.direction = p.unrouted.direction := by rw [hb]
  exact ⟨p, hp, hg.symm, hd.symm⟩

theorem OneMore.opposed_big {small big : Graph} {route : Id} {r : Route}
    (h : OneMore small big route r) (w : small.WellFormed)
    (hnew : ∀ gate p far, small.gate? gate = some p → p.group = small.root →
      r.other? (.pad gate) = some far → big.direction? far = some p.direction.opposite) :
    big.TopOpposed := by
  intro gate p' i far hp' htop hfar
  obtain ⟨p, hp, hg, hd⟩ := h.rerouted.gate?_eq_some hp'
  have htop' : p.group = small.root := by rw [hg, htop, h.rerouted.root]
  rw [← hd]
  by_cases hi : i = route
  · subst hi
    rw [across?, h.present, Option.bind_some] at hfar
    exact hnew gate p far hp htop' hfar
  · have hfar' : small.across? (.pad gate) i = some far := by
      simpa only [across?, h.others i hi] using hfar
    rw [h.direction?_eq (w.contains_of_across? hfar').2]
    exact w.opposed gate p i far hp htop' hfar'

theorem OneMore.opposed_small {small big : Graph} {route : Id} {r : Route}
    (h : OneMore small big route r) (w : big.WellFormed) : small.TopOpposed := by
  refine w.opposed.congr h.rerouted.root.symm fun gate p' i far hp' _ hfar => ?_
  have hi : i ≠ route := by
    intro hi
    rw [hi, across?, h.absent] at hfar
    cases hfar
  have hfar' : big.across? (.pad gate) i = some far := by
    simpa only [across?, h.others i hi] using hfar
  refine ⟨hfar', h.rerouted.symm.direction?_eq fun t ht => ?_, h.rerouted.symm.gate?_eq_some hp'⟩
  -- a tack has one route, so the other end of one that stays is no end of the one that goes
  subst ht
  have hone : ∀ j, big.Ends j (.tack t) → j = i := by
    intro j hj
    have hj' := w.routes.mem_iff.2 hj
    have hi' := w.routes.mem_iff.2 (ends_of_across? hfar').2
    simp only [routesOf] at hi' hj'
    cases hk : big.tack? t with
    | none => rw [hk] at hi'; cases hi'
    | some k =>
      rw [hk] at hi' hj'
      exact (List.mem_singleton.1 hj').trans (List.mem_singleton.1 hi').symm
  refine (h.tacks t (fun ha => ?_) fun hb => ?_).symm
  · exact hi (hone route ⟨r, h.present, Or.inl ha⟩).symm
  · exact hi (hone route ⟨r, h.present, Or.inr hb⟩).symm

end Graph
end MessageGraph
