import MessageGraph.Proofs.Graph.Routes
import MessageGraph.Graph.Legality

/-!
# Joining two terminals

`attach` gives the graph with one more route (`attach_oneMore`), listed at both ends; where one terminal
is a bus, that end is a new tack which faces the other. A graph stays well-formed (`WellFormed.attach`).
-/
namespace MessageGraph.Graph

variable {g g' : Graph}

/-- The graph with one more route, listed at those of its ends that are no tacks. -/
def withRoute (g : Graph) (next route : Id) (r : Route) : Graph :=
  { g.relistEnds (· ++ [route]) r with nextId := next, routes := g.routes.insert route r }

/-- The graph with one more tack, listed by its bus. -/
def withTack (g : Graph) (next tack : Id) (k : Tack) : Graph :=
  { g with nextId := next, tacks := g.tacks.insert tack k }.modifyBus k.bus fun b =>
    { b with tacks := b.tacks ++ [tack] }

theorem attachEnd_of_endpoint {g : Graph} {route : Id} {this other : Terminal} {e : Endpoint}
    (h : this.endpoint? = some e) :
    g.attachEnd route this other = (e, g.relist (· ++ [route]) e) := by
  cases this <;> cases h <;> rfl

theorem endpointClass_of_endpoint? {t : Terminal} {e : Endpoint} (h : t.endpoint? = some e) :
    e.endpointClass ≠ .tack := by
  cases t <;> cases h <;> nofun

theorem eq_pad_of_endpoint? {t : Terminal} {gate : Id} (h : t.endpoint? = some (.pad gate)) :
    t = .pad gate := by
  cases t <;> cases h
  rfl

theorem contains_of_hasTerminal {t : Terminal} {e : Endpoint} (h : g.hasTerminal t = true)
    (he : t.endpoint? = some e) : g.contains e = true := by
  cases t <;> cases he <;> exact h

/-- What `attach` gives for two endpoints. -/
def joined (g : Graph) (r : Route) : Graph := g.withRoute g.fresh.2.nextId g.fresh.1 r

/-- What `attach` gives for an endpoint and a bus. -/
def joinedToBus (g : Graph) (bus : Id) (e : Endpoint) (r : Route) : Graph :=
  (g.joined r).withTack (g.joined r).fresh.2.nextId (g.joined r).fresh.1
    (g.tackFacing bus g.fresh.1 (some e))

/-- The tack that `attach` adds where an end is at a bus. -/
def freshTack (g : Graph) : Endpoint := .tack g.fresh.2.fresh.1

theorem attachEnd_bus {g : Graph} {route bus : Id} {other : Terminal} :
    g.attachEnd route (.bus bus) other =
      (.tack g.fresh.1, g.withTack g.fresh.2.nextId g.fresh.1
        (g.tackFacing bus route other.endpoint?)) := rfl

theorem attach_eq_ok {a b : Terminal} {route : Id} (h : g.attach a b = .ok (route, g')) :
    g.hasTerminal a = true ∧ g.hasTerminal b = true ∧
      ¬ (a.endpoint? = none ∧ b.endpoint? = none) ∧ route = g.fresh.1 ∧
      ∃ p q, p = g.fresh.2.attachEnd g.fresh.1 a b ∧ q = p.2.attachEnd g.fresh.1 b a ∧
        g' = { q.2 with routes := q.2.routes.insert g.fresh.1 { a := p.1, b := q.1 } } := by
  unfold attach at h
  split at h
  · cases h
  rename_i ha
  split at h
  · cases h
  rename_i hb
  split at h
  · cases h
  rename_i hbus
  simp only [Bool.not_eq_true', Bool.not_eq_false] at ha hb
  simp only [Bool.and_eq_true, Option.isNone_iff_eq_none] at hbus
  cases h
  exact ⟨ha, hb, hbus, rfl, _, _, rfl, rfl, rfl⟩

theorem attach_eq {a b : Terminal} {route : Id} (h : g.attach a b = .ok (route, g')) :
    route = g.fresh.1 ∧
      ((∃ x y, a.endpoint? = some x ∧ b.endpoint? = some y ∧ g.contains x = true ∧
          g.contains y = true ∧ g' = g.joined { a := x, b := y }) ∨
        ∃ bus e r, g.buses.contains bus = true ∧ g.contains e = true ∧ e.endpointClass ≠ .tack ∧
          ((a = .bus bus ∧ b.endpoint? = some e ∧ r = { a := g.freshTack, b := e }) ∨
            (b = .bus bus ∧ a.endpoint? = some e ∧ r = { a := e, b := g.freshTack })) ∧
          g' = g.joinedToBus bus e r) := by
  obtain ⟨ha, hb, hbus, rfl, p, q, hp, hq, rfl⟩ := attach_eq_ok h
  refine ⟨rfl, ?_⟩
  cases hx : a.endpoint? with
  | some x =>
    have hcx := contains_of_hasTerminal ha hx
    have htx := endpointClass_of_endpoint? hx
    rw [attachEnd_of_endpoint hx] at hp
    subst hp
    cases hy : b.endpoint? with
    | some y =>
      rw [attachEnd_of_endpoint hy] at hq
      subst hq
      refine Or.inl ⟨x, y, rfl, rfl, hcx, contains_of_hasTerminal hb hy, ?_⟩
      cases x <;> cases y <;> rfl
    | none =>
      cases b with
      | bus bus =>
        rw [attachEnd_bus, hx] at hq
        subst hq
        refine Or.inr ⟨bus, x, _, hb, hcx, htx, Or.inr ⟨rfl, rfl, rfl⟩, ?_⟩
        rw [(relist_rerouted g.fresh.2 (· ++ [g.fresh.1]) x).tackFacing_eq bus g.fresh.1 htx]
        cases x <;> rfl
      | _ => cases hy
  | none =>
    cases a with
    | bus bus =>
      cases hy : b.endpoint? with
      | none => exact absurd ⟨hx, hy⟩ hbus
      | some y =>
        have hty := endpointClass_of_endpoint? hy
        rw [attachEnd_bus, hy] at hp
        subst hp
        rw [attachEnd_of_endpoint hy] at hq
        subst hq
        refine Or.inr ⟨bus, y, _, ha, contains_of_hasTerminal hb hy, hty, Or.inl ⟨rfl, rfl, rfl⟩, ?_⟩
        cases y <;> rfl
    | _ => cases hx

/-- Two terminals that are there can be joined unless both are buses. -/
theorem exists_attach {a b : Terminal} (ha : g.hasTerminal a = true) (hb : g.hasTerminal b = true)
    (hbus : ¬ (a.endpoint? = none ∧ b.endpoint? = none)) :
    ∃ route g', g.attach a b = .ok (route, g') := by
  unfold attach
  rw [if_neg (by rw [ha]; nofun), if_neg (by rw [hb]; nofun), if_neg]
  · exact ⟨_, _, rfl⟩
  · simpa only [Bool.and_eq_true, Option.isNone_iff_eq_none] using hbus

/-- A route that is listed at its two ends and nowhere else joins the routes that are. -/
theorem RoutesListed.add (w : g.RoutesListed) {route : Id} {r : Route}
    (hnew : g.route? route = none) (hd : r.a ≠ r.b)
    (hroute : ∀ i, g'.route? i = if i = route then some r else g.route? i)
    (hlist : ∀ e, g'.routesOf e =
      if r.a = e ∨ r.b = e then g.routesOf e ++ [route] else g.routesOf e) : g'.RoutesListed := by
  have hends : ∀ e i, g'.Ends i e ↔ g.Ends i e ∨ (i = route ∧ (r.a = e ∨ r.b = e)) := by
    intro e i
    unfold Ends
    rw [hroute]
    split
    · rename_i hi
      subst hi
      simp [hnew]
    · rename_i hi
      simp [hi]
  have hfree : ∀ e, route ∉ g.routesOf e := by
    intro e hm
    obtain ⟨x, hx, -⟩ := w.mem_iff.1 hm
    rw [hnew] at hx
    cases hx
  refine ⟨?_, ?_, ?_⟩
  · intro e i
    rw [hends, ← w.mem_iff, hlist]
    split
    · rename_i he; simp [he]
    · rename_i he; simp [he]
  · intro e
    rw [hlist]
    split
    · refine List.nodup_append.2 ⟨w.nodup e, by simp, ?_⟩
      intro i hi j hj
      rw [List.mem_singleton] at hj
      subst hj
      rintro rfl
      exact hfree e hi
    · exact w.nodup e
  · intro i x hx
    rw [hroute] at hx
    split at hx
    · cases hx; exact hd
    · exact w.differ hx

section Joined

variable {r : Route} {bus : Id} {e : Endpoint}

theorem joined_rerouted (g : Graph) (r : Route) : Rerouted g (g.joined r) :=
  have h := relistEnds_rerouted g (· ++ [g.fresh.1]) r
  ⟨h.root, h.nodes, h.pins, h.gates⟩

theorem joinedToBus_rerouted (g : Graph) (bus : Id) (e : Endpoint) (r : Route) :
    Rerouted g (g.joinedToBus bus e r) :=
  have h := joined_rerouted g r
  ⟨h.root, h.nodes, h.pins, h.gates⟩

theorem route?_joined (i : Id) :
    (g.joined r).route? i = if i = g.fresh.1 then some r else g.route? i :=
  IdMap.get?_insert _ _ _ _

theorem tack?_joined (t : Id) : (g.joined r).tack? t = g.tack? t :=
  congrArg (fun m : IdMap Tack => m.get? t) relistEnds_tacks

theorem bus?_joined (i : Id) : (g.joined r).bus? i = g.bus? i :=
  congrArg (fun m : IdMap Bus => m.get? i) relistEnds_buses

theorem tack?_joinedToBus (t : Id) :
    (g.joinedToBus bus e r).tack? t =
      if .tack t = g.freshTack then some (g.tackFacing bus g.fresh.1 (some e)) else g.tack? t := by
  have ht : (Endpoint.tack t = g.freshTack) ↔ t = g.fresh.2.fresh.1 :=
    ⟨fun h => Endpoint.tack.inj h, fun h => congrArg Endpoint.tack h⟩
  simp only [ht]
  show ((g.joined r).tacks.insert _ _).get? t = _
  rw [IdMap.get?_insert]
  split
  · rename_i h; exact (if_pos h).symm
  · rename_i h; exact (tack?_joined t).trans (if_neg h).symm

theorem bus?_joinedToBus (i : Id) :
    ((g.joinedToBus bus e r).bus? i).map Bus.untacked = (g.bus? i).map Bus.untacked := by
  have h : ((g.joinedToBus bus e r).bus? i).map Bus.untacked =
      ((g.joined r).bus? i).map Bus.untacked := IdMap.map_get?_modify (by intro b; rfl)
  rw [h, bus?_joined]

theorem tackIds_joinedToBus (hbus : g.buses.contains bus = true) (i : Id) :
    (g.joinedToBus bus e r).tackIds i =
      if i = bus then g.tackIds i ++ [g.fresh.2.fresh.1] else g.tackIds i := by
  obtain ⟨b, hb⟩ := IdMap.contains_iff.1 hbus
  show (((g.joined r).buses.modify bus _).get? i).elim [] _ = _
  rw [IdMap.get?_modify]
  split
  · rename_i hi
    subst hi
    have hj : (g.joined r).buses.get? i = some b := (bus?_joined i).trans hb
    unfold tackIds bus?
    rw [hj, hb]
    rfl
  · exact congrArg (fun o : Option Bus => o.elim [] (·.tacks)) (bus?_joined i)

end Joined

/-! ## The ids that `attach` takes -/

theorem has_joined {r : Route} (k : EntityKind) (i : Id) :
    (g.joined r).has k i = true ↔ g.has k i = true ∨ (k = .route ∧ i = g.fresh.1) := by
  have h := joined_rerouted g r
  cases k with
  | node => simp [has, h.nodes]
  | pin => simp [has, h.contains_pin]
  | gate => simp [has, h.contains_gate]
  | bus => simp [has, joined, withRoute, relistEnds_buses]
  | tack => simp [has, joined, withRoute, relistEnds_tacks]
  | route => simp [has, joined, withRoute, IdMap.contains_insert, or_comm]

theorem IdsApart.joined (w : g.IdsApart) {r : Route} : (g.joined r).IdsApart :=
  w.add w.fresh .route has_joined

theorem IdsApart.joinedToBus (w : g.IdsApart) {r : Route} {bus : Id} {e : Endpoint} :
    (g.joinedToBus bus e r).IdsApart := by
  refine w.joined.add w.joined.fresh .tack fun k i => ?_
  cases k with
  | bus => simp [has, Graph.joinedToBus, withTack, modifyBus, IdMap.contains_modify]
  | tack => simp [has, Graph.joinedToBus, withTack, modifyBus, IdMap.contains_insert, or_comm]
  | _ => simp [has, Graph.joinedToBus, withTack, modifyBus]

theorem IdsApart.freshRoute (w : g.IdsApart) : g.route? g.fresh.1 = none :=
  IdMap.contains_eq_false_iff.1 (w.fresh.absent .route)

theorem IdsApart.freshTack (w : g.IdsApart) : g.contains g.freshTack = false := by
  have h : ({ g with nextId := g.fresh.2.nextId } : Graph).IdsApart :=
    ⟨fun hk => Nat.lt_of_lt_of_le (w.below hk) w.fresh.le, w.one_kind⟩
  exact h.fresh.absent .tack

/-! ## One more route -/

theorem joined_oneMore (w : g.IdsApart) {x y : Endpoint} (hx : x.endpointClass ≠ .tack)
    (hy : y.endpointClass ≠ .tack) :
    OneMore g (g.joined { a := x, b := y }) g.fresh.1 { a := x, b := y } where
  rerouted := joined_rerouted g _
  absent := w.freshRoute
  present := by rw [route?_joined, if_pos rfl]
  others := by
    intro i hi
    rw [route?_joined, if_neg hi]
  tacks t _ _ := tack?_joined t
  tack_absent := by
    rintro t (rfl | rfl)
    · exact absurd rfl hx
    · exact absurd rfl hy
  buses i := congrArg (·.map Bus.untacked) (bus?_joined i)

theorem joinedToBus_oneMore (bus : Id) (w : g.IdsApart) {e : Endpoint} {r : Route}
    (he : e.endpointClass ≠ .tack)
    (hr : r = { a := g.freshTack, b := e } ∨ r = { a := e, b := g.freshTack }) :
    OneMore g (g.joinedToBus bus e r) g.fresh.1 r where
  rerouted := joinedToBus_rerouted g bus e r
  absent := w.freshRoute
  present := (route?_joined _).trans (if_pos rfl)
  others := by
    intro i hi
    exact (route?_joined i).trans (if_neg hi)
  tacks := by
    intro t ha hb
    rw [tack?_joinedToBus, if_neg]
    intro ht
    rcases hr with rfl | rfl
    · exact ha ht.symm
    · exact hb ht.symm
  tack_absent := by
    intro t ht
    have hf : g.contains (.tack t) = false := by
      rcases hr with rfl | rfl <;> rcases ht with ht | ht
      · rw [← ht]; exact w.freshTack
      · exact absurd (congrArg Endpoint.endpointClass ht) he
      · exact absurd (congrArg Endpoint.endpointClass ht) he
      · rw [← ht]; exact w.freshTack
    exact IdMap.contains_eq_false_iff.1 hf
  buses := bus?_joinedToBus

/-- Joining two terminals gives the graph one more route. -/
theorem attach_oneMore (w : g.IdsApart) {a b : Terminal} {route : Id}
    (h : g.attach a b = .ok (route, g')) : ∃ r, OneMore g g' route r := by
  obtain ⟨rfl, ⟨x, y, hx, hy, -, -, rfl⟩ | ⟨bus, e, r, -, -, he, hr, rfl⟩⟩ := attach_eq h
  · exact ⟨_, joined_oneMore w (endpointClass_of_endpoint? hx) (endpointClass_of_endpoint? hy)⟩
  · exact ⟨r, joinedToBus_oneMore bus w he (hr.imp (·.2.2) (·.2.2))⟩

/-! ## Well-formedness -/

theorem routesOf_joined {x y : Endpoint} (hd : x ≠ y) (hx : g.contains x = true)
    (hy : g.contains y = true) (htx : x.endpointClass ≠ .tack) (hty : y.endpointClass ≠ .tack)
    (e : Endpoint) : (g.joined { a := x, b := y }).routesOf e =
      if x = e ∨ y = e then g.routesOf e ++ [g.fresh.1] else g.routesOf e := by
  refine (routesOf_relistEnds (r := { a := x, b := y }) (f := (· ++ [g.fresh.1])) hd
    (fun _ => hx) (fun _ => hy) e).trans ?_
  by_cases he : x = e ∨ y = e
  · have ht : e.endpointClass ≠ .tack := by
      rcases he with rfl | rfl
      · exact htx
      · exact hty
    rw [if_pos ⟨he, ht⟩, if_pos he]
  · rw [if_neg (fun h => he h.1), if_neg he]

theorem WellFormed.joined (w : g.WellFormed) {x y : Endpoint} (hd : x ≠ y)
    (hx : g.contains x = true) (hy : g.contains y = true) (htx : x.endpointClass ≠ .tack)
    (hty : y.endpointClass ≠ .tack)
    (hxy : ∀ gate p, x = .pad gate → g.gate? gate = some p → p.group = g.root →
      g.direction? y = some p.direction.opposite)
    (hyx : ∀ gate p, y = .pad gate → g.gate? gate = some p → p.group = g.root →
      g.direction? x = some p.direction.opposite) : (g.joined { a := x, b := y }).WellFormed where
  ids := w.ids.joined
  tree := (joined_rerouted g _).isTree w.tree
  pins := (joined_rerouted g _).pins_owned w.pins
  gates := (joined_rerouted g _).gates_owned w.gates
  buses := (joined_rerouted g _).buses_owned (joined_oneMore w.ids htx hty).buses w.buses
  tacks := w.tacks.congr (by intro t; unfold tackOwner?; rw [tack?_joined])
    (by intro b; unfold tackIds; rw [bus?_joined])
  routes := w.routes.add w.ids.freshRoute hd route?_joined (routesOf_joined hd hx hy htx hty)
  faced := by
    intro t k hk
    have hk' := hk
    rw [tack?_joined] at hk
    exact (joined_oneMore w.ids htx hty).faces_big hk' (w.faced _ _ hk)
  names := (joined_rerouted g _).namesApart w.names
  opposed := by
    have hone := joined_oneMore w.ids htx hty
    refine hone.opposed_big w fun gate p far hp htop hfar => ?_
    unfold Route.other? at hfar
    split at hfar
    · rename_i he
      cases hfar
      rw [hone.direction?_eq hy]
      exact hxy gate p he hp htop
    · split at hfar
      · rename_i he
        cases hfar
        rw [hone.direction?_eq hx]
        exact hyx gate p he hp htop
      · cases hfar

theorem routesOf_joinedToBus (w : g.IdsApart) {bus : Id} {e : Endpoint} {r : Route}
    (he : g.contains e = true) (hte : e.endpointClass ≠ .tack)
    (hr : r = { a := g.freshTack, b := e } ∨ r = { a := e, b := g.freshTack }) (x : Endpoint) :
    (g.joinedToBus bus e r).routesOf x =
      if r.a = x ∨ r.b = x then g.routesOf x ++ [g.fresh.1] else g.routesOf x := by
  have hne : e ≠ g.freshTack := by
    rintro rfl
    exact hte rfl
  have hlist : ∀ x, (g.joined r).routesOf x =
      if (r.a = x ∨ r.b = x) ∧ x.endpointClass ≠ .tack then g.routesOf x ++ [g.fresh.1]
      else g.routesOf x := by
    rcases hr with rfl | rfl
    · exact routesOf_relistEnds (r := { a := g.freshTack, b := e }) (f := (· ++ [g.fresh.1]))
        (Ne.symm hne) (fun h => absurd rfl h) fun _ => he
    · exact routesOf_relistEnds (r := { a := e, b := g.freshTack }) (f := (· ++ [g.fresh.1]))
        hne (fun _ => he) fun h => absurd rfl h
  by_cases ht : x.endpointClass = .tack
  · cases x with
    | tack t =>
      have hend : (r.a = .tack t ∨ r.b = .tack t) ↔ .tack t = g.freshTack := by
        have hxe : e ≠ .tack t := by rintro rfl; exact hte rfl
        rcases hr with rfl | rfl <;> simp [hxe, eq_comm]
      have hk : (g.joinedToBus bus e r).tack? t = _ := tack?_joinedToBus t
      by_cases hf : Endpoint.tack t = g.freshTack
      · rw [if_pos (hend.2 hf)]
        rw [if_pos hf] at hk
        have hnone : g.tack? t = none := by
          have := w.freshTack
          rw [← hf] at this
          exact IdMap.contains_eq_false_iff.1 this
        simp [routesOf, hk, hnone, tackFacing]
      · rw [if_neg (fun h => hf (hend.1 h))]
        rw [if_neg hf] at hk
        simp [routesOf, hk]
    | _ => cases ht
  · have hx : (g.joinedToBus bus e r).routesOf x = (g.joined r).routesOf x := by
      cases x with
      | tack t => exact absurd rfl ht
      | _ => rfl
    rw [hx, hlist]
    simp only [ne_eq, ht, not_false_eq_true, and_true]

section JoinedToBus

variable {bus : Id} {e : Endpoint} {r : Route}

theorem tack?_freshTack : (g.joinedToBus bus e r).tack? g.fresh.2.fresh.1 =
    some (g.tackFacing bus g.fresh.1 (some e)) :=
  (tack?_joinedToBus _).trans (if_pos rfl)

/-- The new tack was made to face the endpoint that the bus is joined to. -/
theorem faces_freshTack (hre : Rerouted g (g.joinedToBus bus e r))
    (hpresent : (g.joinedToBus bus e r).route? g.fresh.1 = some r) (he : g.contains e = true)
    (hte : e.endpointClass ≠ .tack)
    (hr : r = { a := g.freshTack, b := e } ∨ r = { a := e, b := g.freshTack }) :
    (g.joinedToBus bus e r).Faces g.fresh.2.fresh.1 (g.tackFacing bus g.fresh.1 (some e)) := by
  have hdir := hre.direction?_eq (e := e) (by rintro t rfl; exact absurd rfl hte)
  have hname := hre.name?_eq (e := e) (by rintro t rfl; exact absurd rfl hte)
  have hte' : e ≠ g.freshTack := by rintro rfl; exact hte rfl
  refine faces_of tack?_freshTack (?_ : _ = some e) hte ?_ ?_
  · show (Graph.route? _ g.fresh.1).bind _ = _
    rw [hpresent, Option.bind_some]
    rcases hr with rfl | rfl
    · exact if_pos rfl
    · exact (if_neg hte').trans (if_pos rfl)
  · rw [hdir]
    rw [contains_eq_isSome_direction] at he
    obtain ⟨d, hd⟩ := Option.isSome_iff_exists.1 he
    cases d <;> simp [tackFacing, hd, Flow.direction, Direction.opposite]
  · rw [hname]
    rw [contains_eq_isSome_name] at he
    obtain ⟨n, hn⟩ := Option.isSome_iff_exists.1 he
    simp [tackFacing, hn]

/-- From a pad a route to a bus leads to its new tack. -/
theorem other?_pad (hr : r = { a := g.freshTack, b := e } ∨ r = { a := e, b := g.freshTack })
    {gate : Id} {far : Endpoint} (hfar : r.other? (.pad gate) = some far) :
    e = .pad gate ∧ far = g.freshTack := by
  unfold Route.other? at hfar
  rcases hr with rfl | rfl
  · split at hfar
    · rename_i h; cases h
    · split at hfar
      · rename_i h; cases hfar; exact ⟨h, rfl⟩
      · cases hfar
  · split at hfar
    · rename_i h; cases hfar; exact ⟨h, rfl⟩
    · split at hfar
      · rename_i h; cases h
      · cases hfar

theorem WellFormed.joinedToBus (w : g.WellFormed) (hbus : g.buses.contains bus = true)
    (he : g.contains e = true) (hte : e.endpointClass ≠ .tack)
    (hr : r = { a := g.freshTack, b := e } ∨ r = { a := e, b := g.freshTack }) :
    (g.joinedToBus bus e r).WellFormed := by
  have hone := joinedToBus_oneMore bus w.ids hte hr
  have hre := hone.rerouted
  have hd : r.a ≠ r.b := by
    rcases hr with rfl | rfl <;> intro h
    · exact hte (congrArg Endpoint.endpointClass h.symm)
    · exact hte (congrArg Endpoint.endpointClass h)
  have hnew : ∀ t, (Endpoint.tack t = g.freshTack) ↔ t = g.fresh.2.fresh.1 := fun t =>
    ⟨fun h => Endpoint.tack.inj h, fun h => congrArg Endpoint.tack h⟩
  exact
    { ids := w.ids.joinedToBus
      tree := hre.isTree w.tree
      pins := hre.pins_owned w.pins
      gates := hre.gates_owned w.gates
      buses := hre.buses_owned hone.buses w.buses
      tacks := by
        refine w.tacks.add (x := g.fresh.2.fresh.1) (o := bus) ?_ (fun t => ?_)
          (tackIds_joinedToBus hbus)
        · have hf := w.ids.freshTack
          unfold tackOwner?
          rw [show g.tack? g.fresh.2.fresh.1 = none from IdMap.contains_eq_false_iff.1 hf]
          rfl
        · unfold tackOwner?
          rw [tack?_joinedToBus]
          simp only [hnew]
          split <;> rfl
      routes := w.routes.add w.ids.freshRoute hd (fun i => route?_joined i)
        (routesOf_joinedToBus w.ids he hte hr)
      faced := by
        intro t k hk
        have hk' := hk
        rw [tack?_joinedToBus] at hk
        split at hk
        · rename_i ht
          cases hk
          cases ht
          exact faces_freshTack hre hone.present he hte hr
        · exact hone.faces_big hk' (w.faced _ _ hk)
      names := hre.namesApart w.names
      opposed := by
        refine hone.opposed_big w fun gate p far hp _ hfar => ?_
        obtain ⟨hpad, rfl⟩ := other?_pad hr hfar
        show ((g.joinedToBus bus e r).tack? g.fresh.2.fresh.1).map (·.flow.direction) = _
        rw [tack?_freshTack, hpad]
        cases hd : p.direction <;> simp [tackFacing, direction?, hp, hd, Flow.direction,
          Direction.opposite] }

end JoinedToBus

/-- Two terminals that a route may join: they differ, and the pad of a top-level gate is joined to an
endpoint of the opposite direction. -/
structure Joinable (g : Graph) (a b : Terminal) : Prop where
  ne : a ≠ b
  left : ∀ {gate p e}, a = .pad gate → g.gate? gate = some p → p.group = g.root →
    b.endpoint? = some e → g.direction? e = some p.direction.opposite
  right : ∀ {gate p e}, b = .pad gate → g.gate? gate = some p → p.group = g.root →
    a.endpoint? = some e → g.direction? e = some p.direction.opposite

/-- Joining two terminals that may be joined keeps a graph well-formed. -/
theorem WellFormed.attach (w : g.WellFormed) {a b : Terminal} {route : Id}
    (h : g.attach a b = .ok (route, g')) (hj : g.Joinable a b) : g'.WellFormed := by
  obtain ⟨rfl, ⟨x, y, hx, hy, hcx, hcy, rfl⟩ | ⟨bus, e, r, hbus, he, hte, hr, rfl⟩⟩ := attach_eq h
  · have hxy : x ≠ y := by
      rintro rfl
      cases a <;> cases b <;> cases hx <;> cases hy <;> exact hj.ne rfl
    refine w.joined hxy hcx hcy (endpointClass_of_endpoint? hx) (endpointClass_of_endpoint? hy)
      (fun gate p he hp htop => ?_) fun gate p he hp htop => ?_
    · exact hj.left (eq_pad_of_endpoint? (he ▸ hx)) hp htop hy
    · exact hj.right (eq_pad_of_endpoint? (he ▸ hy)) hp htop hx
  · exact w.joinedToBus hbus he hte (hr.imp (·.2.2) (·.2.2))

/-! ## Checked connections -/

theorem check_eq_ok {a b : Terminal} (h : g.check a b = .ok ()) :
    g.hasTerminal a = true ∧ g.hasTerminal b = true ∧ a ≠ b ∧
      ∀ x y, a.endpoint? = some x → b.endpoint? = some y → g.direction? x ≠ g.direction? y := by
  unfold check at h
  split at h
  · cases h
  rename_i ha
  split at h
  · cases h
  rename_i hb
  split at h
  · cases h
  rename_i hself
  split at h
  · cases h
  simp only [Bool.not_eq_true', Bool.not_eq_false] at ha hb
  simp only [Bool.or_eq_true, decide_eq_true_eq, not_or] at hself
  refine ⟨ha, hb, hself.1, fun x y hx hy hd => ?_⟩
  rw [hx, hy] at h
  simp only [checkEndpoints, if_pos hd] at h
  cases h

theorem direction?_eq_opposite {e : Endpoint} {d : Direction} (he : g.contains e = true)
    (hne : g.direction? e ≠ some d) : g.direction? e = some d.opposite := by
  rw [contains_eq_isSome_direction] at he
  obtain ⟨d', hd⟩ := Option.isSome_iff_exists.1 he
  rw [hd] at hne ⊢
  cases d <;> cases d' <;> first | rfl | exact absurd rfl hne

/-- What the rules let be joined may be joined. -/
theorem joinable_of_check {a b : Terminal} (h : g.check a b = .ok ()) : g.Joinable a b := by
  obtain ⟨ha, hb, hne, hdir⟩ := check_eq_ok h
  have hpad : ∀ {gate p}, g.gate? gate = some p → g.direction? (.pad gate) = some p.direction := by
    intro gate p hp
    simp only [direction?, hp, Option.map_some]
  refine ⟨hne, fun {gate p e} ht hp _ he => ?_, fun {gate p e} ht hp _ he => ?_⟩
  · refine direction?_eq_opposite (contains_of_hasTerminal hb he) fun hd => ?_
    exact hdir (.pad gate) e (by rw [ht]; rfl) he ((hpad hp).trans hd.symm)
  · refine direction?_eq_opposite (contains_of_hasTerminal ha he) fun hd => ?_
    exact hdir e (.pad gate) he (by rw [ht]; rfl) (hd.trans (hpad hp).symm)

theorem ends_of_routeTo? {e : Endpoint} {t : Terminal} {route : Id}
    (h : g.routeTo? e t = some route) : g.Ends route e := by
  have hfar := List.find?_some h
  split at hfar
  · rename_i far ha
    exact (ends_of_across? ha).1
  · cases hfar

/-- A route found between two terminals is there. -/
theorem route?_of_existingRoute? {a b : Terminal} {route : Id}
    (h : g.existingRoute? a b = some route) : ∃ r, g.route? route = some r := by
  obtain ⟨e, r, hr, -⟩ : ∃ e, g.Ends route e := by
    unfold existingRoute? at h
    split at h
    · exact ⟨_, ends_of_routeTo? h⟩
    · exact ⟨_, ends_of_routeTo? h⟩
    · cases h
  exact ⟨r, hr⟩

end MessageGraph.Graph
