import MessageGraph.Proofs.Graph.Editing
import MessageGraph.Proofs.Graph.Legality
import MessageGraph.Proofs.Graph.Subtree
import Mathlib.Data.List.Flatten

/-!
# Graphs wired by legal connections

A graph is `Wired` if its routes could have been made by `connect` one after the other: what a route joins
may be joined, no two routes join the same terminals, and each terminal has its routes in the order of
their ids.

* Edits, removals of routes and of nodes leave a part of the wiring as it is (`Part`), and a part is wired
  if the whole is (`Wired.of_part`).
* A legal connection that is not there yet keeps a graph wired (`Wired.attach`).
* A route of a wired graph `Sends` from one end to the other.
-/
namespace MessageGraph.Graph

variable {g g' small big : Graph}

/-- The routes at a terminal, in the order in which they were attached. -/
def routesAt (g : Graph) : Terminal → List Id
  | .pin id => g.routesOf (.pin id)
  | .proxy gate => g.routesOf (.proxy gate)
  | .pad gate => g.routesOf (.pad gate)
  | .bus id => (g.tackIds id).flatMap fun tack => g.routesOf (.tack tack)

/-- Each terminal has its routes in the order of their ids. -/
def InOrder (g : Graph) : Prop := ∀ t, (g.routesAt t).Pairwise (· < ·)

structure Wired (g : Graph) : Prop where
  sorted : ∀ t, (g.routesAt t).Pairwise (· < ·)
  legal : ∀ {route r}, g.route? route = some r → g.MayJoin (g.terminalOf r.a) (g.terminalOf r.b)
  single : ∀ {s s' a b}, g.Joins s a b → g.Joins s' a b → s = s'

theorem routesAt_of_endpoint? {t : Terminal} {e : Endpoint} (h : t.endpoint? = some e) :
    g.routesAt t = g.routesOf e := by
  cases t <;> cases h <;> rfl

theorem ends_of_mem_routesAt (w : g.WellFormed) {t : Terminal} {route : Id}
    (h : route ∈ g.routesAt t) : ∃ e, g.Ends route e ∧ g.terminalOf e = t := by
  cases t with
  | bus b =>
    obtain ⟨t, ht, hr⟩ := List.mem_flatMap.1 h
    refine ⟨.tack t, w.routes.mem_iff.1 hr, ?_⟩
    rw [terminalOf, w.tacks.mem_iff.1 ht]
    rfl
  | pin id => exact ⟨.pin id, w.routes.mem_iff.1 h, rfl⟩
  | proxy gate => exact ⟨.proxy gate, w.routes.mem_iff.1 h, rfl⟩
  | pad gate => exact ⟨.pad gate, w.routes.mem_iff.1 h, rfl⟩

/-! ## Tacks and their routes -/

theorem mem_routesAt (w : g.WellFormed) {s : Id} {a : Terminal} :
    s ∈ g.routesAt a ↔ ∃ e, g.Ends s e ∧ g.terminalOf e = a := by
  refine ⟨ends_of_mem_routesAt w, ?_⟩
  rintro ⟨e, he, rfl⟩
  have hs : s ∈ g.routesOf e := w.routes.mem_iff.2 he
  cases e with
  | tack t =>
    obtain ⟨k, hk⟩ := IdMap.contains_iff.1 (w.contains_of_ends he)
    have hk : g.tack? t = some k := hk
    refine List.mem_flatMap.2 ⟨t, w.tacks.mem_iff.2 ?_, hs⟩
    simp only [tackOwner?, hk, Option.map_some, Option.getD_some]
  | _ => exact hs

theorem endpointClass_terminalOf (x : Endpoint) : (g.terminalOf x).endpointClass = x.endpointClass := by
  cases x <;> rfl

theorem exists_tack (w : g.WellFormed) {s t : Id} (hs : g.Ends s (.tack t)) :
    ∃ k, g.tack? t = some k ∧ k.route = s := by
  obtain ⟨k, hk⟩ := IdMap.contains_iff.1 (w.contains_of_ends hs)
  have hk : g.tack? t = some k := hk
  have hmem := w.routes.mem_iff.2 hs
  simp only [routesOf, hk, Option.elim_some, List.mem_singleton] at hmem
  exact ⟨k, hk, hmem.symm⟩

/-- A tack is an end of its route. -/
theorem WellFormed.ends_of_tack (w : g.WellFormed) {t : Id} {k : Tack} (hk : g.tack? t = some k) :
    g.Ends k.route (.tack t) :=
  w.routes.mem_iff.1 (by simp only [routesOf, hk, Option.elim_some, List.mem_singleton])

theorem exists_routesOf_tack {t : Id} (ht : g.contains (.tack t) = true) :
    ∃ s, g.routesOf (.tack t) = [s] := by
  obtain ⟨k, hk⟩ := IdMap.contains_iff.1 ht
  have hk : g.tack? t = some k := hk
  exact ⟨k.route, by simp only [routesOf, hk, Option.elim_some]⟩

/-- The route of a tack. -/
def tackRoute (g : Graph) (tack : Id) : Id := (g.tack? tack).elim 0 (·.route)

theorem routesOf_of_mem_tackIds (w : g.WellFormed) {i t : Id} (ht : t ∈ g.tackIds i) :
    g.routesOf (.tack t) = [g.tackRoute t] := by
  obtain ⟨k, hk, -⟩ := Option.map_eq_some_iff.1 (w.tacks.mem_iff.1 ht)
  simp only [routesOf, tackRoute, hk, Option.elim_some]

theorem ends_tackRoute (w : g.WellFormed) {i t : Id} (ht : t ∈ g.tackIds i) :
    g.Ends (g.tackRoute t) (.tack t) ∧ g.terminalOf (.tack t) = .bus i := by
  refine ⟨w.routes.mem_iff.1 ?_, ?_⟩
  · rw [routesOf_of_mem_tackIds w ht]
    exact List.mem_singleton_self _
  · simp only [terminalOf, w.tacks.mem_iff.1 ht, Option.getD_some]

theorem routesAt_bus (w : g.WellFormed) (i : Id) :
    g.routesAt (.bus i) = (g.tackIds i).map g.tackRoute := by
  rw [routesAt, List.flatMap_congr fun t ht => routesOf_of_mem_tackIds w ht]
  induction g.tackIds i with
  | nil => rfl
  | cons t ts ih => rw [List.flatMap_cons, ih]; rfl

/-! ## Parts of a wiring -/

/-- What is wired in `small` is wired in `big` in the same way. -/
structure Part (small big : Graph) : Prop where
  routes : ∀ {s r}, small.route? s = some r → ∃ r', big.route? s = some r' ∧ r'.a = r.a ∧ r'.b = r.b
  listed : ∀ t, (small.routesAt t).Sublist (big.routesAt t)
  owner : ∀ {s e}, small.Ends s e → big.terminalOf e = small.terminalOf e
  direction : ∀ {s e}, small.Ends s e → big.direction? e = small.direction? e
  channel : ∀ {s e}, small.Ends s e → big.channel? e = small.channel? e
  name : ∀ {s e}, small.Ends s e → big.name? e = small.name? e

theorem Part.sameEnd (h : Part small big) {s : Id} {e : Endpoint} (he : small.Ends s e) :
    SameEnd big small e e :=
  ⟨h.direction he, h.channel he, h.name he⟩

theorem Part.ends (h : Part small big) {s : Id} {e : Endpoint} (he : small.Ends s e) :
    big.Ends s e := by
  obtain ⟨r, hr, hend⟩ := he
  obtain ⟨r', hr', ha, hb⟩ := h.routes hr
  exact ⟨r', hr', by rw [ha, hb]; exact hend⟩

theorem Part.refl (g : Graph) : Part g g where
  routes hr := ⟨_, hr, rfl, rfl⟩
  listed _ := List.Sublist.refl _
  owner _ := rfl
  direction _ := rfl
  channel _ := rfl
  name _ := rfl

theorem Part.trans {g₁ g₂ g₃ : Graph} (h : Part g₁ g₂) (h' : Part g₂ g₃) : Part g₁ g₃ where
  routes hr := by
    obtain ⟨r', hr', ha, hb⟩ := h.routes hr
    obtain ⟨r'', hr'', ha', hb'⟩ := h'.routes hr'
    exact ⟨r'', hr'', ha'.trans ha, hb'.trans hb⟩
  listed t := (h.listed t).trans (h'.listed t)
  owner he := (h'.owner (h.ends he)).trans (h.owner he)
  direction he := (h'.direction (h.ends he)).trans (h.direction he)
  channel he := (h'.channel (h.ends he)).trans (h.channel he)
  name he := (h'.name (h.ends he)).trans (h.name he)

theorem Part.joins (h : Part small big) {s : Id} {a b : Terminal} (hj : small.Joins s a b) :
    big.Joins s a b := by
  obtain ⟨r, hr, hends⟩ := hj
  obtain ⟨r', hr', ha, hb⟩ := h.routes hr
  refine ⟨r', hr', ?_⟩
  rw [ha, hb, h.owner ⟨r, hr, Or.inl rfl⟩, h.owner ⟨r, hr, Or.inr rfl⟩]
  exact hends

/-- What may be joined depends on the endpoints that the terminals stand for. -/
theorem MayJoin.congr {a b : Terminal} (h : g.MayJoin a b) (ha : g'.hasTerminal a = true)
    (hb : g'.hasTerminal b = true)
    (he : ∀ e, a.endpoint? = some e ∨ b.endpoint? = some e → SameEnd g g' e e) :
    g'.MayJoin a b where
  left := ha
  right := hb
  ne := h.ne
  sides := h.sides
  classes := h.classes
  endpoints hx hy := (h.endpoints hx hy).congr (he _ (Or.inl hx)) (he _ (Or.inr hy))

theorem eq_of_endpoint?_terminalOf {x e : Endpoint} (h : (g.terminalOf e).endpoint? = some x) :
    x = e := by
  cases e <;> cases h
  all_goals rfl

theorem InOrder.of_part (ho : big.InOrder) (h : Part small big) : small.InOrder := fun t =>
  (ho t).sublist (h.listed t)

/-- A well-formed part of a wired graph is wired. -/
theorem Wired.of_part (hw : big.Wired) (w : small.WellFormed) (h : Part small big) : small.Wired where
  sorted t := (hw.sorted t).sublist (h.listed t)
  single hj hj' := hw.single (h.joins hj) (h.joins hj')
  legal := by
    intro s r hr
    have hea : small.Ends s r.a := ⟨r, hr, Or.inl rfl⟩
    have heb : small.Ends s r.b := ⟨r, hr, Or.inr rfl⟩
    obtain ⟨r', hr', ha, hb⟩ := h.routes hr
    have hm := hw.legal hr'
    rw [ha, hb, h.owner hea, h.owner heb] at hm
    refine hm.congr (hasTerminal_terminalOf w (w.contains_of_ends hea))
      (hasTerminal_terminalOf w (w.contains_of_ends heb)) fun e he => ?_
    have hend : small.Ends s e := by
      rcases he with he | he
      · rw [eq_of_endpoint?_terminalOf he]; exact hea
      · rw [eq_of_endpoint?_terminalOf he]; exact heb
    exact h.sameEnd hend

/-- A terminal lists a part of its routes if each endpoint does and each bus has a part of its tacks. -/
theorem routesAt_sublist (hr : ∀ e, (small.routesOf e).Sublist (big.routesOf e))
    (ht : ∀ b, (small.tackIds b).Sublist (big.tackIds b)) (t : Terminal) :
    (small.routesAt t).Sublist (big.routesAt t) := by
  cases t with
  | bus b =>
    exact ((ht b).flatMap _).trans (List.Sublist.flatMap_right _ fun t _ => hr (.tack t))
  | pin id => exact hr (.pin id)
  | proxy gate => exact hr (.proxy gate)
  | pad gate => exact hr (.pad gate)

/-! ### What edits and removals leave -/

/-- Where an endpoint is attached depends on the owner of a tack alone. -/
theorem terminalOf_congr (h : ∀ t, g'.tackOwner? t = g.tackOwner? t) (e : Endpoint) :
    g'.terminalOf e = g.terminalOf e := by
  cases e with
  | tack t => simp only [terminalOf, h]
  | _ => rfl

/-- What is added has no routes, and everything else keeps its own. -/
theorem Part.of_extends (w : g.WellFormed) (w' : g'.WellFormed) (h : Extends g g') : Part g' g := by
  have hends : ∀ {s e}, g'.Ends s e → g.Ends s e := by
    rintro s e ⟨r, hr, he⟩
    rw [h.routes] at hr
    exact ⟨r, hr, he⟩
  have howner : ∀ t, g'.tackOwner? t = g.tackOwner? t := fun t => by
    unfold tackOwner?
    rw [h.tacks]
  refine
    { routes := fun {s r} hr => ⟨r, (h.routes s).symm.trans hr, rfl, rfl⟩
      listed := routesAt_sublist (fun e => ?_) fun b => ?_
      owner := fun {s e} _ => (terminalOf_congr howner e).symm
      direction := fun he => (h.direction?_eq (w.contains_of_ends (hends he))).symm
      channel := fun he => (h.channel?_eq (w.contains_of_ends (hends he))).symm
      name := fun he => (h.name?_eq (w.contains_of_ends (hends he))).symm }
  · cases hl : g'.routesOf e with
    | nil => exact List.nil_sublist _
    | cons s ss =>
      -- an endpoint with a route was there before
      have hs : s ∈ g'.routesOf e := by rw [hl]; exact List.mem_cons_self
      have hlive := w.contains_of_ends (hends (w'.routes.mem_iff.1 hs))
      rw [← hl, h.routesOf_eq hlive]
  · cases hl : g'.tackIds b with
    | nil => exact List.nil_sublist _
    | cons t ts =>
      have ht : t ∈ g'.tackIds b := by rw [hl]; exact List.mem_cons_self
      rw [w'.tacks.mem_iff, howner, ← w.tacks.mem_iff] at ht
      have hlive : g.buses.contains b = true := by
        unfold tackIds at ht
        cases hb : g.bus? b with
        | none => rw [hb] at ht; cases ht
        | some x => exact IdMap.contains_of_get? hb
      rw [← hl]
      unfold tackIds
      rw [h.buses hlive]

theorem Part.of_alike (h : Alike g g') : Part g' g where
  routes := by
    intro s r hr
    obtain ⟨r', hr', hb⟩ := Alike.some_of_map_eq (h.routes s) hr
    have ea : r.a = r'.a := show r.bare.a = r'.bare.a by rw [hb]
    have eb : r.b = r'.b := show r.bare.b = r'.bare.b by rw [hb]
    exact ⟨r', hr', ea.symm, eb.symm⟩
  listed := routesAt_sublist (fun e => by rw [h.routesOf_eq]) fun b => by rw [h.tackIds_eq]
  owner {s e} _ := (terminalOf_congr h.tackOwner?_eq e).symm
  direction {s e} _ := (h.direction?_eq e).symm
  channel {s e} _ := (h.channel?_eq e).symm
  name {s e} _ := (h.name?_eq e).symm

theorem Part.of_detach (w : g.WellFormed) (route : Id) : Part (g.detach route) g := by
  have hc := w.detach_cleared route
  have htack : ∀ {s t}, (g.detach route).Ends s (.tack t) → (g.detach route).tack? t = g.tack? t := by
    intro s t he
    obtain ⟨k, hk⟩ := IdMap.contains_iff.1 (w.detach.contains_of_ends he)
    have hk : (g.detach route).tack? t = some k := hk
    rw [hk, hc.tacks hk]
  refine
    { routes := fun {s r} hr => ⟨r, hc.routes hr, rfl, rfl⟩
      listed := routesAt_sublist (fun e => ?_) (w.tackIds_detach route)
      owner := fun {s e} he => ?_
      direction := fun {s e} he => ?_
      channel := fun {s e} _ => (hc.rerouted.channel?_eq e).symm
      name := fun {s e} he => ?_ }
  · rw [w.routesOf_detach]
    exact List.filter_sublist
  · cases e with
    | tack t => simp only [terminalOf, tackOwner?, htack he]
    | _ => rfl
  · exact (hc.rerouted.direction?_eq fun t ht => htack (ht ▸ he)).symm
  · exact (hc.rerouted.name?_eq fun t ht => htack (ht ▸ he)).symm

theorem Part.of_cutOff (w : g.WellFormed) {gone : Id → Bool} {node parent : Id}
    (hs : g.IsSubtree gone node parent) (hfree : g.Unrouted gone) :
    Part (g.cutOff gone node parent) g := by
  have w' := w.cutOff hs hfree
  have hkept : ∀ {s e}, (g.cutOff gone node parent).Ends s e →
      (g.cutOff gone node parent).direction? e = g.direction? e ∧
        (g.cutOff gone node parent).name? e = g.name? e ∧
        (g.cutOff gone node parent).channel? e = g.channel? e :=
    fun {s e} he => (kept_cutOff (w.stays_of_ends hfree (show g.Ends s e from he))).2
  refine
    { routes := fun {s r} hr => ⟨r, hr, rfl, rfl⟩
      listed := routesAt_sublist (fun e => by rw [routesOf_cutOff hfree]) fun b => ?_
      owner := fun {s e} he => ?_
      direction := fun he => (hkept he).1.symm
      channel := fun he => (hkept he).2.2.symm
      name := fun he => (hkept he).2.1.symm }
  · unfold tackIds
    rw [bus?_cutOff]
    cases hb : g.bus? b with
    | none => exact List.Sublist.refl _
    | some x =>
      rw [Option.filter_some]
      split
      · exact List.Sublist.refl _
      · exact List.nil_sublist _
  · cases e with
    | tack t =>
      obtain ⟨k, hk⟩ := IdMap.contains_iff.1 (w'.contains_of_ends he)
      have hk : (g.cutOff gone node parent).tack? t = some k := hk
      have hk' := hk
      rw [tack?_cutOff, Option.filter_eq_some_iff] at hk'
      simp only [terminalOf, tackOwner?, hk, hk'.1]
    | _ => rfl

theorem Part.of_edited (w : g.WellFormed) (h : Edited g g') : Part g' g := by
  have w' := w.edited h
  cases h with
  | group h => exact .of_extends w w' (addNode_extends w.ids h)
  | source h => exact .of_extends w w' (addNode_extends w.ids h)
  | pin h => exact .of_extends w w' (addPin_extends w.ids h)
  | gate h => exact .of_extends w w' (addGate_extends w.ids h)
  | bus h => exact .of_extends w w' (addBus_extends w.ids h)
  | alike h => exact .of_alike h

theorem Wired.edited (w : g.WellFormed) (hw : g.Wired) (h : Edited g g') : g'.Wired :=
  hw.of_part (w.edited h) (.of_edited w h)

theorem Part.of_detachAll (w : g.WellFormed) (routes : List Id) : Part (g.detachAll routes) g := by
  have h : (g.detachAll routes).WellFormed ∧ Part (g.detachAll routes) g :=
    foldl_keeps (fun c : Graph => c.WellFormed ∧ Part c g)
      (fun c route _ hc => ⟨hc.1.detach, (Part.of_detach hc.1 route).trans hc.2⟩) ⟨w, .refl g⟩
  exact h.2

theorem Part.of_removeNode (w : g.WellFormed) {node : Id}
    (h : (g.detachAll (g.routesWithin node)).removeSubtree node = .ok g') : Part g' g := by
  have wd := w.detachAll (g.routesWithin node)
  obtain ⟨-, parent, hs, rfl⟩ := removeSubtree_eq wd.tree h
  exact (Part.of_cutOff wd hs (w.free_detachAll node)).trans (.of_detachAll w _)

theorem Wired.detachAll (w : g.WellFormed) (hw : g.Wired) (routes : List Id) :
    (g.detachAll routes).Wired :=
  hw.of_part (w.detachAll routes) (.of_detachAll w routes)

theorem Wired.removeNode (w : g.WellFormed) (hw : g.Wired) {node : Id}
    (h : (g.detachAll (g.routesWithin node)).removeSubtree node = .ok g') : g'.Wired :=
  hw.of_part (w.removeNode h) (.of_removeNode w h)

theorem withRoot_wired (root : Id) (name : String) : (withRoot root name).Wired where
  sorted t := by
    have h : (withRoot root name).routesAt t = [] := by cases t <;> rfl
    rw [h]
    exact List.Pairwise.nil
  legal := nofun
  single := by
    rintro s s' a b ⟨r, hr, -⟩
    cases hr

/-! ## One more connection -/

section Attach

variable {a b : Terminal} {s : Id} {r : Route}

theorem Rerouted.sameEnd (h : Rerouted g g') {e : Endpoint} (he : e.endpointClass ≠ .tack) :
    SameEnd g g' e e := by
  have htack : ∀ t, e = .tack t → g'.tack? t = g.tack? t := by
    rintro t rfl
    exact absurd rfl he
  exact ⟨(h.direction?_eq htack).symm, (h.channel?_eq e).symm, (h.name?_eq htack).symm⟩

/-- Whether two terminals may be joined does not depend on routes. -/
theorem MayJoin.rerouted (h : g.MayJoin a b) (hr : Rerouted g g')
    (hbus : ∀ i, g'.buses.contains i = g.buses.contains i) : g'.MayJoin a b := by
  have hterminal : ∀ t, g'.hasTerminal t = g.hasTerminal t := fun t => by
    cases t with
    | pin i => exact hr.contains_pin i
    | proxy i => exact hr.contains_gate i
    | pad i => exact hr.contains_gate i
    | bus i => exact hbus i
  refine h.congr ((hterminal a).trans h.left) ((hterminal b).trans h.right) fun e he => ?_
  exact hr.sameEnd (he.elim endpointClass_of_endpoint? endpointClass_of_endpoint?)

theorem OneMore.contains_bus (h : OneMore small big s r) (i : Id) :
    big.buses.contains i = small.buses.contains i :=
  view_eq Option.isSome (h.buses i) fun _ => rfl

theorem OneMore.terminalOf_eq (h : OneMore small big s r) {e : Endpoint}
    (he : small.contains e = true) : big.terminalOf e = small.terminalOf e := by
  cases e with
  | tack t => simp only [terminalOf, tackOwner?, h.tack?_eq he]
  | _ => rfl

/-- The new route joins the two terminals it was made for. -/
theorem attach_joins (h : g.attach a b = .ok (s, g')) :
    ∃ r, g'.route? s = some r ∧ g'.terminalOf r.a = a ∧ g'.terminalOf r.b = b := by
  obtain ⟨rfl, ⟨x, y, hx, hy, -, -, rfl⟩ | ⟨bus, e, r, -, -, -, hr, rfl⟩⟩ := attach_eq h
  · exact ⟨_, (route?_joined _).trans (if_pos rfl), terminalOf_of_endpoint? hx,
      terminalOf_of_endpoint? hy⟩
  · have hbus : (g.joinedToBus bus e r).terminalOf g.freshTack = .bus bus := by
      show Terminal.bus (((g.joinedToBus bus e r).tackOwner? g.fresh.2.fresh.1).getD 0) = _
      rw [tackOwner?, tack?_freshTack]
      rfl
    refine ⟨r, (route?_joined _).trans (if_pos rfl), ?_⟩
    rcases hr with ⟨rfl, he, rfl⟩ | ⟨rfl, he, rfl⟩
    · exact ⟨hbus, terminalOf_of_endpoint? he⟩
    · exact ⟨terminalOf_of_endpoint? he, hbus⟩

/-- The routes of a bus do not change where it is not an end. -/
theorem routesAt_bus_joined (i : Id) : (g.joined r).routesAt (.bus i) = g.routesAt (.bus i) := by
  have hids : (g.joined r).tackIds i = g.tackIds i := by
    unfold tackIds
    rw [bus?_joined]
  simp only [routesAt, hids, routesOf, tack?_joined]

/-- A bus that is joined has the new route after those it had. -/
theorem routesAt_bus_joinedToBus (w : g.WellFormed) {bus : Id} {e : Endpoint}
    (hbus : g.buses.contains bus = true) (i : Id) :
    (g.joinedToBus bus e r).routesAt (.bus i) =
      if i = bus then g.routesAt (.bus i) ++ [g.fresh.1] else g.routesAt (.bus i) := by
  -- the tacks that were there keep their routes
  have hold : (g.tackIds i).flatMap (fun t => (g.joinedToBus bus e r).routesOf (.tack t)) =
      g.routesAt (.bus i) := by
    refine List.flatMap_congr fun t ht => ?_
    have hne : ¬ (Endpoint.tack t = g.freshTack) := by
      intro hf
      obtain ⟨k, hk, -⟩ := Option.map_eq_some_iff.1 (w.tacks.mem_iff.1 ht)
      have hlive : g.contains (.tack t) = true := IdMap.contains_of_get? hk
      rw [hf, w.ids.freshTack] at hlive
      cases hlive
    simp only [routesOf, tack?_joinedToBus, if_neg hne]
  have hnew : (g.joinedToBus bus e r).routesOf (.tack g.fresh.2.fresh.1) = [g.fresh.1] := by
    simp only [routesOf, tack?_freshTack]
    rfl
  simp only [routesAt]
  rw [tackIds_joinedToBus hbus]
  split
  · rw [List.flatMap_append, hold, List.flatMap_cons, List.flatMap_nil, hnew]
    rfl
  · exact hold

/-- A terminal has its routes as before, or the new one after them. -/
theorem routesAt_attach (w : g.WellFormed) (h : g.attach a b = .ok (s, g')) (hne : a ≠ b)
    (t : Terminal) : g'.routesAt t = g.routesAt t ∨ g'.routesAt t = g.routesAt t ++ [s] := by
  have hsplit : ∀ {c : Prop} [Decidable c] {old new : List Id},
      new = (if c then old ++ [g.fresh.1] else old) → new = old ∨ new = old ++ [g.fresh.1] := by
    intro c _ old new hif
    split at hif
    · exact Or.inr hif
    · exact Or.inl hif
  obtain ⟨rfl, ⟨x, y, hx, hy, hcx, hcy, rfl⟩ | ⟨bus, e, r, hbus, he, hte, hr, rfl⟩⟩ := attach_eq h
  · have hxy : x ≠ y := by
      rintro rfl
      cases a <;> cases b <;> cases hx <;> cases hy <;> exact hne rfl
    have hlist := fun e => hsplit (routesOf_joined hxy hcx hcy (endpointClass_of_endpoint? hx)
      (endpointClass_of_endpoint? hy) e)
    cases t with
    | bus i => exact Or.inl (routesAt_bus_joined i)
    | pin i => exact hlist (.pin i)
    | proxy i => exact hlist (.proxy i)
    | pad i => exact hlist (.pad i)
  · have hlist : ∀ x, (g.joinedToBus bus e r).routesOf x = g.routesOf x ∨
        (g.joinedToBus bus e r).routesOf x = g.routesOf x ++ [g.fresh.1] := fun x =>
      hsplit (routesOf_joinedToBus w.ids he hte (hr.imp (·.2.2) (·.2.2)) x)
    cases t with
    | bus i => exact hsplit (routesAt_bus_joinedToBus w hbus i)
    | pin i => exact hlist (.pin i)
    | proxy i => exact hlist (.proxy i)
    | pad i => exact hlist (.pad i)

/-- A new route comes after those that were there. -/
theorem InOrder.attach (ho : g.InOrder) (w : g.WellFormed) (hne : a ≠ b)
    (h : g.attach a b = .ok (s, g')) : g'.InOrder := by
  intro t
  rcases routesAt_attach w h hne t with ht | ht
  · rw [ht]
    exact ho t
  · rw [ht, List.pairwise_append]
    refine ⟨ho t, List.pairwise_singleton _ _, fun i hi j hj => ?_⟩
    rw [List.mem_singleton] at hj
    obtain ⟨e, ⟨x, hx, -⟩, -⟩ := ends_of_mem_routesAt w hi
    rw [hj, (attach_eq h).1]
    exact Nat.lt_of_lt_of_le (w.ids.below (k := .route) (IdMap.contains_of_get? hx))
      (Nat.le_max_left _ _)

/-- What a route joins was joined before, but for the new route. -/
theorem OneMore.joins (w : g.WellFormed) (hone : OneMore g g' s r) (ha : g'.terminalOf r.a = a)
    (hb : g'.terminalOf r.b = b) {i : Id} {x y : Terminal} (hj : g'.Joins i x y) :
    (i = s ∧ ((a = x ∧ b = y) ∨ (b = x ∧ a = y))) ∨ (i ≠ s ∧ g.Joins i x y) := by
  obtain ⟨r', hr', hj⟩ := hj
  by_cases hi : i = s
  · subst hi
    rw [hone.present] at hr'
    cases hr'
    rw [ha, hb] at hj
    exact Or.inl ⟨rfl, hj⟩
  · rw [hone.others i hi] at hr'
    rw [hone.terminalOf_eq (w.contains_of_ends ⟨r', hr', Or.inl rfl⟩),
      hone.terminalOf_eq (w.contains_of_ends ⟨r', hr', Or.inr rfl⟩)] at hj
    exact Or.inr ⟨hi, r', hr', hj⟩

/-- A legal connection that is not there yet keeps a graph wired. -/
theorem Wired.attach (w : g.WellFormed) (hw : g.Wired) (hm : g.MayJoin a b)
    (hnew : g.existingRoute? a b = none) (h : g.attach a b = .ok (s, g')) : g'.Wired := by
  obtain ⟨r, hone⟩ := attach_oneMore w.ids h
  obtain ⟨r₁, hr₁, hra, hrb⟩ := attach_joins h
  rw [hone.present] at hr₁
  cases hr₁
  have hnone := (existingRoute?_eq_none_iff w hm.endpoint).1 hnew
  refine ⟨InOrder.attach hw.sorted w hm.ne h, fun {i x} hx => ?_, fun {i i' x y} hj hj' => ?_⟩
  · by_cases hi : i = s
    · rw [hi, hone.present] at hx
      cases hx
      rw [hra, hrb]
      exact hm.rerouted hone.rerouted hone.contains_bus
    · rw [hone.others i hi] at hx
      rw [hone.terminalOf_eq (w.contains_of_ends ⟨x, hx, Or.inl rfl⟩),
        hone.terminalOf_eq (w.contains_of_ends ⟨x, hx, Or.inr rfl⟩)]
      exact (hw.legal hx).rerouted hone.rerouted hone.contains_bus
  · -- the terminals of the new route had none
    have hnot : ∀ {i}, (a = x ∧ b = y) ∨ (b = x ∧ a = y) → ¬ g.Joins i x y := by
      rintro i (⟨rfl, rfl⟩ | ⟨rfl, rfl⟩) hj
      · exact hnone i hj
      · exact hnone i hj.symm
    rcases hone.joins w hra hrb hj with ⟨rfl, hab⟩ | ⟨-, hg⟩ <;>
      rcases hone.joins w hra hrb hj' with ⟨rfl, hab'⟩ | ⟨-, hg'⟩
    · rfl
    · exact absurd hg' (hnot hab)
    · exact absurd hg (hnot hab')
    · exact hw.single hg hg'

end Attach

/-! ## Senders and receivers -/

/-- Messages pass a route from one endpoint to the other. -/
structure Sends (g : Graph) (s : Id) (x y : Endpoint) : Prop where
  across : g.across? x s = some y
  output : g.direction? x = some .output
  input : g.direction? y = some .input

section Sends

variable {s : Id} {r : Route} {x y x' y' : Endpoint}

/-- What a tack records is what its route's other end has. -/
theorem WellFormed.faces_across (w : g.WellFormed) {t : Id} {k : Tack} {far : Endpoint}
    (hk : g.tack? t = some k) (h : g.across? (.tack t) s = some far) :
    far.endpointClass ≠ .tack ∧ g.direction? far = some k.flow.direction.opposite ∧
      g.name? far = some k.message := by
  have hs := w.routes.mem_iff.2 (ends_of_across? h).1
  simp only [routesOf, hk, Option.elim_some, List.mem_singleton] at hs
  obtain ⟨far', hfar, hclass, hd, hn, -⟩ := w.faced t k hk
  rw [← hs, h] at hfar
  cases hfar
  exact ⟨hclass, hd, hn⟩

/-- A tack has the direction opposite to that of its route's other end. -/
theorem WellFormed.direction?_across_tack (w : g.WellFormed) {t : Id} {far : Endpoint}
    (h : g.across? (.tack t) s = some far) :
    g.direction? far = (g.direction? (.tack t)).map Direction.opposite := by
  obtain ⟨k, hk⟩ := IdMap.contains_iff.1 (w.contains_of_across? h).1
  have hk : g.tack? t = some k := hk
  simp only [direction?, hk, Option.map_some]
  exact (w.faces_across hk h).2.1

theorem across?_left (hr : g.route? s = some r) : g.across? r.a s = some r.b := by
  simp only [across?, hr, Option.bind_some, Route.other?, ↓reduceIte]

theorem WellFormed.across?_right (w : g.WellFormed) (hr : g.route? s = some r) :
    g.across? r.b s = some r.a := by
  simp only [across?, hr, Option.bind_some, Route.other?, ↓reduceIte, w.routes.differ hr]

/-- A tack and the other end of its route are an output and an input. -/
theorem WellFormed.opposite_of_tack (w : g.WellFormed) (hr : g.route? s = some r)
    (ht : r.a.endpointClass = .tack ∨ r.b.endpointClass = .tack) :
    g.direction? r.a ≠ g.direction? r.b := by
  have hne : ∀ d : Direction, d ≠ d.opposite := fun d => by cases d <;> nofun
  have hlive : g.contains r.a = true := w.contains_of_ends ⟨r, hr, Or.inl rfl⟩
  obtain ⟨d, hd⟩ := Option.isSome_iff_exists.1 (contains_eq_isSome_direction r.a ▸ hlive)
  intro he
  rcases ht with ha | hb
  · have hab := across?_left hr
    cases hra : r.a with
    | tack t =>
      rw [hra] at hab hd he
      have hopp := w.direction?_across_tack hab
      rw [← he, hd] at hopp
      exact hne d (Option.some.inj hopp)
    | _ => rw [hra] at ha; cases ha
  · have hba := w.across?_right hr
    cases hrb : r.b with
    | tack t =>
      rw [hrb] at hba he
      have hopp := w.direction?_across_tack hba
      rw [← he, hd] at hopp
      exact hne d (Option.some.inj hopp)
    | _ => rw [hrb] at hb; cases hb

/-- The two ends of a route are an output and an input. -/
theorem Wired.opposite (w : g.WellFormed) (hw : g.Wired) (hr : g.route? s = some r) :
    g.direction? r.a ≠ g.direction? r.b := by
  by_cases ha : r.a.endpointClass = .tack
  · exact w.opposite_of_tack hr (Or.inl ha)
  · by_cases hb : r.b.endpointClass = .tack
    · exact w.opposite_of_tack hr (Or.inr hb)
    · exact ((hw.legal hr).endpoints (endpoint?_terminalOf ha) (endpoint?_terminalOf hb)).opposite

/-- Every route of a wired graph sends from one of its ends to the other. -/
theorem Wired.exists_sends (w : g.WellFormed) (hw : g.Wired) (hr : g.route? s = some r) :
    ∃ x y, g.Sends s x y := by
  have ha : g.contains r.a = true := w.contains_of_ends ⟨r, hr, Or.inl rfl⟩
  have hb : g.contains r.b = true := w.contains_of_ends ⟨r, hr, Or.inr rfl⟩
  have hopp := hw.opposite w hr
  by_cases ho : g.direction? r.a = some .output
  · exact ⟨r.a, r.b, across?_left hr, ho, direction?_eq_opposite hb fun h => hopp (ho.trans h.symm)⟩
  · exact ⟨r.b, r.a, w.across?_right hr, direction?_of_ne ha hb hopp ho, direction?_eq_opposite ha ho⟩

namespace Sends

theorem route (h : g.Sends s x y) :
    ∃ r, g.route? s = some r ∧ ((r.a = x ∧ r.b = y) ∨ (r.b = x ∧ r.a = y)) := by
  obtain ⟨r, hr, ho⟩ := Option.bind_eq_some_iff.1 h.across
  refine ⟨r, hr, ?_⟩
  unfold Route.other? at ho
  split at ho
  · rename_i ha
    exact Or.inl ⟨ha, Option.some.inj ho⟩
  · split at ho
    · rename_i hb
      exact Or.inr ⟨hb, Option.some.inj ho⟩
    · cases ho

theorem ends_iff (h : g.Sends s x y) {e : Endpoint} : g.Ends s e ↔ x = e ∨ y = e := by
  obtain ⟨r, hr, hends⟩ := h.route
  constructor
  · rintro ⟨r', hr', he⟩
    cases hr.symm.trans hr'
    rcases hends with ⟨rfl, rfl⟩ | ⟨rfl, rfl⟩
    · exact he
    · exact he.symm
  · intro he
    refine ⟨r, hr, ?_⟩
    rcases hends with ⟨rfl, rfl⟩ | ⟨rfl, rfl⟩
    · exact he
    · exact he.symm

theorem unique (h : g.Sends s x y) (h' : g.Sends s x' y') : x = x' ∧ y = y' := by
  have hne : (some Direction.output : Option Direction) ≠ some .input := nofun
  have hx : x = x' := by
    rcases h.ends_iff.1 (h'.ends_iff.2 (Or.inl rfl)) with he | he
    · exact he
    · exact absurd (h'.output.symm.trans (he ▸ h.input)) hne
  subst hx
  exact ⟨rfl, Option.some.inj (h.across.symm.trans h'.across)⟩

theorem sender (h : g.Sends s x y) : g.sender? s = some x := by
  obtain ⟨r, hr, hends⟩ := h.route
  simp only [sender?, hr, Option.map_some]
  rcases hends with ⟨rfl, rfl⟩ | ⟨rfl, rfl⟩
  · rw [if_pos h.output]
  · rw [if_neg (by rw [h.input]; nofun)]

theorem joins_iff (h : g.Sends s x y) {a b : Terminal} : g.Joins s a b ↔
    (g.terminalOf x = a ∧ g.terminalOf y = b) ∨ (g.terminalOf y = a ∧ g.terminalOf x = b) := by
  obtain ⟨r, hr, hends⟩ := h.route
  constructor
  · rintro ⟨r', hr', hj⟩
    cases hr.symm.trans hr'
    rcases hends with ⟨rfl, rfl⟩ | ⟨rfl, rfl⟩
    · exact hj
    · exact hj.symm
  · intro hj
    refine ⟨r, hr, ?_⟩
    rcases hends with ⟨rfl, rfl⟩ | ⟨rfl, rfl⟩
    · exact hj
    · exact hj.symm

theorem mayJoin (hw : g.Wired) (h : g.Sends s x y) : g.MayJoin (g.terminalOf x) (g.terminalOf y) := by
  obtain ⟨r, hr, ⟨rfl, rfl⟩ | ⟨rfl, rfl⟩⟩ := h.route
  · exact hw.legal hr
  · exact (hw.legal hr).symm

theorem contains (w : g.WellFormed) (h : g.Sends s x y) :
    g.contains x = true ∧ g.contains y = true := w.contains_of_across? h.across

end Sends
end Sends

end MessageGraph.Graph
