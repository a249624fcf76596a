import MessageGraph.Proofs.Graph.Subtree
import MessageGraph.Proofs.Resolution.Delivery

/-!
# Deliveries in two graphs

When does a message do in one graph what it does in another? `Carries stop g g'` says that whatever can
be done in `g` without passing `stop` can be done in `g'`; messages that do not pass `stop` are then
delivered in `g'` as in `g` (`Carries.delivers`), as long as they leave the graph by the same gates.

* `Within`, `Grown`: a graph with more routes, or with more besides, carries what the smaller one does;
* `OneMore.carries_small`: the smaller one carries what does not pass the sender of the one route that
  it does not have.
-/
namespace MessageGraph.Graph

variable {g g' : Graph} {name : String} {origin : Endpoint}

/-! ## The same at an endpoint -/

/-- What messages see of a pin. -/
def pinSite? (g : Graph) (pin : Id) : Option (Id × String × Direction) :=
  (g.pin? pin).map fun p => (p.node, p.name, p.direction)

/-- What messages see of a gate. -/
def gateSite? (g : Graph) (gate : Id) : Option (Id × String × Direction) :=
  (g.gate? gate).map fun p => (p.group, p.name, p.direction)

/-- Whether the bus of a tack is filtered. -/
def filtered? (g : Graph) (tack : Id) : Option Bool := (g.busOf? tack).map (·.isFiltered)

/-- Messages see the same of an endpoint in two graphs. -/
def SameAt (g g' : Graph) : Endpoint → Prop
  | .pin i => g'.pinSite? i = g.pinSite? i
  | .proxy i => g'.gateSite? i = g.gateSite? i
  | .pad i => g'.gateSite? i = g.gateSite? i
  | .tack t => g'.tack? t = g.tack? t ∧ g'.filtered? t = g.filtered? t

namespace SameAt

theorem refl (g : Graph) (e : Endpoint) : SameAt g g e := by
  cases e with
  | tack t => exact ⟨rfl, rfl⟩
  | _ => rfl

theorem trans {g₁ g₂ g₃ : Graph} {e : Endpoint} (h : SameAt g₁ g₂ e) (k : SameAt g₂ g₃ e) :
    SameAt g₁ g₃ e := by
  cases e with
  | pin i => exact Eq.trans k h
  | proxy i => exact Eq.trans k h
  | pad i => exact Eq.trans k h
  | tack t => exact ⟨k.1.trans h.1, k.2.trans h.2⟩

theorem symm {e : Endpoint} (h : SameAt g g' e) : SameAt g' g e := by
  cases e with
  | pin i => exact Eq.symm h
  | proxy i => exact Eq.symm h
  | pad i => exact Eq.symm h
  | tack t => exact ⟨h.1.symm, h.2.symm⟩

theorem direction?_eq {e : Endpoint} (h : SameAt g g' e) : g'.direction? e = g.direction? e := by
  have hpin : ∀ {x : Graph} {i}, x.direction? (.pin i) = (x.pinSite? i).map (·.2.2) := by
    intro x i
    simp only [direction?, pinSite?, Option.map_map]
    rfl
  have hgate : ∀ {x : Graph} {i}, x.direction? (.pad i) = (x.gateSite? i).map (·.2.2) := by
    intro x i
    simp only [direction?, gateSite?, Option.map_map]
    rfl
  have hproxy : ∀ {x : Graph} {i},
      x.direction? (.proxy i) = (x.gateSite? i).map (·.2.2.opposite) := by
    intro x i
    simp only [direction?, gateSite?, Option.map_map]
    rfl
  cases e with
  | pin i => rw [hpin, hpin, show g'.pinSite? i = g.pinSite? i from h]
  | proxy i => rw [hproxy, hproxy, show g'.gateSite? i = g.gateSite? i from h]
  | pad i => rw [hgate, hgate, show g'.gateSite? i = g.gateSite? i from h]
  | tack t => simp only [direction?, h.1]

theorem name?_eq {e : Endpoint} (h : SameAt g g' e) : g'.name? e = g.name? e := by
  have hpin : ∀ {x : Graph} {i}, x.name? (.pin i) = (x.pinSite? i).map (·.2.1) := by
    intro x i
    simp only [name?, pinSite?, Option.map_map]
    rfl
  have hgate : ∀ {x : Graph} {i}, x.name? (.pad i) = (x.gateSite? i).map (·.2.1) := by
    intro x i
    simp only [name?, gateSite?, Option.map_map]
    rfl
  cases e with
  | pin i => rw [hpin, hpin, show g'.pinSite? i = g.pinSite? i from h]
  | proxy i =>
    show g'.name? (.pad i) = g.name? (.pad i)
    rw [hgate, hgate, show g'.gateSite? i = g.gateSite? i from h]
  | pad i => rw [hgate, hgate, show g'.gateSite? i = g.gateSite? i from h]
  | tack t => simp only [name?, h.1]

theorem nameOf_eq {e : Endpoint} (h : SameAt g g' e) : g'.nameOf e = g.nameOf e := by
  unfold nameOf
  rw [h.name?_eq]

theorem isOrigin_eq {e : Endpoint} (h : SameAt g g' e) : g'.isOrigin e = g.isOrigin e := by
  have helim : ∀ {x : Graph} {t}, (x.busOf? t).elim false (·.isFiltered) =
      (x.filtered? t).getD false := by
    intro x t
    unfold filtered?
    cases x.busOf? t <;> rfl
  cases e with
  | pin i => simp only [isOrigin, h.direction?_eq]
  | proxy i => rfl
  | pad i => rfl
  | tack t => simp only [isOrigin, h.direction?_eq, helim, h.2]

theorem pin {i : Id} {p : Pin} (h : SameAt g g' (.pin i)) (hp : g.pin? i = some p) :
    ∃ q, g'.pin? i = some q ∧ q.node = p.node ∧ q.name = p.name := by
  have h : g'.pinSite? i = g.pinSite? i := h
  rw [pinSite?, pinSite?, hp] at h
  obtain ⟨q, hq, hsite⟩ := Option.map_eq_some_iff.1 h
  simp only [Prod.mk.injEq] at hsite
  exact ⟨q, hq, hsite.1, hsite.2.1⟩

/-- The two sides of a gate are the same or differ together. -/
theorem pad {i : Id} (h : SameAt g g' (.proxy i)) : SameAt g g' (.pad i) := h

theorem gate {i : Id} {p : Gate} (h : SameAt g g' (.pad i)) (hp : g.gate? i = some p) :
    ∃ q, g'.gate? i = some q ∧ q.group = p.group ∧ q.name = p.name := by
  have h : g'.gateSite? i = g.gateSite? i := h
  rw [gateSite?, gateSite?, hp] at h
  obtain ⟨q, hq, hsite⟩ := Option.map_eq_some_iff.1 h
  simp only [Prod.mk.injEq] at hsite
  exact ⟨q, hq, hsite.1, hsite.2.1⟩

theorem tack {t : Id} {k : Tack} {b : Bus} (h : SameAt g g' (.tack t)) (hk : g.tack? t = some k)
    (hb : g.bus? k.bus = some b) :
    g'.tack? t = some k ∧ ∃ c, g'.bus? k.bus = some c ∧ c.isFiltered = b.isFiltered := by
  obtain ⟨ht, hf⟩ := h
  have hk' : g'.tack? t = some k := ht.trans hk
  rw [filtered?, filtered?, busOf?, busOf?, hk', hk, Option.bind_some, Option.bind_some, hb] at hf
  obtain ⟨c, hc, hcf⟩ := Option.map_eq_some_iff.1 hf
  exact ⟨hk', c, hc, hcf⟩

end SameAt

theorem routesOf_pad {gate : Id} {p : Gate} (hp : g.gate? gate = some p) :
    g.routesOf (.pad gate) = p.padRoutes := by
  rw [routesOf, hp, Option.elim_some]

/-- Messages leave the graph at a gate of the top-level group that has no route at its pad. -/
theorem Delivers.gate {group gate : Id} (h : g.Delivers name origin (.boundary group gate)) :
    ∃ p, g.gate? gate = some p ∧ p.group = g.root ∧ group = g.root ∧
      g.routesOf (.pad gate) = [] := by
  generalize hx : Target.boundary group gate = x at h
  cases h with
  | pin => cases hx
  | tack => cases hx
  | boundary _ _ hp hroot hpad _ =>
    cases hx
    exact ⟨_, hp, hroot, hroot, by rw [routesOf_pad hp, hpad]⟩

/-- A gate that receives inside leads out. -/
theorem Delivers.gate_output {group gate : Id} {p : Gate}
    (h : g.Delivers name origin (.boundary group gate)) (hp : g.gate? gate = some p) :
    p.direction = .output := by
  generalize hx : Target.boundary group gate = x at h
  cases h with
  | pin => cases hx
  | tack => cases hx
  | boundary _ hc _ _ _ _ =>
    cases hx
    have hin := hc.input
    simp only [direction?, hp, Option.map_some, Option.some.injEq] at hin
    cases hd : p.direction with
    | output => rfl
    | input => rw [hd] at hin; cases hin

theorem exists_across? {route : Id} {e : Endpoint} (h : g.Ends route e) :
    ∃ far, g.across? e route = some far := by
  obtain ⟨r, hr, hend⟩ := h
  rw [across?, hr, Option.bind_some, Route.other?]
  by_cases ha : r.a = e
  · exact ⟨r.b, by rw [if_pos ha]⟩
  · have hb : r.b = e := hend.resolve_left ha
    exact ⟨r.a, by rw [if_neg ha, if_pos hb]⟩

/-! ## What one graph carries of another -/

/-- What messages do in `g` they do in `g'`, unless they pass a `stop`. -/
structure Carries (stop : Endpoint → Prop) (g g' : Graph) : Prop where
  root : g'.root = g.root
  crosses : ∀ {e far}, g.Crosses e far → ¬ stop e → g'.Crosses e far ∧ SameAt g g' far
  sends : ∀ {t k}, g.tack? t = some k → k.flow = .outgoing → ¬ stop (.tack t) → g'.tack? t = some k
  outlet : ∀ {e gate}, g.Crosses e (.proxy gate) → ¬ stop e → ¬ stop (.pad gate) →
    g'.Outlet gate → g.Outlet gate

namespace Carries

variable {stop : Endpoint → Prop}

theorem reaches (c : Carries stop g g') (hstop : ∀ e, stop e → ¬ g.Reaches name origin e)
    {e : Endpoint} (h : g.Reaches name origin e) : g'.Reaches name origin e := by
  have hpass : ∀ {x}, g.Reaches name origin x → ¬ stop x := fun hx hs => hstop _ hs hx
  induction h with
  | start => exact .start
  | leave he hc hout ih =>
    refine .leave ih (c.crosses hc (hpass he)).1 fun h => hout ?_
    exact c.outlet hc (hpass he) (hpass (.leave he hc hout)) h
  | enter he hc ih => exact .enter ih (c.crosses hc (hpass he)).1
  | spread he hc hk hb hf hl hbus hflow hn ih =>
    obtain ⟨hc', hsame⟩ := c.crosses hc (hpass he)
    obtain ⟨hk', b', hb', hf'⟩ := hsame.tack hk hb
    have hl' := c.sends hl hflow (hpass (.spread he hc hk hb hf hl hbus hflow hn))
    exact .spread ih hc' hk' hb' (hf'.trans hf) hl' hbus hflow hn

/-- What a message is delivered to in `g` it is delivered to in `g'`. For a gate of the top-level group
this takes that no route goes on from there. -/
theorem delivers (c : Carries stop g g') (hstop : ∀ e, stop e → ¬ g.Reaches name origin e)
    {t : Target} (h : g.Delivers name origin t)
    (hgate : ∀ group gate, t = .boundary group gate → g'.routesOf (.pad gate) = []) :
    g'.Delivers name origin t := by
  have hpass : ∀ {x}, g.Reaches name origin x → ¬ stop x := fun hx hs => hstop _ hs hx
  cases h with
  | @pin e i p he hc hp hn =>
    obtain ⟨hc', hsame⟩ := c.crosses hc (hpass he)
    obtain ⟨q, hq, hnode, hname⟩ := hsame.pin hp
    rw [← hnode]
    exact .pin (c.reaches hstop he) hc' hq (by rw [hname]; exact hn)
  | @tack e i k b he hc hk hb hf =>
    obtain ⟨hc', hsame⟩ := c.crosses hc (hpass he)
    obtain ⟨hk', b', hb', hf'⟩ := hsame.tack hk hb
    exact .tack (c.reaches hstop he) hc' hk' hb' (hf'.trans hf)
  | @boundary e gate p he hc hp hroot hpad hn =>
    obtain ⟨hc', hsame⟩ := c.crosses hc (hpass he)
    obtain ⟨q, hq, hgroup, hname⟩ := hsame.pad.gate hp
    rw [← hgroup]
    refine .boundary (c.reaches hstop he) hc' hq (by rw [hgroup, hroot, c.root]) ?_
      (by rw [hname]; exact hn)
    rw [← routesOf_pad hq]
    exact hgate p.group gate rfl

end Carries

/-! ## Graphs with the same routes, or with more -/

/-- What is on a route of `g` is on it in `g'`, and messages see the same of it. -/
structure Within (g g' : Graph) : Prop where
  root : g'.root = g.root
  across : ∀ {e route far}, g.across? e route = some far → g'.across? e route = some far
  same : ∀ {route e}, g.Ends route e → SameAt g g' e

/-- Moreover `g'` has every endpoint of `g`. -/
structure Grown (g g' : Graph) : Prop extends Within g g' where
  kept : ∀ {e}, g.contains e = true → SameAt g g' e

namespace Within

theorem symm (h : Within g g')
    (hback : ∀ {e route far}, g'.across? e route = some far → g.across? e route = some far) :
    Within g' g where
  root := h.root.symm
  across := hback
  same := by
    intro route e he
    obtain ⟨far, hfar⟩ := exists_across? he
    exact (h.same (ends_of_across? (hback hfar)).1).symm

theorem crosses (h : Within g g') {e far : Endpoint} (hc : g.Crosses e far) :
    g'.Crosses e far ∧ SameAt g g' far := by
  obtain ⟨hout, route, ha, hin⟩ := hc
  obtain ⟨he, hfar⟩ := ends_of_across? ha
  refine ⟨⟨?_, route, h.across ha, ?_⟩, h.same hfar⟩
  · exact (h.same he).direction?_eq.trans hout
  · exact (h.same hfar).direction?_eq.trans hin

theorem routesOf_eq_nil (h : Within g g') (w : g.WellFormed) (w' : g'.WellFormed) {e : Endpoint}
    (he : g'.routesOf e = []) : g.routesOf e = [] := by
  refine List.eq_nil_iff_forall_not_mem.2 fun route hr => ?_
  obtain ⟨far, hfar⟩ := exists_across? (w.routes.mem_iff.1 hr)
  have hmem := w'.routes.mem_iff.2 (ends_of_across? (h.across hfar)).1
  rw [he] at hmem
  cases hmem

/-- With more routes, messages pass wherever they passed before. -/
theorem carries (h : Within g g') (w : g.WellFormed) (w' : g'.WellFormed) :
    Carries (fun _ => False) g g' where
  root := h.root
  crosses hc _ := h.crosses hc
  sends := by
    intro t k hk _ _
    obtain ⟨far, ha, -⟩ := w.faced t k hk
    exact (h.same (ends_of_across? ha).1).1.trans hk
  outlet := by
    intro e gate hc _ _ hout
    obtain ⟨q, hq, hroot, hpad⟩ := hout
    obtain ⟨p, hp, hgroup, -⟩ := (h.crosses hc).2.pad.symm.gate hq
    refine ⟨p, hp, by rw [hgroup, hroot, h.root], ?_⟩
    rw [← routesOf_pad hp]
    refine h.routesOf_eq_nil w w' ?_
    rw [routesOf_pad hq, hpad]

/-- What is delivered keeps its key. -/
theorem targetKey_eq (h : Within g g') {t : Target} (ht : g.Delivers name origin t) :
    g'.targetKey t = g.targetKey t := by
  cases ht with
  | pin _ hc _ _ => rw [targetKey, targetKey, (h.crosses hc).2.nameOf_eq]
  | tack _ hc _ _ _ => rw [targetKey, targetKey, (h.crosses hc).2.nameOf_eq]
  | boundary _ hc _ _ _ _ => rw [targetKey, targetKey, (h.crosses hc).2.pad.nameOf_eq]

/-- With more routes, a message is delivered to what it was delivered to before, except to a gate where
a route leads on. -/
theorem delivers_or_leads_on (h : Within g g') (w : g.WellFormed) (w' : g'.WellFormed) {t : Target}
    (ht : g.Delivers name origin t) :
    (∃ group gate, t = .boundary group gate ∧ g'.routesOf (.pad gate) ≠ []) ∨
      g'.Delivers name origin t := by
  by_cases hgate : ∃ group gate, t = .boundary group gate ∧ g'.routesOf (.pad gate) ≠ []
  · exact Or.inl hgate
  · refine Or.inr ((h.carries w w').delivers (fun _ => False.elim) ht fun group gate ht' => ?_)
    by_contra hne
    exact hgate ⟨group, gate, ht', hne⟩

/-- Two graphs with the same routes deliver the same. -/
theorem delivers (h : Within g g') (hback : Within g' g) (w : g.WellFormed) (w' : g'.WellFormed)
    {t : Target} (ht : g.Delivers name origin t) : g'.Delivers name origin t := by
  refine (h.carries w w').delivers (fun _ => False.elim) ht fun group gate hgate => ?_
  subst hgate
  obtain ⟨_, _, _, _, hpad⟩ := ht.gate
  exact hback.routesOf_eq_nil w' w hpad

end Within

namespace Grown

theorem of_kept (w : g.WellFormed) (hroot : g'.root = g.root)
    (hacross : ∀ {e route far}, g.across? e route = some far → g'.across? e route = some far)
    (hkept : ∀ {e}, g.contains e = true → SameAt g g' e) : Grown g g' where
  root := hroot
  across := hacross
  same he := hkept (w.contains_of_ends he)
  kept := hkept

theorem trans {g₁ g₂ g₃ : Graph} (h : Grown g₁ g₂) (k : Grown g₂ g₃) : Grown g₁ g₃ where
  root := k.root.trans h.root
  across ha := k.across (h.across ha)
  same := by
    intro route e he
    obtain ⟨far, hfar⟩ := exists_across? he
    exact (h.same he).trans (k.same (ends_of_across? (h.across hfar)).1)
  kept := by
    intro e he
    have hsame := h.kept he
    refine hsame.trans (k.kept ?_)
    rwa [contains_eq_isSome_direction, hsame.direction?_eq, ← contains_eq_isSome_direction]

theorem refl (g : Graph) : Grown g g :=
  ⟨⟨rfl, id, fun _ => SameAt.refl g _⟩, fun _ => SameAt.refl g _⟩

theorem isOrigin (h : Grown g g') (ho : g.isOrigin origin = true) : g'.isOrigin origin = true :=
  (h.kept (contains_of_direction (output_of_isOrigin ho))).isOrigin_eq.trans ho

theorem nameOf_eq (h : Grown g g') (ho : g.isOrigin origin = true) :
    g'.nameOf origin = g.nameOf origin :=
  (h.kept (contains_of_direction (output_of_isOrigin ho))).nameOf_eq

/-- An origin of the larger graph is one of the smaller graph if it is there. -/
theorem isOrigin_of_contains (h : Grown g g') (ho : g'.isOrigin origin = true)
    (hlive : g.contains origin = true) : g.isOrigin origin = true :=
  (h.kept hlive).isOrigin_eq.symm.trans ho

end Grown

theorem Extends.grown (h : Extends g g') (w : g.WellFormed) : Grown g g' := by
  refine .of_kept w h.root (fun ha => (h.across?_eq _ _).trans ha) fun {e} hlive => ?_
  cases e with
  | pin i => exact congrArg (Option.map _) (h.pins hlive)
  | proxy i => exact congrArg (Option.map _) (h.gates hlive)
  | pad i => exact congrArg (Option.map _) (h.gates hlive)
  | tack t =>
    refine ⟨h.tacks t, ?_⟩
    obtain ⟨k, hk⟩ := IdMap.contains_iff.1 hlive
    have hk : g.tack? t = some k := hk
    obtain ⟨b, hb⟩ := w.bus_of_tack hk
    unfold filtered? busOf?
    rw [h.tacks, hk, Option.bind_some, Option.bind_some, h.buses (IdMap.contains_of_get? hb)]

theorem Extends.within_symm (h : Extends g g') (w : g.WellFormed) : Within g' g :=
  (h.grown w).symm fun ha => (h.across?_eq _ _).symm.trans ha

theorem Alike.grown (h : Alike g g') (w : g.WellFormed) : Grown g g' := by
  refine .of_kept w h.root (fun ha => (h.across?_eq _ _).trans ha) fun {e} _ => ?_
  cases e with
  | pin i => exact view_eq (fun o : Option Pin => o.map _) (h.pins i) fun _ => rfl
  | proxy i => exact view_eq (fun o : Option Gate => o.map _) (h.gates i) fun _ => rfl
  | pad i => exact view_eq (fun o : Option Gate => o.map _) (h.gates i) fun _ => rfl
  | tack t =>
    refine ⟨h.tacks t, ?_⟩
    unfold filtered? busOf?
    rw [h.tacks]
    cases g.tack? t with
    | none => rfl
    | some k => exact view_eq (fun o : Option Bus => o.map _) (h.buses k.bus) fun _ => rfl

theorem Alike.within_symm (h : Alike g g') (w : g.WellFormed) : Within g' g :=
  (h.grown w).symm fun ha => (h.across?_eq _ _).symm.trans ha

/-- What a subtree leaves standing is as it was. -/
theorem cutOff_sameAt {gone : Id → Bool} {node parent : Id} {e : Endpoint}
    (he : (g.cutOff gone node parent).contains e = true) :
    SameAt (g.cutOff gone node parent) g e := by
  cases e with
  | pin i =>
    obtain ⟨p, hp⟩ := IdMap.contains_iff.1 he
    have hp : (g.cutOff gone node parent).pin? i = some p := hp
    refine congrArg (Option.map _) (Eq.trans ?_ hp.symm)
    rw [pin?_cutOff, Option.filter_eq_some_iff] at hp
    exact hp.1
  | proxy i =>
    obtain ⟨p, hp⟩ := IdMap.contains_iff.1 he
    have hp : (g.cutOff gone node parent).gate? i = some p := hp
    refine congrArg (Option.map _) (Eq.trans ?_ hp.symm)
    rw [gate?_cutOff, Option.filter_eq_some_iff] at hp
    exact hp.1
  | pad i =>
    obtain ⟨p, hp⟩ := IdMap.contains_iff.1 he
    have hp : (g.cutOff gone node parent).gate? i = some p := hp
    refine congrArg (Option.map _) (Eq.trans ?_ hp.symm)
    rw [gate?_cutOff, Option.filter_eq_some_iff] at hp
    exact hp.1
  | tack t =>
    obtain ⟨k, hk⟩ := IdMap.contains_iff.1 he
    have hk : (g.cutOff gone node parent).tack? t = some k := hk
    have hk' := hk
    rw [tack?_cutOff, Option.filter_eq_some_iff] at hk'
    refine ⟨hk'.1.trans hk.symm, ?_⟩
    unfold filtered? busOf?
    rw [hk, hk'.1, Option.bind_some, Option.bind_some, bus?_cutOff]
    refine congrArg (Option.map _) (filter_eq_self fun b hb => ?_).symm
    have hgone := hk'.2
    rwa [busGone, busOwner?, hb, Option.map_some, Option.elim_some] at hgone

/-- A graph less a subtree that no route touches has all its routes. -/
theorem WellFormed.removeSubtree_grown (w : g.WellFormed) {node : Id}
    (h : g.removeSubtree node = .ok g') (hfree : g.Unrouted (g.descendants node).contains) :
    Grown g' g ∧ Within g g' := by
  have w' := w.removeSubtree h hfree
  obtain ⟨-, parent, -, rfl⟩ := removeSubtree_eq w.tree h
  have hgrown : Grown _ g := .of_kept w' rfl id cutOff_sameAt
  exact ⟨hgrown, hgrown.symm id⟩

/-! ## The graph with a route and the graph without it -/

/-- The end of a route that is an output and leads to an input is the one that sends. -/
theorem eq_sender {route : Id} {e far s : Endpoint}
    (hs : g.sender? route = some s) (ha : g.across? e route = some far)
    (hout : g.direction? e = some .output) (hin : g.direction? far = some .input) : e = s := by
  obtain ⟨r, hr, hsend⟩ := Option.map_eq_some_iff.1 hs
  rw [across?, hr, Option.bind_some, Route.other?] at ha
  by_cases hae : r.a = e
  · rw [if_pos (by rw [hae, hout]), hae] at hsend
    exact hsend
  · rw [if_neg hae] at ha
    by_cases hbe : r.b = e
    · rw [if_pos hbe] at ha
      cases ha
      rw [if_neg (by simp [hin]), hbe] at hsend
      exact hsend
    · rw [if_neg hbe] at ha
      cases ha

namespace OneMore

variable {small big : Graph} {route : Id} {r : Route}

theorem exists_sender (h : OneMore small big route r) : ∃ s, big.sender? route = some s := by
  rw [sender?, h.present]
  exact ⟨_, rfl⟩

theorem sameAt (h : OneMore small big route r) {e : Endpoint} (he : small.contains e = true) :
    SameAt small big e := by
  cases e with
  | pin i => exact view_eq (fun o : Option Pin => o.map _) (h.rerouted.pins i) fun _ => rfl
  | proxy i => exact view_eq (fun o : Option Gate => o.map _) (h.rerouted.gates i) fun _ => rfl
  | pad i => exact view_eq (fun o : Option Gate => o.map _) (h.rerouted.gates i) fun _ => rfl
  | tack t =>
    refine ⟨h.tack?_eq he, ?_⟩
    unfold filtered? busOf?
    rw [h.tack?_eq he]
    cases small.tack? t with
    | none => rfl
    | some k => exact view_eq (fun o : Option Bus => o.map _) (h.buses k.bus) fun _ => rfl

theorem grown (h : OneMore small big route r) (w : small.WellFormed) : Grown small big := by
  refine .of_kept w h.rerouted.root (fun {e i far} ha => ?_) h.sameAt
  have hi : i ≠ route := by
    intro hi
    rw [hi, across?, h.absent] at ha
    cases ha
  simpa only [across?, h.others i hi] using ha

theorem across_small (h : OneMore small big route r) {e far : Endpoint} {i : Id} (hi : i ≠ route)
    (ha : big.across? e i = some far) : small.across? e i = some far := by
  simpa only [across?, h.others i hi] using ha

/-- A gate that is an outlet without the route is one with it, or its pad sends along the route. -/
theorem outlet_big (h : OneMore small big route r) (w : small.WellFormed) (w' : big.WellFormed)
    {s e : Endpoint} {gate : Id} (hs : big.sender? route = some s)
    (hc : big.Crosses e (.proxy gate)) (hne : .pad gate ≠ s) (hout : small.Outlet gate) :
    big.Outlet gate := by
  obtain ⟨p, hp, hroot, hpad⟩ := hout
  obtain ⟨q, hq, hgroup, -⟩ := (h.sameAt (e := .pad gate) (IdMap.contains_of_get? hp)).gate hp
  refine ⟨q, hq, by rw [hgroup, hroot, h.rerouted.root], ?_⟩
  rw [← routesOf_pad hq]
  refine List.eq_nil_iff_forall_not_mem.2 fun i hi => ?_
  obtain ⟨far, hfar⟩ := exists_across? (w'.routes.mem_iff.1 hi)
  by_cases hir : i = route
  · subst hir
    have hdir : big.direction? (.pad gate) = some .output := output_of_input.1 hc.input
    have hopp := w'.opposed gate q i far hq (by rw [hgroup, hroot, h.rerouted.root]) hfar
    rw [direction?, hq, Option.map_some, Option.some.injEq] at hdir
    rw [hdir] at hopp
    exact hne (eq_sender hs hfar (by rw [direction?, hq, Option.map_some, hdir]) hopp)
  · have hmem := w.routes.mem_iff.2 (ends_of_across? (h.across_small hir hfar)).1
    rw [routesOf_pad hp, hpad] at hmem
    cases hmem

/-- Without the route, messages pass wherever they passed before, unless they pass its sender. -/
theorem carries_small (h : OneMore small big route r) (w : small.WellFormed) (w' : big.WellFormed)
    {s : Endpoint} (hs : big.sender? route = some s) : Carries (· = s) big small where
  root := h.rerouted.root.symm
  crosses := by
    intro e far hc hne
    obtain ⟨hout, i, ha, hin⟩ := hc
    have hi : i ≠ route := by
      intro hi
      subst hi
      exact hne (eq_sender hs ha hout hin)
    have ha' := h.across_small hi ha
    obtain ⟨he, hfar⟩ := w.contains_of_across? ha'
    refine ⟨⟨?_, i, ha', ?_⟩, (h.sameAt hfar).symm⟩
    · exact (h.sameAt he).symm.direction?_eq.trans hout
    · exact (h.sameAt hfar).symm.direction?_eq.trans hin
  sends := by
    intro t k hk hflow hne
    obtain ⟨far, ha, -, hfar, -⟩ := w'.faced t k hk
    have hroute : k.route ≠ route := by
      intro he
      rw [he] at ha
      refine hne (eq_sender hs ha ?_ ?_)
      · rw [direction?_tack hk, hflow]; rfl
      · rw [hfar, hflow]; rfl
    have hlive := (w.contains_of_across? (h.across_small hroute ha)).1
    exact (h.tack?_eq hlive).symm.trans hk
  outlet := fun hc _ hne hout => h.outlet_big w w' hs hc hne hout

/-! ### Messages that do not pass the sender -/

section Unpassed

variable {s : Endpoint}

theorem delivers_big (h : OneMore small big route r) (w : small.WellFormed) (w' : big.WellFormed)
    (hs : big.sender? route = some s) (hpass : ¬ big.Reaches name origin s) {t : Target}
    (ht : small.Delivers name origin t) : big.Delivers name origin t := by
  have c := (h.grown w).carries w w'
  refine c.delivers (fun _ => False.elim) ht fun group gate hgate => ?_
  subst hgate
  cases ht with
  | @boundary e _ p he hc hp hroot hpad _ =>
    have he' := c.reaches (fun _ => False.elim) he
    have hc' := (c.crosses hc not_false).1
    have hout : big.Outlet gate := by
      by_contra hout
      refine hout (h.outlet_big w w' hs hc' (fun heq => hpass ?_) ⟨p, hp, hroot, hpad⟩)
      rw [← heq]
      exact .leave he' hc' hout
    obtain ⟨q, hq, -, hqpad⟩ := hout
    rw [routesOf_pad hq, hqpad]

theorem delivers_small (h : OneMore small big route r) (w : small.WellFormed) (w' : big.WellFormed)
    (hs : big.sender? route = some s) (hpass : ¬ big.Reaches name origin s) {t : Target}
    (ht : big.Delivers name origin t) : small.Delivers name origin t := by
  have hstop : ∀ e, e = s → ¬ big.Reaches name origin e := by
    intro e he
    rw [he]
    exact hpass
  refine (h.carries_small w w' hs).delivers hstop ht fun group gate hgate => ?_
  subst hgate
  obtain ⟨_, _, _, _, hpad⟩ := ht.gate
  exact (h.grown w).routesOf_eq_nil w w' hpad

/-- An origin whose messages do not pass the sender of a route reaches the same with and without it. -/
theorem mem_reachedKeys_iff (h : OneMore small big route r) (w : small.WellFormed)
    (w' : big.WellFormed) (hs : big.sender? route = some s) (ho : small.isOrigin origin = true)
    (hpass : ¬ big.Reaches (big.nameOf origin) origin s) {k : TargetKey} :
    k ∈ big.reachedKeys origin ↔ k ∈ small.reachedKeys origin := by
  have hg := h.grown w
  rw [mem_reachedKeys w' (hg.isOrigin ho), mem_reachedKeys w ho, ← hg.nameOf_eq ho]
  constructor
  · intro hk
    obtain ⟨t, ht, hk⟩ := hk
    have ht' := h.delivers_small w w' hs hpass ht
    exact ⟨t, ht', (hg.targetKey_eq ht').symm.trans hk⟩
  · intro hk
    obtain ⟨t, ht, hk⟩ := hk
    exact ⟨t, h.delivers_big w w' hs hpass ht, (hg.targetKey_eq ht).trans hk⟩

/-- An origin that is there only with a route is the sender of that route. -/
theorem eq_sender_of_absent (h : OneMore small big route r) (w : small.WellFormed)
    (w' : big.WellFormed) (hs : big.sender? route = some s) (ho : big.isOrigin origin = true)
    (habs : small.contains origin = false) : origin = s := by
  rcases isOrigin_cases ho with ⟨i, hi⟩ | ⟨t, k, b, ht, hk, -, -⟩
  · have hlive := contains_of_direction (output_of_isOrigin ho)
    rw [hi] at habs hlive
    have : big.contains (.pin i) = small.contains (.pin i) := h.rerouted.contains_pin i
    rw [hlive, habs] at this
    cases this
  · by_contra hne
    have hflow : k.flow = .outgoing := outgoing_of_output hk (ht ▸ output_of_isOrigin ho)
    rw [ht] at hne habs
    have hlive := IdMap.contains_of_get? ((h.carries_small w w' hs).sends hk hflow hne)
    have habs : small.tacks.contains t = false := habs
    rw [habs] at hlive
    cases hlive

end Unpassed

end OneMore
end MessageGraph.Graph
