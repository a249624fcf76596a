import MessageGraph.Proofs.Graph.Undo
import MessageGraph.Proofs.Resolution.Carry
import MessageGraph.Proofs.Resolution.Upstream

/-!
# Messages that do not pass a route

When a route goes, a message takes the same steps as before, as long as it does not pass the sender of the
route: wherever it comes, the routes and tacks that are gone had nothing for it. The walk from its origin
then visits the same endpoints in the same order, so that `resolve` gives the same list and not only the
same targets (`WellFormed.resolve_detach`).
-/
namespace MessageGraph

theorem firstByKey_congr {α κ : Type} [DecidableEq κ] {key key' : α → κ} {l : List α}
    (h : ∀ a ∈ l, key' a = key a) : firstByKey key' l = firstByKey key l := by
  induction l with
  | nil => rfl
  | cons a as ih =>
    have ih := ih fun b hb => h b (List.mem_cons_of_mem a hb)
    rw [firstByKey, firstByKey, ih]
    congr 1
    refine List.filter_congr fun b hb => ?_
    have hb : b ∈ as := (Graph.firstByKey_sublist as).subset hb
    rw [h a List.mem_cons_self, h b (List.mem_cons_of_mem a hb)]

/-- What gives nothing may be left out before. -/
theorem flatMap_filter_of_eq_nil {α β : Type} {f f' : α → List β} {p : α → Bool} {l : List α}
    (hkeep : ∀ a ∈ l, p a = true → f' a = f a) (hdrop : ∀ a ∈ l, p a = false → f a = []) :
    (l.filter p).flatMap f' = l.flatMap f := by
  induction l with
  | nil => rfl
  | cons a as ih =>
    have ih := ih (fun b hb => hkeep b (List.mem_cons_of_mem a hb))
      fun b hb => hdrop b (List.mem_cons_of_mem a hb)
    cases hp : p a with
    | true =>
      rw [List.filter_cons_of_pos hp, List.flatMap_cons, List.flatMap_cons, ih,
        hkeep a List.mem_cons_self hp]
    | false =>
      rw [List.filter_cons_of_neg (by rw [hp]; nofun), List.flatMap_cons, ih,
        hdrop a List.mem_cons_self hp, List.nil_append]

namespace Graph

variable {g g' : Graph} {name : String} {origin s e : Endpoint} {route : Id} {r : Route}

/-! ## What a message meets -/

/-- A message meets the same at an endpoint of which it sees the same. -/
theorem SameAt.arrival_eq (h : SameAt g g' e) (name : String) :
    g'.arrival name e = g.arrival name e := by
  cases e with
  | pin i =>
    cases hp : g.pin? i with
    | none =>
      have hp' : g'.pin? i = none := by
        have hsite : g'.pinSite? i = g.pinSite? i := h
        rw [pinSite?, pinSite?, hp] at hsite
        exact Option.map_eq_none_iff.1 hsite
      rw [arrival, arrival, hp, hp']
    | some p =>
      obtain ⟨q, hq, hnode, hname⟩ := h.pin hp
      simp only [arrival, hp, hq, hnode, hname]
  | proxy i => rfl
  | pad i => rfl
  | tack t =>
    obtain ⟨ht, hf⟩ := h
    have hbus : (g'.busOf? t).map (·.isFiltered) = (g.busOf? t).map (·.isFiltered) := hf
    cases hk : g.tack? t with
    | none => simp only [arrival, ht, hk]
    | some k =>
      cases hb : g.busOf? t with
      | none =>
        rw [hb] at hbus
        simp only [arrival, ht, hk, hb, Option.map_eq_none_iff.1 hbus]
      | some b =>
        rw [hb] at hbus
        obtain ⟨c, hc, hfilter⟩ := Option.map_eq_some_iff.1 hbus
        simp only [arrival, ht, hk, hb, hc, hfilter]

/-- Messages leave the graph at an outlet. -/
theorem onward_of_outlet {gate : Id} {p : Gate} (hp : g.gate? gate = some p) (ho : g.Outlet gate) :
    g.onward name (.pad gate) =
      if Message.compatible name p.name then [.yield (.boundary p.group gate)] else [] := by
  obtain ⟨q, hq, hroot, hpad⟩ := ho
  cases hp.symm.trans hq
  simp [onward, hp, hroot, hpad]

theorem fanOut_of_tack {t : Id} {k : Tack} {b : Bus} (hk : g.tack? t = some k)
    (hb : g.bus? k.bus = some b) :
    g.fanOut name t = ((g.tackIds k.bus).filter fun other => other ≠ t &&
      ((g.tack? other).elim false fun l => l.flow = .outgoing && Message.overlap name l.message)).map
        fun other => .visit (.tack other) := by
  simp only [fanOut, busOf?, tackIds, hk, hb, Option.bind_some, Option.elim_some]

/-! ## Without the route -/

section Detached

variable (w : g.WellFormed) (hs : g.sender? route = some s)

include w hs

/-- From an endpoint other than the sender, messages leave as before: nothing leaves by the route. -/
theorem WellFormed.departures_detach (name : String) (hne : e ≠ s)
    (hout : g.direction? e = some .output) :
    (g.detach route).departures name e = g.departures name e := by
  obtain ⟨r, hr, -⟩ := Option.map_eq_some_iff.1 hs
  have h := w.detach_oneMore hr
  unfold departures
  rw [w.routesOf_detach]
  refine flatMap_filter_of_eq_nil (fun i _ hi => ?_) fun i _ hi => ?_
  · have hacross : (g.detach route).across? e i = g.across? e i := by
      simp only [across?, h.others i (of_decide_eq_true hi)]
    rw [hacross]
    cases hfar : g.across? e i with
    | none => rfl
    | some far =>
      have hlive := (w.detach.contains_of_across? (hacross.trans hfar)).2
      have hsame := h.sameAt hlive
      simp only [hsame.direction?_eq, hsame.arrival_eq name]
  · have hi : i = route := Decidable.not_not.1 (of_decide_eq_false hi)
    rw [hi]
    cases hfar : g.across? e route with
    | none => rfl
    | some far =>
      simp only
      rw [if_neg]
      intro hin
      exact hne (eq_sender hs hfar hout hin)

/-- A bus passes a message on as before, unless it is to the tack that sends along the route. -/
theorem WellFormed.fanOut_detach {t : Id} {k : Tack} {b : Bus} (hk : g.tack? t = some k)
    (hb : g.bus? k.bus = some b) (hlive : (g.detach route).contains (.tack t) = true)
    (hpass : ∀ u l, g.tack? u = some l → l.bus = k.bus → l.flow = .outgoing →
      Message.overlap name l.message = true → .tack u ≠ s) :
    (g.detach route).fanOut name t = g.fanOut name t := by
  obtain ⟨r, hr, -⟩ := Option.map_eq_some_iff.1 hs
  have h := w.detach_oneMore hr
  obtain ⟨hk', b', hb', -⟩ := (h.sameAt hlive).symm.tack hk hb
  rw [fanOut_of_tack hk hb, fanOut_of_tack hk' hb', w.tackIds_detach_eq hr, List.filter_filter]
  refine congrArg _ (List.filter_congr fun u hu => ?_)
  by_cases hend : r.a = .tack u ∨ r.b = .tack u
  · -- a tack that has gone with the route is none that the message would have taken
    rw [h.tack_absent u hend]
    have hgone : apartFrom r u = false := by
      rcases hend with ha | hb
      · simp [apartFrom, ha]
      · simp [apartFrom, hb]
    rw [hgone, Bool.and_false, eq_comm, Bool.eq_false_iff]
    intro hcarries
    rw [Bool.and_eq_true] at hcarries
    cases hl : g.tack? u with
    | none => simp [hl] at hcarries
    | some l =>
      simp only [hl, Option.elim_some, Bool.and_eq_true, decide_eq_true_eq] at hcarries
      obtain ⟨-, hflow, hn⟩ := hcarries
      have hbus : l.bus = k.bus := by
        rw [w.tacks.mem_iff, tackOwner?, hl] at hu
        exact Option.some.inj hu
      have hstays := (h.carries_small w.detach w hs).sends hl hflow (hpass u l hl hbus hflow hn)
      rw [h.tack_absent u hend] at hstays
      cases hstays
  · rw [not_or] at hend
    rw [apartFrom_of_ne hend.1 hend.2, Bool.and_true, h.tacks u hend.1 hend.2]

/-- A gate passes a message on as before, unless its pad sends along the route. -/
theorem WellFormed.onward_pad_detach (name : String) {gate : Id} (hc : g.Crosses e (.proxy gate))
    (hne : e ≠ s) (hpad : ¬ g.Outlet gate → .pad gate ≠ s) :
    (g.detach route).onward name (.pad gate) = g.onward name (.pad gate) := by
  obtain ⟨r, hr, -⟩ := Option.map_eq_some_iff.1 hs
  have h := w.detach_oneMore hr
  have c := h.carries_small w.detach w hs
  obtain ⟨p, hp⟩ := IdMap.contains_iff.1 hc.contains.2
  have hp : g.gate? gate = some p := hp
  obtain ⟨q, hq, hgroup, hname⟩ := (c.crosses hc hne).2.pad.gate hp
  by_cases hout : g.Outlet gate
  · have hout' : (g.detach route).Outlet gate := by
      obtain ⟨p', hp', hroot, hnil⟩ := hout
      cases hp.symm.trans hp'
      refine ⟨q, hq, by rw [hgroup, hroot, c.root], ?_⟩
      rw [← routesOf_pad hq, w.routesOf_detach, routesOf_pad hp, hnil, List.filter_nil]
    rw [onward_of_outlet hp hout, onward_of_outlet hq hout', hgroup, hname]
  · have hout' : ¬ (g.detach route).Outlet gate := by
      intro hnew
      exact hout (h.outlet_big w.detach w hs hc (hpad hout) hnew)
    rw [onward_pad hp hout, onward_pad hq hout',
      w.departures_detach hs name (hpad hout) (output_of_input.1 hc.input)]

variable (ho : g.isOrigin origin = true) (hpass : ¬ g.Reaches name origin s)

include ho hpass

/-- Wherever a message comes that does not pass the sender, it goes on as before. -/
theorem WellFormed.onward_detach (he : g.Arrived name origin e) :
    (g.detach route).contains e = g.contains e ∧
      (g.detach route).onward name e = g.onward name e := by
  obtain ⟨r, hr, -⟩ := Option.map_eq_some_iff.1 hs
  have h := w.detach_oneMore hr
  have c := h.carries_small w.detach w hs
  have hne : ∀ {x}, g.Reaches name origin x → x ≠ s := by
    intro x hx hxs
    exact hpass (hxs ▸ hx)
  have hon : ∀ {x}, g.Reaches name origin x →
      (g.detach route).departures name x = g.departures name x :=
    fun hx => w.departures_detach hs name (hne hx) (hx.output ho)
  cases e with
  | pin i => exact he.elim
  | proxy gate =>
    obtain ⟨x, hx, hc⟩ := he
    have hc' := (c.crosses hc (hne hx)).1
    exact ⟨hc'.contains.2.trans hc.contains.2.symm, hon (.enter hx hc)⟩
  | pad gate =>
    obtain ⟨x, hx, hc⟩ := he
    have hc' := (c.crosses hc (hne hx)).1
    refine ⟨hc'.contains.2.trans hc.contains.2.symm, ?_⟩
    exact w.onward_pad_detach hs name hc (hne hx) fun hout => hne (.leave hx hc hout)
  | tack t =>
    rcases he with ⟨x, k, b, hx, hc, hk, hb, hf⟩ | ⟨hx, hout⟩
    · obtain ⟨hc', hsame⟩ := c.crosses hc (hne hx)
      refine ⟨hc'.contains.2.trans hc.contains.2.symm, ?_⟩
      rw [onward, onward, if_pos hc.input, if_pos hc'.input]
      refine w.fanOut_detach hs hk hb hc'.contains.2 fun u l hl hbus hflow hn => ?_
      exact hne (.spread hx hc hk hb hf hl hbus hflow hn)
    · obtain ⟨k, hk⟩ := IdMap.contains_iff.1 (contains_of_direction hout)
      have hk : g.tack? t = some k := hk
      have hflow := outgoing_of_output hk hout
      have hk' := c.sends hk hflow (hne hx)
      refine ⟨(IdMap.contains_of_get? hk').trans (IdMap.contains_of_get? hk).symm, ?_⟩
      have hnot : ∀ {x : Graph}, x.tack? t = some k → x.direction? (.tack t) ≠ some .input := by
        intro x hx hin
        rw [direction?_tack hx, hflow] at hin
        cases hin
      rw [onward, onward, if_neg (hnot hk), if_neg (hnot hk'), hon hx]

end Detached

/-- An origin whose messages do not pass the sender of a route resolves to the same list when the route has
gone. -/
theorem WellFormed.resolve_detach (w : g.WellFormed) (hs : g.sender? route = some s)
    (ho : g.isOrigin origin = true) (hpass : ¬ g.Reaches (g.nameOf origin) origin s) :
    (g.detach route).resolve origin = g.resolve origin := by
  obtain ⟨r, hr, -⟩ := Option.map_eq_some_iff.1 hs
  have h := w.detach_oneMore hr
  have hgrown := h.grown w.detach
  have hne : origin ≠ s := fun he => hpass (he ▸ .start)
  have hlive : (g.detach route).contains origin = true := by
    by_contra habs
    exact hne (h.eq_sender_of_absent w.detach w hs ho (Bool.eq_false_iff.2 habs))
  have hname := hgrown.nameOf_eq (hgrown.isOrigin_of_contains ho hlive)
  have hwalk : (g.detach route).walk ((g.detach route).onward (g.nameOf origin))
      (g.departures (g.nameOf origin) origin) [origin] =
      g.walk (g.onward (g.nameOf origin)) (g.departures (g.nameOf origin) origin) [origin] := by
    refine walk_congr_of (P := g.Arrived (g.nameOf origin) origin)
      (fun e he => (w.onward_detach hs ho hpass he).1)
      (fun e he => (w.onward_detach hs ho hpass he).2) (fun e x he hx => ?_) _ _ fun x hx => ?_
    · exact onward_sound w ho he hx
    · exact departures_sound w.routes ho .start hx
  simp only [resolve, ← hname, w.departures_detach hs (g.nameOf origin) hne (output_of_isOrigin ho),
    hwalk]
  refine firstByKey_congr fun t ht => ?_
  have hd := (mem_walk_onward w ho).1 ht
  exact (hgrown.targetKey_eq (h.delivers_small w.detach w hs hpass hd)).symm

end Graph
end MessageGraph
