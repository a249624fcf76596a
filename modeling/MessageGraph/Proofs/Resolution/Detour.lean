import MessageGraph.Proofs.Resolution.Carry
import MessageGraph.Proofs.Graph.Wiring
import MessageGraph.Proofs.Blueprint.Joined

/-!
# Going over a bus instead of a route

Two endpoints can be joined by a route, or each to a bus without a filter that nothing else is at. A message
that takes the route can take the way over the bus, provided its name, as it was sent, is the same message as
the name at the end: a bus looks at that, a route does not.

* `Detour` has what the two graphs have in common and in what they differ: one crossing on one side, two on
  the other.
* `Detour.back`: whatever is reached over the bus is reached by the route.
* `Detour.reaches`: whatever is reached by the route is reached over the bus by messages that the bus lets
  past.

Result: `connect_bus_transparent`, for every model that operations lead to: all three connections are made,
and an origin has the same targets either way if the bus lets its messages past; else the bus adds nothing.
A message that came through a gate of another name does not get past a bus (`connect_bus_opaque`).
-/
namespace MessageGraph

namespace Graph

variable {g direct half full : Graph} {x y origin : Endpoint} {bus t u : Id} {name : String}

/-- What a graph with one more route has besides what it had: the way along that route. -/
theorem OneMore.crosses_iff {small big : Graph} {route : Id} {r : Route}
    (h : OneMore small big route r) (w : small.WellFormed) (hs : big.Sends route x y)
    {e far : Endpoint} : big.Crosses e far ↔ small.Crosses e far ∨ (e = x ∧ far = y) := by
  constructor
  · rintro ⟨hout, i, ha, hin⟩
    by_cases hi : i = route
    · subst hi
      obtain rfl := eq_sender hs.sender ha hout hin
      exact Or.inr ⟨rfl, Option.some.inj (ha.symm.trans hs.across)⟩
    · have ha' := h.across_small hi ha
      obtain ⟨he, hfar⟩ := w.contains_of_across? ha'
      refine Or.inl ⟨?_, i, ha', ?_⟩
      · exact (h.sameAt he).symm.direction?_eq.trans hout
      · exact (h.sameAt hfar).symm.direction?_eq.trans hin
  · rintro (hc | ⟨rfl, rfl⟩)
    · exact ((h.grown w).crosses hc).1
    · exact ⟨hs.output, route, hs.across, hs.input⟩

/-- Two graphs that have all of `g`. In one `x` leads to `y`, in the other `x` leads to a tack of a bus without
a filter and another tack of that bus, under this name, leads to `y`; the bus has no tack besides. -/
structure Detour (g direct full : Graph) (x y : Endpoint) (bus t u : Id) (name : String) : Prop where
  root : full.root = direct.root
  sameDirect : ∀ {e}, g.contains e = true → SameAt g direct e
  sameFull : ∀ {e}, g.contains e = true → SameAt g full e
  crossesDirect : ∀ {e far}, direct.Crosses e far ↔ g.Crosses e far ∨ (e = x ∧ far = y)
  crossesFull : ∀ {e far}, full.Crosses e far ↔
    g.Crosses e far ∨ (e = x ∧ far = .tack t) ∨ (e = .tack u ∧ far = y)
  tacksDirect : ∀ i, direct.tack? i = g.tack? i
  tacksFull : ∀ i, i ≠ t → i ≠ u → full.tack? i = g.tack? i
  incoming : ∃ k, full.tack? t = some k ∧ k.bus = bus ∧ k.flow = .incoming
  outgoing : ∃ k, full.tack? u = some k ∧ k.bus = bus ∧ k.flow = .outgoing ∧ k.message = name
  fresh : g.tack? t = none ∧ g.tack? u = none
  alone : ∀ {i k}, g.tack? i = some k → k.bus ≠ bus
  unfiltered : ∃ b, full.bus? bus = some b ∧ b.isFiltered = false
  outlet : ∀ gate, full.Outlet gate ↔ direct.Outlet gate
  ends : g.contains x = true ∧ g.contains y = true

/-- Where a message that is sent on at an endpoint of the way over the bus is sent on without the bus. -/
def sentFrom (x : Endpoint) (u : Id) (e : Endpoint) : Endpoint :=
  if e = .tack u then x else e

namespace Detour

theorem not_contains_tack (h : Detour g direct full x y bus t u name) :
    g.contains (.tack t) = false ∧ g.contains (.tack u) = false :=
  ⟨IdMap.contains_eq_false_iff.2 h.fresh.1, IdMap.contains_eq_false_iff.2 h.fresh.2⟩

theorem ne_tack (h : Detour g direct full x y bus t u name) {e : Endpoint} (he : g.contains e = true) :
    e ≠ .tack t ∧ e ≠ .tack u := by
  constructor
  · rintro rfl
    rw [h.not_contains_tack.1] at he
    cases he
  · rintro rfl
    rw [h.not_contains_tack.2] at he
    cases he

theorem sentFrom_eq (h : Detour g direct full x y bus t u name) {e : Endpoint}
    (he : g.contains e = true) : sentFrom x u e = e := if_neg (h.ne_tack he).2

theorem same (h : Detour g direct full x y bus t u name) {e : Endpoint} (he : g.contains e = true) :
    SameAt direct full e := (h.sameDirect he).symm.trans (h.sameFull he)

/-- Without the bus a message arrives only where `g` has an endpoint. -/
theorem contains_far (h : Detour g direct full x y bus t u name) {e far : Endpoint}
    (hc : direct.Crosses e far) : g.contains far = true := by
  rcases h.crossesDirect.1 hc with hc | ⟨-, rfl⟩
  · exact hc.contains.2
  · exact h.ends.2

theorem tack?_full (h : Detour g direct full x y bus t u name) {i : Id} {k : Tack}
    (hk : direct.tack? i = some k) : full.tack? i = some k := by
  rw [h.tacksDirect] at hk
  obtain ⟨ht, hu⟩ := h.ne_tack (e := .tack i) (IdMap.contains_of_get? hk)
  rw [h.tacksFull i (fun hi => ht (congrArg _ hi)) fun hi => hu (congrArg _ hi), hk]

/-- A tack of another bus is there without the bus too. -/
theorem tack?_direct (h : Detour g direct full x y bus t u name) {i : Id} {k : Tack}
    (hk : full.tack? i = some k) (hbus : k.bus ≠ bus) : direct.tack? i = some k := by
  obtain ⟨kt, hkt, hbt, -⟩ := h.incoming
  obtain ⟨ku, hku, hbu, -⟩ := h.outgoing
  rw [h.tacksDirect, ← h.tacksFull i, hk]
  · rintro rfl
    exact hbus ((Option.some.inj (hk.symm.trans hkt)) ▸ hbt)
  · rintro rfl
    exact hbus ((Option.some.inj (hk.symm.trans hku)) ▸ hbu)

/-! ## From the route to the bus -/

/-- What arrives by the route arrives over the bus, if the bus lets it past. -/
theorem hop (h : Detour g direct full x y bus t u name) {message : String} {e far : Endpoint}
    (hc : direct.Crosses e far) (he : full.Reaches message origin e)
    (hpast : e = x → Message.overlap message name = true) :
    ∃ e', full.Reaches message origin e' ∧ full.Crosses e' far := by
  rcases h.crossesDirect.1 hc with hc | ⟨rfl, rfl⟩
  · exact ⟨e, he, h.crossesFull.2 (Or.inl hc)⟩
  · obtain ⟨k, hk, hkbus, -⟩ := h.incoming
    obtain ⟨l, hl, hlbus, hflow, hname⟩ := h.outgoing
    obtain ⟨b, hb, hf⟩ := h.unfiltered
    refine ⟨.tack u, ?_, h.crossesFull.2 (Or.inr (Or.inr ⟨rfl, rfl⟩))⟩
    exact .spread he (h.crossesFull.2 (Or.inr (Or.inl ⟨rfl, rfl⟩))) hk (by rw [hkbus]; exact hb) hf hl
      (hlbus.trans hkbus.symm) hflow (by rw [hname]; exact hpast rfl)

theorem reaches (h : Detour g direct full x y bus t u name) {message : String} {e : Endpoint}
    (hpast : direct.Reaches message origin x → Message.overlap message name = true)
    (he : direct.Reaches message origin e) : full.Reaches message origin e := by
  have hx : ∀ {e}, direct.Reaches message origin e → e = x → Message.overlap message name = true :=
    fun he hex => hpast (hex ▸ he)
  induction he with
  | start => exact .start
  | leave he hc hout ih =>
    obtain ⟨e', he', hc'⟩ := h.hop hc ih (hx he)
    exact .leave he' hc' fun ho => hout ((h.outlet _).1 ho)
  | enter he hc ih =>
    obtain ⟨e', he', hc'⟩ := h.hop hc ih (hx he)
    exact .enter he' hc'
  | spread he hc hk hb hf hl hbus hflow hn ih =>
    obtain ⟨e', he', hc'⟩ := h.hop hc ih (hx he)
    obtain ⟨hk', b', hb', hf'⟩ := (h.same (h.contains_far hc)).tack hk hb
    exact .spread he' hc' hk' hb' (hf'.trans hf) (h.tack?_full hl) hbus hflow hn

/-- What is delivered by the route is delivered over the bus. -/
theorem delivers (h : Detour g direct full x y bus t u name) {message : String} {target : Target}
    (hpast : direct.Reaches message origin x → Message.overlap message name = true)
    (hd : direct.Delivers message origin target) : full.Delivers message origin target := by
  have hhop : ∀ {e far}, direct.Reaches message origin e → direct.Crosses e far →
      ∃ e', full.Reaches message origin e' ∧ full.Crosses e' far := fun he hc =>
    h.hop hc (h.reaches hpast he) fun hex => hpast (hex ▸ he)
  cases hd with
  | pin he hc hp hn =>
    obtain ⟨e', he', hc'⟩ := hhop he hc
    obtain ⟨q, hq, hnode, hname⟩ := (h.same (h.contains_far hc)).pin hp
    rw [← hnode]
    exact .pin he' hc' hq (by rw [hname]; exact hn)
  | tack he hc hk hb hf =>
    obtain ⟨e', he', hc'⟩ := hhop he hc
    obtain ⟨hk', b', hb', hf'⟩ := (h.same (h.contains_far hc)).tack hk hb
    exact .tack he' hc' hk' hb' (hf'.trans hf)
  | boundary he hc hp hroot hpad hn =>
    obtain ⟨e', he', hc'⟩ := hhop he hc
    obtain ⟨q, hq, hqroot, hqpad⟩ := (h.outlet _).2 ⟨_, hp, hroot, hpad⟩
    obtain ⟨q', hq', hgroup, hname⟩ := (h.same (h.contains_far hc)).pad.gate hp
    cases hq.symm.trans hq'
    rw [← hgroup]
    exact .boundary he' hc' hq hqroot hqpad (by rw [hname]; exact hn)

/-! ## From the bus to the route -/

/-- What arrives over the bus, other than at the bus, arrives by the route. -/
theorem hop_back (h : Detour g direct full x y bus t u name) {e far : Endpoint}
    (hc : full.Crosses e far) (hfar : far ≠ .tack t) : direct.Crosses (sentFrom x u e) far := by
  rcases h.crossesFull.1 hc with hc | ⟨-, rfl⟩ | ⟨rfl, rfl⟩
  · rw [h.sentFrom_eq hc.contains.1]
    exact h.crossesDirect.2 (Or.inl hc)
  · exact absurd rfl hfar
  · exact h.crossesDirect.2 (Or.inr ⟨if_pos rfl, rfl⟩)

/-- A message comes to the bus from `x` alone. -/
theorem eq_left (h : Detour g direct full x y bus t u name) {e : Endpoint}
    (hc : full.Crosses e (.tack t)) : e = x := by
  rcases h.crossesFull.1 hc with hc | ⟨rfl, -⟩ | ⟨-, hy⟩
  · exact absurd rfl (h.ne_tack hc.contains.2).1
  · rfl
  · exact absurd hy.symm (h.ne_tack h.ends.2).1

/-- The bus sends on along one tack. -/
theorem eq_right (h : Detour g direct full x y bus t u name) {i : Id} {l : Tack}
    (hl : full.tack? i = some l) (hbus : l.bus = bus) (hflow : l.flow = .outgoing) : i = u := by
  by_contra hu
  have ht : i ≠ t := by
    rintro rfl
    obtain ⟨k, hk, -, hin⟩ := h.incoming
    cases hk.symm.trans hl
    rw [hflow] at hin
    cases hin
  rw [h.tacksFull i ht hu] at hl
  exact h.alone hl hbus

/-- Where a message comes to another bus, the bus is there without the detour. -/
theorem ne_left (h : Detour g direct full x y bus t u name) {e : Endpoint} {i : Id} {k : Tack}
    (hc : full.Crosses e (.tack i)) (hi : i ≠ t) (hk : full.tack? i = some k) : k.bus ≠ bus := by
  have hfar := h.contains_far (h.hop_back hc fun he => hi (Endpoint.tack.inj he))
  obtain ⟨ht, hu⟩ := h.ne_tack hfar
  rw [h.tacksFull i hi fun hu' => hu (hu' ▸ rfl)] at hk
  exact h.alone hk

theorem back (h : Detour g direct full x y bus t u name) {message : String} {e : Endpoint}
    (horigin : g.contains origin = true) (he : full.Reaches message origin e) :
    direct.Reaches message origin (sentFrom x u e) := by
  induction he with
  | start =>
    rw [h.sentFrom_eq horigin]
    exact .start
  | @leave e gate he hc hout ih =>
    exact .leave ih (h.hop_back hc nofun) fun ho => hout ((h.outlet _).2 ho)
  | @enter e gate he hc ih => exact .enter ih (h.hop_back hc nofun)
  | @spread e i j k l b he hc hk hb hf hl hbus hflow hn ih =>
    by_cases hi : i = t
    · -- at the bus itself: the message left from `x`, and leaves by the other tack
      subst hi
      obtain ⟨k', hk', hkbus, -⟩ := h.incoming
      cases hk.symm.trans hk'
      rw [h.eq_left hc, h.sentFrom_eq h.ends.1] at ih
      rw [h.eq_right hl (hbus.trans hkbus) hflow, sentFrom, if_pos rfl]
      exact ih
    · have hc' := h.hop_back hc fun he => hi (Endpoint.tack.inj he)
      have hother : k.bus ≠ bus := h.ne_left hc hi hk
      have hl' := h.tack?_direct hl (hbus.trans_ne hother)
      have hlive : g.contains (.tack j) = true := by
        rw [h.tacksDirect] at hl'
        exact IdMap.contains_of_get? hl'
      obtain ⟨hk', b', hb', hf'⟩ := (h.same (h.contains_far hc')).symm.tack hk hb
      rw [h.sentFrom_eq hlive]
      exact .spread ih hc' hk' hb' (hf'.trans hf) hl' hbus hflow hn

/-- What is delivered over the bus is delivered by the route. -/
theorem delivers_back (h : Detour g direct full x y bus t u name) {message : String} {target : Target}
    (horigin : g.contains origin = true) (hd : full.Delivers message origin target) :
    direct.Delivers message origin target := by
  cases hd with
  | pin he hc hp hn =>
    have hc' := h.hop_back hc nofun
    obtain ⟨q, hq, hnode, hname⟩ := (h.same (h.contains_far hc')).symm.pin hp
    rw [← hnode]
    exact .pin (h.back horigin he) hc' hq (by rw [hname]; exact hn)
  | @tack e i k b he hc hk hb hf =>
    have hi : i ≠ t := by
      rintro rfl
      obtain ⟨k', hk', hkbus, -⟩ := h.incoming
      obtain ⟨b', hb', hf'⟩ := h.unfiltered
      cases hk.symm.trans hk'
      rw [hkbus] at hb
      cases hb.symm.trans hb'
      rw [hf] at hf'
      cases hf'
    have hc' := h.hop_back hc fun he => hi (Endpoint.tack.inj he)
    obtain ⟨hk', b', hb', hf'⟩ := (h.same (h.contains_far hc')).symm.tack hk hb
    exact .tack (h.back horigin he) hc' hk' hb' (hf'.trans hf)
  | boundary he hc hp hroot hpad hn =>
    have hc' := h.hop_back hc nofun
    obtain ⟨q, hq, hqroot, hqpad⟩ := (h.outlet _).1 ⟨_, hp, hroot, hpad⟩
    obtain ⟨q', hq', hgroup, hname⟩ := (h.same (h.contains_far hc')).symm.pad.gate hp
    cases hq.symm.trans hq'
    rw [← hgroup]
    exact .boundary (h.back horigin he) hc' hq hqroot hqpad (by rw [hname]; exact hn)

theorem targetKey_eq (h : Detour g direct full x y bus t u name) {message : String} {target : Target}
    (hd : direct.Delivers message origin target) : full.targetKey target = direct.targetKey target := by
  have hname : ∀ {e far}, direct.Crosses e far → full.nameOf far = direct.nameOf far := fun hc =>
    (h.same (h.contains_far hc)).nameOf_eq
  cases hd with
  | pin _ hc _ _ => rw [targetKey, targetKey, hname hc]
  | tack _ hc _ _ _ => rw [targetKey, targetKey, hname hc]
  | boundary _ hc _ _ _ _ =>
    rw [targetKey, targetKey, (h.same (h.contains_far hc)).pad.nameOf_eq]

/-- An origin has the same targets by the route and over the bus, if the bus lets its messages past. -/
theorem mem_reachedKeys_iff (h : Detour g direct full x y bus t u name) (w : direct.WellFormed)
    (w' : full.WellFormed) (ho : g.isOrigin origin = true)
    (hpast : direct.Reaches (g.nameOf origin) origin x →
      Message.overlap (g.nameOf origin) name = true) (k : TargetKey) :
    k ∈ full.reachedKeys origin ↔ k ∈ direct.reachedKeys origin := by
  have hlive := contains_of_direction (output_of_isOrigin ho)
  have hdirect := h.sameDirect hlive
  have hfull := h.sameFull hlive
  rw [mem_reachedKeys w' (hfull.isOrigin_eq.trans ho), mem_reachedKeys w (hdirect.isOrigin_eq.trans ho),
    hfull.nameOf_eq, hdirect.nameOf_eq]
  constructor
  · rintro ⟨target, hd, rfl⟩
    have hd' := h.delivers_back hlive hd
    exact ⟨target, hd', (h.targetKey_eq hd').symm⟩
  · rintro ⟨target, hd, rfl⟩
    exact ⟨target, h.delivers hpast hd, h.targetKey_eq hd⟩

/-- A message that the bus does not let past does not come to the end of the way. -/
theorem not_reaches (h : Detour g direct full x y bus t u name) {message : String}
    (horigin : g.contains origin = true) (hstop : Message.overlap message name = false) :
    ¬ full.Reaches message origin (.tack u) := by
  intro he
  obtain ⟨ku, hku, -, -, hname⟩ := h.outgoing
  generalize hx : Endpoint.tack u = e at he
  cases he with
  | start => exact (h.ne_tack horigin).2 hx.symm
  | leave => cases hx
  | enter => cases hx
  | spread _ _ _ _ _ hl _ _ hn =>
    cases hx
    cases hku.symm.trans hl
    rw [hname, hstop] at hn
    cases hn

end Detour

/-! ## The three connections -/

theorem attach_between {a b : Terminal} {route : Id} {g' : Graph} (hx : a.endpoint? = some x)
    (hy : b.endpoint? = some y) (h : g.attach a b = .ok (route, g')) :
    g' = g.joined { a := x, b := y } := by
  obtain ⟨-, ⟨x', y', hx', hy', -, -, rfl⟩ | ⟨bus, e, r, -, -, -, ⟨rfl, -⟩ | ⟨rfl, -⟩, -⟩⟩ := attach_eq h
  · cases hx.symm.trans hx'
    cases hy.symm.trans hy'
    rfl
  · cases hx
  · cases hy

theorem attach_to_bus {a : Terminal} {route : Id} {g' : Graph} (hx : a.endpoint? = some x)
    (h : g.attach a (.bus bus) = .ok (route, g')) :
    g' = g.joinedToBus bus x { a := x, b := g.freshTack } := by
  obtain ⟨-, ⟨x', y', -, hy', -⟩ | ⟨bus', e, r, -, -, -, ⟨rfl, -⟩ | ⟨hb, he, rfl⟩, rfl⟩⟩ := attach_eq h
  · cases hy'
  · cases hx
  · cases hb
    cases hx.symm.trans he
    rfl

theorem attach_from_bus {b : Terminal} {route : Id} {g' : Graph} (hy : b.endpoint? = some y)
    (h : g.attach (.bus bus) b = .ok (route, g')) :
    g' = g.joinedToBus bus y { a := g.freshTack, b := y } := by
  obtain ⟨-, ⟨x', y', hx', -⟩ | ⟨bus', e, r, -, -, -, ⟨ha, he, rfl⟩ | ⟨rfl, -⟩, rfl⟩⟩ := attach_eq h
  · cases hx'
  · cases ha
    cases hy.symm.trans he
    rfl
  · cases hy

theorem outlet_iff {gate : Id} : g.Outlet gate ↔
    (g.gateSite? gate).map (·.1) = some g.root ∧ g.routesOf (.pad gate) = [] := by
  unfold Outlet gateSite? routesOf
  cases hp : g.gate? gate <;> simp [hp]

theorem OneMore.gateSite?_eq {small big : Graph} {route : Id} {r : Route}
    (h : OneMore small big route r) (gate : Id) : big.gateSite? gate = small.gateSite? gate :=
  view_eq (fun o : Option Gate => o.map _) (h.rerouted.gates gate) fun _ => rfl

/-- Along a route from an output to an input a message is sent. -/
theorem OneMore.sends {small big : Graph} {route : Id} (h : OneMore small big route { a := x, b := y })
    (hx : big.direction? x = some .output) (hy : big.direction? y = some .input) :
    big.Sends route x y where
  across := by rw [across?, h.present, Option.bind_some, Route.other?, if_pos rfl]
  output := hx
  input := hy

theorem tackFacing_output {route : Id} (h : g.direction? x = some .output) :
    g.tackFacing bus route (some x) =
      { bus := bus, route := route, flow := .incoming, message := g.nameOf x } := by
  simp only [tackFacing, Option.bind_some, h, ↓reduceIte, nameOf]

theorem tackFacing_input {route : Id} (h : g.direction? y = some .input) :
    g.tackFacing bus route (some y) =
      { bus := bus, route := route, flow := .outgoing, message := g.nameOf y } := by
  simp only [tackFacing, Option.bind_some, h, Option.some.injEq, reduceCtorEq, ↓reduceIte, nameOf]

/-- A bus that is joined to an endpoint has one more tack. -/
theorem tack?_joinedToBus_id {r : Route} (i : Id) : (g.joinedToBus bus x r).tack? i =
    if i = g.fresh.2.fresh.1 then some (g.tackFacing bus g.fresh.1 (some x)) else g.tack? i := by
  have h : (g.joinedToBus bus x r).tack? i = if .tack i = g.freshTack then
      some (g.tackFacing bus g.fresh.1 (some x)) else g.tack? i := tack?_joinedToBus i
  simpa only [freshTack, Endpoint.tack.injEq] using h

/-- From an output a message is sent to an input that it is joined to. -/
theorem joined_between (w : g.WellFormed) (hx : x.endpointClass ≠ .tack) (hy : y.endpointClass ≠ .tack)
    (hout : g.direction? x = some .output) (hin : g.direction? y = some .input)
    (hdirect : direct = g.joined { a := x, b := y }) :
    OneMore g direct g.fresh.1 { a := x, b := y } ∧ direct.Sends g.fresh.1 x y := by
  subst hdirect
  have hone := joined_oneMore w.ids hx hy
  exact ⟨hone, hone.sends ((hone.sameAt (contains_of_direction hout)).direction?_eq.trans hout)
    ((hone.sameAt (contains_of_direction hin)).direction?_eq.trans hin)⟩

/-- From an output a message is sent to a bus that it is joined to. -/
theorem joined_to_bus (w : g.WellFormed) (hx : x.endpointClass ≠ .tack)
    (hout : g.direction? x = some .output)
    (hhalf : half = g.joinedToBus bus x { a := x, b := g.freshTack }) :
    OneMore g half g.fresh.1 { a := x, b := g.freshTack } ∧ half.Sends g.fresh.1 x g.freshTack := by
  subst hhalf
  have hone := joinedToBus_oneMore bus w.ids hx (Or.inr rfl)
  refine ⟨hone, hone.sends ((hone.sameAt (contains_of_direction hout)).direction?_eq.trans hout) ?_⟩
  rw [freshTack, direction?_tack tack?_freshTack, tackFacing_output hout]
  rfl

/-- To an input a message is sent from a bus that it is joined to. -/
theorem joined_from_bus (w : half.WellFormed) (hy : y.endpointClass ≠ .tack)
    (hin : half.direction? y = some .input)
    (hfull : full = half.joinedToBus bus y { a := half.freshTack, b := y }) :
    OneMore half full half.fresh.1 { a := half.freshTack, b := y } ∧
      full.Sends half.fresh.1 half.freshTack y := by
  subst hfull
  have hone := joinedToBus_oneMore bus w.ids hy (Or.inl rfl)
  refine ⟨hone, hone.sends ?_ ((hone.sameAt (contains_of_direction hin)).direction?_eq.trans hin)⟩
  rw [freshTack, direction?_tack tack?_freshTack, tackFacing_input hin]
  rfl

/-- A bus without tacks is the bus of none. -/
theorem bus_ne_of_tack (w : g.WellFormed) {c : Bus} (hbus : g.bus? bus = some c)
    (htacks : c.tacks = []) {i : Id} {k : Tack} (hk : g.tack? i = some k) : k.bus ≠ bus := by
  rintro rfl
  have hmem : i ∈ g.tackIds k.bus := w.tacks.mem_iff.2 (by rw [tackOwner?, hk, Option.map_some])
  rw [tackIds, hbus, Option.elim_some, htacks] at hmem
  cases hmem

/-- A filter is as it was where a graph has one more route. -/
theorem OneMore.unfiltered {small big : Graph} {route : Id} {r : Route}
    (h : OneMore small big route r) (hb : ∃ b, small.bus? bus = some b ∧ b.isFiltered = false) :
    ∃ b, big.bus? bus = some b ∧ b.isFiltered = false := by
  obtain ⟨c, hc, hf⟩ := hb
  have hbuses := h.buses bus
  rw [hc, Option.map_some] at hbuses
  obtain ⟨b, hb, hun⟩ := Option.map_eq_some_iff.1 hbuses
  exact ⟨b, hb, (congrArg Bus.isFiltered hun : b.untacked.isFiltered = _).trans hf⟩

theorem routesOf_pad_joinedToBus {gate : Id} {r : Route} (w : g.WellFormed) (hx : g.contains x = true)
    (hclass : x.endpointClass ≠ .tack)
    (hr : r = { a := g.freshTack, b := x } ∨ r = { a := x, b := g.freshTack }) :
    (g.joinedToBus bus x r).routesOf (.pad gate) = [] ↔
      g.routesOf (.pad gate) = [] ∧ x ≠ .pad gate := by
  have hpad : g.freshTack ≠ .pad gate := nofun
  rw [routesOf_joinedToBus w.ids hx hclass hr]
  by_cases hxp : x = .pad gate
  · rcases hr with rfl | rfl <;> simp [hxp]
  · rcases hr with rfl | rfl <;> simp [hxp, hpad]

theorem ne_of_direction (hout : g.direction? x = some .output) (hin : g.direction? y = some .input) :
    x ≠ y := by
  rintro rfl
  rw [hout] at hin
  cases hin

/-- Of the pads of a gate at the root, the same are without a route either way. -/
theorem outlet_of_joined (w : g.WellFormed) (hx : x.endpointClass ≠ .tack) (hy : y.endpointClass ≠ .tack)
    (hout : g.direction? x = some .output) (hin : g.direction? y = some .input)
    (hdirect : direct = g.joined { a := x, b := y })
    (hhalf : half = g.joinedToBus bus x { a := x, b := g.freshTack }) (w₂ : half.WellFormed)
    (hfull : full = half.joinedToBus bus y { a := half.freshTack, b := y }) (gate : Id) :
    full.Outlet gate ↔ direct.Outlet gate := by
  have hcx : g.contains x = true := contains_of_direction hout
  have hcy : g.contains y = true := contains_of_direction hin
  obtain ⟨hone₁, -⟩ := joined_between w hx hy hout hin hdirect
  obtain ⟨hone₂, -⟩ := joined_to_bus w hx hout hhalf
  have hin₂ : half.direction? y = some .input := (hone₂.sameAt hcy).direction?_eq.trans hin
  obtain ⟨hone₃, -⟩ := joined_from_bus w₂ hy hin₂ hfull
  have hroot : full.root = direct.root :=
    (hone₃.rerouted.root.trans hone₂.rerouted.root).trans hone₁.rerouted.root.symm
  rw [outlet_iff, outlet_iff, hone₃.gateSite?_eq, hone₂.gateSite?_eq, hone₁.gateSite?_eq, hroot,
    hdirect, hfull, routesOf_pad_joinedToBus w₂ (contains_of_direction hin₂) hy (Or.inl rfl), hhalf,
    routesOf_pad_joinedToBus w hcx hx (Or.inr rfl),
    routesOf_joined (ne_of_direction hout hin) hcx hcy hx hy]
  by_cases hpad : x = .pad gate ∨ y = .pad gate
  · rw [if_pos hpad]
    simp
    tauto
  · rw [if_neg hpad]
    tauto

/-- Joining two endpoints by a route, or both to a bus without filter or tacks, gives two ways that differ as a
detour does. -/
theorem detour_of_joined (w : g.WellFormed) {c : Bus} (hbus : g.bus? bus = some c)
    (hf : c.isFiltered = false) (htacks : c.tacks = []) (hx : x.endpointClass ≠ .tack)
    (hy : y.endpointClass ≠ .tack) (hout : g.direction? x = some .output)
    (hin : g.direction? y = some .input) (hdirect : direct = g.joined { a := x, b := y })
    (hhalf : half = g.joinedToBus bus x { a := x, b := g.freshTack }) (w₂ : half.WellFormed)
    (hfull : full = half.joinedToBus bus y { a := half.freshTack, b := y }) :
    Detour g direct full x y bus g.fresh.2.fresh.1 half.fresh.2.fresh.1
      (g.nameOf y) := by
  obtain ⟨hone₁, hsends₁⟩ := joined_between w hx hy hout hin hdirect
  obtain ⟨hone₂, hsends₂⟩ := joined_to_bus w hx hout hhalf
  have hy₂ := hone₂.sameAt (contains_of_direction hin)
  have hin₂ : half.direction? y = some .input := hy₂.direction?_eq.trans hin
  obtain ⟨hone₃, hsends₃⟩ := joined_from_bus w₂ hy hin₂ hfull
  have htack₂ : ∀ i, half.tack? i = if i = g.fresh.2.fresh.1 then
      some (g.tackFacing bus g.fresh.1 (some x)) else g.tack? i := by
    rw [hhalf]
    exact tack?_joinedToBus_id
  have htack₃ : ∀ i, full.tack? i = if i = half.fresh.2.fresh.1 then
      some (half.tackFacing bus half.fresh.1 (some y)) else half.tack? i := by
    rw [hfull]
    exact tack?_joinedToBus_id
  have hnone : half.tack? half.fresh.2.fresh.1 = none :=
    IdMap.contains_eq_false_iff.1 w₂.ids.freshTack
  have hapart : g.fresh.2.fresh.1 ≠ half.fresh.2.fresh.1 := by
    intro he
    rw [← he, htack₂, if_pos rfl] at hnone
    cases hnone
  have hgrown := (hone₂.grown w).trans (hone₃.grown w₂)
  exact
    { root := hgrown.root.trans hone₁.rerouted.root.symm
      sameDirect := hone₁.sameAt
      sameFull := hgrown.kept
      ends := ⟨contains_of_direction hout, contains_of_direction hin⟩
      crossesDirect := hone₁.crosses_iff w hsends₁
      crossesFull := by
        intro e far
        rw [hone₃.crosses_iff w₂ hsends₃, hone₂.crosses_iff w hsends₂, or_assoc]
        rfl
      tacksDirect := by
        rw [hdirect]
        exact tack?_joined
      tacksFull := fun i ht hu => by rw [htack₃, if_neg hu, htack₂, if_neg ht]
      incoming := by
        refine ⟨_, by rw [htack₃, if_neg hapart, htack₂, if_pos rfl], rfl, ?_⟩
        rw [tackFacing_output hout]
      outgoing := by
        refine ⟨_, by rw [htack₃, if_pos rfl], rfl, ?_, ?_⟩
        · rw [tackFacing_input hin₂]
        · rw [tackFacing_input hin₂]
          exact hy₂.nameOf_eq
      fresh := by
        refine ⟨IdMap.contains_eq_false_iff.1 w.ids.freshTack, ?_⟩
        rw [htack₂, if_neg hapart.symm] at hnone
        exact hnone
      alone := bus_ne_of_tack w hbus htacks
      unfiltered := hone₃.unfiltered (hone₂.unfiltered ⟨c, hbus, hf⟩)
      outlet := outlet_of_joined w hx hy hout hin hdirect hhalf w₂ hfull }

/-- A route from an endpoint that was there, or that is no origin, adds no origin. -/
theorem OneMore.isOrigin_eq {small big : Graph} {route : Id} {r : Route}
    (h : OneMore small big route r) (w : small.WellFormed) (w' : big.WellFormed)
    (hs : big.sender? route = some x) (hx : small.contains x = true ∨ big.isOrigin x = false)
    (o : Endpoint) : big.isOrigin o = small.isOrigin o := by
  cases hlive : small.contains o with
  | true => exact (h.sameAt hlive).isOrigin_eq
  | false =>
    have hsmall : small.isOrigin o = false := Bool.eq_false_iff.2 fun ho => by
      rw [contains_of_direction (output_of_isOrigin ho)] at hlive
      cases hlive
    have hbig : big.isOrigin o = false := Bool.eq_false_iff.2 fun ho => by
      obtain rfl := h.eq_sender_of_absent w w' hs ho hlive
      rcases hx with hx | hx
      · rw [hx] at hlive
        cases hlive
      · rw [hx] at ho
        cases ho
    rw [hsmall, hbig]

/-- The tacks of a bus without a filter are no origins. -/
theorem Detour.not_isOrigin (h : Detour g direct full x y bus t u name) :
    full.isOrigin (.tack u) = false := by
  obtain ⟨k, hk, hkbus, -⟩ := h.outgoing
  obtain ⟨b, hb, hf⟩ := h.unfiltered
  refine Bool.eq_false_iff.2 fun ho => ?_
  exact tack_ne_origin ho hk (by rw [hkbus]; exact hb) hf (List.mem_singleton_self _)

theorem hasTerminal_of_endpoint? {a : Terminal} (hx : a.endpoint? = some x)
    (h : g.contains x = true) : g.hasTerminal a = true := by
  cases a <;> cases hx <;> exact h

/-- Any endpoint may be joined to any bus. -/
theorem mayJoin_bus {a : Terminal} (hx : a.endpoint? = some x) (ha : g.hasTerminal a = true)
    (hbus : g.buses.contains bus = true) : g.MayJoin a (.bus bus) where
  left := ha
  right := hbus
  ne := by
    rintro rfl
    cases hx
  sides := by cases a <;> rfl
  classes h := by
    cases a with
    | pad i => cases h
    | bus i => cases hx
    | _ => rfl
  endpoints _ hy := nomatch hy

/-- A terminal is at no bus that has no tack. -/
theorem not_joins_bus (w : g.WellFormed) {c : Bus} (hbus : g.bus? bus = some c)
    (htacks : c.tacks = []) {a : Terminal} {route : Id} : ¬ g.Joins route a (.bus bus) := by
  have hend : ∀ e, g.Ends route e → g.terminalOf e ≠ .bus bus := by
    intro e he
    cases e with
    | tack i =>
      obtain ⟨k, hk, -⟩ := exists_tack w he
      have hne := bus_ne_of_tack w hbus htacks hk
      simpa only [terminalOf, tackOwner?, hk, Option.map_some, Option.getD_some, ne_eq,
        Terminal.bus.injEq] using hne
    | _ => exact fun hbus => by cases hbus
  rintro ⟨r, hr, ⟨-, hb⟩ | ⟨-, hb⟩⟩
  · exact hend r.b ⟨r, hr, Or.inr rfl⟩ hb
  · exact hend r.a ⟨r, hr, Or.inl rfl⟩ hb

/-- A bus that one endpoint has been joined to is joined to no other. -/
theorem joinedToBus_joins (w : g.WellFormed) {c : Bus} (hbus : g.bus? bus = some c)
    (htacks : c.tacks = []) (hx : x.endpointClass ≠ .tack)
    (hhalf : half = g.joinedToBus bus x { a := x, b := g.freshTack }) (w₂ : half.WellFormed)
    {b : Terminal} {route : Id} (h : half.Joins route (.bus bus) b) : b = half.terminalOf x := by
  have hpresent : half.route? g.fresh.1 = some { a := x, b := g.freshTack } := by
    rw [hhalf]
    exact (route?_joined _).trans (if_pos rfl)
  -- a tack of the bus is the new one, and the route is its route
  have hroute : ∀ e, half.Ends route e → half.terminalOf e = .bus bus → route = g.fresh.1 := by
    intro e he hterm
    cases e with
    | tack i =>
      obtain ⟨k, hk, rfl⟩ := exists_tack w₂ he
      simp only [terminalOf, tackOwner?, hk, Option.map_some, Option.getD_some,
        Terminal.bus.injEq] at hterm
      rw [hhalf, tack?_joinedToBus_id] at hk
      split at hk
      · cases hk
        rfl
      · exact absurd hterm (bus_ne_of_tack w hbus htacks hk)
    | _ => cases hterm
  have hleft : half.terminalOf x ≠ .bus bus := fun he => hx (by
    rw [← endpointClass_terminalOf (g := half), he]
    rfl)
  obtain ⟨r, hr, ⟨ha, -⟩ | ⟨hb, ha⟩⟩ := h
  · rw [hroute r.a ⟨r, hr, Or.inl rfl⟩ ha, hpresent] at hr
    cases hr
    exact absurd ha hleft
  · rw [hroute r.b ⟨r, hr, Or.inr rfl⟩ hb, hpresent] at hr
    cases hr
    exact ha.symm

/-- With one of two terminals at a bus that nothing else is at, the bus may be joined to the other, and is not
yet. -/
theorem mayJoin_half (w : g.WellFormed) {c : Bus} (hbus : g.bus? bus = some c)
    (hf : c.isFiltered = false) (htacks : c.tacks = []) {d : Terminal} (hx : x.endpointClass ≠ .tack)
    (hy : d.endpoint? = some y) (hout : g.direction? x = some .output)
    (hin : g.direction? y = some .input)
    (hhalf : half = g.joinedToBus bus x { a := x, b := g.freshTack }) (w₂ : half.WellFormed) :
    half.MayJoin (.bus bus) d ∧ half.existingRoute? (.bus bus) d = none := by
  obtain ⟨hone, -⟩ := joined_to_bus w hx hout hhalf
  have hlive : half.contains y = true := contains_of_direction
    ((hone.sameAt (contains_of_direction hin)).direction?_eq.trans hin)
  obtain ⟨c₂, hbus₂, -⟩ := hone.unfiltered ⟨c, hbus, hf⟩
  have hm : half.MayJoin (.bus bus) d :=
    (mayJoin_bus hy (hasTerminal_of_endpoint? hy hlive) (IdMap.contains_of_get? hbus₂)).symm
  refine ⟨hm, (existingRoute?_eq_none_iff w₂ hm.endpoint).2 fun route hj => ?_⟩
  -- what is at the bus is the output, which the other end is not
  rw [joinedToBus_joins w hbus htacks hx hhalf w₂ hj, endpoint?_terminalOf hx] at hy
  exact ne_of_direction hout hin (Option.some.inj hy)

end Graph

namespace Blueprint

variable {b : Blueprint} {s d : Terminal}

/-- Terminals that may be joined and are not get a new route. -/
theorem exists_connect_attach (w : b.graph.WellFormed) (hm : b.graph.MayJoin s d)
    (hnew : b.graph.existingRoute? s d = none) :
    ∃ route c, b.connect s d = .ok (route, c) ∧ b.graph.attach s d = .ok (route, c.graph) ∧
      c.graph.WellFormed := by
  obtain ⟨route, g, h⟩ := Graph.exists_attach hm.left hm.right hm.endpoint
  exact ⟨route, _, connect_eq_ok (Tables.connect_eq_made hm hnew h), h,
    w.attach h (Graph.joinable_of_check (Graph.check_eq_ok_iff.2 hm))⟩

/-- A bus without a filter that nothing is at can stand between any two terminals that could be joined: both
can be joined to it. What origins there are does not change. An origin has the same targets then as if the
two had been joined, if its messages have a name in common with the end of the way, or do not come to its
start. If they have none in common, the second connection adds nothing. -/
theorem connect_bus_transparent (hb : b.Reachable) {bus : Id} {c : Bus}
    (hbus : b.graph.bus? bus = some c) (hf : c.isFiltered = false) (htacks : c.tacks = [])
    {x y : Endpoint} (hx : s.endpoint? = some x) (hy : d.endpoint? = some y)
    (hout : b.graph.direction? x = some .output) (hin : b.graph.direction? y = some .input)
    (hcheck : b.graph.check s d = .ok ()) (hnew : b.graph.existingRoute? s d = none) :
    ∃ r b₁ r₂ b₂ r₃ b₃, b.connect s d = .ok (r, b₁) ∧ b.connect s (.bus bus) = .ok (r₂, b₂) ∧
      b₂.connect (.bus bus) d = .ok (r₃, b₃) ∧
      ∀ o, b₁.graph.isOrigin o = b.graph.isOrigin o ∧ b₃.graph.isOrigin o = b.graph.isOrigin o ∧
        (b.graph.isOrigin o = true →
          ((b₁.graph.Reaches (b.graph.nameOf o) o x →
              Message.overlap (b.graph.nameOf o) (b.graph.nameOf y) = true) →
            ∀ k, k ∈ b₃.graph.reachedKeys o ↔ k ∈ b₁.graph.reachedKeys o) ∧
          (Message.overlap (b.graph.nameOf o) (b.graph.nameOf y) = false →
            ∀ k, k ∈ b₃.graph.reachedKeys o ↔ k ∈ b₂.graph.reachedKeys o)) := by
  have w := hb.wellFormed
  have hm := Graph.check_eq_ok_iff.1 hcheck
  have hxc := Graph.endpointClass_of_endpoint? hx
  have hyc := Graph.endpointClass_of_endpoint? hy
  obtain ⟨r, b₁, hok₁, ha₁, w₁⟩ := exists_connect_attach w hm hnew
  have hm₂ : b.graph.MayJoin s (.bus bus) :=
    Graph.mayJoin_bus hx hm.left (IdMap.contains_of_get? hbus)
  obtain ⟨r₂, b₂, hok₂, ha₂, w₂⟩ := exists_connect_attach w hm₂
    ((Graph.existingRoute?_eq_none_iff w hm₂.endpoint).2 fun _ => Graph.not_joins_bus w hbus htacks)
  have hhalf := Graph.attach_to_bus hx ha₂
  obtain ⟨hone₂, hsends₂⟩ := Graph.joined_to_bus w hxc hout hhalf
  have hcx : b.graph.contains x = true := Graph.contains_of_direction hout
  have hin₂ : b₂.graph.direction? y = some .input :=
    (hone₂.sameAt (Graph.contains_of_direction hin)).direction?_eq.trans hin
  obtain ⟨hm₃, hnone₃⟩ := Graph.mayJoin_half w hbus hf htacks hxc hy hout hin hhalf w₂
  obtain ⟨r₃, b₃, hok₃, ha₃, w₃⟩ := exists_connect_attach w₂ hm₃ hnone₃
  have hfull := Graph.attach_from_bus hy ha₃
  obtain ⟨hone₃, hsends₃⟩ := Graph.joined_from_bus w₂ hyc hin₂ hfull
  have hdirect := Graph.attach_between hx hy ha₁
  obtain ⟨hone₁, hsends₁⟩ := Graph.joined_between w hxc hyc hout hin hdirect
  have hdetour := Graph.detour_of_joined w hbus hf htacks hxc hyc hout hin hdirect hhalf w₂ hfull
  have horigin₁ := hone₁.isOrigin_eq w w₁ hsends₁.sender (Or.inl hcx)
  have horigin₂ := hone₂.isOrigin_eq w w₂ hsends₂.sender (Or.inl hcx)
  have horigin₃ := hone₃.isOrigin_eq w₂ w₃ hsends₃.sender (Or.inr hdetour.not_isOrigin)
  refine ⟨r, b₁, r₂, b₂, r₃, b₃, hok₁, hok₂, hok₃, fun o =>
    ⟨horigin₁ o, (horigin₃ o).trans (horigin₂ o), fun ho =>
      ⟨hdetour.mem_reachedKeys_iff w₁ w₃ ho, fun hstop k => ?_⟩⟩⟩
  have hlive := Graph.contains_of_direction (Graph.output_of_isOrigin ho)
  refine hone₃.mem_reachedKeys_iff w₂ w₃ hsends₃.sender ((horigin₂ o).trans ho) ?_
  rw [(hdetour.sameFull hlive).nameOf_eq]
  exact hdetour.not_reaches hlive hstop

/-- A source that sends into a group under one name, which a gate of the group passes on under another. In the
group wait a source and a bus, and another source sends under the name of the gate. -/
def crossNamed : Blueprint :=
  (new "main").run
    [.edit (.addSource none 1 "X" { identifier := "x" }), .edit (.addPin 2 "go" .output false),
      .edit (.addGroup none 1 "G"), .edit (.addGate 4 "run" .input false),
      .edit (.addSource none 4 "Y" { identifier := "y" }), .edit (.addPin 6 "run" .input false),
      .edit (.addSource none 4 "Z" { identifier := "z" }), .edit (.addPin 8 "run" .output false),
      .edit (.addBus none 4 "link" none), .connect (.pin 3) (.pad 5)]

theorem crossNamed_reachable : crossNamed.Reachable := .run_new "main" rfl

theorem crossNamed_bus : (crossNamed.graph.bus? 10).map (fun c => (c.isFiltered, c.tacks)) =
    some (false, []) := by cbv

theorem connect_bus_transparent_gated :
    ∃ c r b₁ r₂ b₂ r₃ b₃, crossNamed.graph.bus? 10 = some c ∧ c.isFiltered = false ∧ c.tacks = [] ∧
      crossNamed.graph.check (.pin 9) (.pin 7) = .ok () ∧
      crossNamed.graph.existingRoute? (.pin 9) (.pin 7) = none ∧
      crossNamed.connect (.pin 9) (.pin 7) = .ok (r, b₁) ∧ crossNamed.connect (.pin 9) (.bus 10) = .ok (r₂, b₂) ∧
      b₂.connect (.bus 10) (.pin 7) = .ok (r₃, b₃) ∧
      ∀ k, k ∈ b₃.graph.reachedKeys (.pin 9) ↔ k ∈ b₁.graph.reachedKeys (.pin 9) := by
  obtain ⟨c, hc, hval⟩ := Option.map_eq_some_iff.1 crossNamed_bus
  obtain ⟨hf, htacks⟩ := Prod.mk.inj hval
  have hcheck : crossNamed.graph.check (.pin 9) (.pin 7) = .ok () := by cbv
  have hnew : crossNamed.graph.existingRoute? (.pin 9) (.pin 7) = none := by cbv
  obtain ⟨r, b₁, r₂, b₂, r₃, b₃, h₁, h₂, h₃, hall⟩ := connect_bus_transparent crossNamed_reachable hc hf
    htacks rfl rfl (by cbv) (by cbv) hcheck hnew
  have horigin : crossNamed.graph.isOrigin (.pin 9) = true := by cbv
  exact ⟨c, r, b₁, r₂, b₂, r₃, b₃, hc, hf, htacks, hcheck, hnew, h₁, h₂, h₃,
    ((hall (.pin 9)).2.2 horigin).1 fun _ => by cbv⟩

/-- The source outside reaches the one that waits by a route from the gate, but not over the bus: the gate has
the name of the pin, the message has not. -/
theorem connect_bus_opaque :
    crossNamed.Reachable ∧
      (crossNamed.graph.bus? 10).map (fun c => (c.isFiltered, c.tacks)) = some (false, []) ∧
      crossNamed.graph.name? (.proxy 5) = crossNamed.graph.name? (.pin 7) ∧
      crossNamed.graph.direction? (.proxy 5) = some .output ∧
      crossNamed.graph.direction? (.pin 7) = some .input ∧
      crossNamed.graph.existingRoute? (.proxy 5) (.pin 7) = none ∧
      (crossNamed.connect (.proxy 5) (.pin 7)).toOption.map (fun c => c.2.graph.reachedKeys (.pin 3)) =
        some [⟨.node 6, "run"⟩] ∧
      ((crossNamed.connect (.proxy 5) (.bus 10)).toOption.bind fun c =>
        (c.2.connect (.bus 10) (.pin 7)).toOption.map fun c => c.2.graph.reachedKeys (.pin 3)) =
        some [] :=
  ⟨crossNamed_reachable, crossNamed_bus, by cbv, by cbv, by cbv, by cbv, by cbv, by cbv⟩

end Blueprint
end MessageGraph
