import MessageGraph.Proofs.Graph.WellFormed
import MessageGraph.Proofs.Resolution.Walk
import MessageGraph.Resolution.Resolve

/-!
# Where messages are delivered

`Reaches` says, apart from any search, which endpoints send a message on, and `Delivers` what it is
delivered to. In a well-formed graph `resolve` gives exactly these targets, one for each key
(`delivers_of_mem_resolve`, `mem_reachedKeys`).
-/
namespace MessageGraph.Graph

variable {g : Graph} {name : String} {origin : Endpoint}

/-- What is sent at `e` arrives at `far`: a route joins the two, `e` is an output and `far` an input. -/
def Crosses (g : Graph) (e far : Endpoint) : Prop :=
  g.direction? e = some .output ∧
    ∃ route, g.across? e route = some far ∧ g.direction? far = some .input

/-- A gate of the top-level group with no route at its pad. -/
def Outlet (g : Graph) (gate : Id) : Prop :=
  ∃ p, g.gate? gate = some p ∧ p.group = g.root ∧ p.padRoutes = []

/-- A message from the origin comes to this endpoint, which sends it on. -/
inductive Reaches (g : Graph) (name : String) (origin : Endpoint) : Endpoint → Prop
  | start : Reaches g name origin origin
  | leave {e : Endpoint} {gate : Id} (he : Reaches g name origin e) (hc : g.Crosses e (.proxy gate))
      (ho : ¬ g.Outlet gate) : Reaches g name origin (.pad gate)
  | enter {e : Endpoint} {gate : Id} (he : Reaches g name origin e) (hc : g.Crosses e (.pad gate)) :
      Reaches g name origin (.proxy gate)
  | spread {e : Endpoint} {t u : Id} {k l : Tack} {b : Bus} (he : Reaches g name origin e)
      (hc : g.Crosses e (.tack t)) (hk : g.tack? t = some k) (hb : g.bus? k.bus = some b)
      (hf : b.isFiltered = false) (hl : g.tack? u = some l) (hbus : l.bus = k.bus)
      (hflow : l.flow = .outgoing) (hn : Message.overlap name l.message = true) :
      Reaches g name origin (.tack u)

/-- A message from the origin is delivered to this target. -/
inductive Delivers (g : Graph) (name : String) (origin : Endpoint) : Target → Prop
  | pin {e : Endpoint} {i : Id} {p : Pin} (he : Reaches g name origin e)
      (hc : g.Crosses e (.pin i)) (hp : g.pin? i = some p)
      (hn : Message.compatible name p.name = true) : Delivers g name origin (.pin p.node i)
  | tack {e : Endpoint} {t : Id} {k : Tack} {b : Bus} (he : Reaches g name origin e)
      (hc : g.Crosses e (.tack t)) (hk : g.tack? t = some k) (hb : g.bus? k.bus = some b)
      (hf : b.isFiltered = true) : Delivers g name origin (.tack k.bus t)
  | boundary {e : Endpoint} {gate : Id} {p : Gate} (he : Reaches g name origin e)
      (hc : g.Crosses e (.proxy gate)) (hp : g.gate? gate = some p) (hroot : p.group = g.root)
      (hpad : p.padRoutes = []) (hn : Message.compatible name p.name = true) :
      Delivers g name origin (.boundary p.group gate)

/-! ## Origins and what they reach -/

/-- An origin is a pin or a tack of a filtered bus. -/
theorem isOrigin_cases (h : g.isOrigin origin = true) :
    (∃ i, origin = .pin i) ∨
      ∃ t k b, origin = .tack t ∧ g.tack? t = some k ∧ g.bus? k.bus = some b ∧
        b.isFiltered = true := by
  cases origin with
  | pin i => exact Or.inl ⟨i, rfl⟩
  | proxy gate => cases h
  | pad gate => cases h
  | tack t =>
    simp only [isOrigin, busOf?, Bool.and_eq_true] at h
    obtain ⟨-, h⟩ := h
    cases hk : g.tack? t with
    | none => rw [hk] at h; cases h
    | some k =>
      cases hb : g.bus? k.bus with
      | none => simp [hk, hb] at h
      | some b =>
        simp only [hk, hb, Option.bind_some, Option.elim_some] at h
        exact Or.inr ⟨t, k, b, rfl, hk, hb, h⟩

/-- A tack of an unfiltered bus is no origin. -/
theorem tack_ne_origin (ho : g.isOrigin origin = true) {t : Id} {k : Tack} {b : Bus}
    (hk : g.tack? t = some k) (hb : g.bus? k.bus = some b) (hf : b.isFiltered = false) :
    Endpoint.tack t ∉ [origin] := by
  rw [List.mem_singleton]
  intro he
  rcases isOrigin_cases ho with ⟨i, hi⟩ | ⟨u, l, c, hu, hl, hc, hf'⟩
  · rw [hi] at he; cases he
  · rw [hu] at he
    cases he
    rw [hk] at hl
    cases hl
    rw [hb] at hc
    cases hc
    rw [hf] at hf'
    cases hf'

theorem gate_ne_origin (ho : g.isOrigin origin = true) (gate : Id) :
    Endpoint.pad gate ∉ [origin] ∧ Endpoint.proxy gate ∉ [origin] := by
  simp only [List.mem_singleton]
  rcases isOrigin_cases ho with ⟨i, hi⟩ | ⟨u, l, c, hu, -⟩
  · rw [hi]; exact ⟨nofun, nofun⟩
  · rw [hu]; exact ⟨nofun, nofun⟩

theorem output_of_isOrigin (h : g.isOrigin origin = true) :
    g.direction? origin = some .output := by
  cases origin with
  | pin i => exact of_decide_eq_true h
  | proxy gate => cases h
  | pad gate => cases h
  | tack t =>
    simp only [isOrigin, Bool.and_eq_true, decide_eq_true_eq] at h
    exact h.1

theorem direction?_tack {t : Id} {k : Tack} (hk : g.tack? t = some k) :
    g.direction? (.tack t) = some k.flow.direction := by
  simp only [direction?, hk, Option.map_some]

theorem incoming_of_input {t : Id} {k : Tack} (hk : g.tack? t = some k)
    (hd : g.direction? (.tack t) = some .input) : k.flow = .incoming := by
  rw [direction?_tack hk] at hd
  cases hflow : k.flow with
  | incoming => rfl
  | outgoing => rw [hflow] at hd; cases hd

theorem outgoing_of_output {t : Id} {k : Tack} (hk : g.tack? t = some k)
    (hd : g.direction? (.tack t) = some .output) : k.flow = .outgoing := by
  rw [direction?_tack hk] at hd
  cases hflow : k.flow with
  | outgoing => rfl
  | incoming => rw [hflow] at hd; cases hd

/-- The two sides of a gate have opposite directions. -/
theorem output_of_input {gate : Id} :
    (g.direction? (.proxy gate) = some .input → g.direction? (.pad gate) = some .output) ∧
      (g.direction? (.pad gate) = some .input → g.direction? (.proxy gate) = some .output) := by
  simp only [direction?]
  cases g.gate? gate with
  | none => simp
  | some p => cases hd : p.direction <;> simp [Direction.opposite, hd]

theorem Crosses.input {e far : Endpoint} (h : g.Crosses e far) : g.direction? far = some .input := by
  obtain ⟨-, route, -, hd⟩ := h
  exact hd

theorem Crosses.contains {e far : Endpoint} (h : g.Crosses e far) :
    g.contains e = true ∧ g.contains far = true :=
  ⟨contains_of_direction h.1, contains_of_direction h.input⟩

/-- Whatever a message passes sends it on. -/
theorem Reaches.output (ho : g.isOrigin origin = true) {e : Endpoint} (h : g.Reaches name origin e) :
    g.direction? e = some .output := by
  cases h with
  | start => exact output_of_isOrigin ho
  | leave _ hc _ => exact output_of_input.1 hc.input
  | enter _ hc => exact output_of_input.2 hc.input
  | spread _ _ _ _ _ hl _ hflow _ => rw [direction?_tack hl, hflow]; rfl

/-! ## Steps of the search -/

theorem mem_departures (w : g.RoutesListed) {e : Endpoint} (he : g.direction? e = some .output)
    {s : Step Target} :
    s ∈ g.departures name e ↔ ∃ far, g.Crosses e far ∧ s ∈ g.arrival name far := by
  unfold departures
  rw [List.mem_flatMap]
  constructor
  · intro h
    obtain ⟨route, -, hs⟩ := h
    cases ha : g.across? e route with
    | none => rw [ha] at hs; cases hs
    | some far =>
      rw [ha] at hs
      simp only at hs
      split at hs
      · rename_i hd
        exact ⟨far, ⟨he, route, ha, hd⟩, hs⟩
      · cases hs
  · intro h
    obtain ⟨far, ⟨-, route, ha, hd⟩, hs⟩ := h
    refine ⟨route, w.mem_iff.2 (ends_of_across? ha).1, ?_⟩
    rw [ha]
    simp only
    rw [if_pos hd]
    exact hs

theorem mem_fanOut (w : Owned g.tackOwner? g.tackIds) {t : Id} {k : Tack} {b : Bus}
    (hk : g.tack? t = some k) (hb : g.bus? k.bus = some b) {s : Step Target} :
    s ∈ g.fanOut name t ↔ ∃ u l, s = .visit (.tack u) ∧ u ≠ t ∧ g.tack? u = some l ∧
      l.bus = k.bus ∧ l.flow = .outgoing ∧ Message.overlap name l.message = true := by
  have hof : g.busOf? t = some b := by simp [busOf?, hk, hb]
  have hmem : ∀ u, u ∈ b.tacks ↔ g.tackOwner? u = some k.bus := by
    intro u
    rw [← w.mem_iff, tackIds, hb]
    rfl
  unfold fanOut
  rw [hof]
  simp only [List.mem_map, List.mem_filter, hmem, Bool.and_eq_true, decide_eq_true_eq]
  constructor
  · intro h
    obtain ⟨u, ⟨hu, hne, hl⟩, hs⟩ := h
    obtain ⟨l, hl', hbus⟩ := Option.map_eq_some_iff.1 hu
    rw [hl'] at hl
    simp only [Option.elim_some, Bool.and_eq_true, decide_eq_true_eq] at hl
    exact ⟨u, l, hs.symm, hne, hl', hbus, hl.1, hl.2⟩
  · intro h
    obtain ⟨u, l, hs, hne, hl, hbus, hflow, hn⟩ := h
    refine ⟨u, ⟨Option.map_eq_some_iff.2 ⟨l, hl, hbus⟩, hne, ?_⟩, hs.symm⟩
    simp [hl, hflow, hn]

/-! ## Nothing else is found -/

/-- A message has come to an endpoint that a walk visits. -/
def Arrived (g : Graph) (name : String) (origin : Endpoint) : Endpoint → Prop
  | .pin _ => False
  | .proxy gate => ∃ e, g.Reaches name origin e ∧ g.Crosses e (.pad gate)
  | .pad gate => ∃ e, g.Reaches name origin e ∧ g.Crosses e (.proxy gate)
  | .tack t =>
    (∃ e k b, g.Reaches name origin e ∧ g.Crosses e (.tack t) ∧ g.tack? t = some k ∧
      g.bus? k.bus = some b ∧ b.isFiltered = false) ∨
    (g.Reaches name origin (.tack t) ∧ g.direction? (.tack t) = some .output)

/-- A step is one that a message from the origin takes. -/
def StepSound (g : Graph) (name : String) (origin : Endpoint) : Step Target → Prop
  | .yield target => g.Delivers name origin target
  | .visit e => g.Arrived name origin e

theorem departures_sound (w : g.RoutesListed) (ho : g.isOrigin origin = true) {e : Endpoint}
    (he : g.Reaches name origin e) {s : Step Target} (hs : s ∈ g.departures name e) :
    g.StepSound name origin s := by
  obtain ⟨far, hc, hs⟩ := (mem_departures w (he.output ho)).1 hs
  cases far with
  | pin i =>
    simp only [arrival] at hs
    cases hp : g.pin? i with
    | none => rw [hp] at hs; cases hs
    | some p =>
      rw [hp] at hs
      simp only at hs
      split at hs
      · rename_i hn
        rw [List.mem_singleton] at hs
        subst hs
        exact .pin he hc hp hn
      · cases hs
  | proxy gate =>
    rw [arrival, List.mem_singleton] at hs
    subst hs
    exact ⟨e, he, hc⟩
  | pad gate =>
    rw [arrival, List.mem_singleton] at hs
    subst hs
    exact ⟨e, he, hc⟩
  | tack t =>
    simp only [arrival, busOf?] at hs
    cases hk : g.tack? t with
    | none => rw [hk] at hs; cases hs
    | some k =>
      cases hb : g.bus? k.bus with
      | none => simp [hk, hb] at hs
      | some b =>
        simp only [hk, hb, Option.bind_some] at hs
        split at hs
        · rename_i hf
          rw [List.mem_singleton] at hs
          subst hs
          exact .tack he hc hk hb hf
        · rename_i hf
          rw [List.mem_singleton] at hs
          subst hs
          exact Or.inl ⟨e, k, b, he, hc, hk, hb, Bool.eq_false_iff.2 hf⟩

theorem onward_sound (w : g.WellFormed) (ho : g.isOrigin origin = true) {e : Endpoint}
    (he : g.Arrived name origin e) {s : Step Target} (hs : s ∈ g.onward name e) :
    g.StepSound name origin s := by
  cases e with
  | pin i => exact he.elim
  | proxy gate =>
    obtain ⟨e, he, hc⟩ := he
    exact departures_sound w.routes ho (.enter he hc) hs
  | pad gate =>
    obtain ⟨e, he, hc⟩ := he
    simp only [onward] at hs
    cases hp : g.gate? gate with
    | none => rw [hp] at hs; cases hs
    | some p =>
      rw [hp] at hs
      simp only [Bool.and_eq_true, List.isEmpty_iff, decide_eq_true_eq] at hs
      split at hs
      · rename_i hout
        split at hs
        · rename_i hn
          rw [List.mem_singleton] at hs
          subst hs
          exact .boundary he hc hp hout.2 hout.1 hn
        · cases hs
      · rename_i hout
        refine departures_sound w.routes ho (.leave he hc fun h => ?_) hs
        obtain ⟨q, hq, hroot, hpad⟩ := h
        rw [hp] at hq
        cases hq
        exact hout ⟨hpad, hroot⟩
  | tack t =>
    simp only [onward] at hs
    rcases he with ⟨e, k, b, he, hc, hk, hb, hf⟩ | ⟨he, hd⟩
    · rw [if_pos hc.input] at hs
      obtain ⟨u, l, rfl, -, hl, hbus, hflow, hn⟩ := (mem_fanOut w.tacks hk hb).1 hs
      refine Or.inr ⟨.spread he hc hk hb hf hl hbus hflow hn, ?_⟩
      rw [direction?_tack hl, hflow]
      rfl
    · rw [if_neg (by rw [hd]; nofun)] at hs
      exact departures_sound w.routes ho he hs

theorem delivers_of_leads (w : g.WellFormed) (ho : g.isOrigin origin = true)
    {visited : List Endpoint} {s : Step Target} {t : Target}
    (h : Leads g (g.onward name) visited s t) (hs : g.StepSound name origin s) :
    g.Delivers name origin t := by
  induction h with
  | yield t => exact hs
  | visit _ _ hs' _ ih => exact ih (onward_sound w ho hs hs')

/-! ## Nothing is missed -/

/-- The steps at an endpoint lead to nothing that those at the origin do not lead to. -/
def Covered (g : Graph) (name : String) (origin e : Endpoint) : Prop :=
  ∀ s t, s ∈ g.departures name e → Leads g (g.onward name) [origin] s t →
    ∃ s', s' ∈ g.departures name origin ∧ Leads g (g.onward name) [origin] s' t

theorem mem_departures_tack (name : String) (w : g.WellFormed) {e : Endpoint} {t : Id} {k : Tack}
    {b : Bus} (hc : g.Crosses e (.tack t)) (hk : g.tack? t = some k) (hb : g.bus? k.bus = some b) :
    (if b.isFiltered then Step.yield (Target.tack k.bus t) else .visit (.tack t)) ∈
      g.departures name e := by
  refine (mem_departures w.routes hc.1).2 ⟨.tack t, hc, ?_⟩
  have hof : g.busOf? t = some b := by simp [busOf?, hk, hb]
  simp only [arrival, hk, hof]
  split <;> exact List.mem_singleton.2 rfl

/-- A gate that is no outlet sends on what comes to it along the routes at its pad. -/
theorem onward_pad {gate : Id} {p : Gate} (hp : g.gate? gate = some p) (ho : ¬ g.Outlet gate) :
    g.onward name (.pad gate) = g.departures name (.pad gate) := by
  simp only [onward, hp]
  simp only [Bool.and_eq_true, List.isEmpty_iff, decide_eq_true_eq]
  rw [if_neg]
  intro h
  exact ho ⟨p, hp, h.2, h.1⟩

theorem covered_of_reaches (w : g.WellFormed) (ho : g.isOrigin origin = true) {e : Endpoint}
    (he : g.Reaches name origin e) : g.Covered name origin e := by
  induction he with
  | start => exact fun s t hs h => ⟨s, hs, h⟩
  | @leave e gate _ hc hout ih =>
    intro s t hs h
    have hlive : g.contains (.pad gate) = true := hc.contains.2
    obtain ⟨p, hp⟩ := IdMap.contains_iff.1 hlive
    rw [← onward_pad hp hout] at hs
    refine ih (.visit (.pad gate)) t ?_ (.visit (gate_ne_origin ho gate).1 hlive hs h)
    exact (mem_departures w.routes hc.1).2 ⟨.proxy gate, hc, List.mem_singleton.2 rfl⟩
  | @enter e gate _ hc ih =>
    intro s t hs h
    have hlive : g.contains (.proxy gate) = true := hc.contains.2
    refine ih (.visit (.proxy gate)) t ?_ (.visit (gate_ne_origin ho gate).2 hlive hs h)
    exact (mem_departures w.routes hc.1).2 ⟨.pad gate, hc, List.mem_singleton.2 rfl⟩
  | @spread e t u k l b _ hc hk hb hf hl hbus hflow hn ih =>
    intro s r hs h
    have hdt : g.direction? (.tack t) = some .input := hc.input
    have hdu : g.direction? (.tack u) = some .output := by rw [direction?_tack hl, hflow]; rfl
    have hne : u ≠ t := by
      intro hut
      rw [hut, hdt] at hdu
      cases hdu
    -- from the tack it came in by, the message goes to the tack it goes out by, and from there on
    have hon : s ∈ g.onward name (.tack u) := by
      rw [onward, if_neg (by rw [hdu]; nofun)]
      exact hs
    have hfan : Step.visit (.tack u) ∈ g.onward name (.tack t) := by
      rw [onward, if_pos hdt]
      exact (mem_fanOut w.tacks hk hb).2 ⟨u, l, rfl, hne, hl, hbus, hflow, hn⟩
    have hlead : Leads g (g.onward name) [origin] (.visit (.tack u)) r :=
      .visit (tack_ne_origin ho hl (by rw [hbus]; exact hb) hf) (IdMap.contains_of_get? hl) hon h
    refine ih (.visit (.tack t)) r ?_
      (.visit (tack_ne_origin ho hk hb hf) (IdMap.contains_of_get? hk) hfan hlead)
    have hmem := mem_departures_tack name w hc hk hb
    rw [hf] at hmem
    exact hmem

theorem leads_of_delivers (w : g.WellFormed) (ho : g.isOrigin origin = true) {t : Target}
    (h : g.Delivers name origin t) :
    ∃ s, s ∈ g.departures name origin ∧ Leads g (g.onward name) [origin] s t := by
  cases h with
  | @pin e i p he hc hp hn =>
    refine covered_of_reaches w ho he (.yield _) _ ?_ (.yield _)
    refine (mem_departures w.routes hc.1).2 ⟨.pin i, hc, ?_⟩
    rw [arrival, hp]
    simp only
    rw [if_pos hn]
    exact List.mem_singleton.2 rfl
  | @tack e t k b he hc hk hb hf =>
    have hmem := mem_departures_tack name w hc hk hb
    rw [hf] at hmem
    exact covered_of_reaches w ho he (.yield _) _ hmem (.yield _)
  | @boundary e gate p he hc hp hroot hpad hn =>
    refine covered_of_reaches w ho he (.visit (.pad gate)) _ ?_
      (.visit (gate_ne_origin ho gate).1 hc.contains.2 (s := .yield (.boundary p.group gate)) ?_
        (.yield _))
    · exact (mem_departures w.routes hc.1).2 ⟨.proxy gate, hc, List.mem_singleton.2 rfl⟩
    · simp [onward, hp, hpad, hroot, hn]

/-- A walk from an origin finds what its messages are delivered to. -/
theorem mem_walk_onward (w : g.WellFormed) (ho : g.isOrigin origin = true) {t : Target} :
    t ∈ g.walk (g.onward name) (g.departures name origin) [origin] ↔ g.Delivers name origin t := by
  rw [mem_walk]
  constructor
  · intro h
    obtain ⟨s, hs, h⟩ := h
    exact delivers_of_leads w ho h (departures_sound w.routes ho .start hs)
  · exact leads_of_delivers w ho

/-! ## One target for each key -/

section FirstByKey

variable {α κ : Type} [DecidableEq κ] {key : α → κ}

theorem firstByKey_sublist (l : List α) : (firstByKey key l).Sublist l := by
  induction l with
  | nil => exact List.Sublist.refl _
  | cons a as ih => exact (List.filter_sublist.trans ih).cons_cons a

theorem nodup_keys_firstByKey (l : List α) : ((firstByKey key l).map key).Nodup := by
  induction l with
  | nil => exact List.Pairwise.nil
  | cons a as ih =>
    rw [firstByKey, List.map_cons]
    refine List.nodup_cons.2 ⟨fun h => ?_, (List.filter_sublist.map key).nodup ih⟩
    obtain ⟨b, hb, hk⟩ := List.mem_map.1 h
    exact of_decide_eq_true (List.mem_filter.1 hb).2 hk

theorem mem_keys_firstByKey {l : List α} {k : κ} : k ∈ (firstByKey key l).map key ↔ k ∈ l.map key := by
  induction l with
  | nil => exact Iff.rfl
  | cons a as ih =>
    rw [firstByKey, List.map_cons, List.map_cons, List.mem_cons, List.mem_cons]
    by_cases hk : k = key a
    · simp only [hk, true_or]
    · rw [← ih, List.mem_map, List.mem_map]
      simp only [hk, false_or, List.mem_filter, decide_eq_true_eq]
      constructor
      · intro h
        obtain ⟨b, ⟨hb, -⟩, hbk⟩ := h
        exact ⟨b, hb, hbk⟩
      · intro h
        obtain ⟨b, hb, hbk⟩ := h
        exact ⟨b, ⟨hb, fun he => hk (hbk.symm.trans he)⟩, hbk⟩

/-- Where a test tells elements apart by their keys alone, it may be made before the first ones are picked or
after. -/
theorem filter_firstByKey_of_key {l : List α} {keep : α → Bool}
    (hkeep : ∀ a ∈ l, ∀ b ∈ l, key b = key a → keep b = keep a) :
    (firstByKey key l).filter keep = firstByKey key (l.filter keep) := by
  induction l with
  | nil => rfl
  | cons a as ih =>
    have ih := ih fun b hb c hc => hkeep b (List.mem_cons_of_mem a hb) c (List.mem_cons_of_mem a hc)
    rw [firstByKey]
    by_cases ha : keep a = true
    · rw [List.filter_cons_of_pos ha, List.filter_cons_of_pos ha, firstByKey, ← ih,
        List.filter_comm]
    · -- what the test refuses takes nothing away that it accepts
      rw [List.filter_cons_of_neg ha, List.filter_cons_of_neg ha, ← ih, List.filter_filter]
      refine List.filter_congr fun b hb => ?_
      have hb := List.mem_cons_of_mem a ((firstByKey_sublist as).subset hb)
      by_cases hkey : key b = key a
      · rw [hkeep a List.mem_cons_self b hb hkey, Bool.eq_false_iff.2 ha, Bool.false_and]
      · simp [hkey]

/-- Elements that correspond give first ones that do, if those of one key correspond to those of one key. -/
theorem forall₂_firstByKey {β κ' : Type} [DecidableEq κ'] {key' : β → κ'} {R : α → β → Prop}
    {as : List α} {bs : List β}
    (hkey : ∀ {a b c d}, R a b → R c d → (key' d = key' b ↔ key c = key a))
    (h : List.Forall₂ R as bs) : List.Forall₂ R (firstByKey key as) (firstByKey key' bs) := by
  induction h with
  | nil => exact .nil
  | cons hab _ ih =>
    refine .cons hab (List.rel_filter (fun {_ _} hcd => ?_) ih)
    simp only [ne_eq, hkey hab hcd]

end FirstByKey

/-- The keys of what is delivered from an origin. -/
def reachedKeys (g : Graph) (origin : Endpoint) : List TargetKey :=
  (g.resolve origin).map g.targetKey

theorem delivers_of_mem_resolve (w : g.WellFormed) (ho : g.isOrigin origin = true) {t : Target}
    (h : t ∈ g.resolve origin) : g.Delivers (g.nameOf origin) origin t :=
  (mem_walk_onward w ho).1 ((firstByKey_sublist _).subset h)

theorem mem_reachedKeys (w : g.WellFormed) (ho : g.isOrigin origin = true) {k : TargetKey} :
    k ∈ g.reachedKeys origin ↔
      ∃ t, g.Delivers (g.nameOf origin) origin t ∧ g.targetKey t = k := by
  rw [reachedKeys, resolve, mem_keys_firstByKey, List.mem_map]
  simp only [mem_walk_onward w ho]

end MessageGraph.Graph
