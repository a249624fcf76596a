import MessageGraph.Proofs.Blueprint.Reconnection
import MessageGraph.Proofs.Resolution.Tables

/-!
# Resolving in two graphs that mirror each other

Two graphs `Mirror` each other if they look the same and their routes, in the order of their ids, match
one by one. Then each endpoint of the one has an `Image` in the other: the twin, or the tack of the same
bus for the matching route. All lists that a walk goes through correspond image by image
(`Mirror.departures`, `Mirror.fanOut`, `Mirror.onward`), so a walk meets the same targets in the same
order (`Mirror.resolve`).
-/
namespace MessageGraph

theorem Direction.opposite_inj {d d' : Direction} (h : d'.opposite = d.opposite) : d' = d := by
  cases d <;> cases d' <;> first | rfl | cases h

theorem Flow.direction_inj {f f' : Flow} (h : f'.direction = f.direction) : f' = f := by
  cases f <;> cases f' <;> first | rfl | cases h

namespace Graph

variable {g h : Graph} {s s' : Id} {x y x' y' : Endpoint} {a a' b b' : Terminal}

/-! ## The ends of a route -/

/-- The two ends of a route are at different terminals. -/
theorem Wired.eq_of_terminalOf (hw : g.Wired) (hx : g.Ends s x) (hy : g.Ends s y)
    (ht : g.terminalOf x = g.terminalOf y) : x = y := by
  obtain ⟨r, hr, hx⟩ := hx
  obtain ⟨r', hr', hy⟩ := hy
  cases hr.symm.trans hr'
  have hne := (hw.legal hr).ne
  rcases hx with rfl | rfl <;> rcases hy with rfl | rfl
  · rfl
  · exact absurd ht hne
  · exact absurd ht.symm hne
  · rfl

theorem Sends.back (hs : g.Sends s x y) : g.across? y s = some x := by
  obtain ⟨r, hr, ⟨rfl, rfl⟩ | ⟨rfl, rfl⟩⟩ := hs.route
  · have hne : r.a ≠ r.b := fun h => by
      have := hs.output
      rw [h, hs.input] at this
      cases this
    simp only [across?, hr, Option.bind_some, Route.other?, hne, ↓reduceIte]
  · exact across?_left hr

theorem Sends.mem_routesAt (hs : g.Sends s x y) (w : g.WellFormed) :
    s ∈ g.routesAt a ↔ g.terminalOf x = a ∨ g.terminalOf y = a := by
  rw [Graph.mem_routesAt w]
  constructor
  · rintro ⟨e, he, hat⟩
    exact (hs.ends_iff.1 he).imp (fun h => by rw [h, hat]) fun h => by rw [h, hat]
  · rintro (hat | hat)
    · exact ⟨x, hs.ends_iff.2 (Or.inl rfl), hat⟩
    · exact ⟨y, hs.ends_iff.2 (Or.inr rfl), hat⟩

/-- The routes at a terminal are in the order of their ids. -/
theorem Wired.routesAt_eq (hw : g.Wired) (w : g.WellFormed) (a : Terminal) :
    g.routesAt a = g.routes.ids.filter fun s => decide (s ∈ g.routesAt a) := by
  have hids : g.routes.ids.Pairwise (· < ·) := List.pairwise_map.2 g.routes.sorted
  refine (hw.sorted a).eq_of_mem_iff (hids.filter _) fun s => ?_
  rw [List.mem_filter, decide_eq_true_eq]
  refine ⟨fun hs => ⟨?_, hs⟩, (·.2)⟩
  obtain ⟨e, ⟨r, hr, -⟩, -⟩ := ends_of_mem_routesAt w hs
  exact IdMap.mem_ids_iff.2 (IdMap.contains_of_get? hr)

theorem Twin.eq_iff (w : g.WellFormed) (w' : h.WellFormed) (t : Twin g h a a') (u : Twin g h b b') :
    a = b ↔ a' = b' := by
  constructor
  · rintro rfl
    exact t.unique w' u
  · rintro rfl
    exact t.symm.unique w u.symm

theorem Matches.unique {s₁ s₂ : Id} (m₁ : Matches g h s s₁) (m₂ : Matches g h s s₂)
    (w' : h.WellFormed) (hw' : h.Wired) : s₁ = s₂ := by
  obtain ⟨x, y, x₁, y₁, hs, hs₁, tx₁, ty₁⟩ := m₁.ends
  obtain ⟨_, _, x₂, y₂, hs', hs₂, tx₂, ty₂⟩ := m₂.ends
  obtain ⟨rfl, rfl⟩ := hs.unique hs'
  refine hw'.single (hs₁.joins_iff.2 (Or.inl ⟨rfl, rfl⟩)) (hs₂.joins_iff.2 (Or.inl ⟨?_, ?_⟩))
  · exact tx₂.unique w' tx₁
  · exact ty₂.unique w' ty₁

theorem Matches.symm (m : Matches g h s s') : Matches h g s' s := by
  obtain ⟨x, y, x', y', hs, hs', tx, ty⟩ := m.ends
  exact ⟨⟨x', y', x, y, hs', hs, tx.symm, ty.symm⟩, m.wire.symm⟩

/-! ## Mirrored graphs -/

/-- Two graphs of legal connections that look the same, with routes that match one by one. -/
structure Mirror (g h : Graph) : Prop where
  left : g.WellFormed
  right : h.WellFormed
  wired : g.Wired
  wired' : h.Wired
  own : g.Own
  own' : h.Own
  looks : Looks g h
  matched : List.Forall₂ (Matches g h) g.routes.ids h.routes.ids

/-- Endpoints in the same place. -/
structure Image (g h : Graph) (x x' : Endpoint) : Prop where
  live : g.contains x = true
  live' : h.contains x' = true
  twin : Twin g h (g.terminalOf x) (h.terminalOf x')
  routes : List.Forall₂ (Matches g h) (g.routesOf x) (h.routesOf x')

theorem Image.endpointClass (i : Image g h x x') : x'.endpointClass = x.endpointClass := by
  rw [← endpointClass_terminalOf (g := h), i.twin.endpointClass, endpointClass_terminalOf]

theorem Image.symm (i : Image g h x x') : Image h g x' x :=
  ⟨i.live', i.live, i.twin.symm, (i.routes.imp fun _ _ hm => hm.symm).flip⟩

namespace Mirror

variable (m : Mirror g h)

include m

/-- Twins have matching routes, in the same order. -/
theorem routesAt (t : Twin g h a a') :
    List.Forall₂ (Matches g h) (g.routesAt a) (h.routesAt a') := by
  rw [m.wired.routesAt_eq m.left, m.wired'.routesAt_eq m.right]
  refine List.rel_filter (fun {s s'} hm => ?_) m.matched
  obtain ⟨x, y, x', y', hs, hs', tx, ty⟩ := hm.ends
  simp only [decide_eq_true_eq]
  rw [hs.mem_routesAt m.left, hs'.mem_routesAt m.right, tx.eq_iff m.left m.right t,
    ty.eq_iff m.left m.right t]

theorem image_of_twin (t : Twin g h a a') (hx : a.endpoint? = some x)
    (hx' : a'.endpoint? = some x') : Image g h x x' where
  live := contains_of_hasTerminal t.symm.hasTerminal hx
  live' := contains_of_hasTerminal t.hasTerminal hx'
  twin := by
    rw [terminalOf_of_endpoint? hx, terminalOf_of_endpoint? hx']
    exact t
  routes := by
    rw [← routesAt_of_endpoint? hx, ← routesAt_of_endpoint? hx']
    exact m.routesAt t

/-- The ends of matching routes at twins are images. -/
theorem image_of_ends (hm : Matches g h s s') (hx : g.Ends s x) (hx' : h.Ends s' x')
    (t : Twin g h (g.terminalOf x) (h.terminalOf x')) : Image g h x x' := by
  by_cases hclass : x.endpointClass = .tack
  · have hclass' : x'.endpointClass = .tack := by
      rw [← endpointClass_terminalOf (g := h), t.endpointClass, endpointClass_terminalOf, hclass]
    refine ⟨m.left.contains_of_ends hx, m.right.contains_of_ends hx', t, ?_⟩
    cases x with
    | tack i =>
      cases x' with
      | tack j =>
        obtain ⟨k, hk, rfl⟩ := exists_tack m.left hx
        obtain ⟨k', hk', rfl⟩ := exists_tack m.right hx'
        simp only [routesOf, hk, hk', Option.elim_some]
        exact .cons hm .nil
      | _ => cases hclass'
    | _ => cases hclass
  · refine m.image_of_twin t (endpoint?_terminalOf hclass) (endpoint?_terminalOf fun hclass' => ?_)
    rw [← endpointClass_terminalOf (g := h), t.endpointClass, endpointClass_terminalOf] at hclass'
    exact hclass hclass'

/-- An endpoint has one image. -/
theorem image_unique (i : Image g h x x') (i' : Image g h x y') : x' = y' := by
  have ht := i.twin.unique m.right i'.twin
  by_cases hclass : x.endpointClass = .tack
  · cases x with
    | tack t =>
      -- the matching route has one end at the bus
      obtain ⟨s, hs⟩ := exists_routesOf_tack i.live
      have hroutes := i.routes
      have hroutes' := i'.routes
      rw [hs, List.forall₂_cons_left_iff] at hroutes hroutes'
      obtain ⟨s₁, _, hm₁, -, h₁⟩ := hroutes
      obtain ⟨s₂, _, hm₂, -, h₂⟩ := hroutes'
      obtain rfl := hm₁.unique hm₂ m.right m.wired'
      exact m.wired'.eq_of_terminalOf
        (m.right.routes.mem_iff.1 (by rw [h₁]; exact List.mem_cons_self))
        (m.right.routes.mem_iff.1 (by rw [h₂]; exact List.mem_cons_self)) ht
    | _ => cases hclass
  · have hx' := endpoint?_terminalOf (g := h) (x := x') (by rw [i.endpointClass]; exact hclass)
    have hy' := endpoint?_terminalOf (g := h) (x := y') (by rw [i'.endpointClass]; exact hclass)
    rw [ht, hy'] at hx'
    exact (Option.some.inj hx').symm

theorem symm : Mirror h g where
  left := m.right
  right := m.left
  wired := m.wired'
  wired' := m.wired
  own := m.own'
  own' := m.own
  looks := m.looks.symm
  matched := (m.matched.imp fun _ _ hm => hm.symm).flip

theorem image_eq_iff (i : Image g h x x') (j : Image g h y y') : x = y ↔ x' = y' := by
  constructor
  · rintro rfl
    exact m.image_unique i j
  · rintro rfl
    exact m.symm.image_unique i.symm j.symm

/-- Along matching routes images lead to images. -/
theorem across (i : Image g h x x') (hm : Matches g h s s') (hx : s ∈ g.routesOf x)
    (hx' : s' ∈ h.routesOf x') :
    ∃ y y', g.across? x s = some y ∧ h.across? x' s' = some y' ∧ Image g h y y' := by
  have hx := m.left.routes.mem_iff.1 hx
  have hx' := m.right.routes.mem_iff.1 hx'
  obtain ⟨p, q, p', q', hs, hs', tp, tq⟩ := hm.ends
  have himage := m.image_of_ends hm (hs.ends_iff.2 (Or.inl rfl)) (hs'.ends_iff.2 (Or.inl rfl)) tp
  have himage' := m.image_of_ends hm (hs.ends_iff.2 (Or.inr rfl)) (hs'.ends_iff.2 (Or.inr rfl)) tq
  rcases hs.ends_iff.1 hx with rfl | rfl
  · obtain rfl := m.image_unique i himage
    exact ⟨q, q', hs.across, hs'.across, himage'⟩
  · obtain rfl := m.image_unique i himage'
    exact ⟨p, p', hs.back, hs'.back, himage⟩

/-- Images face the same way under the same name. -/
theorem faces (i : Image g h x x') :
    h.direction? x' = g.direction? x ∧ h.name? x' = g.name? x := by
  have hplain : ∀ {x x'}, Image g h x x' → x.endpointClass ≠ .tack →
      h.direction? x' = g.direction? x ∧ h.name? x' = g.name? x := by
    intro x x' i hclass
    obtain ⟨e, he, hd, -, hn⟩ := i.twin.endpoint (endpoint?_terminalOf hclass)
    rw [eq_of_endpoint?_terminalOf he] at hd hn
    exact ⟨hd, hn⟩
  by_cases hclass : x.endpointClass = .tack
  · -- a tack faces the other end of its route
    cases x with
    | tack t =>
      have hclass' := i.endpointClass
      cases x' with
      | tack t' =>
        obtain ⟨k, hk⟩ := IdMap.contains_iff.1 i.live
        obtain ⟨k', hk'⟩ := IdMap.contains_iff.1 i.live'
        have hk : g.tack? t = some k := hk
        have hk' : h.tack? t' = some k' := hk'
        have hroutes := i.routes
        simp only [routesOf, hk, hk', Option.elim_some, List.forall₂_cons, List.Forall₂.nil,
          and_true] at hroutes
        obtain ⟨y, y', hy, hy', j⟩ := m.across i hroutes
          (by simp only [routesOf, hk, Option.elim_some, List.mem_singleton])
          (by simp only [routesOf, hk', Option.elim_some, List.mem_singleton])
        obtain ⟨far, hfar, hne, hd, hn, -⟩ := m.left.faced t k hk
        obtain ⟨far', hfar', -, hd', hn', -⟩ := m.right.faced t' k' hk'
        cases hfar.symm.trans hy
        cases hfar'.symm.trans hy'
        obtain ⟨hdj, hnj⟩ := hplain j hne
        rw [hd, hd', Option.some.injEq] at hdj
        rw [hn, hn'] at hnj
        refine ⟨?_, ?_⟩
        · simp only [direction?, hk, hk', Option.map_some]
          rw [Direction.opposite_inj hdj]
        · simp only [name?, hk, hk', Option.map_some]
          exact hnj
      | _ => cases hclass'
    | _ => cases hclass
  · exact hplain i hclass

theorem nameOf (i : Image g h x x') : h.nameOf x' = g.nameOf x := by
  unfold Graph.nameOf
  rw [(m.faces i).2]

/-- A bus has its tacks in the same order. -/
theorem tackIds {i : Id} (hi : g.buses.contains i = true) :
    List.Forall₂ (fun t t' => Image g h (.tack t) (.tack t')) (g.tackIds i) (h.tackIds i) := by
  obtain ⟨b, hb⟩ := IdMap.contains_iff.1 hi
  obtain ⟨b', hb', -⟩ := m.looks.bus m.left m.right m.own hb
  have ht : Twin g h (.bus i) (.bus i) := .bus hi (IdMap.contains_of_get? hb')
  have hroutes := m.routesAt ht
  rw [routesAt_bus m.left, routesAt_bus m.right, List.forall₂_map_left_iff,
    List.forall₂_map_right_iff] at hroutes
  refine (forall₂_and_mem hroutes).imp fun t t' ⟨hm, hmem, hmem'⟩ => ?_
  obtain ⟨hx, hat⟩ := ends_tackRoute m.left hmem
  obtain ⟨hx', hat'⟩ := ends_tackRoute m.right hmem'
  exact m.image_of_ends hm hx hx' (by rw [hat, hat']; exact ht)

end Mirror

/-! ## What a walk goes through -/

namespace Mirror

variable (m : Mirror g h)

include m

theorem oneToOne : OneToOne g h (Image g h) :=
  ⟨fun i => ⟨i.live, i.live'⟩, m.image_eq_iff⟩

/-- A bus and its image are filtered alike. -/
theorem bus {i : Id} {b : Bus} (hb : g.bus? i = some b) :
    ∃ b', h.bus? i = some b' ∧ b'.group = b.group ∧ b'.name = b.name ∧
      b'.isFiltered = b.isFiltered := by
  obtain ⟨b', hb', hgroup, hname, hfilter⟩ := m.looks.bus m.left m.right m.own hb
  exact ⟨b', hb', hgroup, hname, by rw [Bus.isFiltered, hfilter]; rfl⟩

/-- Images among tacks stand at one bus. -/
theorem busOf {t t' : Id} (i : Image g h (.tack t) (.tack t')) :
    ∃ k k' b b', g.tack? t = some k ∧ h.tack? t' = some k' ∧ k'.bus = k.bus ∧
      g.busOf? t = some b ∧ h.busOf? t' = some b' ∧ b'.isFiltered = b.isFiltered := by
  obtain ⟨k, hk⟩ := IdMap.contains_iff.1 i.live
  obtain ⟨k', hk'⟩ := IdMap.contains_iff.1 i.live'
  have hk : g.tack? t = some k := hk
  have hk' : h.tack? t' = some k' := hk'
  have ht := i.twin
  simp only [terminalOf, tackOwner?, hk, hk', Option.map_some, Option.getD_some] at ht
  have hbus : k'.bus = k.bus := by
    generalize k.bus = j at ht
    generalize k'.bus = j' at ht
    cases ht
    rfl
  obtain ⟨b, hb⟩ := m.left.bus_of_tack hk
  obtain ⟨b', hb', -, -, hf⟩ := m.bus hb
  refine ⟨k, k', b, b', hk, hk', hbus, ?_, ?_, hf⟩
  · rw [busOf?, hk]
    exact hb
  · rw [busOf?, hk', Option.bind_some, hbus]
    exact hb'

theorem isOrigin (i : Image g h x x') : h.isOrigin x' = g.isOrigin x := by
  have hclass := i.twin
  cases x with
  | tack t =>
    have hc := i.endpointClass
    cases x' with
    | tack t' =>
      obtain ⟨k, k', b, b', -, -, -, hb, hb', hf⟩ := m.busOf i
      simp only [Graph.isOrigin, (m.faces i).1, hb, hb', Option.elim_some, hf]
    | _ => cases hc
  | pin p =>
    cases x' with
    | pin p' => simp only [Graph.isOrigin, (m.faces i).1]
    | _ => cases hclass
  | proxy p =>
    cases x' with
    | proxy p' => rfl
    | _ => cases hclass
  | pad p =>
    cases x' with
    | pad p' => rfl
    | _ => cases hclass

/-- What arrives at an image takes corresponding steps. -/
theorem arrival (name : String) (i : Image g h x x') :
    List.Forall₂ (SameStep (Image g h) fun t t' => h.targetKey t' = g.targetKey t) (g.arrival name x)
      (h.arrival name x') := by
  have hname := m.nameOf i
  have ht := i.twin
  cases x with
  | pin p =>
    cases x' with
    | pin p' =>
      have ht : Twin g h (.pin p) (.pin p') := ht
      cases ht with
      | pin hp hq hnode hspec =>
        simp only [pinSpec, PinSpec.mk.injEq] at hspec
        simp only [Graph.arrival, hp, hq, hspec.1]
        split
        · refine .cons (.yield ?_) .nil
          rw [targetKey, targetKey, hname, hnode]
        · exact .nil
    | _ => cases ht
  | proxy p =>
    cases x' with
    | proxy p' =>
      have ht : Twin g h (.proxy p) (.proxy p') := ht
      cases ht with
      | proxy hp hq hgroup hspec =>
        exact .cons (.visit (m.image_of_twin (.pad hp hq hgroup hspec) rfl rfl)) .nil
    | _ => cases ht
  | pad p =>
    cases x' with
    | pad p' =>
      have ht : Twin g h (.pad p) (.pad p') := ht
      cases ht with
      | pad hp hq hgroup hspec =>
        exact .cons (.visit (m.image_of_twin (.proxy hp hq hgroup hspec) rfl rfl)) .nil
    | _ => cases ht
  | tack t =>
    have hc := i.endpointClass
    cases x' with
    | tack t' =>
      obtain ⟨k, k', b, b', hk, hk', hbus, hb, hb', hf⟩ := m.busOf i
      simp only [Graph.arrival, hk, hk', hb, hb', hf]
      split
      · refine .cons (.yield ?_) .nil
        rw [targetKey, targetKey, hname, hbus]
      · exact .cons (.visit i) .nil
    | _ => cases hc

theorem departures (name : String) (i : Image g h x x') :
    List.Forall₂ (SameStep (Image g h) fun t t' => h.targetKey t' = g.targetKey t) (g.departures name x)
      (h.departures name x') := by
  refine List.rel_flatMap (forall₂_and_mem i.routes) fun {s s'} ⟨hm, hs, hs'⟩ => ?_
  obtain ⟨y, y', hy, hy', j⟩ := m.across i hm hs hs'
  simp only [hy, hy', (m.faces j).1]
  split
  · exact m.arrival name j
  · exact .nil

theorem fanOut (name : String) {t t' : Id} (i : Image g h (.tack t) (.tack t')) :
    List.Forall₂ (SameStep (Image g h) fun t t' : Target => h.targetKey t' = g.targetKey t)
      (g.fanOut name t) (h.fanOut name t') := by
  obtain ⟨k, k', b, b', hk, hk', hbus, hb, hb', -⟩ := m.busOf i
  have hlist : List.Forall₂ (fun t t' => Image g h (.tack t) (.tack t')) b.tacks b'.tacks := by
    rw [busOf?, hk, Option.bind_some] at hb
    rw [busOf?, hk', Option.bind_some, hbus] at hb'
    have := m.tackIds (IdMap.contains_of_get? hb)
    simpa only [Graph.tackIds, hb, hb', Option.elim_some] using this
  simp only [Graph.fanOut, hb, hb']
  rw [List.forall₂_map_left_iff, List.forall₂_map_right_iff]
  refine List.Forall₂.imp (fun _ _ j => .visit j) (List.rel_filter (fun {o o'} j => ?_) hlist)
  obtain ⟨l, l', -, -, hl, hl', -⟩ := m.busOf j
  have hd := (m.faces j).1
  have hn := (m.faces j).2
  have hne : o = t ↔ o' = t' := by
    have := m.image_eq_iff j i
    rwa [Endpoint.tack.injEq, Endpoint.tack.injEq] at this
  simp only [direction?, name?, hl, hl', Option.map_some, Option.some.injEq] at hd hn
  simp only [hl, hl', Option.elim_some, Flow.direction_inj hd, hn, hne, ne_eq]

theorem onward (name : String) (i : Image g h x x') :
    List.Forall₂ (SameStep (Image g h) fun t t' => h.targetKey t' = g.targetKey t) (g.onward name x)
      (h.onward name x') := by
  have ht := i.twin
  cases x with
  | pin p =>
    cases x' with
    | pin p' => exact m.departures name i
    | _ => cases ht
  | proxy p =>
    cases x' with
    | proxy p' => exact m.departures name i
    | _ => cases ht
  | pad p =>
    cases x' with
    | pad p' =>
      have ht : Twin g h (.pad p) (.pad p') := ht
      have hname := m.nameOf i
      have hroutes := i.routes
      have hdepart := m.departures name i
      cases ht with
      | @pad _ _ p q hp hq hgroup hspec =>
        simp only [gateSpec, GateSpec.mk.injEq] at hspec
        simp only [routesOf, hp, hq, Option.elim_some] at hroutes
        have hempty : q.padRoutes.isEmpty = p.padRoutes.isEmpty := by
          rw [Bool.eq_iff_iff, List.isEmpty_iff_length_eq_zero, List.isEmpty_iff_length_eq_zero,
            hroutes.length_eq]
        simp only [Graph.onward, hp, hq, hempty, hgroup, m.looks.root, hspec.1]
        split
        · split
          · refine .cons (.yield ?_) .nil
            rw [targetKey, targetKey, hname]
          · exact .nil
        · exact hdepart
    | _ => cases ht
  | tack t =>
    have hc := i.endpointClass
    cases x' with
    | tack t' =>
      simp only [Graph.onward, (m.faces i).1]
      split
      · exact m.fanOut name i
      · exact m.departures name i
    | _ => cases hc

/-- Walks from images find targets of the same keys in the same order. -/
theorem resolve (i : Image g h x x') :
    (h.resolve x').map h.targetKey = (g.resolve x).map g.targetKey := by
  have hwalk := m.oneToOne.walk (fun {_ _} j => m.onward (g.nameOf x) j) (m.departures (g.nameOf x) i)
    (.cons i .nil)
  have hfirst : List.Forall₂ _ (firstByKey g.targetKey _) (firstByKey h.targetKey _) :=
    forall₂_firstByKey (fun {_ _ _ _} hk hk' => by rw [hk, hk']) hwalk
  simp only [Graph.resolve, m.nameOf i]
  exact map_eq_of_forall₂ (fun {_ _} hk => hk) hfirst

end Mirror
end Graph
end MessageGraph
