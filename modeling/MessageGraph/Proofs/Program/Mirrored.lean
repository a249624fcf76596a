import MessageGraph.Proofs.Program.Order
import MessageGraph.Proofs.Resolution.Mirror

/-!
# Compiling graphs that mirror each other

Mirrored graphs without links compile to the same in every respect: the same program, reports and counts
(`Mirror.compile`). Flattening and binding read the tree and what the documents say of its nodes alone
(`Looks`), and rows read tables by key (`destinations_eq`), which a walk fills in the same order on
both sides (`Mirror.resolve`).
-/
namespace MessageGraph.Graph

variable {g h : Graph}

/-! ## What a graph says of itself -/

namespace Looks

theorem node?_none (l : Looks g h) {n : Id} (hn : g.node? n = none) : h.node? n = none := by
  have hlive := l.live n
  rw [IdMap.contains_eq_false_iff.2 hn] at hlive
  exact node?_of_absent hlive

theorem name_eq (l : Looks g h) (n : Id) :
    (h.node? n).map (·.name) = (g.node? n).map (·.name) := by
  cases hm : g.node? n with
  | none => rw [l.node?_none hm]
  | some m =>
    cases hk : m.kind with
    | source s =>
      obtain ⟨m', s', hm', -, hname, -⟩ := l.source hm hk
      rw [hm', Option.map_some, Option.map_some, hname]
    | group s =>
      obtain ⟨m', s', hm', -, hname, -⟩ := l.group hm hk
      rw [hm', Option.map_some, Option.map_some, hname]

theorem behavior_eq (l : Looks g h) (n : Id) :
    (h.source? n).map (·.behavior) = (g.source? n).map (·.behavior) := by
  unfold source?
  cases hm : g.node? n with
  | none => rw [l.node?_none hm]
  | some m =>
    cases hk : m.kind with
    | source s =>
      obtain ⟨m', s', hm', hk', -, hb, -⟩ := l.source hm hk
      simp only [hm', Option.bind_some, Node.source?, hk, hk', Option.map_some, hb]
    | group s =>
      obtain ⟨m', s', hm', hk', -⟩ := l.group hm hk
      simp only [hm', Option.bind_some, Node.source?, hk, hk']

theorem library_eq (l : Looks g h) (n : Id) :
    (h.group? n).bind (·.library) = (g.group? n).bind (·.library) := by
  unfold group?
  cases hm : g.node? n with
  | none => rw [l.node?_none hm]
  | some m =>
    cases hk : m.kind with
    | source s =>
      obtain ⟨m', s', hm', hk', -⟩ := l.source hm hk
      simp only [hm', Option.bind_some, Node.group?, hk, hk']
    | group s =>
      obtain ⟨m', s', hm', hk', -, -, -, -, hl⟩ := l.group hm hk
      simp only [hm', Option.bind_some, Node.group?, hk, hk', hl]

theorem unlinked (l : Looks g h) (hu : g.Unlinked) : h.Unlinked := by
  intro n m' hm'
  cases hk' : m'.kind with
  | source s' => simp only [Node.group?, hk', Option.bind_none]
  | group s' =>
    obtain ⟨m, s, hm, hk, -, -, -, hlink, -⟩ := l.symm.group hm' hk'
    have hnone := hu n m hm
    simp only [Node.group?, hk, Option.bind_some] at hnone
    rw [hnone, Option.map_none, eq_comm, Option.map_eq_none_iff] at hlink
    simp only [Node.group?, hk', Option.bind_some, hlink]

/-- A behavior comes from the same location. -/
theorem locationFor_eq (l : Looks g h) (w : g.WellFormed) (w' : h.WellFormed) (n : Id)
    (behavior : BehaviorRef) (default : String) :
    h.locationFor n behavior default = g.locationFor n behavior default := by
  simp only [locationFor, l.lineage_eq w.tree w'.tree, l.library_eq]

end Looks

/-- Without links nothing is broken. -/
theorem Unlinked.brokenLink? (hu : g.Unlinked) {n : Id} {m : Node} (hm : g.node? n = some m)
    {s : Group} (hk : m.kind = .group s) : brokenLink? s = none := by
  have hnone := hu n m hm
  simp only [Node.group?, hk, Option.bind_some] at hnone
  simp only [Graph.brokenLink?, hnone, Option.bind_none]

/-- The filtered buses of a group are told by its behavioral entry. -/
theorem filteredBuses_eq (ho : g.Own) (s : Group) : g.filteredBuses s =
    (((g.ownBuses s).map fun y => (⟨y.1, y.2.name, y.2.filter⟩ : BusSpec)).filter
      (·.filter.isSome)).map (·.id) := by
  unfold filteredBuses ownBuses
  induction s.buses with
  | nil => rfl
  | cons i is ih =>
    rw [List.filter_cons, List.filterMap_cons]
    cases hb : g.bus? i with
    | none => simpa only [Option.elim_none, Bool.false_eq_true, ↓reduceIte, Option.map_none] using ih
    | some b =>
      have hkeep : (!b.imported) = true := by rw [ho.buses i b hb]; rfl
      simp only [Option.elim_some, Option.map_some, List.filter_cons, hkeep, ↓reduceIte, List.map_cons]
      by_cases hf : b.isFiltered = true
      · have hf' : b.filter.isSome = true := hf
        simp only [hf, hf', ↓reduceIte, List.map_cons]
        rw [ih]
      · have hf' : ¬ b.filter.isSome = true := hf
        simp only [hf, hf', Bool.false_eq_true, ↓reduceIte]
        exact ih

/-! ## Flattening and binding -/

namespace Mirror

mutual

theorem flatten (m : Mirror g h) (hu : g.Unlinked) : (t : Tree Id) → h.flatten t = g.flatten t
  | .node n ts => by
    cases hm : g.node? n with
    | none =>
      rw [Graph.flatten, Graph.flatten, hm, m.looks.node?_none hm]
    | some x =>
      cases hk : x.kind with
      | source s =>
        obtain ⟨x', s', hx', hk', -⟩ := m.looks.source hm hk
        simp only [Graph.flatten, hm, hx', hk, hk']
      | group s =>
        obtain ⟨x', s', hx', hk', hname, -, hbuses, -⟩ := m.looks.group hm hk
        have hchildren : s'.children = s.children := by
          have := m.looks.children n
          rwa [childIds_of_group? (group?_of_kind hx' hk'), childIds_of_group? (group?_of_kind hm hk)] at this
        have hfiltered : h.filteredBuses s' = g.filteredBuses s := by
          rw [filteredBuses_eq m.own', filteredBuses_eq m.own, hbuses]
        simp only [Graph.flatten, hm, hx', hk, hk', hu.brokenLink? hm hk,
          (m.looks.unlinked hu).brokenLink? hx' hk', hname, hchildren, hfiltered, flattenAll m hu ts]

theorem flattenAll (m : Mirror g h) (hu : g.Unlinked) :
    (ts : List (Tree Id)) → h.flattenAll ts = g.flattenAll ts
  | [] => by rw [Graph.flattenAll, Graph.flattenAll]
  | t :: ts => by rw [Graph.flattenAll, Graph.flattenAll, flatten m hu t, flattenAll m hu ts]

end

variable (m : Mirror g h)

include m

theorem bus_eq (i : Id) : (h.bus? i).map (fun b => (b.group, b.name, b.filter)) =
    (g.bus? i).map fun b => (b.group, b.name, b.filter) := by
  cases hb : g.bus? i with
  | some b =>
    obtain ⟨b', hb', hgroup, hname, hfilter⟩ := m.looks.bus m.left m.right m.own hb
    rw [hb', Option.map_some, Option.map_some, hgroup, hname, hfilter]
  | none =>
    cases hb' : h.bus? i with
    | none => rfl
    | some b' =>
      obtain ⟨b, hb₁, -⟩ := m.looks.symm.bus m.right m.left m.own' hb'
      rw [hb] at hb₁
      cases hb₁

theorem behaviorOf? (e : Element) : h.behaviorOf? e = g.behaviorOf? e := by
  cases e with
  | source n =>
    have hb := congrArg (Option.map fun b => (b, n)) (m.looks.behavior_eq n)
    rw [Option.map_map, Option.map_map] at hb
    exact hb
  | filter i =>
    have hb := congrArg (Option.bind · fun b : Id × String × Option BehaviorRef =>
      b.2.2.map fun f => (f, b.1)) (m.bus_eq i)
    rw [Option.bind_map, Option.bind_map] at hb
    exact hb

theorem importAll (options : Options) (es : List Element) (manifest : Manifest) :
    h.importAll options es manifest = g.importAll options es manifest := by
  induction es generalizing manifest with
  | nil => rfl
  | cons e es ih =>
    simp only [Graph.importAll, m.behaviorOf?, m.looks.locationFor_eq m.left m.right, ih]

/-! ## Rows -/

theorem destinationAt? (variant : String) (fromPattern : Bool) (key : TargetKey) :
    h.destinationAt? variant fromPattern key = g.destinationAt? variant fromPattern key := by
  unfold Graph.destinationAt?
  cases key.owner with
  | node n =>
    refine congrArg (Option.bind _) (funext fun received => ?_)
    have hn := congrArg (Option.map fun name => (⟨received, name, n⟩ : Destination))
      (m.looks.name_eq n)
    rw [Option.map_map, Option.map_map] at hn
    exact hn
  | bus i =>
    have hb := congrArg (Option.map fun b => (⟨variant, b.2.1, i⟩ : Destination)) (m.bus_eq i)
    rw [Option.map_map, Option.map_map] at hb
    exact hb

/-- Messages from an endpoint and from its image go to the same destinations, in the same order. -/
theorem destinations {x x' : Endpoint} (i : Image g h x x') (variant : String) (fromPattern : Bool) :
    h.destinations (Tables.build h) x' variant fromPattern =
      g.destinations (Tables.build g) x variant fromPattern := by
  have hs := (Tables.build_of g).sound m.left
  have hs' := (Tables.build_of h).sound m.right
  rw [destinations_eq hs, destinations_eq hs', funext (m.destinationAt? variant fromPattern)]
  refine congrArg (List.filterMap _) ?_
  unfold Tables.keys
  cases ho : g.isOrigin x with
  | true =>
    rw [Tables.get_build ho, Tables.get_build ((m.isOrigin i).trans ho), m.resolve i]
  | false =>
    rw [hs.get_eq_nil ho, hs'.get_eq_nil ((m.isOrigin i).trans ho)]
    rfl

/-- The pins of a source correspond one by one. -/
theorem pins {n : Id} {s s' : Source} (hs : g.source? n = some s) (hs' : h.source? n = some s')
    (hspec : (s'.pins.filterMap h.pin?).map pinSpec = (s.pins.filterMap g.pin?).map pinSpec) :
    List.Forall₂ (fun x y => pinSpec y.2 = pinSpec x.2 ∧ Image g h (.pin x.1) (.pin y.1))
      (s.pins.filterMap fun i => (g.pin? i).map fun p => (i, p))
      (s'.pins.filterMap fun i => (h.pin? i).map fun p => (i, p)) := by
  have hmap : ∀ (g : Graph) (l : List Id), (l.filterMap g.pin?).map pinSpec =
      (l.filterMap fun i => (g.pin? i).map fun p => (i, p)).map fun x => pinSpec x.2 := fun g l => by
    simp only [List.map_filterMap, Option.map_map, Function.comp_def]
  have hmem : ∀ {g : Graph} {s : Source}, g.WellFormed → g.source? n = some s →
      ∀ {x : Id × Pin}, x ∈ (s.pins.filterMap fun i => (g.pin? i).map fun p => (i, p)) →
      g.pin? x.1 = some x.2 ∧ x.2.node = n := by
    intro g s w hs x hx
    obtain ⟨i, hi, hp⟩ := List.mem_filterMap.1 hx
    obtain ⟨p, hpin, rfl⟩ := Option.map_eq_some_iff.1 hp
    exact ⟨hpin, w.pin_of_mem ((pinIds_of_source? hs).symm ▸ hi) hpin⟩
  rw [hmap, hmap] at hspec
  have hlist : List.Forall₂ (fun x y : Id × Pin => pinSpec y.2 = pinSpec x.2)
      (s.pins.filterMap fun i => (g.pin? i).map fun p => (i, p))
      (s'.pins.filterMap fun i => (h.pin? i).map fun p => (i, p)) := by
    rw [← List.forall₂_eq_eq_eq, List.forall₂_map_left_iff, List.forall₂_map_right_iff] at hspec
    exact hspec.flip
  refine (forall₂_and_mem hlist).imp fun x y hboth => ?_
  obtain ⟨hxy, hx, hy⟩ := hboth
  obtain ⟨hp, hn⟩ := hmem m.left hs hx
  obtain ⟨hq, hn'⟩ := hmem m.right hs' hy
  exact ⟨hxy, m.image_of_twin (.pin hp hq (hn'.trans hn.symm) hxy) rfl rfl⟩

/-- The tacks of a bus correspond one by one. -/
theorem tacks {i : Id} {b b' : Bus} (hb : g.bus? i = some b) (hb' : h.bus? i = some b') :
    List.Forall₂ (fun x y : Id × Tack => y.2.flow = x.2.flow ∧ y.2.message = x.2.message ∧
        Image g h (.tack x.1) (.tack y.1))
      (b.tacks.filterMap fun t => (g.tack? t).map fun k => (t, k))
      (b'.tacks.filterMap fun t => (h.tack? t).map fun k => (t, k)) := by
  have hlist := m.tackIds (IdMap.contains_of_get? hb)
  rw [Graph.tackIds, Graph.tackIds, hb, hb'] at hlist
  refine List.rel_filterMap (fun {t t'} j => ?_) hlist
  obtain ⟨k, k', -, -, hk, hk', -⟩ := m.busOf j
  have hd := (m.faces j).1
  have hn := (m.faces j).2
  simp only [direction?, name?, hk, hk', Option.map_some, Option.some.injEq] at hd hn
  rw [hk, hk']
  exact .some ⟨Flow.direction_inj hd, hn, j⟩

theorem describeSource {n : Id} {x x' : Node} {s s' : Source} (hs : g.source? n = some s)
    (hs' : h.source? n = some s') (hname : x'.name = x.name)
    (hspec : (s'.pins.filterMap h.pin?).map pinSpec = (s.pins.filterMap g.pin?).map pinSpec)
    (binding : String) : h.describeSource (Tables.build h) n x' s' binding =
      g.describeSource (Tables.build g) n x s binding := by
  have hpins := m.pins hs hs' hspec
  simp only [Graph.describeSource, hname]
  congr 1
  · refine flatMap_eq_of_forall₂ (fun {y y'} hy => ?_) (List.rel_filter (fun {y y'} hy => ?_) hpins)
    all_goals
      have hspec := hy.1
      simp only [pinSpec, PinSpec.mk.injEq] at hspec
      simp only [hspec]
  · refine flatMap_eq_of_forall₂ (fun {y y'} hy => ?_) (List.rel_filter (fun {y y'} hy => ?_) hpins)
    all_goals
      have hspec := hy.1
      simp only [pinSpec, PinSpec.mk.injEq] at hspec
      simp only [outputRows, hspec, m.destinations hy.2]

omit m in
/-- The same messages arrive at tacks of the same flow and message, in the same order. -/
theorem forall₂_arrivals {ks ks' : List Tack}
    (hk : List.Forall₂ (fun k k' => k'.flow = k.flow ∧ k'.message = k.message) ks ks') :
    List.Forall₂ (fun a a' : String × Tack => a'.1 = a.1 ∧ a'.2.message = a.2.message)
      (arrivals ks) (arrivals ks') := by
  refine forall₂_firstByKey (fun {_ _ _ _} ha hb => by rw [ha.1, hb.1]) ?_
  refine List.rel_flatMap (List.rel_filter (fun {_ _} hk => by simp only [hk.1]) hk) fun {k k'} hk => ?_
  rw [hk.2, List.forall₂_map_left_iff, List.forall₂_map_right_iff]
  exact List.forall₂_same.2 fun _ _ => ⟨rfl, hk.2⟩

theorem filterRows {i : Id} {b b' : Bus} (hb : g.bus? i = some b) (hb' : h.bus? i = some b') :
    h.filterRows (Tables.build h) b' = g.filterRows (Tables.build g) b := by
  have htacks := m.tacks hb hb'
  have harrivals : List.Forall₂ (fun k k' : Tack => k'.flow = k.flow ∧ k'.message = k.message)
      ((b.tacks.filterMap fun t => (g.tack? t).map fun k => (t, k)).map (·.2))
      ((b'.tacks.filterMap fun t => (h.tack? t).map fun k => (t, k)).map (·.2)) := by
    rw [List.forall₂_map_left_iff, List.forall₂_map_right_iff]
    exact htacks.imp fun _ _ hk => ⟨hk.1, hk.2.1⟩
  refine map_eq_of_forall₂ (fun {a a'} ha => ?_) (forall₂_arrivals harrivals)
  obtain ⟨variant, k⟩ := a
  obtain ⟨variant', k'⟩ := a'
  obtain ⟨rfl, hmessage⟩ : variant' = variant ∧ k'.message = k.message := ha
  simp only [hmessage]
  congr 2
  have hcarrying := List.rel_filter (p := fun y => Message.overlap variant' y.2.message)
    (q := fun y => Message.overlap variant' y.2.message) (fun {_ _} hy => by simp only [hy.2.1])
    (List.rel_filter (p := fun y => decide (y.2.flow = .outgoing))
      (q := fun y => decide (y.2.flow = .outgoing)) (fun {_ _} hy => by simp only [hy.1]) htacks)
  exact flatMap_eq_of_forall₂ (fun {_ _} hy => m.destinations hy.2.2 _ _) hcarrying

theorem describe?_source (binding : String) (n : Id) :
    h.describe? (Tables.build h) binding (.source n) =
      g.describe? (Tables.build g) binding (.source n) := by
  show ((h.node? n).bind fun x => x.source?.map fun s =>
      Described.node (h.describeSource (Tables.build h) n x s binding)) =
    (g.node? n).bind fun x => x.source?.map fun s =>
      Described.node (g.describeSource (Tables.build g) n x s binding)
  cases hm : g.node? n with
  | none => rw [m.looks.node?_none hm, Option.bind_none, Option.bind_none]
  | some x =>
    cases hk : x.kind with
    | source s =>
      obtain ⟨x', s', hx', hk', hname, -, hspec⟩ := m.looks.source hm hk
      have hdescribed := m.describeSource (source?_of_kind hm hk) (source?_of_kind hx' hk') hname
        hspec binding
      rw [hx', Option.bind_some, Option.bind_some, Node.source?, Node.source?, hk, hk']
      exact congrArg (some ∘ Described.node) hdescribed
    | group s =>
      obtain ⟨x', s', hx', hk', -⟩ := m.looks.group hm hk
      rw [hx', Option.bind_some, Option.bind_some, Node.source?, Node.source?, hk, hk']
      rfl

theorem describe?_filter (binding : String) (i : Id) :
    h.describe? (Tables.build h) binding (.filter i) =
      g.describe? (Tables.build g) binding (.filter i) := by
  show ((h.bus? i).map fun b => Described.filter
      { name := b.name, bus := i, filter := binding, rows := h.filterRows (Tables.build h) b } b.group) =
    (g.bus? i).map fun b => Described.filter
      { name := b.name, bus := i, filter := binding, rows := g.filterRows (Tables.build g) b } b.group
  cases hb : g.bus? i with
  | none =>
    have hnone := m.bus_eq i
    rw [hb, Option.map_none, Option.map_eq_none_iff] at hnone
    rw [hnone, Option.map_none, Option.map_none]
  | some b =>
    obtain ⟨b', hb', hgroup, hname, -⟩ := m.bus hb
    rw [hb', Option.map_some, Option.map_some, hgroup, hname, m.filterRows hb hb']

theorem describe? (binding : String) (e : Element) :
    h.describe? (Tables.build h) binding e = g.describe? (Tables.build g) binding e := by
  cases e with
  | source n => exact m.describe?_source binding n
  | filter i => exact m.describe?_filter binding i

/-- Graphs that mirror each other compile to the same. -/
theorem compile (hu : g.Unlinked) (options : Options) : h.compile options = g.compile options := by
  have hname : h.name = g.name := by
    have hroot := m.looks.name_eq g.root
    unfold Graph.name
    rw [m.looks.root]
    cases hm : g.node? g.root with
    | none => rw [m.looks.node?_none hm]
    | some x =>
      rw [hm] at hroot
      obtain ⟨x', hx', hn⟩ := Option.map_eq_some_iff.1 hroot
      rw [hx']
      exact hn
  have hflat : h.flatten (h.outline h.root) = g.flatten (g.outline g.root) := by
    rw [m.looks.outline_eq m.left m.right, m.flatten hu]
  simp only [Graph.compile, compileWith, hname, hflat, m.importAll, m.describe?]

end Mirror
end MessageGraph.Graph
