import MessageGraph.Proofs.Blueprint.Sheet
import MessageGraph.Proofs.Graph.Legality
import MessageGraph.Proofs.Graph.Outline
import MessageGraph.Proofs.Graph.Own
import Mathlib.Data.List.Sort

/-!
# Graphs that look alike

Two graphs `Looks` alike if they have the same tree and the same behavioral documents for its nodes. The ids
of pins, gates, tacks and routes may differ. Each terminal of the one graph has one `Twin` in the other, and
twins may be joined alike (`Twin.mayJoin`).
-/
namespace MessageGraph

/-- A map has its ids in order, so which there are tells the list of them. -/
theorem IdMap.ids_eq {α β : Type} {m : IdMap α} {n : IdMap β}
    (h : ∀ i, m.contains i = n.contains i) : m.ids = n.ids := by
  have hm : m.ids.Pairwise (· < ·) := List.pairwise_map.2 m.sorted
  have hn : n.ids.Pairwise (· < ·) := List.pairwise_map.2 n.sorted
  refine hm.eq_of_mem_iff hn fun i => ?_
  rw [mem_ids_iff, mem_ids_iff, h]

namespace Graph

/-- One graph looks like another in its tree and in what the behavioral document says of its nodes. -/
structure Looks (g h : Graph) : Prop where
  root : h.root = g.root
  live : ∀ n, h.nodes.contains n = g.nodes.contains n
  children : ∀ n, h.childIds n = g.childIds n
  spec : ∀ n, h.nodeSpec n = g.nodeSpec n

variable {g h : Graph} {n : Id}

theorem nodeSpec_source {m : Node} (hm : g.node? n = some m) {s : Source} (hk : m.kind = .source s) :
    g.nodeSpec n =
      { tag := .source
        id := n
        name := m.name
        behavior := some s.behavior
        settings := m.settings
        pins := (s.pins.filterMap g.pin?).map pinSpec } := by
  simp only [nodeSpec, hm, hk]

theorem nodeSpec_group {m : Node} (hm : g.node? n = some m) {s : Group} (hk : m.kind = .group s) :
    g.nodeSpec n =
      { tag := .group
        id := n
        name := m.name
        settings := m.settings
        gates := (s.gates.filterMap g.gate?).map gateSpec
        buses := (g.ownBuses s).map fun (id, b) => ⟨id, b.name, b.filter⟩
        link := s.link.map (·.location)
        library := s.library } := by
  simp only [nodeSpec, hm, hk]

namespace Looks

theorem symm (l : Looks g h) : Looks h g :=
  ⟨l.root.symm, fun n => (l.live n).symm, fun n => (l.children n).symm, fun n => (l.spec n).symm⟩

theorem node? (l : Looks g h) {m : Node} (hm : g.node? n = some m) : ∃ m', h.node? n = some m' := by
  have hlive : h.nodes.contains n = true := (l.live n).trans (IdMap.contains_of_get? hm)
  exact IdMap.contains_iff.1 hlive

/-- A source has a source of the same name, behavior and pins in its place. -/
theorem source (l : Looks g h) {m : Node} (hm : g.node? n = some m) {s : Source}
    (hk : m.kind = .source s) :
    ∃ m' s', h.node? n = some m' ∧ m'.kind = .source s' ∧ m'.name = m.name ∧
      s'.behavior = s.behavior ∧
      (s'.pins.filterMap h.pin?).map pinSpec = (s.pins.filterMap g.pin?).map pinSpec := by
  obtain ⟨m', hm'⟩ := l.node? hm
  have hspec := l.spec n
  cases hk' : m'.kind with
  | source s' =>
    rw [nodeSpec_source hm hk, nodeSpec_source hm' hk'] at hspec
    simp only [NodeSpec.mk.injEq, true_and, Option.some.injEq] at hspec
    exact ⟨m', s', hm', hk', hspec.1, hspec.2.1, hspec.2.2.2.1⟩
  | group s' =>
    rw [nodeSpec_source hm hk, nodeSpec_group hm' hk'] at hspec
    cases congrArg NodeSpec.tag hspec

/-- A group has a group of the same name, gates, buses, link and library in its place. -/
theorem group (l : Looks g h) {m : Node} (hm : g.node? n = some m) {s : Group}
    (hk : m.kind = .group s) :
    ∃ m' s', h.node? n = some m' ∧ m'.kind = .group s' ∧ m'.name = m.name ∧
      (s'.gates.filterMap h.gate?).map gateSpec = (s.gates.filterMap g.gate?).map gateSpec ∧
      (h.ownBuses s').map (fun y => (⟨y.1, y.2.name, y.2.filter⟩ : BusSpec)) =
        (g.ownBuses s).map (fun y => ⟨y.1, y.2.name, y.2.filter⟩) ∧
      s'.link.map (·.location) = s.link.map (·.location) ∧ s'.library = s.library := by
  obtain ⟨m', hm'⟩ := l.node? hm
  have hspec := l.spec n
  cases hk' : m'.kind with
  | source s' =>
    rw [nodeSpec_group hm hk, nodeSpec_source hm' hk'] at hspec
    cases congrArg NodeSpec.tag hspec
  | group s' =>
    rw [nodeSpec_group hm hk, nodeSpec_group hm' hk'] at hspec
    simp only [NodeSpec.mk.injEq, true_and] at hspec
    exact ⟨m', s', hm', hk', hspec.1, hspec.2.2.1, hspec.2.2.2.1, hspec.2.2.2.2⟩

end Looks

/-! ## What an entry says of pins, gates and buses -/

theorem pins_nodeSpec (g : Graph) (n : Id) :
    (g.nodeSpec n).pins = ((g.pinIds n).filterMap g.pin?).map pinSpec := by
  unfold pinIds source?
  cases hm : g.node? n with
  | none => simp [nodeSpec, hm]
  | some m =>
    cases hk : m.kind with
    | source s => simp only [nodeSpec_source hm hk, Option.bind_some, Node.source?, hk, Option.elim_some]
    | group s => simp [nodeSpec_group hm hk, Node.source?, hk]

theorem gates_nodeSpec (g : Graph) (n : Id) :
    (g.nodeSpec n).gates = ((g.gateIds n).filterMap g.gate?).map gateSpec := by
  unfold gateIds group?
  cases hm : g.node? n with
  | none => simp [nodeSpec, hm]
  | some m =>
    cases hk : m.kind with
    | source s => simp [nodeSpec_source hm hk, Node.group?, hk]
    | group s => simp only [nodeSpec_group hm hk, Option.bind_some, Node.group?, hk, Option.elim_some]

theorem mem_buses_nodeSpec {x : BusSpec} : x ∈ (g.nodeSpec n).buses ↔
    ∃ b, x.id ∈ g.busIds n ∧ g.bus? x.id = some b ∧ b.imported = false ∧
      x = ⟨x.id, b.name, b.filter⟩ := by
  unfold busIds group?
  cases hm : g.node? n with
  | none => simp [nodeSpec, hm]
  | some m =>
    cases hk : m.kind with
    | source s => simp [nodeSpec_source hm hk, Node.group?, hk]
    | group s =>
      simp only [nodeSpec_group hm hk, Option.bind_some, Node.group?, hk, Option.elim_some, ownBuses,
        List.mem_map, List.mem_filter, List.mem_filterMap, Option.map_eq_some_iff, Prod.exists]
      constructor
      · rintro ⟨i, b, ⟨⟨j, hj, b', hb', he⟩, himp⟩, rfl⟩
        cases he
        exact ⟨b, hj, hb', Bool.not_eq_true' _ ▸ himp, rfl⟩
      · rintro ⟨b, hi, hb, himp, hx⟩
        exact ⟨x.id, b, ⟨⟨x.id, hi, b, hb, rfl⟩, by rw [himp]; rfl⟩, hx.symm⟩

theorem WellFormed.mem_pins_nodeSpec (w : g.WellFormed) {x : PinSpec} : x ∈ (g.nodeSpec n).pins ↔
    ∃ i p, g.pin? i = some p ∧ p.node = n ∧ pinSpec p = x := by
  rw [pins_nodeSpec]
  simp only [List.mem_map, List.mem_filterMap]
  constructor
  · rintro ⟨p, ⟨i, hi, hp⟩, hx⟩
    exact ⟨i, p, hp, w.pin_of_mem hi hp, hx⟩
  · rintro ⟨i, p, hp, rfl, hx⟩
    exact ⟨p, ⟨i, w.pins.mem_iff.2 (by rw [pinOwner?, hp]; rfl), hp⟩, hx⟩

theorem WellFormed.mem_gates_nodeSpec (w : g.WellFormed) {x : GateSpec} : x ∈ (g.nodeSpec n).gates ↔
    ∃ i p, g.gate? i = some p ∧ p.group = n ∧ gateSpec p = x := by
  rw [gates_nodeSpec]
  simp only [List.mem_map, List.mem_filterMap]
  constructor
  · rintro ⟨p, ⟨i, hi, hp⟩, hx⟩
    exact ⟨i, p, hp, w.gate_of_mem hi hp, hx⟩
  · rintro ⟨i, p, hp, rfl, hx⟩
    exact ⟨p, ⟨i, w.gates.mem_iff.2 (by rw [gateOwner?, hp]; rfl), hp⟩, hx⟩

/-! ## The tree of look-alikes -/

namespace Looks

theorem parent?_eq (l : Looks g h) (w : g.IsTree) (w' : h.IsTree) (n : Id) :
    h.parent? n = g.parent? n := by
  refine Option.ext fun p => ?_
  rw [← w'.children.mem_iff, ← w.children.mem_iff, l.children]

theorem lineage_eq (l : Looks g h) (w : g.IsTree) (w' : h.IsTree) (n : Id) :
    h.lineage n = g.lineage n := by
  have hsize : h.nodes.size = g.nodes.size := by
    have := congrArg List.length (IdMap.ids_eq l.live)
    simp only [IdMap.ids, List.length_map] at this
    exact this
  unfold lineage
  rw [hsize]
  generalize g.nodes.size + 1 = bound
  induction bound generalizing n with
  | zero => rfl
  | succ bound ih => simp only [ancestry, l.parent?_eq w w', ih]

/-- The whole tree is the same. -/
theorem outline_eq (l : Looks g h) (w : g.WellFormed) (w' : h.WellFormed) :
    h.outline h.root = g.outline g.root := by
  have hspan : g.Spans (h.outline h.root) :=
    w'.spans_outline.congr _ fun n hn =>
      ⟨(l.live n).symm.trans (w'.mem_outline.1 hn), (l.children n).symm⟩
  exact hspan.unique _ _ w.spans_outline (by rw [value_outline, value_outline, l.root])

theorem isSome_link (l : Looks g h) (n : Id) :
    ((h.group? n).bind (·.link)).isSome = ((g.group? n).bind (·.link)).isSome := by
  unfold group?
  cases hm : g.node? n with
  | none =>
    have hlive := l.live n
    rw [IdMap.contains_eq_false_iff.2 hm] at hlive
    rw [node?_of_absent hlive]
  | some m =>
    cases hk : m.kind with
    | source s =>
      obtain ⟨m', s', hm', hk', -⟩ := l.source hm hk
      simp only [hm', Option.bind_some, Node.group?, hk, hk', Option.bind_none]
    | group s =>
      obtain ⟨m', s', hm', hk', -, -, -, hlink, -⟩ := l.group hm hk
      have := congrArg Option.isSome hlink
      rw [Option.isSome_map, Option.isSome_map] at this
      simpa only [hm', Option.bind_some, Node.group?, hk, hk'] using this

theorem insideLink_eq (l : Looks g h) (w : g.IsTree) (w' : h.IsTree) (n : Id) :
    h.insideLink n = g.insideLink n := by
  unfold insideLink
  rw [l.lineage_eq w w']
  refine List.any_congr rfl fun i => ?_
  have hi := l.isSome_link i
  cases hs : g.group? i with
  | none =>
    rw [hs] at hi
    cases hs' : h.group? i with
    | none => rfl
    | some s' => rw [hs'] at hi; exact hi
  | some s =>
    rw [hs] at hi
    cases hs' : h.group? i with
    | none => rw [hs'] at hi; exact hi
    | some s' => rw [hs'] at hi; exact hi

/-- A bus has a bus of the same group, name and filter in its place. -/
theorem bus (l : Looks g h) (w : g.WellFormed) (w' : h.WellFormed) (ho : g.Own) {i : Id} {b : Bus}
    (hb : g.bus? i = some b) :
    ∃ b', h.bus? i = some b' ∧ b'.group = b.group ∧ b'.name = b.name ∧ b'.filter = b.filter := by
  have hx : (⟨i, b.name, b.filter⟩ : BusSpec) ∈ (g.nodeSpec b.group).buses :=
    mem_buses_nodeSpec.2 ⟨b, w.buses.mem_iff.2 (by rw [busOwner?, hb]; rfl), hb, ho.buses i b hb, rfl⟩
  rw [← l.spec] at hx
  obtain ⟨b', hi, hb', -, hspec⟩ := mem_buses_nodeSpec.1 hx
  simp only [BusSpec.mk.injEq, true_and] at hspec
  exact ⟨b', hb', w'.bus_of_mem hi hb', hspec.1.symm, hspec.2.symm⟩

end Looks

/-- A source has one pin of each entry. -/
theorem WellFormed.pin_of_spec (w : g.WellFormed) {i j : Id} {p q : Pin} (hp : g.pin? i = some p)
    (hq : g.pin? j = some q) (hnode : p.node = q.node) (hspec : pinSpec p = pinSpec q) : i = j :=
  w.names.pins hp hq hnode (congrArg PinSpec.name hspec) (congrArg PinSpec.direction hspec)

/-- A group has one gate of each entry. -/
theorem WellFormed.gate_of_spec (w : g.WellFormed) {i j : Id} {p q : Gate} (hp : g.gate? i = some p)
    (hq : g.gate? j = some q) (hgroup : p.group = q.group) (hspec : gateSpec p = gateSpec q) : i = j :=
  w.names.gates hp hq hgroup (congrArg GateSpec.name hspec)

/-! ## Twins -/

/-- Terminals that say the same of themselves and stand in the same place. -/
inductive Twin (g h : Graph) : Terminal → Terminal → Prop
  | pin {i j : Id} {p q : Pin} (hp : g.pin? i = some p) (hq : h.pin? j = some q)
    (hnode : q.node = p.node) (hspec : pinSpec q = pinSpec p) : Twin g h (.pin i) (.pin j)
  | proxy {i j : Id} {p q : Gate} (hp : g.gate? i = some p) (hq : h.gate? j = some q)
    (hgroup : q.group = p.group) (hspec : gateSpec q = gateSpec p) : Twin g h (.proxy i) (.proxy j)
  | pad {i j : Id} {p q : Gate} (hp : g.gate? i = some p) (hq : h.gate? j = some q)
    (hgroup : q.group = p.group) (hspec : gateSpec q = gateSpec p) : Twin g h (.pad i) (.pad j)
  | bus {i : Id} (hb : g.buses.contains i = true) (hb' : h.buses.contains i = true) :
    Twin g h (.bus i) (.bus i)

namespace Twin

variable {a a' b b' c : Terminal} {x x' : Endpoint}

theorem symm (t : Twin g h a a') : Twin h g a' a := by
  cases t with
  | pin hp hq hnode hspec => exact .pin hq hp hnode.symm hspec.symm
  | proxy hp hq hgroup hspec => exact .proxy hq hp hgroup.symm hspec.symm
  | pad hp hq hgroup hspec => exact .pad hq hp hgroup.symm hspec.symm
  | bus hb hb' => exact .bus hb' hb

/-- A terminal has a twin in every graph that looks the same. -/
theorem exists_of_looks (l : Looks g h) (w : g.WellFormed) (w' : h.WellFormed) (ho : g.Own)
    (ha : g.hasTerminal a = true) : ∃ a', Twin g h a a' := by
  have hgate : ∀ {i p}, g.gate? i = some p → ∃ j q, h.gate? j = some q ∧ q.group = p.group ∧
      gateSpec q = gateSpec p := fun {i p} hp => by
    have hx := w.mem_gates_nodeSpec.2 ⟨i, p, hp, rfl, rfl⟩
    rw [← l.spec] at hx
    exact w'.mem_gates_nodeSpec.1 hx
  cases a with
  | pin i =>
    obtain ⟨p, hp⟩ := IdMap.contains_iff.1 ha
    have hx := w.mem_pins_nodeSpec.2 ⟨i, p, hp, rfl, rfl⟩
    rw [← l.spec] at hx
    obtain ⟨j, q, hq, hnode, hspec⟩ := w'.mem_pins_nodeSpec.1 hx
    exact ⟨_, .pin hp hq hnode hspec⟩
  | proxy i =>
    obtain ⟨p, hp⟩ := IdMap.contains_iff.1 ha
    obtain ⟨j, q, hq, hgroup, hspec⟩ := hgate hp
    exact ⟨_, .proxy hp hq hgroup hspec⟩
  | pad i =>
    obtain ⟨p, hp⟩ := IdMap.contains_iff.1 ha
    obtain ⟨j, q, hq, hgroup, hspec⟩ := hgate hp
    exact ⟨_, .pad hp hq hgroup hspec⟩
  | bus i =>
    obtain ⟨b, hb⟩ := IdMap.contains_iff.1 ha
    obtain ⟨b', hb', -⟩ := l.bus w w' ho hb
    exact ⟨_, .bus ha (IdMap.contains_of_get? hb')⟩

/-- A terminal has one twin. -/
theorem unique (w' : h.WellFormed) (t : Twin g h a a') (u : Twin g h a c) : a' = c := by
  cases t with
  | pin hp hq hnode hspec =>
    cases u with
    | pin hp' hr hnode' hspec' =>
      cases hp.symm.trans hp'
      rw [w'.pin_of_spec hq hr (hnode.trans hnode'.symm) (hspec.trans hspec'.symm)]
  | proxy hp hq hgroup hspec =>
    cases u with
    | proxy hp' hr hgroup' hspec' =>
      cases hp.symm.trans hp'
      rw [w'.gate_of_spec hq hr (hgroup.trans hgroup'.symm) (hspec.trans hspec'.symm)]
  | pad hp hq hgroup hspec =>
    cases u with
    | pad hp' hr hgroup' hspec' =>
      cases hp.symm.trans hp'
      rw [w'.gate_of_spec hq hr (hgroup.trans hgroup'.symm) (hspec.trans hspec'.symm)]
  | bus hb hb' => cases u; rfl

/-- What twins say of themselves is the same. -/
theorem endpoint (t : Twin g h a a') (hx : a.endpoint? = some x) :
    ∃ x', a'.endpoint? = some x' ∧ h.direction? x' = g.direction? x ∧ h.channel? x' = g.channel? x ∧
      h.name? x' = g.name? x := by
  cases t with
  | pin hp hq _ hspec =>
    cases hx
    simp only [pinSpec, PinSpec.mk.injEq] at hspec
    refine ⟨_, rfl, ?_, ?_, ?_⟩ <;> simp only [direction?, channel?, name?, hp, hq, Option.map_some, hspec]
  | proxy hp hq _ hspec =>
    cases hx
    simp only [gateSpec, GateSpec.mk.injEq] at hspec
    refine ⟨_, rfl, ?_, ?_, ?_⟩ <;> simp only [direction?, channel?, name?, hp, hq, Option.map_some, hspec]
  | pad hp hq _ hspec =>
    cases hx
    simp only [gateSpec, GateSpec.mk.injEq] at hspec
    refine ⟨_, rfl, ?_, ?_, ?_⟩ <;> simp only [direction?, channel?, name?, hp, hq, Option.map_some, hspec]
  | bus hb hb' => cases hx

theorem hasTerminal (t : Twin g h a a') : h.hasTerminal a' = true := by
  cases t with
  | pin _ hq => exact IdMap.contains_of_get? hq
  | proxy _ hq => exact IdMap.contains_of_get? hq
  | pad _ hq => exact IdMap.contains_of_get? hq
  | bus _ hb' => exact hb'

theorem endpointClass (t : Twin g h a a') : a'.endpointClass = a.endpointClass := by cases t <;> rfl

/-- The two sides of one gate have the two sides of one gate as twins. -/
theorem sameGate (w : g.WellFormed) (t : Twin g h a a') (u : Twin g h b b')
    (hs : Graph.sameGate a' b' = true) : Graph.sameGate a b = true := by
  cases t with
  | proxy hp hq hgroup hspec =>
    cases u with
    | pad hp' hq' hgroup' hspec' =>
      simp only [Graph.sameGate, decide_eq_true_eq] at hs ⊢
      subst hs
      cases hq.symm.trans hq'
      exact w.gate_of_spec hp hp' (hgroup.symm.trans hgroup') (hspec.symm.trans hspec')
    | _ => cases hs
  | pad hp hq hgroup hspec =>
    cases u with
    | proxy hp' hq' hgroup' hspec' =>
      simp only [Graph.sameGate, decide_eq_true_eq] at hs ⊢
      subst hs
      cases hq.symm.trans hq'
      exact w.gate_of_spec hp hp' (hgroup.symm.trans hgroup') (hspec.symm.trans hspec')
    | _ => cases hs
  | _ => cases hs

/-- Twins of what may be joined may be joined. -/
theorem mayJoin (w : g.WellFormed) (t : Twin g h a a') (u : Twin g h b b') (hm : g.MayJoin a b) :
    h.MayJoin a' b' where
  left := t.hasTerminal
  right := u.hasTerminal
  ne := by
    rintro rfl
    exact hm.ne (t.symm.unique w u.symm)
  sides := by
    rw [Bool.eq_false_iff]
    intro hs
    have := t.sameGate w u hs
    rw [hm.sides] at this
    cases this
  classes hc := by
    rw [t.endpointClass, u.endpointClass] at hc
    rw [t.endpointClass]
    exact hm.classes hc
  endpoints {x' y'} hx' hy' := by
    obtain ⟨x, hx, hd, hc, hn⟩ := t.symm.endpoint hx'
    obtain ⟨y, hy, hd', hc', hn'⟩ := u.symm.endpoint hy'
    exact (hm.endpoints hx hy).congr ⟨hd, hc, hn⟩ ⟨hd', hc', hn'⟩

/-- Routes make no difference to twins. -/
theorem rerouted {h' : Graph} (t : Twin g h a a') (hr : Rerouted h h')
    (hbus : ∀ i, h'.buses.contains i = h.buses.contains i) : Twin g h' a a' := by
  have hpin : ∀ {j q}, h.pin? j = some q → ∃ q', h'.pin? j = some q' ∧ q'.node = q.node ∧
      pinSpec q' = pinSpec q := fun {j q} hq => by
    obtain ⟨q', hq', he⟩ := Alike.some_of_map_eq (hr.pins j).symm hq
    have hn : q'.node = q.node := show q'.unrouted.node = q.unrouted.node by rw [he]
    have hs : pinSpec q' = pinSpec q := show pinSpec q'.unrouted = pinSpec q.unrouted by rw [he]
    exact ⟨q', hq', hn, hs⟩
  have hgate : ∀ {j q}, h.gate? j = some q → ∃ q', h'.gate? j = some q' ∧ q'.group = q.group ∧
      gateSpec q' = gateSpec q := fun {j q} hq => by
    obtain ⟨q', hq', he⟩ := Alike.some_of_map_eq (hr.gates j).symm hq
    have hn : q'.group = q.group := show q'.unrouted.group = q.unrouted.group by rw [he]
    have hs : gateSpec q' = gateSpec q := show gateSpec q'.unrouted = gateSpec q.unrouted by rw [he]
    exact ⟨q', hq', hn, hs⟩
  cases t with
  | pin hp hq hnode hspec =>
    obtain ⟨q', hq', hn, hs⟩ := hpin hq
    exact .pin hp hq' (hn.trans hnode) (hs.trans hspec)
  | proxy hp hq hgroup hspec =>
    obtain ⟨q', hq', hn, hs⟩ := hgate hq
    exact .proxy hp hq' (hn.trans hgroup) (hs.trans hspec)
  | pad hp hq hgroup hspec =>
    obtain ⟨q', hq', hn, hs⟩ := hgate hq
    exact .pad hp hq' (hn.trans hgroup) (hs.trans hspec)
  | bus hb hb' => exact .bus hb ((hbus _).trans hb')

end Twin

/-- Graphs that differ in routes alone look the same. -/
theorem sheet_rerouted {h' : Graph} (hr : Rerouted h h')
    (hb : ∀ i, (h'.bus? i).map Bus.untacked = (h.bus? i).map Bus.untacked) (n : Id) :
    h'.sheet n = h.sheet n := by
  have hnode : h'.node? n = h.node? n := by
    unfold node?
    rw [hr.nodes]
  refine sheet_congr (by rw [hnode]) ?_ ?_ ?_ (fun i _ => hr.pins i) (fun i _ => hr.gates i)
    fun i _ => hb i
  · unfold pinIds source?
    rw [hnode]
  · unfold gateIds group?
    rw [hnode]
  · unfold busIds group?
    rw [hnode]

theorem Looks.rerouted {h' : Graph} (l : Looks g h) (hr : Rerouted h h')
    (hb : ∀ i, (h'.bus? i).map Bus.untacked = (h.bus? i).map Bus.untacked) : Looks g h' where
  root := hr.root.trans l.root
  live n := by
    rw [hr.nodes]
    exact l.live n
  children n := by
    have : h'.childIds n = h.childIds n := by
      unfold childIds group? Graph.node?
      rw [hr.nodes]
    exact this.trans (l.children n)
  spec n := by
    rw [nodeSpec_eq, sheet_rerouted hr hb, ← nodeSpec_eq]
    exact l.spec n

end Graph
end MessageGraph
