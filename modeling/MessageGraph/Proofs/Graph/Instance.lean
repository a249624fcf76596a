import MessageGraph.Proofs.Graph.Alike
import MessageGraph.Proofs.Graph.Attach
import MessageGraph.Graph.Instance

/-!
# Standing a graph in a group keeps it well-formed

A copy in progress is a well-formed graph whose id translations never send two entities to one
(`Copying.Sound`): what is copied gets an unused id, and what is bound by name differs in name. So the
ends of a copied route differ as those of its original do, none of them is a top-level pad, and every
step adds to the graph in a way that keeps it well-formed (`WellFormed.instantiate`).

Each `copyX_cases` says once what a step of copying does, and what every step keeps, copying a tree of nodes
keeps (`CopyKept.copyNode`).
-/
namespace MessageGraph

/-- No id stands for two entities. -/
def Distinct (copies : List (Id × Id)) : Prop :=
  ∀ i j x, (i, x) ∈ copies → (j, x) ∈ copies → i = j

theorem Distinct.nil : Distinct [] := by
  intro i j x hi
  cases hi

theorem Distinct.cons {copies : List (Id × Id)} (h : Distinct copies) {n x : Id}
    (hx : ∀ i, (i, x) ∉ copies) : Distinct ((n, x) :: copies) := by
  intro i j y hi hj
  rcases List.mem_cons.1 hi with hi | hi <;> rcases List.mem_cons.1 hj with hj | hj
  · cases hi; cases hj; rfl
  · cases hi; exact absurd hj (hx j)
  · cases hj; exact absurd hi (hx i)
  · exact h i j y hi hj

theorem Distinct.lookup_ne {copies : List (Id × Id)} (h : Distinct copies) {i j x : Id} (hij : i ≠ j)
    (hi : copies.lookup i = some x) : copies.lookup j ≠ some x := by
  intro hj
  obtain ⟨l₁, l₂, rfl, -⟩ := List.lookup_eq_some_iff.1 hi
  obtain ⟨m₁, m₂, hm, -⟩ := List.lookup_eq_some_iff.1 hj
  exact hij (h i j x (by simp) (by rw [hm]; simp))

namespace Copying

/-- A gate that is a copy of no top-level one is no top-level gate. -/
def Away (linked : Graph) (c : Copying) : Prop :=
  ∀ i x p, (i, x) ∈ c.gates → linked.gate? i = some p → p.group ≠ linked.root →
    ∀ q, c.graph.gate? x = some q → q.group ≠ c.graph.root

/-- The graph so far is well-formed and has the copies, of which no two are one. -/
structure Sound (linked : Graph) (c : Copying) : Prop where
  graph : c.graph.WellFormed
  pins : Distinct c.pins
  gates : Distinct c.gates
  pins_live : ∀ {i x}, (i, x) ∈ c.pins → c.graph.has .pin x = true
  gates_live : ∀ {i x}, (i, x) ∈ c.gates → c.graph.has .gate x = true
  away : c.Away linked

variable {c c' : Copying} {linked g : Graph}

/-! ## What each step does -/

theorem bindGate_cases {group gate : Id} (h : bindGate linked group c gate = .ok c') :
    c' = c ∨ ∃ p, linked.gate? gate = some p ∧
      ((∃ found, c.graph.findGate? group p.name = some found ∧
          c' = { c with gates := (gate, found) :: c.gates }) ∨
        ∃ copy g, c.graph.addGate group p.name p.direction p.channel = .ok (copy, g) ∧
          c' = { c with graph := g, gates := (gate, copy) :: c.gates }) := by
  unfold bindGate at h
  cases hp : linked.gate? gate with
  | none => rw [hp] at h; cases h; exact Or.inl rfl
  | some p =>
    rw [hp] at h
    simp only at h
    cases hf : c.graph.findGate? group p.name with
    | some found => rw [hf] at h; cases h; exact Or.inr ⟨p, rfl, Or.inl ⟨found, hf, rfl⟩⟩
    | none =>
      rw [hf] at h
      obtain ⟨⟨copy, g⟩, hadd, h⟩ := bind_eq_ok.1 h
      cases h
      exact Or.inr ⟨p, rfl, Or.inr ⟨copy, g, hadd, rfl⟩⟩

theorem copyBus_cases {into bus : Id} (h : copyBus linked into c bus = .ok c') :
    c' = c ∨ ∃ (b : Bus) (copy : Id) (g : Graph),
      c.graph.addBus none into b.name b.filter = .ok (copy, g) ∧
      c' = { c with
        graph := g.modifyBus copy fun n => { n with rect := b.rect, imported := true }
        buses := (bus, copy) :: c.buses } := by
  unfold copyBus at h
  cases hb : linked.bus? bus with
  | none => rw [hb] at h; cases h; exact Or.inl rfl
  | some b =>
    rw [hb] at h
    obtain ⟨⟨copy, g⟩, hadd, h⟩ := bind_eq_ok.1 h
    cases h
    exact Or.inr ⟨b, copy, g, hadd, rfl⟩

theorem copyPin_cases {into pin : Id} (h : copyPin linked into c pin = .ok c') :
    c' = c ∨ ∃ p copy g₁ g₂, linked.pin? pin = some p ∧
      c.graph.addPin into p.name p.direction p.channel = .ok (copy, g₁) ∧
      g₁.setPinLabel copy p.label = .ok g₂ ∧
      c' = { c with graph := g₂, pins := (pin, copy) :: c.pins } := by
  unfold copyPin at h
  cases hp : linked.pin? pin with
  | none => rw [hp] at h; cases h; exact Or.inl rfl
  | some p =>
    rw [hp] at h
    obtain ⟨⟨copy, g₁⟩, hadd, h⟩ := bind_eq_ok.1 h
    obtain ⟨g₂, hset, h⟩ := bind_eq_ok.1 h
    cases h
    exact Or.inr ⟨p, copy, g₁, g₂, rfl, hadd, hset, rfl⟩

theorem copyGate_cases {into gate : Id} (h : copyGate linked into c gate = .ok c') :
    c' = c ∨ ∃ p copy g₁ g₂, linked.gate? gate = some p ∧
      c.graph.addGate into p.name p.direction p.channel = .ok (copy, g₁) ∧
      g₁.setGateLabels copy p.padLabel p.proxyLabel = .ok g₂ ∧
      c' = { c with graph := g₂, gates := (gate, copy) :: c.gates } := by
  unfold copyGate at h
  cases hp : linked.gate? gate with
  | none => rw [hp] at h; cases h; exact Or.inl rfl
  | some p =>
    rw [hp] at h
    obtain ⟨⟨copy, g₁⟩, hadd, h⟩ := bind_eq_ok.1 h
    obtain ⟨g₂, hset, h⟩ := bind_eq_ok.1 h
    cases h
    exact Or.inr ⟨p, copy, g₁, g₂, rfl, hadd, hset, rfl⟩

theorem copyRoute_cases {r : Route} (h : copyRoute linked c r = .ok c') :
    c' = c ∨ ∃ a b id g, c.terminal? linked r.a = some a ∧ c.terminal? linked r.b = some b ∧
      c.graph.attach a b = .ok (id, g) ∧
      c' = { c with graph := g.modifyRoute id fun n => { n with wire := r.wire } } := by
  unfold copyRoute at h
  cases ha : c.terminal? linked r.a with
  | none => rw [ha] at h; cases h; exact Or.inl rfl
  | some a =>
    cases hb : c.terminal? linked r.b with
    | none => rw [ha, hb] at h; cases h; exact Or.inl rfl
    | some b =>
      rw [ha, hb] at h
      obtain ⟨⟨id, g⟩, hat, h⟩ := bind_eq_ok.1 h
      cases h
      exact Or.inr ⟨a, b, id, g, rfl, rfl, hat, rfl⟩

/-! ## Steps that translate nothing new -/

/-- What was there is there still, and the gates are of the same groups. -/
structure Keeps (g g' : Graph) : Prop where
  root : g'.root = g.root
  grows : Graph.Grows g g'
  gates : ∀ {x q'}, g.has .gate x = true → g'.gate? x = some q' →
    ∃ q, g.gate? x = some q ∧ q.group = q'.group

theorem keeps_of_alike {g g' : Graph} (h : Graph.Alike g g') : Keeps g g' where
  root := h.root
  grows := by
    intro k i hk
    rw [h.has_eq]
    exact hk
  gates := by
    intro x q' _ hq
    obtain ⟨q, hq, hb⟩ := Graph.Alike.some_of_map_eq (h.gates x) hq
    have hg : q'.bare.group = q.bare.group := by rw [hb]
    exact ⟨q, hq, hg.symm⟩

theorem keeps_of_adds {g g' : Graph} {k : EntityKind} {n : Id} (h : Graph.Adds g k n g')
    (he : Graph.Extends g g') : Keeps g g' where
  root := he.root
  grows := h.grows
  gates := by
    intro x q' hx hq
    rw [he.gates hx] at hq
    exact ⟨q', hq, rfl⟩

theorem Sound.away_of_keeps (h : c.Sound linked) (hk : Keeps c.graph g) {i x : Id} {p : Gate}
    (hi : (i, x) ∈ c.gates) (hp : linked.gate? i = some p) (hne : p.group ≠ linked.root) {q : Gate}
    (hq : g.gate? x = some q) : q.group ≠ g.root := by
  obtain ⟨q₀, hq₀, hgroup⟩ := hk.gates (h.gates_live hi) hq
  rw [← hgroup, hk.root]
  exact h.away i x p hi hp hne q₀ hq₀

theorem Sound.change (h : c.Sound linked) (w : g.WellFormed) (hk : Keeps c.graph g)
    (buses : List (Id × Id)) : Sound linked { c with graph := g, buses := buses } where
  graph := w
  pins := h.pins
  gates := h.gates
  pins_live hi := hk.grows _ _ (h.pins_live hi)
  gates_live hi := hk.grows _ _ (h.gates_live hi)
  away _ _ _ hi hp hne _ hq := h.away_of_keeps hk hi hp hne hq

theorem Sound.touch (h : c.Sound linked) (ha : Graph.Alike c.graph g) :
    Sound linked { c with graph := g } :=
  h.change (h.graph.of_alike ha) (keeps_of_alike ha) c.buses

theorem Sound.copyBus (h : c.Sound linked) {into bus : Id}
    (hc : copyBus linked into c bus = .ok c') : c'.Sound linked := by
  obtain rfl | ⟨b, copy, g, hadd, rfl⟩ := copyBus_cases hc
  · exact h
  · have hk := keeps_of_adds (Graph.addBus_adds h.graph.ids hadd)
      (Graph.addBus_extends h.graph.ids hadd)
    have hadded := h.change (h.graph.addBus hadd) hk ((bus, copy) :: c.buses)
    exact hadded.touch (Graph.modifyBus_alike g copy fun _ => rfl)

/-! ## Copies of pins and gates -/

theorem Sound.copyPin (h : c.Sound linked) {into pin : Id}
    (hc : copyPin linked into c pin = .ok c') : c'.Sound linked := by
  obtain rfl | ⟨p, copy, g₁, g₂, -, hadd, hset, rfl⟩ := copyPin_cases hc
  · exact h
  · have ha := Graph.addPin_adds h.graph.ids hadd
    have hnew : ∀ i, (i, copy) ∉ c.pins := by
      intro i hi
      have hlive := h.pins_live hi
      rw [ha.absent] at hlive
      cases hlive
    have hk := keeps_of_adds ha (Graph.addPin_extends h.graph.ids hadd)
    have hadded : Sound linked { c with graph := g₁, pins := (pin, copy) :: c.pins } :=
      { graph := h.graph.addPin hadd
        pins := h.pins.cons hnew
        gates := h.gates
        pins_live := by
          intro i x hi
          rw [ha.has_iff]
          rcases List.mem_cons.1 hi with hi | hi
          · cases hi; exact Or.inr ⟨rfl, rfl⟩
          · exact Or.inl (h.pins_live hi)
        gates_live := fun hi => ha.grows _ _ (h.gates_live hi)
        away := fun _ _ _ hi hp hne _ hq => h.away_of_keeps hk hi hp hne hq }
    exact hadded.touch (Graph.setPinLabel_alike hset)

theorem pin?_addPin {g g' : Graph} {node n : Id} {name : String} {direction : Direction}
    {channel : Bool} (h : g.addPin node name direction channel = .ok (n, g')) (i : Id) :
    g'.pin? i = if i = n then some { node, name, direction, channel } else g.pin? i := by
  obtain ⟨s, -, -, rfl, rfl⟩ := Graph.addPin_eq h
  exact Graph.pin?_insertPin i

theorem gate?_addGate {g g' : Graph} {group n : Id} {name : String} {direction : Direction}
    {channel : Bool} (h : g.addGate group name direction channel = .ok (n, g')) (i : Id) :
    g'.gate? i = if i = n then some { group, name, direction, channel } else g.gate? i := by
  obtain ⟨s, -, -, rfl, rfl⟩ := Graph.addGate_eq h
  exact Graph.gate?_insertGate i

/-- A gate is copied into a group that is not the top-level one. -/
theorem Sound.copyGate (h : c.Sound linked) {into gate : Id} (hinto : into ≠ c.graph.root)
    (hc : copyGate linked into c gate = .ok c') : c'.Sound linked := by
  obtain rfl | ⟨p, copy, g₁, g₂, -, hadd, hset, rfl⟩ := copyGate_cases hc
  · exact h
  · have ha := Graph.addGate_adds h.graph.ids hadd
    have hnew : ∀ i, (i, copy) ∉ c.gates := by
      intro i hi
      have hlive := h.gates_live hi
      rw [ha.absent] at hlive
      cases hlive
    have hk := keeps_of_adds ha (Graph.addGate_extends h.graph.ids hadd)
    have hadded : Sound linked { c with graph := g₁, gates := (gate, copy) :: c.gates } :=
      { graph := h.graph.addGate hadd
        pins := h.pins
        gates := h.gates.cons hnew
        pins_live := fun hi => ha.grows _ _ (h.pins_live hi)
        gates_live := by
          intro i x hi
          rw [ha.has_iff]
          rcases List.mem_cons.1 hi with hi | hi
          · cases hi; exact Or.inr ⟨rfl, rfl⟩
          · exact Or.inl (h.gates_live hi)
        away := by
          intro i x q hi hq hne r hr
          rcases List.mem_cons.1 hi with hi | hi
          · cases hi
            rw [gate?_addGate hadd, if_pos rfl] at hr
            cases hr
            rw [hk.root]
            exact hinto
          · exact h.away_of_keeps hk hi hq hne hr }
    exact hadded.touch (Graph.setGateLabels_alike hset)

theorem root_copyGate (w : c.graph.WellFormed) {into gate : Id}
    (hc : copyGate linked into c gate = .ok c') : c'.graph.root = c.graph.root := by
  obtain rfl | ⟨p, copy, g₁, g₂, -, hadd, hset, rfl⟩ := copyGate_cases hc
  · rfl
  · exact (Graph.setGateLabels_alike hset).root.trans (Graph.addGate_extends w.ids hadd).root

/-! ## The tree of nodes -/

/-- A property of copies in progress that every step of copying nodes keeps. -/
structure CopyKept (linked : Graph) (P : Copying → Prop) : Prop where
  sound : ∀ {c}, P c → c.Sound linked
  node : ∀ {c g n}, P c → g.WellFormed → Graph.Adds c.graph .node n g → Graph.Extends c.graph g →
    P { c with graph := g }
  touch : ∀ {c g}, P c → Graph.Alike c.graph g → P { c with graph := g }
  pin : ∀ {c c' into pin}, P c → copyPin linked into c pin = .ok c' → P c'
  gate : ∀ {c c' into gate}, P c → into ≠ c.graph.root → copyGate linked into c gate = .ok c' → P c'
  bus : ∀ {c c' into bus}, P c → copyBus linked into c bus = .ok c' → P c'

theorem sound_kept : CopyKept linked (Sound linked) where
  sound h := h
  node {c _ _} h w ha he := h.change w (keeps_of_adds ha he) c.buses
  touch h ha := h.touch ha
  pin h hc := h.copyPin hc
  gate h hinto hc := h.copyGate hinto hc
  bus h hc := h.copyBus hc

section Kept

variable {P : Copying → Prop}

theorem CopyKept.finishNode (k : CopyKept linked P) (h : P c) (n : Node) (copy : Id) :
    P (finishNode n copy c) :=
  k.touch h (Graph.modifyNode_alike c.graph copy fun _ => rfl)

mutual

theorem CopyKept.copyNode (k : CopyKept linked P) {into : Id} :
    (o : Tree Id) → {c c' : Copying} → P c → copyNode linked into o c = .ok c' → P c'
  | .node id children, c, c', h, hc => by
    unfold Copying.copyNode at hc
    obtain ⟨n, -, hc⟩ := bind_eq_ok.1 hc
    have w := (k.sound h).graph
    cases hkind : n.kind with
    | source s =>
      rw [hkind] at hc
      obtain ⟨⟨copy, g₁⟩, hadd, hc⟩ := bind_eq_ok.1 hc
      obtain ⟨c₁, hpins, hc⟩ := bind_eq_ok.1 hc
      cases hc
      have hadded := k.node h (w.addSource hadd) (Graph.addNode_adds w.ids hadd)
        (Graph.addNode_extends w.ids hadd)
      have hpinned : P c₁ := foldlM_keeps P (fun _ _ _ _ hs hp => k.pin hs hp) hadded hpins
      exact k.finishNode hpinned n copy
    | group s =>
      rw [hkind] at hc
      obtain ⟨⟨copy, g₁⟩, hadd, hc⟩ := bind_eq_ok.1 hc
      obtain ⟨c₁, hgates, hc⟩ := bind_eq_ok.1 hc
      obtain ⟨c₂, hbuses, hc⟩ := bind_eq_ok.1 hc
      obtain ⟨c₃, hnodes, hc⟩ := bind_eq_ok.1 hc
      cases hc
      have ha := Graph.addNode_adds w.ids hadd
      have he := Graph.addNode_extends w.ids hadd
      -- the top-level group was there before, so the new group is another one
      have hcopy : copy ≠ g₁.root := by
        rw [he.root]
        intro he
        obtain ⟨t, ht⟩ := w.tree.root_group
        have hlive : c.graph.has .node copy = true := by
          rw [he]
          exact Graph.contains_of_group? ht
        rw [ha.absent] at hlive
        cases hlive
      have hgated : P c₁ ∧ copy ≠ c₁.graph.root :=
        foldlM_keeps (fun c => P c ∧ copy ≠ c.graph.root)
          (fun _ _ _ _ hs hp => ⟨k.gate hs.1 hs.2 hp, root_copyGate (k.sound hs.1).graph hp ▸ hs.2⟩)
          ⟨k.node h (w.addGroup hadd) ha he, hcopy⟩ hgates
      have htouched := k.touch hgated.1 (Graph.modifyGroup_alike c₁.graph copy
        (f := fun m => { m with link := s.link, library := s.library, view := s.view }) fun _ => rfl)
      have hbused : P c₂ := foldlM_keeps P (fun _ _ _ _ hs hp => k.bus hs hp) htouched hbuses
      exact k.finishNode (k.copyNodes children hbused hnodes) n copy

theorem CopyKept.copyNodes (k : CopyKept linked P) {into : Id} :
    (os : List (Tree Id)) → {c c' : Copying} → P c → copyNodes linked into os c = .ok c' → P c'
  | [], c, c', h, hc => by
    cases hc
    exact h
  | o :: os, c, c', h, hc => by
    unfold Copying.copyNodes at hc
    obtain ⟨c₁, hnode, hc⟩ := bind_eq_ok.1 hc
    exact k.copyNodes os (k.copyNode o h hnode) hc

end

end Kept

/-! ## Top-level gates -/

/-- Every top-level gate of the linked graph is bound to a gate of the group that has its name. -/
structure Bound (linked : Graph) (group : Id) (c : Copying) : Prop where
  graph : c.graph.WellFormed
  pins : c.pins = []
  gates : ∀ i x, (i, x) ∈ c.gates → ∃ p q, linked.gate? i = some p ∧ p.group = linked.root ∧
    c.graph.gate? x = some q ∧ q.group = group ∧ q.name = p.name

theorem Bound.bindGate {group gate : Id} (h : Bound linked group c)
    (htop : ∀ p, linked.gate? gate = some p → p.group = linked.root)
    (hc : bindGate linked group c gate = .ok c') : Bound linked group c' := by
  obtain rfl | ⟨p, hp, ⟨found, hf, rfl⟩ | ⟨copy, g₁, hadd, rfl⟩⟩ := bindGate_cases hc
  · exact h
  · obtain ⟨q, hq, hgroup, hname⟩ := Graph.gate_of_findGate? h.graph.gates hf
    refine ⟨h.graph, h.pins, fun i x hi => ?_⟩
    rcases List.mem_cons.1 hi with hi | hi
    · cases hi; exact ⟨p, q, hp, htop p hp, hq, hgroup, hname⟩
    · exact h.gates i x hi
  · have hget := gate?_addGate hadd
    have ha := Graph.addGate_adds h.graph.ids hadd
    refine ⟨h.graph.addGate hadd, h.pins, fun i x hi => ?_⟩
    rcases List.mem_cons.1 hi with hi | hi
    · cases hi
      exact ⟨p, _, hp, htop p hp, (hget copy).trans (if_pos rfl), rfl, rfl⟩
    · obtain ⟨p', q, hp', hroot, hq, hgroup, hname⟩ := h.gates i x hi
      have hne : x ≠ copy := by
        intro he
        have hlive : c.graph.has .gate x = true := IdMap.contains_of_get? hq
        rw [he, ha.absent] at hlive
        cases hlive
      exact ⟨p', q, hp', hroot, ((hget x).trans (if_neg hne)).trans hq, hgroup, hname⟩

/-- Gates of one group differ in name, so those they are bound to differ. -/
theorem Bound.sound {group : Id} (wl : linked.WellFormed) (h : Bound linked group c) :
    c.Sound linked where
  graph := h.graph
  pins := by rw [h.pins]; exact Distinct.nil
  gates := by
    intro i j x hi hj
    obtain ⟨p, q, hp, hroot, hq, -, hname⟩ := h.gates i x hi
    obtain ⟨p', q', hp', hroot', hq', -, hname'⟩ := h.gates j x hj
    rw [hq] at hq'
    cases hq'
    exact wl.names.gates hp hp' (hroot.trans hroot'.symm) (hname.symm.trans hname')
  pins_live := by
    intro i x hi
    rw [h.pins] at hi
    cases hi
  gates_live := by
    intro i x hi
    obtain ⟨p, q, -, -, hq, -⟩ := h.gates i x hi
    exact IdMap.contains_of_get? hq
  away := by
    intro i x p hi hp hne
    obtain ⟨p', q, hp', hroot, -⟩ := h.gates i x hi
    rw [hp] at hp'
    cases hp'
    exact absurd hroot hne

/-! ## Routes -/

/-- An endpoint is copied to a terminal of its own kind. -/
theorem terminal?_cases {e : Endpoint} {t : Terminal} (h : c.terminal? linked e = some t) :
    (∃ i x, e = .pin i ∧ t = .pin x ∧ c.pins.lookup i = some x) ∨
      (∃ i x, e = .proxy i ∧ t = .proxy x ∧ c.gates.lookup i = some x) ∨
      (∃ i x, e = .pad i ∧ t = .pad x ∧ c.gates.lookup i = some x ∧
        ∃ p, linked.gate? i = some p ∧ p.group ≠ linked.root) ∨ ∃ x, t = .bus x := by
  cases e with
  | pin i =>
    obtain ⟨x, hx, rfl⟩ := Option.map_eq_some_iff.1 h
    exact Or.inl ⟨i, x, rfl, rfl, hx⟩
  | proxy i =>
    obtain ⟨x, hx, rfl⟩ := Option.map_eq_some_iff.1 h
    exact Or.inr (Or.inl ⟨i, x, rfl, rfl, hx⟩)
  | pad i =>
    obtain ⟨p, hp, h⟩ := Option.bind_eq_some_iff.1 h
    split at h
    · cases h
    · rename_i hne
      obtain ⟨x, hx, rfl⟩ := Option.map_eq_some_iff.1 h
      exact Or.inr (Or.inr (Or.inl ⟨i, x, rfl, rfl, hx, p, hp, hne⟩))
  | tack i =>
    obtain ⟨k, -, h⟩ := Option.bind_eq_some_iff.1 h
    obtain ⟨x, -, rfl⟩ := Option.map_eq_some_iff.1 h
    exact Or.inr (Or.inr (Or.inr ⟨x, rfl⟩))

/-- Two endpoints have two copies, unless both are tacks. -/
theorem terminal?_ne (hp : Distinct c.pins) (hg : Distinct c.gates) {e f : Endpoint} (hef : e ≠ f)
    {a b : Terminal} (ha : c.terminal? linked e = some a) (hb : c.terminal? linked f = some b)
    (hbus : ¬ (a.endpoint? = none ∧ b.endpoint? = none)) : a ≠ b := by
  intro hab
  subst hab
  rcases terminal?_cases ha with ⟨i, x, rfl, rfl, hi⟩ | ⟨i, x, rfl, rfl, hi⟩ |
    ⟨i, x, rfl, rfl, hi, -⟩ | ⟨x, rfl⟩
  · rcases terminal?_cases hb with ⟨j, y, rfl, he, hj⟩ | ⟨j, y, -, he, -⟩ | ⟨j, y, -, he, -⟩ |
      ⟨y, he⟩ <;> cases he
    exact hp.lookup_ne (fun he => hef (by rw [he])) hi hj
  · rcases terminal?_cases hb with ⟨j, y, -, he, -⟩ | ⟨j, y, rfl, he, hj⟩ | ⟨j, y, -, he, -⟩ |
      ⟨y, he⟩ <;> cases he
    exact hg.lookup_ne (fun he => hef (by rw [he])) hi hj
  · rcases terminal?_cases hb with ⟨j, y, -, he, -⟩ | ⟨j, y, -, he, -⟩ | ⟨j, y, rfl, he, hj, -⟩ |
      ⟨y, he⟩ <;> cases he
    exact hg.lookup_ne (fun he => hef (by rw [he])) hi hj
  · exact hbus ⟨rfl, rfl⟩

/-- No terminal that stands for an endpoint is a pad of the top-level group. -/
theorem group_ne_root (haway : c.Away linked) {e : Endpoint} {x : Id} {q : Gate}
    (h : c.terminal? linked e = some (.pad x)) (hq : c.graph.gate? x = some q) :
    q.group ≠ c.graph.root := by
  rcases terminal?_cases h with ⟨i, y, -, he, -⟩ | ⟨i, y, -, he, -⟩ |
    ⟨i, y, -, he, hi, p, hp, hne⟩ | ⟨y, he⟩ <;> cases he
  obtain ⟨l₁, l₂, hl, -⟩ := List.lookup_eq_some_iff.1 hi
  exact haway i x p (by rw [hl]; simp) hp hne q hq

/-- What copying routes keeps. -/
structure Routing (linked : Graph) (c : Copying) : Prop where
  graph : c.graph.WellFormed
  pins : Distinct c.pins
  gates : Distinct c.gates
  away : c.Away linked

theorem Routing.copyRoute (h : c.Routing linked) {r : Route} (hr : r.a ≠ r.b)
    (hc : copyRoute linked c r = .ok c') : c'.Routing linked := by
  obtain rfl | ⟨a, b, id, g, ha, hb, hat, rfl⟩ := copyRoute_cases hc
  · exact h
  · have hj : c.graph.Joinable a b :=
      { ne := terminal?_ne h.pins h.gates hr ha hb (Graph.attach_eq_ok hat).2.2.1
        left := by
          intro x q e hpad hq htop _
          subst hpad
          exact absurd htop (group_ne_root h.away ha hq)
        right := by
          intro x q e hpad hq htop _
          subst hpad
          exact absurd htop (group_ne_root h.away hb hq) }
    obtain ⟨n, hone⟩ := Graph.attach_oneMore h.graph.ids hat
    have htouch : Graph.Alike g _ :=
      Graph.modifyRoute_alike g id (f := fun n => { n with wire := r.wire }) fun _ => rfl
    exact
      { graph := (h.graph.attach hat hj).of_alike htouch
        pins := h.pins
        gates := h.gates
        away := by
          intro i x p hi hp hne q hq
          obtain ⟨q₀, hq₀, hgroup, -⟩ := hone.rerouted.gate?_eq_some hq
          have hroot : g.root = c.graph.root := hone.rerouted.root
          show q.group ≠ g.root
          rw [← hgroup, hroot]
          exact h.away i x p hi hp hne q₀ hq₀ }

end Copying

/-- The steps of standing a graph in a group: gates, buses, nodes, routes. -/
theorem Graph.instantiate_eq {g g' linked : Graph} {group : Id}
    (h : g.instantiate group linked = .ok g') :
    ∃ top c₁ c₂ c₃ c₄, linked.group? linked.root = some top ∧
      top.gates.foldlM (Copying.bindGate linked group) { graph := g } = .ok c₁ ∧
      top.buses.foldlM (Copying.copyBus linked group) c₁ = .ok c₂ ∧
      Copying.copyNodes linked group (linked.outline linked.root).children c₂ = .ok c₃ ∧
      (linked.routes.entries.map (·.2)).foldlM (Copying.copyRoute linked) c₃ = .ok c₄ ∧
      g' = c₄.graph := by
  obtain ⟨_, -, h⟩ := bind_eq_ok.1 h
  obtain ⟨top, htop, h⟩ := bind_eq_ok.1 h
  obtain ⟨c₁, hgates, h⟩ := bind_eq_ok.1 h
  obtain ⟨c₂, hbuses, h⟩ := bind_eq_ok.1 h
  obtain ⟨c₃, hnodes, h⟩ := bind_eq_ok.1 h
  obtain ⟨c₄, hroutes, h⟩ := bind_eq_ok.1 h
  cases h
  exact ⟨top, c₁, c₂, c₃, c₄, Graph.requireGroup_eq_ok.1 htop, hgates, hbuses, hnodes, hroutes, rfl⟩

/-- What a group lists as a gate is a gate of that group. -/
theorem Graph.WellFormed.group_of_mem_gates {g : Graph} (w : g.WellFormed) {group i : Id} {s : Group}
    (hs : g.group? group = some s) (hi : i ∈ s.gates) {p : Gate} (hp : g.gate? i = some p) :
    p.group = group := by
  have hmem : i ∈ g.gateIds group := by
    unfold Graph.gateIds
    rw [hs]
    exact hi
  have howner := w.gates.mem_iff.1 hmem
  rw [Graph.gateOwner?, hp] at howner
  exact Option.some.inj howner

/-- Standing the content of a well-formed graph in a group of another keeps that one well-formed. -/
theorem Graph.WellFormed.instantiate {g g' linked : Graph} (w : g.WellFormed)
    (wl : linked.WellFormed) {group : Id} (h : g.instantiate group linked = .ok g') :
    g'.WellFormed := by
  obtain ⟨top, c₁, c₂, c₃, c₄, htop, hgates, hbuses, hnodes, hroutes, rfl⟩ := Graph.instantiate_eq h
  have hstart : Copying.Bound linked group { graph := g } :=
    ⟨w, rfl, fun i x hi => by cases hi⟩
  have hbound : Copying.Bound linked group c₁ :=
    foldlM_keeps (Copying.Bound linked group) (fun c gate c' hmem hb hc =>
      hb.bindGate (fun _ hp => wl.group_of_mem_gates htop hmem hp) hc) hstart hgates
  have hbused : c₂.Sound linked :=
    foldlM_keeps (Copying.Sound linked) (fun _ _ _ _ hs hc => hs.copyBus hc) (hbound.sound wl) hbuses
  have hcopied : c₃.Sound linked := Copying.sound_kept.copyNodes _ hbused hnodes
  have hrouted : c₄.Routing linked := by
    refine foldlM_keeps (Copying.Routing linked) (fun c r c' hmem hc hr => ?_)
      ⟨hcopied.graph, hcopied.pins, hcopied.gates, hcopied.away⟩ hroutes
    obtain ⟨⟨id, x⟩, hx, rfl⟩ := List.mem_map.1 hmem
    exact hc.copyRoute (wl.routes.differ (IdMap.get?_eq_some_iff.2 hx)) hr
  exact hrouted.graph

end MessageGraph
