import MessageGraph.Proofs.Blueprint.Graft
import MessageGraph.Proofs.Graph.Own
import MessageGraph.Proofs.Blueprint.Trace

/-!
# Copying nodes

Copying the content of a well-formed graph never fails, and its trace says what it did. A step copies one
entity (`Traced.copyPin` and so on), a list of what a node owns is copied entity by entity
(`Traced.copyListed`), and a tree of nodes by recursion along the tree (`Traced.copyNode`).
-/
namespace MessageGraph

/-- The copy of a pin on another node, which has no routes yet. -/
def Pin.copied (p : Pin) (node : Id) : Pin := { p.unrouted with node := node }

def Gate.copied (p : Gate) (group : Id) : Gate := { p.unrouted with group := group }

def Bus.copied (b : Bus) (group : Id) : Bus := { b.untacked with group := group, imported := true }

namespace Graph

variable {g : Graph} {n : Id}

theorem WellFormed.findPin?_eq_none (w : g.WellFormed) {name : String} {d : Direction}
    (h : ∀ {i q}, g.pin? i = some q → q.node = n → q.name = name → q.direction = d → False) :
    g.findPin? n name d = none := by
  refine findPin?_eq_none_iff.2 fun p hp ⟨hname, hdir⟩ => ?_
  obtain ⟨i, hi, hp⟩ := List.mem_filterMap.1 hp
  obtain ⟨q, hq, rfl⟩ := Option.map_eq_some_iff.1 hp
  exact h hq (w.pin_of_mem hi hq) hname hdir

theorem WellFormed.findGate?_eq_none (w : g.WellFormed) {name : String}
    (h : ∀ {i q}, g.gate? i = some q → q.group = n → q.name = name → False) :
    g.findGate? n name = none := by
  refine findGate?_eq_none_iff.2 fun p hp hname => ?_
  obtain ⟨i, hi, hp⟩ := List.mem_filterMap.1 hp
  obtain ⟨q, hq, rfl⟩ := Option.map_eq_some_iff.1 hp
  exact h hq (w.gate_of_mem hi hq) hname

/-- A node that lists something of a kind is of the kind that lists such. -/
theorem WellFormed.isSome_source?_of_owner (w : g.WellFormed) {i : Id} (h : g.pinOwner? i = some n) :
    (g.source? n).isSome = true := by
  obtain ⟨s, hs, -⟩ := source?_of_mem_elim (w.pins.mem_iff.2 h)
  rw [hs]
  rfl

theorem WellFormed.isSome_group?_of_owner (w : g.WellFormed) {k : EntityKind} (hk : k ≠ .pin) {i : Id}
    (h : g.ownerOf? k i = some n) : (g.group? n).isSome = true := by
  have hi : i ∈ g.listed k n := (w.owned k).mem_iff.2 h
  cases k with
  | node | gate | bus =>
    obtain ⟨s, hs, -⟩ := group?_of_mem_elim hi
    rw [hs]
    rfl
  | pin => exact absurd rfl hk
  | tack | route => cases hi

theorem requireNode_of_node? {m : Node} (h : g.node? n = some m) : g.requireNode n = .ok m := by
  unfold requireNode
  rw [h]

theorem exists_owner {i : Id} {k : EntityKind} (hk : k ≠ .node) (hi : g.has k i = true)
    (ht : k ≠ .tack) (hr : k ≠ .route) : ∃ o, g.ownerOf? k i = some o := by
  cases k with
  | pin | gate | bus =>
    obtain ⟨p, hp⟩ := IdMap.contains_iff.1 hi
    exact ⟨_, Option.map_eq_some_iff.2 ⟨p, hp, rfl⟩⟩
  | node => exact absurd rfl hk
  | tack => exact absurd rfl ht
  | route => exact absurd rfl hr

/-- A source lists pins. -/
theorem kind_of_listed_source {n i : Id} {k : EntityKind} (hg : g.group? n = none) (hk : k ≠ .node)
    (hi : i ∈ g.listed k n) : k = .pin := by
  cases k with
  | pin => rfl
  | node => exact absurd rfl hk
  | gate | bus =>
    obtain ⟨s, hs, -⟩ := group?_of_mem_elim hi
    cases hg.symm.trans hs
  | tack | route => cases hi

/-- A group lists gates and buses besides its nodes. -/
theorem kind_of_listed_group {n i : Id} {k : EntityKind} (hs : g.source? n = none) (hk : k ≠ .node)
    (hi : i ∈ g.listed k n) : k = .gate ∨ k = .bus := by
  cases k with
  | gate => exact Or.inl rfl
  | bus => exact Or.inr rfl
  | node => exact absurd rfl hk
  | pin =>
    obtain ⟨s, hs', -⟩ := source?_of_mem_elim hi
    cases hs.symm.trans hs'
  | tack | route => cases hi

theorem label?_of_source {n : Id} {m : Node} {s : Source} (hm : g.node? n = some m)
    (hk : m.kind = .source s) : g.label? n = some ⟨m.name, some s.behavior, none⟩ := by
  simp only [label?, hm, Option.map_some, Node.label, Node.source?, Node.group?, hk]
  rfl

theorem label?_of_group {n : Id} {m : Node} {s : Group} (hm : g.node? n = some m)
    (hk : m.kind = .group s) : g.label? n = some ⟨m.name, none, s.library⟩ := by
  simp only [label?, hm, Option.map_some, Node.label, Node.source?, Node.group?, hk]
  rfl

end Graph

theorem Node.blank_source (name : String) (parent : Option Id) (behavior : BehaviorRef) :
    Node.Blank { name, parent, kind := .source { behavior, pins := [] } } :=
  ⟨nofun, nofun, nofun, fun _ h => by cases h; rfl⟩

theorem Node.blank_group (name : String) (parent : Option Id) :
    Node.Blank { name, parent, kind := .group {} } :=
  ⟨fun _ h => by cases h; rfl, fun _ h => by cases h; rfl, fun _ h => by cases h; rfl, nofun⟩

namespace Copying

open MessageGraph.Graph (Frame)

variable {linked base : Graph} {group n i x o into : Id} {added : List Gate} {pending : List Id}
  {nodes : List (Id × Id)} {c c' : Copying} {k : EntityKind}

/-! ## Labels -/

/-- Nodes that were there have the labels that they had. -/
def KeepsLabels (c c' : Copying) : Prop := ∀ n l, c.graph.label? n = some l → c'.graph.label? n = some l

theorem KeepsLabels.refl (c : Copying) : KeepsLabels c c := fun _ _ => id

theorem KeepsLabels.trans {c'' : Copying} (h : KeepsLabels c c') (h' : KeepsLabels c' c'') : KeepsLabels c c'' :=
  fun n l hl => h' n l (h n l hl)

theorem KeepsLabels.of_inserts (h : Graph.Inserts c.graph k x o c'.graph) : KeepsLabels c c' := fun _ l hl => by
  obtain ⟨m, hm, -⟩ := Option.map_eq_some_iff.1 hl
  exact (h.nodes (IdMap.contains_of_get? hm)).label?_eq.trans hl

theorem label?_modifyNode {g : Graph} {f : Node → Node} :
    (g.modifyNode x f).label? n = (g.node? n).map fun m => if n = x then (f m).label else m.label := by
  unfold Graph.label? Graph.node?
  rw [Graph.modifyNode, IdMap.get?_modify]
  split
  · rw [Option.map_map]
    rfl
  · rfl

/-- A change that leaves labels alone. -/
theorem KeepsLabels.modifyNode (c : Copying) (x : Id) {f : Node → Node} (hf : ∀ m, (f m).label = m.label) :
    KeepsLabels c { c with graph := c.graph.modifyNode x f } := fun n l hl => by
  rw [label?_modifyNode, ← hl]
  simp only [hf, ite_self]
  rfl

/-- A change of one node leaves the labels of the others alone. -/
theorem label?_modifyNode_of_ne {g : Graph} {f : Node → Node} (h : n ≠ x) :
    (g.modifyNode x f).label? n = g.label? n := by
  rw [label?_modifyNode]
  simp only [h, if_false]
  rfl

/-- The settings of a group bring its library with them. -/
theorem label?_modifyGroup {g : Graph} {l : Label} {d : Group} (hl : g.label? x = some l)
    (hd : g.group? x = some d) (f : Group → Group) :
    (g.modifyGroup x f).label? x = some { l with library := (f d).library } := by
  obtain ⟨m, hm, rfl⟩ := Option.map_eq_some_iff.1 hl
  rw [Graph.group?, hm, Option.bind_some] at hd
  refine label?_modifyNode.trans ?_
  rw [hm, Option.map_some, if_pos rfl, Node.label_mapGroup hd]

/-! ## One step -/

theorem records_pin {g : Graph} :
    Records nodes c .pin i x nodes { c with graph := g, pins := (i, x) :: c.pins } :=
  ⟨rfl, fun k' hk' => by cases k' <;> first | rfl | exact absurd rfl hk'⟩

theorem records_gate {g : Graph} :
    Records nodes c .gate i x nodes { c with graph := g, gates := (i, x) :: c.gates } :=
  ⟨rfl, fun k' hk' => by cases k' <;> first | rfl | exact absurd rfl hk'⟩

theorem records_bus {g : Graph} :
    Records nodes c .bus i x nodes { c with graph := g, buses := (i, x) :: c.buses } :=
  ⟨rfl, fun k' hk' => by cases k' <;> first | rfl | exact absurd rfl hk'⟩

theorem records_node {g : Graph} :
    Records nodes c .node i x ((i, x) :: nodes) { c with graph := g } :=
  ⟨rfl, fun k' hk' => by cases k' <;> first | rfl | exact absurd rfl hk'⟩

theorem copyPin_eq {p : Pin} (hp : linked.pin? i = some p) (hs : (c.graph.source? into).isSome = true)
    (hf : c.graph.findPin? into p.name p.direction = none) :
    copyPin linked into c i = .ok { c with
      graph := c.graph.insertPin c.graph.fresh.2.nextId c.graph.fresh.1 (p.copied into)
      pins := (i, c.graph.fresh.1) :: c.pins } := by
  obtain ⟨x, g, hadd⟩ := Graph.addPin_ok hs hf p.channel
  obtain ⟨s, -, -, rfl, rfl⟩ := Graph.addPin_eq hadd
  unfold copyPin
  rw [hp]
  simp only [hadd, bind, Except.bind]
  rw [Graph.setPinLabel_insertPin]
  rfl

theorem copyGate_eq {p : Gate} (hp : linked.gate? i = some p) (hs : (c.graph.group? into).isSome = true)
    (hf : c.graph.findGate? into p.name = none) :
    copyGate linked into c i = .ok { c with
      graph := c.graph.insertGate c.graph.fresh.2.nextId c.graph.fresh.1 (p.copied into)
      gates := (i, c.graph.fresh.1) :: c.gates } := by
  obtain ⟨x, g, hadd⟩ := Graph.addGate_ok hs hf p.direction p.channel
  obtain ⟨s, -, -, rfl, rfl⟩ := Graph.addGate_eq hadd
  unfold copyGate
  rw [hp]
  simp only [hadd, bind, Except.bind]
  rw [Graph.setGateLabels_insertGate]
  rfl

theorem copyBus_eq {b : Bus} {s : Group} (hb : linked.bus? i = some b)
    (hs : c.graph.group? into = some s) :
    copyBus linked into c i = .ok { c with
      graph := c.graph.insertBus c.graph.fresh.2.nextId c.graph.fresh.1 (b.copied into)
      buses := (i, c.graph.fresh.1) :: c.buses } := by
  have hadd : c.graph.addBus none into b.name b.filter = .ok (c.graph.fresh.1,
      c.graph.insertBus c.graph.fresh.2.nextId c.graph.fresh.1 ⟨into, b.name, b.filter, [], none, false⟩) := by
    unfold Graph.addBus
    rw [Graph.requireGroup_eq_ok.2 hs]
    rfl
  have hset := IdMap.modify_insert c.graph.buses c.graph.fresh.1 ⟨into, b.name, b.filter, [], none, false⟩
    fun n => { n with rect := b.rect, imported := true }
  unfold copyBus
  rw [hb]
  simp only [hadd, bind, Except.bind, pure, Except.pure, Graph.insertBus, Graph.modifyBus,
    Graph.modifyGroup, Graph.modifyNode, hset]
  rfl

/-- What is new was not there before either. -/
theorem Traced.absent_base (t : Traced linked base group added pending nodes c)
    (h : c.graph.has k x = false) : base.has k x = false := by
  cases hb : base.has k x with
  | false => rfl
  | true => exact absurd ((t.grows k x hb).symm.trans h) nofun

/-- The copy of a node that lists something other than pins is a group. -/
theorem Traced.exists_group (t : Traced linked base group added pending nodes c)
    (wl : linked.WellFormed) (hk : k ≠ .pin) (hn : linked.ownerOf? k i = some n)
    (hno : (n, into) ∈ nodes) : ∃ s, c.graph.group? into = some s := by
  refine Option.isSome_iff_exists.1 ?_
  rw [(t.alike (k := .node) hno).2]
  exact wl.isSome_group?_of_owner hk hn

/-- What belongs to the copy of a node that was not there is the copy of what belongs to the node. -/
theorem Traced.original_of (t : Traced linked base group added pending nodes c) (wb : base.WellFormed)
    (hk : k ≠ .node) (hno : (n, into) ∈ nodes) (hinto : base.nodes.contains into = false)
    (hx : c.graph.ownerOf? k x = some into) :
    ∃ i, (i, x) ∈ c.copies nodes k ∧ linked.ownerOf? k i = some n := by
  obtain ⟨i, hi⟩ := t.original wb hinto hx
  obtain ⟨m, hm⟩ := Graph.exists_owner hk (t.live hi).1 (fun h => by subst h; exact t.alike hi)
    fun h => by subst h; exact t.alike hi
  obtain ⟨o, ho, hmo⟩ := t.owner hi hm
  cases hx.symm.trans ho
  exact ⟨i, hi, hm.trans (congrArg some ((t.single (k := .node) hmo hno).2 rfl))⟩

theorem Traced.copyPin (t : Traced linked base group added pending nodes c) (wb : base.WellFormed)
    (wl : linked.WellFormed) (hno : (n, into) ∈ nodes) (hinto : base.nodes.contains into = false)
    (hn : linked.ownerOf? .pin i = some n) (hnew : ∀ y, (i, y) ∉ c.copies nodes .pin) :
    ∃ c' x, copyPin linked into c i = .ok c' ∧ Traced linked base group added pending nodes c' ∧
      Records nodes c .pin i x nodes c' ∧ KeepsLabels c c' := by
  obtain ⟨p, hp, rfl⟩ := Option.map_eq_some_iff.1 hn
  have w := t.wellFormed
  have hs : (c.graph.source? into).isSome = true := by
    rw [(t.alike (k := .node) hno).1]
    exact wl.isSome_source?_of_owner hn
  -- a pin of that name would be the copy of the same pin
  have hname : ∀ {y q}, c.graph.pin? y = some q → q.node = into → q.name = p.name →
      q.direction = p.direction → False := fun {y q} hq hnode hname hdir => by
    obtain ⟨j, hj, hjn⟩ := t.original_of wb nofun hno hinto (k := .pin) (x := y)
      (Option.map_eq_some_iff.2 ⟨q, hq, hnode⟩)
    obtain ⟨p', q', hp', hq', hname', hdir', -⟩ := t.alike hj
    cases hq.symm.trans hq'
    obtain ⟨p'', hp'', hnode'⟩ := Option.map_eq_some_iff.1 hjn
    cases hp'.symm.trans hp''
    obtain rfl := wl.names.pins hp' hp hnode' (hname'.symm.trans hname) (hdir'.symm.trans hdir)
    exact hnew y hj
  obtain ⟨s, hs'⟩ := Option.isSome_iff_exists.1 hs
  have hins := Graph.insertPin_inserts w (p := p.copied into) hs' w.ids.fresh rfl hname
  refine ⟨_, c.graph.fresh.1, copyPin_eq hp hs (w.findPin?_eq_none hname), ?_, records_pin, .of_inserts hins⟩
  refine t.insert records_pin hins
    hn hno hnew ⟨p, _, hp, (Graph.pin?_insertPin _).trans (if_pos rfl), rfl, rfl, rfl⟩ ?_
    (List.Subset.refl _) nofun
  exact t.frame.draw hinto (Graph.insertPin_draws w (p := p.copied into) hs' w.ids.fresh rfl hname)

theorem Traced.copyGate (t : Traced linked base group added pending nodes c) (wb : base.WellFormed)
    (wl : linked.WellFormed) (hno : (n, into) ∈ nodes) (hinto : base.nodes.contains into = false)
    (hn : linked.ownerOf? .gate i = some n) (hnew : ∀ y, (i, y) ∉ c.copies nodes .gate) :
    ∃ c' x, copyGate linked into c i = .ok c' ∧ Traced linked base group added pending nodes c' ∧
      Records nodes c .gate i x nodes c' ∧ KeepsLabels c c' := by
  obtain ⟨s, hs⟩ := t.exists_group (k := .gate) wl nofun hn hno
  obtain ⟨p, hp, rfl⟩ := Option.map_eq_some_iff.1 hn
  have w := t.wellFormed
  have hname : ∀ {y q}, c.graph.gate? y = some q → q.group = into → q.name = p.name → False :=
    fun {y q} hq hgroup hname => by
      obtain ⟨j, hj, hjn⟩ := t.original_of wb nofun hno hinto (k := .gate) (x := y)
        (Option.map_eq_some_iff.2 ⟨q, hq, hgroup⟩)
      obtain ⟨p', q', hp', hq', hname', -⟩ := t.alike hj
      cases hq.symm.trans hq'
      obtain ⟨p'', hp'', hgroup'⟩ := Option.map_eq_some_iff.1 hjn
      cases hp'.symm.trans hp''
      obtain rfl := wl.names.gates hp' hp hgroup' (hname'.symm.trans hname)
      exact hnew y hj
  have hins := Graph.insertGate_inserts w (p := p.copied into) hs w.ids.fresh rfl rfl hname
  refine ⟨_, c.graph.fresh.1, copyGate_eq hp (by rw [hs]; rfl) (w.findGate?_eq_none hname), ?_,
    records_gate, .of_inserts hins⟩
  refine t.insert records_gate hins hn hno hnew
    ⟨p, _, hp, (Graph.gate?_insertGate _).trans (if_pos rfl), rfl, fun _ => ⟨rfl, rfl⟩⟩ ?_
    (List.Subset.refl _) nofun
  exact t.frame.draw hinto
    (Graph.insertGate_draws w (p := p.copied into) hs w.ids.fresh rfl rfl hname)

theorem Traced.copyBus (t : Traced linked base group added pending nodes c)
    (wl : linked.WellFormed) (hno : (n, into) ∈ nodes)
    (hinto : into = group ∨ base.nodes.contains into = false)
    (hn : linked.ownerOf? .bus i = some n) (hnew : ∀ y, (i, y) ∉ c.copies nodes .bus) :
    ∃ c' x, copyBus linked into c i = .ok c' ∧ Traced linked base group added pending nodes c' ∧
      Records nodes c .bus i x nodes c' ∧ KeepsLabels c c' := by
  obtain ⟨s, hs⟩ := t.exists_group (k := .bus) wl nofun hn hno
  obtain ⟨b, hb, rfl⟩ := Option.map_eq_some_iff.1 hn
  have w := t.wellFormed
  have hdraws := Graph.insertBus_draws w (b := b.copied into) hs w.ids.fresh rfl
  have hins := Graph.insertBus_inserts w (b := b.copied into) hs w.ids.fresh rfl
  refine ⟨_, c.graph.fresh.1, copyBus_eq hb hs, ?_, records_bus, .of_inserts hins⟩
  refine t.insert records_bus hins hn hno
    hnew ⟨b, _, hb, (Graph.bus?_insertBus _).trans (if_pos rfl), rfl, rfl, rfl⟩ ?_
    (List.Subset.refl _) nofun
  rcases hinto with rfl | hinto
  · exact t.frame.bus rfl hdraws
  · exact t.frame.draw hinto hdraws

/-! ## What a node owns -/

/-- What a node owns of one kind is copied entity by entity. -/
theorem Traced.copyListed (step : Copying → Id → Except EditError Copying) (wl : linked.WellFormed)
    (hstep : ∀ {c i}, Traced linked base group added pending nodes c → linked.ownerOf? k i = some n →
      (∀ y, (i, y) ∉ c.copies nodes k) → ∃ c' x, step c i = .ok c' ∧
        Traced linked base group added pending nodes c' ∧ Records nodes c k i x nodes c' ∧ KeepsLabels c c')
    (t : Traced linked base group added pending nodes c)
    (hnew : ∀ i, linked.ownerOf? k i = some n → ∀ y, (i, y) ∉ c.copies nodes k) :
    ∃ c', (linked.listed k n).foldlM step c = .ok c' ∧
      Traced linked base group added pending nodes c' ∧
      (∀ i ∈ linked.listed k n, ∃ x, (i, x) ∈ c'.copies nodes k) ∧
      c.copies nodes k ⊆ c'.copies nodes k ∧
      (∀ k', k' ≠ k → c'.copies nodes k' = c.copies nodes k') ∧ KeepsLabels c c' := by
  have howner : ∀ i ∈ linked.listed k n, linked.ownerOf? k i = some n := fun i hi =>
    (wl.owned k).mem_iff.1 hi
  replace hnew : ∀ i ∈ linked.listed k n, ∀ y, (i, y) ∉ c.copies nodes k := fun i hi =>
    hnew i (howner i hi)
  have hnd := (wl.owned k).nodup n
  generalize linked.listed k n = is at howner hnew hnd ⊢
  induction is generalizing c with
  | nil => exact ⟨c, rfl, t, nofun, List.Subset.refl _, fun _ _ => rfl, .refl c⟩
  | cons i is ih =>
    rw [List.nodup_cons] at hnd
    obtain ⟨c₁, x, h₁, t₁, hr, hkeep₁⟩ := hstep t (howner i List.mem_cons_self) (hnew i List.mem_cons_self)
    obtain ⟨c₂, h₂, t₂, hall, hsub, hother, hkeep₂⟩ := ih t₁ (fun j hj => howner j (List.mem_cons_of_mem i hj))
      (fun j hj y hy => by
        rcases hr.mem_iff.1 hy with hy | ⟨-, he⟩
        · exact hnew j (List.mem_cons_of_mem i hj) y hy
        · cases he
          exact hnd.1 hj) hnd.2
    refine ⟨c₂, ?_, t₂, fun j hj => ?_, fun y hy => hsub (hr.mem_iff.2 (Or.inl hy)), fun k' hk' =>
      (hother k' hk').trans (hr.others k' hk'), hkeep₁.trans hkeep₂⟩
    · rw [List.foldlM_cons, h₁]
      exact h₂
    · rcases List.mem_cons.1 hj with rfl | hj
      · exact ⟨x, hsub (hr.mem_iff.2 (Or.inr ⟨rfl, rfl⟩))⟩
      · exact hall j hj

/-! ## Nodes -/

/-- Some nodes have been copied with all they own, and nothing else has. -/
structure Covers (linked : Graph) (values : List Id) (nodes : List (Id × Id)) (c : Copying)
    (nodes' : List (Id × Id)) (c' : Copying) : Prop where
  grown : ∀ k, c.copies nodes k ⊆ c'.copies nodes' k
  only : ∀ {n y}, (n, y) ∈ nodes' → (n, y) ∈ nodes ∨ n ∈ values
  node : ∀ n ∈ values, ∃ y l, (n, y) ∈ nodes' ∧ linked.label? n = some l ∧ c'.graph.label? y = some l
  kept : KeepsLabels c c'
  listed : ∀ n ∈ values, ∀ k, k ≠ .node → ∀ i ∈ linked.listed k n, ∃ x, (i, x) ∈ c'.copies nodes' k

theorem Covers.refl (linked : Graph) (nodes : List (Id × Id)) (c : Copying) :
    Covers linked [] nodes c nodes c :=
  ⟨fun _ => List.Subset.refl _, Or.inl, nofun, .refl c, nofun⟩

theorem Covers.append {values values' : List Id} {nodes' nodes'' : List (Id × Id)} {c'' : Copying}
    (h : Covers linked values nodes c nodes' c') (h' : Covers linked values' nodes' c' nodes'' c'') :
    Covers linked (values ++ values') nodes c nodes'' c'' where
  grown k := List.Subset.trans (h.grown k) (h'.grown k)
  only hy := by
    rcases h'.only hy with hy | hy
    · exact (h.only hy).imp id (List.mem_append_left _)
    · exact Or.inr (List.mem_append_right _ hy)
  node n hn := by
    rcases List.mem_append.1 hn with hn | hn
    · obtain ⟨y, l, hy, hl, hl'⟩ := h.node n hn
      exact ⟨y, l, h'.grown .node hy, hl, h'.kept y l hl'⟩
    · exact h'.node n hn
  kept := h.kept.trans h'.kept
  listed n hn k hk i hi := by
    rcases List.mem_append.1 hn with hn | hn
    · obtain ⟨x, hx⟩ := h.listed n hn k hk i hi
      exact ⟨x, h'.grown k hx⟩
    · exact h'.listed n hn k hk i hi

/-- The copy of a node is new and waits for its content. -/
theorem Traced.addNode (t : Traced linked base group added pending nodes c) (wl : linked.WellFormed)
    (hn : linked.parent? n = some o) (hno : (o, into) ∈ nodes)
    (hinto : into = group ∨ base.nodes.contains into = false) (hnew : ∀ y, (n, y) ∉ nodes) (name : String)
    (kind : NodeKind) (blank : Node.Blank { name, parent := some into, kind })
    (hsource : (Node.source? { name, parent := some into, kind }).isSome = (linked.source? n).isSome)
    (hgroup : (Node.group? { name, parent := some into, kind }).isSome = (linked.group? n).isSome) :
    ∃ x g, c.graph.addNode none into name kind = .ok (x, g) ∧ base.nodes.contains x = false ∧
      Traced linked base group added (x :: pending) ((n, x) :: nodes) { c with graph := g } ∧
      c.graph.nodes.contains x = false ∧ KeepsLabels c { c with graph := g } ∧
      g.label? x = some (Node.label { name, parent := some into, kind }) := by
  obtain ⟨s, hs⟩ := t.exists_group (k := .node) wl nofun hn hno
  have w := t.wellFormed
  have hx : base.nodes.contains c.graph.fresh.1 = false := t.absent_base (w.ids.fresh.absent .node)
  have hsprouts := Graph.insertChild_sprouts w hs w.ids.fresh
    (m := { name, parent := some into, kind }) rfl blank
  have hins := Graph.insertChild_inserts w hs w.ids.fresh (m := { name, parent := some into, kind }) rfl blank
  refine ⟨c.graph.fresh.1, _, ?_, hx, t.insert records_node hins hn hno
    hnew ⟨?_, ?_⟩ (t.frame.sprout hinto hx hsprouts) (List.subset_cons_self _ _)
    fun _ => List.mem_cons_self, w.ids.fresh.absent .node, .of_inserts hins, ?_⟩
  · unfold Graph.addNode
    rw [Graph.requireGroup_eq_ok.2 hs]
    rfl
  · have h := congrArg (fun s : Sheet => (s.node.bind Node.source?).isSome) hsprouts.sheet
    refine (Graph.isSome_source?_eq _ _).trans (h.trans (Eq.trans ?_ hsource))
    cases kind <;> rfl
  · have h := congrArg (fun s : Sheet => (s.node.bind Node.group?).isSome) hsprouts.sheet
    refine (Graph.isSome_group?_eq _ _).trans (h.trans (Eq.trans ?_ hgroup))
    cases kind <;> rfl
  · have h := congrArg (fun s : Sheet => s.node.map Node.label) hsprouts.sheet
    exact (Graph.label?_eq _ _).trans (h.trans (congrArg some (Node.label_unlisted _)))

theorem Traced.modifyGroup (t : Traced linked base group added pending nodes c)
    (hx : base.nodes.contains x = false) {f : Group → Group} (hbare : ∀ s, (f s).bare = s.bare)
    (hf : ∀ s : Group, { f s with children := [], buses := [], gates := [] } =
      f { s with children := [], buses := [], gates := [] }) :
    Traced linked base group added pending nodes { c with graph := c.graph.modifyGroup x f } := by
  refine t.modifyNode (fun m => ?_) (fun m => ?_) (fun m hm => ?_) hx fun _ hy => Or.inl hy
  · cases hk : m.kind <;> simp [Node.mapGroup, hk, Node.bare, NodeKind.bare, hbare]
  · cases hk : m.kind <;> simp only [Node.mapGroup, Node.unlisted, hk, hf]
  · rw [Node.imported_mapGroup]
    exact hm

/-- A node whose content is copied is finished. -/
theorem Traced.finishNode (t : Traced linked base group added (x :: pending) nodes c)
    (hx : base.nodes.contains x = false) (m : Node) :
    Traced linked base group added pending nodes (finishNode m x c) :=
  t.modifyNode (fun _ => rfl) (fun _ => rfl) (fun _ _ => rfl) hx fun _ hy =>
    (List.mem_cons.1 hy).symm.imp id fun he => ⟨he, fun _ => rfl⟩

/-- Finishing a node leaves labels alone and records nothing. -/
theorem keepsLabels_finishNode (m : Node) (x : Id) (c : Copying) : KeepsLabels c (finishNode m x c) :=
  .modifyNode c x fun _ => rfl

theorem Covers.finishNode {values : List Id} {nodes' : List (Id × Id)}
    (h : Covers linked values nodes c nodes' c') (m : Node) (x : Id) :
    Covers linked values nodes c nodes' (finishNode m x c') where
  grown k := h.grown k
  only := h.only
  node n hn := by
    obtain ⟨y, l, hy, hl, hl'⟩ := h.node n hn
    exact ⟨y, l, hy, hl, keepsLabels_finishNode m x c' y l hl'⟩
  kept := h.kept.trans (keepsLabels_finishNode m x c')
  listed n hn k hk i hi := h.listed n hn k hk i hi

theorem Covers.of_node {c₀ : Copying} (hr : Records nodes c .node n x ((n, x) :: nodes) c₀)
    (hgrown : ∀ k, c₀.copies ((n, x) :: nodes) k ⊆ c'.copies ((n, x) :: nodes) k)
    {l : Label} (hl : linked.label? n = some l) (hl' : c'.graph.label? x = some l) (hkept : KeepsLabels c c')
    (hlisted : ∀ k, k ≠ .node → ∀ i ∈ linked.listed k n, ∃ y, (i, y) ∈ c'.copies ((n, x) :: nodes) k) :
    Covers linked [n] nodes c ((n, x) :: nodes) c' where
  grown k y hy := hgrown k (hr.mem_iff.2 (Or.inl hy))
  only {m y} hy := by
    rcases List.mem_cons.1 hy with he | hy
    · cases he
      exact Or.inr List.mem_cons_self
    · exact Or.inl hy
  node m hm := by
    rw [List.mem_singleton] at hm
    subst hm
    exact ⟨x, l, List.mem_cons_self, hl, hl'⟩
  kept := hkept
  listed m hm := by
    rw [List.mem_singleton] at hm
    subst hm
    exact hlisted

/-- A source is copied with its pins. -/
theorem Traced.copySource (t : Traced linked base group added pending nodes c) (wb : base.WellFormed)
    (wl : linked.WellFormed) {m : Node} {s : Source} (hm : linked.node? n = some m)
    (hk : m.kind = .source s) (hn : linked.parent? n = some o) (hno : (o, into) ∈ nodes)
    (hinto : into = group ∨ base.nodes.contains into = false) (hnew : ∀ y, (n, y) ∉ nodes)
    (children : List (Tree Id)) :
    ∃ c' nodes', copyNode linked into (.node n children) c = .ok c' ∧
      Traced linked base group added pending nodes' c' ∧ Covers linked [n] nodes c nodes' c' := by
  have hs := Graph.source?_of_kind hm hk
  have hg := Graph.group?_of_source? hs
  have hpins : linked.listed .pin n = s.pins := Graph.pinIds_of_source? hs
  obtain ⟨x, g, hadd, hx, t₀, -, hkeep₀, hl₀⟩ := t.addNode wl hn hno hinto hnew m.name
    (.source { behavior := s.behavior, pins := [] })
    (Node.blank_source _ _ _) (by rw [hs]; rfl) (by rw [hg]; rfl)
  obtain ⟨c₁, h₁, t₁, hall, hsub, hother, hkeep₁⟩ := t₀.copyListed (k := .pin) (n := n)
    (Copying.copyPin linked x) wl
    (fun t hi hnew => t.copyPin wb wl List.mem_cons_self hx hi hnew)
    fun i hi => t.notMem_of_owner hnew hi
  refine ⟨Copying.finishNode m x c₁, (n, x) :: nodes, ?_, t₁.finishNode hx m, .of_node (records_node (g := g))
    (fun k => ?_) (Graph.label?_of_source hm hk) (keepsLabels_finishNode m x c₁ _ _ (hkeep₁ _ _ hl₀))
    ((hkeep₀.trans hkeep₁).trans (keepsLabels_finishNode m x c₁)) fun k hk' i hi => ?_⟩
  · rw [hpins] at h₁
    unfold Copying.copyNode
    refine bind_eq_ok.2 ⟨m, Graph.requireNode_of_node? hm, ?_⟩
    rw [hk]
    exact bind_eq_ok.2 ⟨(x, g), hadd, bind_eq_ok.2 ⟨c₁, h₁, rfl⟩⟩
  · by_cases hkp : k = .pin
    · subst hkp
      exact hsub
    · exact (hother k hkp).symm ▸ List.Subset.refl _
  · obtain rfl := Graph.kind_of_listed_source hg hk' hi
    exact hall i hi

/-- A group is copied with its gates and buses before its children are. -/
theorem Traced.openGroup (t : Traced linked base group added pending nodes c) (wb : base.WellFormed)
    (wl : linked.WellFormed) {m : Node} {s : Group} (hm : linked.node? n = some m)
    (hk : m.kind = .group s) (hn : linked.parent? n = some o) (hno : (o, into) ∈ nodes)
    (hinto : into = group ∨ base.nodes.contains into = false) (hnew : ∀ y, (n, y) ∉ nodes) :
    ∃ x g c₁ c₂, c.graph.addGroup none into m.name = .ok (x, g) ∧ base.nodes.contains x = false ∧
      s.gates.foldlM (Copying.copyGate linked x) { c with graph := g } = .ok c₁ ∧
      s.buses.foldlM (Copying.copyBus linked x) { c₁ with graph := c₁.graph.modifyGroup x fun d =>
        { d with link := s.link, library := s.library, view := s.view } } = .ok c₂ ∧
      Traced linked base group added (x :: pending) ((n, x) :: nodes) c₂ ∧
      Covers linked [n] nodes c ((n, x) :: nodes) c₂ := by
  have hg := Graph.group?_of_kind hm hk
  have hs := Graph.source?_of_group? hg
  have hgates : linked.listed .gate n = s.gates := Graph.gateIds_of_group? hg
  have hbuses : linked.listed .bus n = s.buses := Graph.busIds_of_group? hg
  obtain ⟨x, g, hadd, hx, t₀, habsent, hkeep₀, hl₀⟩ := t.addNode wl hn hno hinto hnew m.name (.group {})
    (Node.blank_group _ _) (by rw [hs]; rfl) (by rw [hg]; rfl)
  obtain ⟨c₁, h₁, t₁, hall₁, hsub₁, hother₁, hkeep₁⟩ := t₀.copyListed (k := .gate) (n := n)
    (Copying.copyGate linked x) wl
    (fun t hi hnew => t.copyGate wb wl List.mem_cons_self hx hi hnew)
    fun i hi => t.notMem_of_owner hnew hi
  obtain ⟨c₂, h₂, t₂, hall₂, hsub₂, hother₂, hkeep₂⟩ := (t₁.modifyGroup hx (f := fun d =>
      { d with link := s.link, library := s.library, view := s.view }) (fun _ => rfl)
      fun _ => rfl).copyListed (k := .bus) (n := n) (Copying.copyBus linked x) wl
    (fun t hi hnew => t.copyBus wl List.mem_cons_self (Or.inr hx) hi hnew)
    fun i hi y hy => t.notMem_of_owner hnew hi y (hother₁ .bus (by decide) ▸ hy)
  rw [hgates] at h₁
  rw [hbuses] at h₂
  refine ⟨x, g, c₁, c₂, hadd, hx, h₁, h₂, t₂, .of_node (records_node (g := g)) (fun k => ?_)
    (Graph.label?_of_group hm hk) (hkeep₂ _ _ ?_) (fun y l hl => hkeep₂ y l ?_) fun k hk' i hi => ?_⟩
  · by_cases hkb : k = .bus
    · subst hkb
      exact (hother₁ .bus (by decide)).symm ▸ hsub₂
    · rw [hother₂ k hkb]
      by_cases hkg : k = .gate
      · subst hkg
        exact hsub₁
      · exact (hother₁ k hkg).symm ▸ List.Subset.refl _
  · have hgroup := (t₁.alike (k := .node) List.mem_cons_self).2
    rw [hg] at hgroup
    obtain ⟨d, hd⟩ := Option.isSome_iff_exists.1 hgroup
    exact label?_modifyGroup (hkeep₁ _ _ hl₀) hd _
  · have hne : y ≠ x := fun he => by
      obtain ⟨m', hm', -⟩ := Option.map_eq_some_iff.1 hl
      rw [he] at hm'
      cases (IdMap.contains_of_get? hm').symm.trans habsent
    exact (label?_modifyNode_of_ne hne).trans (hkeep₁ y l (hkeep₀ y l hl))
  · obtain rfl | rfl := Graph.kind_of_listed_group hs hk' hi
    · obtain ⟨y, hy⟩ := hall₁ i hi
      exact ⟨y, hother₂ .gate (by decide) ▸ hy⟩
    · exact hall₂ i hi

mutual

/-- A node is copied with everything below it. -/
theorem Traced.copyNode (wb : base.WellFormed) (wl : linked.WellFormed) : (tree : Tree Id) →
    ∀ {o into : Id} {pending : List Id} {nodes : List (Id × Id)} {c : Copying},
      Traced linked base group added pending nodes c → linked.Spans tree → tree.values.Nodup →
      (∀ n ∈ tree.values, ∀ y, (n, y) ∉ nodes) → linked.parent? tree.value = some o →
      (o, into) ∈ nodes → (into = group ∨ base.nodes.contains into = false) →
      ∃ c' nodes', copyNode linked into tree c = .ok c' ∧
        Traced linked base group added pending nodes' c' ∧ Covers linked tree.values nodes c nodes' c'
  | .node n ts, o, into, pending, nodes, c, t, hspans, hnd, hnew, hn, hno, hinto => by
    obtain ⟨hlive, hchildren, hspans⟩ := hspans
    obtain ⟨m, hm⟩ := IdMap.contains_iff.1 hlive
    have hm : linked.node? n = some m := hm
    have hnewn := hnew n List.mem_cons_self
    cases hk : m.kind with
    | source s =>
      have hg := Graph.group?_of_source? (Graph.source?_of_kind hm hk)
      have hts : ts = [] := by
        rw [Graph.childIds_of_no_group hg] at hchildren
        exact List.map_eq_nil_iff.1 hchildren.symm
      subst hts
      exact t.copySource wb wl hm hk hn hno hinto hnewn []
    | group s =>
      obtain ⟨x, g, c₁, c₂, hadd, hx, h₁, h₂, t₂, hcover⟩ := t.openGroup wb wl hm hk hn hno hinto hnewn
      have hnd := List.nodup_cons.1 hnd
      obtain ⟨c₃, nodes₃, h₃, t₃, hcover₃⟩ := Traced.copyNodes wb wl ts t₂ hspans hnd.2
        (fun j hj y hy => by
          rcases List.mem_cons.1 hy with he | hy
          · cases he
            exact hnd.1 hj
          · exact hnew j (List.mem_cons_of_mem n hj) y hy)
        (fun tr htr => wl.tree.children.mem_iff.1 (hchildren ▸ List.mem_map_of_mem htr))
        List.mem_cons_self (Or.inr hx)
      refine ⟨Copying.finishNode m x c₃, nodes₃, ?_, t₃.finishNode hx m,
        (hcover.append hcover₃).finishNode m x⟩
      unfold Copying.copyNode
      refine bind_eq_ok.2 ⟨m, Graph.requireNode_of_node? hm, ?_⟩
      rw [hk]
      exact bind_eq_ok.2 ⟨(x, g), hadd, bind_eq_ok.2 ⟨c₁, h₁, bind_eq_ok.2 ⟨c₂, h₂,
        bind_eq_ok.2 ⟨c₃, h₃, rfl⟩⟩⟩⟩

theorem Traced.copyNodes (wb : base.WellFormed) (wl : linked.WellFormed) : (trees : List (Tree Id)) →
    ∀ {o into : Id} {pending : List Id} {nodes : List (Id × Id)} {c : Copying},
      Traced linked base group added pending nodes c → linked.SpansAll trees →
      (Tree.valuesOf trees).Nodup → (∀ n ∈ Tree.valuesOf trees, ∀ y, (n, y) ∉ nodes) →
      (∀ t ∈ trees, linked.parent? t.value = some o) →
      (o, into) ∈ nodes → (into = group ∨ base.nodes.contains into = false) →
      ∃ c' nodes', copyNodes linked into trees c = .ok c' ∧
        Traced linked base group added pending nodes' c' ∧
        Covers linked (Tree.valuesOf trees) nodes c nodes' c'
  | [], o, into, pending, nodes, c, t, _, _, _, _, _, _ => ⟨c, nodes, rfl, t, .refl linked nodes c⟩
  | tree :: trees, o, into, pending, nodes, c, t, hspans, hnd, hnew, hn, hno, hinto => by
    obtain ⟨hnd₁, hnd₂, hdisjoint⟩ := List.nodup_append.1 hnd
    obtain ⟨c₁, nodes₁, h₁, t₁, hcover₁⟩ := Traced.copyNode wb wl tree t hspans.1 hnd₁
      (fun n hn' => hnew n (List.mem_append_left _ hn')) (hn tree List.mem_cons_self) hno hinto
    obtain ⟨c₂, nodes₂, h₂, t₂, hcover₂⟩ := Traced.copyNodes wb wl trees t₁ hspans.2 hnd₂
      (fun n hn' y hy => by
        rcases hcover₁.only hy with hy | hv
        · exact hnew n (List.mem_append_right _ hn') y hy
        · exact hdisjoint n hv n hn' rfl)
      (fun tr htr => hn tr (List.mem_cons_of_mem tree htr)) (hcover₁.grown .node hno) hinto
    refine ⟨c₂, nodes₂, ?_, t₂, hcover₁.append hcover₂⟩
    rw [Copying.copyNodes, h₁]
    exact h₂

end

end Copying
end MessageGraph
