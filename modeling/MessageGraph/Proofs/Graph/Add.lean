import MessageGraph.Proofs.Except
import MessageGraph.Proofs.Graph.WellFormed
import MessageGraph.Graph.Edit

/-!
# Adding entities keeps a graph well-formed

Adding a node, pin, gate or bus takes an unused id, puts the entity under it and the id at the end of
one list of its owner. Each `addX_eq` says exactly that; each `WellFormed.addX` concludes from it.
-/
namespace MessageGraph

/-- A node that lists nothing yet. -/
structure Node.Blank (m : Node) : Prop where
  children : ∀ s, m.group? = some s → s.children = []
  gates : ∀ s, m.group? = some s → s.gates = []
  buses : ∀ s, m.group? = some s → s.buses = []
  pins : ∀ s, m.source? = some s → s.pins = []

namespace Graph

variable {g g' : Graph}

/-! ## Unused ids -/

/-- `n` names nothing, and a sequence that has come to `next` is past it. -/
structure Unused (g : Graph) (n next : Id) : Prop where
  absent : ∀ k, g.has k n = false
  le : g.nextId ≤ next
  lt : n < next

theorem IdsApart.unused_of_le (w : g.IdsApart) {n next : Id} (hn : g.nextId ≤ n) (hl : n < next) :
    g.Unused n next where
  absent k := by
    cases hk : g.has k n with
    | false => rfl
    | true => exact absurd (w.below hk) (Nat.not_lt.2 hn)
  le := Nat.le_trans hn (Nat.le_of_lt hl)
  lt := hl

theorem IdsApart.fresh (w : g.IdsApart) : g.Unused g.fresh.1 g.fresh.2.nextId :=
  w.unused_of_le (Nat.le_max_left _ _) (Nat.lt_succ_self _)

theorem IdsApart.claim (w : g.IdsApart) {id : Option Id} {n : Id} (h : g.claim id = .ok (n, g')) :
    ∃ next, g.Unused n next ∧ g' = { g with nextId := next } := by
  cases id with
  | none =>
    cases h
    exact ⟨_, w.fresh, rfl⟩
  | some id =>
    unfold Graph.claim at h
    simp only at h
    split at h
    · cases h
    · rename_i hfree
      simp only [Bool.or_eq_true, decide_eq_true_eq, not_or, Bool.not_eq_true] at hfree
      cases h
      refine ⟨_, ⟨isTaken_eq_false_iff.1 hfree.1, ?_, ?_⟩, rfl⟩ <;> unfold reserveAbove
      · split
        · rename_i hle; exact Nat.le_succ_of_le hle
        · exact Nat.le_refl _
      · split
        · exact Nat.lt_succ_self _
        · rename_i hlt; exact Nat.not_le.1 hlt

theorem IdsApart.add (w : g.IdsApart) {n : Id} (u : g.Unused n g'.nextId) (kind : EntityKind)
    (h : ∀ k i, g'.has k i = true ↔ g.has k i = true ∨ (k = kind ∧ i = n)) : g'.IdsApart where
  below := by
    intro k i hi
    rcases (h k i).1 hi with hi | ⟨-, rfl⟩
    · exact Nat.lt_of_lt_of_le (w.below hi) u.le
    · exact u.lt
  one_kind := by
    intro k k' i hi hi'
    rcases (h k i).1 hi with hi | ⟨rfl, rfl⟩ <;> rcases (h k' i).1 hi' with hi' | ⟨rfl, hn⟩
    · exact w.one_kind hi hi'
    · subst hn; rw [u.absent] at hi; cases hi
    · rw [u.absent] at hi'; cases hi'
    · rfl

/-- One graph has an entity more than the other, under an id that named nothing. -/
structure Adds (g : Graph) (kind : EntityKind) (n : Id) (g' : Graph) : Prop where
  absent : ∀ k, g.has k n = false
  has_iff : ∀ k i, g'.has k i = true ↔ g.has k i = true ∨ (k = kind ∧ i = n)

/-- What one graph has the other has too. -/
def Grows (g g' : Graph) : Prop := ∀ k i, g.has k i = true → g'.has k i = true

theorem Adds.grows {kind : EntityKind} {n : Id} (h : Adds g kind n g') : Grows g g' :=
  fun k i hk => (h.has_iff k i).2 (Or.inl hk)

/-! ## Look-ups of nodes after a change to one -/

theorem requireGroup_eq_ok {n : Id} {s : Group} : g.requireGroup n = .ok s ↔ g.group? n = some s := by
  unfold requireGroup group?
  cases hn : g.node? n with
  | none => simp
  | some m => cases hm : m.group? <;> simp [hm]

theorem requireSource_eq_ok {n : Id} {s : Source} :
    g.requireSource n = .ok s ↔ g.source? n = some s := by
  unfold requireSource source?
  cases hn : g.node? n with
  | none => simp
  | some m => cases hm : m.source? <;> simp [hm]

theorem contains_of_group? {n : Id} {s : Group} (h : g.group? n = some s) :
    g.nodes.contains n = true := by
  obtain ⟨m, hm, -⟩ := Option.bind_eq_some_iff.1 h
  exact IdMap.contains_of_get? hm

theorem contains_of_source? {n : Id} {s : Source} (h : g.source? n = some s) :
    g.nodes.contains n = true := by
  obtain ⟨m, hm, -⟩ := Option.bind_eq_some_iff.1 h
  exact IdMap.contains_of_get? hm

theorem contains_of_parent? {n p : Id} (h : g.parent? n = some p) : g.nodes.contains n = true := by
  obtain ⟨m, hm, -⟩ := Option.bind_eq_some_iff.1 h
  exact IdMap.contains_of_get? hm

theorem node?_of_absent {n : Id} (h : g.nodes.contains n = false) : g.node? n = none :=
  IdMap.contains_eq_false_iff.1 h

section Modify

variable (p i : Id)

theorem group?_modifyGroup (f : Group → Group) :
    (g.modifyGroup p f).group? i = if i = p then (g.group? i).map f else g.group? i := by
  show ((g.nodes.modify p _).get? i).bind Node.group? = _
  rw [IdMap.get?_modify]
  split
  · unfold group? node?
    cases g.nodes.get? i with
    | none => rfl
    | some m => cases hk : m.kind <;> simp [Node.group?, Node.mapGroup, hk]
  · rfl

theorem source?_modifyGroup (f : Group → Group) :
    (g.modifyGroup p f).source? i = g.source? i :=
  IdMap.bind_get?_modify fun m => by
    cases hk : m.kind <;> simp [Node.source?, Node.mapGroup, hk]

theorem parent?_modifyGroup (f : Group → Group) :
    (g.modifyGroup p f).parent? i = g.parent? i :=
  IdMap.bind_get?_modify fun m => by
    cases hk : m.kind <;> simp [Node.mapGroup, hk]

theorem source?_modifySource (f : Source → Source) :
    (g.modifyNode p (·.mapSource f)).source? i =
      if i = p then (g.source? i).map f else g.source? i := by
  show ((g.nodes.modify p _).get? i).bind Node.source? = _
  rw [IdMap.get?_modify]
  split
  · unfold source? node?
    cases g.nodes.get? i with
    | none => rfl
    | some m => cases hk : m.kind <;> simp [Node.source?, Node.mapSource, hk]
  · rfl

theorem group?_modifySource (f : Source → Source) :
    (g.modifyNode p (·.mapSource f)).group? i = g.group? i :=
  IdMap.bind_get?_modify fun m => by
    cases hk : m.kind <;> simp [Node.group?, Node.mapSource, hk]

theorem parent?_modifySource (f : Source → Source) :
    (g.modifyNode p (·.mapSource f)).parent? i = g.parent? i :=
  IdMap.bind_get?_modify fun m => by
    cases hk : m.kind <;> simp [Node.mapSource, hk]

theorem isSome_group?_modifyGroup {f : Group → Group} :
    ((g.modifyGroup p f).group? i).isSome = (g.group? i).isSome := by
  rw [group?_modifyGroup]
  split
  · rw [Option.isSome_map]
  · rfl

/-- A list of a group to which one id is added grows there and nowhere else. -/
theorem elim_group?_push (view : Group → List Id) {f : Group → Group} {n : Id} {s : Group}
    (hs : g.group? p = some s) (hf : ∀ s, view (f s) = view s ++ [n]) :
    ((g.modifyGroup p f).group? i).elim [] view =
      if i = p then (g.group? i).elim [] view ++ [n] else (g.group? i).elim [] view := by
  rw [group?_modifyGroup]
  split
  · rename_i he; subst he; rw [hs]; exact hf s
  · rfl

theorem elim_group?_keep {f : Group → Group} {view : Group → List Id}
    (hf : ∀ s, view (f s) = view s) :
    ((g.modifyGroup p f).group? i).elim [] view = (g.group? i).elim [] view := by
  rw [group?_modifyGroup]
  split
  · cases g.group? i with
    | none => rfl
    | some s => exact hf s
  · rfl

end Modify

/-- The graph with one more node; its parent does not list it yet. -/
def insertNode (g : Graph) (next n : Id) (m : Node) : Graph :=
  { g with nextId := next, nodes := g.nodes.insert n m }

section InsertNode

variable {next n : Id} {m : Node}

theorem group?_insertNode (i : Id) :
    (g.insertNode next n m).group? i = if i = n then m.group? else g.group? i := by
  show ((g.nodes.insert n m).get? i).bind Node.group? = _
  rw [IdMap.get?_insert]
  split <;> rfl

theorem source?_insertNode (i : Id) :
    (g.insertNode next n m).source? i = if i = n then m.source? else g.source? i := by
  show ((g.nodes.insert n m).get? i).bind Node.source? = _
  rw [IdMap.get?_insert]
  split <;> rfl

theorem parent?_insertNode (i : Id) :
    (g.insertNode next n m).parent? i = if i = n then m.parent else g.parent? i := by
  show ((g.nodes.insert n m).get? i).bind (·.parent) = _
  rw [IdMap.get?_insert]
  split <;> rfl

/-- A new node that lists nothing adds to no list. -/
theorem elim_group?_insertNode (hn : g.nodes.contains n = false) {view : Group → List Id}
    (hm : ∀ s, m.group? = some s → view s = []) (i : Id) :
    ((g.insertNode next n m).group? i).elim [] view = (g.group? i).elim [] view := by
  rw [group?_insertNode]
  split
  · rename_i he
    subst he
    have hg : g.group? i = none := by unfold group?; rw [node?_of_absent hn]; rfl
    rw [hg]
    cases hs : m.group? with
    | none => rfl
    | some s => exact hm s hs
  · rfl

theorem elim_source?_insertNode (hn : g.nodes.contains n = false)
    (hm : ∀ s, m.source? = some s → s.pins = []) (i : Id) :
    ((g.insertNode next n m).source? i).elim [] (·.pins) = (g.source? i).elim [] (·.pins) := by
  rw [source?_insertNode]
  split
  · rename_i he
    subst he
    have hg : g.source? i = none := by unfold source?; rw [node?_of_absent hn]; rfl
    rw [hg]
    cases hs : m.source? with
    | none => rfl
    | some s => exact hm s hs
  · rfl

end InsertNode

/-! ## Parts of well-formedness that an addition leaves alone -/

theorem IsTree.congr (w : g.IsTree) (hroot : g'.root = g.root)
    (hgroup : ∀ n, (g'.group? n).isSome = (g.group? n).isSome)
    (hparent : ∀ n, g'.parent? n = g.parent? n) (hchild : ∀ n, g'.childIds n = g.childIds n)
    (hlive : ∀ n, g'.nodes.contains n = g.nodes.contains n) : g'.IsTree where
  root_group := by
    obtain ⟨s, hs⟩ := w.root_group
    exact Option.isSome_iff_exists.1 (by rw [hroot, hgroup, hs]; rfl)
  root_top := by rw [hroot, hparent]; exact w.root_top
  children := w.children.congr hparent hchild
  rooted := by
    intro n hn
    rw [hlive] at hn
    unfold Below
    rw [hroot]
    simp only [hparent]
    exact w.rooted hn

theorem RoutesListed.congr (w : g.RoutesListed) (hlist : ∀ e, g'.routesOf e = g.routesOf e)
    (hroute : ∀ r, g'.route? r = g.route? r) : g'.RoutesListed where
  mem_iff := by
    intro e r
    unfold Ends
    rw [hlist, hroute]
    exact w.mem_iff
  nodup e := by rw [hlist]; exact w.nodup e
  differ := by intro r x hx; rw [hroute] at hx; exact w.differ hx

/-- What endpoints, buses and routes were there stay just as they were. -/
structure Extends (g g' : Graph) : Prop where
  root : g'.root = g.root
  pins : ∀ {i}, g.pins.contains i = true → g'.pin? i = g.pin? i
  gates : ∀ {i}, g.gates.contains i = true → g'.gate? i = g.gate? i
  buses : ∀ {i}, g.buses.contains i = true → g'.bus? i = g.bus? i
  tacks : ∀ i, g'.tack? i = g.tack? i
  routes : ∀ i, g'.route? i = g.route? i

namespace Extends

theorem across?_eq (h : Extends g g') (e : Endpoint) (r : Id) : g'.across? e r = g.across? e r := by
  unfold across?
  rw [h.routes]

theorem direction?_eq (h : Extends g g') {e : Endpoint} (he : g.contains e = true) :
    g'.direction? e = g.direction? e := by
  cases e with
  | pin i => simp only [direction?, h.pins he]
  | proxy i => simp only [direction?, h.gates he]
  | pad i => simp only [direction?, h.gates he]
  | tack i => simp only [direction?, h.tacks]

theorem name?_eq (h : Extends g g') {e : Endpoint} (he : g.contains e = true) :
    g'.name? e = g.name? e := by
  cases e with
  | pin i => simp only [name?, h.pins he]
  | proxy i => simp only [name?, h.gates he]
  | pad i => simp only [name?, h.gates he]
  | tack i => simp only [name?, h.tacks]

theorem routesOf_eq (h : Extends g g') {e : Endpoint} (he : g.contains e = true) :
    g'.routesOf e = g.routesOf e := by
  cases e with
  | pin i => simp only [routesOf, h.pins he]
  | proxy i => simp only [routesOf, h.gates he]
  | pad i => simp only [routesOf, h.gates he]
  | tack i => simp only [routesOf, h.tacks]

theorem channel?_eq (h : Extends g g') {e : Endpoint} (he : g.contains e = true) :
    g'.channel? e = g.channel? e := by
  cases e with
  | pin i => simp only [channel?, h.pins he]
  | proxy i => simp only [channel?, h.gates he]
  | pad i => simp only [channel?, h.gates he]
  | tack i => rfl

theorem faced (h : Extends g g') (w : g.Faced) : g'.Faced := by
  intro t k hk
  have hk' := hk
  rw [h.tacks] at hk
  exact (w _ _ hk).congr hk' (h.across?_eq _ _) (fun e _ => h.direction?_eq) fun e _ => h.name?_eq

theorem opposed (h : Extends g g') (w : g.WellFormed) : g'.TopOpposed := by
  refine w.opposed.congr h.root fun gate p' route far hp' _ hfar => ?_
  rw [h.across?_eq] at hfar
  obtain ⟨hpad, hlive⟩ := w.contains_of_across? hfar
  rw [h.gates hpad] at hp'
  exact ⟨hfar, h.direction?_eq hlive, p', hp', rfl, rfl⟩

end Extends

/-! ## Nodes -/

/-- The graph with one more node, the last child of its parent. -/
def insertChild (g : Graph) (next n parent : Id) (m : Node) : Graph :=
  (g.insertNode next n m).modifyGroup parent fun s => { s with children := s.children ++ [n] }

theorem addNode_eq (w : g.IdsApart) {id : Option Id} {parent n : Id} {name : String}
    {kind : NodeKind} (h : g.addNode id parent name kind = .ok (n, g')) :
    ∃ s next, g.group? parent = some s ∧ g.Unused n next ∧
      g' = g.insertChild next n parent { name, parent := some parent, kind } := by
  obtain ⟨s, hs, h⟩ := bind_eq_ok.1 h
  obtain ⟨⟨m, g₁⟩, hc, h⟩ := bind_eq_ok.1 h
  obtain ⟨next, u, rfl⟩ := w.claim hc
  cases h
  exact ⟨s, next, requireGroup_eq_ok.1 hs, u, rfl⟩

section InsertChild

variable {next n parent : Id} {m : Node}

theorem has_insertChild (k : EntityKind) (i : Id) :
    (g.insertChild next n parent m).has k i = true ↔ g.has k i = true ∨ (k = .node ∧ i = n) := by
  cases k with
  | node =>
    show ((g.nodes.insert n m).modify parent _).contains i = true ↔ _
    rw [IdMap.contains_modify, IdMap.contains_insert, or_comm]
    simp [has]
  | _ => simp [has, insertChild, insertNode, modifyGroup, modifyNode]

theorem isSome_group?_insertChild (i : Id) : ((g.insertChild next n parent m).group? i).isSome =
    if i = n then m.group?.isSome else (g.group? i).isSome := by
  rw [insertChild, isSome_group?_modifyGroup, group?_insertNode]
  split <;> rfl

theorem parent?_insertChild (hm : m.parent = some parent) (i : Id) :
    (g.insertChild next n parent m).parent? i = if i = n then some parent else g.parent? i := by
  rw [insertChild, parent?_modifyGroup, parent?_insertNode, hm]

theorem ne_of_group? {s : Group} (hs : g.group? parent = some s) (hn : g.nodes.contains n = false) :
    parent ≠ n := by
  rintro rfl
  rw [contains_of_group? hs] at hn
  cases hn

theorem childIds_insertChild {s : Group} (hs : g.group? parent = some s)
    (hn : g.nodes.contains n = false) (blank : m.Blank) (i : Id) :
    (g.insertChild next n parent m).childIds i =
      if i = parent then g.childIds i ++ [n] else g.childIds i := by
  have hs' : (g.insertNode next n m).group? parent = some s := by
    rw [group?_insertNode, if_neg (ne_of_group? hs hn)]
    exact hs
  refine (elim_group?_push parent i Group.children hs' fun _ => rfl).trans ?_
  rw [elim_group?_insertNode hn blank.children]
  rfl

/-- The lists of a group besides its children are as they were. -/
theorem elim_group?_insertChild (hn : g.nodes.contains n = false) {view : Group → List Id}
    (hview : ∀ s : Group, view { s with children := s.children ++ [n] } = view s)
    (hm : ∀ s, m.group? = some s → view s = []) (i : Id) :
    ((g.insertChild next n parent m).group? i).elim [] view = (g.group? i).elim [] view :=
  (elim_group?_keep parent i hview).trans (elim_group?_insertNode hn hm i)

theorem gateIds_insertChild (hn : g.nodes.contains n = false) (blank : m.Blank) (i : Id) :
    (g.insertChild next n parent m).gateIds i = g.gateIds i :=
  elim_group?_insertChild hn (fun _ => rfl) blank.gates i

theorem busIds_insertChild (hn : g.nodes.contains n = false) (blank : m.Blank) (i : Id) :
    (g.insertChild next n parent m).busIds i = g.busIds i :=
  elim_group?_insertChild hn (fun _ => rfl) blank.buses i

theorem pinIds_insertChild (hn : g.nodes.contains n = false) (blank : m.Blank) (i : Id) :
    (g.insertChild next n parent m).pinIds i = g.pinIds i := by
  unfold pinIds insertChild
  rw [source?_modifyGroup]
  exact elim_source?_insertNode hn blank.pins i

end InsertChild

theorem addNode_adds (w : g.IdsApart) {id : Option Id} {parent n : Id} {name : String}
    {kind : NodeKind} (h : g.addNode id parent name kind = .ok (n, g')) : Adds g .node n g' := by
  obtain ⟨s, next, -, u, rfl⟩ := addNode_eq w h
  exact ⟨u.absent, has_insertChild⟩

theorem addNode_extends (w : g.IdsApart) {id : Option Id} {parent n : Id} {name : String}
    {kind : NodeKind} (h : g.addNode id parent name kind = .ok (n, g')) : Extends g g' := by
  obtain ⟨s, next, -, -, rfl⟩ := addNode_eq w h
  exact ⟨rfl, fun _ => rfl, fun _ => rfl, fun _ => rfl, fun _ => rfl, fun _ => rfl⟩

/-- A node that was below the top is so still, since no old node changes its parent. -/
theorem below_insertChild {next n parent : Id} {m : Node} (hn : g.nodes.contains n = false)
    (hm : m.parent = some parent) {i : Id} (hi : g.Below i g.root) :
    (g.insertChild next n parent m).Below i g.root := by
  refine Relation.ReflTransGen.mono (fun c q hc => ?_) _ _ hi
  have hne : c ≠ n := by
    rintro rfl
    rw [contains_of_parent? hc] at hn
    cases hn
  rw [parent?_insertChild hm, if_neg hne]
  exact hc

/-- A new node is a leaf of the tree: the last child of its parent. -/
theorem IsTree.insertChild (w : g.IsTree) {next n parent : Id} {m : Node} {s : Group}
    (hs : g.group? parent = some s) (hn : g.nodes.contains n = false)
    (hm : m.parent = some parent) (blank : m.Blank) : (g.insertChild next n parent m).IsTree := by
  obtain ⟨t, ht⟩ := w.root_group
  have hroot : g.root ≠ n := ne_of_group? ht hn
  refine ⟨?_, ?_, ?_, fun {i} hi => ?_⟩
  · show ∃ t, (g.insertChild next n parent m).group? g.root = some t
    rw [← Option.isSome_iff_exists, isSome_group?_insertChild, if_neg hroot, ht]
    rfl
  · show (g.insertChild next n parent m).parent? g.root = none
    rw [parent?_insertChild hm, if_neg hroot]
    exact w.root_top
  · refine w.children.add (x := n) (o := parent) ?_ (parent?_insertChild hm)
      (childIds_insertChild hs hn blank)
    unfold parent?
    rw [node?_of_absent hn]
    rfl
  · show (g.insertChild next n parent m).Below i g.root
    rcases (has_insertChild .node i).1 hi with hi | ⟨-, rfl⟩
    · exact below_insertChild hn hm (w.rooted hi)
    · refine Relation.ReflTransGen.head ?_ (below_insertChild hn hm (w.rooted (contains_of_group? hs)))
      rw [parent?_insertChild hm, if_pos rfl]

/-- A new node has nothing in it. -/
theorem WellFormed.insertChild (w : g.WellFormed) {next n parent : Id} {m : Node} {s : Group}
    (hs : g.group? parent = some s) (u : g.Unused n next) (hm : m.parent = some parent)
    (blank : m.Blank) : (g.insertChild next n parent m).WellFormed where
  ids := w.ids.add u .node (has_insertChild ·)
  tree := w.tree.insertChild hs (u.absent .node) hm blank
  pins := w.pins.congr (fun _ => rfl) (pinIds_insertChild (u.absent .node) blank)
  gates := w.gates.congr (fun _ => rfl) (gateIds_insertChild (u.absent .node) blank)
  buses := w.buses.congr (fun _ => rfl) (busIds_insertChild (u.absent .node) blank)
  tacks := w.tacks
  routes := ⟨w.routes.mem_iff, w.routes.nodup, w.routes.differ⟩
  faced := w.faced
  names := ⟨w.names.pins, w.names.gates⟩
  opposed := w.opposed

theorem WellFormed.addGroup (w : g.WellFormed) {id : Option Id} {parent n : Id} {name : String}
    (h : g.addGroup id parent name = .ok (n, g')) : g'.WellFormed := by
  obtain ⟨s, next, hs, u, rfl⟩ := addNode_eq w.ids h
  refine w.insertChild hs u rfl ⟨?_, ?_, ?_, ?_⟩ <;> intro t ht <;> cases ht <;> rfl

theorem isSome_group?_addGroup (w : g.IdsApart) {id : Option Id} {parent n : Id} {name : String}
    (h : g.addGroup id parent name = .ok (n, g')) : (g'.group? n).isSome = true := by
  obtain ⟨s, next, -, -, rfl⟩ := addNode_eq w h
  rw [isSome_group?_insertChild, if_pos rfl]
  rfl

theorem WellFormed.addSource (w : g.WellFormed) {id : Option Id} {parent n : Id} {name : String}
    {behavior : BehaviorRef} (h : g.addSource id parent name behavior = .ok (n, g')) :
    g'.WellFormed := by
  obtain ⟨s, next, hs, u, rfl⟩ := addNode_eq w.ids h
  refine w.insertChild hs u rfl ⟨?_, ?_, ?_, ?_⟩ <;> intro t ht <;> cases ht
  rfl

/-! ## Pins -/

/-- The graph with one more pin, listed by its source. -/
def insertPin (g : Graph) (next n : Id) (p : Pin) : Graph :=
  { g with nextId := next, pins := g.pins.insert n p }.modifyNode p.node
    (·.mapSource fun s => { s with pins := s.pins ++ [n] })

theorem addPin_eq {node n : Id} {name : String} {direction : Direction} {channel : Bool}
    (h : g.addPin node name direction channel = .ok (n, g')) :
    ∃ s, g.source? node = some s ∧ g.findPin? node name direction = none ∧ n = g.fresh.1 ∧
      g' = g.insertPin g.fresh.2.nextId n { node, name, direction, channel } := by
  obtain ⟨s, hs, h⟩ := bind_eq_ok.1 h
  cases hf : g.findPin? node name direction with
  | some i => simp [hf, bind, Except.bind, throw, throwThe, MonadExceptOf.throw] at h
  | none =>
    rw [hf] at h
    cases h
    exact ⟨s, requireSource_eq_ok.1 hs, rfl, rfl, rfl⟩

section InsertPin

variable {next n : Id} {p : Pin}

theorem has_insertPin (k : EntityKind) (i : Id) :
    (g.insertPin next n p).has k i = true ↔ g.has k i = true ∨ (k = .pin ∧ i = n) := by
  cases k with
  | node => simp [has, insertPin, modifyNode, IdMap.contains_modify]
  | pin => simp [has, insertPin, modifyNode, IdMap.contains_insert, or_comm]
  | _ => simp [has, insertPin, modifyNode]

theorem pin?_insertPin (i : Id) :
    (g.insertPin next n p).pin? i = if i = n then some p else g.pin? i :=
  IdMap.get?_insert _ _ _ _

theorem pinIds_insertPin {s : Source} (hs : g.source? p.node = some s) (i : Id) :
    (g.insertPin next n p).pinIds i = if i = p.node then g.pinIds i ++ [n] else g.pinIds i := by
  unfold pinIds Graph.insertPin
  rw [source?_modifySource]
  split
  · rename_i he
    have hs' : g.source? i = some s := by rw [he]; exact hs
    show ((g.source? i).map _).elim [] _ = (g.source? i).elim [] _ ++ [n]
    rw [hs']
    rfl
  · rfl

theorem insertPin_extends (hn : g.pins.contains n = false) : Extends g (g.insertPin next n p) where
  root := rfl
  pins := by
    intro i hi
    rw [pin?_insertPin, if_neg]
    intro he
    rw [he, hn] at hi
    cases hi
  gates _ := rfl
  buses _ := rfl
  tacks _ := rfl
  routes _ := rfl

theorem routesOf_insertPin (hn : g.pins.contains n = false) (hp : p.routes = []) (e : Endpoint) :
    (g.insertPin next n p).routesOf e = g.routesOf e := by
  cases e with
  | pin i =>
    simp only [routesOf, pin?_insertPin]
    split
    · rename_i he
      rw [he, show g.pin? n = none from IdMap.contains_eq_false_iff.1 hn]
      exact hp
    · rfl
  | _ => rfl

end InsertPin

theorem addPin_adds (w : g.IdsApart) {node n : Id} {name : String} {direction : Direction}
    {channel : Bool} (h : g.addPin node name direction channel = .ok (n, g')) :
    Adds g .pin n g' := by
  obtain ⟨s, -, -, rfl, rfl⟩ := addPin_eq h
  exact ⟨w.fresh.absent, has_insertPin⟩

theorem addPin_extends (w : g.IdsApart) {node n : Id} {name : String} {direction : Direction}
    {channel : Bool} (h : g.addPin node name direction channel = .ok (n, g')) : Extends g g' := by
  obtain ⟨s, -, -, rfl, rfl⟩ := addPin_eq h
  exact insertPin_extends (w.fresh.absent .pin)

/-- What `findPin?` does not find is not among the pins of the source. -/
theorem findPin?_eq_none (w : Owned g.pinOwner? g.pinIds) {node : Id} {name : String}
    {direction : Direction} (h : g.findPin? node name direction = none) {i : Id} {p : Pin}
    (hp : g.pin? i = some p) (hnode : p.node = node) (hname : p.name = name)
    (hdir : p.direction = direction) : False := by
  have hmem : i ∈ g.pinIds node := w.mem_iff.2 (by simp [pinOwner?, hp, hnode])
  unfold pinIds at hmem
  unfold findPin? at h
  cases hs : g.source? node with
  | none => rw [hs] at hmem; cases hmem
  | some s =>
    rw [hs] at h hmem
    have hi := List.find?_eq_none.1 h i hmem
    simp [hp, hname, hdir] at hi

/-- What `findPin?` finds is a pin of the source with that name and direction. -/
theorem pin_of_findPin? (w : Owned g.pinOwner? g.pinIds) {node i : Id} {name : String}
    {direction : Direction} (h : g.findPin? node name direction = some i) :
    ∃ p, g.pin? i = some p ∧ p.node = node ∧ p.name = name ∧ p.direction = direction := by
  obtain ⟨s, hs, hfind⟩ := Option.bind_eq_some_iff.1 h
  have hmem : i ∈ g.pinIds node := by
    unfold pinIds
    rw [hs]
    exact List.mem_of_find?_eq_some hfind
  obtain ⟨p, hp, hnode⟩ := Option.map_eq_some_iff.1 (w.mem_iff.1 hmem)
  have hpin := List.find?_some hfind
  rw [hp] at hpin
  simp only [Bool.and_eq_true, decide_eq_true_eq] at hpin
  exact ⟨p, hp, hnode, hpin⟩

/-- Adding one pin that has no routes yet and whose name no pin of its source has. -/
theorem WellFormed.insertPin (w : g.WellFormed) {next n : Id} {p : Pin} {s : Source}
    (hs : g.source? p.node = some s) (u : g.Unused n next) (hroutes : p.routes = [])
    (hname : ∀ {i q}, g.pin? i = some q → q.node = p.node → q.name = p.name →
      q.direction = p.direction → False) : (g.insertPin next n p).WellFormed := by
  have hn : g.pins.contains n = false := u.absent .pin
  have hext : Extends g (g.insertPin next n p) := insertPin_extends hn
  refine
    { ids := w.ids.add u .pin has_insertPin
      tree := w.tree.congr rfl (fun i => ?_) (fun i => parent?_modifySource _ i _) (fun i => ?_)
        fun i => IdMap.contains_modify
      pins := w.pins.add (x := n) (o := p.node) ?_ (fun i => ?_) (pinIds_insertPin hs)
      gates := w.gates.congr (fun _ => rfl) fun i => ?_
      buses := w.buses.congr (fun _ => rfl) fun i => ?_
      tacks := w.tacks
      routes := w.routes.congr (routesOf_insertPin hn hroutes) fun _ => rfl
      faced := hext.faced w.faced
      names := ⟨?_, w.names.gates⟩
      opposed := hext.opposed w }
  · exact congrArg Option.isSome (group?_modifySource _ i _)
  · exact congrArg (fun o : Option Group => o.elim [] (·.children)) (group?_modifySource _ i _)
  · unfold pinOwner?
    rw [show g.pin? n = none from IdMap.contains_eq_false_iff.1 hn]
    rfl
  · unfold pinOwner?
    rw [pin?_insertPin]
    split <;> rfl
  · exact congrArg (fun o : Option Group => o.elim [] (·.gates)) (group?_modifySource _ i _)
  · exact congrArg (fun o : Option Group => o.elim [] (·.buses)) (group?_modifySource _ i _)
  · intro i j q r hi hj hnode hnm hdir
    rw [pin?_insertPin] at hi hj
    split at hi <;> split at hj
    · rename_i e₁ e₂; exact e₁.trans e₂.symm
    · cases hi; exact (hname hj hnode.symm hnm.symm hdir.symm).elim
    · cases hj; exact (hname hi hnode hnm hdir).elim
    · exact w.names.pins hi hj hnode hnm hdir

theorem WellFormed.addPin (w : g.WellFormed) {node n : Id} {name : String} {direction : Direction}
    {channel : Bool} (h : g.addPin node name direction channel = .ok (n, g')) : g'.WellFormed := by
  obtain ⟨s, hs, hfind, rfl, rfl⟩ := addPin_eq h
  exact w.insertPin (p := { node, name, direction, channel }) hs w.ids.fresh rfl
    fun hq hnode hname hdir => findPin?_eq_none w.pins hfind hq hnode hname hdir

/-! ## Gates -/

/-- The graph with one more gate, listed by its group. -/
def insertGate (g : Graph) (next n : Id) (p : Gate) : Graph :=
  { g with nextId := next, gates := g.gates.insert n p }.modifyGroup p.group fun s =>
    { s with gates := s.gates ++ [n] }

theorem addGate_eq {group n : Id} {name : String} {direction : Direction} {channel : Bool}
    (h : g.addGate group name direction channel = .ok (n, g')) :
    ∃ s, g.group? group = some s ∧ g.findGate? group name = none ∧ n = g.fresh.1 ∧
      g' = g.insertGate g.fresh.2.nextId n { group, name, direction, channel } := by
  obtain ⟨s, hs, h⟩ := bind_eq_ok.1 h
  cases hf : g.findGate? group name with
  | some i => simp [hf, bind, Except.bind, throw, throwThe, MonadExceptOf.throw] at h
  | none =>
    rw [hf] at h
    cases h
    exact ⟨s, requireGroup_eq_ok.1 hs, rfl, rfl, rfl⟩

section InsertGate

variable {next n : Id} {p : Gate}

theorem has_insertGate (k : EntityKind) (i : Id) :
    (g.insertGate next n p).has k i = true ↔ g.has k i = true ∨ (k = .gate ∧ i = n) := by
  cases k with
  | node => simp [has, insertGate, modifyGroup, modifyNode, IdMap.contains_modify]
  | gate => simp [has, insertGate, modifyGroup, modifyNode, IdMap.contains_insert, or_comm]
  | _ => simp [has, insertGate, modifyGroup, modifyNode]

theorem gate?_insertGate (i : Id) :
    (g.insertGate next n p).gate? i = if i = n then some p else g.gate? i :=
  IdMap.get?_insert _ _ _ _

theorem insertGate_extends (hn : g.gates.contains n = false) :
    Extends g (g.insertGate next n p) where
  root := rfl
  pins _ := rfl
  gates := by
    intro i hi
    rw [gate?_insertGate, if_neg]
    intro he
    rw [he, hn] at hi
    cases hi
  buses _ := rfl
  tacks _ := rfl
  routes _ := rfl

theorem routesOf_insertGate (hn : g.gates.contains n = false) (hpad : p.padRoutes = [])
    (hproxy : p.proxyRoutes = []) (e : Endpoint) :
    (g.insertGate next n p).routesOf e = g.routesOf e := by
  have hnone : g.gate? n = none := IdMap.contains_eq_false_iff.1 hn
  cases e with
  | proxy i =>
    simp only [routesOf, gate?_insertGate]
    split
    · rename_i he; rw [he, hnone]; exact hproxy
    · rfl
  | pad i =>
    simp only [routesOf, gate?_insertGate]
    split
    · rename_i he; rw [he, hnone]; exact hpad
    · rfl
  | _ => rfl

end InsertGate

theorem addGate_adds (w : g.IdsApart) {group n : Id} {name : String} {direction : Direction}
    {channel : Bool} (h : g.addGate group name direction channel = .ok (n, g')) :
    Adds g .gate n g' := by
  obtain ⟨s, -, -, rfl, rfl⟩ := addGate_eq h
  exact ⟨w.fresh.absent, has_insertGate⟩

theorem addGate_extends (w : g.IdsApart) {group n : Id} {name : String} {direction : Direction}
    {channel : Bool} (h : g.addGate group name direction channel = .ok (n, g')) : Extends g g' := by
  obtain ⟨s, -, -, rfl, rfl⟩ := addGate_eq h
  exact insertGate_extends (w.fresh.absent .gate)

/-- What `findGate?` does not find is not among the gates of the group. -/
theorem findGate?_eq_none (w : Owned g.gateOwner? g.gateIds) {group : Id} {name : String}
    (h : g.findGate? group name = none) {i : Id} {p : Gate} (hp : g.gate? i = some p)
    (hgroup : p.group = group) (hname : p.name = name) : False := by
  have hmem : i ∈ g.gateIds group := w.mem_iff.2 (by simp [gateOwner?, hp, hgroup])
  unfold gateIds at hmem
  unfold findGate? at h
  cases hs : g.group? group with
  | none => rw [hs] at hmem; cases hmem
  | some s =>
    rw [hs] at h hmem
    have hi := List.find?_eq_none.1 h i hmem
    simp [hp, hname] at hi

/-- What `findGate?` finds is a gate of the group with that name. -/
theorem gate_of_findGate? (w : Owned g.gateOwner? g.gateIds) {group i : Id} {name : String}
    (h : g.findGate? group name = some i) :
    ∃ p, g.gate? i = some p ∧ p.group = group ∧ p.name = name := by
  obtain ⟨s, hs, hfind⟩ := Option.bind_eq_some_iff.1 h
  have hmem : i ∈ g.gateIds group := by
    unfold gateIds
    rw [hs]
    exact List.mem_of_find?_eq_some hfind
  obtain ⟨p, hp, hgroup⟩ := Option.map_eq_some_iff.1 (w.mem_iff.1 hmem)
  have hname := List.find?_some hfind
  rw [hp] at hname
  exact ⟨p, hp, hgroup, by simpa using hname⟩

/-- Adding one gate that has no routes yet and whose name no gate of its group has. -/
theorem WellFormed.insertGate (w : g.WellFormed) {next n : Id} {p : Gate} {s : Group}
    (hs : g.group? p.group = some s) (u : g.Unused n next) (hpad : p.padRoutes = [])
    (hproxy : p.proxyRoutes = [])
    (hname : ∀ {i q}, g.gate? i = some q → q.group = p.group → q.name = p.name → False) :
    (g.insertGate next n p).WellFormed := by
  have hn : g.gates.contains n = false := u.absent .gate
  have hext : Extends g (g.insertGate next n p) := insertGate_extends hn
  refine
    { ids := w.ids.add u .gate has_insertGate
      tree := w.tree.congr rfl (fun i => isSome_group?_modifyGroup _ i)
        (fun i => parent?_modifyGroup _ i _) (fun i => elim_group?_keep _ i (by intro t; rfl))
        fun i => IdMap.contains_modify
      pins := w.pins.congr (fun _ => rfl) fun i => ?_
      gates := w.gates.add (x := n) (o := p.group) ?_ (fun i => ?_)
        fun i => elim_group?_push _ i Group.gates hs (by intro t; rfl)
      buses := w.buses.congr (fun _ => rfl) fun i => elim_group?_keep _ i (by intro t; rfl)
      tacks := w.tacks
      routes := w.routes.congr (routesOf_insertGate hn hpad hproxy) fun _ => rfl
      faced := hext.faced w.faced
      names := ⟨w.names.pins, ?_⟩
      opposed := hext.opposed w }
  · exact congrArg (fun o : Option Source => o.elim [] (·.pins)) (source?_modifyGroup _ i _)
  · unfold gateOwner?
    rw [show g.gate? n = none from IdMap.contains_eq_false_iff.1 hn]
    rfl
  · unfold gateOwner?
    rw [gate?_insertGate]
    split <;> rfl
  · intro i j q r hi hj hgroup hnm
    rw [gate?_insertGate] at hi hj
    split at hi <;> split at hj
    · rename_i e₁ e₂; exact e₁.trans e₂.symm
    · cases hi; exact (hname hj hgroup.symm hnm.symm).elim
    · cases hj; exact (hname hi hgroup hnm).elim
    · exact w.names.gates hi hj hgroup hnm

theorem WellFormed.addGate (w : g.WellFormed) {group n : Id} {name : String}
    {direction : Direction} {channel : Bool}
    (h : g.addGate group name direction channel = .ok (n, g')) : g'.WellFormed := by
  obtain ⟨s, hs, hfind, rfl, rfl⟩ := addGate_eq h
  exact w.insertGate (p := { group, name, direction, channel }) hs w.ids.fresh rfl rfl
    fun hq hgroup hname => findGate?_eq_none w.gates hfind hq hgroup hname

/-! ## Buses -/

/-- The graph with one more bus, listed by its group. -/
def insertBus (g : Graph) (next n : Id) (b : Bus) : Graph :=
  { g with nextId := next, buses := g.buses.insert n b }.modifyGroup b.group fun s =>
    { s with buses := s.buses ++ [n] }

theorem addBus_eq (w : g.IdsApart) {id : Option Id} {group n : Id} {name : String}
    {filter : Option BehaviorRef} (h : g.addBus id group name filter = .ok (n, g')) :
    ∃ s next, g.group? group = some s ∧ g.Unused n next ∧
      g' = g.insertBus next n { group, name, filter } := by
  obtain ⟨s, hs, h⟩ := bind_eq_ok.1 h
  obtain ⟨⟨m, g₁⟩, hc, h⟩ := bind_eq_ok.1 h
  obtain ⟨next, u, rfl⟩ := w.claim hc
  cases h
  exact ⟨s, next, requireGroup_eq_ok.1 hs, u, rfl⟩

section InsertBus

variable {next n : Id} {b : Bus}

theorem has_insertBus (k : EntityKind) (i : Id) :
    (g.insertBus next n b).has k i = true ↔ g.has k i = true ∨ (k = .bus ∧ i = n) := by
  cases k with
  | node => simp [has, insertBus, modifyGroup, modifyNode, IdMap.contains_modify]
  | bus => simp [has, insertBus, modifyGroup, modifyNode, IdMap.contains_insert, or_comm]
  | _ => simp [has, insertBus, modifyGroup, modifyNode]

theorem bus?_insertBus (i : Id) :
    (g.insertBus next n b).bus? i = if i = n then some b else g.bus? i :=
  IdMap.get?_insert _ _ _ _

theorem insertBus_extends (hn : g.buses.contains n = false) : Extends g (g.insertBus next n b) where
  root := rfl
  pins _ := rfl
  gates _ := rfl
  buses := by
    intro i hi
    rw [bus?_insertBus, if_neg]
    intro he
    rw [he, hn] at hi
    cases hi
  tacks _ := rfl
  routes _ := rfl

theorem routesOf_insertBus (e : Endpoint) : (g.insertBus next n b).routesOf e = g.routesOf e := by
  cases e <;> rfl

end InsertBus

theorem addBus_adds (w : g.IdsApart) {id : Option Id} {group n : Id} {name : String}
    {filter : Option BehaviorRef} (h : g.addBus id group name filter = .ok (n, g')) :
    Adds g .bus n g' := by
  obtain ⟨s, next, -, u, rfl⟩ := addBus_eq w h
  exact ⟨u.absent, has_insertBus⟩

theorem addBus_extends (w : g.IdsApart) {id : Option Id} {group n : Id} {name : String}
    {filter : Option BehaviorRef} (h : g.addBus id group name filter = .ok (n, g')) :
    Extends g g' := by
  obtain ⟨s, next, -, u, rfl⟩ := addBus_eq w h
  exact insertBus_extends (u.absent .bus)

/-- Adding one bus that has no tacks yet. -/
theorem WellFormed.insertBus (w : g.WellFormed) {next n : Id} {b : Bus} {s : Group}
    (hs : g.group? b.group = some s) (u : g.Unused n next) (htacks : b.tacks = []) :
    (g.insertBus next n b).WellFormed := by
  have hn : g.buses.contains n = false := u.absent .bus
  have hnone : g.bus? n = none := IdMap.contains_eq_false_iff.1 hn
  have hext : Extends g (g.insertBus next n b) := insertBus_extends hn
  refine
    { ids := w.ids.add u .bus has_insertBus
      tree := w.tree.congr rfl (fun i => isSome_group?_modifyGroup _ i)
        (fun i => parent?_modifyGroup _ i _) (fun i => elim_group?_keep _ i (by intro t; rfl))
        fun i => IdMap.contains_modify
      pins := w.pins.congr (fun _ => rfl) fun i => ?_
      gates := w.gates.congr (fun _ => rfl) fun i => elim_group?_keep _ i (by intro t; rfl)
      buses := w.buses.add (x := n) (o := b.group) ?_ (fun i => ?_)
        fun i => elim_group?_push _ i Group.buses hs (by intro t; rfl)
      tacks := w.tacks.congr (fun _ => rfl) fun i => ?_
      routes := w.routes.congr routesOf_insertBus fun _ => rfl
      faced := hext.faced w.faced
      names := ⟨w.names.pins, w.names.gates⟩
      opposed := hext.opposed w }
  · exact congrArg (fun o : Option Source => o.elim [] (·.pins)) (source?_modifyGroup _ i _)
  · unfold busOwner?
    rw [hnone]
    rfl
  · unfold busOwner?
    rw [bus?_insertBus]
    split <;> rfl
  · unfold tackIds
    rw [bus?_insertBus]
    split
    · rename_i he; rw [he, hnone]; exact htacks
    · rfl

theorem WellFormed.addBus (w : g.WellFormed) {id : Option Id} {group n : Id} {name : String}
    {filter : Option BehaviorRef} (h : g.addBus id group name filter = .ok (n, g')) :
    g'.WellFormed := by
  obtain ⟨s, next, hs, u, rfl⟩ := addBus_eq w.ids h
  exact w.insertBus (b := { group, name, filter }) hs u rfl

end Graph
end MessageGraph
