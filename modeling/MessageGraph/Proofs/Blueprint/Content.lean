import MessageGraph.Proofs.Blueprint.Copy

/-!
# Copying the content of a model

Before nodes are copied, each top-level gate of the linked graph is bound to the gate of its name
(`Traced.bindGate`); those that the group lacks are added in their order (`unclaimed`). After that the buses of
the top-level group and all nodes below it are copied. So nothing of a well-formed graph is left out, and
nothing fails (`exists_content`).
-/
namespace MessageGraph

/-- What a group gets for a top-level gate of a linked graph: it is drawn nowhere yet. -/
def Gate.bound (p : Gate) (group : Id) : Gate := { p.unrouted.bare with group := group }

/-- Those of some gates whose names none of some other gates has, as gates of a group. -/
def unclaimed (group : Id) (declared gates : List Gate) : List Gate :=
  (gates.filter fun p => !declared.any (·.name = p.name)).map (·.bound group)

/-- A copy is complete: every node, pin, gate and bus of the linked graph has one. -/
def Copying.Complete (linked : Graph) (nodes : List (Id × Id)) (c : Copying) : Prop :=
  ∀ {k i}, k ≠ .tack → k ≠ .route → linked.has k i = true → ∃ x, (i, x) ∈ c.copies nodes k

/-- Every node below the top-level group has the label of the node that it stands for. -/
def Copying.Labelled (linked : Graph) (nodes : List (Id × Id)) (c : Copying) : Prop :=
  ∀ n x, (n, x) ∈ nodes → n ≠ linked.root → c.graph.label? x = linked.label? n

namespace Copying

variable {linked base : Graph} {group n i x : Id} {added : List Gate} {pending : List Id}
  {nodes : List (Id × Id)} {c c' : Copying}

/-- Before anything is copied the group stands for the top-level group. -/
theorem traced_start (wb : base.WellFormed) (wl : linked.WellFormed) {s : Group}
    (hs : base.group? group = some s) :
    Traced linked base group [] [] [(linked.root, group)] { graph := base } := by
  obtain ⟨top, htop⟩ := wl.tree.root_group
  have hcopies : ∀ {k i x}, (i, x) ∈ copies { graph := base } [(linked.root, group)] k →
      k = .node ∧ i = linked.root ∧ x = group := by
    intro k i x h
    cases k with
    | node =>
      cases List.mem_singleton.1 h
      exact ⟨rfl, rfl, rfl⟩
    | _ => cases h
  refine
    { wellFormed := wb
      ext := ⟨rfl, fun _ => rfl, fun _ => rfl, fun _ => rfl, fun _ => rfl, fun _ => rfl⟩
      frame := .refl (Graph.contains_of_group? hs)
      host := List.mem_singleton_self _
      live := fun h => ?_
      single := fun h h' => ?_
      made := Or.inl
      bound := fun h _ => Or.inl ⟨(hcopies h).1, (hcopies h).2.1⟩
      owner := fun h ho => ?_
      alike := fun h => ?_
      imported := Or.inl }
  · obtain ⟨rfl, rfl, rfl⟩ := hcopies h
    exact ⟨Graph.contains_of_group? htop, Graph.contains_of_group? hs⟩
  · obtain ⟨rfl, rfl, rfl⟩ := hcopies h
    obtain ⟨-, rfl, rfl⟩ := hcopies h'
    exact ⟨fun _ => rfl, fun _ => rfl⟩
  · obtain ⟨rfl, rfl, rfl⟩ := hcopies h
    have hroot : linked.parent? linked.root = some _ := ho
    rw [wl.tree.root_top] at hroot
    cases hroot
  · obtain ⟨rfl, rfl, rfl⟩ := hcopies h
    refine ⟨?_, ?_⟩
    · rw [Graph.source?_of_group? hs, Graph.source?_of_group? htop]
    · rw [hs, htop]
      rfl

/-! ## Top-level gates -/

/-- A gate of the group that stands for another one has another name. -/
theorem Traced.eq_of_name (t : Traced linked base group added pending nodes c) (wl : linked.WellFormed)
    {j : Id} {p q : Gate} (hp : linked.gate? i = some p) (hroot : p.group = linked.root)
    (hj : (j, x) ∈ c.copies nodes .gate) (hq : c.graph.gate? x = some q) (hgroup : q.group = group)
    (hname : q.name = p.name) : j = i := by
  obtain ⟨p', q', hp', hq', hname', -⟩ := t.alike hj
  cases hq.symm.trans hq'
  obtain ⟨o, ho, hmem⟩ := t.owner (k := .gate) (o := p'.group) hj (Option.map_eq_some_iff.2 ⟨p', hp', rfl⟩)
  have ho : (c.graph.gate? x).map Gate.group = some o := ho
  rw [hq, Option.map_some, hgroup, Option.some.injEq] at ho
  subst ho
  have hsame := (t.single (k := .node) hmem t.host).2 rfl
  exact wl.names.gates hp' hp (hsame.trans hroot.symm) (hname'.symm.trans hname)

theorem unclaimed_of_claimed {declared : List Gate} {p : Gate}
    (h : declared.any (·.name = p.name) = true) : unclaimed group declared [p] = [] := by
  simp only [unclaimed, List.filter_cons, h, Bool.not_true, Bool.false_eq_true, ↓reduceIte,
    List.filter_nil, List.map_nil]

theorem unclaimed_of_free {declared : List Gate} {p : Gate}
    (h : declared.any (·.name = p.name) = false) : unclaimed group declared [p] = [p.bound group] := by
  simp only [unclaimed, List.filter_cons, h, Bool.not_false, ↓reduceIte, List.filter_nil,
    List.map_cons, List.map_nil]

/-- A top-level gate is bound to the gate of its name that the group had before. -/
theorem Traced.claimGate (t : Traced linked base group added pending nodes c) (wb : base.WellFormed)
    (wl : linked.WellFormed) {p : Gate} (hp : linked.gate? i = some p) (hroot : p.group = linked.root)
    (hnew : ∀ y, (i, y) ∉ c.copies nodes .gate) (hf : c.graph.findGate? group p.name = some x) :
    unclaimed group (base.sheet group).gates [p] = [] ∧
      Traced linked base group added pending nodes { c with gates := (i, x) :: c.gates } := by
  obtain ⟨q, hq, hgroup, hname⟩ := Graph.gate_of_findGate? t.wellFormed.gates hf
  have hfree : ∀ j, (j, x) ∉ c.gates := fun j hj =>
    hnew x (t.eq_of_name wl hp hroot hj hq hgroup hname ▸ hj)
  have hbase : base.gates.contains x = true := by
    rcases t.made (k := .gate) (IdMap.contains_of_get? hq) with h | ⟨j, hj⟩
    · exact h
    · exact absurd hj (hfree j)
  refine ⟨unclaimed_of_claimed ?_, t.bind hp hroot hq hgroup hname hnew hfree hbase⟩
  -- a gate that was there is on the sheet of the group
  have hq' : base.gate? x = some q := (t.ext.gates hbase).symm.trans hq
  have hmem : q.unrouted ∈ (base.sheet group).gates :=
    List.mem_filterMap.2 ⟨x, wb.gates.mem_iff.2 (Option.map_eq_some_iff.2 ⟨q, hq', hgroup⟩),
      by rw [hq']; rfl⟩
  exact List.any_eq_true.2 ⟨q.unrouted, hmem, decide_eq_true hname⟩

/-- The group gets a gate for a top-level gate of whose name it has none. -/
theorem Traced.boundGate (t : Traced linked base group added pending nodes c) (wl : linked.WellFormed)
    {p : Gate} (hp : linked.gate? i = some p) (hroot : p.group = linked.root)
    (hnew : ∀ y, (i, y) ∉ c.copies nodes .gate) (hf : c.graph.findGate? group p.name = none) :
    unclaimed group (base.sheet group).gates [p] = [p.bound group] ∧
      ∃ g, c.graph.addGate group p.name p.direction p.channel = .ok (c.graph.fresh.1, g) ∧
        Traced linked base group (added ++ [p.bound group]) pending nodes
          { c with graph := g, gates := (i, c.graph.fresh.1) :: c.gates } := by
  have w := t.wellFormed
  have hn : linked.ownerOf? .gate i = some linked.root := Option.map_eq_some_iff.2 ⟨p, hp, hroot⟩
  obtain ⟨s, hs⟩ := t.exists_group (k := .gate) wl nofun hn t.host
  have hname : ∀ {y q}, c.graph.gate? y = some q → q.group = group → q.name = p.name → False :=
    fun hq hgroup hname => Graph.findGate?_eq_none w.gates hf hq hgroup hname
  refine ⟨unclaimed_of_free ?_, ?_⟩
  · obtain ⟨buses, -, hsheet⟩ := t.frame.host
    refine Bool.eq_false_iff.2 fun h => ?_
    obtain ⟨q, hq, hqn⟩ := List.any_eq_true.1 h
    refine Graph.findGate?_eq_none_iff.1 hf q ?_ (of_decide_eq_true hqn)
    rw [hsheet]
    exact List.mem_append_left _ hq
  · have hins := Graph.insertGate_inserts w (p := p.bound group) hs w.ids.fresh rfl rfl hname
    obtain ⟨y, g, hadd⟩ := Graph.addGate_ok (by rw [hs]; rfl) hf p.direction p.channel
    obtain ⟨-, -, -, rfl, rfl⟩ := Graph.addGate_eq hadd
    exact ⟨_, hadd, t.insert records_gate hins hn t.host hnew
      ⟨p, _, hp, (Graph.gate?_insertGate _).trans (if_pos rfl), rfl, fun _ => ⟨rfl, rfl⟩⟩
      (t.frame.gate (Graph.insertGate_draws w (p := p.bound group) hs w.ids.fresh rfl rfl hname))
      (List.Subset.refl _) nofun⟩

/-- A top-level gate is bound, and the group gets a gate for it if it had none of that name. -/
theorem Traced.bindGate (t : Traced linked base group added pending nodes c) (wb : base.WellFormed)
    (wl : linked.WellFormed)
    {p : Gate} (hp : linked.gate? i = some p) (hroot : p.group = linked.root)
    (hnew : ∀ y, (i, y) ∉ c.copies nodes .gate) :
    ∃ c' x, bindGate linked group c i = .ok c' ∧
      Traced linked base group (added ++ unclaimed group (base.sheet group).gates [p]) pending nodes c' ∧
      Records nodes c .gate i x nodes c' := by
  cases hf : c.graph.findGate? group p.name with
  | some x =>
    obtain ⟨hclaimed, t'⟩ := t.claimGate wb wl hp hroot hnew hf
    rw [hclaimed, List.append_nil]
    refine ⟨_, x, ?_, t', records_gate (g := c.graph)⟩
    simp only [Copying.bindGate, hp, hf]
  | none =>
    obtain ⟨hfree, g, hadd, t'⟩ := t.boundGate wl hp hroot hnew hf
    rw [hfree]
    refine ⟨_, c.graph.fresh.1, ?_, t', records_gate⟩
    simp only [Copying.bindGate, hp, hf]
    exact bind_eq_ok.2 ⟨_, hadd, rfl⟩

theorem unclaimed_append (group : Id) (declared ps qs : List Gate) :
    unclaimed group declared (ps ++ qs) = unclaimed group declared ps ++ unclaimed group declared qs := by
  simp only [unclaimed, List.filter_append, List.map_append]

theorem Traced.bindGates (t : Traced linked base group added pending nodes c) (wb : base.WellFormed)
    (wl : linked.WellFormed) {gates : List Id} (hnd : gates.Nodup)
    (howner : ∀ i ∈ gates, linked.gateOwner? i = some linked.root)
    (hnew : ∀ i ∈ gates, ∀ y, (i, y) ∉ c.copies nodes .gate) :
    ∃ c', gates.foldlM (Copying.bindGate linked group) c = .ok c' ∧
      Traced linked base group
        (added ++ unclaimed group (base.sheet group).gates (gates.filterMap linked.gate?)) pending nodes c' ∧
      (∀ i ∈ gates, ∃ x, (i, x) ∈ c'.copies nodes .gate) ∧
      c.copies nodes .gate ⊆ c'.copies nodes .gate ∧
      ∀ k, k ≠ .gate → c'.copies nodes k = c.copies nodes k := by
  induction gates generalizing c added with
  | nil =>
    refine ⟨c, rfl, ?_, nofun, List.Subset.refl _, fun _ _ => rfl⟩
    rw [List.filterMap_nil, unclaimed, List.filter_nil, List.map_nil, List.append_nil]
    exact t
  | cons i gates ih =>
    rw [List.nodup_cons] at hnd
    obtain ⟨p, hp, hroot⟩ := Option.map_eq_some_iff.1 (howner i List.mem_cons_self)
    obtain ⟨c₁, x, h₁, t₁, hr⟩ := t.bindGate wb wl hp hroot (hnew i List.mem_cons_self)
    obtain ⟨c₂, h₂, t₂, hall, hsub, hother⟩ := ih t₁ hnd.2
      (fun j hj => howner j (List.mem_cons_of_mem i hj)) fun j hj y hy => by
        rcases hr.mem_iff.1 hy with hy | ⟨-, he⟩
        · exact hnew j (List.mem_cons_of_mem i hj) y hy
        · cases he
          exact hnd.1 hj
    refine ⟨c₂, ?_, ?_, fun j hj => ?_, fun y hy => hsub (hr.mem_iff.2 (Or.inl hy)), fun k hk =>
      (hother k hk).trans (hr.others k hk)⟩
    · rw [List.foldlM_cons, h₁]
      exact h₂
    · rw [List.filterMap_cons_some hp, ← List.singleton_append, unclaimed_append, ← List.append_assoc]
      exact t₂
    · rcases List.mem_cons.1 hj with rfl | hj
      · exact ⟨x, hsub (hr.mem_iff.2 (Or.inr ⟨rfl, rfl⟩))⟩
      · exact hall j hj

/-! ## Everything -/

/-- The gates that a group gets for the top-level gates of a linked graph. -/
def boundGates (linked base : Graph) (group : Id) : List Gate :=
  unclaimed group (base.sheet group).gates ((linked.gateIds linked.root).filterMap linked.gate?)

/-- A copy is complete if every node is copied with what it lists. -/
theorem complete_of_listed (wl : linked.WellFormed)
    (hnode : ∀ {n}, linked.nodes.contains n = true → ∃ x, (n, x) ∈ nodes)
    (hlisted : ∀ {n}, linked.nodes.contains n = true → ∀ k, k ≠ .node → ∀ i ∈ linked.listed k n,
      ∃ x, (i, x) ∈ c.copies nodes k) : Complete linked nodes c := by
  intro k i ht hr hi
  by_cases hk : k = .node
  · subst hk
    exact hnode hi
  · obtain ⟨o, ho⟩ := Graph.exists_owner hk hi ht hr
    exact hlisted (wl.contains_owner ho) k hk i ((wl.owned k).mem_iff.2 ho)

/-- The content of a well-formed graph is copied into a group without fail, and completely. -/
theorem exists_content (wb : base.WellFormed) (wl : linked.WellFormed) {s top : Group}
    (hs : base.group? group = some s) (htop : linked.group? linked.root = some top) :
    ∃ c₁ c₂ c₃ nodes, top.gates.foldlM (Copying.bindGate linked group) { graph := base } = .ok c₁ ∧
      top.buses.foldlM (Copying.copyBus linked group) c₁ = .ok c₂ ∧
      copyNodes linked group (linked.outline linked.root).children c₂ = .ok c₃ ∧
      Traced linked base group (boundGates linked base group) [] nodes c₃ ∧ Complete linked nodes c₃ ∧
      Labelled linked nodes c₃ := by
  have hgates : linked.gateIds linked.root = top.gates := Graph.gateIds_of_group? htop
  have hbuses : linked.listed .bus linked.root = top.buses := Graph.busIds_of_group? htop
  obtain ⟨c₁, h₁, t₁, hall₁, -, hother₁⟩ := (traced_start wb wl hs).bindGates wb wl
    (wl.gates.nodup linked.root) (fun _ hi => wl.gates.mem_iff.1 hi) fun _ _ _ hy => by cases hy
  rw [List.nil_append] at t₁
  obtain ⟨c₂, h₂, t₂, hall₂, -, hother₂, -⟩ := t₁.copyListed (k := .bus) (n := linked.root)
    (Copying.copyBus linked group) wl (fun t hi hnew => t.copyBus wl t.host (Or.inl rfl) hi hnew)
    fun i _ y hy => by
      rw [hother₁ .bus (by decide)] at hy
      cases hy
  -- the nodes below the top-level group
  have hspans := wl.spans_outline
  have hnd : (linked.outline linked.root).values.Nodup := Graph.outlineWithin_nodup wl.tree wl.contains_root
  have hlive := fun n => wl.mem_outline (n := n)
  have hvalue := linked.value_outline linked.root
  cases htree : linked.outline linked.root with
  | node r ts =>
    rw [htree] at hspans hnd hlive hvalue
    obtain rfl : r = linked.root := hvalue
    have hnd := List.nodup_cons.1 hnd
    obtain ⟨c₃, nodes₃, h₃, t₃, hcover⟩ := Traced.copyNodes wb wl ts t₂ hspans.2.2 hnd.2
      (fun n hn y hy => by
        cases List.mem_singleton.1 hy
        exact hnd.1 hn)
      (fun tr htr => wl.tree.children.mem_iff.1 (hspans.2.1 ▸ List.mem_map_of_mem htr)) t₂.host
      (Or.inl rfl)
    refine ⟨c₁, c₂, c₃, nodes₃, hgates ▸ h₁, hbuses ▸ h₂, h₃, t₃,
      complete_of_listed wl (fun {n} hn => ?_) fun {n} hn k hk i hi => ?_, fun n x hnx hroot => ?_⟩
    · rcases List.mem_cons.1 ((hlive n).2 hn) with rfl | hn
      · exact ⟨group, t₃.host⟩
      · obtain ⟨x, -, hx, -⟩ := hcover.node n hn
        exact ⟨x, hx⟩
    · rcases List.mem_cons.1 ((hlive n).2 hn) with rfl | hn
      · refine Exists.imp (fun x hx => hcover.grown k hx) ?_
        obtain rfl | rfl := Graph.kind_of_listed_group (Graph.source?_of_group? htop) hk hi
        · obtain ⟨x, hx⟩ := hall₁ i hi
          exact ⟨x, hother₂ .gate (by decide) ▸ hx⟩
        · exact hall₂ i hi
      · exact hcover.listed n hn k hk i hi
    · rcases List.mem_cons.1 ((hlive n).2 (t₃.live (k := .node) hnx).1) with rfl | hn
      · exact absurd rfl hroot
      · obtain ⟨y, l, hy, hl, hl'⟩ := hcover.node n hn
        obtain rfl := (t₃.single (k := .node) hnx hy).1 rfl
        exact hl'.trans hl.symm

end Copying
end MessageGraph
