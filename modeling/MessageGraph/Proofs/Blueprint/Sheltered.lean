import MessageGraph.Proofs.Blueprint.LinkedContent
import MessageGraph.Proofs.Blueprint.Step

/-!
# Content of links stays inside links

Expanding stands the content of another model in any group. Where only links are expanded (`Linked`), all of
this content is inside a link for good: a group that has become a link stays one, and nothing is moved
(`Sheltered`). So what is outside of links belongs to the model itself (`Sheltered.isOwn`).
-/
namespace MessageGraph

/-! ## What edits leave of a node -/

namespace Node

def isLink (m : Node) : Bool := (m.group?.bind (·.link)).isSome

/-- A node as operations may leave it: it stays where it is, and a link stays a link. -/
structure Stays (m m' : Node) : Prop where
  parent : m'.parent = m.parent
  link : m.isLink = true → m'.isLink = true

theorem Stays.refl (m : Node) : m.Stays m := ⟨rfl, id⟩

theorem stays_mapSource (m : Node) (f : Source → Source) : m.Stays (m.mapSource f) where
  parent := by cases hk : m.kind <;> simp only [mapSource, hk]
  link := by rw [isLink, isLink, group?_mapSource]; exact id

theorem parent_mapGroup (m : Node) (f : Group → Group) : (m.mapGroup f).parent = m.parent := by
  cases hk : m.kind <;> simp only [mapGroup, hk]

theorem stays_mapGroup {f : Group → Group} (hf : ∀ s, s.link.isSome = true → (f s).link.isSome = true)
    (m : Node) : m.Stays (m.mapGroup f) where
  parent := m.parent_mapGroup f
  link := by
    cases hk : m.kind with
    | source s => simp only [isLink, mapGroup, group?, hk, imp_self]
    | group s =>
      simp only [isLink, mapGroup, group?, hk, Option.bind_some]
      exact hf s

end Node

namespace Graph

variable {g g' : Graph} {n p : Id} {m : Node}

theorem isLink_of_node? (hm : g.node? n = some m) : g.isLink n = m.isLink := by
  rw [isLink, group?, hm]
  rfl

theorem stays_modifyNode {id : Id} {f : Node → Node} (hf : ∀ m : Node, m.Stays (f m)) (hm : g.node? n = some m) :
    ∃ m', (g.modifyNode id f).node? n = some m' ∧ m.Stays m' := by
  have hget : (g.modifyNode id f).node? n = if n = id then (g.node? n).map f else g.node? n :=
    IdMap.get?_modify g.nodes id n f
  rw [hget, hm]
  split
  · exact ⟨f m, rfl, hf m⟩
  · exact ⟨m, rfl, .refl m⟩

theorem stays_addNode (w : g.IdsApart) {id : Option Id} {parent x : Id} {name : String} {kind : NodeKind}
    (ha : g.addNode id parent name kind = .ok (x, g')) (hm : g.node? n = some m) :
    ∃ m', g'.node? n = some m' ∧ m.Stays m' := by
  obtain ⟨s, next, -, hfree, rfl⟩ := addNode_eq w ha
  have hne : n ≠ x := by
    rintro rfl
    exact absurd ((hfree.absent .node).symm.trans (IdMap.contains_of_get? hm)) nofun
  refine stays_modifyNode (Node.stays_mapGroup fun _ h => h) ?_
  exact (IdMap.get?_insert g.nodes x n _).trans ((if_neg hne).trans hm)

end Graph

/-- Whatever is edited, every node stays. -/
theorem Edit.stays {g g' : Graph} (w : g.IdsApart) {e : Edit} (he : e.apply g = .ok g') {n : Id} {m : Node}
    (hm : g.node? n = some m) : ∃ m', g'.node? n = some m' ∧ m.Stays m' := by
  have hgroup : ∀ {f : Group → Group}, (∀ s, (f s).link = s.link) → ∀ m : Node, m.Stays (m.mapGroup f) :=
    fun hf => Node.stays_mapGroup fun s h => (hf s).symm ▸ h
  cases e with
  | addGroup | addSource =>
    obtain ⟨x, ha⟩ := snd_of_map_eq_ok he
    exact Graph.stays_addNode w ha hm
  | addPin =>
    obtain ⟨x, ha⟩ := snd_of_map_eq_ok he
    obtain ⟨s, -, -, -, rfl⟩ := Graph.addPin_eq ha
    exact Graph.stays_modifyNode (fun m => m.stays_mapSource _) hm
  | addGate =>
    obtain ⟨x, ha⟩ := snd_of_map_eq_ok he
    obtain ⟨s, -, -, -, rfl⟩ := Graph.addGate_eq ha
    exact Graph.stays_modifyNode (hgroup fun _ => rfl) hm
  | addBus =>
    obtain ⟨x, ha⟩ := snd_of_map_eq_ok he
    obtain ⟨s, next, -, -, rfl⟩ := Graph.addBus_eq w ha
    exact Graph.stays_modifyNode (hgroup fun _ => rfl) hm
  | reserveId => cases he; exact ⟨m, hm, .refl m⟩
  | setLink =>
    rw [← eq_of_checked he]
    exact Graph.stays_modifyNode (fun m => m.stays_mapGroup fun _ _ => rfl) hm
  | setLinkState =>
    rw [← eq_of_checked he]
    exact Graph.stays_modifyNode (fun m => m.stays_mapGroup fun _ h => Option.isSome_map.trans h) hm
  | setLibrary | setGroupView =>
    rw [← eq_of_checked he]
    exact Graph.stays_modifyNode (hgroup fun _ => rfl) hm
  | setSettings | setNodeRect =>
    rw [← eq_of_checked he]
    exact Graph.stays_modifyNode (fun _ => ⟨rfl, id⟩) hm
  | setPinLabel | setGateLabels | setBusRect | setRouteWire =>
    rw [← eq_of_guarded he]
    exact ⟨m, hm, .refl m⟩

/-! ## Links stay around what they are around -/

namespace Graph

variable {g g' : Graph} {n p : Id}

theorem contains_of_insideLink (h : g.insideLink n = true) : g.nodes.contains n = true := by
  by_contra hn
  rw [Bool.not_eq_true] at hn
  have hparent : g.parent? n = none := by unfold parent?; rw [node?_of_absent hn]; rfl
  have hgroup : g.group? n = none := by unfold group?; rw [node?_of_absent hn]; rfl
  obtain ⟨m, hm, hlink⟩ := List.any_eq_true.1 h
  obtain ⟨k, -, hk⟩ := mem_ancestry.1 hm
  cases hk with
  | zero => simp only [hgroup, reduceCtorEq] at hlink
  | succ hp => cases hparent.symm.trans hp

/-- A node is inside a link if it is below something that is. -/
theorem WellFormed.insideLink_of_below (w : g.WellFormed) (hn : g.nodes.contains n = true)
    (hb : g.Below n p) (h : g.insideLink p = true) : g.insideLink n = true := by
  obtain ⟨m, hm, hlink⟩ := (w.insideLink_iff (contains_of_insideLink h)).1 h
  exact (w.insideLink_iff hn).2 ⟨m, hb.trans hm, hlink⟩

/-- What is inside a link is so as long as it is there, if what is around it stays. -/
theorem WellFormed.insideLink_of_stays (w : g.WellFormed) (w' : g'.WellFormed)
    (hstays : ∀ {i m m'}, g.node? i = some m → g'.node? i = some m' → m.Stays m')
    (hn' : g'.nodes.contains n = true) (h : g.insideLink n = true) : g'.insideLink n = true := by
  have hn := contains_of_insideLink h
  obtain ⟨l, hb, hl⟩ := (w.insideLink_iff hn).1 h
  clear h
  induction hb using Relation.ReflTransGen.head_induction_on with
  | refl =>
    refine (w'.insideLink_iff hn').2 ⟨l, .refl, ?_⟩
    obtain ⟨m', hm'⟩ := IdMap.contains_iff.1 hn'
    obtain ⟨m, hm⟩ := IdMap.contains_iff.1 hn
    rw [isLink_of_node? hm] at hl
    rw [isLink_of_node? hm']
    exact (hstays hm hm').link hl
  | head hp _ ih =>
    obtain ⟨m, hm, hmp⟩ := Option.bind_eq_some_iff.1 hp
    obtain ⟨m', hm'⟩ := IdMap.contains_iff.1 hn'
    have hp' : g'.parent? _ = some _ := Option.bind_eq_some_iff.2 ⟨m', hm', (hstays hm hm').parent.trans hmp⟩
    exact w'.insideLink_of_below hn' (.single hp')
      (ih (w'.tree.contains_parent hp') (w.tree.contains_parent hp))

/-! ## Imported content -/

/-- What is imported is inside a link: a node by what is around it, since only its content is. -/
structure Sheltered (g : Graph) : Prop where
  nodes : ∀ n m, g.node? n = some m → m.imported = true → ∃ p, m.parent = some p ∧ g.insideLink p = true
  buses : ∀ i b, g.bus? i = some b → b.imported = true → g.insideLink b.group = true

/-- Imported content is inside links if it was inside links that stay. -/
theorem Sheltered.of_stays (w : g.WellFormed) (w' : g'.WellFormed)
    (hstays : ∀ {i m m'}, g.node? i = some m → g'.node? i = some m' → m.Stays m')
    (hnodes : ∀ n m, g'.node? n = some m → m.imported = true →
      ∃ p, m.parent = some p ∧ g.insideLink p = true)
    (hbuses : ∀ i b, g'.bus? i = some b → b.imported = true → g.insideLink b.group = true) :
    g'.Sheltered where
  nodes n m hm himp := by
    obtain ⟨p, hp, hinside⟩ := hnodes n m hm himp
    have hparent : g'.parent? n = some p := Option.bind_eq_some_iff.2 ⟨m, hm, hp⟩
    exact ⟨p, hp, w.insideLink_of_stays w' hstays (w'.tree.contains_parent hparent) hinside⟩
  buses i b hb himp :=
    w.insideLink_of_stays w' hstays
      (w'.contains_owner (k := .bus) (Option.map_eq_some_iff.2 ⟨b, hb, rfl⟩)) (hbuses i b hb himp)

theorem stays_cutOff {gone : Id → Bool} {node parent i : Id} {m m' : Node} (hm : g.node? i = some m)
    (hm' : (g.cutOff gone node parent).node? i = some m') : m.Stays m' := by
  have hdrop : ∀ {x}, (g.dropNodes gone).node? i = some x → x = m := fun {x} hx => by
    rw [node?_dropNodes] at hx
    split at hx
    · cases hx
    · exact Option.some.inj (hx.symm.trans hm)
  have hget := IdMap.get?_modify (g.dropNodes gone).nodes parent i fun m => m.mapGroup fun s =>
    { s with children := s.children.filter (· ≠ node) }
  have hm' := hget.symm.trans hm'
  split at hm'
  · obtain ⟨x, hx, rfl⟩ := Option.map_eq_some_iff.1 hm'
    obtain rfl := hdrop hx
    refine Node.stays_mapGroup (fun s h => ?_) x
    exact h
  · obtain rfl := hdrop hm'
    exact .refl m'

theorem steady_sheltered : Steady Sheltered where
  edited {g g' e} w hs he := by
    refine .of_stays w (w.edited (Edit.edited he)) (fun hm hm' => ?_) ?_ ?_
    · obtain ⟨m'', hm'', hstays⟩ := Edit.stays w.ids he hm
      cases hm'.symm.trans hm''
      exact hstays
    · refine Edit.forall_nodes
        (Q := fun m => m.imported = true → ∃ p, m.parent = some p ∧ g.insideLink p = true)
        ⟨fun _ hm => hm, fun {m} f hm => ?_, fun {m} f _ hm => ?_⟩ w.ids (fun _ => ?_) (fun _ m f hm => ?_)
        hs.nodes he
      · rw [m.imported_mapSource, (m.stays_mapSource f).parent]
        exact hm
      · rw [m.imported_mapGroup, m.parent_mapGroup]
        exact hm
      · exact ⟨fun _ _ _ => nofun, fun _ _ => nofun, fun _ hm => hm⟩
      · rw [m.imported_mapGroup, m.parent_mapGroup]
        exact hm
    · exact Edit.forall_buses (Q := fun b => b.imported = true → g.insideLink b.group = true) w.ids
        (fun _ _ _ _ => nofun) (fun _ _ _ hb => hb) hs.buses he
  rerouted {g g'} w w' hs hr hb := by
    have hnode : ∀ n, g'.node? n = g.node? n := fun n => congrArg (fun m : IdMap Node => m.get? n) hr.nodes
    refine .of_stays w w' (fun hm hm' => ?_) (fun n m hm => hs.nodes n m (hnode n ▸ hm)) fun i b hb' himp => ?_
    · cases hm.symm.trans ((hnode _).symm.trans hm')
      exact .refl _
    · obtain ⟨x, hx, he⟩ := Alike.some_of_map_eq (hb i) hb'
      simp only [Bus.untacked, Bus.mk.injEq] at he
      obtain ⟨hgroup, -, -, -, -, himp'⟩ := he
      rw [hgroup]
      exact hs.buses i x hx (himp' ▸ himp)
  cutOff {g gone node parent} w w' hs := by
    refine .of_stays w w' stays_cutOff ?_ fun i b hb => ?_
    · refine forall_cutOff hs.nodes fun m f _ hm => ?_
      rw [m.imported_mapGroup, m.parent_mapGroup]
      exact hm
    · rw [bus?_cutOff, Option.filter_eq_some_iff] at hb
      exact hs.buses i b hb.1

/-! ## What is outside of links -/

namespace Sheltered

variable (hs : g.Sheltered) (w : g.WellFormed)

include hs w

/-- A node that is not inside a link belongs to the model itself. -/
theorem isOwn (hn : g.nodes.contains n = true) (hout : g.insideLink n = false) : g.IsOwn n where
  live := hn
  own {m} hb _ := by
    obtain ⟨x, hx⟩ := IdMap.contains_iff.1 (w.tree.contains_of_below hn hb)
    refine ⟨x, hx, ?_⟩
    by_contra himp
    rw [Bool.not_eq_false] at himp
    obtain ⟨p, hp, hinside⟩ := hs.nodes m x hx himp
    have hparent : g.parent? m = some p := Option.bind_eq_some_iff.2 ⟨x, hx, hp⟩
    exact absurd ((w.insideLink_of_below hn (hb.tail hparent) hinside).symm.trans hout) nofun

/-- And so does a node in a group that is not inside a link. -/
theorem isOwn_child (hp : g.parent? n = some p) (hout : g.insideLink p = false) : g.IsOwn n where
  live := contains_of_parent? hp
  own {m} hb hm := by
    rcases Relation.ReflTransGen.cases_head hb with rfl | ⟨q, hq, hb⟩
    · obtain ⟨x, hx, hxp⟩ := Option.bind_eq_some_iff.1 hp
      refine ⟨x, hx, ?_⟩
      by_contra himp
      rw [Bool.not_eq_false] at himp
      obtain ⟨q, hq, hinside⟩ := hs.nodes n x hx himp
      cases hxp.symm.trans hq
      exact absurd (hinside.symm.trans hout) nofun
    · cases hp.symm.trans hq
      exact (hs.isOwn w (w.tree.contains_parent hp) hout).own hb hm

/-- An endpoint that stands outside of links is written. -/
theorem isWritten {x : Endpoint} (hn : g.scope? x = some n) (hout : g.insideLink n = false) :
    g.isWritten x = true := by
  have hown : ∀ {o}, g.IsOwn o → g.ownTree.values.contains o = true := fun h =>
    List.contains_iff_mem.2 (w.mem_ownTree.2 h)
  have hscope := w.contains_scope hn
  cases x with
  | pin i =>
    obtain ⟨p, hp, hparent⟩ := Option.bind_eq_some_iff.1 hn
    simp only [Graph.isWritten, pinOwner?, hp, Option.map_some, Option.elim_some]
    exact hown (hs.isOwn_child w hparent hout)
  | proxy i =>
    obtain ⟨p, hp, rfl⟩ := Option.map_eq_some_iff.1 hn
    simp only [Graph.isWritten, gateOwner?, hp, Option.map_some, Option.elim_some]
    exact hown (hs.isOwn w hscope hout)
  | pad i =>
    obtain ⟨p, hp, hparent⟩ := Option.bind_eq_some_iff.1 hn
    simp only [Graph.isWritten, gateOwner?, hp, Option.map_some, Option.elim_some]
    exact hown (hs.isOwn_child w hparent hout)
  | tack t =>
    obtain ⟨b, hb, rfl⟩ := Option.map_eq_some_iff.1 hn
    obtain ⟨k, hk, hb⟩ := Option.bind_eq_some_iff.1 hb
    have himp : b.imported = false := by
      by_contra himp
      rw [Bool.not_eq_false] at himp
      exact absurd (hout.symm.trans (hs.buses k.bus b hb himp)) Bool.false_ne_true
    simp only [Graph.isWritten, hk, Option.bind_some, hb, Option.elim_some, himp, Bool.not_false,
      Bool.true_and]
    exact hown (hs.isOwn w hscope hout)

end Sheltered
end Graph

/-! ## Expanding a link -/

namespace Copying.Expanded

variable {linked base h : Graph} {group : Id} {nodes done : List (Id × Id)} {c c' : Copying}

/-- What was not there belongs to the copy of a node. -/
theorem owner_of_new (y : Expanded linked base group nodes done c c' h) (wl : linked.WellFormed)
    {k : EntityKind} {x : Id} (ht : k ≠ .tack) (hr : k ≠ .route) (hx : h.has k x = true)
    (hnew : base.has k x = false) : ∃ o o', c.graph.ownerOf? k x = some o' ∧ (o, o') ∈ nodes := by
  rcases y.traced.made ((y.has_eq ht hr x).symm.trans hx) with hold | ⟨i, hi⟩
  · exact absurd (hold.symm.trans hnew) nofun
  have howner : ∃ o, linked.ownerOf? k i = some o := by
    by_cases hk : k = .node
    · subst hk
      refine Option.isSome_iff_exists.1 (Graph.parent?_of_ne_root wl (y.traced.live hi).1 ?_)
      -- the group itself stands for the top-level group, and was there
      rintro rfl
      have hgroup := (y.traced.single (k := .node) hi y.traced.host).1 rfl
      exact absurd ((hgroup ▸ y.traced.frame.site).symm.trans hnew) nofun
    · exact Graph.exists_owner hk (y.traced.live hi).1 ht hr
  obtain ⟨o, ho⟩ := howner
  exact ⟨o, y.traced.owner hi ho⟩

/-- What an expanded link adds is inside the link. -/
theorem sheltered (y : Expanded linked base group nodes done c c' h) (wb : base.WellFormed)
    (wl : linked.WellFormed) (hs : base.Sheltered) (hlink : base.insideLink group = true) :
    h.Sheltered := by
  have hkept : ∀ {n}, base.insideLink n = true → h.insideLink n = true := fun hn =>
    (y.insideLink_old wb (Graph.contains_of_insideLink hn)).trans hn
  have hcopy : ∀ {o o'}, (o, o') ∈ nodes → h.insideLink o' = true := fun {o o'} ho =>
    y.wellFormed.insideLink_of_below ((y.has_eq (k := .node) (by decide) (by decide) o').trans
      (y.traced.live (k := .node) ho).2) (y.below_site wl ho) (hkept hlink)
  refine ⟨fun n m hm himp => ?_, fun i b hb himp => ?_⟩
  · have hparent : ∀ {p}, h.parent? n = some p → m.parent = some p := fun hp => by
      obtain ⟨m', hm', hp⟩ := Option.bind_eq_some_iff.1 hp
      cases hm.symm.trans hm'
      exact hp
    cases hn : base.nodes.contains n with
    | true =>
      obtain ⟨x, hx⟩ := IdMap.contains_iff.1 hn
      have hx : base.node? n = some x := hx
      have hkeep := y.isKept_old hn
      simp only [Graph.isKept, hm, hx, Option.elim_some, himp, Bool.not_true] at hkeep
      obtain ⟨p, hp, hinside⟩ := hs.nodes n x hx (by simpa using hkeep)
      have hold := y.parent?_old hn
      exact ⟨p, hparent (hold.trans (Option.bind_eq_some_iff.2 ⟨x, hx, hp⟩)), hkept hinside⟩
    | false =>
      obtain ⟨o, o', ho', hmem⟩ := y.owner_of_new (k := .node) wl (by decide) (by decide) (IdMap.contains_of_get? hm) hn
      exact ⟨o', hparent ((y.parent?_eq n).trans ho'), hcopy hmem⟩
  · obtain ⟨d, hd, he⟩ := Option.map_eq_some_iff.1 ((y.bus?_eq i).symm.trans (congrArg _ hb))
    simp only [Bus.untacked, Bus.mk.injEq] at he
    obtain ⟨hgroup, -, -, -, -, hflag⟩ := he
    cases hi : base.buses.contains i with
    | true =>
      have hd' : base.bus? i = some d := (y.traced.ext.buses hi).symm.trans hd
      exact hkept (hgroup ▸ hs.buses i d hd' (hflag.trans himp))
    | false =>
      obtain ⟨o, o', ho', hmem⟩ := y.owner_of_new (k := .bus) wl (by decide) (by decide) (IdMap.contains_of_get? hb) hi
      obtain ⟨d', hd', rfl⟩ := Option.map_eq_some_iff.1 ho'
      cases hd.symm.trans hd'
      exact hgroup ▸ hcopy hmem

end Copying.Expanded

/-! ## Models in which only links are expanded -/

namespace Blueprint

variable {b : Blueprint}

/-- The models that operations lead to where only groups inside a link are expanded. What is linked may be any
model. -/
inductive Linked : Blueprint → Prop
  | initial {b : Blueprint} (h : Initial b) : Linked b
  | perform {b : Blueprint} {op : Operation} (hb : Linked b)
      (hop : ∀ group linked, op = .expandLink group linked →
        Reachable linked ∧ b.graph.insideLink group = true) : Linked (b.perform op)

theorem Linked.reachable (h : b.Linked) : b.Reachable := by
  induction h with
  | initial h => exact .initial h
  | perform _ hop ih => exact ih.perform fun group linked he => (hop group linked he).1

/-- Operations other than expansions ask for no links. -/
theorem Linked.run {ops : List Operation} (hb : b.Linked) (hops : ops.any Operation.isExpansion = false) :
    (b.run ops).Linked := by
  induction ops generalizing b with
  | nil => exact hb
  | cons op ops ih =>
    rw [List.any_cons, Bool.or_eq_false_iff] at hops
    refine ih (.perform hb fun group linked he => ?_) hops.2
    rw [he] at hops
    cases hops.1

theorem Initial.own (h : b.Initial) : b.graph.Own := by
  cases h with
  | new name => exact Graph.withRoot_own 1 name
  | join h => exact join_own h

theorem Linked.sheltered (h : b.Linked) : b.graph.Sheltered := by
  induction h with
  | initial h =>
    have ho := h.own
    exact ⟨fun n m hm himp => absurd ((ho.nodes n m hm).symm.trans himp) nofun,
      fun i b hb himp => absurd ((ho.buses i b hb).symm.trans himp) nofun⟩
  | @perform b op hb hop ih =>
    have w := hb.reachable.wellFormed
    refine perform_keeps (P := Graph.Sheltered) ih fun hstep =>
      Graph.steady_sheltered.step w ih (fun group linked he => (hop group linked he).1.wellFormed)
        (fun he y => ?_) hstep
    obtain ⟨hl, hinside⟩ := hop _ _ he
    exact y.sheltered w hl.wellFormed ih hinside

end Blueprint
end MessageGraph
