import MessageGraph.Proofs.Except
import MessageGraph.Proofs.Graph.Detach
import MessageGraph.Proofs.Graph.Outline

/-!
# Removing a node and everything below it

Before a subtree goes, the routes at its endpoints go (`detachAll`); after that none is left there
(`WellFormed.unrouted_detachAll`). `removeSubtree` then takes away the nodes and what they own, and
keeps a graph well-formed (`WellFormed.removeSubtree`).
-/
namespace MessageGraph.Graph

variable {g g' : Graph}

/-! ## Removing nodes -/

/-- The graph without some nodes and what they own. -/
def dropNodes (g : Graph) (gone : Id → Bool) : Graph :=
  { g with
    nodes := g.nodes.filter fun id _ => ! gone id
    pins := g.pins.filter fun _ p => ! gone p.node
    gates := g.gates.filter fun _ p => ! gone p.group
    buses := g.buses.filter fun _ b => ! gone b.group
    tacks := g.tacks.filter fun _ t => ! (g.buses.filter fun _ b => gone b.group).contains t.bus }

/-- The graph without some nodes of which the topmost is `node`. -/
def cutOff (g : Graph) (gone : Id → Bool) (node parent : Id) : Graph :=
  (g.dropNodes gone).modifyGroup parent fun s =>
    { s with children := s.children.filter (· ≠ node) }

/-- The nodes to remove are one node below the top and all below it. -/
structure IsSubtree (g : Graph) (gone : Id → Bool) (node parent : Id) : Prop where
  parent_eq : g.parent? node = some parent
  top : gone node = true
  down : ∀ {c p}, g.parent? c = some p → gone p = true → gone c = true
  up : ∀ {c p}, g.parent? c = some p → gone c = true → c ≠ node → gone p = true
  root_stays : gone g.root = false

theorem IsTree.isSubtree (w : g.IsTree) {node : Id} (hn : g.nodes.contains node = true)
    (hroot : node ≠ g.root) :
    ∃ parent, g.IsSubtree (g.descendants node).contains node parent := by
  have hmem : ∀ x, (g.descendants node).contains x = true ↔ g.Below x node := by
    intro x
    rw [List.contains_iff_mem, mem_descendants w hn]
  obtain ⟨parent, hp⟩ : ∃ parent, g.parent? node = some parent := by
    rcases (w.rooted hn).cases_head with h | ⟨p, hp, -⟩
    · exact absurd h hroot
    · exact ⟨p, hp⟩
  refine ⟨parent, hp, (hmem _).2 .refl, ?_, ?_, ?_⟩
  · intro c p hc h
    rw [hmem] at h ⊢
    exact Relation.ReflTransGen.head hc h
  · intro c p hc h hne
    rw [hmem] at h ⊢
    rcases h.cases_head with h | ⟨q, hq, h⟩
    · exact absurd h hne
    · rw [hc] at hq
      cases hq
      exact h
  · rw [Bool.eq_false_iff]
    intro h
    rw [hmem] at h
    rcases h.cases_head with h | ⟨q, hq, -⟩
    · exact hroot h.symm
    · rw [w.root_top] at hq
      cases hq

theorem removeSubtree_eq (w : g.IsTree) {node : Id} (h : g.removeSubtree node = .ok g') :
    g.nodes.contains node = true ∧ ∃ parent,
      g.IsSubtree (g.descendants node).contains node parent ∧
        g' = g.cutOff (g.descendants node).contains node parent := by
  unfold removeSubtree at h
  split at h
  · cases h
  rename_i hroot
  cases hn : g.node? node with
  | none => rw [hn] at h; cases h
  | some n =>
    have hlive : g.nodes.contains node = true := IdMap.contains_of_get? hn
    obtain ⟨parent, hs⟩ := w.isSubtree hlive hroot
    have hp : n.parent = some parent := by
      have := hs.parent_eq
      rw [parent?, hn] at this
      exact this
    rw [hn] at h
    simp only [hp, Option.elim_some, Except.ok.injEq] at h
    exact ⟨hlive, parent, hs, h.symm⟩

section CutOff

variable {gone : Id → Bool} {node parent : Id}

theorem node?_dropNodes (i : Id) :
    (g.dropNodes gone).node? i = if gone i then none else g.node? i := by
  show (g.nodes.filter fun id _ => ! gone id).get? i = _
  rw [IdMap.get?_filter_ids g.nodes (! gone ·)]
  cases gone i <;> rfl

theorem group?_dropNodes (i : Id) :
    (g.dropNodes gone).group? i = if gone i then none else g.group? i := by
  unfold group?
  rw [node?_dropNodes]
  split <;> rfl

theorem source?_cutOff (i : Id) :
    (g.cutOff gone node parent).source? i = if gone i then none else g.source? i := by
  unfold cutOff
  rw [source?_modifyGroup]
  unfold source?
  rw [node?_dropNodes]
  split <;> rfl

theorem parent?_cutOff (i : Id) :
    (g.cutOff gone node parent).parent? i = if gone i then none else g.parent? i := by
  unfold cutOff
  rw [parent?_modifyGroup]
  unfold parent?
  rw [node?_dropNodes]
  split <;> rfl

theorem elim_group?_cutOff (view : Group → List Id)
    (hview : ∀ s children, view { s with children } = view s) (i : Id) :
    ((g.cutOff gone node parent).group? i).elim [] view =
      if gone i then [] else (g.group? i).elim [] view := by
  unfold cutOff
  rw [elim_group?_keep _ _ (by intro s; exact hview s _), group?_dropNodes]
  split <;> rfl

theorem childIds_cutOff (i : Id) :
    (g.cutOff gone node parent).childIds i =
      if gone i then [] else if i = parent then (g.childIds i).filter (· ≠ node) else g.childIds i := by
  unfold cutOff childIds
  rw [group?_modifyGroup, group?_dropNodes]
  by_cases hg : gone i = true
  · simp [hg]
  · by_cases hi : i = parent
    · subst hi
      cases g.group? i <;> simp [hg]
    · simp [hg, hi]

theorem pin?_cutOff (i : Id) :
    (g.cutOff gone node parent).pin? i = (g.pin? i).filter fun p => ! gone p.node :=
  IdMap.get?_filter _ _ _

theorem gate?_cutOff (i : Id) :
    (g.cutOff gone node parent).gate? i = (g.gate? i).filter fun p => ! gone p.group :=
  IdMap.get?_filter _ _ _

theorem bus?_cutOff (i : Id) :
    (g.cutOff gone node parent).bus? i = (g.bus? i).filter fun b => ! gone b.group :=
  IdMap.get?_filter _ _ _

/-- A bus goes with its group. -/
def busGone (g : Graph) (gone : Id → Bool) (bus : Id) : Bool := (g.busOwner? bus).elim false gone

theorem tack?_cutOff (i : Id) :
    (g.cutOff gone node parent).tack? i = (g.tack? i).filter fun k => ! g.busGone gone k.bus := by
  refine (IdMap.get?_filter _ _ _).trans ?_
  congr 1
  funext k
  congr 1
  unfold busGone busOwner? bus? IdMap.contains
  rw [IdMap.get?_filter]
  cases hb : g.buses.get? k.bus with
  | none => rfl
  | some b => cases hg : gone b.group <;> simp [Option.filter, hg]

theorem filter_eq_self {α : Type} {o : Option α} {p : α → Bool} (h : ∀ v, o = some v → p v = true) :
    o.filter p = o := by
  cases o with
  | none => rfl
  | some v => exact Option.filter_some_pos (h v rfl)

theorem kept_cutOff {e : Endpoint} (he : ∀ n, g.nodeOf? e = some n → gone n = false) :
    (g.cutOff gone node parent).routesOf e = g.routesOf e ∧
      (g.cutOff gone node parent).direction? e = g.direction? e ∧
      (g.cutOff gone node parent).name? e = g.name? e ∧
      (g.cutOff gone node parent).channel? e = g.channel? e := by
  cases e with
  | pin i =>
    have h : (g.cutOff gone node parent).pin? i = g.pin? i := by
      rw [pin?_cutOff]
      refine filter_eq_self fun p hp => ?_
      rw [he p.node (by simp [nodeOf?, pinOwner?, hp])]; rfl
    simp only [routesOf, direction?, name?, channel?, h, and_self]
  | proxy i =>
    have h : (g.cutOff gone node parent).gate? i = g.gate? i := by
      rw [gate?_cutOff]
      refine filter_eq_self fun p hp => ?_
      rw [he p.group (by simp [nodeOf?, gateOwner?, hp])]; rfl
    simp only [routesOf, direction?, name?, channel?, h, and_self]
  | pad i =>
    have h : (g.cutOff gone node parent).gate? i = g.gate? i := by
      rw [gate?_cutOff]
      refine filter_eq_self fun p hp => ?_
      rw [he p.group (by simp [nodeOf?, gateOwner?, hp])]; rfl
    simp only [routesOf, direction?, name?, channel?, h, and_self]
  | tack i =>
    have h : (g.cutOff gone node parent).tack? i = g.tack? i := by
      rw [tack?_cutOff]
      refine filter_eq_self fun k hk => ?_
      unfold busGone
      cases hb : g.busOwner? k.bus with
      | none => rfl
      | some n =>
        rw [Option.elim_some, he n (by simp [nodeOf?, tackOwner?, hk, hb])]; rfl
    simp only [routesOf, direction?, name?, channel?, h, and_self]

theorem dropped_cutOff {e : Endpoint} {n : Id} (he : g.nodeOf? e = some n) (hn : gone n = true) :
    (g.cutOff gone node parent).routesOf e = [] := by
  cases e with
  | pin i =>
    obtain ⟨p, hp, rfl⟩ := Option.map_eq_some_iff.1 he
    simp [routesOf, pin?_cutOff, hp, Option.filter, hn]
  | proxy i =>
    obtain ⟨p, hp, rfl⟩ := Option.map_eq_some_iff.1 he
    simp [routesOf, gate?_cutOff, hp, Option.filter, hn]
  | pad i =>
    obtain ⟨p, hp, rfl⟩ := Option.map_eq_some_iff.1 he
    simp [routesOf, gate?_cutOff, hp, Option.filter, hn]
  | tack i =>
    obtain ⟨b, hb, hn'⟩ := Option.bind_eq_some_iff.1 he
    obtain ⟨k, hk, rfl⟩ := Option.map_eq_some_iff.1 hb
    simp [routesOf, tack?_cutOff, hk, Option.filter, busGone, hn', hn]

theorem has_cutOff {k : EntityKind} {i : Id} (h : (g.cutOff gone node parent).has k i = true) :
    g.has k i = true := by
  cases k with
  | node =>
    have h : ((g.dropNodes gone).nodes.modify parent _).contains i = true := h
    rw [IdMap.contains_modify] at h
    exact IdMap.contains_filter_of h
  | route => exact h
  | _ => exact IdMap.contains_filter_of h

/-- No endpoint of a node that goes has a route. -/
def Unrouted (g : Graph) (gone : Id → Bool) : Prop :=
  ∀ e n, g.nodeOf? e = some n → gone n = true → g.routesOf e = []

theorem routesOf_cutOff (hfree : g.Unrouted gone) (e : Endpoint) :
    (g.cutOff gone node parent).routesOf e = g.routesOf e := by
  by_cases h : ∃ n, g.nodeOf? e = some n ∧ gone n = true
  · obtain ⟨n, he, hn⟩ := h
    rw [dropped_cutOff he hn, hfree e n he hn]
  · refine (kept_cutOff fun n hn => ?_).1
    rw [Bool.eq_false_iff]
    intro hg
    exact h ⟨n, hn, hg⟩

/-- An endpoint with a route is of a node that stays. -/
theorem WellFormed.stays_of_ends (w : g.WellFormed) (hfree : g.Unrouted gone) {route : Id}
    {e : Endpoint} (he : g.Ends route e) (n : Id) (hn : g.nodeOf? e = some n) : gone n = false := by
  rw [Bool.eq_false_iff]
  intro hg
  rw [← w.routes.mem_iff, hfree e n hn hg] at he
  cases he

/-- Only the topmost node that goes is taken from a list of children that stays. -/
theorem mem_childIds_cutOff (w : g.IsTree) (hs : g.IsSubtree gone node parent) {i p : Id} :
    i ∈ (g.cutOff gone node parent).childIds p ↔ i ∈ g.childIds p ∧ (! gone i) = true := by
  rw [childIds_cutOff, w.children.mem_iff]
  by_cases hp : gone p = true
  · -- what is below a node that goes goes too
    rw [if_pos hp]
    simp only [List.not_mem_nil, false_iff, not_and]
    intro hi
    rw [hs.down hi hp]
    nofun
  · rw [if_neg hp]
    have hi : g.parent? i = some p → i ≠ node → gone i = false := by
      intro hi hne
      rw [Bool.eq_false_iff]
      intro hg
      exact hp (hs.up hi hg hne)
    split
    · rename_i he
      subst he
      simp only [List.mem_filter, w.children.mem_iff, ne_eq, decide_not, Bool.not_eq_eq_eq_not,
        Bool.not_true, decide_eq_false_iff_not]
      constructor
      · intro h
        exact ⟨h.1, hi h.1 h.2⟩
      · intro h
        refine ⟨h.1, fun he => ?_⟩
        rw [he, hs.top] at h
        cases h.2
    · rename_i hne
      rw [w.children.mem_iff]
      constructor
      · intro h
        refine ⟨h, ?_⟩
        rw [hi h]
        · rfl
        · intro he
          rw [he, hs.parent_eq] at h
          exact hne (Option.some.inj h).symm
      · exact fun h => h.1

theorem stays_of_contains_cutOff {n : Id}
    (hn : (g.cutOff gone node parent).nodes.contains n = true) : gone n = false := by
  have hn : ((g.dropNodes gone).nodes.modify parent _).contains n = true := hn
  rw [IdMap.contains_modify] at hn
  obtain ⟨m, hm⟩ := IdMap.contains_iff.1 hn
  have hm : (g.dropNodes gone).node? n = some m := hm
  rw [node?_dropNodes] at hm
  split at hm
  · cases hm
  · rename_i h
    exact Bool.eq_false_iff.2 h

/-- From a node that stays the way up meets only nodes that stay. -/
theorem below_cutOff (hs : g.IsSubtree gone node parent) {x : Id} (hx : g.Below x g.root) :
    gone x = false → (g.cutOff gone node parent).Below x g.root := by
  refine Relation.ReflTransGen.head_induction_on hx (fun _ => .refl) ?_
  intro c p hc _ ih hgc
  refine Relation.ReflTransGen.head ?_ (ih ?_)
  · rw [parent?_cutOff, hgc]
    exact hc
  · rw [Bool.eq_false_iff]
    intro hgp
    rw [hs.down hc hgp] at hgc
    cases hgc

theorem IsTree.cutOff (w : g.IsTree) (hs : g.IsSubtree gone node parent) :
    (g.cutOff gone node parent).IsTree where
  root_group := by
    obtain ⟨s, hs'⟩ := w.root_group
    show ∃ s, (g.cutOff gone node parent).group? g.root = some s
    unfold Graph.cutOff
    rw [group?_modifyGroup, group?_dropNodes, hs.root_stays, hs']
    split <;> exact ⟨_, rfl⟩
  root_top := by
    show (g.cutOff gone node parent).parent? g.root = none
    rw [parent?_cutOff, hs.root_stays]
    exact w.root_top
  children := by
    refine w.children.restrict (! gone ·) (fun i => ?_) (fun _ _ => mem_childIds_cutOff w hs)
      fun p => ?_
    · rw [parent?_cutOff]
      cases gone i <;> rfl
    · rw [childIds_cutOff]
      split
      · exact List.nil_sublist _
      · split
        · exact List.filter_sublist
        · exact List.Sublist.refl _
  rooted := fun hn =>
    below_cutOff hs (w.rooted (has_cutOff (k := .node) hn)) (stays_of_contains_cutOff hn)

theorem WellFormed.cutOff (w : g.WellFormed) (hs : g.IsSubtree gone node parent)
    (hfree : g.Unrouted gone) : (g.cutOff gone node parent).WellFormed where
  ids := w.ids.of_has rfl has_cutOff
  tree := w.tree.cutOff hs
  pins := by
    refine w.pins.restrict_owners gone (fun i => ?_) fun p => ?_
    · unfold pinOwner?
      rw [pin?_cutOff, Option.filter_map]
      rfl
    · unfold pinIds
      rw [source?_cutOff]
      split <;> rfl
  gates := by
    refine w.gates.restrict_owners gone (fun i => ?_) fun p => ?_
    · unfold gateOwner?
      rw [gate?_cutOff, Option.filter_map]
      rfl
    · exact elim_group?_cutOff Group.gates (fun _ _ => rfl) p
  buses := by
    refine w.buses.restrict_owners gone (fun i => ?_) fun p => ?_
    · unfold busOwner?
      rw [bus?_cutOff, Option.filter_map]
      rfl
    · exact elim_group?_cutOff Group.buses (fun _ _ => rfl) p
  tacks := by
    refine w.tacks.restrict_owners (g.busGone gone) (fun i => ?_) fun b => ?_
    · unfold tackOwner?
      rw [tack?_cutOff, Option.filter_map]
      rfl
    · unfold tackIds busGone busOwner?
      rw [bus?_cutOff]
      cases g.bus? b with
      | none => rfl
      | some x => cases hg : gone x.group <;> simp [Option.filter, hg]
  routes := w.routes.congr (routesOf_cutOff hfree) fun _ => rfl
  faced := by
    intro t k hk
    have hk' : g.tack? t = some k := by
      rw [tack?_cutOff, Option.filter_eq_some_iff] at hk
      exact hk.1
    obtain ⟨far, hfar, hc, hd, hn, -⟩ := w.faced t k hk'
    have hstay := w.stays_of_ends hfree (ends_of_across? hfar).2
    obtain ⟨-, hdir, hname, -⟩ : (g.cutOff gone node parent).routesOf far = _ ∧ _ ∧ _ :=
      kept_cutOff hstay
    exact faces_of hk hfar hc (hdir.trans hd) (hname.trans hn)
  names :=
    { pins := by
        intro i j p q hp hq
        rw [pin?_cutOff, Option.filter_eq_some_iff] at hp hq
        exact w.names.pins hp.1 hq.1
      gates := by
        intro i j p q hp hq
        rw [gate?_cutOff, Option.filter_eq_some_iff] at hp hq
        exact w.names.gates hp.1 hq.1 }
  opposed := by
    refine w.opposed.congr rfl fun gate p route far hp _ hfar => ?_
    have hfar : g.across? (.pad gate) route = some far := hfar
    rw [gate?_cutOff, Option.filter_eq_some_iff] at hp
    exact ⟨hfar, (kept_cutOff (w.stays_of_ends hfree (ends_of_across? hfar).2)).2.1, p, hp.1, rfl, rfl⟩

end CutOff

/-- Removing a subtree that no route touches keeps a graph well-formed. -/
theorem WellFormed.removeSubtree (w : g.WellFormed) {node : Id}
    (h : g.removeSubtree node = .ok g') (hfree : g.Unrouted (g.descendants node).contains) :
    g'.WellFormed := by
  obtain ⟨-, parent, hs, rfl⟩ := removeSubtree_eq w.tree h
  exact w.cutOff hs hfree

/-- The gates of the top-level group stay. -/
theorem removeSubtree_gate? (w : g.IsTree) {node : Id} (h : g.removeSubtree node = .ok g')
    {gate : Id} {p : Gate} (hp : g.gate? gate = some p) (hroot : p.group = g.root) :
    g'.gate? gate = some p := by
  obtain ⟨-, parent, hs, rfl⟩ := removeSubtree_eq w h
  rw [gate?_cutOff, hp]
  exact Option.filter_some_pos (by rw [hroot, hs.root_stays]; rfl)

/-! ## Clearing a subtree of its routes -/

/-- The graph without some routes. -/
def detachAll (g : Graph) (routes : List Id) : Graph := routes.foldl detach g

/-- One graph is the other without some of its routes, up to ids reserved. -/
structure Cleared (g g' : Graph) : Prop where
  rerouted : Rerouted g g'
  tacks : ∀ {t k}, g'.tack? t = some k → g.tack? t = some k
  buses : ∀ i, (g'.bus? i).map Bus.untacked = (g.bus? i).map Bus.untacked
  routes : ∀ {i r}, g'.route? i = some r → g.route? i = some r

theorem Cleared.refl (g : Graph) : Cleared g g :=
  ⟨⟨rfl, rfl, fun _ => rfl, fun _ => rfl⟩, id, fun _ => rfl, id⟩

theorem Cleared.trans {g₁ g₂ g₃ : Graph} (h : Cleared g₁ g₂) (h' : Cleared g₂ g₃) :
    Cleared g₁ g₃ where
  rerouted := h.rerouted.trans h'.rerouted
  tacks hk := h.tacks (h'.tacks hk)
  buses i := (h'.buses i).trans (h.buses i)
  routes hr := h.routes (h'.routes hr)

theorem OneMore.cleared {small big : Graph} {route : Id} {r : Route}
    (h : OneMore small big route r) : Cleared big small where
  rerouted := h.rerouted.symm
  tacks hk := (h.tack?_eq (IdMap.contains_of_get? hk)).trans hk
  buses i := (h.buses i).symm
  routes := by
    intro i x hx
    rw [h.others i, hx]
    intro hi
    rw [hi, h.absent] at hx
    cases hx

theorem WellFormed.route?_detach (w : g.WellFormed) (route i : Id) :
    (g.detach route).route? i = if i = route then none else g.route? i := by
  cases hr : g.route? route with
  | none =>
    have hd : g.detach route = g := by simp only [Graph.detach, hr]
    rw [hd]
    split
    · rename_i hi; rw [hi, hr]
    · rfl
  | some r =>
    have h := w.detach_oneMore hr
    split
    · rename_i hi; rw [hi, h.absent]
    · rename_i hi; rw [h.others i hi]

theorem WellFormed.detach_cleared (w : g.WellFormed) (route : Id) : Cleared g (g.detach route) := by
  cases hr : g.route? route with
  | none => simpa only [Graph.detach, hr] using Cleared.refl g
  | some r => exact (w.detach_oneMore hr).cleared

theorem WellFormed.detachAll (w : g.WellFormed) (routes : List Id) :
    (g.detachAll routes).WellFormed :=
  foldl_keeps WellFormed (fun _ _ _ w => w.detach) w

theorem WellFormed.detachAll_cleared (w : g.WellFormed) (routes : List Id) :
    Cleared g (g.detachAll routes) := by
  have h : (g.detachAll routes).WellFormed ∧ Cleared g (g.detachAll routes) :=
    foldl_keeps (fun c => c.WellFormed ∧ Cleared g c)
      (fun c route _ hc => ⟨hc.1.detach, hc.2.trans (hc.1.detach_cleared route)⟩)
      ⟨w, Cleared.refl g⟩
  exact h.2

theorem WellFormed.route?_detachAll (w : g.WellFormed) {routes : List Id} {i : Id}
    (hi : i ∈ routes) : (g.detachAll routes).route? i = none := by
  induction routes generalizing g with
  | nil => cases hi
  | cons route routes ih =>
    show ((g.detach route).detachAll routes).route? i = none
    rcases List.mem_cons.1 hi with hi | hi
    · -- once gone, a route does not come back
      have hgone : (g.detach route).route? i = none := by
        rw [w.route?_detach, if_pos hi]
      cases hr : ((g.detach route).detachAll routes).route? i with
      | none => rfl
      | some r =>
        rw [(w.detach.detachAll_cleared routes).routes hr] at hgone
        cases hgone
    · exact ih w.detach hi

theorem WellFormed.route?_detachAll_of_not_mem (w : g.WellFormed) {routes : List Id} {i : Id}
    (hi : i ∉ routes) : (g.detachAll routes).route? i = g.route? i := by
  induction routes generalizing g with
  | nil => rfl
  | cons route routes ih =>
    rw [List.mem_cons, not_or] at hi
    show ((g.detach route).detachAll routes).route? i = g.route? i
    rw [ih w.detach hi.2, w.route?_detach, if_neg hi.1]

theorem WellFormed.route?_detachAll_iff (w : g.WellFormed) (routes : List Id) {i : Id} {r : Route} :
    (g.detachAll routes).route? i = some r ↔ g.route? i = some r ∧ i ∉ routes := by
  by_cases hi : i ∈ routes
  · rw [w.route?_detachAll hi]
    constructor
    · intro h
      cases h
    · intro h
      exact absurd hi h.2
  · rw [w.route?_detachAll_of_not_mem hi]
    constructor
    · intro h
      exact ⟨h, hi⟩
    · intro h
      exact h.1

theorem WellFormed.nextId_detachAll (w : g.WellFormed) (routes : List Id) :
    (g.detachAll routes).nextId = g.nextId :=
  (foldl_keeps (fun c : Graph => c.WellFormed ∧ c.nextId = g.nextId)
    (fun _ route _ hc => ⟨hc.1.detach, (hc.1.nextId_detach route).trans hc.2⟩) ⟨w, rfl⟩).2

theorem outlineWithin_eq (h : g'.nodes = g.nodes) (depth : Nat) (n : Id) :
    g'.outlineWithin depth n = g.outlineWithin depth n := by
  induction depth generalizing n with
  | zero => rfl
  | succ depth ih =>
    have hc : g'.childrenOf n = g.childrenOf n := by
      unfold childrenOf group? node?
      rw [h]
    simp only [outlineWithin, hc, funext ih]

theorem descendants_eq (h : g'.nodes = g.nodes) (n : Id) : g'.descendants n = g.descendants n := by
  unfold descendants outline
  rw [outlineWithin_eq h, h]

/-- A graph with fewer routes says the same of where an endpoint belongs. -/
theorem Cleared.nodeOf? (h : Cleared g g') {e : Endpoint} {n : Id} (he : g'.nodeOf? e = some n) :
    g.nodeOf? e = some n := by
  cases e with
  | pin i => exact (h.rerouted.pinOwner?_eq i).symm.trans he
  | proxy i => exact (h.rerouted.gateOwner?_eq i).symm.trans he
  | pad i => exact (h.rerouted.gateOwner?_eq i).symm.trans he
  | tack t =>
    obtain ⟨b, hb, hn⟩ := Option.bind_eq_some_iff.1 he
    obtain ⟨k, hk, hkb⟩ := Option.map_eq_some_iff.1 hb
    have hbus : g.busOwner? b = some n :=
      (view_eq (fun o : Option Bus => o.map Bus.group) (h.buses b) fun _ => rfl).symm.trans hn
    exact Option.bind_eq_some_iff.2 ⟨b, Option.map_eq_some_iff.2 ⟨k, h.tacks hk, hkb⟩, hbus⟩

/-- Once the routes within a subtree are gone, its endpoints have none. -/
theorem WellFormed.unrouted_detachAll (w : g.WellFormed) (node : Id) :
    (g.detachAll (g.routesWithin node)).Unrouted (g.descendants node).contains := by
  intro e n he hn
  have hc := w.detachAll_cleared (g.routesWithin node)
  refine List.eq_nil_iff_forall_not_mem.2 fun i hi => ?_
  obtain ⟨r, hr, hend⟩ := (w.detachAll (g.routesWithin node)).routes.mem_iff.1 hi
  have hr' := hc.routes hr
  have hmem : i ∈ g.routesWithin node := by
    refine List.mem_filter.2 ⟨IdMap.mem_ids_iff.2 (IdMap.contains_of_get? hr'), ?_⟩
    rw [List.contains_iff_mem]
    refine List.mem_flatMap.2 ⟨e, List.mem_flatMap.2 ⟨n, ?_, w.mem_endpointsOf (hc.nodeOf? he)⟩, ?_⟩
    · rw [← List.contains_iff_mem]
      exact hn
    · exact w.routes.mem_iff.2 ⟨r, hr', hend⟩
  rw [w.route?_detachAll hmem] at hr
  cases hr

/-- Once the routes within a subtree are gone, no route touches it. -/
theorem WellFormed.free_detachAll (w : g.WellFormed) (node : Id) :
    (g.detachAll (g.routesWithin node)).Unrouted
      ((g.detachAll (g.routesWithin node)).descendants node).contains := by
  rw [descendants_eq (w.detachAll_cleared _).rerouted.nodes]
  exact w.unrouted_detachAll node

/-- Removing a node with everything below it and every route there keeps a graph well-formed. -/
theorem WellFormed.removeNode (w : g.WellFormed) {node : Id}
    (h : (g.detachAll (g.routesWithin node)).removeSubtree node = .ok g') : g'.WellFormed :=
  (w.detachAll _).removeSubtree h (w.free_detachAll node)

end MessageGraph.Graph
