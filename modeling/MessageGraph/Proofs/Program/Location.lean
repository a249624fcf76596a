import MessageGraph.Program.Compile
import MessageGraph.Proofs.Blueprint.LinkedContent

/-!
# Locations of behaviors in an expanded link

A behavior without a location of its own comes from the library of the nearest group around it that has one
(`inherited?`). When a link is expanded, every group below the top-level group of the linked model takes its
library along, but the group that is filled keeps its own settings. So where that group has no library, and none is
around it, a behavior comes from where it came from in the linked model (`Expanded.inherited?_copy`), unless
that was the library of the top-level group: such a behavior comes from the default.

Results: `expandLink_locations`, and `expandLink_location_lost` for a library at the top of a linked model.
-/
namespace MessageGraph

def Element.rename (f : Renaming) : Element → Element
  | .source n => .source (f .node n)
  | .filter bus => .filter (f .bus bus)

namespace Graph

variable {g : Graph} {n m : Id}

/-! ## Libraries -/

def library? (g : Graph) (n : Id) : Option String := (g.group? n).bind (·.library)

/-- The library that a node is in: that of the nearest group with a library, from the node itself up. -/
def inherited? (g : Graph) (n : Id) : Option String := (g.lineage n).findSome? g.library?

/-- The group whose library a node is in. -/
def libraryGroup? (g : Graph) (n : Id) : Option Id := (g.lineage n).find? fun m => (g.library? m).isSome

theorem locationFor_eq (g : Graph) (n : Id) (behavior : BehaviorRef) (default : String) :
    g.locationFor n behavior default = (behavior.location.or (g.inherited? n)).getD default := by
  unfold locationFor
  cases behavior.location <;> rfl

theorem library?_eq (g : Graph) (n : Id) : g.library? n = (g.label? n).bind (·.library) := by
  unfold library? group? label?
  cases g.node? n <;> rfl

theorem behaviorOf?_source (g : Graph) (n : Id) :
    g.behaviorOf? (.source n) = (g.label? n).bind fun l => l.behavior.map fun behavior => (behavior, n) := by
  show (g.source? n).map (fun s => (s.behavior, n)) = _
  unfold source? label?
  cases g.node? n with
  | none => rfl
  | some m =>
    simp only [Option.bind_some, Option.map_some, Node.label, Option.map_map]
    rfl

theorem inherited?_eq_none (h : ∀ m ∈ g.lineage n, g.library? m = none) : g.inherited? n = none :=
  List.findSome?_eq_none_iff.2 h

theorem IsTree.inherited?_eq (w : g.IsTree) (n : Id) :
    g.inherited? n = (g.library? n).or ((g.parent? n).bind g.inherited?) := by
  rw [inherited?, w.lineage_eq, List.findSome?_cons]
  cases g.library? n <;> cases g.parent? n <;> rfl

theorem IsTree.libraryGroup?_eq (w : g.IsTree) (n : Id) :
    g.libraryGroup? n = if (g.library? n).isSome then some n else (g.parent? n).bind g.libraryGroup? := by
  rw [libraryGroup?, w.lineage_eq, List.find?_cons]
  cases g.library? n <;> cases g.parent? n <;> rfl

end Graph

namespace Copying.Expanded

open MessageGraph.Graph (Below)

variable {linked base h : Graph} {group n x : Id} {nodes done : List (Id × Id)} {c c' : Copying}
  {k : EntityKind} (y : Expanded linked base group nodes done c c' h)

include y

/-! ## What the copies say -/

theorem label?_eq (x : Id) : h.label? x = c.graph.label? x := by
  have hc : c'.graph.label? x = c.graph.label? x := by
    unfold Graph.label? Graph.node?
    rw [y.replayed.rerouted.nodes]
  rw [← hc, y.graph, Graph.modifyGroup, label?_modifyNode]
  unfold Graph.label?
  refine congrArg (fun f => Option.map f (c'.graph.node? x)) (funext fun m => ?_)
  split
  · exact Node.label_mapGroup_of_eq (f := Group.expanded) (fun _ => rfl) m
  · rfl

theorem library?_old (hn : base.nodes.contains n = true) : h.library? n = base.library? n := by
  rw [Graph.library?_eq, Graph.library?_eq, y.label?_eq, (y.traced.frame.sameNode hn).label?_eq]

/-- A copy below the group has the label of its original. -/
theorem label?_copy (hn : linked.nodes.contains n = true) (hroot : n ≠ linked.root) :
    h.label? (c.standIn nodes .node n) = linked.label? n := by
  rw [y.label?_eq]
  exact y.labelled n _ (y.traced.mem_standIn y.complete (k := .node) nofun nofun hn) hroot

theorem parent?_copy (wl : linked.WellFormed) {p : Id} (hp : linked.parent? n = some p) :
    h.parent? (c.standIn nodes .node n) = some (c.standIn nodes .node p) := by
  rw [y.parent?_eq]
  exact y.ownerOf?_standIn (k := .node) wl
    (y.traced.mem_standIn y.complete (k := .node) nofun nofun (Graph.contains_of_parent? hp)) hp

/-! ## The library around a copy -/

/-- What was there is in the library that it was in. -/
theorem inherited?_old (wb : base.WellFormed) (hn : base.nodes.contains n = true) :
    h.inherited? n = base.inherited? n := by
  have hroot := wb.tree.rooted hn
  induction hroot using Relation.ReflTransGen.head_induction_on with
  | refl =>
    rw [y.wellFormed.tree.inherited?_eq, wb.tree.inherited?_eq, y.library?_old hn, y.parent?_old hn,
      wb.tree.root_top]
    rfl
  | head hp _ ih =>
    rw [y.wellFormed.tree.inherited?_eq, wb.tree.inherited?_eq, y.library?_old hn, y.parent?_old hn, hp,
      Option.bind_some, Option.bind_some, ih (wb.tree.contains_parent hp)]

/-- A copy is in the library that its original is in, unless that is the one of the top-level group. -/
theorem inherited?_copy (wb : base.WellFormed) (wl : linked.WellFormed) (hnone : base.inherited? group = none)
    (hn : linked.nodes.contains n = true) : h.inherited? (c.standIn nodes .node n) =
      if linked.libraryGroup? n = some linked.root then none else linked.inherited? n := by
  have hroot := wl.tree.rooted hn
  induction hroot using Relation.ReflTransGen.head_induction_on with
  | refl =>
    rw [y.traced.standIn_eq (k := .node) y.traced.host, y.inherited?_old wb y.traced.frame.site, hnone,
      wl.tree.libraryGroup?_eq, wl.tree.inherited?_eq, wl.tree.root_top]
    cases linked.library? linked.root <;> simp
  | @head n p hp _ ih =>
    have hne : n ≠ linked.root := by
      rintro rfl
      cases wl.tree.root_top.symm.trans hp
    have hlibrary : h.library? (c.standIn nodes .node n) = linked.library? n := by
      rw [Graph.library?_eq, Graph.library?_eq, y.label?_copy hn hne]
    rw [y.wellFormed.tree.inherited?_eq, wl.tree.inherited?_eq, wl.tree.libraryGroup?_eq, hlibrary,
      y.parent?_copy wl hp, hp, Option.bind_some, Option.bind_some, Option.bind_some,
      ih (wl.tree.contains_parent hp)]
    cases linked.library? n with
    | none => simp
    | some library => simp [hne]

/-! ## The behavior of a copy -/

/-- What runs in the content has a copy with the same behavior. -/
theorem behaviorOf?_copy (wl : linked.WellFormed) {e : Element} {behavior : BehaviorRef}
    (he : linked.behaviorOf? e = some (behavior, n)) :
    h.behaviorOf? (e.rename (c.standIn nodes)) = some (behavior, c.standIn nodes .node n) := by
  cases e with
  | source i =>
    obtain ⟨s, hs, heq⟩ := Option.map_eq_some_iff.1 he
    cases heq
    have hroot : n ≠ linked.root := by
      rintro rfl
      obtain ⟨top, htop⟩ := wl.tree.root_group
      cases (Graph.source?_of_group? htop).symm.trans hs
    rw [Graph.behaviorOf?_source] at he
    rw [Element.rename, Graph.behaviorOf?_source, y.label?_copy (Graph.contains_of_source? hs) hroot]
    obtain ⟨l, hl, hbehavior⟩ := Option.bind_eq_some_iff.1 he
    obtain ⟨_, hb, heq⟩ := Option.map_eq_some_iff.1 hbehavior
    cases heq
    rw [hl, Option.bind_some, hb, Option.map_some]
  | filter bus =>
    obtain ⟨b, hb, he⟩ := Option.bind_eq_some_iff.1 he
    obtain ⟨f, hf, heq⟩ := Option.map_eq_some_iff.1 he
    cases heq
    obtain ⟨d, hd, hgroup, -, hfilter⟩ := y.copy_bus wl hb
    obtain ⟨d', hd', heq⟩ := Option.map_eq_some_iff.1 ((y.bus?_eq _).trans (congrArg _ hd))
    simp only [Bus.untacked, Bus.mk.injEq] at heq
    simp only [Element.rename, Graph.behaviorOf?, hd', Option.bind_some, heq, hgroup, hfilter, hf, Option.map_some]

/-- New nodes and buses have new ids: nothing of any kind had them. -/
theorem standIn_fresh (hk : k = .node ∨ k = .bus) (hi : linked.has k n = true) (hroot : k = .node → n ≠ linked.root) :
    h.has k (c.standIn nodes k n) = true ∧ ∀ k', base.has k' (c.standIn nodes k n) = false := by
  have ht : k ≠ .tack := by rcases hk with rfl | rfl <;> nofun
  have hr : k ≠ .route := by rcases hk with rfl | rfl <;> nofun
  have hmem := y.traced.mem_standIn y.complete ht hr hi
  refine ⟨(y.has_eq ht hr _).trans (y.traced.live hmem).2, fun k' => ?_⟩
  cases hold : base.has k' (c.standIn nodes k n) with
  | false => rfl
  | true =>
    cases y.traced.wellFormed.ids.one_kind (y.traced.live hmem).2 (y.traced.grows k' _ hold)
    rcases y.traced.bound hmem hold with ⟨he, hn⟩ | ⟨rfl, -⟩
    · exact absurd hn (hroot he)
    · rcases hk with hk | hk <;> cases hk

end Copying.Expanded

/-! ## The theorem -/

namespace Graph

/-- The nodes and buses of `linked` stand in a group of `g'` under new ids, with their names and behaviors, and every
behavior comes from where it came from, but that the library of the top-level group is left behind. -/
structure Relocates (linked g : Graph) (group : Id) (g' : Graph) (f : Renaming) : Prop where
  site : f .node linked.root = group
  fresh : ∀ {k i}, k = .node ∨ k = .bus → linked.has k i = true → (k = .node → i ≠ linked.root) →
    g'.has k (f k i) = true ∧ ∀ k', g.has k' (f k i) = false
  inj : ∀ {k i j}, k = .node ∨ k = .bus → linked.has k i = true → linked.has k j = true → f k i = f k j → i = j
  parent : ∀ {n p}, linked.parent? n = some p → g'.parent? (f .node n) = some (f .node p)
  label : ∀ {n}, linked.nodes.contains n = true → n ≠ linked.root → g'.label? (f .node n) = linked.label? n
  behavior : ∀ {e behavior n}, linked.behaviorOf? e = some (behavior, n) →
    g'.behaviorOf? (e.rename f) = some (behavior, f .node n)
  location : ∀ {e behavior n}, linked.behaviorOf? e = some (behavior, n) → ∀ default,
    g'.locationFor (f .node n) behavior default =
      if behavior.location = none ∧ linked.libraryGroup? n = some linked.root then default
      else linked.locationFor n behavior default

end Graph

theorem Copying.Expanded.relocates {linked base h : Graph} {group : Id} {nodes done : List (Id × Id)}
    {c c' : Copying} (y : Expanded linked base group nodes done c c' h) (wb : base.WellFormed)
    (wl : linked.WellFormed) (hnone : base.inherited? group = none) :
    Graph.Relocates linked base group h (c.standIn nodes) where
  site := y.traced.standIn_eq (k := .node) y.traced.host
  fresh := y.standIn_fresh
  inj {k i j} hk hi hj he := by
    have ht : k ≠ .tack := by rcases hk with rfl | rfl <;> nofun
    have hr : k ≠ .route := by rcases hk with rfl | rfl <;> nofun
    exact (y.traced.single (y.traced.mem_standIn y.complete ht hr hi)
      (y.traced.mem_standIn y.complete ht hr hj)).2 he
  parent := y.parent?_copy wl
  label := y.label?_copy
  behavior := y.behaviorOf?_copy wl
  location {e behavior n} he default := by
    have hn : linked.nodes.contains n = true := by
      cases e with
      | source i =>
        obtain ⟨s, hs, heq⟩ := Option.map_eq_some_iff.1 he
        cases heq
        exact Graph.contains_of_source? hs
      | filter bus =>
        obtain ⟨b, hb, he⟩ := Option.bind_eq_some_iff.1 he
        obtain ⟨f, -, heq⟩ := Option.map_eq_some_iff.1 he
        cases heq
        exact wl.contains_owner (k := .bus) (Option.map_eq_some_iff.2 ⟨b, hb, rfl⟩)
    rw [Graph.locationFor_eq, Graph.locationFor_eq, y.inherited?_copy wb wl hnone hn]
    cases behavior.location with
    | some location => simp
    | none => by_cases htop : linked.libraryGroup? n = some linked.root <;> simp [htop]

namespace Blueprint

variable {b l : Blueprint} {group : Id} {s : Group}

/-- Expanding a link of a group without a library on it or around it does not fail. A source or a filter of the
linked model has a copy that comes from where it came from, whatever the default is, unless it came from the library
of the top-level group: then it comes from the default. -/
theorem expandLink_locations (hb : b.Reachable) (hl : l.Reachable) (hs : b.graph.group? group = some s)
    (hnone : ∀ n ∈ b.graph.lineage group, b.graph.library? n = none) :
    ∃ b' f, b.expandLink group l.graph = .ok b' ∧ Graph.Relocates l.graph b.graph group b'.graph f := by
  have wb := hb.wellFormed
  have wl := hl.wellFormed
  obtain ⟨b', nodes, done, c, c', hok, y⟩ := exists_expandLink wb wl hs
  exact ⟨b', _, hok, y.relocates wb wl (Graph.inherited?_eq_none hnone)⟩

/-- A model with an empty group. -/
def shelf : Blueprint := (new "main").run [.edit (.addGroup none 1 "shelf")]

/-- A source and a filter, and a group with a library of its own that has a source and a filter too. -/
def shelved : Blueprint :=
  (new "part").run
    [.edit (.setLibrary 1 (some "top")), .edit (.addSource none 1 "A" { identifier := "lamp" }),
      .edit (.addBus none 1 "B" (some { identifier := "sieve", location := some "far" })),
      .edit (.addGroup none 1 "G"), .edit (.setLibrary 4 (some "low")),
      .edit (.addSource none 4 "C" { identifier := "lamp" }), .edit (.addBus none 4 "D" (some { identifier := "sieve" }))]

theorem expandLink_locations_shelved :
    shelf.Reachable ∧ shelved.Reachable ∧ (∃ s, shelf.graph.group? 2 = some s) ∧
      (∀ n ∈ shelf.graph.lineage 2, shelf.graph.library? n = none) ∧
      ∃ b' f, shelf.expandLink 2 shelved.graph = .ok b' ∧
        Graph.Relocates shelved.graph shelf.graph 2 b'.graph f := by
  have hshelf : shelf.Reachable := .run_new "main" rfl
  have hshelved : shelved.Reachable := .run_new "part" rfl
  have hnone : ∀ n ∈ shelf.graph.lineage 2, shelf.graph.library? n = none := by decide
  exact ⟨hshelf, hshelved, ⟨_, rfl⟩, hnone, expandLink_locations hshelf hshelved (s := { }) rfl hnone⟩

/-- The library of a top-level group gets lost: the source comes from `top` in the linked model, whatever the default
is, and its copy from the default. -/
theorem expandLink_location_lost :
    shelf.Reachable ∧ shelved.Reachable ∧ (∀ n ∈ shelf.graph.lineage 2, shelf.graph.library? n = none) ∧
      shelved.graph.behaviorOf? (.source 2) = some ({ identifier := "lamp" }, 2) ∧
      (∀ default, shelved.graph.locationFor 2 { identifier := "lamp" } default = "top") ∧
      ∀ default, (shelf.expandLink 2 shelved.graph).toOption.map (fun b' =>
          ((b'.graph.node? 4).map (·.name), b'.graph.behaviorOf? (.source 4),
            b'.graph.locationFor 4 { identifier := "lamp" } default)) =
        some (some "A", some ({ identifier := "lamp" }, 4), default) :=
  ⟨.run_new "main" rfl, .run_new "part" rfl, by decide, by cbv, fun _ => by cbv, fun _ => by cbv⟩

end Blueprint
end MessageGraph
