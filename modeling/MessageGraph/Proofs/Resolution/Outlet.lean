import MessageGraph.Proofs.Resolution.Carry

/-!
# Where messages leave the graph

Everything a message is delivered to it stays delivered to as a graph grows, with one exception: at
a gate of the top-level group it leaves the graph only as long as no route goes on from there.
`Turns` says that this is different in two graphs; `Grown.lost_iff` that nothing else makes an
origin lose a key.
-/
namespace MessageGraph.Graph

variable {g g' small big : Graph} {name : String} {origin : Endpoint}

/-- Messages from an origin leave the graph at a gate. -/
def Leaves (g : Graph) (origin : Endpoint) (gate : Id) : Prop :=
  g.isOrigin origin = true ∧ g.Delivers (g.nameOf origin) origin (.boundary g.root gate)

/-- In one of two graphs messages from an origin leave at a gate from which a route goes on in the
other. -/
def Turns (g g' : Graph) (origin : Endpoint) (gate : Id) : Prop :=
  (g.Leaves origin gate ∧ g'.routesOf (.pad gate) ≠ []) ∨
    (g'.Leaves origin gate ∧ g.routesOf (.pad gate) ≠ [])

theorem Leaves.routesOf_eq_nil {gate : Id} (h : g.Leaves origin gate) :
    g.routesOf (.pad gate) = [] := by
  obtain ⟨_, _, _, _, hpad⟩ := h.2.gate
  exact hpad

/-- The top-level group has no pins. -/
theorem WellFormed.node_ne_root (w : g.WellFormed) {i : Id} {p : Pin} (hp : g.pin? i = some p) :
    p.node ≠ g.root := by
  intro hroot
  have hi : i ∈ g.pinIds g.root := w.pins.mem_iff.2 (by rw [pinOwner?, hp, Option.map_some, hroot])
  obtain ⟨s, hs⟩ := w.tree.root_group
  unfold pinIds source? at hi
  unfold group? at hs
  cases hn : g.node? g.root with
  | none => rw [hn] at hs; cases hs
  | some n =>
    rw [hn, Option.bind_some] at hs hi
    unfold Node.group? at hs
    unfold Node.source? at hi
    cases hk : n.kind with
    | source x => rw [hk] at hs; cases hs
    | group x => rw [hk] at hi; cases hi

/-- No other target has the key of a gate of the top-level group. -/
theorem Delivers.eq_boundary (w : g.WellFormed) {x : Target} (hx : g.Delivers name origin x)
    {gate : Id} {p : Gate} (hp : g.gate? gate = some p) (hroot : p.group = g.root)
    (hkey : g.targetKey x = g.targetKey (.boundary g.root gate)) : x = .boundary g.root gate := by
  cases hx with
  | pin _ _ hq _ =>
    simp only [targetKey, TargetKey.mk.injEq, TargetOwner.node.injEq] at hkey
    exact absurd hkey.1 (w.node_ne_root hq)
  | tack _ _ _ _ _ =>
    simp only [targetKey, TargetKey.mk.injEq, reduceCtorEq, false_and] at hkey
  | boundary _ _ hq hqroot _ _ =>
    simp only [targetKey, TargetKey.mk.injEq, nameOf, name?, hq, hp, Option.map_some,
      Option.getD_some] at hkey
    rw [w.names.gates hq hp (hqroot.trans hroot.symm) hkey.2, hqroot]

namespace Grown

/-- As a graph grows an origin loses a key only where its messages left the graph and a route leads on
now. -/
theorem lost_iff (h : Grown small big) (w : small.WellFormed) (w' : big.WellFormed)
    (ho : small.isOrigin origin = true) {k : TargetKey} :
    (k ∈ small.reachedKeys origin ∧ k ∉ big.reachedKeys origin) ↔
      ∃ gate, small.Leaves origin gate ∧ big.routesOf (.pad gate) ≠ [] ∧
        small.targetKey (.boundary small.root gate) = k := by
  rw [mem_reachedKeys w ho, mem_reachedKeys w' (h.isOrigin ho), h.nameOf_eq ho]
  constructor
  · intro hk
    obtain ⟨⟨t, ht, hkey⟩, hlost⟩ := hk
    rcases h.delivers_or_leads_on w w' ht with ⟨group, gate, rfl, hpad⟩ | ht'
    · obtain ⟨_, _, _, hgroup, _⟩ := ht.gate
      subst hgroup
      exact ⟨gate, ⟨ho, ht⟩, hpad, hkey⟩
    · exact absurd ⟨t, ht', (h.targetKey_eq ht).trans hkey⟩ hlost
  · intro hk
    obtain ⟨gate, ⟨-, hd⟩, hpad, hkey⟩ := hk
    refine ⟨⟨_, hd, hkey⟩, fun hlost => ?_⟩
    obtain ⟨x, hx, hxk⟩ := hlost
    obtain ⟨p, hp, hroot, -, -⟩ := hd.gate
    obtain ⟨q, hq, hgroup, -⟩ := (h.kept (e := .pad gate) (IdMap.contains_of_get? hp)).gate hp
    have hqroot : q.group = big.root := by rw [hgroup, hroot, h.root]
    have hkey' := h.targetKey_eq hd
    rw [hkey, ← hxk, ← h.root] at hkey'
    have heq := hx.eq_boundary w' hq hqroot hkey'.symm
    rw [heq] at hx
    have ho' := h.isOrigin ho
    rw [← h.nameOf_eq ho] at hx
    exact hpad (Leaves.routesOf_eq_nil ⟨ho', hx⟩)

/-- A key lost as a graph grows is that of a gate where messages turn. -/
theorem turns_iff (h : Grown small big) (w : small.WellFormed) (w' : big.WellFormed)
    {k : TargetKey} :
    (∃ gate, Turns small big origin gate ∧ small.targetKey (.boundary small.root gate) = k) ↔
      small.isOrigin origin = true ∧ k ∈ small.reachedKeys origin ∧
        k ∉ big.reachedKeys origin := by
  constructor
  · intro ht
    obtain ⟨gate, ⟨hl, hpad⟩ | ⟨hl, hpad⟩, hkey⟩ := ht
    · exact ⟨hl.1, (h.lost_iff w w' hl.1).2 ⟨gate, hl, hpad, hkey⟩⟩
    · exact absurd (h.routesOf_eq_nil w w' hl.routesOf_eq_nil) hpad
  · intro hlost
    obtain ⟨ho, hlost⟩ := hlost
    obtain ⟨gate, hl, hpad, hkey⟩ := (h.lost_iff w w' ho).1 hlost
    exact ⟨gate, Or.inl ⟨hl, hpad⟩, hkey⟩

/-- The same, seen from the larger graph. -/
theorem turns_symm_iff (h : Grown small big) (w : small.WellFormed) (w' : big.WellFormed)
    {k : TargetKey} :
    (∃ gate, Turns big small origin gate ∧ big.targetKey (.boundary big.root gate) = k) ↔
      small.isOrigin origin = true ∧ k ∈ small.reachedKeys origin ∧
        k ∉ big.reachedKeys origin := by
  rw [← h.turns_iff w w']
  constructor
  · intro ht
    obtain ⟨gate, ⟨hl, hpad⟩ | ⟨hl, hpad⟩, hkey⟩ := ht
    · exact absurd (h.routesOf_eq_nil w w' hl.routesOf_eq_nil) hpad
    · rw [h.root, h.targetKey_eq hl.2] at hkey
      exact ⟨gate, Or.inl ⟨hl, hpad⟩, hkey⟩
  · intro ht
    obtain ⟨gate, ⟨hl, hpad⟩ | ⟨hl, hpad⟩, hkey⟩ := ht
    · rw [← h.targetKey_eq hl.2, ← h.root] at hkey
      exact ⟨gate, Or.inr ⟨hl, hpad⟩, hkey⟩
    · exact absurd (h.routesOf_eq_nil w w' hl.routesOf_eq_nil) hpad

/-- A key that is reached in a graph and in one that has grown from it twice is reached in between. -/
theorem mem_between {mid : Graph} (h : Grown small mid) (h' : Grown mid big) (w : small.WellFormed)
    (wmid : mid.WellFormed) (w' : big.WellFormed) (ho : small.isOrigin origin = true)
    {k : TargetKey} (hsmall : k ∈ small.reachedKeys origin) (hbig : k ∈ big.reachedKeys origin) :
    k ∈ mid.reachedKeys origin := by
  by_contra hmid
  obtain ⟨gate, hl, hpad, hkey⟩ := (h.lost_iff w wmid ho).1 ⟨hsmall, hmid⟩
  have hpad' : big.routesOf (.pad gate) ≠ [] := fun hnil =>
    hpad (h'.routesOf_eq_nil wmid w' hnil)
  exact (((h.trans h').lost_iff w w' ho).2 ⟨gate, hl, hpad', hkey⟩).2 hbig

end Grown

/-- Graphs with the same routes turn no messages. -/
theorem Within.not_turns (h : Within g g') (hback : Within g' g) (w : g.WellFormed)
    (w' : g'.WellFormed) {gate : Id} : ¬ Turns g g' origin gate := by
  intro ht
  rcases ht with ⟨hl, hpad⟩ | ⟨hl, hpad⟩
  · exact hpad (hback.routesOf_eq_nil w' w hl.routesOf_eq_nil)
  · exact hpad (h.routesOf_eq_nil w w' hl.routesOf_eq_nil)

end MessageGraph.Graph
