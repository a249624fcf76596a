import MessageGraph.Proofs.Resolution.Outlet
import MessageGraph.Proofs.Resolution.Tables

/-!
# Tables kept in step and tables from scratch

`Tables.Agrees` says that tables have a key at an origin exactly if the tables built from scratch have
it, and `Tables.Distinct` that they have no key twice. Tables that `Follow` a change stay sound and
distinct, and stay in agreement at every origin and key but those where messages turn. They follow
additions that no route touches (`Sound.follows_grown`), a new route (`Sound.follows_extended`), and the
removal of any number of routes (`Shrunk.parted`, `Shrunk.prune`, `Shrunk.follows`).
-/
namespace MessageGraph

open MessageGraph.Graph (Grown Within OneMore Turns)

namespace Graph

variable {g g' : Graph} {name : String} {origin : Endpoint}

theorem Reaches.contains_origin {e : Endpoint} (h : g.Reaches name origin e)
    (he : g.contains e = true) : g.contains origin = true := by
  induction h with
  | start => exact he
  | leave _ hc _ ih => exact ih hc.contains.1
  | enter _ hc ih => exact ih hc.contains.1
  | spread _ hc _ _ _ _ _ _ _ ih => exact ih hc.contains.1

/-- What is delivered comes from an endpoint that is there. -/
theorem Delivers.contains_origin {t : Target} (h : g.Delivers name origin t) :
    g.contains origin = true := by
  cases h with
  | pin he hc _ _ => exact he.contains_origin hc.contains.1
  | tack he hc _ _ _ => exact he.contains_origin hc.contains.1
  | boundary he hc _ _ _ _ => exact he.contains_origin hc.contains.1

/-- An origin reaches the same in two graphs with the same routes. -/
theorem Grown.mem_reachedKeys_iff (h : Grown g g') (hback : Within g' g) (w : g.WellFormed)
    (w' : g'.WellFormed) (ho : g.isOrigin origin = true) {k : TargetKey} :
    k ∈ g'.reachedKeys origin ↔ k ∈ g.reachedKeys origin := by
  rw [mem_reachedKeys w' (h.isOrigin ho), mem_reachedKeys w ho, h.nameOf_eq ho]
  constructor
  · intro hk
    obtain ⟨t, ht, hkey⟩ := hk
    exact ⟨t, hback.delivers h.toWithin w' w ht, (hback.targetKey_eq ht).trans hkey⟩
  · intro hk
    obtain ⟨t, ht, hkey⟩ := hk
    exact ⟨t, h.delivers hback w w' ht, (h.targetKey_eq ht).trans hkey⟩

end Graph

namespace Tables

variable {g g' small big : Graph} {t : Tables} {origin : Endpoint} {k : TargetKey}

/-- Tables have a key at an origin exactly if the tables from scratch have it. -/
def Agrees (t : Tables) (g : Graph) (origin : Endpoint) (k : TargetKey) : Prop :=
  k ∈ t.keys g origin ↔ k ∈ (build g).keys g origin

theorem mem_keys_build :
    k ∈ (build g).keys g origin ↔ g.isOrigin origin = true ∧ k ∈ g.reachedKeys origin := by
  unfold keys
  by_cases ho : g.isOrigin origin = true
  · rw [get_build ho]
    exact ⟨fun h => ⟨ho, h⟩, fun h => h.2⟩
  · rw [get_eq, table?_build, if_neg ho]
    exact ⟨nofun, fun h => absurd h.1 ho⟩

theorem Sound.not_mem_keys (ht : t.Sound g) (ho : ¬ g.isOrigin origin = true) :
    k ∉ t.keys g origin := by
  rw [keys, ht.get_eq_nil (Bool.eq_false_iff.2 ho)]
  exact List.not_mem_nil

/-- No table has two targets of one key. -/
def Distinct (t : Tables) (g : Graph) : Prop := ∀ o, (t.keys g o).Nodup

/-- Sound tables stay sound in a change, and in agreement with those from scratch except where messages
turn; and distinct, if they are. -/
structure Follows (g : Graph) (t : Tables) (g' : Graph) (t' : Tables) : Prop where
  root : g'.root = g.root
  sound : t'.Sound g'
  distinct : t.Distinct g → t'.Distinct g'
  agrees : ∀ {o k}, t.Agrees g o k → (t'.Agrees g' o k ↔
    ¬ ∃ gate, Turns g g' o gate ∧ g.targetKey (.boundary g.root gate) = k)

/-- Neither has a table for what is no origin. -/
theorem Sound.agrees_of_not_isOrigin (ht : t.Sound g) (ho : ¬ g.isOrigin origin = true) :
    t.Agrees g origin k := by
  unfold Agrees
  rw [mem_keys_build]
  exact ⟨fun h => absurd h (ht.not_mem_keys ho), fun h => absurd h.1 ho⟩

theorem distinct_build (g : Graph) : (build g).Distinct g := by
  intro o
  unfold keys
  by_cases ho : g.isOrigin o = true
  · rw [get_build ho]
    exact Graph.nodup_keys_firstByKey _
  · rw [get_eq, table?_build, if_neg ho]
    exact List.Pairwise.nil

/-- Only the tables of origins can have anything twice. -/
theorem Sound.distinct_of_origins (ht : t.Sound g)
    (h : ∀ o, g.isOrigin o = true → (t.keys g o).Nodup) : t.Distinct g := by
  intro o
  by_cases ho : g.isOrigin o = true
  · exact h o ho
  · rw [keys, ht.get_eq_nil (Bool.eq_false_iff.2 ho)]
    exact List.Pairwise.nil

/-! ## What is not on a route -/

/-- Tables stay sound as the graph grows. -/
theorem Sound.grown (ht : t.Sound g) (h : Grown g g') (w : g.WellFormed) (w' : g'.WellFormed) :
    t.Sound g' where
  absent := by
    intro e he
    refine ht.absent (Bool.eq_false_iff.2 fun ho => ?_)
    rw [h.isOrigin ho] at he
    cases he
  admits := by
    intro o x _ hx
    have ho := ht.isOrigin_of_mem hx
    exact (ht.admits ho hx).grown h w w' ho

theorem Sound.distinct_grown (ht : t.Sound g) (h : Grown g g') (hd : t.Distinct g) :
    t.Distinct g' := by
  intro o
  rw [ht.keys_grown h]
  exact hd o

/-- An addition that no route touches makes no difference. -/
theorem Sound.agrees_grown (ht : t.Sound g) (h : Grown g g') (hback : Within g' g)
    (w : g.WellFormed) (w' : g'.WellFormed) : t.Agrees g' origin k ↔ t.Agrees g origin k := by
  unfold Agrees
  rw [ht.keys_grown h, mem_keys_build, mem_keys_build]
  by_cases ho : g.isOrigin origin = true
  · rw [h.mem_reachedKeys_iff hback w w' ho]
    simp only [ho, h.isOrigin ho]
  · -- an origin that is new is not on a route yet
    have hnone : ¬ (g'.isOrigin origin = true ∧ k ∈ g'.reachedKeys origin) := by
      intro hk
      obtain ⟨ho', hk⟩ := hk
      obtain ⟨x, hx, -⟩ := (Graph.mem_reachedKeys w' ho').1 hk
      have hlive := (hback.delivers h.toWithin w' w hx).contains_origin
      exact ho (h.isOrigin_of_contains ho' hlive)
    exact iff_congr Iff.rfl ⟨fun hk => absurd hk hnone, fun hk => absurd hk.1 ho⟩

theorem Sound.follows_grown (ht : t.Sound g) (h : Grown g g') (hback : Within g' g)
    (w : g.WellFormed) (w' : g'.WellFormed) : Follows g t g' t where
  root := h.root
  sound := ht.grown h w w'
  distinct := fun hd => ht.distinct_grown h hd
  agrees := by
    intro o k ha
    refine iff_of_true ((ht.agrees_grown h hback w w').2 ha) fun hturn => ?_
    obtain ⟨gate, hturn, -⟩ := hturn
    exact h.not_turns hback w w' hturn

theorem table?_prune (e : Endpoint) :
    (t.prune g).table? e = if g.contains e = true then t.table? e else none := by
  cases e with
  | pin i =>
    show (t.pins.filter fun id _ => g.pins.contains id).get? i =
      if g.pins.contains i = true then t.pins.get? i else none
    exact IdMap.get?_filter_ids _ _ _
  | tack i =>
    show (t.tacks.filter fun id _ => g.tacks.contains id).get? i =
      if g.tacks.contains i = true then t.tacks.get? i else none
    exact IdMap.get?_filter_ids _ _ _
  | proxy i => exact (ite_self _).symm
  | pad i => exact (ite_self _).symm

theorem get_prune (ho : g.isOrigin origin = true) : (t.prune g).get origin = t.get origin := by
  rw [get_eq, table?_prune,
    if_pos (Graph.contains_of_direction (Graph.output_of_isOrigin ho)), get_eq]

section Prune

variable (h : Grown small big) (hto : Within big small) (w : small.WellFormed)
  (w' : big.WellFormed)
  (htop : ∀ gate p, big.gate? gate = some p → p.group = big.root → small.gate? gate = some p)

include h hto w w' htop

/-- What a table may hold it may hold when entities go that no route touches. -/
theorem Admits.shrunk (ho : small.isOrigin origin = true) {x : Target} (hx : Admits big origin x) :
    Admits small origin x := by
  rcases hx with hd | ⟨gate, p, rfl, hp, hroot, hout⟩
  · left
    rw [← h.nameOf_eq ho]
    exact hto.delivers h.toWithin w' w hd
  · exact Or.inr ⟨gate, p, by rw [h.root], htop gate p hp hroot, by rw [hroot, h.root], hout⟩

theorem Sound.prune (ht : t.Sound big) : (t.prune small).Sound small where
  absent := by
    intro e he
    rw [table?_prune]
    split
    · rename_i hlive
      refine ht.absent ?_
      rw [(h.kept hlive).isOrigin_eq, he]
    · rfl
  admits := by
    intro o x ho hx
    rw [get_prune ho] at hx
    exact (ht.admits (h.isOrigin ho) hx).shrunk h hto w w' htop ho

theorem Sound.keys_prune (ht : t.Sound big) (ho : small.isOrigin origin = true) :
    (t.prune small).keys small origin = t.keys big origin := by
  unfold keys
  rw [get_prune ho]
  refine List.map_congr_left fun x hx => ?_
  have hx' := (ht.admits (h.isOrigin ho) hx).shrunk h hto w w' htop ho
  exact (hx'.targetKey_eq h).symm

end Prune

/-! ## Joining and parting -/

section OneMore

variable {route : Id} {r : Route} {s : Endpoint}

theorem Sound.extended (ht : t.Sound small) (h : OneMore small big route r) (w : small.WellFormed)
    (w' : big.WellFormed) (hs : big.sender? route = some s) : (t.extended big route).Sound big where
  absent := by
    intro e he
    unfold Tables.extended
    rw [hs, Option.elim_some, table?_foldl_set _ e fun _ => Graph.isOrigin_of_mem_originsReaching,
      if_neg]
    · exact (ht.grown (h.grown w) w w').absent he
    · intro hmem
      rw [Graph.isOrigin_of_mem_originsReaching hmem] at he
      cases he
  admits := by
    intro o x ho hx
    have hold := ht.grown (h.grown w) w w'
    rw [get_extended hs] at hx
    split at hx
    · rcases List.mem_append.1 hx with hx | hx
      · exact hold.admits ho hx
      · exact Or.inl (Graph.delivers_of_mem_resolve w' ho (List.mem_filter.1 hx).1)
    · exact hold.admits ho hx

theorem nodup_keys_extend {table found : List Target} (ht : (table.map g.targetKey).Nodup)
    (hf : (found.map g.targetKey).Nodup) : ((extend g table found).map g.targetKey).Nodup := by
  unfold extend
  rw [List.map_append, List.nodup_append]
  refine ⟨ht, (List.filter_sublist.map _).nodup hf, fun k hk k' hk' heq => ?_⟩
  obtain ⟨target, hmem, rfl⟩ := List.mem_map.1 hk'
  have hnew := (List.mem_filter.1 hmem).2
  rw [← heq] at hnew
  simp only [List.contains_eq_mem, decide_eq_true hk, Bool.not_true, Bool.false_eq_true] at hnew

theorem Sound.distinct_extended (ht : t.Sound small) (h : OneMore small big route r)
    (w : small.WellFormed) (hs : big.sender? route = some s) (hd : t.Distinct small) :
    (t.extended big route).Distinct big := by
  intro o
  have hold := ht.distinct_grown (h.grown w) hd o
  rw [keys, get_extended hs]
  split
  · exact nodup_keys_extend hold (Graph.nodup_keys_firstByKey _)
  · exact hold

theorem Sound.distinct_parted (ht : t.Sound big) (h : OneMore small big route r)
    (w : small.WellFormed) (w' : big.WellFormed) (hs : big.sender? route = some s)
    (hsound : (t.parted big small s).Sound small) (hd : t.Distinct big) :
    (t.parted big small s).Distinct small := by
  refine hsound.distinct_of_origins fun o ho => ?_
  rcases ht.keys_parted h w w' hs ho with hk | ⟨hk, -⟩
  · rw [hk]
    exact (hd o).filter _
  · rw [hk]
    exact hd o

theorem mem_of_mem_restrict {keys : List TargetKey} {found : List Target} {x : Target}
    (hx : x ∈ restrict g keys found) : x ∈ found := by
  obtain ⟨key, -, hf⟩ := List.mem_filterMap.1 hx
  exact List.mem_of_find?_eq_some hf

theorem Sound.parted (ht : t.Sound big) (h : OneMore small big route r) (w : small.WellFormed)
    (w' : big.WellFormed) (hs : big.sender? route = some s) :
    (t.parted big small s).Sound small where
  absent := ht.table?_parted_of_gone h w w' hs
  admits := by
    intro o x ho hx
    rw [get_parted] at hx
    split at hx
    · unfold remaining at hx
      split at hx
      · exact Or.inl (Graph.delivers_of_mem_resolve w ho (mem_of_mem_restrict hx))
      · cases hx
    · rename_i hmem
      have ho' := (h.grown w).isOrigin ho
      exact (ht.admits ho' hx).parted h w w' hs ho
        fun hr => hmem (Graph.mem_originsReaching w' ho' hr)

/-- Tables follow a new route. -/
theorem Sound.follows_extended (ht : t.Sound small) (h : OneMore small big route r)
    (w : small.WellFormed) (w' : big.WellFormed) (hs : big.sender? route = some s) :
    Follows small t big (t.extended big route) where
  root := (h.grown w).root
  sound := ht.extended h w w' hs
  distinct := ht.distinct_extended h w hs
  agrees := by
    intro o k ha
    have hg := h.grown w
    rw [hg.turns_iff w w']
    by_cases ho : big.isOrigin o = true
    · unfold Agrees at ha ⊢
      rw [mem_keys_build] at ha ⊢
      rcases ht.mem_keys_extended h w w' hs ho k with hk | ⟨ho', hk, hreach⟩
      · rw [hk, ha]
        simp only [ho, true_and, or_iff_right_iff_imp, not_and, not_not, and_imp]
      · rw [hk, ha, hreach]
        simp only [ho, ho', true_and, and_not_self, not_false_eq_true]
    · have ho' : ¬ small.isOrigin o = true := fun h' => ho (hg.isOrigin h')
      refine ⟨fun _ hk => ho' hk.1, fun _ => ?_⟩
      exact (ht.extended h w w' hs).agrees_of_not_isOrigin ho

end OneMore

/-! ## Removing any number of routes -/

/-- The smaller graph and its tables come of the larger ones by removing routes one after the other:
where tables and graph agreed before, the tables have kept the keys that are reached still. -/
structure Shrunk (g : Graph) (t : Tables) (g' : Graph) (t' : Tables) : Prop where
  wellFormed : g'.WellFormed
  sound : t'.Sound g'
  distinct : t.Distinct g → t'.Distinct g'
  grown : Grown g' g
  keys : ∀ {o k}, g'.isOrigin o = true → t.Agrees g o k →
    (k ∈ t'.keys g' o ↔ k ∈ g.reachedKeys o ∧ k ∈ g'.reachedKeys o)

namespace Shrunk

variable {g₁ g₂ : Graph} {t₁ : Tables}

theorem refl (w : g.WellFormed) (ht : t.Sound g) : Shrunk g t g t where
  wellFormed := w
  sound := ht
  distinct := id
  grown := .refl g
  keys := by
    intro o k ho ha
    unfold Agrees at ha
    rw [ha, mem_keys_build]
    simp only [ho, true_and, and_self]

theorem parted (h : Shrunk g t g₁ t₁) (w : g.WellFormed) {route : Id} {r : Route} {s : Endpoint}
    (hone : OneMore g₂ g₁ route r) (w₂ : g₂.WellFormed) (hs : g₁.sender? route = some s) :
    Shrunk g t g₂ (t₁.parted g₁ g₂ s) where
  wellFormed := w₂
  sound := h.sound.parted hone w₂ h.wellFormed hs
  distinct := fun hd => h.sound.distinct_parted hone w₂ h.wellFormed hs
    (h.sound.parted hone w₂ h.wellFormed hs) (h.distinct hd)
  grown := (hone.grown w₂).trans h.grown
  keys := by
    intro o k ho ha
    have hg := hone.grown w₂
    have hkeys := h.keys (hg.isOrigin ho) ha
    rcases h.sound.keys_parted hone w₂ h.wellFormed hs ho with hk | ⟨hk, hreach⟩
    · -- a key that is reached first and last has been reached all the time
      have hmid : k ∈ g₂.reachedKeys o → k ∈ g.reachedKeys o → k ∈ g₁.reachedKeys o :=
        hg.mem_between h.grown w₂ h.wellFormed w ho
      rw [hk, List.mem_filter, hkeys, decide_eq_true_eq]
      exact ⟨fun h => ⟨h.1.1, h.2⟩, fun h => ⟨⟨h.1, hmid h.2 h.1⟩, h.2⟩⟩
    · rw [hk, hkeys, hreach]

theorem prune (h : Shrunk g t g₁ t₁) (hg : Grown g₂ g₁) (hto : Within g₁ g₂)
    (w₂ : g₂.WellFormed)
    (htop : ∀ gate p, g₁.gate? gate = some p → p.group = g₁.root → g₂.gate? gate = some p) :
    Shrunk g t g₂ (t₁.prune g₂) where
  wellFormed := w₂
  sound := h.sound.prune hg hto w₂ h.wellFormed htop
  distinct := fun hd =>
    (h.sound.prune hg hto w₂ h.wellFormed htop).distinct_of_origins fun o ho => by
      rw [h.sound.keys_prune hg hto w₂ h.wellFormed htop ho]
      exact h.distinct hd o
  grown := hg.trans h.grown
  keys := by
    intro o k ho ha
    rw [h.sound.keys_prune hg hto w₂ h.wellFormed htop ho, h.keys (hg.isOrigin ho) ha,
      hg.mem_reachedKeys_iff hto w₂ h.wellFormed ho]

/-- Tables follow the removal of routes. -/
theorem follows {t' : Tables} (h : Shrunk g t g' t') (w : g.WellFormed) : Follows g t g' t' where
  root := h.grown.root.symm
  sound := h.sound
  distinct := h.distinct
  agrees := by
    intro o k ha
    rw [h.grown.turns_symm_iff h.wellFormed w]
    by_cases ho : g'.isOrigin o = true
    · unfold Agrees
      rw [mem_keys_build, h.keys ho ha]
      simp only [ho, true_and, and_iff_right_iff_imp, not_and, not_not]
    · exact ⟨fun _ hk => ho hk.1, fun _ => h.sound.agrees_of_not_isOrigin ho⟩

end Shrunk
end Tables
end MessageGraph
