import MessageGraph.Proofs.Graph.Attach
import MessageGraph.Proofs.Resolution.Carry
import MessageGraph.Proofs.Resolution.Upstream
import MessageGraph.Resolution.Tables

/-!
# What joining and parting do to tables

Only the tables of the origins that reach the sender of a route are touched when the route comes or
goes. `Tables.Sound` says what tables need for that to be enough: they belong to origins, and hold
nothing but what is delivered there or a gate of the top-level group.

* `Sound.mem_keys_extended`: after joining, an origin has the keys it had and those it reaches now;
* `Sound.keys_parted`: after parting, it has of the keys it had those it reaches now, in their order.
-/
namespace MessageGraph.Tables

variable {g g' : Graph} {t t' : Tables} {origin : Endpoint}

/-! ## Look-ups -/

/-- The table of an endpoint, if it has one. -/
def table? (t : Tables) : Endpoint → Option (List Target)
  | .pin id => t.pins.get? id
  | .tack id => t.tacks.get? id
  | _ => none

/-- The keys in a table. -/
def keys (t : Tables) (g : Graph) (origin : Endpoint) : List TargetKey :=
  (t.get origin).map g.targetKey

theorem get_eq (t : Tables) (e : Endpoint) : t.get e = (t.table? e).getD [] := by
  cases e <;> rfl

theorem get?_put (id i : Id) (targets : List Target) (m : IdMap (List Target)) :
    (put id targets m).get? i =
      if i = id then (if targets = [] then none else some targets) else m.get? i := by
  unfold put
  by_cases h : targets = []
  · rw [if_pos h, if_pos h, IdMap.get?_erase]
  · rw [if_neg h, if_neg h, IdMap.get?_insert]

theorem table?_set (ho : g.isOrigin origin = true) (targets : List Target) (e : Endpoint) :
    (t.set origin targets).table? e =
      if e = origin then (if targets = [] then none else some targets) else t.table? e := by
  rcases Graph.isOrigin_cases ho with ⟨i, hi⟩ | ⟨i, _, _, hi, -⟩
  · subst hi
    cases e with
    | pin j =>
      show (put i targets t.pins).get? j = _
      rw [get?_put]
      simp only [Endpoint.pin.injEq]
      rfl
    | _ => rfl
  · subst hi
    cases e with
    | tack j =>
      show (put i targets t.tacks).get? j = _
      rw [get?_put]
      simp only [Endpoint.tack.injEq]
      rfl
    | _ => rfl

theorem table?_foldl_set {origins : List Endpoint} (value : Endpoint → List Target) (e : Endpoint)
    (ho : ∀ o, o ∈ origins → g.isOrigin o = true) :
    (origins.foldl (fun u o => u.set o (value o)) t).table? e =
      if e ∈ origins then (if value e = [] then none else some (value e)) else t.table? e := by
  induction origins generalizing t with
  | nil => rfl
  | cons o os ih =>
    rw [List.foldl_cons, ih fun x hx => ho x (List.mem_cons_of_mem o hx),
      table?_set (ho o List.mem_cons_self)]
    by_cases hos : e ∈ os
    · rw [if_pos hos, if_pos (List.mem_cons_of_mem o hos)]
    · rw [if_neg hos]
      by_cases heo : e = o
      · rw [if_pos heo, if_pos (List.mem_cons.2 (Or.inl heo)), heo]
      · rw [if_neg heo, if_neg fun h => (List.mem_cons.1 h).elim heo hos]

theorem get_foldl_set {origins : List Endpoint} (value : Endpoint → List Target) (e : Endpoint)
    (ho : ∀ o, o ∈ origins → g.isOrigin o = true) :
    (origins.foldl (fun u o => u.set o (value o)) t).get e =
      if e ∈ origins then value e else t.get e := by
  rw [get_eq, table?_foldl_set value e ho, get_eq]
  split
  · split
    · rename_i h
      rw [h]
      rfl
    · rfl
  · rfl

/-! ## Tables from scratch -/

theorem mem_origins {e : Endpoint} : e ∈ g.origins ↔ g.isOrigin e = true := by
  unfold Graph.origins
  rw [List.mem_filter]
  refine ⟨fun h => h.2, fun h => ⟨?_, h⟩⟩
  have hlive := Graph.contains_of_direction (Graph.output_of_isOrigin h)
  rcases Graph.isOrigin_cases h with ⟨i, hi⟩ | ⟨i, _, _, hi, -⟩
  · subst hi
    exact List.mem_append_left _ (List.mem_map_of_mem (IdMap.mem_ids_iff.2 hlive))
  · subst hi
    exact List.mem_append_right _ (List.mem_map_of_mem (IdMap.mem_ids_iff.2 hlive))

theorem table?_build (g : Graph) (e : Endpoint) :
    (build g).table? e =
      if g.isOrigin e = true then
        (if g.resolve e = [] then none else some (g.resolve e))
      else none := by
  unfold build
  rw [table?_foldl_set g.resolve e fun _ => mem_origins.1]
  simp only [mem_origins]
  have hempty : empty.table? e = none := by cases e <;> rfl
  rw [hempty]

theorem get_build (ho : g.isOrigin origin = true) : (build g).get origin = g.resolve origin := by
  rw [get_eq, table?_build, if_pos ho]
  split
  · rename_i h
    rw [h]
    rfl
  · rfl

/-! ## Lists of targets -/

theorem mem_keys_extend {table found : List Target} {k : TargetKey} :
    k ∈ (extend g table found).map g.targetKey ↔
      k ∈ table.map g.targetKey ∨ k ∈ found.map g.targetKey := by
  unfold extend
  rw [List.map_append, List.mem_append]
  constructor
  · intro h
    rcases h with h | h
    · exact Or.inl h
    · exact Or.inr (List.map_subset g.targetKey (List.filter_subset_self _) h)
  · intro h
    by_cases htable : k ∈ table.map g.targetKey
    · exact Or.inl htable
    · obtain ⟨target, ht, hk⟩ := List.mem_map.1 (h.resolve_left htable)
      refine Or.inr (List.mem_map.2 ⟨target, List.mem_filter.2 ⟨ht, ?_⟩, hk⟩)
      simpa [hk] using htable

/-- The targets put in for keys have these keys, as far as they are found at all. -/
theorem keys_restrict (keys : List TargetKey) (found : List Target) :
    (restrict g keys found).map g.targetKey =
      keys.filter fun k => k ∈ found.map g.targetKey := by
  induction keys with
  | nil => rfl
  | cons k ks ih =>
    unfold restrict at ih ⊢
    rw [List.filterMap_cons, List.filter_cons]
    cases hf : found.find? fun target => g.targetKey target = k with
    | none =>
      have hk : k ∉ found.map g.targetKey := by
        intro h
        obtain ⟨target, ht, hk⟩ := List.mem_map.1 h
        exact List.find?_eq_none.1 hf target ht (decide_eq_true hk)
      rw [if_neg (by simpa using hk)]
      exact ih
    | some target =>
      have hk : g.targetKey target = k := by simpa using List.find?_some hf
      have hmem : k ∈ found.map g.targetKey :=
        List.mem_map.2 ⟨target, List.mem_of_find?_eq_some hf, hk⟩
      rw [if_pos (by simpa using hmem), List.map_cons, hk, ih]

/-! ## What each operation is -/

/-- The tables after a route has joined two terminals. -/
def extended (t : Tables) (joined : Graph) (route : Id) : Tables :=
  ((joined.sender? route).elim [] joined.originsReaching).foldl
    (fun u origin => u.set origin (extend joined (t.get origin) (joined.resolve origin))) t

/-- What is left of the table of an origin that reached a route when the route has gone. -/
def remaining (t : Tables) (g apart : Graph) (origin : Endpoint) : List Target :=
  if apart.contains origin then
    restrict apart ((t.get origin).map g.targetKey) (apart.resolve origin)
  else []

/-- The tables after a route with this sender has gone. -/
def parted (t : Tables) (g apart : Graph) (sender : Endpoint) : Tables :=
  (g.originsReaching sender).foldl (fun u origin => u.set origin (t.remaining g apart origin)) t

theorem connect_eq {a b : Terminal} {route : Id} (h : t.connect g a b = .ok (route, g', t')) :
    g.check a b = .ok () ∧
      ((g.existingRoute? a b = some route ∧ g' = g ∧ t' = t) ∨
        (g.existingRoute? a b = none ∧ g.attach a b = .ok (route, g') ∧
          t' = t.extended g' route)) := by
  obtain ⟨_, hc, h⟩ := bind_eq_ok.1 h
  refine ⟨hc, ?_⟩
  cases he : g.existingRoute? a b with
  | some r =>
    rw [he] at h
    cases h
    exact Or.inl ⟨rfl, rfl, rfl⟩
  | none =>
    rw [he] at h
    simp only at h
    cases ha : g.attach a b with
    | error e => rw [ha] at h; cases h
    | ok joined =>
      rw [ha] at h
      cases h
      exact Or.inr ⟨rfl, rfl, rfl⟩

theorem disconnect?_eq (t : Tables) (g : Graph) (route : Id) :
    t.disconnect? g route =
      (g.sender? route).map fun s => (g.detach route, t.parted g (g.detach route) s) := rfl

/-- A route that is not there cannot be removed. -/
theorem disconnect?_eq_none {route : Id} (h : g.route? route = none) :
    t.disconnect? g route = none := by
  rw [disconnect?_eq, Graph.sender?, h]
  rfl

/-! ## Sound tables -/

/-- What a table may hold: what is delivered there, or a gate of the top-level group that leads out. -/
def Admits (g : Graph) (origin : Endpoint) (x : Target) : Prop :=
  g.Delivers (g.nameOf origin) origin x ∨
    ∃ gate p, x = .boundary g.root gate ∧ g.gate? gate = some p ∧ p.group = g.root ∧
      p.direction = .output

/-- Tables belong to origins, and hold nothing but what they may hold. -/
structure Sound (t : Tables) (g : Graph) : Prop where
  absent : ∀ {e}, g.isOrigin e = false → t.table? e = none
  admits : ∀ {o x}, g.isOrigin o = true → x ∈ t.get o → Admits g o x

/-- The tables of a graph: every origin has in some order what is delivered there, and nothing else has
a table. -/
structure Of (t : Tables) (g : Graph) : Prop where
  absent : ∀ {e}, g.isOrigin e = false → t.table? e = none
  perm : ∀ {o}, g.isOrigin o = true → (t.get o).Perm (g.resolve o)

theorem Of.sound (h : t.Of g) (w : g.WellFormed) : t.Sound g where
  absent := h.absent
  admits := by
    intro o x ho hx
    exact Or.inl (Graph.delivers_of_mem_resolve w ho ((h.perm ho).mem_iff.1 hx))

theorem Of.mem_keys (h : t.Of g) (ho : g.isOrigin origin = true) {k : TargetKey} :
    k ∈ t.keys g origin ↔ k ∈ g.reachedKeys origin :=
  ((h.perm ho).map g.targetKey).mem_iff

theorem build_of (g : Graph) : (build g).Of g where
  absent := by
    intro e he
    rw [table?_build, if_neg (by rw [he]; nofun)]
  perm := by
    intro o ho
    rw [get_build ho]

theorem Sound.get_eq_nil (h : t.Sound g) {e : Endpoint} (he : g.isOrigin e = false) :
    t.get e = [] := by
  rw [get_eq, h.absent he]
  rfl

theorem Sound.isOrigin_of_mem (h : t.Sound g) {o : Endpoint} {x : Target} (hx : x ∈ t.get o) :
    g.isOrigin o = true := by
  by_contra hno
  rw [h.get_eq_nil (Bool.eq_false_iff.2 hno)] at hx
  cases hx

/-- What a table of the smaller graph may hold it may hold in the larger one. -/
theorem Admits.grown (h : Graph.Grown g g') (w : g.WellFormed) (w' : g'.WellFormed) {o : Endpoint}
    (ho : g.isOrigin o = true) {x : Target} (hx : Admits g o x) : Admits g' o x := by
  have htop : ∀ {gate p}, g.gate? gate = some p → p.group = g.root → p.direction = .output →
      ∃ q, g'.gate? gate = some q ∧ q.group = g'.root ∧ q.direction = .output := by
    intro gate p hp hroot hout
    have hkept := h.kept (e := .pad gate) (IdMap.contains_of_get? hp)
    obtain ⟨q, hq, hgroup, -⟩ := hkept.gate hp
    refine ⟨q, hq, by rw [hgroup, hroot, h.root], ?_⟩
    have hdir := hkept.direction?_eq
    simp only [Graph.direction?, hp, hq, Option.map_some, Option.some.injEq] at hdir
    exact hdir.trans hout
  rcases hx with hd | ⟨gate, p, rfl, hp, hroot, hout⟩
  · rcases h.delivers_or_leads_on w w' hd with ⟨group, gate, rfl, -⟩ | hd'
    · obtain ⟨p, hp, hroot, hgroup, -⟩ := hd.gate
      obtain ⟨q, hq, hqroot, hqout⟩ := htop hp hroot (hd.gate_output hp)
      exact Or.inr ⟨gate, q, by rw [hgroup, h.root], hq, hqroot, hqout⟩
    · left
      rwa [h.nameOf_eq ho]
  · obtain ⟨q, hq, hqroot, hqout⟩ := htop hp hroot hout
    exact Or.inr ⟨gate, q, by rw [h.root], hq, hqroot, hqout⟩

/-- What a table may hold has the same key in the larger graph. -/
theorem Admits.targetKey_eq (h : Graph.Grown g g') {o : Endpoint} {x : Target} (hx : Admits g o x) :
    g'.targetKey x = g.targetKey x := by
  rcases hx with hd | ⟨gate, p, rfl, hp, -⟩
  · exact h.targetKey_eq hd
  · rw [Graph.targetKey, Graph.targetKey,
      (h.kept (e := .pad gate) (IdMap.contains_of_get? hp)).nameOf_eq]

theorem Sound.keys_grown (ht : t.Sound g) (h : Graph.Grown g g') (o : Endpoint) :
    t.keys g' o = t.keys g o :=
  List.map_congr_left fun _ hx => (ht.admits (ht.isOrigin_of_mem hx) hx).targetKey_eq h

section OneMore

variable {small big : Graph} {route : Id} {r : Route} {s : Endpoint}

/-! ### Joining -/

theorem get_extended (hs : big.sender? route = some s) (o : Endpoint) :
    (t.extended big route).get o =
      if o ∈ big.originsReaching s then extend big (t.get o) (big.resolve o) else t.get o := by
  unfold extended
  rw [hs, Option.elim_some]
  exact get_foldl_set _ o fun _ => Graph.isOrigin_of_mem_originsReaching

/-- After joining, an origin has the keys it had and those it reaches now; one that does not reach the
route has the table it had. -/
theorem Sound.mem_keys_extended (ht : t.Sound small) (h : Graph.OneMore small big route r)
    (w : small.WellFormed) (w' : big.WellFormed) (hs : big.sender? route = some s)
    (ho : big.isOrigin origin = true) (k : TargetKey) :
    (k ∈ (t.extended big route).keys big origin ↔
      k ∈ t.keys small origin ∨ k ∈ big.reachedKeys origin) ∨
    (small.isOrigin origin = true ∧
      (k ∈ (t.extended big route).keys big origin ↔ k ∈ t.keys small origin) ∧
      (k ∈ big.reachedKeys origin ↔ k ∈ small.reachedKeys origin)) := by
  have hkeys := ht.keys_grown (h.grown w) origin
  by_cases hmem : origin ∈ big.originsReaching s
  · left
    rw [keys, get_extended hs, if_pos hmem, mem_keys_extend, ← hkeys]
    rfl
  · right
    have hpass : ¬ big.Reaches (big.nameOf origin) origin s :=
      fun hr => hmem (Graph.mem_originsReaching w' ho hr)
    have hlive : small.contains origin = true := by
      by_contra hno
      have heq := h.eq_sender_of_absent w w' hs ho (Bool.eq_false_iff.2 hno)
      rw [← heq] at hpass
      exact hpass .start
    have ho' := (h.grown w).isOrigin_of_contains ho hlive
    refine ⟨ho', ?_, h.mem_reachedKeys_iff w w' hs ho' hpass⟩
    rw [keys, get_extended hs, if_neg hmem, ← hkeys]
    rfl

theorem Of.mem_keys_extended (ht : t.Of small) (h : Graph.OneMore small big route r)
    (w : small.WellFormed) (w' : big.WellFormed) (hs : big.sender? route = some s)
    (ho : big.isOrigin origin = true) (k : TargetKey) :
    k ∈ (t.extended big route).keys big origin ↔
      k ∈ t.keys small origin ∨ k ∈ big.reachedKeys origin := by
  rcases (ht.sound w).mem_keys_extended h w w' hs ho k with hk | ⟨ho', hk, hreach⟩
  · exact hk
  · rw [hk, hreach, ht.mem_keys ho', or_self]

/-! ### Parting -/

theorem get_parted (o : Endpoint) :
    (t.parted big small s).get o =
      if o ∈ big.originsReaching s then t.remaining big small o else t.get o :=
  get_foldl_set _ o fun _ => Graph.isOrigin_of_mem_originsReaching

/-- An origin that does not reach a route may hold without it what it may hold with it. -/
theorem Admits.parted (h : Graph.OneMore small big route r) (w : small.WellFormed)
    (w' : big.WellFormed) (hs : big.sender? route = some s) (ho : small.isOrigin origin = true)
    (hpass : ¬ big.Reaches (big.nameOf origin) origin s) {x : Target} (hx : Admits big origin x) :
    Admits small origin x := by
  rcases hx with hd | ⟨gate, p, rfl, hp, hroot, hout⟩
  · left
    rw [← (h.grown w).nameOf_eq ho]
    exact h.delivers_small w w' hs hpass hd
  · obtain ⟨q, hq, hgroup, hdir⟩ := h.rerouted.gate?_eq_some hp
    have hqroot : q.group = small.root := by rw [hgroup, hroot, h.rerouted.root]
    exact Or.inr ⟨gate, q, by rw [h.rerouted.root], hq, hqroot, hdir.trans hout⟩

/-- After parting, an origin that reached the route has of its keys those it reaches now, in their
order; one that did not has the table it had, and reaches what it reached. -/
theorem Sound.keys_parted (ht : t.Sound big) (h : Graph.OneMore small big route r)
    (w : small.WellFormed) (w' : big.WellFormed) (hs : big.sender? route = some s)
    (ho : small.isOrigin origin = true) :
    ((t.parted big small s).keys small origin =
      (t.keys big origin).filter fun k => k ∈ small.reachedKeys origin) ∨
    ((t.parted big small s).keys small origin = t.keys big origin ∧
      ∀ k, k ∈ big.reachedKeys origin ↔ k ∈ small.reachedKeys origin) := by
  have ho' := (h.grown w).isOrigin ho
  by_cases hmem : origin ∈ big.originsReaching s
  · left
    rw [keys, get_parted, if_pos hmem, remaining,
      if_pos (Graph.contains_of_direction (Graph.output_of_isOrigin ho)), keys_restrict]
    rfl
  · right
    have hpass : ¬ big.Reaches (big.nameOf origin) origin s :=
      fun hr => hmem (Graph.mem_originsReaching w' ho' hr)
    refine ⟨?_, fun _ => h.mem_reachedKeys_iff w w' hs ho hpass⟩
    rw [keys, get_parted, if_neg hmem]
    refine List.map_congr_left fun x hx => ?_
    exact (((ht.admits ho' hx).parted h w w' hs ho hpass).targetKey_eq (h.grown w)).symm

theorem Of.keys_parted (ht : t.Of big) (h : Graph.OneMore small big route r)
    (w : small.WellFormed) (w' : big.WellFormed) (hs : big.sender? route = some s)
    (ho : big.isOrigin origin = true) (hlive : small.contains origin = true) :
    (t.parted big small s).keys small origin =
      (t.keys big origin).filter fun k => k ∈ small.reachedKeys origin := by
  have ho' := (h.grown w).isOrigin_of_contains ho hlive
  rcases (ht.sound w').keys_parted h w w' hs ho' with hk | ⟨hk, hreach⟩
  · exact hk
  · rw [hk]
    refine (List.filter_eq_self.2 fun k hmem => ?_).symm
    rw [ht.mem_keys ho, hreach] at hmem
    exact decide_eq_true hmem

/-- A table goes with its origin. -/
theorem Sound.table?_parted_of_gone (ht : t.Sound big) (h : Graph.OneMore small big route r)
    (w : small.WellFormed) (w' : big.WellFormed) (hs : big.sender? route = some s) {e : Endpoint}
    (he : small.isOrigin e = false) : (t.parted big small s).table? e = none := by
  unfold parted
  rw [table?_foldl_set _ e fun _ => Graph.isOrigin_of_mem_originsReaching]
  by_cases ho : big.isOrigin e = true
  · -- an origin of which nothing is left has gone with the route, so it is the one that sent along it
    have habs : small.contains e = false := by
      by_contra hlive
      rw [(h.grown w).isOrigin_of_contains ho (Bool.eq_false_iff.not_left.1 hlive)] at he
      cases he
    have heq := h.eq_sender_of_absent w w' hs ho habs
    have hmem : e ∈ big.originsReaching s := by
      rw [← heq]
      exact Graph.mem_originsReaching w' ho (Graph.Reaches.start : big.Reaches "" e e)
    rw [if_pos hmem, if_pos]
    unfold remaining
    rw [if_neg (by rw [habs]; nofun)]
  · rw [if_neg fun hmem => ho (Graph.isOrigin_of_mem_originsReaching hmem)]
    exact ht.absent (Bool.eq_false_iff.2 ho)

end OneMore

end MessageGraph.Tables
