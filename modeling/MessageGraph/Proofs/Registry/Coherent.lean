import MessageGraph.Proofs.Registry.Event

/-!
# What is in flight

Three records say what goes on in a registry: the flights, the flight of each location in flight, and
who waits for whom. They agree after every event (`Step.coherent`): a location is in flight exactly if
a flight to it has no result, it then has one such flight, and an importer waits for a location once
for each of its links that waits.
-/
namespace MessageGraph

/-! ## Links that wait -/

/-- The location and the flight that a link waits for. -/
def LinkLoad.awaiting? (link : LinkLoad) : Option (String × Nat) :=
  match link.progress with
  | .waiting f => some (link.location, f)
  | .settled _ => none

namespace Stage

/-- The links that wait. -/
def awaiting : Stage → List (String × Nat)
  | .linking _ _ started => started.filterMap LinkLoad.awaiting?
  | .fetching _ _ | .over _ => []

/-- The locations that are waited for. -/
def waiting (s : Stage) : List String := s.awaiting.map (·.1)

theorem awaiting_settled {d : Blueprint} {ahead : List (Id × String)} {started : List LinkLoad}
    (group : Id) (link : String) (result : Except LoadError Blueprint) :
    (linking d ahead (started ++ [⟨group, link, .settled result⟩])).awaiting =
      (linking d ahead started).awaiting := by
  simp [awaiting, LinkLoad.awaiting?]

theorem awaiting_waiting {d : Blueprint} {ahead : List (Id × String)} {started : List LinkLoad}
    (group : Id) (link : String) (p : Nat) :
    (linking d ahead (started ++ [⟨group, link, .waiting p⟩])).awaiting =
      (linking d ahead started).awaiting ++ [(link, p)] := by
  simp [awaiting, LinkLoad.awaiting?]

theorem awaiting_perm {d : Blueprint} {ahead : List (Id × String)} {started : List LinkLoad}
    {i p : Nat} {group : Id} {link : String} {result : Except LoadError Blueprint}
    (h : started[i]? = some ⟨group, link, .waiting p⟩) :
    (linking d ahead started).awaiting.Perm
      ((link, p) :: (linking d ahead (started.set i ⟨group, link, .settled result⟩)).awaiting) := by
  simp only [awaiting]
  induction started generalizing i with
  | nil => cases h
  | cons x started ih =>
    cases i with
    | zero =>
      cases h
      exact .refl _
    | succ i =>
      rw [List.set_cons_succ, List.filterMap_cons, List.filterMap_cons]
      cases x.awaiting? with
      | none => exact ih h
      | some y => exact ((ih h).cons y).trans (.swap ..)

theorem mem_awaiting {d : Blueprint} {ahead : List (Id × String)} {started : List LinkLoad}
    {i p : Nat} {group : Id} {link : String}
    (h : started[i]? = some ⟨group, link, .waiting p⟩) :
    (link, p) ∈ (linking d ahead started).awaiting :=
  List.mem_filterMap.2 ⟨_, List.mem_of_getElem? h, rfl⟩

theorem count_waiting_append {d : Blueprint} {ahead : List (Id × String)}
    {started : List LinkLoad} (group : Id) (link : String) (p : Nat) (x : String) :
    (linking d ahead (started ++ [⟨group, link, .waiting p⟩])).waiting.count x =
      (linking d ((group, link) :: ahead) started).waiting.count x + if link = x then 1 else 0 := by
  rw [waiting, awaiting_waiting, List.map_append, List.count_append, List.map_singleton,
    List.count_singleton]
  simp only [beq_iff_eq]
  rfl

theorem count_waiting_set {d : Blueprint} {ahead : List (Id × String)} {started : List LinkLoad}
    {i p : Nat} {group : Id} {link : String} (result : Except LoadError Blueprint)
    (h : started[i]? = some ⟨group, link, .waiting p⟩) (x : String) :
    (linking d ahead started).waiting.count x =
      (linking d ahead (started.set i ⟨group, link, .settled result⟩)).waiting.count x +
        if link = x then 1 else 0 := by
  rw [waiting, ((awaiting_perm h).map _).count_eq, List.map_cons, List.count_cons]
  simp only [beq_iff_eq]
  rfl

end Stage

namespace Registry

variable {r r' : Registry} {e : Event} {l : String} {f : Nat}

/-- Links of which all results are there. -/
theorem eq_of_settled? {started : List LinkLoad}
    {links : List (Id × String × Except LoadError Blueprint)} (h : settled? started = some links) :
    started = links.map fun (group, link, result) => ⟨group, link, .settled result⟩ := by
  induction started generalizing links with
  | nil =>
    cases h
    rfl
  | cons x started ih =>
    obtain ⟨group, link, progress⟩ := x
    unfold settled? at h
    split at h
    · rename_i result rest hprogress hrest
      cases h
      cases (show progress = .settled result from hprogress)
      rw [List.map_cons, ih hrest]
    · cases h

/-- Where not all results are there, a link waits. -/
theorem exists_waiting_of_settled? {started : List LinkLoad} (h : settled? started = none) :
    ∃ (i : Nat) (group : Id) (link : String) (p : Nat),
      started[i]? = some ⟨group, link, .waiting p⟩ := by
  induction started with
  | nil => cases h
  | cons x started ih =>
    obtain ⟨group, link, progress⟩ := x
    cases progress with
    | waiting p => exact ⟨0, group, link, p, rfl⟩
    | settled result =>
      have hrest : settled? started = none := by
        cases hs : settled? started with
        | none => rfl
        | some rest => simp [settled?, hs] at h
      obtain ⟨i, hi⟩ := ih hrest
      exact ⟨i + 1, hi⟩

theorem Move.awaiting {s s' : Stage} (h : Move r l s s') : s'.awaiting = s.awaiting := by
  cases h with
  | arrive _ _ | build _ _ => rfl
  | take _ | refuse _ => exact Stage.awaiting_settled ..

theorem Ends.awaiting {s : Stage} {result : Except LoadError Blueprint} (h : Ends r l s result) :
    s.awaiting = [] := by
  cases h with
  | fail _ _ => rfl
  | land hs =>
    rw [Stage.awaiting, eq_of_settled? hs, List.filterMap_map]
    simp [Function.comp_def, LinkLoad.awaiting?]

/-! ## Locations in flight -/

/-- A location is in flight exactly if it has a flight without a result, and it has no two. -/
structure Tracked (r : Registry) : Prop where
  numbered : r.Numbered
  pending_iff {l : String} {f : Nat} :
    r.pending.get? l = some f ↔ ∃ s, r.flights.get? f = some ⟨l, s⟩ ∧ s.isOver = false

namespace Tracked

theorem pending (t : r.Tracked) {s : Stage} (hf : r.flights.get? f = some ⟨l, s⟩)
    (hs : s.isOver = false) : r.pending.get? l = some f := t.pending_iff.2 ⟨s, hf, hs⟩

theorem flight (t : r.Tracked) (hp : r.pending.get? l = some f) :
    ∃ s, r.flights.get? f = some ⟨l, s⟩ ∧ s.isOver = false := t.pending_iff.1 hp

theorem new (options : Options) (store : Store) : (new options store).Tracked where
  numbered := numbered_new options store
  pending_iff := ⟨nofun, fun ⟨_, hf, _⟩ => nomatch hf⟩

theorem launch (t : r.Tracked) (hp : r.pending.get? l = none) : (r.launch l).2.Tracked where
  numbered := (t.numbered).launch l
  pending_iff {k g} := by
    show (r.pending.insert l r.nextFlight).get? k = some g ↔ _
    rw [ByLocation.get?_insert, flight?_launch]
    by_cases hg : g = r.nextFlight
    · subst hg
      rw [if_pos rfl]
      constructor
      · intro h
        split at h
        · rename_i hk
          subst hk
          exact ⟨_, rfl, rfl⟩
        · obtain ⟨s, hs, -⟩ := t.flight h
          exact absurd (t.numbered _ _ hs) (Nat.lt_irrefl _)
      · rintro ⟨s, hs, -⟩
        cases hs
        exact if_pos rfl
    · rw [if_neg hg, ← t.pending_iff]
      split
      · rename_i hk
        subst hk
        rw [hp]
        exact ⟨fun h => absurd (Option.some.inj h).symm hg, nofun⟩
      · exact .rfl

theorem setStage (t : r.Tracked) {s s' : Stage} (hf : r.flights.get? f = some ⟨l, s⟩)
    (hs : s.isOver = false) (hs' : s'.isOver = false) : (r.setStage f s').Tracked where
  numbered := t.numbered.setStage hf
  pending_iff {k g} := by
    show r.pending.get? k = some g ↔ _
    rw [flight?_setStage hf, t.pending_iff]
    split
    · rename_i hg
      subst hg
      constructor
      · rintro ⟨_, h, -⟩
        cases hf.symm.trans h
        exact ⟨s', rfl, hs'⟩
      · rintro ⟨_, h, -⟩
        cases h
        exact ⟨s, hf, hs⟩
    · exact .rfl

theorem complete (t : r.Tracked) {s : Stage} {result : Except LoadError Blueprint}
    (hf : r.flights.get? f = some ⟨l, s⟩) (hs : s.isOver = false) :
    (r.complete f l result).Tracked where
  numbered := t.numbered.setStage hf
  pending_iff {k g} := by
    show (r.pending.erase l).get? k = some g ↔
      ∃ s, (r.setStage f (.over result)).flights.get? g = some ⟨k, s⟩ ∧ _
    rw [ByLocation.get?_erase, flight?_setStage hf]
    by_cases hg : g = f
    · subst hg
      rw [if_pos rfl]
      constructor
      · intro h
        split at h
        · cases h
        · rename_i hk
          obtain ⟨s', hs', -⟩ := t.flight h
          cases hf.symm.trans hs'
          exact absurd rfl hk
      · rintro ⟨_, h, hover⟩
        cases h
        cases hover
    · rw [if_neg hg, ← t.pending_iff]
      split
      · rename_i hk
        subst hk
        rw [t.pending hf hs]
        exact ⟨nofun, fun h => absurd (Option.some.inj h).symm hg⟩
      · exact .rfl

end Tracked

theorem Step.tracked (h : Step r e r') (t : r.Tracked) : r'.Tracked := by
  cases h with
  | asked | wrote _ | registered | evicted => exact ⟨t.numbered, t.pending_iff⟩
  | launched _ hp => exact t.launch hp
  | moved hf _ hm => exact t.setStage hf hm.live hm.live_after
  | ended hf _ hm => exact t.complete hf hm.live
  | @joined f _ l link _ _ _ _ hf _ _ =>
    have t' : (r.await l link).Tracked := ⟨t.numbered, t.pending_iff⟩
    exact t'.setStage hf rfl rfl
  | @spawned f l link _ _ _ _ hf _ hp =>
    have t' : ((r.launch link).2.await l link).Tracked :=
      ⟨(t.launch hp).numbered, (t.launch hp).pending_iff⟩
    have hf' := (flight?_launch link f).trans
      ((if_neg (Nat.ne_of_lt (t.numbered f _ hf))).trans hf)
    exact t'.setStage hf' rfl rfl
  | @settled f i _ l link group d ahead started result hf _ _ =>
    have t' : (r.setStage f (.linking d ahead (started.set i ⟨group, link, .settled result⟩))).Tracked :=
      t.setStage hf rfl rfl
    exact ⟨t'.numbered, t'.pending_iff⟩

theorem Tracked.run (t : r.Tracked) (events : List Event) : (r.run events).Tracked :=
  run_keeps t fun _ _ _ _ _ t h => h.tracked t

/-- Who asks for a location that is not there waits for a flight to it. -/
theorem Tracked.request_waiting (t : r.Tracked) (hm : r.model? l = none) :
    ∃ f x, (r.request l).1 = .waiting f ∧ (r.request l).2.flights.get? f = some ⟨l, x⟩ := by
  cases hp : r.pending.get? l with
  | some f =>
    obtain ⟨x, hf, -⟩ := t.flight hp
    rw [request, hm, hp]
    exact ⟨f, x, rfl, hf⟩
  | none =>
    rw [request, hm, hp]
    exact ⟨r.nextFlight, _, rfl, (flight?_launch l _).trans (if_pos rfl)⟩

/-- What a request comes to: a model that is there, or the result of a flight to the location. -/
theorem Tracked.result_of_ticket (t : r.Tracked) {after : List Event}
    {result : Except LoadError Blueprint}
    (h : (r.request l).1.result? ((r.request l).2.run after) = some result) :
    (∃ m, r.model? l = some m ∧ result = .ok m) ∨
      ∃ f, ((r.request l).2.run after).flights.get? f = some ⟨l, .over result⟩ := by
  cases hm : r.model? l with
  | some m =>
    have hticket : r.request l = (.ready m, r) := by rw [request, hm]
    rw [hticket] at h
    exact .inl ⟨m, rfl, (Option.some.inj h).symm⟩
  | none =>
    have hstep : Step r (.request l) (r.request l).2 := perform?_step rfl
    obtain ⟨f, x, hticket, hf⟩ := t.request_waiting hm
    obtain ⟨x', hx'⟩ := (hstep.numbered t.numbered).run_flight hf after
    rw [hticket] at h
    obtain ⟨l', hl'⟩ := result?_eq_some.1 h
    cases hx'.symm.trans hl'
    exact .inr ⟨f, hl'⟩

/-! ## Importers that wait -/

/-- The records of what is in flight agree. -/
structure Coherent (r : Registry) : Prop where
  tracked : r.Tracked
  /-- An importer in flight waits for a location once for each link that waits. -/
  waits_count {f : Nat} {l : String} {s : Stage} (hf : r.flights.get? f = some ⟨l, s⟩)
    (hs : s.isOver = false) (link : String) : r.waits.count (l, link) = s.waiting.count link
  /-- No other importer waits. -/
  of_waits {l link : String} (h : (l, link) ∈ r.waits) : ∃ f, r.pending.get? l = some f
  /-- A link waits for a flight of its location. -/
  awaited {f p : Nat} {l link : String} {s : Stage} (hf : r.flights.get? f = some ⟨l, s⟩)
    (h : (link, p) ∈ s.awaiting) : ∃ s', r.flights.get? p = some ⟨link, s'⟩
  /-- The links started and those ahead are the pending links of the model, in order. -/
  listed {f : Nat} {l : String} {d : Blueprint} {ahead : List (Id × String)} {started : List LinkLoad}
    (hf : r.flights.get? f = some ⟨l, .linking d ahead started⟩) :
    d.pendingLinks = started.map (fun link => (link.group, link.location)) ++ ahead
  /-- With both documents there a flight fetches no more. -/
  halfway {f : Nat} {l : String} {b v : Option (Except StoreError String)}
    (hf : r.flights.get? f = some ⟨l, .fetching b v⟩) : b = none ∨ v = none

namespace Coherent

theorem new (options : Options) (store : Store) : (new options store).Coherent where
  tracked := .new options store
  waits_count hf := nomatch hf
  of_waits h := nomatch h
  awaited hf := nomatch hf
  listed hf := nomatch hf
  halfway hf := nomatch hf

theorem notMem_waits (c : r.Coherent) (hp : r.pending.get? l = none) (link : String) :
    (l, link) ∉ r.waits := fun h => by
  obtain ⟨f, hf⟩ := c.of_waits h
  cases hp.symm.trans hf

theorem waits_of_awaiting (c : r.Coherent) {d : Blueprint} {ahead : List (Id × String)}
    {started : List LinkLoad} {link : String} {p : Nat}
    (hf : r.flights.get? f = some ⟨l, .linking d ahead started⟩)
    (h : (link, p) ∈ (Stage.linking d ahead started).awaiting) : (l, link) ∈ r.waits := by
  rw [← List.count_pos_iff, c.waits_count hf rfl, List.count_pos_iff]
  exact List.mem_map_of_mem h

/-- Who waits has a link that waits. -/
theorem link_of_waits (c : r.Coherent) {link : String} (h : (l, link) ∈ r.waits) :
    ∃ f d ahead started group p, r.flights.get? f = some ⟨l, .linking d ahead started⟩ ∧
      ⟨group, link, .waiting p⟩ ∈ started := by
  obtain ⟨f, hp⟩ := c.of_waits h
  obtain ⟨s, hf, hs⟩ := c.tracked.flight hp
  rw [← List.count_pos_iff, c.waits_count hf hs, List.count_pos_iff] at h
  obtain ⟨⟨link', p⟩, hawaiting, rfl⟩ := List.mem_map.1 h
  cases s with
  | linking d ahead started =>
    obtain ⟨⟨group, _, progress⟩, hmem, hlink⟩ := List.mem_filterMap.1 hawaiting
    cases progress with
    | settled _ => cases hlink
    | waiting p' =>
      cases hlink
      exact ⟨f, d, ahead, started, group, p, hf, hmem⟩
  | _ => cases hawaiting

/-- Two flights of one location are not both without a result. -/
theorem unique (c : r.Coherent) {g : Nat} {s t : Stage} (hf : r.flights.get? f = some ⟨l, s⟩)
    (hs : s.isOver = false) (hg : r.flights.get? g = some ⟨l, t⟩) (ht : t.isOver = false) : g = f :=
  Option.some.inj ((c.tracked.pending hg ht).symm.trans (c.tracked.pending hf hs))

end Coherent

theorem count_await (l link k x : String) : (r.await l link).waits.count (k, x) =
    r.waits.count (k, x) + if l = k ∧ link = x then 1 else 0 := by
  show (r.waits ++ [(l, link)]).count (k, x) = _
  rw [List.count_append, List.count_singleton]
  simp only [beq_iff_eq, Prod.mk.injEq]

theorem count_release (l link k x : String) : (r.release l link).waits.count (k, x) =
    r.waits.count (k, x) - if l = k ∧ link = x then 1 else 0 := by
  show (r.waits.erase (l, link)).count (k, x) = _
  rw [List.count_erase]
  simp only [beq_iff_eq, Prod.mk.injEq]

/-- Where one flight changes its stage and only its importer may wait for something else, it is enough to
count for this importer. -/
theorem Coherent.waits_count_of_stage (c : r.Coherent) {s s' t : Stage} {g : Nat} {k : String}
    {waits : List (String × String)} (hf : r.flights.get? f = some ⟨l, s⟩) (hs : s.isOver = false)
    (hown : ∀ x, waits.count (l, x) = s'.waiting.count x)
    (helse : ∀ k x, l ≠ k → waits.count (k, x) = r.waits.count (k, x))
    (hg : (if g = f then some ⟨l, s'⟩ else r.flights.get? g) = some ⟨k, t⟩) (ht : t.isOver = false)
    (x : String) : waits.count (k, x) = t.waiting.count x := by
  split at hg
  · cases hg
    exact hown x
  · rename_i hne
    have hk : l ≠ k := by
      rintro rfl
      exact hne (c.unique hf hs hg ht)
    rw [helse k x hk]
    exact c.waits_count hg ht x

theorem Step.waits_count (h : Step r e r') (c : r.Coherent) {g : Nat} {k : String} {t : Stage}
    (hg : r'.flights.get? g = some ⟨k, t⟩) (ht : t.isOver = false) (x : String) :
    r'.waits.count (k, x) = t.waiting.count x := by
  cases h with
  | asked | wrote _ | registered | evicted => exact c.waits_count hg ht x
  | launched _ hp =>
    rw [flight?_launch] at hg
    split at hg
    · cases hg
      exact List.count_eq_zero.2 (c.notMem_waits hp x)
    · exact c.waits_count hg ht x
  | moved hf _ hm =>
    refine c.waits_count_of_stage hf hm.live (fun x => ?_) (fun _ _ _ => rfl)
      ((flight?_setStage hf g).symm.trans hg) ht x
    rw [Stage.waiting, hm.awaiting]
    exact c.waits_count hf hm.live x
  | ended hf _ hm =>
    refine c.waits_count_of_stage hf hm.live (fun x => ?_) (fun _ _ _ => rfl)
      ((flight?_setStage hf g).symm.trans hg) ht x
    -- a flight that ends waits for nothing
    refine (c.waits_count hf hm.live x).trans ?_
    rw [Stage.waiting, hm.awaiting]
    rfl
  | @joined f p l link _ _ _ _ hf _ _ =>
    refine c.waits_count_of_stage hf rfl (fun x => ?_) (fun k x hk => ?_)
      ((flight?_setStage (r := r.await _ _) hf g).symm.trans hg) ht x
    · rw [Stage.count_waiting_append, ← c.waits_count hf rfl x]
      exact (count_await l link l x).trans (by simp)
    · exact (count_await l link k x).trans (by simp [hk])
  | @spawned f l link _ _ _ _ hf _ hp =>
    have hlive := c.tracked.pending hf rfl
    rw [c.tracked.numbered.flight?_spawned hf] at hg
    by_cases hnew : g = r.nextFlight
    · -- the new flight is not the importer's, which is in flight
      have hne : g ≠ f := fun he => Nat.ne_of_gt (c.tracked.numbered f _ hf) (hnew.symm.trans he)
      rw [if_neg hne, if_pos hnew] at hg
      cases hg
      have hk : l ≠ k := fun he => nomatch (he ▸ hp).symm.trans hlive
      refine (count_await (r := (r.launch k).2) l k k x).trans ?_
      rw [if_neg fun h => hk h.1]
      exact List.count_eq_zero.2 (c.notMem_waits hp x)
    · rw [if_neg hnew] at hg
      refine c.waits_count_of_stage hf rfl (fun x => ?_) (fun k x hk => ?_) hg ht x
      · rw [Stage.count_waiting_append, ← c.waits_count hf rfl x]
        exact (count_await (r := (r.launch link).2) l link l x).trans (by simp [launch])
      · exact (count_await (r := (r.launch link).2) l link k x).trans (by simp [hk, launch])
  | @settled f i p l link _ d ahead started result hf hi _ =>
    refine c.waits_count_of_stage hf rfl (fun x => ?_) (fun k x hk => ?_)
      ((flight?_setStage hf g).symm.trans hg) ht x
    · refine (count_release (r := r.setStage f _) l link l x).trans ?_
      rw [show (r.setStage f _).waits.count (l, x) = _ from c.waits_count hf rfl x,
        Stage.count_waiting_set result hi]
      simp only [true_and, Nat.add_sub_cancel]
    · exact (count_release (r := r.setStage f _) l link k x).trans (by simp [hk, setStage])

theorem Step.of_waits (h : Step r e r') (c : r.Coherent) {k x : String} (hx : (k, x) ∈ r'.waits) :
    ∃ g, r'.pending.get? k = some g := by
  cases h with
  | asked | wrote _ | registered | evicted | moved _ _ _ => exact c.of_waits hx
  | @launched l _ hp =>
    obtain ⟨g, hg⟩ := c.of_waits hx
    have hne : k ≠ l := fun hk => nomatch (hk ▸ hp).symm.trans hg
    exact ⟨g, (ByLocation.get?_insert ..).trans ((if_neg hne).trans hg)⟩
  | @ended _ f l s result hf _ hm =>
    obtain ⟨g, hg⟩ := c.of_waits hx
    -- a flight that ends waits for nothing
    have hne : k ≠ l := fun hk => by
      subst hk
      have hzero := c.waits_count hf hm.live x
      rw [Stage.waiting, hm.awaiting] at hzero
      exact List.count_eq_zero.1 hzero hx
    exact ⟨g, (ByLocation.get?_erase ..).trans ((if_neg hne).trans hg)⟩
  | joined hf _ _ =>
    rcases List.mem_append.1 hx with hold | hnew
    · exact c.of_waits hold
    · cases List.mem_singleton.1 hnew
      exact ⟨_, c.tracked.pending hf rfl⟩
  | @spawned f l link _ _ _ _ hf _ hp =>
    have hold : ∃ g, r.pending.get? k = some g := by
      rcases List.mem_append.1 hx with hold | hnew
      · exact c.of_waits hold
      · cases List.mem_singleton.1 hnew
        exact ⟨_, c.tracked.pending hf rfl⟩
    obtain ⟨g, hg⟩ := hold
    have hne : k ≠ link := fun hk => nomatch (hk ▸ hp).symm.trans hg
    exact ⟨g, (ByLocation.get?_insert ..).trans ((if_neg hne).trans hg)⟩
  | settled _ _ _ => exact c.of_waits (List.mem_of_mem_erase hx)

theorem Step.awaited (h : Step r e r') (c : r.Coherent) {g p : Nat} {k x : String} {t : Stage}
    (hg : r'.flights.get? g = some ⟨k, t⟩) (hx : (x, p) ∈ t.awaiting) :
    ∃ s, r'.flights.get? p = some ⟨x, s⟩ := by
  have n := c.tracked.numbered
  have stays : ∀ {s : Stage}, r.flights.get? p = some ⟨x, s⟩ →
      ∃ s, r'.flights.get? p = some ⟨x, s⟩ := fun hp =>
    let ⟨s, hs, _⟩ := h.flight_next n hp
    ⟨s, hs⟩
  have before : ∀ {s : Stage}, r.flights.get? g = some ⟨k, s⟩ → (x, p) ∈ s.awaiting →
      ∃ s, r'.flights.get? p = some ⟨x, s⟩ := fun hs hx => stays (c.awaited hs hx).choose_spec
  rcases h.flight n hg with hold | ⟨-, rfl⟩ | ⟨s, hs, ha⟩
  · exact before hold hx
  · cases hx
  · cases ha with
    | move hm => exact before hs (hm.awaiting ▸ hx)
    | ends _ => cases hx
    | settle hi _ =>
      exact before hs ((Stage.awaiting_perm hi).mem_iff.2 (List.mem_cons_of_mem _ hx))
    | await hp =>
      rw [Stage.awaiting_waiting] at hx
      rcases List.mem_append.1 hx with hx | hx
      · exact before hs hx
      · cases List.mem_singleton.1 hx
        rcases hp with hp | hp
        · exact stays (c.tracked.flight hp).choose_spec.1
        · exact ⟨_, hp⟩

theorem Step.listed (h : Step r e r') (c : r.Coherent) {g : Nat} {k : String} {d : Blueprint}
    {ahead : List (Id × String)} {started : List LinkLoad}
    (hg : r'.flights.get? g = some ⟨k, .linking d ahead started⟩) :
    d.pendingLinks = started.map (fun link => (link.group, link.location)) ++ ahead := by
  rcases h.flight c.tracked.numbered hg with hold | ⟨-, heq⟩ | ⟨s, hs, ha⟩
  · exact c.listed hold
  · cases heq
  · cases ha with
    | move hm =>
      cases hm with
      | build _ _ => rfl
      | take _ | refuse _ => simpa using c.listed hs
    | await _ => simpa using c.listed hs
    | @settle d ahead started i p group link result hi _ =>
      have hlink : (started.map fun x => (x.group, x.location))[i]? = some (group, link) := by
        rw [List.getElem?_map, hi]
        rfl
      obtain ⟨hlt, heq⟩ := List.getElem?_eq_some_iff.1 hlink
      rw [c.listed hs, List.map_set, ← heq, List.set_getElem_self]

theorem Step.halfway (h : Step r e r') (c : r.Coherent) {g : Nat} {k : String}
    {b v : Option (Except StoreError String)}
    (hg : r'.flights.get? g = some ⟨k, .fetching b v⟩) : b = none ∨ v = none := by
  rcases h.flight c.tracked.numbered hg with hold | ⟨-, heq⟩ | ⟨s, -, ha⟩
  · exact c.halfway hold
  · cases heq
    exact .inl rfl
  · cases ha with
    | move hm =>
      cases hm with
      | arrive _ hone => exact hone

theorem Step.coherent (h : Step r e r') (c : r.Coherent) : r'.Coherent where
  tracked := h.tracked c.tracked
  waits_count := h.waits_count c
  of_waits := h.of_waits c
  awaited := h.awaited c
  listed := h.listed c
  halfway := h.halfway c

end Registry
end MessageGraph
