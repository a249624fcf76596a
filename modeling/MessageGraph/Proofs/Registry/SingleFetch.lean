import MessageGraph.Proofs.IdMap
import MessageGraph.Proofs.Registry.Deadlock

/-!
# One fetch at a time

A load fetches the documents of its location, and everyone who asks for the location meanwhile shares that
load. The store keeps a log of what it is asked for, so how often a location is fetched can be compared with
how many loads of it have started (`Step.log`), and what a load has taken from the store with the answers
that have arrived (`answers_eq`). A link that waits takes the result of the flight it waits for, and that
result goes into the model of the importer (`Receives`).

`single_fetch` puts this together for every order in which the steps of loads, saves and evictions fall.
-/
namespace MessageGraph

/-! ## Counting entries -/

namespace IdMap

variable {α : Type}

theorem countP_insertEntry (p : Nat × α → Bool) {i : Nat} {v : α} {es : List (Nat × α)}
    (h : ∀ e ∈ es, e.1 ≠ i) : (insertEntry i v es).countP p = es.countP p + if p (i, v) then 1 else 0 := by
  induction es with
  | nil => simp [insertEntry]
  | cons e es ih =>
    have hne : i ≠ e.1 := fun he => h e List.mem_cons_self he.symm
    rw [insertEntry, if_neg hne]
    split
    · rw [List.countP_cons]
    · have hes : ∀ x ∈ es, x.1 ≠ i := fun x hx => h x (List.mem_cons_of_mem _ hx)
      rw [List.countP_cons, List.countP_cons, ih hes]
      omega

theorem countP_insert (p : Nat × α → Bool) {m : IdMap α} {i : Nat} (v : α) (h : m.get? i = none) :
    (m.insert i v).entries.countP p = m.entries.countP p + if p (i, v) then 1 else 0 :=
  countP_insertEntry p fun e he hi => by
    rw [← hi, get?_eq_some_iff.2 he] at h
    cases h

theorem countP_modify (p : Nat × α → Bool) {f : α → α} (h : ∀ i v, p (i, f v) = p (i, v)) (m : IdMap α)
    (i : Nat) : (m.modify i f).entries.countP p = m.entries.countP p := by
  show (m.entries.map _).countP p = _
  rw [List.countP_map]
  congr 1
  funext e
  show p (if e.1 = i then (e.1, f e.2) else e) = p e
  split
  · exact h e.1 e.2
  · rfl

end IdMap

/-! ## What a load has taken from the store -/

namespace Stage

/-- How many documents of a kind have arrived. -/
def arrived (kind : DocumentKind) : Stage → Nat
  | .fetching behavioral visual =>
    match kind with
    | .behavioral => behavioral.isSome.toNat
    | .visual => visual.isSome.toNat
  | .linking _ _ _ | .over _ => 1

end Stage

namespace Registry

variable {r r' : Registry} {e : Event} {l : String} {f : Nat}

/-- How many loads of a location have started. -/
def started (r : Registry) (l : String) : Nat :=
  r.flights.entries.countP fun e => e.2.location = l

/-- How many documents of a kind a flight has. -/
def arrived (r : Registry) (f : Nat) (kind : DocumentKind) : Nat :=
  (r.flights.get? f).elim 0 fun x => x.stage.arrived kind

/-- Whether an event is the arrival of a document of a kind at a flight. -/
def Event.isAnswer (f : Nat) (kind : DocumentKind) : Event → Bool
  | .answer g k => g = f && k = kind
  | _ => false

/-- How many documents of a kind arrive at a flight while things happen. -/
def answers (f : Nat) (kind : DocumentKind) (r : Registry) : List Event → Nat
  | [] => 0
  | e :: events =>
    ((r.perform? e).isSome && e.isAnswer f kind).toNat + answers f kind (r.perform e) events

/-! ### Fetches asked for -/

theorem started_setStage (f : Nat) (s : Stage) (l : String) : (r.setStage f s).started l = r.started l :=
  IdMap.countP_modify (fun e : Nat × Flight => decide (e.2.location = l))
    (f := fun x => ⟨x.location, s⟩) (fun _ _ => rfl) r.flights f

theorem Numbered.started_launch (n : r.Numbered) (k l : String) :
    (r.launch k).2.started l = r.started l + if k = l then 1 else 0 := by
  refine (IdMap.countP_insert _ _ n.flight?_nextFlight).trans ?_
  simp only [decide_eq_true_eq]
  rfl

theorem fetchCount_launch (k l : String) : (r.launch k).2.store.fetchCount l =
    r.store.fetchCount l + 2 * if k = l then 1 else 0 := by
  show ((r.store.log ++ [k]) ++ [k]).count l = r.store.log.count l + _
  rw [List.count_append, List.count_append, List.count_singleton]
  simp only [beq_iff_eq]
  omega

theorem fetchCount_write {kind : DocumentKind} {text : String} {s s' : Store}
    (h : s.write l kind text = .ok s') (k : String) : s'.fetchCount k = s.fetchCount k := by
  unfold Store.write at h
  split at h
  · cases h
  · cases h
    rfl

/-- Both documents are asked for when a load starts, and nothing is asked for otherwise. -/
theorem Step.log (h : Step r e r') (n : r.Numbered) (l : String) :
    r'.store.fetchCount l + 2 * r.started l = r.store.fetchCount l + 2 * r'.started l := by
  have launched : ∀ k, (r.launch k).2.store.fetchCount l + 2 * r.started l =
      r.store.fetchCount l + 2 * (r.launch k).2.started l := fun k => by
    rw [fetchCount_launch, n.started_launch]
    omega
  cases h with
  | asked | registered | evicted => rfl
  | launched _ _ => exact launched _
  | @moved _ f _ _ s _ _ _ => rw [started_setStage]; rfl
  | @ended _ f _ _ result _ _ _ =>
    rw [show (r.complete f _ result).started l = _ from started_setStage f (.over result) l]
    rfl
  | joined _ _ _ => rw [started_setStage]; rfl
  | spawned _ _ _ =>
    rw [started_setStage]
    exact launched _
  | @settled f _ _ k link _ _ _ _ _ _ _ _ =>
    rw [show ((r.setStage f _).release k link).started l = _ from started_setStage f _ l]
    rfl
  | wrote hs => exact congrArg (· + _) (fetchCount_write hs l)

theorem run_log (n : r.Numbered) (events : List Event) (l : String) :
    (r.run events).store.fetchCount l + 2 * r.started l =
      r.store.fetchCount l + 2 * (r.run events).started l := by
  refine (run_keeps (P := fun s => s.Numbered ∧ s.store.fetchCount l + 2 * r.started l =
    r.store.fetchCount l + 2 * s.started l) ⟨n, rfl⟩ fun _ _ _ _ _ ⟨n, h⟩ hstep =>
      ⟨hstep.numbered n, ?_⟩).2
  have hlog := hstep.log n l
  omega

/-! ### Answers taken -/

theorem arrived_of_flight {s : Stage} (hf : r.flights.get? f = some ⟨l, s⟩) (kind : DocumentKind) :
    r.arrived f kind = s.arrived kind := by
  rw [arrived, hf]
  rfl

theorem arrived_congr {g : Nat} (h : r'.flights.get? g = r.flights.get? g) (kind : DocumentKind) :
    r'.arrived g kind = r.arrived g kind := by
  rw [arrived, arrived, h]

/-- With its documents so far a flight fetches, links or is over; it has as many of them. -/
theorem gather_stage (f : Nat) (l : String) (b v : Option (Except StoreError String)) :
    ∃ s, (∀ kind, s.arrived kind = (Stage.fetching b v).arrived kind) ∧
      (r.gather f l b v).flights = (r.setStage f s).flights := by
  unfold gather
  split
  · rename_i behavioral visual
    have harrived : ∀ kind, (Stage.fetching (some behavioral) (some visual)).arrived kind = 1 :=
      fun kind => by cases kind <;> rfl
    split
    · exact ⟨.over _, fun kind => (harrived kind).symm, rfl⟩
    · exact ⟨.linking _ _ _, fun kind => (harrived kind).symm, rfl⟩
  · exact ⟨_, fun _ => rfl, rfl⟩

theorem arrived_gather {b v b' v' : Option (Except StoreError String)}
    (hf : r.flights.get? f = some ⟨l, .fetching b v⟩) (g : Nat) (kind : DocumentKind) :
    (r.gather f l b' v').arrived g kind =
      if g = f then (Stage.fetching b' v').arrived kind else r.arrived g kind := by
  obtain ⟨s, hs, hflights⟩ := gather_stage (r := r) f l b' v'
  rw [arrived, hflights, flight?_setStage hf]
  split
  · exact hs kind
  · rfl

/-- A flight that has one document more has one more of its kind. -/
theorem arrived_gather_one {b v b' v' : Option (Except StoreError String)} {kind : DocumentKind}
    (hf : r.flights.get? f = some ⟨l, .fetching b v⟩)
    (hone : ∀ k, (Stage.fetching b' v').arrived k =
      (Stage.fetching b v).arrived k + if kind = k then 1 else 0) (g : Nat) (k : DocumentKind) :
    (r.gather f l b' v').arrived g k =
      r.arrived g k + ((Event.answer f kind).isAnswer g k).toNat := by
  rw [arrived_gather hf]
  split
  · rename_i hg
    subst hg
    rw [arrived_of_flight hf, hone]
    by_cases hk : kind = k <;> simp [Event.isAnswer, hk]
  · rename_i hg
    simp [Event.isAnswer, Ne.symm hg]

/-- A document that arrives is one more of its kind. -/
theorem arrived_answer {kind : DocumentKind} (h : r.answer? f kind = some r') (g : Nat)
    (k : DocumentKind) :
    r'.arrived g k = r.arrived g k + ((Event.answer f kind).isAnswer g k).toNat := by
  unfold answer? at h
  split at h
  · rename_i l b v hf
    cases kind with
    | behavioral =>
      cases b with
      | some x => simp at h
      | none =>
        cases h
        exact arrived_gather_one hf (fun k => by cases k <;> rfl) g k
    | visual =>
      cases v with
      | some x => simp at h
      | none =>
        cases h
        exact arrived_gather_one hf (fun k => by cases k <;> rfl) g k
  · cases h

/-- A flight that moves without a document has both. -/
theorem linking_of_perform? (h : r.perform? e = some r') (he : e.flight? = some f)
    (hno : ∀ kind, e ≠ .answer f kind) :
    ∃ l d ahead started, r.flights.get? f = some ⟨l, .linking d ahead started⟩ := by
  cases e with
  | answer g kind =>
    cases he
    exact absurd rfl (hno kind)
  | startLink g =>
    cases he
    simp only [perform?, startLink?] at h
    split at h
    · exact ⟨_, _, _, _, ‹_›⟩
    · cases h
  | settleLink g i =>
    cases he
    simp only [perform?, settleLink?] at h
    split at h
    · exact ⟨_, _, _, _, ‹_›⟩
    · cases h
  | land g =>
    cases he
    simp only [perform?, land?] at h
    split at h
    · exact ⟨_, _, _, _, ‹_›⟩
    · cases h
  | _ => cases he

theorem Move.arrived_of_linking {d : Blueprint} {ahead : List (Id × String)} {started : List LinkLoad}
    {s : Stage} (h : Move r l (.linking d ahead started) s) (kind : DocumentKind) :
    s.arrived kind = 1 := by
  cases h <;> rfl

/-- A flight that has both documents before a step and after it has no more than it had. -/
theorem arrived_of_full {g : Nat} {kind : DocumentKind} {s t : Stage}
    (hf : r.flights.get? f = some ⟨l, s⟩) (hs : s.arrived kind = 1) (ht : t.arrived kind = 1)
    (hg : r'.flights.get? g = if g = f then some ⟨l, t⟩ else r.flights.get? g) :
    r'.arrived g kind = r.arrived g kind := by
  by_cases hgf : g = f
  · subst hgf
    rw [arrived_of_flight (hg.trans (if_pos rfl)), arrived_of_flight hf, hs, ht]
  · exact arrived_congr (hg.trans (if_neg hgf)) kind

/-- A new flight has no document. -/
theorem Numbered.arrived_of_new (n : r.Numbered)
    (hg : r'.flights.get? r.nextFlight = some ⟨l, .fetching none none⟩) (kind : DocumentKind) :
    r'.arrived r.nextFlight kind = r.arrived r.nextFlight kind := by
  rw [arrived_of_flight hg, arrived, n.flight?_nextFlight]
  cases kind <;> rfl

/-- Where no document arrives, every flight has the documents that it had. -/
theorem arrived_of_no_answer (n : r.Numbered) (h : r.perform? e = some r')
    (hanswer : ∀ f kind, e ≠ .answer f kind) (g : Nat) (kind : DocumentKind) :
    r'.arrived g kind = r.arrived g kind := by
  -- the flight that moves, if there is one, has all its documents before and after
  have full : ∀ {f l} {s : Stage}, r.flights.get? f = some ⟨l, s⟩ → e.flight? = some f →
      ∃ d ahead started, s = .linking d ahead started := by
    intro f l s hf he
    obtain ⟨_, d, ahead, started, hlinking⟩ := linking_of_perform? h he (hanswer f)
    cases hf.symm.trans hlinking
    exact ⟨d, ahead, started, rfl⟩
  cases perform?_step h with
  | asked | wrote _ | registered | evicted => rfl
  | launched _ _ =>
    by_cases hg : g = r.nextFlight
    · subst hg
      exact n.arrived_of_new ((flight?_launch _ _).trans (if_pos rfl)) kind
    · exact arrived_congr ((flight?_launch _ g).trans (if_neg hg)) kind
  | moved hf he hm =>
    obtain ⟨d, ahead, started, rfl⟩ := full hf he
    exact arrived_of_full hf rfl (hm.arrived_of_linking kind) (flight?_setStage hf g)
  | ended hf he hm =>
    obtain ⟨d, ahead, started, rfl⟩ := full hf he
    exact arrived_of_full (t := .over _) hf rfl rfl (flight?_setStage hf g)
  | joined hf _ _ => exact arrived_of_full hf rfl rfl (flight?_setStage (r := r.await _ _) hf g)
  | @spawned f l link group d ahead started hf _ _ =>
    by_cases hnew : g = r.nextFlight
    · subst hnew
      exact n.arrived_of_new (n.flight?_new hf link) kind
    · refine arrived_of_full (t := .linking d ahead (started ++ [⟨group, link, .waiting r.nextFlight⟩]))
        hf rfl rfl ((n.flight?_spawned hf link g).trans ?_)
      rw [if_neg hnew]
  | settled hf _ _ => exact arrived_of_full hf rfl rfl (flight?_setStage hf g)

/-- Whatever happens, a flight has one more document of a kind if one arrives and as many otherwise. -/
theorem arrived_perform? (n : r.Numbered) (h : r.perform? e = some r') (g : Nat) (kind : DocumentKind) :
    r'.arrived g kind = r.arrived g kind + (e.isAnswer g kind).toNat := by
  by_cases hanswer : ∃ f k, e = .answer f k
  · obtain ⟨f, k, rfl⟩ := hanswer
    exact arrived_answer h g kind
  have hno : e.isAnswer g kind = false := by
    cases e with
    | answer f k => exact absurd ⟨f, k, rfl⟩ hanswer
    | _ => rfl
  rw [hno]
  exact arrived_of_no_answer n h (fun f k he => hanswer ⟨f, k, he⟩) g kind

/-- A flight has the documents that have arrived. -/
theorem answers_eq (n : r.Numbered) (events : List Event) (f : Nat) (kind : DocumentKind) :
    r.arrived f kind + answers f kind r events = (r.run events).arrived f kind := by
  induction events generalizing r with
  | nil => rfl
  | cons e events ih =>
    show r.arrived f kind + (_ + answers f kind (r.perform e) events) =
      ((r.perform e).run events).arrived f kind
    cases hp : r.perform? e with
    | none =>
      have hsame : r.perform e = r := by rw [perform, hp]; rfl
      rw [hsame, ← ih n]
      simp
    | some r' =>
      have hnext : r.perform e = r' := by rw [perform, hp]; rfl
      rw [hnext, ← ih ((perform?_step hp).numbered n), arrived_perform? n hp]
      simp only [Option.isSome_some, Bool.true_and]
      omega

/-! ### How a load starts -/

/-- A location is in flight as long as a load of it is not over. -/
theorem Tracked.inFlight_iff (t : r.Tracked) :
    r.InFlight l ↔ ∃ f s, r.flights.get? f = some ⟨l, s⟩ ∧ s.isOver = false :=
  exists_congr fun _ => t.pending_iff

/-- A flight that was not there is to a location that was neither there nor in flight, and has no
documents. -/
theorem Step.started {k : String} {s : Stage} (h : Step r e r') (n : r.Numbered)
    (hnone : r.flights.get? f = none) (hf : r'.flights.get? f = some ⟨k, s⟩) :
    s = .fetching none none ∧ r.model? k = none ∧ r.pending.get? k = none := by
  have changed : ∀ {g l} {t : Stage} {x : Option Flight}, r.flights.get? g = some ⟨l, t⟩ →
      (if f = g then x else r.flights.get? f) ≠ some ⟨k, s⟩ := by
    intro g l t x hg hx
    split at hx
    · rename_i hfg
      cases (hfg ▸ hnone).symm.trans hg
    · cases hnone.symm.trans hx
  cases h with
  | asked | wrote _ | registered | evicted => cases hnone.symm.trans hf
  | launched hm hp =>
    rw [flight?_launch] at hf
    split at hf
    · cases hf
      exact ⟨rfl, hm, hp⟩
    · cases hnone.symm.trans hf
  | moved hg _ _ => exact (changed hg ((flight?_setStage hg f).symm.trans hf)).elim
  | ended hg _ _ => exact (changed hg ((flight?_setStage hg f).symm.trans hf)).elim
  | joined hg _ _ =>
    exact (changed hg ((flight?_setStage (r := r.await _ _) hg f).symm.trans hf)).elim
  | spawned hg hm hp =>
    rw [n.flight?_spawned hg] at hf
    split at hf
    · rename_i hfg
      cases (hfg ▸ hnone).symm.trans hg
    · split at hf
      · cases hf
        exact ⟨rfl, hm, hp⟩
      · cases hnone.symm.trans hf
  | settled hg _ _ => exact (changed hg ((flight?_setStage hg f).symm.trans hf)).elim

/-! ### Who shares a load -/

theorem Numbered.run_result? (n : r.Numbered) {result : Except LoadError Blueprint}
    (h : r.result? f = some result) (events : List Event) : (r.run events).result? f = some result :=
  (run_keeps (P := fun s => s.Numbered ∧ s.result? f = some result) ⟨n, h⟩
    fun _ _ _ _ _ ⟨n, h⟩ hstep => ⟨hstep.numbered n, hstep.result? n h⟩).2

/-- The link at an index of an importer waits for flight `p`, or has its result; once the importer is
over, its model is assembled with that result in the group of the link. -/
inductive Receives (r : Registry) (p : Nat) (d : Blueprint) (i : Nat) (group : Id) (link : String) :
    Stage → Prop
  | waiting {ahead : List (Id × String)} {started : List LinkLoad}
      (hi : started[i]? = some ⟨group, link, .waiting p⟩) :
      Receives r p d i group link (.linking d ahead started)
  | settled {ahead : List (Id × String)} {started : List LinkLoad}
      {result : Except LoadError Blueprint} (hr : r.result? p = some result)
      (hi : started[i]? = some ⟨group, link, .settled result⟩) :
      Receives r p d i group link (.linking d ahead started)
  | ended {links : List (Id × String × Except LoadError Blueprint)}
      {result : Except LoadError Blueprint} (hr : r.result? p = some result)
      (hi : links[i]? = some (group, link, result)) :
      Receives r p d i group link (.over (assemble d links))

namespace Receives

variable {p i : Nat} {d : Blueprint} {group : Id} {link : String} {s s' : Stage}

theorem mono (hr : ∀ result, r.result? p = some result → r'.result? p = some result)
    (h : Receives r p d i group link s) : Receives r' p d i group link s := by
  cases h with
  | waiting hi => exact .waiting hi
  | settled hp hi => exact .settled (hr _ hp) hi
  | ended hp hi => exact .ended (hr _ hp) hi

/-- A further link does not change those before it. -/
theorem append {d' : Blueprint} {next : Id × String} {ahead : List (Id × String)}
    {started : List LinkLoad} (h : Receives r p d i group link (.linking d' (next :: ahead) started))
    (x : LinkLoad) : Receives r p d i group link (.linking d' ahead (started ++ [x])) := by
  have stays : ∀ {y}, started[i]? = some y → (started ++ [x])[i]? = some y := fun hi => by
    rw [List.getElem?_append_left (List.getElem?_eq_some_iff.1 hi).1, hi]
  cases h with
  | waiting hi => exact .waiting (stays hi)
  | settled hp hi => exact .settled hp (stays hi)

/-- A link that is settled takes the result of the flight it waits for. -/
theorem settle {d' : Blueprint} {ahead : List (Id × String)} {started : List LinkLoad} {j g : Nat}
    {group' : Id} {link' : String} {result : Except LoadError Blueprint}
    (h : Receives r p d i group link (.linking d' ahead started))
    (hj : started[j]? = some ⟨group', link', .waiting g⟩) (hg : r.result? g = some result) :
    Receives r p d i group link
      (.linking d' ahead (started.set j ⟨group', link', .settled result⟩)) := by
  by_cases hji : j = i
  · subst hji
    cases h with
    | waiting hi =>
      cases hi.symm.trans hj
      exact .settled hg (List.getElem?_set_self (List.getElem?_eq_some_iff.1 hi).1)
    | settled _ hi => cases hi.symm.trans hj
  · cases h with
    | waiting hi => exact .waiting ((List.getElem?_set_ne hji).trans hi)
    | settled hp hi => exact .settled hp ((List.getElem?_set_ne hji).trans hi)

/-- When all links are settled, the one that waited has its result. -/
theorem land {d' : Blueprint} {started : List LinkLoad}
    {links : List (Id × String × Except LoadError Blueprint)}
    (h : Receives r p d i group link (.linking d' [] started)) (hs : settled? started = some links) :
    Receives r p d i group link (.over (assemble d' links)) := by
  have hstarted := eq_of_settled? hs
  cases h with
  | waiting hi =>
    rw [hstarted, List.getElem?_map] at hi
    obtain ⟨x, -, hx⟩ := Option.map_eq_some_iff.1 hi
    cases hx
  | settled hp hi =>
    rw [hstarted, List.getElem?_map] at hi
    obtain ⟨⟨group', link', result'⟩, hx, heq⟩ := Option.map_eq_some_iff.1 hi
    cases heq
    exact .ended hp hx

theorem advance (h : Receives r p d i group link s) (ha : Advance r r' l s s') :
    Receives r p d i group link s' := by
  cases ha with
  | move hm =>
    cases hm with
    | arrive _ _ | build _ _ => cases h
    | take _ | refuse _ => exact h.append _
  | ends he =>
    cases he with
    | fail _ _ => cases h
    | land hs => exact h.land hs
  | await _ => exact h.append _
  | settle hj hg => exact h.settle hj hg

end Receives

/-- A link of an importer that waits for a flight has its result in the end, whatever happens. -/
theorem Numbered.run_receives {p i : Nat} {d : Blueprint} {group : Id} {link : String} {s : Stage}
    (n : r.Numbered) (hf : r.flights.get? f = some ⟨l, s⟩) (h : Receives r p d i group link s)
    (events : List Event) : ∃ s', (r.run events).flights.get? f = some ⟨l, s'⟩ ∧
      Receives (r.run events) p d i group link s' := by
  refine (run_keeps (P := fun r => r.Numbered ∧ ∃ s, r.flights.get? f = some ⟨l, s⟩ ∧
    Receives r p d i group link s) ⟨n, s, hf, h⟩ fun _ _ _ _ _ ⟨n, s, hs, h⟩ hstep => ?_).2
  obtain ⟨t, ht, rfl | ha⟩ := hstep.flight_next n hs
  · exact ⟨hstep.numbered n, t, ht, h.mono fun _ => hstep.result? n⟩
  · exact ⟨hstep.numbered n, t, ht, (h.advance ha).mono fun _ => hstep.result? n⟩

/-- A link to a location in flight that does not wait for the importer joins the flight. -/
theorem perform_startLink_joined {p : Nat} {d : Blueprint} {group : Id} {link : String}
    {ahead : List (Id × String)} {started : List LinkLoad}
    (hf : r.flights.get? f = some ⟨l, .linking d ((group, link) :: ahead) started⟩)
    (hm : r.model? link = none) (hp : r.pending.get? link = some p)
    (hw : r.waitsOn link l = false) :
    (r.perform (.startLink f)).flights.get? f =
      some ⟨l, .linking d ahead (started ++ [⟨group, link, .waiting p⟩])⟩ := by
  have hstart : r.perform (.startLink f) = (r.await l link).setStage f
      (.linking d ahead (started ++ [⟨group, link, .waiting p⟩])) := by
    simp [perform, perform?, startLink?, loadLink, hf, hm, hp, hw, await]
  rw [hstart, flight?_setStage (r := r.await l link) hf, if_pos rfl]

/-! ## Every registry -/

/-- How locations are fetched in a registry with nothing in it at first, when things have happened. -/
structure SingleFetch (options : Options) (store : Store) (before : List Event) (r : Registry) :
    Prop where
  /-- A load starts only for a location that is neither there nor in flight, with both documents to
  fetch. -/
  starts {e : Event} {f : Nat} {l : String} {s : Stage} (hnone : r.flights.get? f = none)
    (hf : (r.perform e).flights.get? f = some ⟨l, s⟩) :
    s = .fetching none none ∧ r.model? l = none ∧ ¬ r.InFlight l
  /-- No two loads of a location are in flight. -/
  alone {l : String} {f g : Nat} {s t : Stage} (hf : r.flights.get? f = some ⟨l, s⟩)
    (hs : s.isOver = false) (hg : r.flights.get? g = some ⟨l, t⟩) (ht : t.isOver = false) : f = g
  /-- The store is asked twice for each load of a location, and not otherwise. -/
  fetched (l : String) : r.store.fetchCount l = store.fetchCount l + 2 * r.started l
  /-- Each document arrives at a load at most once, and both have once it fetches no more. -/
  answered {f : Nat} {l : String} {s : Stage} (hf : r.flights.get? f = some ⟨l, s⟩)
    (kind : DocumentKind) : answers f kind (new options store) before = s.arrived kind
  /-- Who asks for a location in flight starts nothing and has the result of that flight, which is the
  same at all times. -/
  callers {l : String} {f : Nat} (hm : r.model? l = none) (hp : r.pending.get? l = some f) :
    r.request l = (.waiting f, r) ∧ ∀ (after late : List Event) (result : Except LoadError Blueprint),
      (r.run after).result? f = some result →
        (Ticket.waiting f).result? (r.run (after ++ late)) = some result
  /-- A link that joins a flight takes the result of that flight. -/
  importers {f p : Nat} {l link : String} {d : Blueprint} {group : Id} {ahead : List (Id × String)}
    {started : List LinkLoad}
    (hf : r.flights.get? f = some ⟨l, .linking d ((group, link) :: ahead) started⟩)
    (hm : r.model? link = none) (hp : r.pending.get? link = some p)
    (hw : r.waitsOn link l = false) (after : List Event) :
    let r' := (r.perform (.startLink f)).run after
    ∃ s, r'.flights.get? f = some ⟨l, s⟩ ∧ Receives r' p d started.length group link s

/-- In every order in which the steps of loads, saves and evictions fall, a location is fetched only if it
is neither there nor being fetched, with one fetch for each document, and whoever joins a load has its
result. -/
theorem single_fetch (options : Options) (store : Store) (before : List Event) :
    SingleFetch options store before ((new options store).run before) := by
  have hnumbered := numbered_new options store
  have hlog := run_log hnumbered before
  have hanswers := answers_eq hnumbered before
  have c : ((new options store).run before).Coherent :=
    run_keeps (.new options store) fun _ _ _ _ _ c h => h.coherent c
  generalize (new options store).run before = r at c hlog hanswers
  have n := c.tracked.numbered
  have next : ∀ e, (r.run [e]).Numbered := fun e => run_keeps n fun _ _ _ _ _ n h => h.numbered n
  exact
    { starts := fun {e f l s} hnone hf => by
        cases hp : r.perform? e with
        | none =>
          have hsame : r.perform e = r := by rw [perform, hp]; rfl
          cases hnone.symm.trans (hsame ▸ hf)
        | some r' =>
          have hnext : r.perform e = r' := by rw [perform, hp]; rfl
          obtain ⟨hs, hm, hpending⟩ := (perform?_step hp).started n hnone (hnext ▸ hf)
          refine ⟨hs, hm, ?_⟩
          rintro ⟨g, hg⟩
          cases hpending.symm.trans hg
      alone := fun hf hs hg ht => (c.unique hf hs hg ht).symm
      fetched := fun l => hlog l
      answered := fun hf kind => by
        rw [← arrived_of_flight hf, ← hanswers]
        exact (Nat.zero_add _).symm
      callers := fun {l f} hm hp => by
        refine ⟨by rw [request, hm, hp], fun after late result hresult => ?_⟩
        have hafter : (r.run after).Numbered :=
          run_keeps n fun _ _ _ _ _ n h => h.numbered n
        rw [run_append]
        exact hafter.run_result? hresult late
      importers := fun {f p l link d group ahead started} hf hm hp hw after => by
        refine (next _).run_receives (perform_startLink_joined hf hm hp hw) (.waiting ?_) after
        rw [List.getElem?_append_right (Nat.le_refl _), Nat.sub_self]
        rfl }

end Registry
end MessageGraph
