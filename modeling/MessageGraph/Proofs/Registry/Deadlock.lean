import MessageGraph.Proofs.Registry.Circle
import MessageGraph.Proofs.Registry.Coherent

/-!
# Loads do not wait in a circle

A link joins a flight only if that flight does not wait for the importer, and a new flight waits for
nothing yet, so no event closes a circle of importers that wait (`Step.no_circle`). As long as loads are
in flight, one of them waits for none that is and can take a step.

A link is refused where the flight it asks for waits for the importer. Every wait is for a link that
stands in documents, so a refused link closes a circle of links (`Sourced`): models that link to each
other without circles are all loaded.
-/
namespace MessageGraph.Registry

open Relation

variable {r r' : Registry} {e : Event} {l : String} {f : Nat}

/-- A load of a location is going on. -/
def InFlight (r : Registry) (l : String) : Prop := ∃ f, r.pending.get? l = some f

/-- An importer waits for a location. -/
def Waits (r : Registry) (importer location : String) : Prop := (importer, location) ∈ r.waits

/-- A load of the importer has refused its link to a location. -/
def Refused (r : Registry) (importer location : String) : Prop :=
  ∃ f d ahead started link reason, r.flights.get? f = some ⟨importer, .linking d ahead started⟩ ∧
    link ∈ started ∧ link.location = location ∧
    link.progress = .settled (.error (.linkCycle reason))

theorem waitsOn_iff {goal : String} : r.waitsOn l goal = true ↔ ReflTransGen r.Waits l goal :=
  search_iff r.waits l goal

/-! ## No circle -/

theorem Step.no_circle (h : Step r e r') (c : r.Coherent) (hr : Acyclic r.Waits) :
    Acyclic r'.Waits := by
  have added : ∀ {l link x y}, (x, y) ∈ r.waits ++ [(l, link)] →
      r.Waits x y ∨ x = l ∧ y = link := fun hxy =>
    (List.mem_append.1 hxy).imp_right fun he => by
      cases List.mem_singleton.1 he
      exact ⟨rfl, rfl⟩
  cases h with
  | asked | launched _ _ | moved _ _ _ | ended _ _ _ | wrote _ | registered | evicted => exact hr
  | joined hf _ hw =>
    exact hr.insert (fun hback => nomatch hw.symm.trans (waitsOn_iff.2 hback)) fun _ _ => added
  | @spawned f l link _ _ _ _ hf _ hp =>
    refine hr.insert (fun hback => ?_) fun _ _ => added
    -- nobody waits in the name of the new flight, and it is not the importer's
    rcases hback.cases_head with rfl | ⟨x, hx, -⟩
    · cases hp.symm.trans (c.tracked.pending hf rfl)
    · exact c.notMem_waits hp x hx
  | settled _ _ _ => exact hr.mono fun _ _ => List.mem_of_mem_erase

/-! ## A load that can go on -/

/-- A load that waits for none in flight can take a step. -/
theorem Coherent.can_step (c : r.Coherent) (hp : r.pending.get? l = some f)
    (hfree : ∀ b, r.Waits l b → ¬ r.InFlight b) :
    ∃ e, e.flight? = some f ∧ (r.perform? e).isSome = true := by
  obtain ⟨s, hf, hs⟩ := c.tracked.flight hp
  cases s with
  | fetching b v =>
    rcases c.halfway hf with rfl | rfl
    · exact ⟨.answer f .behavioral, rfl, by simp [perform?, answer?, hf]⟩
    · exact ⟨.answer f .visual, rfl, by simp [perform?, answer?, hf]⟩
  | linking d ahead started =>
    cases ahead with
    | cons next ahead => exact ⟨.startLink f, rfl, by simp [perform?, startLink?, hf]⟩
    | nil =>
      cases hsettled : settled? started with
      | some links => exact ⟨.land f, rfl, by simp [perform?, land?, hf, hsettled]⟩
      | none =>
        obtain ⟨i, group, link, p, hi⟩ := exists_waiting_of_settled? hsettled
        have hmem : (link, p) ∈ (Stage.linking d [] started).awaiting := Stage.mem_awaiting hi
        obtain ⟨t, ht⟩ := c.awaited hf hmem
        -- the awaited flight is over, since its location would be in flight otherwise
        have hover : t.isOver = true := by
          by_contra hlive
          exact hfree link (c.waits_of_awaiting hf hmem)
            ⟨p, c.tracked.pending ht (Bool.eq_false_iff.2 hlive)⟩
        obtain ⟨result, rfl⟩ := Stage.eq_over_of_isOver hover
        have hresult := result?_eq_some.2 ⟨link, ht⟩
        exact ⟨.settleLink f i, rfl, by simp [perform?, settleLink?, arrived?, hf, hi, hresult]⟩
  | _ => cases hs

/-- Of loads in flight that do not wait in a circle, one waits for none in flight and can take a step. -/
theorem Coherent.some_can_step (c : r.Coherent) (hacyclic : Acyclic r.Waits)
    (hflying : ∃ a, r.InFlight a) : ∃ a f e, r.pending.get? a = some f ∧
      (∀ b, r.Waits a b → ¬ r.InFlight b) ∧ e.flight? = some f ∧ (r.perform? e).isSome = true := by
  have hfinite : {a | ∃ b, r.Waits a b}.Finite :=
    (List.finite_toSet (r.waits.map (·.1))).subset fun a ⟨b, hab⟩ => List.mem_map.2 ⟨(a, b), hab, rfl⟩
  obtain ⟨a, ⟨f, hf⟩, hmin⟩ := (hacyclic.wellFounded hfinite).has_min {a | r.InFlight a} hflying
  have hfree : ∀ b, r.Waits a b → ¬ r.InFlight b := fun b hab hb => hmin b hb hab
  obtain ⟨e, he, hcan⟩ := c.can_step hf hfree
  exact ⟨a, f, e, hf, hfree, he, hcan⟩

theorem Coherent.drained (c : r.Coherent) (hnone : ∀ a, ¬ r.InFlight a) : r.waits = [] :=
  List.eq_nil_iff_forall_not_mem.2 fun ⟨a, _⟩ hab => hnone a (c.of_waits hab)

/-! ## Links that are refused -/

/-- An answer that the store gives at some time while things happen. -/
def Told (r : Registry) (events : List Event) (l : String) (kind : DocumentKind)
    (text : Except StoreError String) : Prop :=
  ∃ before after, events = before ++ after ∧ text = (r.run before).store.answer l kind

/-- Documents of a location, among those a store gave, have a link to another location. -/
def LinksTo (options : Options) (told : String → DocumentKind → Except StoreError String → Prop)
    (a b : String) : Prop :=
  ∃ behavioral visual d group, told a .behavioral behavioral ∧ told a .visual visual ∧
    build options a behavioral visual = .ok d ∧ (group, b) ∈ d.pendingLinks

/-- Whether an error says that a link is refused. -/
def isRefusal : LoadError → Bool
  | .linkCycle _ => true
  | _ => false

theorem join_error {behavioral : BehavioralDocument} {visual : Option VisualDocument}
    {options : LayoutOptions} {error : LoadError}
    (h : Blueprint.join behavioral visual options = .error error) : isRefusal error = false := by
  unfold Blueprint.join at h
  by_cases hspec : behavioral.root.value.tag ≠ .group
  · rw [if_pos hspec] at h
    cases h
    rfl
  · rw [if_neg hspec] at h
    cases h

theorem build_error {options : Options} {behavioral visual : Except StoreError String}
    {error : LoadError} (h : build options l behavioral visual = .error error) :
    isRefusal error = false := by
  have hload : ∀ text visual, Blueprint.load l text visual options.layout = .error error →
      isRefusal error = false := by
    intro text visual h
    rcases bind_eq_error.1 h with h | ⟨d, -, h⟩
    · unfold BehavioralDocument.load at h
      split at h
      · cases h
        rfl
      · split at h
        · cases h
        · cases h
          rfl
    · rcases bind_eq_error.1 h with h | ⟨b, -, h⟩
      · exact join_error h
      · cases h
  cases behavioral with
  | error e =>
    cases h
    rfl
  | ok text =>
    cases visual with
    | ok v => exact hload text (some v) h
    | error e =>
      have h : (Blueprint.load l text none options.layout >>= fun b => pure
        { b with diagnostics := b.diagnostics ++ [Blueprint.visualFailure e.message] }) =
          .error error := h
      rcases bind_eq_error.1 h with h | ⟨b, -, h⟩
      · exact hload _ _ h
      · cases h

theorem standIn_error {b : Blueprint} {group : Id} {link : String}
    {result : Except LoadError Blueprint} {error : LoadError}
    (h : standIn b group link result = .error error) : isRefusal error = false := by
  obtain ⟨_, _, -, -, hok⟩ | ⟨reason, hbroken⟩ := standIn_cases b group link result
  · cases hok.symm.trans h
  · rw [hbroken] at h
    cases hm : b.markLinkBroken group s!"'{link}': {reason}" with
    | ok b' =>
      rw [hm] at h
      cases h
    | error e =>
      rw [hm] at h
      cases h
      rfl

theorem assemble_error {d : Blueprint} {error : LoadError}
    {links : List (Id × String × Except LoadError Blueprint)}
    (h : assemble d links = .error error) : isRefusal error = false := by
  induction links generalizing d with
  | nil => cases h
  | cons link links ih =>
    rw [assemble, List.foldlM_cons] at h
    rcases bind_eq_error.1 h with h | ⟨b, -, h⟩
    · exact standIn_error h
    · exact ih h

/-- The result of a load is no refusal. -/
theorem Ends.not_refusal {s : Stage} {error : LoadError} (h : Ends r l s (.error error)) :
    isRefusal error = false := by
  generalize hresult : Except.error (α := Blueprint) error = result at h
  cases h with
  | fail _ he =>
    cases hresult
    exact build_error he
  | land _ => exact assemble_error hresult.symm

/-! ### Where links come from -/

/-- A stage of a load that knows no links but those of documents, and refuses one only where its location
leads back. -/
def SourcedStage (told : String → DocumentKind → Except StoreError String → Prop)
    (links : String → String → Prop) (l : String) : Stage → Prop
  | .fetching b v =>
    (∀ text, b = some text → told l .behavioral text) ∧ ∀ text, v = some text → told l .visual text
  | .linking _ ahead started =>
    (∀ link ∈ ahead, links l link.2) ∧ ∀ link ∈ started, links l link.location ∧
      ∀ error, link.progress = .settled (.error error) → isRefusal error = true →
        ReflTransGen links link.location l
  | .over result => ∀ error, result = .error error → isRefusal error = false

structure Sourced (options : Options)
    (told : String → DocumentKind → Except StoreError String → Prop) (r : Registry) : Prop where
  same_options : r.options = options
  stage {f : Nat} {l : String} {s : Stage} (hf : r.flights.get? f = some ⟨l, s⟩) :
    SourcedStage told (LinksTo options told) l s

namespace Sourced

variable {options : Options} {told : String → DocumentKind → Except StoreError String → Prop}

theorem new (store : Store) : Sourced options told (new options store) where
  same_options := rfl
  stage hf := nomatch hf

/-- Who waits has a link in documents to what it waits for. -/
theorem links_of_waits (h : Sourced options told r) (c : r.Coherent) {a b : String}
    (hw : r.Waits a b) : LinksTo options told a b := by
  obtain ⟨f, d, ahead, started, group, p, hf, hmem⟩ := c.link_of_waits hw
  exact ((h.stage hf).2 _ hmem).1

theorem result (h : Sourced options told r) {error : LoadError}
    (hr : r.result? f = some (.error error)) : isRefusal error = false := by
  obtain ⟨l, hf⟩ := result?_eq_some.1 hr
  exact h.stage hf error rfl

/-- A link that is refused stands in documents, and links lead from its location back to the importer. -/
theorem refused (h : Sourced options told r) {a b : String} (hr : r.Refused a b) :
    LinksTo options told a b ∧ ReflTransGen (LinksTo options told) b a := by
  obtain ⟨f, d, ahead, started, link, reason, hf, hmem, rfl, hprogress⟩ := hr
  obtain ⟨hlink, hback⟩ := (h.stage hf).2 link hmem
  exact ⟨hlink, hback _ hprogress rfl⟩

/-- With the next answer of the store, both documents are among those that it gave. -/
theorem arrives (htold : ∀ l kind, told l kind (r.store.answer l kind))
    {kind : DocumentKind} {b v b' v' : Option (Except StoreError String)}
    (hs : SourcedStage told (LinksTo options told) l (.fetching b v))
    (ha : Arrives r l kind b v b' v') :
    SourcedStage told (LinksTo options told) l (.fetching b' v') := by
  cases ha with
  | behavioral => exact ⟨fun text ht => Option.some.inj ht ▸ htold l _, hs.2⟩
  | visual => exact ⟨hs.1, fun text ht => Option.some.inj ht ▸ htold l _⟩

/-- Starting a link keeps where links come from, if a refusal has its reason. -/
theorem startLink {d : Blueprint} {group : Id} {link : String} {ahead : List (Id × String)}
    {started : List LinkLoad} {links : String → String → Prop} {progress : LinkProgress}
    (hs : SourcedStage told links l (.linking d ((group, link) :: ahead) started))
    (hrefused : ∀ error, progress = .settled (.error error) → isRefusal error = true →
      ReflTransGen links link l) :
    SourcedStage told links l (.linking d ahead (started ++ [⟨group, link, progress⟩])) := by
  refine ⟨fun x hx => hs.1 x (List.mem_cons_of_mem _ hx), List.forall_mem_append.2 ⟨hs.2, ?_⟩⟩
  exact List.forall_mem_singleton.2 ⟨hs.1 _ List.mem_cons_self, hrefused⟩

theorem advance (h : Sourced options told r) (c : r.Coherent)
    (htold : ∀ l kind, told l kind (r.store.answer l kind)) {s s' : Stage}
    (hs : SourcedStage told (LinksTo options told) l s) (ha : Advance r r' l s s') :
    SourcedStage told (LinksTo options told) l s' := by
  cases ha with
  | move hm =>
    cases hm with
    | arrive ha _ => exact arrives htold hs ha
    | build ha hd =>
      obtain ⟨hb, hv⟩ := arrives htold hs ha
      refine ⟨fun link hlink => ?_, fun link hlink => nomatch hlink⟩
      exact ⟨_, _, _, link.1, hb _ rfl, hv _ rfl, h.same_options ▸ hd, hlink⟩
    | take _ => exact startLink hs fun error he => nomatch he
    | refuse hw =>
      exact startLink hs fun error he _ =>
        ReflTransGen.mono (fun a b => h.links_of_waits c) _ _ (waitsOn_iff.1 hw)
  | ends he =>
    rintro error rfl
    exact he.not_refusal
  | await _ => exact startLink hs fun error he => nomatch he
  | @settle d ahead started i g group link result hi hg =>
    have hlink : LinksTo options told l link := (hs.2 _ (List.mem_of_getElem? hi)).1
    refine ⟨hs.1, forall_mem_set hs.2 ⟨hlink, fun error he hrefusal => ?_⟩ _⟩
    cases he
    cases (h.result hg).symm.trans hrefusal

end Sourced

theorem Step.sourced {options : Options}
    {told : String → DocumentKind → Except StoreError String → Prop} (h : Step r e r')
    (c : r.Coherent) (hs : Sourced options told r)
    (htold : ∀ l kind, told l kind (r.store.answer l kind)) : Sourced options told r' where
  same_options := h.options.trans hs.same_options
  stage hf := by
    rcases h.flight c.tracked.numbered hf with hold | ⟨-, rfl⟩ | ⟨s, hold, ha⟩
    · exact hs.stage hold
    · exact ⟨nofun, nofun⟩
    · exact hs.advance c htold (hs.stage hold) ha

/-! ## Every registry -/

/-- What loads do not come to, whatever the documents and however their steps fall. -/
structure DeadlockFree (r : Registry) (links : String → String → Prop) : Prop where
  /-- Only importers in flight wait. -/
  waits_inFlight {a b : String} : r.Waits a b → r.InFlight a
  no_circle : Acyclic r.Waits
  /-- If loads are in flight, one of them waits for none in flight and can take a step. -/
  can_step : (∃ a, r.InFlight a) → ∃ a f e, r.pending.get? a = some f ∧
    (∀ b, r.Waits a b → ¬ r.InFlight b) ∧ e.flight? = some f ∧ (r.perform? e).isSome = true
  /-- If none is in flight, nobody waits. -/
  drained : (∀ a, ¬ r.InFlight a) → r.waits = []
  /-- A link is refused only if the links lead from its location back to the importer. -/
  refused {a b : String} : r.Refused a b → b = a ∨ TransGen links b a
  /-- Links without circles are never refused. -/
  not_refused : Acyclic links → ∀ a b, ¬ r.Refused a b
  /-- No load comes to a refusal for itself. -/
  result {f : Nat} {reason : String} : r.result? f ≠ some (.error (.linkCycle reason))

/-- In every order in which the steps of loads, saves and evictions fall, loads do not wait in a circle, and
refuse only links that close a circle of links. -/
theorem loads_never_deadlock (options : Options) (store : Store) (events : List Event) :
    ((new options store).run events).DeadlockFree
      (LinksTo options (Told (new options store) events)) := by
  have hrun : ((new options store).run events).Coherent ∧
      Acyclic ((new options store).run events).Waits ∧
      Sourced options (Told (new options store) events) ((new options store).run events) := by
    have hnone : Acyclic (new options store).Waits := fun a ha =>
      let ⟨_, hab, _⟩ := TransGen.head'_iff.1 ha
      nomatch hab
    refine run_keeps (P := fun r => r.Coherent ∧ Acyclic r.Waits ∧ Sourced options _ r)
      ⟨.new options store, hnone, .new store⟩ fun before e after r' he h hstep => ?_
    obtain ⟨c, hacyclic, hs⟩ := h
    exact ⟨hstep.coherent c, hstep.no_circle c hacyclic,
      hstep.sourced c hs fun l kind => ⟨before, e :: after, he, rfl⟩⟩
  generalize (new options store).run events = r at hrun
  obtain ⟨c, hacyclic, hs⟩ := hrun
  exact
    { waits_inFlight := c.of_waits
      no_circle := hacyclic
      can_step := c.some_can_step hacyclic
      drained := c.drained
      refused := fun hr =>
        (reflTransGen_iff_eq_or_transGen.1 (hs.refused hr).2).imp_left Eq.symm
      not_refused := fun hlinks a b hr =>
        let ⟨hlink, hback⟩ := hs.refused hr
        hlinks a (.head' hlink hback)
      result := fun hr => nomatch hs.result hr }

end MessageGraph.Registry
