import MessageGraph.Proofs.Registry.Deadlock
import MessageGraph.Proofs.Registry.Schedule

/-!
# Loads come to one result

Where the documents of a store link without circles, what a location means can be said without any
load: its own documents are joined, and in each of its groups stands what the linked location means
(`meaning`, with the equation `meaning_eq`). Whichever loads run together and however their steps fall,
a load that comes to a result comes to that one (`loads_confluent`).
-/
namespace MessageGraph.Registry

open Relation

variable {options : Options} {s : Store}

/-! ## What a location means -/

/-- The answers that a store gives as it is. -/
def tells (s : Store) (l : String) (kind : DocumentKind) (text : Except StoreError String) : Prop :=
  text = s.answer l kind

/-- The model of a location without linked content, from the documents of a store. -/
def draft (options : Options) (s : Store) (l : String) : Except LoadError Blueprint :=
  build options l (s.answer l .behavioral) (s.answer l .visual)

theorem linksTo_of_draft {l link : String} {d : Blueprint} {group : Id}
    (hd : draft options s l = .ok d) (h : (group, link) ∈ d.pendingLinks) :
    LinksTo options (tells s) l link := ⟨_, _, d, group, rfl, rfl, hd, h⟩

/-- Only locations with a stored document have links. -/
theorem stored_of_linksTo {a b : String} (h : LinksTo options (tells s) a b) :
    a ∈ s.documents.entries.map (·.1) := by
  obtain ⟨behavioral, visual, d, group, rfl, -, hd, -⟩ := h
  by_contra hnot
  have hnone : s.documents.get? a = none := List.lookup_eq_none_iff.2 fun e he =>
    bne_iff_ne.2 fun hae => hnot (List.mem_map.2 ⟨e, he, hae.symm⟩)
  have hanswer : ∃ error, s.answer a .behavioral = .error error := by
    unfold Store.answer Store.document? Store.lookup
    rw [hnone]
    cases (s.fetchFailures.get? a).bind (·.get .behavioral) with
    | none => exact ⟨_, rfl⟩
    | some reason => exact ⟨_, rfl⟩
  obtain ⟨error, herror⟩ := hanswer
  rw [herror] at hd
  cases hd

theorem wellFounded_links (h : Acyclic (LinksTo options (tells s))) :
    WellFounded (Function.swap (LinksTo options (tells s))) :=
  h.wellFounded ((List.finite_toSet _).subset fun _ ⟨_, hab⟩ => stored_of_linksTo hab)

/-- The model of a location with everything it links to: its own documents, and in each group the model of
the location linked there, or why there is none. -/
noncomputable def meaning (h : Acyclic (LinksTo options (tells s))) :
    String → Except LoadError Blueprint :=
  (wellFounded_links h).fix fun l linked =>
    match hd : draft options s l with
    | .error e => .error e
    | .ok d => assemble d (d.pendingLinks.attach.map fun ⟨(group, link), hmem⟩ =>
        (group, link, linked link (linksTo_of_draft hd hmem)))

theorem meaning_eq (h : Acyclic (LinksTo options (tells s))) (l : String) :
    meaning h l = (draft options s l).bind fun d =>
      assemble d (d.pendingLinks.map fun (group, link) => (group, link, meaning h link)) := by
  refine (WellFounded.fix_eq _ _ l).trans ?_
  split
  · rename_i e hd
    exact (congrArg (Except.bind · _) hd).symm
  · rename_i d hd
    refine Eq.trans ?_ (congrArg (Except.bind · _) hd).symm
    exact congrArg (assemble d) (List.attach_map_val (l := d.pendingLinks)
      (f := fun x => (x.1, x.2, meaning h x.2)))

/-! ## Loads agree with what is meant -/

variable {r r' : Registry} {e : Event} {l : String} {f : Nat}

/-- A load changes no document. -/
theorem Step.answer (h : Step r e r') (he : e.isLoad = true) : r'.store.answer = r.store.answer := by
  cases h with
  | wrote _ | registered | evicted => cases he
  | asked | launched _ _ | moved _ _ _ | ended _ _ _ | joined _ _ _ | spawned _ _ _
  | settled _ _ _ => rfl

/-- With both documents there, a load builds the draft. -/
theorem Sourced.draft_eq (h : Sourced options (tells s) r) (hanswer : r.store.answer = s.answer)
    {kind : DocumentKind} {b v : Option (Except StoreError String)}
    {behavioral visual : Except StoreError String} (hf : r.flights.get? f = some ⟨l, .fetching b v⟩)
    (ha : Arrives r l kind b v (some behavioral) (some visual)) :
    draft options s l = build r.options l behavioral visual := by
  obtain ⟨hb, hv⟩ := Sourced.arrives (fun l kind => congrFun (congrFun hanswer l) kind) (h.stage hf) ha
  cases hb _ rfl
  cases hv _ rfl
  rw [h.same_options]
  rfl

/-- A stage of a load that has what is meant so far. -/
def MeantStage (h : Acyclic (LinksTo options (tells s))) (l : String) : Stage → Prop
  | .fetching _ _ => True
  | .linking d _ started =>
    draft options s l = .ok d ∧
      ∀ link ∈ started, ∀ result, link.progress = .settled result → result = meaning h link.location
  | .over result => result = meaning h l

/-- Everything in a registry is what is meant. -/
structure Meant (h : Acyclic (LinksTo options (tells s))) (r : Registry) : Prop where
  coherent : r.Coherent
  sourced : Sourced options (tells s) r
  same_answer : r.store.answer = s.answer
  model {l : String} {m : Blueprint} (hm : r.model? l = some m) : meaning h l = .ok m
  stage {f : Nat} {l : String} {t : Stage} (hf : r.flights.get? f = some ⟨l, t⟩) : MeantStage h l t

namespace Meant

variable {h : Acyclic (LinksTo options (tells s))}

theorem new : Meant h (new options s) where
  coherent := .new options s
  sourced := .new s
  same_answer := rfl
  model hm := nomatch hm
  stage hf := nomatch hf

theorem result (m : Meant h r) {result : Except LoadError Blueprint} {x : Stage}
    (hf : r.flights.get? f = some ⟨l, x⟩) (hr : r.result? f = some result) : result = meaning h l := by
  obtain ⟨l', hf'⟩ := result?_eq_some.1 hr
  cases hf.symm.trans hf'
  exact m.stage hf'

theorem told (m : Meant h r) (l : String) (kind : DocumentKind) :
    tells s l kind (r.store.answer l kind) := congrFun (congrFun m.same_answer l) kind

theorem startLink {d : Blueprint} {group : Id} {link : String} {ahead : List (Id × String)}
    {started : List LinkLoad} {progress : LinkProgress}
    (hs : MeantStage h l (.linking d ((group, link) :: ahead) started))
    (hprogress : ∀ result, progress = .settled result → result = meaning h link) :
    MeantStage h l (.linking d ahead (started ++ [⟨group, link, progress⟩])) := by
  exact ⟨hs.1, List.forall_mem_append.2 ⟨hs.2, List.forall_mem_singleton.2 hprogress⟩⟩

/-- With all results there, what is assembled is what is meant. -/
theorem land (m : Meant h r) {d : Blueprint} {started : List LinkLoad}
    {links : List (Id × String × Except LoadError Blueprint)}
    (hf : r.flights.get? f = some ⟨l, .linking d [] started⟩) (hsettled : settled? started = some links) :
    assemble d links = meaning h l := by
  obtain ⟨hd, hresults⟩ := m.stage hf
  have hstarted := eq_of_settled? hsettled
  rw [meaning_eq, hd]
  show _ = assemble d _
  congr 1
  rw [m.coherent.listed hf, hstarted, List.append_nil, List.map_map, List.map_map]
  refine (List.map_id links).symm.trans (List.map_congr_left fun link hlink => ?_)
  have hresult := hresults ⟨link.1, link.2.1, .settled link.2.2⟩
    (hstarted ▸ List.mem_map.2 ⟨link, hlink, rfl⟩) _ rfl
  exact Prod.ext rfl (Prod.ext rfl hresult)

theorem ends (m : Meant h r) {t : Stage} {result : Except LoadError Blueprint}
    (hf : r.flights.get? f = some ⟨l, t⟩) (he : Ends r l t result) : result = meaning h l := by
  cases he with
  | fail ha herror =>
    rw [meaning_eq, m.sourced.draft_eq m.same_answer hf ha, herror]
    rfl
  | land hsettled => exact m.land hf hsettled

theorem advance (m : Meant h r) {t t' : Stage}
    (hf : r.flights.get? f = some ⟨l, t⟩) (ha : Advance r r' l t t') : MeantStage h l t' := by
  have hs := m.stage hf
  cases ha with
  | move hm =>
    cases hm with
    | arrive _ _ => trivial
    | build ha hd => exact ⟨(m.sourced.draft_eq m.same_answer hf ha).trans hd, fun link hlink => nomatch hlink⟩
    | take hm =>
      exact startLink hs fun result hresult => by
        cases hresult
        exact (m.model hm).symm
    | refuse hw =>
      -- a refused link would close a circle of links
      have hback := ReflTransGen.mono (fun _ _ => m.sourced.links_of_waits m.coherent) _ _
        (waitsOn_iff.1 hw)
      exact absurd (TransGen.head' ((m.sourced.stage hf).1 _ List.mem_cons_self) hback) (h l)
  | ends he => exact m.ends hf he
  | await _ => exact startLink hs fun result hresult => nomatch hresult
  | settle hi hg =>
    refine ⟨hs.1, forall_mem_set hs.2 (fun y hy => ?_) _⟩
    cases hy
    obtain ⟨t, ht⟩ := m.coherent.awaited hf (Stage.mem_awaiting hi)
    exact m.result ht hg

end Meant

theorem Step.meant {h : Acyclic (LinksTo options (tells s))} (hstep : Step r e r')
    (he : e.isLoad = true) (m : Meant h r) : Meant h r' where
  coherent := hstep.coherent m.coherent
  sourced := hstep.sourced m.coherent m.sourced m.told
  same_answer := (hstep.answer he).trans m.same_answer
  model {l b} hm := by
    rcases hstep.model hm with hold | rfl | ⟨f, t, hf, hends⟩
    · exact m.model hold
    · cases he
    · exact (m.ends hf hends).symm
  stage hf := by
    rcases hstep.flight m.coherent.tracked.numbered hf with hold | ⟨-, rfl⟩ | ⟨t, hold, ha⟩
    · exact m.stage hold
    · trivial
    · exact m.advance hold ha

/-- What a request comes to is what is meant. -/
theorem Meant.result_of_ticket {h : Acyclic (LinksTo options (tells s))} (m : Meant h r)
    (m' : Meant h r') {result : Except LoadError Blueprint}
    (hrun : ∃ after, r' = (r.request l).2.run after)
    (hresult : (r.request l).1.result? r' = some result) : result = meaning h l := by
  obtain ⟨after, rfl⟩ := hrun
  rcases m.coherent.tracked.result_of_ticket hresult with ⟨b, hb, rfl⟩ | ⟨f, hf⟩
  · exact (m.model hb).symm
  · exact m'.stage hf

/-- In the store of a house, the house links to the room and nothing else links. -/
theorem houseStore_acyclic : Acyclic (LinksTo {} (tells houseStore)) := by
  have hhouse : (draft {} houseStore "house").toOption.map (·.pendingLinks) = some [(2, "room")] := by
    decide +kernel
  have hroom : (draft {} houseStore "room").toOption.map (·.pendingLinks) = some [] := by
    decide +kernel
  have hlinks : ∀ a b, LinksTo {} (tells houseStore) a b → a = "house" ∧ b = "room" := by
    intro a b hab
    have hkeys : houseStore.documents.entries.map (·.1) = ["house", "room"] := by decide +kernel
    have hstored : a = "house" ∨ a = "room" := by simpa [hkeys] using stored_of_linksTo hab
    obtain ⟨_, _, d, group, rfl, rfl, hd, hmem⟩ := hab
    have hd : draft {} houseStore a = .ok d := hd
    rcases hstored with rfl | rfl
    · rw [hd] at hhouse
      have hpending : d.pendingLinks = [(2, "room")] := Option.some.inj hhouse
      rw [hpending] at hmem
      cases List.mem_singleton.1 hmem
      exact ⟨rfl, rfl⟩
    · rw [hd] at hroom
      have hpending : d.pendingLinks = [] := Option.some.inj hroom
      rw [hpending] at hmem
      cases hmem
  intro a ha
  obtain ⟨b, hab, -⟩ := TransGen.head'_iff.1 ha
  obtain ⟨c, -, hca⟩ := TransGen.tail'_iff.1 ha
  have hne : "house" = "room" := (hlinks a b hab).1.symm.trans (hlinks c a hca).2
  exact absurd hne (by decide)

/-- Where the documents of a store link without circles, all loads of a location that come to a result come
to the same, the model with what the linked locations mean in its groups: whatever else is loaded and
however the steps of all loads fall. -/
theorem loads_confluent (acyclic : Acyclic (LinksTo options (tells s))) (before after : List Event)
    (hbefore : ∀ e ∈ before, e.isLoad = true) (hafter : ∀ e ∈ after, e.isLoad = true) (l : String)
    (result : Except LoadError Blueprint) :
    let r := (new options s).run before
    (r.request l).1.result? ((r.request l).2.run after) = some result →
      result = meaning acyclic l := by
  intro r hresult
  have m : Meant acyclic r := run_keeps_of (fun he m h => h.meant he m) hbefore .new
  have hrequest : Step r (.request l) (r.request l).2 := perform?_step rfl
  have m' : Meant acyclic ((r.request l).2.run after) :=
    run_keeps_of (fun he m h => h.meant he m) hafter (hrequest.meant rfl m)
  exact m.result_of_ticket m' ⟨after, rfl⟩ hresult

/-- The house is loaded while the room is, and shares its load. -/
theorem loads_confluent_shared :
    let before : List Event := [.request "room", .answer 0 .visual]
    let after : List Event := [.answer 1 .behavioral, .answer 1 .visual, .startLink 1,
      .answer 0 .behavioral, .land 0, .settleLink 1 0, .land 1]
    let r := (new {} houseStore).run before
    (∀ e ∈ before, e.isLoad = true) ∧ (∀ e ∈ after, e.isLoad = true) ∧
      ∃ m : Blueprint, (r.request "house").1.result? ((r.request "house").2.run after) = some (.ok m) ∧
        m.pendingLinks = [] ∧ .ok m = meaning houseStore_acyclic "house" := by
  intro before after r
  have hbefore : ∀ e ∈ before, e.isLoad = true := by decide
  have hafter : ∀ e ∈ after, e.isLoad = true := by decide
  have hloaded : ((r.request "house").1.result? ((r.request "house").2.run after)).map
      (fun result => result.toOption.map (·.pendingLinks)) = some (some []) := by decide +kernel
  obtain ⟨result, hresult, hlinks⟩ := Option.map_eq_some_iff.1 hloaded
  obtain ⟨m, hm, hnone⟩ := Option.map_eq_some_iff.1 hlinks
  cases of_toOption hm
  exact ⟨hbefore, hafter, m, hresult, hnone,
    loads_confluent houseStore_acyclic before after hbefore hafter "house" (.ok m) hresult⟩

/-- The same of a load by turns, if it is served. -/
theorem load_eq_meaning (acyclic : Acyclic (LinksTo options (tells s))) (before : List Event)
    (hbefore : ∀ e ∈ before, e.isLoad = true) (delay : Nat) (l : String) :
    let result := (((new options s).run before).load delay l).1
    result = meaning acyclic l ∨ result = .error (.linkCycle l) := by
  have hkeeps : ∀ {r e r'}, e.isLoad = true → Meant acyclic r → Step r e r' → Meant acyclic r' :=
    fun he m h => h.meant he m
  have m : Meant acyclic ((new options s).run before) := run_keeps_of hkeeps hbefore .new
  obtain ⟨hleads, t, ht, ⟨after, -, hafter⟩, hresult⟩ := load_run ((new options s).run before) delay l
  intro result
  cases hx : (t.request l).1.result? (((new options s).run before).load delay l).2 with
  | none => exact .inr (hresult.trans (congrArg (Option.getD · _) hx))
  | some x =>
    refine .inl ((hresult.trans (congrArg (Option.getD · _) hx)).trans ?_)
    exact (ht.keeps hkeeps m).result_of_ticket (hleads.keeps hkeeps m) ⟨after, hafter⟩ hx

end MessageGraph.Registry
