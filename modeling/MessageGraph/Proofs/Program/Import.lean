import MessageGraph.Proofs.Blueprint.Operation
import MessageGraph.Proofs.Program.Flatten
import Mathlib

/-!
# Imports name behaviors one to one

A program asks for the binding of one behavior after another (`Request`, `Manifest.addAll`). What it is told is
settled by the answers before (`Answered`): a behavior asked for again has the binding it got; a new one has its
identifier if no answer gave that name, and otherwise the first alias that no answer gave, with one report. The
search for the alias ends at the number of answers before, plus one, at the latest (`candidate_aliasNumber`).

An identifier may look like the alias of another one, and the separator may be empty. What carries the proofs is
that all bindings so far differ (`OneToOne`), which `add` preserves because it looks for both kinds of names among
all of them, and that the imports are the answers without repetitions (`Tracks`).

Result: `bindings_one_to_one`, for every sequence of requests, and what follows for the names in a program.
-/
namespace MessageGraph

/-! ## Repetitions left out -/

section EraseDups

variable {α β : Type} [BEq α] [LawfulBEq α] [BEq β] [LawfulBEq β]

theorem eraseDups_concat (l : List α) (a : α) :
    (l ++ [a]).eraseDups = if a ∈ l then l.eraseDups else l.eraseDups ++ [a] := by
  rw [List.eraseDups_append]
  by_cases h : a ∈ l
  · simp [List.removeAll, h]
  · simp [List.removeAll, h, List.eraseDups_cons]

theorem nodup_eraseDups (l : List α) : l.eraseDups.Nodup := by
  induction l using List.reverseRecOn with
  | nil => exact List.nodup_nil
  | append_singleton l a ih =>
    rw [eraseDups_concat]
    split
    · exact ih
    · next h =>
      refine ih.append (List.nodup_singleton a) fun b hb hb' => h ?_
      rw [List.mem_singleton.1 hb'] at hb
      exact List.mem_eraseDups.1 hb

theorem eraseDups_map_eraseDups (f : α → β) (l : List α) :
    (l.eraseDups.map f).eraseDups = (l.map f).eraseDups := by
  induction l using List.reverseRecOn with
  | nil => rfl
  | append_singleton l a ih =>
    rw [eraseDups_concat, List.map_append, List.map_singleton, eraseDups_concat]
    split
    · next h => rw [ih, if_pos (List.mem_map_of_mem h)]
    · rw [List.map_append, List.map_singleton, eraseDups_concat, ih]
      exact if_congr (by simp only [List.mem_map, List.mem_eraseDups]) rfl rfl

/-- The first element with a property is no repetition. -/
theorem find?_eraseDups (p : α → Bool) (l : List α) : l.eraseDups.find? p = l.find? p := by
  induction l using List.reverseRecOn with
  | nil => rfl
  | append_singleton l a ih =>
    rw [eraseDups_concat, List.find?_append, ← ih]
    split
    · next h =>
      cases hf : l.eraseDups.find? p with
      | some b => rfl
      | none =>
        have ha := List.find?_eq_none.1 hf a (List.mem_eraseDups.2 h)
        simp [ha]
    · rw [List.find?_append]

end EraseDups

/-! ## Requests -/

/-- What is imported: an identifier at a location. -/
def Import.key (i : Import) : String × String := (i.identifier, i.location)

/-- A behavior to import, and the node that uses it. -/
structure Request where
  identifier : String
  location : String
  subject : Option Id
deriving DecidableEq, Repr

def Request.key (r : Request) : String × String := (r.identifier, r.location)

/-- What a section contains: each import with the binding that it has. -/
def Section.entries (s : Section) : List ((String × String) × String) :=
  s.items.map fun i => ((i.identifier, s.location), i.binding)

/-- A request with the binding that was returned and what was reported. -/
structure Answer where
  request : Request
  binding : String
  reports : Diagnostics
deriving DecidableEq, Repr

namespace Manifest

variable {m : Manifest} {r : Request} {identifier location : String} {subject : Option Id}

/-! ## Aliases -/

theorem candidate_injective (m : Manifest) (identifier : String) :
    Function.Injective (m.candidate identifier) := by
  intro n k h
  have hdigits : Nat.toDigits 10 n = Nat.toDigits 10 k :=
    String.ofList_injective ((String.append_right_inj _).1 h)
  simpa only [Nat.ofDigitChars_ten_toDigits] using congrArg (Nat.ofDigitChars 10 · 0) hdigits

/-- Among one more aliases than there are bindings, one is free. -/
theorem exists_free (m : Manifest) (identifier : String) :
    ∃ n, n < m.bindings.length + 1 ∧ m.candidate identifier (n + 1) ∉ m.bindings := by
  by_contra! hall
  have hsub : (List.range (m.bindings.length + 1)).map (fun n => m.candidate identifier (n + 1)) ⊆ m.bindings := by
    intro name hname
    obtain ⟨n, hn, rfl⟩ := List.mem_map.1 hname
    exact hall n (List.mem_range.1 hn)
  have hnodup : ((List.range (m.bindings.length + 1)).map fun n => m.candidate identifier (n + 1)).Nodup :=
    List.nodup_range.map fun _ _ h => Nat.succ.inj (m.candidate_injective identifier h)
  have hle := (hnodup.subperm hsub).length_le
  simp only [List.length_map, List.length_range] at hle
  omega

/-- The number of an alias is the least one from 1 on that gives a free name. -/
theorem candidate_aliasNumber (m : Manifest) (identifier : String) :
    1 ≤ m.aliasNumber identifier ∧ m.aliasNumber identifier ≤ m.bindings.length + 1 ∧
    m.candidate identifier (m.aliasNumber identifier) ∉ m.bindings ∧
    ∀ k, 1 ≤ k → k < m.aliasNumber identifier → m.candidate identifier k ∈ m.bindings := by
  obtain ⟨n, hn, hfree⟩ := m.exists_free identifier
  have hsome : ((List.range (m.bindings.length + 1)).find? fun n =>
      !m.bindings.contains (m.candidate identifier (n + 1))).isSome = true :=
    List.find?_isSome.2 ⟨n, List.mem_range.2 hn, by simpa using hfree⟩
  obtain ⟨least, hleast⟩ := Option.isSome_iff_exists.1 hsome
  have hnumber : m.aliasNumber identifier = least + 1 := by
    simp only [aliasNumber, hleast, Option.getD_some]
  obtain ⟨hnew, hrange, hbefore⟩ := List.find?_range_eq_some.1 hleast
  rw [hnumber]
  refine ⟨by omega, by have := List.mem_range.1 hrange; omega, by simpa using hnew, fun k hk hlt => ?_⟩
  obtain ⟨j, rfl⟩ : ∃ j, k = j + 1 := ⟨k - 1, by omega⟩
  simpa using hbefore j (by omega)

/-! ## One import -/

/-- What `add` does: it finds the behavior among the imports, or it adds an import of a new name. -/
theorem add_cases (m : Manifest) (identifier location : String) (subject : Option Id) :
    (∃ i ∈ m.imports, i.key = (identifier, location) ∧
      m.add identifier location subject = (i.binding, m, [])) ∨
    (∀ i ∈ m.imports, i.key ≠ (identifier, location)) ∧
      (identifier ∉ m.bindings ∧
        m.add identifier location subject =
          (identifier, { m with imports := m.imports ++ [⟨identifier, location, none⟩] }, []) ∨
       identifier ∈ m.bindings ∧
        m.add identifier location subject =
          (m.candidate identifier (m.aliasNumber identifier),
            { m with imports := m.imports ++
                [⟨identifier, location, some (m.candidate identifier (m.aliasNumber identifier))⟩] },
            [m.duplicateReport identifier location
              (m.candidate identifier (m.aliasNumber identifier)) subject])) := by
  cases hf : m.find? identifier location with
  | some i =>
    have hkey := List.find?_some hf
    rw [Bool.and_eq_true, decide_eq_true_iff, decide_eq_true_iff] at hkey
    exact Or.inl ⟨i, List.mem_of_find?_eq_some hf, Prod.ext hkey.1 hkey.2, by simp only [add, hf]⟩
  | none =>
    refine Or.inr ⟨fun i hi hkey => ?_, ?_⟩
    · cases hkey
      simpa using List.find?_eq_none.1 hf i hi
    · by_cases htaken : identifier ∈ m.bindings
      · refine Or.inr ⟨htaken, ?_⟩
        simp only [add, hf, List.contains_eq_mem, htaken, decide_true, if_true]
      · refine Or.inl ⟨htaken, ?_⟩
        simp only [add, hf, List.contains_eq_mem, htaken, decide_false, Bool.false_eq_true, if_false]

/-- No behavior is imported twice and no two have one name. -/
structure OneToOne (m : Manifest) : Prop where
  keys : (m.imports.map Import.key).Nodup
  bindings : m.bindings.Nodup

theorem OneToOne.append (h : m.OneToOne) {i : Import} (hkey : ∀ j ∈ m.imports, j.key ≠ i.key)
    (hbinding : i.binding ∉ m.bindings) : OneToOne { m with imports := m.imports ++ [i] } where
  keys := by
    rw [List.map_append]
    refine h.keys.append (List.nodup_singleton _) fun key hk hk' => ?_
    obtain ⟨j, hj, rfl⟩ := List.mem_map.1 hk
    exact hkey j hj (List.mem_singleton.1 hk')
  bindings := by
    rw [Manifest.bindings, List.map_append]
    refine h.bindings.append (List.nodup_singleton _) fun name hn hn' => ?_
    rw [List.mem_singleton.1 hn'] at hn
    exact hbinding hn

theorem OneToOne.add (h : m.OneToOne) (identifier location : String) (subject : Option Id) :
    (m.add identifier location subject).2.1.OneToOne := by
  obtain ⟨i, -, -, he⟩ | ⟨hnew, ⟨hfree, he⟩ | ⟨-, he⟩⟩ := m.add_cases identifier location subject
  · rwa [he]
  · rw [he]
    exact h.append hnew hfree
  · rw [he]
    exact h.append hnew (m.candidate_aliasNumber identifier).2.2.1

theorem OneToOne.binding_eq_iff (h : m.OneToOne) {i j : Import} (hi : i ∈ m.imports) (hj : j ∈ m.imports) :
    i.binding = j.binding ↔ i.key = j.key :=
  ⟨fun hb => congrArg Import.key (List.inj_on_of_nodup_map h.bindings hi hj hb),
    fun hk => congrArg Import.binding (List.inj_on_of_nodup_map h.keys hi hj hk)⟩

/-! ## A sequence of imports -/

/-- Answers requests one after another. -/
def addAll : List Request → Manifest → List Answer × Manifest
  | [], m => ([], m)
  | r :: rs, m =>
    let (binding, m, reports) := m.add r.identifier r.location r.subject
    let (answers, m) := addAll rs m
    (⟨r, binding, reports⟩ :: answers, m)

/-- The report that a request needed an alias, after the answers `before`. -/
def aliasReport (before : List Answer) (r : Request) (aliasName : String) : Diagnostic :=
  let identifier := r.identifier
  let location := r.location
  let first := ((before.find? (·.request.identifier = identifier)).map (·.request.location)).getD "another binding"
  { kind := .duplicateBehaviorIdentifier
    message := s!"'{identifier}' from '{location}' is already imported from '{first}'; bound as '{aliasName}'"
    subject := r.subject }

/-- What a request is answered after the answers `before`. -/
inductive Answered (separator : String) (before : List Answer) : Answer → Prop
  /-- A behavior that was asked for before has the binding that it got. -/
  | again {r : Request} {a : Answer} (h : a ∈ before) (key : a.request.key = r.key) :
      Answered separator before ⟨r, a.binding, []⟩
  /-- A new behavior has its identifier if that name is free. -/
  | plain {r : Request} (new : ∀ a ∈ before, a.request.key ≠ r.key)
      (free : ∀ a ∈ before, a.binding ≠ r.identifier) : Answered separator before ⟨r, r.identifier, []⟩
  /-- Otherwise it has the first free alias, and that is reported. -/
  | aliased {r : Request} {n : Nat} (new : ∀ a ∈ before, a.request.key ≠ r.key)
      (taken : ∃ a ∈ before, a.binding = r.identifier) (pos : 1 ≤ n) (bound : n ≤ before.length + 1)
      (free : ∀ a ∈ before, a.binding ≠ r.identifier ++ separator ++ toString n)
      (least : ∀ k, 1 ≤ k → k < n → ∃ a ∈ before, a.binding = r.identifier ++ separator ++ toString k) :
      Answered separator before ⟨r, r.identifier ++ separator ++ toString n,
        [aliasReport before r (r.identifier ++ separator ++ toString n)]⟩

/-- The imports are what the answers `before` say, without repetitions, under names of their own. -/
structure Tracks (before : List Answer) (m : Manifest) : Prop where
  oneToOne : m.OneToOne
  imports : m.imports.map (fun i => (i.key, i.binding)) =
    (before.map fun a => (a.request.key, a.binding)).eraseDups

namespace Tracks

variable {before : List Answer}

theorem empty (separator : String) : Tracks [] { separator := separator } := ⟨⟨.nil, .nil⟩, rfl⟩

theorem mem_iff (h : Tracks before m) {key : String × String} {binding : String} :
    (∃ i ∈ m.imports, i.key = key ∧ i.binding = binding) ↔
      ∃ a ∈ before, a.request.key = key ∧ a.binding = binding := by
  have hmem : (key, binding) ∈ m.imports.map (fun i => (i.key, i.binding)) ↔
      (key, binding) ∈ before.map fun a => (a.request.key, a.binding) := by
    rw [h.imports, List.mem_eraseDups]
  simpa only [List.mem_map, Prod.mk.injEq] using hmem

theorem mem_bindings (h : Tracks before m) {binding : String} :
    binding ∈ m.bindings ↔ ∃ a ∈ before, a.binding = binding := by
  constructor
  · intro hb
    obtain ⟨i, hi, hbinding⟩ := List.mem_map.1 hb
    obtain ⟨a, ha, -, hb'⟩ := h.mem_iff.1 ⟨i, hi, rfl, hbinding⟩
    exact ⟨a, ha, hb'⟩
  · rintro ⟨a, ha, hbinding⟩
    obtain ⟨i, hi, -, hb'⟩ := h.mem_iff.2 ⟨a, ha, rfl, hbinding⟩
    exact List.mem_map.2 ⟨i, hi, hb'⟩

theorem length_bindings_le (h : Tracks before m) : m.bindings.length ≤ before.length := by
  have hsub : m.bindings ⊆ before.map (·.binding) := fun _ hb => List.mem_map.2 (h.mem_bindings.1 hb)
  simpa only [List.length_map] using (h.oneToOne.bindings.subperm hsub).length_le

theorem locations (h : Tracks before m) : m.locations = (before.map (·.request.location)).eraseDups := by
  have hmap := congrArg (fun l => (l.map fun x => x.1.2).eraseDups) h.imports
  rwa [eraseDups_map_eraseDups, List.map_map, List.map_map] at hmap

theorem firstLocation? (h : Tracks before m) (identifier : String) : m.firstLocation? identifier =
    (before.find? (·.request.identifier = identifier)).map (·.request.location) := by
  have hfind := congrArg (fun l => (l.find? fun x => decide (x.1.1 = identifier)).map (·.1.2)) h.imports
  rwa [find?_eraseDups, List.find?_map, List.find?_map, Option.map_map, Option.map_map] at hfind

theorem duplicateReport (h : Tracks before m) (r : Request) (aliasName : String) :
    m.duplicateReport r.identifier r.location aliasName r.subject = aliasReport before r aliasName := by
  rw [Manifest.duplicateReport, h.firstLocation?]
  rfl

/-- An answer from the imports adds nothing to them. -/
theorem again (h : Tracks before m) {i : Import} (hi : i ∈ m.imports) (hkey : i.key = r.key)
    (reports : Diagnostics) : Tracks (before ++ [⟨r, i.binding, reports⟩]) m where
  oneToOne := h.oneToOne
  imports := by
    have hmem : (r.key, i.binding) ∈ before.map fun a => (a.request.key, a.binding) := by
      rw [← List.mem_eraseDups, ← h.imports, ← hkey]
      exact List.mem_map_of_mem hi
    rw [List.map_append, List.map_singleton, eraseDups_concat, if_pos hmem, h.imports]

/-- An answer with a new name adds one import. -/
theorem append (h : Tracks before m) (aliasName : Option String)
    (hkey : ∀ i ∈ m.imports, i.key ≠ r.key) (hfree : aliasName.getD r.identifier ∉ m.bindings)
    (reports : Diagnostics) :
    Tracks (before ++ [⟨r, aliasName.getD r.identifier, reports⟩])
      { m with imports := m.imports ++ [⟨r.identifier, r.location, aliasName⟩] } where
  oneToOne := h.oneToOne.append hkey hfree
  imports := by
    have hnew : (r.key, aliasName.getD r.identifier) ∉ before.map fun a => (a.request.key, a.binding) := by
      intro hmem
      rw [← List.mem_eraseDups, ← h.imports] at hmem
      obtain ⟨i, hi, he⟩ := List.mem_map.1 hmem
      exact hkey i hi (Prod.ext_iff.1 he).1
    rw [List.map_append, List.map_append, List.map_singleton, List.map_singleton, eraseDups_concat,
      if_neg hnew, h.imports]
    rfl

/-- One request is answered as the answers before it settle. -/
theorem add (h : Tracks before m) (r : Request) {binding : String} {m' : Manifest} {reports : Diagnostics}
    (hadd : m.add r.identifier r.location r.subject = (binding, m', reports)) :
    Tracks (before ++ [⟨r, binding, reports⟩]) m' ∧ m'.separator = m.separator ∧
      Answered m.separator before ⟨r, binding, reports⟩ := by
  have hnewOf (hkey : ∀ i ∈ m.imports, i.key ≠ r.key) : ∀ a ∈ before, a.request.key ≠ r.key := by
    intro a ha hk
    obtain ⟨i, hi, hik, -⟩ := h.mem_iff.2 ⟨a, ha, hk, rfl⟩
    exact hkey i hi hik
  obtain ⟨i, hi, hkey, he⟩ | ⟨hkey, ⟨hfree, he⟩ | ⟨htaken, he⟩⟩ :=
    m.add_cases r.identifier r.location r.subject
  · cases hadd.symm.trans he
    obtain ⟨a, ha, hak, hab⟩ := h.mem_iff.1 ⟨i, hi, hkey, rfl⟩
    refine ⟨h.again hi hkey [], rfl, ?_⟩
    rw [← hab]
    exact .again ha hak
  · cases hadd.symm.trans he
    exact ⟨h.append (r := r) none hkey hfree [], rfl,
      .plain (hnewOf hkey) fun a ha hb => hfree (h.mem_bindings.2 ⟨a, ha, hb⟩)⟩
  · cases hadd.symm.trans he
    obtain ⟨hpos, hle, hfree, hleast⟩ := m.candidate_aliasNumber r.identifier
    refine ⟨h.append (r := r) (some _) hkey hfree _, rfl, ?_⟩
    rw [h.duplicateReport]
    exact .aliased (hnewOf hkey) (h.mem_bindings.1 htaken) hpos
      (Nat.le_trans hle (Nat.succ_le_succ h.length_bindings_le))
      (fun a ha hb => hfree (h.mem_bindings.2 ⟨a, ha, hb⟩))
      fun k hk hlt => h.mem_bindings.1 (hleast k hk hlt)

end Tracks

/-- Every answer of a sequence is settled by those before it. -/
theorem Tracks.addAll {before : List Answer} (h : Tracks before m) (rs : List Request) :
    Tracks (before ++ (addAll rs m).1) (addAll rs m).2 ∧
      ∀ front a after, (addAll rs m).1 = front ++ a :: after → Answered m.separator (before ++ front) a := by
  induction rs generalizing m before with
  | nil => exact ⟨by rwa [Manifest.addAll, List.append_nil], fun front a after he => by cases front <;> cases he⟩
  | cons r rs ih =>
    rcases hadd : m.add r.identifier r.location r.subject with ⟨binding, m', reports⟩
    obtain ⟨hfirst, hseparator, hanswered⟩ := h.add r hadd
    obtain ⟨hrest, hlater⟩ := ih hfirst
    have he : Manifest.addAll (r :: rs) m =
        (⟨r, binding, reports⟩ :: (Manifest.addAll rs m').1, (Manifest.addAll rs m').2) := by
      simp only [Manifest.addAll, hadd]
    rw [he]
    refine ⟨by rwa [List.append_assoc] at hrest, fun front a after hfront => ?_⟩
    cases front with
    | nil =>
      cases hfront
      rwa [List.append_nil]
    | cons b front =>
      obtain ⟨rfl, htail⟩ := List.cons.inj hfront
      rw [← hseparator]
      simpa only [List.append_assoc, List.singleton_append] using hlater front a after htail

theorem requests_addAll (rs : List Request) (m : Manifest) : (addAll rs m).1.map (·.request) = rs := by
  induction rs generalizing m with
  | nil => rfl
  | cons r rs ih =>
    show r :: (addAll rs _).1.map (·.request) = r :: rs
    rw [ih]

/-! ## Sections -/

theorem mem_flatMap_entries {key : String × String} {binding : String} :
    (key, binding) ∈ m.sections.flatMap Section.entries ↔ ∃ i ∈ m.imports, i.key = key ∧ i.binding = binding := by
  simp only [sections, locations, Section.entries, List.mem_flatMap, List.mem_map, List.mem_eraseDups]
  constructor
  · rintro ⟨_, ⟨_, -, rfl⟩, i, hi, he⟩
    obtain ⟨hi, hlocation⟩ := List.mem_filter.1 hi
    rw [← of_decide_eq_true hlocation, Prod.mk.injEq] at he
    exact ⟨i, hi, he⟩
  · rintro ⟨i, hi, rfl, rfl⟩
    exact ⟨_, ⟨i.location, ⟨i, hi, rfl⟩, rfl⟩, i, List.mem_filter.2 ⟨hi, decide_eq_true rfl⟩, rfl⟩

theorem locations_sections : m.sections.map (·.location) = m.locations := by
  rw [sections, List.map_map]
  exact List.map_id _

/-- No behavior is in two sections, or twice in one. -/
theorem OneToOne.keys_sections (h : m.OneToOne) :
    ((m.sections.flatMap Section.entries).map (·.1)).Nodup := by
  have hentries (location : String) :
      (Section.entries ⟨location, m.imports.filter (·.location = location)⟩).map (·.1) =
        (m.imports.filter (·.location = location)).map Import.key := by
    rw [Section.entries, List.map_map]
    refine List.map_congr_left fun i hi => ?_
    show (i.identifier, location) = (i.identifier, i.location)
    rw [of_decide_eq_true (List.mem_filter.1 hi).2]
  simp only [List.map_flatMap, sections, List.flatMap_map, hentries]
  refine List.nodup_flatMap.2 ⟨fun location _ => ?_, (nodup_eraseDups _).imp fun hne => ?_⟩
  · exact h.keys.sublist (List.filter_sublist.map _)
  · intro key hkey hkey'
    obtain ⟨i, hi, rfl⟩ := List.mem_map.1 hkey
    obtain ⟨j, hj, he⟩ := List.mem_map.1 hkey'
    have hi := of_decide_eq_true (List.mem_filter.1 hi).2
    have hj := of_decide_eq_true (List.mem_filter.1 hj).2
    exact hne (hi.symm.trans ((Prod.ext_iff.1 he).2.symm.trans hj))

/-! ## The naming -/

/-- The answers name the behaviors asked for one to one, and the sections list them. -/
structure Naming (separator : String) (rs : List Request) (answers : List Answer) (m : Manifest) : Prop where
  requests : answers.map (·.request) = rs
  answered : ∀ before a after, answers = before ++ a :: after → Answered separator before a
  binding_eq_iff : ∀ a ∈ answers, ∀ b ∈ answers, a.binding = b.binding ↔ a.request.key = b.request.key
  /-- in the order of first use -/
  locations : m.sections.map (·.location) = (rs.map (·.location)).eraseDups
  locations_nodup : (m.sections.map (·.location)).Nodup
  keys_nodup : ((m.sections.flatMap Section.entries).map (·.1)).Nodup
  entries : ∀ key binding, (key, binding) ∈ m.sections.flatMap Section.entries ↔
    ∃ a ∈ answers, a.request.key = key ∧ a.binding = binding

theorem Tracks.binding_eq_iff {before : List Answer} (h : Tracks before m) {a b : Answer} (ha : a ∈ before)
    (hb : b ∈ before) : a.binding = b.binding ↔ a.request.key = b.request.key := by
  obtain ⟨i, hi, hik, hib⟩ := h.mem_iff.2 ⟨a, ha, rfl, rfl⟩
  obtain ⟨j, hj, hjk, hjb⟩ := h.mem_iff.2 ⟨b, hb, rfl, rfl⟩
  rw [← hib, ← hjb, ← hik, ← hjk]
  exact h.oneToOne.binding_eq_iff hi hj

theorem tracks_addAll (separator : String) (rs : List Request) :
    Tracks (addAll rs { separator := separator }).1 (addAll rs { separator := separator }).2 :=
  ((Tracks.empty separator).addAll rs).1

theorem naming_addAll (separator : String) (rs : List Request) :
    Naming separator rs (addAll rs { separator := separator }).1 (addAll rs { separator := separator }).2 := by
  have h := tracks_addAll separator rs
  exact
    { requests := requests_addAll rs _
      answered := ((Tracks.empty separator).addAll rs).2
      binding_eq_iff := fun _ ha _ hb => h.binding_eq_iff ha hb
      locations := by
        rw [locations_sections, h.locations]
        conv_rhs => rw [← requests_addAll rs { separator := separator }, List.map_map]
        rfl
      locations_nodup := by
        rw [locations_sections]
        exact nodup_eraseDups _
      keys_nodup := h.oneToOne.keys_sections
      entries := fun _ _ => mem_flatMap_entries.trans h.mem_iff }

end Manifest

/-! ## Names in a program -/

namespace Graph

variable {g : Graph} {t : Tables} {options : Options}

/-- What an element asks for: its behavior at the location assigned to it. -/
def request? (g : Graph) (options : Options) (e : Element) : Option Request :=
  (g.behaviorOf? e).map fun (behavior, node) =>
    ⟨behavior.identifier, g.locationFor node behavior options.defaultLocation, some node⟩

/-- Binding elements answers their requests in order. -/
theorem importAll_eq (g : Graph) (options : Options) (es : List Element) (m : Manifest) :
    (g.importAll options es m).1.map (fun x => (g.request? options x.1, x.2)) =
        (Manifest.addAll (es.filterMap (g.request? options)) m).1.map (fun a => (some a.request, a.binding)) ∧
      (g.importAll options es m).2.1 = (Manifest.addAll (es.filterMap (g.request? options)) m).2 ∧
      (g.importAll options es m).2.2 =
        (Manifest.addAll (es.filterMap (g.request? options)) m).1.flatMap (·.reports) := by
  induction es generalizing m with
  | nil => exact ⟨rfl, rfl, rfl⟩
  | cons e es ih =>
    cases hb : g.behaviorOf? e with
    | none =>
      have hr : g.request? options e = none := by rw [request?, hb, Option.map_none]
      simp only [importAll, hb, List.filterMap_cons, hr]
      exact ih m
    | some found =>
      obtain ⟨behavior, node⟩ := found
      have hr : g.request? options e = some
          ⟨behavior.identifier, g.locationFor node behavior options.defaultLocation, some node⟩ := by
        rw [request?, hb, Option.map_some]
      obtain ⟨hbound, himports, hreports⟩ := ih
        (m.add behavior.identifier (g.locationFor node behavior options.defaultLocation) (some node)).2.1
      simp only [importAll, hb, List.filterMap_cons, hr, Manifest.addAll, List.map_cons, List.flatMap_cons,
        hbound, himports, hreports, and_self]

end Graph

/-- What a program describes, each with the name of a behavior that it carries. -/
def Program.named (p : Program) : List (Element × String) :=
  p.nodes.map (fun d => (Element.source d.id, d.behavior)) ++
    p.filters.map fun d => (Element.filter d.bus, d.filter)

namespace Graph

variable {g : Graph} {t : Tables} {options : Options}

theorem mem_bound_of_described {x : Described} (hx : x ∈ g.described t options) :
    ∃ e binding, (e, binding) ∈ (g.importAll options g.elements { separator := options.aliasSeparator }).1 ∧
      g.describe? t binding e = some x := by
  obtain ⟨⟨e, binding⟩, hmem, he⟩ := List.mem_filterMap.1 hx
  exact ⟨e, binding, hmem, he⟩

/-- A program carries the bindings of what it describes. -/
theorem mem_bound_of_named {x : Element × String} (hx : x ∈ (g.compileWith t options).program.named) :
    x ∈ (g.importAll options g.elements { separator := options.aliasSeparator }).1 := by
  rcases List.mem_append.1 hx with hx | hx
  · obtain ⟨d, hd, rfl⟩ := List.mem_map.1 hx
    obtain ⟨y, hy, hnode⟩ := List.mem_filterMap.1 hd
    obtain ⟨e, binding, hmem, he⟩ := mem_bound_of_described hy
    cases e with
    | filter bus =>
      obtain ⟨b, -, rfl⟩ := Option.map_eq_some_iff.1 he
      cases hnode
    | source i =>
      obtain ⟨n, -, he⟩ := Option.bind_eq_some_iff.1 he
      obtain ⟨s, -, rfl⟩ := Option.map_eq_some_iff.1 he
      cases hnode
      exact hmem
  · obtain ⟨d, hd, rfl⟩ := List.mem_map.1 hx
    obtain ⟨y, hy, hfilter⟩ := List.mem_filterMap.1 hd
    obtain ⟨e, binding, hmem, he⟩ := mem_bound_of_described hy
    cases e with
    | source i =>
      obtain ⟨n, -, he⟩ := Option.bind_eq_some_iff.1 he
      obtain ⟨s, -, rfl⟩ := Option.map_eq_some_iff.1 he
      cases hfilter
    | filter bus =>
      obtain ⟨b, -, rfl⟩ := Option.map_eq_some_iff.1 he
      cases hfilter
      exact hmem

/-- Each name in a program is the answer to the request of the element that carries it. -/
theorem exists_answer_of_named {x : Element × String} (hx : x ∈ (g.compileWith t options).program.named) :
    ∃ a ∈ (Manifest.addAll (g.elements.filterMap (g.request? options))
        { separator := options.aliasSeparator }).1,
      g.request? options x.1 = some a.request ∧ x.2 = a.binding := by
  have hmem := List.mem_map_of_mem (f := fun x => (g.request? options x.1, x.2)) (mem_bound_of_named hx)
  rw [(importAll_eq g options _ _).1] at hmem
  obtain ⟨a, ha, he⟩ := List.mem_map.1 hmem
  exact ⟨a, ha, (Prod.ext_iff.1 he).1.symm, (Prod.ext_iff.1 he).2.symm⟩

end Graph

/-! ## The theorem -/

/-- For every separator and sequence of requests, the answers are a one-to-one naming of the behaviors asked for,
each settled by the answers before it, and the sections list every behavior once, under its location. In every
program, with any tables and options, two names are equal exactly if they stand for one identifier at one assigned
location. -/
theorem bindings_one_to_one :
    (∀ separator rs, Manifest.Naming separator rs (Manifest.addAll rs { separator := separator }).1
      (Manifest.addAll rs { separator := separator }).2) ∧
    ∀ (g : Graph) (t : Tables) (options : Options),
      ∀ x ∈ (g.compileWith t options).program.named, ∀ y ∈ (g.compileWith t options).program.named,
        ∃ r s, g.request? options x.1 = some r ∧ g.request? options y.1 = some s ∧
          (x.2 = y.2 ↔ r.key = s.key) := by
  refine ⟨Manifest.naming_addAll, fun g t options x hx y hy => ?_⟩
  obtain ⟨a, ha, hax, hxa⟩ := Graph.exists_answer_of_named hx
  obtain ⟨b, hb, hby, hyb⟩ := Graph.exists_answer_of_named hy
  refine ⟨a.request, b.request, hax, hby, ?_⟩
  rw [hxa, hyb]
  exact (Manifest.tracks_addAll _ _).binding_eq_iff ha hb

/-- Two sources of one identifier from two locations, a source whose identifier is the alias of the second, and a
filter that is the behavior of the first. -/
def Blueprint.clashing : Blueprint :=
  (Blueprint.new "main").run
    [.edit (.addSource none 1 "A" { identifier := "lamp", location := some "a" }),
      .edit (.addSource none 1 "B" { identifier := "lamp", location := some "b" }),
      .edit (.addSource none 1 "C" { identifier := "lamp_1", location := some "a" }),
      .edit (.addBus none 1 "D" (some { identifier := "lamp", location := some "a" }))]

theorem bindings_one_to_one_clashing :
    (Blueprint.clashing.compile {}).program.named =
      [(.source 2, "lamp"), (.source 3, "lamp_1"), (.source 4, "lamp_1_1"), (.filter 5, "lamp")] ∧
    ∃ r s, Blueprint.clashing.graph.request? {} (.source 2) = some r ∧
      Blueprint.clashing.graph.request? {} (.filter 5) = some s ∧ ("lamp" = "lamp" ↔ r.key = s.key) := by
  have hnamed : (Blueprint.clashing.compile {}).program.named =
      [(.source 2, "lamp"), (.source 3, "lamp_1"), (.source 4, "lamp_1_1"), (.filter 5, "lamp")] := by cbv
  refine ⟨hnamed, bindings_one_to_one.2 Blueprint.clashing.graph Blueprint.clashing.tables {} (.source 2, "lamp") ?_
    (.filter 5, "lamp") ?_⟩
  · show _ ∈ (Blueprint.clashing.compile {}).program.named
    simp [hnamed]
  · show _ ∈ (Blueprint.clashing.compile {}).program.named
    simp [hnamed]

end MessageGraph
