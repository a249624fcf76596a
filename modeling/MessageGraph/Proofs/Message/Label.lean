import MessageGraph.Message.Pattern
import Mathlib.Data.List.TakeWhile

/-!
# Labels and the messages they stand for

The first `[` of a name and the first `]` after it cut it into three texts (`Brackets`); the labels are what
is left of the middle one when it is split at commas and trimmed (`Pattern.exists_brackets`).

Around a label that is not empty a pattern always sets the same two texts (`Pattern.literal_eq`), so a
message leads back to its label (`Pattern.literal_inj`).

Result: `labels_expand`, for every name that is a pattern.
-/
namespace MessageGraph

namespace Text

variable {cs : List Char}

/-! ## Trimming -/

/-- No blank stands at either end. -/
structure Trimmed (cs : List Char) : Prop where
  head : ∀ c, cs.head? = some c → isBlank c = false
  last : ∀ c, cs.getLast? = some c → isBlank c = false

theorem isBlank_of_head?_dropWhile {c : Char} (h : (cs.dropWhile isBlank).head? = some c) :
    isBlank c = false := by
  have hhead := List.head?_dropWhile_not isBlank cs
  rw [h] at hhead
  exact hhead

theorem trimBlanks_isPrefixOf (cs : List Char) : trimBlanks cs <+: cs.dropWhile isBlank := by
  have hsuffix := List.dropWhile_suffix (l := (cs.dropWhile isBlank).reverse) isBlank
  simpa [trimBlanks] using List.reverse_prefix.2 hsuffix

theorem trimBlanks_sublist (cs : List Char) : (trimBlanks cs).Sublist cs :=
  (trimBlanks_isPrefixOf cs).sublist.trans (List.dropWhile_suffix isBlank).sublist

theorem trimmed_trimBlanks (cs : List Char) : Trimmed (trimBlanks cs) where
  head := by
    intro c hc
    obtain ⟨rest, hrest⟩ := List.head?_eq_some_iff.1 hc
    obtain ⟨behind, hbehind⟩ := trimBlanks_isPrefixOf cs
    apply @isBlank_of_head?_dropWhile cs
    simp [← hbehind, hrest]
  last := by
    intro c hc
    rw [trimBlanks, List.getLast?_reverse] at hc
    exact isBlank_of_head?_dropWhile hc

theorem trimBlanks_eq_nil_iff : trimBlanks cs = [] ↔ ∀ c ∈ cs, isBlank c = true := by
  constructor
  · intro h
    rw [trimBlanks, List.reverse_eq_nil_iff, List.dropWhile_eq_nil_iff] at h
    -- what is left at the left end begins with no blank, so nothing is left
    cases hleft : cs.dropWhile isBlank with
    | nil => exact List.dropWhile_eq_nil_iff.1 hleft
    | cons d ds =>
      have hblank := h d (by simp [hleft])
      have hnot := @isBlank_of_head?_dropWhile cs d (by simp [hleft])
      simp [hnot] at hblank
  · intro h
    simp [trimBlanks, List.dropWhile_eq_nil_iff.2 h]

/-! ## Splitting -/

theorem splitOn_ne_nil (separator : Char) (cs : List Char) : splitOn separator cs ≠ [] := by
  induction cs with
  | nil => simp [splitOn]
  | cons c cs ih =>
    rw [splitOn]
    split
    · simp
    · split <;> simp

/-- A piece is part of the text, and no separator is in it. -/
theorem of_mem_splitOn {separator : Char} {piece : List Char} (h : piece ∈ splitOn separator cs) :
    piece.Sublist cs ∧ separator ∉ piece := by
  induction cs generalizing piece with
  | nil =>
    rw [splitOn, List.mem_singleton] at h
    subst h
    simp
  | cons c cs ih =>
    rw [splitOn] at h
    split at h
    · rcases List.mem_cons.1 h with rfl | h
      · simp
      · exact ⟨(ih h).1.cons c, (ih h).2⟩
    · rename_i hc
      split at h
      · rename_i hnil
        exact absurd hnil (splitOn_ne_nil separator cs)
      · rename_i first rest hsplit
        rw [hsplit] at ih
        rcases List.mem_cons.1 h with rfl | h
        · have hfirst := ih List.mem_cons_self
          exact ⟨hfirst.1.cons_cons c, by simp [Ne.symm hc, hfirst.2]⟩
        · have hpiece := ih (List.mem_cons_of_mem first h)
          exact ⟨hpiece.1.cons c, hpiece.2⟩

/-- Every character that is no separator is in a piece. -/
theorem exists_mem_splitOn {separator c : Char} (hc : c ∈ cs) (hne : c ≠ separator) :
    ∃ piece ∈ splitOn separator cs, c ∈ piece := by
  induction cs with
  | nil => cases hc
  | cons d cs ih =>
    rw [splitOn]
    rcases List.mem_cons.1 hc with rfl | hc
    · rw [if_neg hne]
      split <;> simp
    · obtain ⟨piece, hpiece, hmem⟩ := ih hc
      split
      · exact ⟨piece, List.mem_cons_of_mem _ hpiece, hmem⟩
      · split
        · rename_i hnil
          exact absurd hnil (splitOn_ne_nil separator cs)
        · rename_i first rest hsplit
          rw [hsplit] at hpiece
          rcases List.mem_cons.1 hpiece with rfl | hpiece
          · exact ⟨_, List.mem_cons_self, List.mem_cons_of_mem d hmem⟩
          · exact ⟨piece, List.mem_cons_of_mem _ hpiece, hmem⟩

end Text

/-! ## Brackets -/

/-- A text is cut at its first `[` and at the first `]` after it. -/
structure Brackets (cs before list after : List Char) : Prop where
  eq : cs = before ++ '[' :: (list ++ ']' :: after)
  before : '[' ∉ before
  list : ']' ∉ list

theorem exists_of_dropWhile {x d : Char} {cs rest : List Char}
    (h : cs.dropWhile (· ≠ x) = d :: rest) :
    x ∉ cs.takeWhile (· ≠ x) ∧ cs = cs.takeWhile (· ≠ x) ++ x :: rest := by
  have hd : d = x := by
    have hhead := List.head?_dropWhile_not (· ≠ x) cs
    rw [h] at hhead
    simpa using hhead
  refine ⟨fun hx => by simpa using List.mem_takeWhile_imp hx, ?_⟩
  rw [← hd, ← h, hd]
  exact List.takeWhile_append_dropWhile.symm

namespace Pattern

variable {p : Pattern} {name label : String}

/-- The labels that a text between brackets lists. -/
def labelsIn (list : List Char) : List String :=
  (((Text.splitOn ',' list).map Text.trimBlanks).filter (· ≠ [])).map String.ofList

theorem mem_labelsIn {list : List Char} : label ∈ labelsIn list ↔
    ∃ piece ∈ Text.splitOn ',' list, label.toList = Text.trimBlanks piece ∧ label ≠ "" := by
  have hempty : label ≠ "" ↔ label.toList ≠ [] := by simp
  rw [hempty, labelsIn, List.mem_map]
  constructor
  · rintro ⟨cs, hcs, rfl⟩
    obtain ⟨hcs, hne⟩ := List.mem_filter.1 hcs
    obtain ⟨piece, hpiece, rfl⟩ := List.mem_map.1 hcs
    exact ⟨piece, hpiece, String.toList_ofList, by simpa using hne⟩
  · rintro ⟨piece, hpiece, hlabel, hne⟩
    refine ⟨label.toList, List.mem_filter.2 ⟨?_, by simpa using hne⟩, String.ofList_toList⟩
    rw [hlabel]
    exact List.mem_map_of_mem hpiece

/-- A text lists no label if it has nothing but commas and blanks. -/
theorem labelsIn_eq_nil_iff {list : List Char} :
    labelsIn list = [] ↔ ∀ c ∈ list, c = ',' ∨ Text.isBlank c = true := by
  constructor
  · intro h c hc
    by_contra hno
    obtain ⟨hne, hblank⟩ := not_or.1 hno
    obtain ⟨piece, hpiece, hmem⟩ := Text.exists_mem_splitOn hc hne
    have hpiece' : Text.trimBlanks piece ≠ [] := fun he =>
      hblank (Text.trimBlanks_eq_nil_iff.1 he c hmem)
    have hlabel : String.ofList (Text.trimBlanks piece) ∈ labelsIn list :=
      mem_labelsIn.2 ⟨piece, hpiece, String.toList_ofList, by simpa using hpiece'⟩
    rw [h] at hlabel
    cases hlabel
  · intro h
    refine List.eq_nil_iff_forall_not_mem.2 fun label hlabel => ?_
    obtain ⟨piece, hpiece, hlabel, hne⟩ := mem_labelsIn.1 hlabel
    obtain ⟨hsub, hcomma⟩ := Text.of_mem_splitOn hpiece
    have hnil : Text.trimBlanks piece = [] := Text.trimBlanks_eq_nil_iff.2 fun c hc =>
      (h c (hsub.subset hc)).resolve_left fun he => hcomma (he ▸ hc)
    exact hne (by simpa [hnil] using hlabel)

/-- A label is not empty, has no blank at an end and neither a comma nor a closing bracket in it. -/
structure IsLabel (label : String) : Prop where
  ne_empty : label ≠ ""
  trimmed : Text.Trimmed label.toList
  comma : ',' ∉ label.toList
  closing : ']' ∉ label.toList

theorem isLabel_of_mem {list : List Char} (hlist : ']' ∉ list) (h : label ∈ labelsIn list) :
    IsLabel label := by
  obtain ⟨piece, hpiece, hlabel, hne⟩ := mem_labelsIn.1 h
  obtain ⟨hsub, hcomma⟩ := Text.of_mem_splitOn hpiece
  have htrim := Text.trimBlanks_sublist piece
  exact
    { ne_empty := hne
      trimmed := hlabel ▸ Text.trimmed_trimBlanks piece
      comma := fun hc => hcomma (htrim.subset (hlabel ▸ hc))
      closing := fun hc => hlist (hsub.subset (htrim.subset (hlabel ▸ hc))) }

/-! ## Reading a pattern -/

/-- The pattern that the three texts of a name make. -/
def ofBrackets (before list after : List Char) : Pattern where
  before := String.ofList (Text.trimBlanks before)
  labels := labelsIn list
  after := String.ofList (Text.trimBlanks after)

theorem parse?_eq {before list after : List Char} (h : Brackets name.toList before list after) :
    parse? name = if labelsIn list = [] then none else some (ofBrackets before list after) := by
  have hbefore : ∀ c ∈ before, decide (c ≠ '[') = true := fun c hc =>
    decide_eq_true fun he => h.before (he ▸ hc)
  have hlist : ∀ c ∈ list, decide (c ≠ ']') = true := fun c hc =>
    decide_eq_true fun he => h.list (he ▸ hc)
  unfold parse?
  simp only [h.eq, List.dropWhile_append_of_pos hbefore, List.takeWhile_append_of_pos hbefore,
    List.dropWhile_append_of_pos hlist, List.takeWhile_append_of_pos hlist, List.dropWhile_cons,
    List.takeWhile_cons, ne_eq, not_true, decide_false, Bool.false_eq_true, ↓reduceIte,
    List.append_nil, ofBrackets, labelsIn, List.map_eq_nil_iff]

/-- A pattern has brackets with a label between them, and is read off there. -/
theorem exists_brackets (h : parse? name = some p) : ∃ before list after,
    Brackets name.toList before list after ∧ labelsIn list ≠ [] ∧
      p = ofBrackets before list after := by
  have hsome : ∃ before list after, Brackets name.toList before list after := by
    unfold parse? at h
    cases hopen : name.toList.dropWhile (· ≠ '[') with
    | nil =>
      simp only [hopen] at h
      cases h
    | cons d rest =>
      cases hclose : rest.dropWhile (· ≠ ']') with
      | nil =>
        simp only [hopen, hclose] at h
        cases h
      | cons e after =>
        obtain ⟨hbefore, heq⟩ := exists_of_dropWhile hopen
        obtain ⟨hlist, heq'⟩ := exists_of_dropWhile hclose
        exact ⟨_, _, after, heq' ▸ heq, hbefore, hlist⟩
  obtain ⟨before, list, after, hb⟩ := hsome
  rw [parse?_eq hb] at h
  split at h
  · cases h
  · rename_i hne
    exact ⟨before, list, after, hb, hne, (Option.some.inj h).symm⟩

theorem isLabel_of_parse? (h : parse? name = some p) (hlabel : label ∈ p.labels) :
    IsLabel label := by
  obtain ⟨before, list, after, hb, -, rfl⟩ := exists_brackets h
  exact isLabel_of_mem hb.list hlabel

/-! ## Messages -/

/-- What a pattern sets before a label. -/
def opening (p : Pattern) : String := if p.before = "" then "" else p.before ++ " "

/-- What a pattern sets after a label. -/
def closing (p : Pattern) : String := if p.after = "" then "" else " " ++ p.after

theorem literal_eq (h : label ≠ "") : p.literal label = p.opening ++ label ++ p.closing := by
  unfold literal spaced opening closing
  by_cases hbefore : p.before = "" <;> by_cases hafter : p.after = "" <;>
    simp [hbefore, hafter, h, String.append_assoc]

/-- Two labels expand to the same message only if they are equal. -/
theorem literal_inj {a b : String} (ha : a ≠ "") (hb : b ≠ "") (h : p.literal a = p.literal b) :
    a = b := by
  rw [literal_eq ha, literal_eq hb] at h
  exact (String.append_right_inj p.opening).1 ((String.append_left_inj p.closing).1 h)

theorem labelOf?_literal (hp : ∀ label ∈ p.labels, IsLabel label) (hlabel : label ∈ p.labels) :
    p.labelOf? (p.literal label) = some label := by
  have hsome : (p.labelOf? (p.literal label)).isSome = true :=
    List.find?_isSome.2 ⟨label, hlabel, by simp⟩
  obtain ⟨found, hfound⟩ := Option.isSome_iff_exists.1 hsome
  have hmem : found ∈ p.labels := List.mem_of_find?_eq_some hfound
  have heq : p.literal found = p.literal label := by simpa using List.find?_some hfound
  rw [hfound, literal_inj (hp found hmem).ne_empty (hp label hlabel).ne_empty heq]

theorem isSome_labelOf?_iff {message : String} :
    (p.labelOf? message).isSome = true ↔ message ∈ p.expand := by
  simp [labelOf?, expand, List.find?_isSome]

end Pattern

namespace Message

variable {name : String} {p : Pattern}

theorem isPattern_iff : isPattern name = true ↔ ∃ p, Pattern.parse? name = some p :=
  Option.isSome_iff_exists

theorem labels_of_parse? (h : Pattern.parse? name = some p) : labels name = p.labels := by
  rw [labels, h]

theorem expand_of_parse? (h : Pattern.parse? name = some p) : expand name = p.expand := by
  rw [expand, h]

theorem expand_of_plain (h : Pattern.parse? name = none) : expand name = [name] := by
  rw [expand, h]

/-- The labels of a pattern and its messages correspond one by one: every label is not empty and trimmed, a
message leads back to the label at its place, only equal labels make the same message, and what is no message
of the pattern leads to no label. -/
theorem labels_expand (h : isPattern name = true) :
    (labels name).length = (expand name).length ∧
    (∀ label ∈ labels name, label ≠ "" ∧ Text.Trimmed label.toList) ∧
    (∀ (i : Nat) (label message : String), (labels name)[i]? = some label →
      (expand name)[i]? = some message → labelOf? name message = some label) ∧
    (∀ (i j : Nat) (message : String), (expand name)[i]? = some message →
      (expand name)[j]? = some message → (labels name)[i]? = (labels name)[j]?) ∧
    ∀ message, (labelOf? name message).isSome = true ↔ message ∈ expand name := by
  obtain ⟨p, hp⟩ := isPattern_iff.1 h
  have hlabels : ∀ label ∈ p.labels, Pattern.IsLabel label := fun _ => Pattern.isLabel_of_parse? hp
  have hexpand : expand name = p.labels.map p.literal := expand_of_parse? hp
  have hback : ∀ (i : Nat) (label message : String), p.labels[i]? = some label →
      (p.labels.map p.literal)[i]? = some message → labelOf? name message = some label := by
    intro i label message hlabel hmessage
    rw [List.getElem?_map, hlabel, Option.map_some, Option.some.injEq] at hmessage
    rw [labelOf?, hp, Option.bind_some, ← hmessage]
    exact Pattern.labelOf?_literal hlabels (List.mem_of_getElem? hlabel)
  rw [hexpand, labels_of_parse? hp]
  refine ⟨by simp, fun label hlabel => ?_, hback, fun i j message hi hj => ?_, fun message => ?_⟩
  · exact ⟨(hlabels label hlabel).ne_empty, (hlabels label hlabel).trimmed⟩
  · obtain ⟨label, hlabel, -⟩ := Option.map_eq_some_iff.1 (List.getElem?_map .. ▸ hi)
    obtain ⟨other, hother, -⟩ := Option.map_eq_some_iff.1 (List.getElem?_map .. ▸ hj)
    have heq := (hback i label message hlabel hi).symm.trans (hback j other message hother hj)
    rw [hlabel, hother, heq]
  · rw [labelOf?, hp, Option.bind_some]
    exact Pattern.isSome_labelOf?_iff

/-- A label with a bracket in it, and one that is listed twice. -/
theorem labels_expand_window :
    isPattern "win [open, shut , on [top,open] now" = true ∧
      labels "win [open, shut , on [top,open] now" = ["open", "shut", "on [top", "open"] ∧
      labelOf? "win [open, shut , on [top,open] now" "win open now" = some "open" ∧
      labelOf? "win [open, shut , on [top,open] now" "win on [top now" = some "on [top" := by
  have h : isPattern "win [open, shut , on [top,open] now" = true := by decide +kernel
  obtain ⟨-, -, hback, -, -⟩ := labels_expand h
  exact ⟨h, by decide +kernel, hback 3 _ _ (by decide +kernel) (by decide +kernel),
    hback 2 _ _ (by decide +kernel) (by decide +kernel)⟩

end Message
end MessageGraph
