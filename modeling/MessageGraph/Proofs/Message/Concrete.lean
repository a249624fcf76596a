import MessageGraph.Proofs.Message.Overlap

/-!
# Which messages are concrete

A pattern takes the first pair of brackets in its name, and what follows the pair is text. In a message that
text stands again, and where it brings another pair the message is itself a pattern as soon as it is read as
a name: `p [a] [b]` stands for `p a [b]`, which stands for `p a b`.

* `isPattern_iff_listed`: what makes a name a pattern, said of its characters;
* `Pattern.isPattern_literal`: of a message, all that matters is what follows the text before the label;
* `Pattern.count_literal_lt`: a message has fewer brackets than its pattern, so it is never its own.

Result: `expand_concrete`, for every name and every message it stands for. A message that is a pattern need
not overlap the name it comes from (`expand_bracketed`).
-/
namespace MessageGraph

/-! ## Names that are patterns -/

/-- Between the first `[` of a text and the first `]` after it stands something that is neither a comma nor a
blank. -/
def Listed (cs : List Char) : Prop :=
  ∃ before list after, Brackets cs before list after ∧
    ∃ c ∈ list, c ≠ ',' ∧ Text.isBlank c = false

theorem Listed.closing {cs : List Char} (h : Listed cs) : ']' ∈ cs := by
  obtain ⟨before, list, after, hb, -⟩ := h
  simp [hb.eq]

/-- What stands before the first `[` does not matter. -/
theorem listed_append {front cs : List Char} (hfront : '[' ∉ front) :
    Listed (front ++ cs) ↔ Listed cs := by
  constructor
  · rintro ⟨before, list, after, hb, hlabel⟩
    rcases List.append_eq_append_iff.1 hb.eq with ⟨rest, rfl, hrest⟩ | ⟨rest, rfl, hrest⟩
    · refine ⟨rest, list, after, ⟨hrest, fun hc => ?_, hb.list⟩, hlabel⟩
      exact hb.before (List.mem_append_right front hc)
    · -- the first bracket would stand in what has none
      cases rest with
      | nil => exact ⟨[], list, after, ⟨hrest.symm, by simp, hb.list⟩, hlabel⟩
      | cons c rest =>
        obtain ⟨rfl, -⟩ := List.cons.inj hrest
        exact absurd (by simp) hfront
  · rintro ⟨before, list, after, hb, hlabel⟩
    refine ⟨front ++ before, list, after, ⟨by simp [hb.eq], ?_, hb.list⟩, hlabel⟩
    simp [hfront, hb.before]

namespace Message

variable {name v : String}

theorem isPattern_eq_false_iff : isPattern name = false ↔ Pattern.parse? name = none := by
  simp [isPattern]

theorem isPattern_iff_listed : isPattern name = true ↔ Listed name.toList := by
  rw [isPattern_iff]
  constructor
  · rintro ⟨p, hp⟩
    obtain ⟨before, list, after, hb, hne, -⟩ := Pattern.exists_brackets hp
    refine ⟨before, list, after, hb, ?_⟩
    simpa [Pattern.labelsIn_eq_nil_iff] using hne
  · rintro ⟨before, list, after, hb, c, hc, hcomma, hblank⟩
    have hne : Pattern.labelsIn list ≠ [] := fun he => by
      simpa [hcomma, hblank] using Pattern.labelsIn_eq_nil_iff.1 he c hc
    exact ⟨_, (Pattern.parse?_eq hb).trans (if_neg hne)⟩

end Message

/-! ## Messages that are patterns -/

namespace Pattern

open MessageGraph.Message (isPattern isPattern_iff_listed)

variable {p : Pattern} {name label : String}

theorem toList_closing (p : Pattern) :
    p.closing.toList = if p.after = "" then [] else ' ' :: p.after.toList := by
  unfold closing
  split <;> simp

/-- A message is a pattern if its label and the text after it are one. -/
theorem isPattern_literal (h : parse? name = some p) (hlabel : label ∈ p.labels) :
    isPattern (p.literal label) = true ↔ Listed (label.toList ++ ' ' :: p.after.toList) := by
  have hl := isLabel_of_parse? h hlabel
  have hopening : '[' ∉ p.opening.toList := by
    obtain ⟨before, list, after, hb, -, rfl⟩ := exists_brackets h
    have hbefore : '[' ∉ Text.trimBlanks before := fun hc =>
      hb.before ((Text.trimBlanks_sublist before).subset hc)
    unfold opening ofBrackets
    split <;> simp [hbefore]
  rw [isPattern_iff_listed, literal_eq hl.ne_empty, String.append_assoc, String.toList_append,
    listed_append hopening, String.toList_append, toList_closing]
  split
  · -- with no text after it, a label has no bracket to close
    rename_i hafter
    have hnone : ∀ cs : List Char, ']' ∉ cs → ¬ Listed (label.toList ++ cs) := by
      intro cs hcs hlisted
      exact (List.mem_append.1 hlisted.closing).elim hl.closing hcs
    have hlabel : ¬ Listed label.toList := by simpa using hnone [] (by simp)
    simp [hafter, hnone, hlabel]
  · rfl

/-- A message has fewer opening brackets than its pattern. -/
theorem count_literal_lt (h : parse? name = some p) (hlabel : label ∈ p.labels) :
    (p.literal label).toList.count '[' < name.toList.count '[' := by
  have hl := isLabel_of_parse? h hlabel
  obtain ⟨before, list, after, hb, -, rfl⟩ := exists_brackets h
  obtain ⟨piece, hpiece, htrim, -⟩ := mem_labelsIn.1 hlabel
  have hopening : (ofBrackets before list after).opening.toList.count '[' ≤ before.count '[' := by
    have hle := (Text.trimBlanks_sublist before).count_le '['
    unfold opening ofBrackets
    split <;> simp [hle]
  have hmiddle : label.toList.count '[' ≤ list.count '[' := by
    rw [htrim]
    exact ((Text.trimBlanks_sublist piece).trans (Text.of_mem_splitOn hpiece).1).count_le '['
  have hclosing : (ofBrackets before list after).closing.toList.count '[' ≤ after.count '[' := by
    have hle := (Text.trimBlanks_sublist after).count_le '['
    unfold closing ofBrackets
    split <;> simp [hle]
  have hname : name.toList.count '[' =
      before.count '[' + (list.count '[' + after.count '[' + 1) := by
    rw [hb.eq]
    simp
  rw [literal_eq hl.ne_empty, String.toList_append, String.toList_append, List.count_append,
    List.count_append, hname]
  omega

end Pattern

namespace Message

variable {name v : String}

theorem mem_expand_iff {p : Pattern} (h : Pattern.parse? name = some p) :
    v ∈ expand name ↔ ∃ label ∈ p.labels, p.literal label = v := by
  rw [expand_of_parse? h, Pattern.expand, List.mem_map]

/-- A pattern is none of its messages. -/
theorem not_mem_expand (h : isPattern v = true) : v ∉ expand v := by
  obtain ⟨p, hp⟩ := isPattern_iff.1 h
  intro hv
  obtain ⟨label, hlabel, heq⟩ := (mem_expand_iff hp).1 hv
  have hlt := Pattern.count_literal_lt hp hlabel
  rw [heq] at hlt
  exact Nat.lt_irrefl _ hlt

/-- A name and a message of it that is no pattern overlap. -/
theorem overlap_of_mem_expand (hv : v ∈ expand name) (hplain : isPattern v = false) :
    overlap name v = true := by
  have hnone := isPattern_eq_false_iff.1 hplain
  refine (overlap_plain_iff hnone).2 ⟨v, hv, ?_⟩
  simp [expand_of_plain hnone]

/-- Two patterns overlap exactly if they list a common label. -/
theorem overlap_patterns (ha : isPattern name = true) (hb : isPattern v = true) :
    overlap name v = true ↔ ∃ label ∈ labels v, label ∈ labels name := by
  obtain ⟨p, hp⟩ := isPattern_iff.1 ha
  obtain ⟨q, hq⟩ := isPattern_iff.1 hb
  simp [overlap, hp, hq, labels_of_parse? hp, labels_of_parse? hq]

/-- A message of a name is concrete, stands for itself alone and overlaps the name in both orders, unless the
label and the text after it bring brackets with a label of their own: then it is a pattern, stands for other
messages than itself, and overlaps the name only if the two list a common label. -/
theorem expand_concrete (hv : v ∈ expand name) :
    (isPattern v = true ↔ ∃ p label, Pattern.parse? name = some p ∧ label ∈ p.labels ∧
      p.literal label = v ∧ Listed (label.toList ++ ' ' :: p.after.toList)) ∧
    (isPattern v = false →
      expand v = [v] ∧ overlap v name = true ∧ overlap name v = true) ∧
    (isPattern v = true → v ∉ expand v ∧
      (overlap v name = true ↔ ∃ label ∈ labels v, label ∈ labels name) ∧
      (overlap name v = true ↔ ∃ label ∈ labels v, label ∈ labels name)) := by
  refine ⟨⟨fun hpattern => ?_, ?_⟩, fun hplain => ?_, fun hpattern => ?_⟩
  · cases hp : Pattern.parse? name with
    | none =>
      -- a plain name stands for itself, and that is no pattern
      rw [expand_of_plain hp, List.mem_singleton] at hv
      rw [hv, isPattern, hp] at hpattern
      cases hpattern
    | some p =>
      obtain ⟨label, hlabel, rfl⟩ := (mem_expand_iff hp).1 hv
      exact ⟨p, label, rfl, hlabel, rfl, (Pattern.isPattern_literal hp hlabel).1 hpattern⟩
  · rintro ⟨p, label, hp, hlabel, rfl, hlisted⟩
    exact (Pattern.isPattern_literal hp hlabel).2 hlisted
  · have hoverlap := overlap_of_mem_expand hv hplain
    exact ⟨expand_of_plain (isPattern_eq_false_iff.1 hplain), overlap_comm name v ▸ hoverlap,
      hoverlap⟩
  · have hname : isPattern name = true := by
      by_contra hno
      have hnone := isPattern_eq_false_iff.1 (Bool.eq_false_iff.2 hno)
      rw [expand_of_plain hnone, List.mem_singleton] at hv
      exact hno (hv ▸ hpattern)
    have hoverlap := overlap_patterns hname hpattern
    exact ⟨not_mem_expand hpattern, overlap_comm name v ▸ hoverlap, hoverlap⟩

/-- Of two messages of one name, only the one whose label opens a bracket is a pattern. -/
theorem expand_concrete_halves :
    expand "in [x, y[] b]" = ["in x b]", "in y[ b]"] ∧
      (expand "in x b]" = ["in x b]"] ∧ overlap "in x b]" "in [x, y[] b]" = true ∧
        overlap "in [x, y[] b]" "in x b]" = true) ∧
      isPattern "in y[ b]" = true ∧ "in y[ b]" ∉ expand "in y[ b]" := by
  have hexpand : expand "in [x, y[] b]" = ["in x b]", "in y[ b]"] := by decide +kernel
  have hpattern : isPattern "in y[ b]" = true := by decide +kernel
  have hfirst : "in x b]" ∈ expand "in [x, y[] b]" := by simp [hexpand]
  have hsecond : "in y[ b]" ∈ expand "in [x, y[] b]" := by simp [hexpand]
  exact ⟨hexpand, (expand_concrete hfirst).2.1 (by decide +kernel), hpattern,
    ((expand_concrete hsecond).2.2 hpattern).1⟩

/-- The name stands for one message, and in it the second pair of brackets has become the first. -/
theorem expand_bracketed :
    "p a [b]" ∈ expand "p [a] [b]" ∧ isPattern "p a [b]" = true ∧
      expand "p a [b]" = ["p a b"] ∧ overlap "p a [b]" "p [a] [b]" = false ∧
      overlap "p [a] [b]" "p a [b]" = false := by
  refine ⟨?_, ?_, ?_, ?_, ?_⟩ <;> decide +kernel

end Message
end MessageGraph
