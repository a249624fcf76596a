import MessageGraph.Proofs.Graph.Legality
import MessageGraph.Proofs.Blueprint.Operation
import MessageGraph.Proofs.Message.Label

/-!
# What the names of joined endpoints have in common

The rules let two endpoints be joined only if their names overlap, as soon as one name is a pattern. Where
one name is plain this compares messages, where both are patterns it compares labels.

* A plain name and a pattern that overlap stand for a common message (`shares_of_overlap_plain`), and so do
  two patterns that set their labels between the same texts (`Pattern.expand_shares`).
* Two patterns that differ in these texts have a label in common, which each of them spells in its own way
  (`LabelAlone`).

Result: `check_shares`, for every graph and any two terminals that are not buses. The rules accept two
patterns that no message has in common (`check_shares_nothing`).
-/
namespace MessageGraph

/-- With the same text around them, a common label makes a common message. -/
theorem Pattern.expand_shares {p q : Pattern} (hbefore : p.before = q.before)
    (hafter : p.after = q.after) {label : String} (hp : label ∈ p.labels) (hq : label ∈ q.labels) :
    ∃ message ∈ p.expand, message ∈ q.expand := by
  refine ⟨p.literal label, List.mem_map_of_mem hp, List.mem_map.2 ⟨label, hq, ?_⟩⟩
  unfold literal
  rw [hbefore, hafter]

namespace Message

variable {a b : String} {p q : Pattern}

/-- Two names stand for a common message. -/
def Shares (a b : String) : Prop :=
  ∃ message ∈ expand a, message ∈ expand b

/-- Two patterns have a label in common, but not the text around it. -/
structure LabelAlone (a b : String) (p q : Pattern) : Prop where
  left : Pattern.parse? a = some p
  right : Pattern.parse? b = some q
  label : ∃ label ∈ p.labels, label ∈ q.labels
  texts : p.before ≠ q.before ∨ p.after ≠ q.after

theorem Shares.symm (h : Shares a b) : Shares b a := by
  obtain ⟨message, ha, hb⟩ := h
  exact ⟨message, hb, ha⟩

/-- Names of which one is plain overlap exactly if they share a message. -/
theorem overlap_plain_iff (hb : Pattern.parse? b = none) : overlap a b = true ↔ Shares a b := by
  unfold overlap Shares
  rw [expand_of_plain hb, hb]
  cases ha : Pattern.parse? a with
  | none =>
    rw [expand_of_plain ha]
    simp only [decide_eq_true_eq, List.mem_singleton, exists_eq_right]
    exact eq_comm
  | some p =>
    rw [expand_of_parse? ha]
    simp only [List.contains_iff_mem, List.mem_singleton, exists_eq_right]

/-- Names that overlap share a message, unless they are patterns with different texts around a common label. -/
theorem shares_or_label (h : overlap a b = true) : Shares a b ∨ ∃ p q, LabelAlone a b p q := by
  cases hb : Pattern.parse? b with
  | none => exact Or.inl ((overlap_plain_iff hb).1 h)
  | some q =>
    cases ha : Pattern.parse? a with
    | none =>
      rw [overlap_comm] at h
      exact Or.inl ((overlap_plain_iff ha).1 h).symm
    | some p =>
      rw [overlap, ha, hb] at h
      obtain ⟨label, hq, hp⟩ := List.any_eq_true.1 h
      have hp : label ∈ p.labels := List.contains_iff_mem.1 hp
      by_cases htexts : p.before = q.before ∧ p.after = q.after
      · left
        rw [Shares, expand_of_parse? ha, expand_of_parse? hb]
        exact Pattern.expand_shares htexts.1 htexts.2 hp hq
      · exact Or.inr ⟨p, q, ha, hb, ⟨label, hp, hq⟩, Decidable.not_and_iff_or_not.1 htexts⟩

end Message

namespace Graph

/-- Two endpoints that the rules let be joined, and of which one at least has a pattern for its name, have
names that share a message, unless both are patterns that set a common label between different texts. -/
theorem check_shares {g : Graph} {a b : Terminal} {x y : Endpoint} (ha : a.endpoint? = some x)
    (hb : b.endpoint? = some y) (hpattern : g.isPattern x = true ∨ g.isPattern y = true)
    (h : g.check a b = .ok ()) :
    Message.Shares (g.nameOf x) (g.nameOf y) ∨
      ∃ p q, Message.LabelAlone (g.nameOf x) (g.nameOf y) p q := by
  have hmeets : g.Meets x y := (check_eq_ok_iff.1 h).endpoints ha hb
  exact Message.shares_or_label (hmeets.message (Bool.or_eq_true_iff.2 hpattern))

/-- A pin that sends the messages of one pattern, and one that takes those of another. -/
def faced (output input : String) : Graph :=
  ((Blueprint.new "main").run
    [.edit (.addSource none 1 "X" { identifier := "x" }), .edit (.addPin 2 output .output false),
      .edit (.addSource none 1 "Y" { identifier := "y" }), .edit (.addPin 4 input .input false)]).graph

theorem check_shares_faced :
    (faced "evt [a, b]" "evt [b, c]").check (.pin 3) (.pin 5) = .ok () ∧
      (Message.Shares "evt [a, b]" "evt [b, c]" ∨
        ∃ p q, Message.LabelAlone "evt [a, b]" "evt [b, c]" p q) := by
  have h : (faced "evt [a, b]" "evt [b, c]").check (.pin 3) (.pin 5) = .ok () := by decide +kernel
  have hleft : (faced "evt [a, b]" "evt [b, c]").nameOf (.pin 3) = "evt [a, b]" := by decide +kernel
  have hright : (faced "evt [a, b]" "evt [b, c]").nameOf (.pin 5) = "evt [b, c]" := by decide +kernel
  have hshares := check_shares (a := .pin 3) (b := .pin 5) rfl rfl (Or.inl (by decide +kernel)) h
  rw [hleft, hright] at hshares
  exact ⟨h, hshares⟩

/-- The one stands for `a x`, the other for `b x`; they are accepted for the label `x`. -/
theorem check_shares_nothing :
    (faced "a [x]" "b [x]").check (.pin 3) (.pin 5) = .ok () ∧
      (faced "a [x]" "b [x]").isPattern (.pin 3) = true ∧
      ¬ Message.Shares ((faced "a [x]" "b [x]").nameOf (.pin 3))
        ((faced "a [x]" "b [x]").nameOf (.pin 5)) := by
  refine ⟨by decide +kernel, by decide +kernel, ?_⟩
  have hleft : Message.expand ((faced "a [x]" "b [x]").nameOf (.pin 3)) = ["a x"] := by decide +kernel
  have hright : Message.expand ((faced "a [x]" "b [x]").nameOf (.pin 5)) = ["b x"] := by decide +kernel
  rw [Message.Shares, hleft, hright]
  decide

end Graph
end MessageGraph
