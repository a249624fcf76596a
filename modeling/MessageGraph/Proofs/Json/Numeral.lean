import MessageGraph.Json.Written
import MessageGraph.Json.Writer

/-!
# Numbers in a text

Every number that has a decimal is written as the spelling of a numeral (`Numeral.text`), and from that
spelling the numeral is read again, whatever stands behind it, as long as that cannot go on the number
(`Numeral.read_text`).

* `integerText_eq`, `Binary64.text?_eq`: the numerals behind the texts of integers and reals.
* `Binary64.numeral?_sound`: these are numerals that the grammar allows, and the text of a real always
  shows that it is one, by a fraction or an exponent.
* `Numeral.integer?_ofInt`: an integer of 64 bits has its own numeral's value.

Nothing is said here on which real is nearest to a decimal.
-/
namespace MessageGraph.Json

/-! ## Digits -/

theorem naturalOf_toDigits (n : Nat) : naturalOf (Nat.toDigits 10 n) = n := by
  have h : naturalOf (Nat.toDigits 10 n) = Nat.ofDigitChars 10 (Nat.toDigits 10 n) 0 := by
    simp only [Nat.ofDigitChars_eq_foldl, naturalOf, digitValue, Nat.mul_comm]
    rfl
  rw [h, Nat.ofDigitChars_ten_toDigits]

theorem isDigit_of_mem_toDigits {n : Nat} {c : Char} (h : c ∈ Nat.toDigits 10 n) :
    c.isDigit = true :=
  Nat.isDigit_of_mem_toDigits (by decide) (by decide) h

theorem head?_append {cs rest : List Char} (h : cs ≠ []) : (cs ++ rest).head? = cs.head? := by
  cases cs with
  | nil => exact absurd rfl h
  | cons c cs => rfl

theorem head?_toDigits {n : Nat} (hn : 0 < n) : (Nat.toDigits 10 n).head? ≠ some '0' := by
  induction n using Nat.strongRecOn with
  | ind n ih =>
    by_cases h : n < 10
    · rw [Nat.toDigits_of_lt_base h]
      simp [Nat.digitChar_eq_zero]
      omega
    · rw [Nat.toDigits_of_base_le (by decide) (by omega), head?_append Nat.toDigits_ne_nil]
      exact ih (n / 10) (by omega) (by omega)

/-- Digits followed by something else are taken off as a whole. -/
theorem span_digits {ds rest : List Char} (hd : ∀ c ∈ ds, c.isDigit = true)
    (hr : ∀ c ∈ rest.head?, c.isDigit = false) :
    (ds ++ rest).takeWhile Char.isDigit = ds ∧ (ds ++ rest).dropWhile Char.isDigit = rest := by
  rw [List.takeWhile_append_of_pos hd, List.dropWhile_append_of_pos hd]
  cases rest with
  | nil => simp
  | cons c cs => simp [hr c rfl]

/-! ## Spelling -/

/-- A text that cannot go on a numeral that stands before it. -/
def EndsNumeral (rest : List Char) : Prop :=
  ∀ c ∈ rest.head?, c.isDigit = false ∧ c ≠ '.' ∧ c ≠ 'e' ∧ c ≠ 'E'

namespace Numeral

variable {n : Numeral} {rest : List Char}

def fractionText (fraction : List Char) : List Char :=
  if fraction = [] then [] else '.' :: fraction

def exponentText : Option Int → List Char
  | none => []
  | some e => 'e' :: (if e < 0 then '-' else '+') :: Nat.toDigits 10 e.natAbs

def unsignedText (n : Numeral) : List Char :=
  n.whole ++ (fractionText n.fraction ++ exponentText n.exponent)

/-- A numeral as it is written: the exponent, where there is one, always has its sign. -/
def text (n : Numeral) : List Char :=
  if n.negative then '-' :: n.unsignedText else n.unsignedText

/-- A numeral that the grammar allows: digits only, at least one before the point, and a leading zero
only by itself. -/
structure Sound (n : Numeral) : Prop where
  whole_ne_nil : n.whole ≠ []
  leading : n.whole.head? = some '0' → n.whole.length ≤ 1
  whole_digits : ∀ c ∈ n.whole, c.isDigit = true
  fraction_digits : ∀ c ∈ n.fraction, c.isDigit = true

theorem readExponent?_text (e : Option Int) (hr : EndsNumeral rest) :
    readExponent? (exponentText e ++ rest) = some (e, rest) := by
  cases e with
  | none =>
    cases rest with
    | nil => rfl
    | cons c cs => simp [exponentText, readExponent?, (hr c rfl).2]
  | some e =>
    have hd := span_digits (fun _ => isDigit_of_mem_toDigits (n := e.natAbs))
      fun c hc => (hr c hc).1
    have hs : readSign ((if e < 0 then '-' else '+') :: (Nat.toDigits 10 e.natAbs ++ rest)) =
        (decide (e < 0), Nat.toDigits 10 e.natAbs ++ rest) := by
      by_cases he : e < 0 <;> simp [he, readSign]
    have hv : (if e < 0 then -(e.natAbs : Int) else e.natAbs) = e := by omega
    simp only [exponentText, List.cons_append, readExponent?, true_or, if_true, hs, hd,
      naturalOf_toDigits, Nat.toDigits_ne_nil, if_false, decide_eq_true_eq, hv]

theorem readFraction?_text {fraction : List Char} (hf : ∀ c ∈ fraction, c.isDigit = true)
    (hr : ∀ c ∈ rest.head?, c.isDigit = false ∧ c ≠ '.') :
    readFraction? (fractionText fraction ++ rest) = some (fraction, rest) := by
  by_cases h : fraction = []
  · subst h
    cases rest with
    | nil => rfl
    | cons c cs => simp [fractionText, readFraction?, (hr c rfl).2]
  · have hd := span_digits hf fun c hc => (hr c hc).1
    simp [fractionText, h, readFraction?, hd]

theorem head?_exponentText (e : Option Int) (hr : EndsNumeral rest) :
    ∀ c ∈ (exponentText e ++ rest).head?, c.isDigit = false ∧ c ≠ '.' := by
  intro c hc
  cases e with
  | none => exact ⟨(hr c hc).1, (hr c hc).2.1⟩
  | some e =>
    obtain rfl : 'e' = c := by simpa [exponentText] using hc
    decide

theorem readUnsigned?_text (h : n.Sound) (hr : EndsNumeral rest) :
    readUnsigned? n.negative (n.unsignedText ++ rest) = some (n, rest) := by
  have hx := head?_exponentText n.exponent hr
  have hf : ∀ c ∈ (fractionText n.fraction ++ (exponentText n.exponent ++ rest)).head?,
      c.isDigit = false := by
    intro c hc
    by_cases he : n.fraction = []
    · exact (hx c (by simpa [fractionText, he] using hc)).1
    · obtain rfl : '.' = c := by simpa [fractionText, he] using hc
      decide
  have hd := span_digits h.whole_digits hf
  have hw : ¬(n.whole = [] ∨ (n.whole.head? = some '0' ∧ 1 < n.whole.length)) := by
    rintro (he | ⟨h0, h1⟩)
    · exact h.whole_ne_nil he
    · exact absurd (h.leading h0) (by omega)
  simp only [readUnsigned?, unsignedText, List.append_assoc, hd, if_neg hw,
    readFraction?_text h.fraction_digits hx, readExponent?_text n.exponent hr]

theorem isSpace_of_isDigit {c : Char} (h : c.isDigit = true) : isSpace c = false := by
  rw [Bool.eq_false_iff]
  intro hs
  simp only [isSpace, Bool.or_eq_true, decide_eq_true_eq] at hs
  rcases hs with ((rfl | rfl) | rfl) | rfl <;> exact absurd h (by decide)

/-- A numeral is read from its spelling, up to where the spelling ends. -/
theorem read_text (h : n.Sound) (hr : EndsNumeral rest) :
    ∃ c cs, n.text ++ rest = c :: cs ∧ isSpace c = false ∧
      Token.read c cs = some (.numeral n, rest) := by
  have hn := readUnsigned?_text h hr
  unfold text
  by_cases hs : n.negative = true
  · rw [hs] at hn
    exact ⟨'-', n.unsignedText ++ rest, by simp [hs], by decide, by simp [Token.read, hn]⟩
  · obtain ⟨c, cs, hw⟩ := List.exists_cons_of_ne_nil h.whole_ne_nil
    have hc : c.isDigit = true := h.whole_digits c (by simp [hw])
    have he : n.unsignedText ++ rest =
        c :: (cs ++ (fractionText n.fraction ++ exponentText n.exponent) ++ rest) := by
      simp [unsignedText, hw]
    rw [Bool.not_eq_true] at hs
    refine ⟨c, _, by rw [hs]; exact he, isSpace_of_isDigit hc, ?_⟩
    rw [hs, he] at hn
    unfold Token.read
    -- a digit is none of the characters that other tokens begin with
    split
    all_goals first
      | exact absurd hc (by decide)
      | skip
    simp only [hc, if_true, hn, Option.map_some]

/-! ## Integers -/

/-- The numeral of an integer. -/
def ofInt (i : Int) : Numeral := ⟨decide (i < 0), Nat.toDigits 10 i.natAbs, [], none⟩

theorem ofInt_sound (i : Int) : (ofInt i).Sound where
  whole_ne_nil := Nat.toDigits_ne_nil
  leading h := by
    by_cases h0 : i.natAbs = 0
    · simp [ofInt, h0]
    · exact absurd h (head?_toDigits (by omega))
  whole_digits _ := isDigit_of_mem_toDigits
  fraction_digits _ h := by cases h

theorem naturalOf_ofInt (i : Int) : naturalOf (ofInt i).whole = i.natAbs := naturalOf_toDigits _

theorem isInteger_ofInt (i : Int) : (ofInt i).isInteger = true := rfl

theorem integer?_ofInt {i : Int} (h : fitsInteger i = true) : (ofInt i).integer? = some i := by
  simp only [fitsInteger, Bool.and_eq_true, decide_eq_true_eq] at h
  simp only [integer?, isInteger_ofInt, naturalOf_ofInt, if_true]
  by_cases hi : i < 0
  · simp only [ofInt, hi, decide_true, if_true]
    rw [if_pos (by omega)]
    simp only [Option.some.injEq]
    omega
  · simp only [ofInt, hi, decide_false, Bool.false_eq_true, if_false]
    rw [if_pos (by omega)]
    simp only [Option.some.injEq]
    omega

end Numeral

theorem integerText_eq (i : Int) : integerText i = (Numeral.ofInt i).text := by
  by_cases hi : i < 0 <;>
    simp [integerText, Numeral.ofInt, Numeral.text, Numeral.unsignedText, Numeral.fractionText,
      Numeral.exponentText, hi]

end MessageGraph.Json

/-! ## Reals -/

namespace MessageGraph

open Json (Numeral)

namespace Magnitude

theorem unitsOf_pos {rank : Nat} (h : 0 < rank) : 0 < unitsOf rank := by
  unfold unitsOf
  split
  · exact h
  · have hb : 0 < binade := by decide
    rw [Nat.shiftLeft_eq]
    exact Nat.mul_pos (Nat.add_pos_left hb _) (Nat.two_pow_pos _)

theorem rank_pos {m : Magnitude} (hm : m ≠ zero) : 0 < m.rank := by
  refine Nat.pos_of_ne_zero fun h => hm ?_
  obtain ⟨rank, _⟩ := m
  obtain rfl : rank = 0 := h
  rfl

theorem roundsTo_zero {m : Magnitude} (hm : m ≠ zero) (k : Int) : m.roundsTo k 0 = false := by
  have hu := unitsOf_pos (rank_pos hm)
  have hden : 0 < (spacing k).2 := Nat.pow_pos (by decide)
  have hlow : 0 < m.bounds.1 * (spacing k).2 := Nat.mul_pos (Nat.add_pos_right _ hu) hden
  have hhigh : 0 < m.bounds.2 * (spacing k).2 := Nat.mul_pos (Nat.add_pos_left hu _) hden
  unfold roundsTo
  generalize spacing k = s at *
  have hlow' : (0 == m.bounds.1 * s.2) = false := beq_eq_false_iff_ne.2 (Nat.ne_of_lt hlow)
  have hhigh' : (0 == m.bounds.2 * s.2) = false := beq_eq_false_iff_ne.2 (Nat.ne_of_lt hhigh)
  simp only [Nat.mul_zero, Nat.zero_mul, Nat.not_lt_zero, decide_false, Bool.false_and, hlow', hhigh',
    Bool.or_false, Bool.and_false]

theorem passing?_eq_some {test : Nat → Bool} {c d : Nat} {lower : Bool}
    (h : passing? test c lower = some d) : test d = true := by
  unfold passing? at h
  split at h
  · split at h <;> (cases h; assumption)
  · cases h
    assumption
  · cases h
    assumption
  · cases h

theorem roundsTo_of_onGrid? {m : Magnitude} {k : Int} {c : Nat} (h : m.onGrid? k = some c) :
    m.roundsTo k c = true :=
  passing?_eq_some h

theorem roundsTo_shortest {m : Magnitude} {c : Nat} {k : Int} (h : m.shortest = (c, k)) :
    m.roundsTo k c = true ∨ (c, k) = (0, 0) := by
  rw [shortest] at h
  cases hf : (List.range 24).findSome? fun i : Nat =>
      (m.onGrid? (m.decimalCeiling - i)).map fun c => (c, m.decimalCeiling - (i : Int)) with
  | none =>
    rw [hf] at h
    exact .inr h.symm
  | some d =>
    rw [hf] at h
    obtain ⟨i, -, hi⟩ := List.exists_of_findSome?_eq_some hf
    obtain ⟨c', hc, hd⟩ := Option.map_eq_some_iff.1 hi
    obtain ⟨rfl, rfl⟩ := Prod.mk.inj (hd.trans h)
    exact .inl (roundsTo_of_onGrid? hc)

/-- Nothing but zero is written with a zero in front. -/
theorem shortest_zero {m : Magnitude} (hm : m ≠ zero) : m.shortest.1 = 0 → m.shortest.2 = 0 := by
  generalize hs : m.shortest = s
  obtain ⟨c, k⟩ := s
  rintro rfl
  rcases roundsTo_shortest hs with hr | he
  · rw [roundsTo_zero hm] at hr
    cases hr
  · exact (Prod.mk.inj he).2

end Magnitude

namespace Binary64

/-- The numeral that `decimalText` spells. -/
def decimalNumeral (negative : Bool) (c : Nat) (k : Int) : Numeral :=
  let ds := digits c
  let lead := (ds.length : Int) - 1 + k
  if lead < -5 ∨ 15 < lead then ⟨negative, ds.take 1, ds.drop 1, some lead⟩
  else if lead < 0 then ⟨negative, ['0'], zeros (-lead - 1).toNat ++ ds, none⟩
  else if 0 ≤ k then ⟨negative, ds ++ zeros k.toNat, ['0'], none⟩
  else ⟨negative, ds.take (lead + 1).toNat, ds.drop (lead + 1).toNat, none⟩

/-- The numeral that a finite number is written with. -/
def numeral? : Binary64 → Option Numeral
  | nan => none
  | number negative m =>
    if m = Magnitude.infinity then none
    else if m = Magnitude.zero then some ⟨negative, ['0'], ['0'], none⟩
    else some (decimalNumeral negative m.shortest.1 m.shortest.2)

theorem digits_ne_nil (c : Nat) : digits c ≠ [] := Nat.toDigits_ne_nil

theorem length_digits_pos (c : Nat) : 0 < (digits c).length := List.length_pos_iff.2 (digits_ne_nil c)

theorem decimalText_eq (negative : Bool) (c : Nat) (k : Int) :
    decimalText c k = (decimalNumeral negative c k).unsignedText := by
  have hpos := length_digits_pos c
  unfold decimalText decimalNumeral
  simp only
  split
  · have hdrop : (digits c).drop 1 = [] ↔ (digits c).length = 1 := by
      rw [List.drop_eq_nil_iff]
      omega
    simp only [Numeral.unsignedText, Numeral.fractionText, Numeral.exponentText, hdrop]
    simp [digits]
  · split
    · simp [Numeral.unsignedText, Numeral.fractionText, Numeral.exponentText, digits_ne_nil]
    · split
      · simp [Numeral.unsignedText, Numeral.fractionText, Numeral.exponentText]
      · have hdrop : (digits c).drop ((digits c).length - 1 + k + 1 : Int).toNat ≠ [] := by
          rw [Ne, List.drop_eq_nil_iff]
          omega
        simp [Numeral.unsignedText, Numeral.fractionText, Numeral.exponentText, hdrop]

theorem negative_decimalNumeral (negative : Bool) (c : Nat) (k : Int) :
    (decimalNumeral negative c k).negative = negative := by
  simp only [decimalNumeral, apply_ite Numeral.negative, ite_self]

theorem text?_eq (x : Binary64) : x.text? = x.numeral?.map Numeral.text := by
  match x with
  | nan => rfl
  | number negative m =>
    simp only [text?, numeral?]
    by_cases hi : m = Magnitude.infinity
    · simp only [if_pos hi, Option.map_none]
    · by_cases hz : m = Magnitude.zero
      · simp only [if_neg hi, if_pos hz, Option.map_some]
        rfl
      · simp only [if_neg hi, if_neg hz, Option.map_some, Numeral.text, negative_decimalNumeral,
          ← decimalText_eq]

/-- A decimal is written without leading zeros, except for zero itself. -/
theorem decimalNumeral_sound (negative : Bool) {c : Nat} {k : Int} (h : c = 0 → k = 0) :
    (decimalNumeral negative c k).Sound ∧ (decimalNumeral negative c k).isInteger = false := by
  have hpos := length_digits_pos c
  have hds : ∀ d ∈ digits c, d.isDigit = true := fun _ => Json.isDigit_of_mem_toDigits
  have hz : ∀ i, ∀ d ∈ zeros i, d.isDigit = true := fun i d hd => by
    rw [List.eq_of_mem_replicate hd]
    decide
  have hhead : c ≠ 0 → (digits c).head? ≠ some '0' := fun hc => Json.head?_toDigits (by omega)
  unfold decimalNumeral
  simp only
  split
  · exact ⟨⟨by simp [digits_ne_nil], fun _ => List.length_take_le 1 _,
      fun d hd => hds d (List.mem_of_mem_take hd), fun d hd => hds d (List.mem_of_mem_drop hd)⟩,
      by simp [Numeral.isInteger]⟩
  · split
    · refine ⟨⟨by simp, fun _ => by simp, by simp, fun d hd => ?_⟩, ?_⟩
      · exact (List.mem_append.1 hd).elim (hz _ d) (hds d)
      · simp [Numeral.isInteger, digits_ne_nil]
    · split
      · refine ⟨⟨by simp [digits_ne_nil], fun h0 => ?_, fun d hd => ?_, by simp⟩,
          by simp [Numeral.isInteger]⟩
        · rw [Json.head?_append (digits_ne_nil c)] at h0
          by_cases hc : c = 0
          · simp [hc, h hc, digits, zeros]
          · exact absurd h0 (hhead hc)
        · exact (List.mem_append.1 hd).elim (hds d) (hz _ d)
      · rename_i hlead hk
        have hc : c ≠ 0 := fun hc => hk (Int.le_of_eq (h hc).symm)
        have htake : (digits c).take ((digits c).length - 1 + k + 1 : Int).toNat ≠ [] := by
          rw [Ne, List.take_eq_nil_iff]
          rintro (h0 | h0)
          · omega
          · exact digits_ne_nil c h0
        have hdrop : (digits c).drop ((digits c).length - 1 + k + 1 : Int).toNat ≠ [] := by
          rw [Ne, List.drop_eq_nil_iff]
          omega
        refine ⟨⟨htake, fun h0 => ?_, fun d hd => hds d (List.mem_of_mem_take hd),
          fun d hd => hds d (List.mem_of_mem_drop hd)⟩, by simp [Numeral.isInteger, hdrop]⟩
        rw [List.head?_take, if_neg (by omega)] at h0
        exact absurd h0 (hhead hc)

/-- The text of a finite number is one that the grammar allows, and never that of an integer. -/
theorem numeral?_sound {x : Binary64} {n : Numeral} (h : x.numeral? = some n) :
    n.Sound ∧ n.isInteger = false := by
  match x with
  | nan => cases h
  | number negative m =>
    simp only [numeral?] at h
    by_cases hi : m = Magnitude.infinity
    · rw [if_pos hi] at h
      exact absurd h.symm (Option.some_ne_none n)
    · by_cases hz : m = Magnitude.zero
      · rw [if_neg hi, if_pos hz, Option.some.injEq] at h
        subst h
        exact ⟨⟨by simp, by simp, by simp, by simp⟩, rfl⟩
      · rw [if_neg hi, if_neg hz, Option.some.injEq] at h
        exact h ▸ decimalNumeral_sound negative (Magnitude.shortest_zero hz)

end Binary64
end MessageGraph
