import MessageGraph.Binary64.Scaling

/-!
# The tokens of a JSON text

* `Token.read` takes one token off a text; what is left is never longer (`Token.read_length`).
* `Token.list?` takes a whole text apart; only blanks may stand between tokens.

A numeral stays as written. A string that escapes half of a surrogate pair is a token without a
text: it may be skipped but not used.
-/
namespace MessageGraph.Json

/-- A number as written: its digits and its exponent of ten. -/
structure Numeral where
  negative : Bool
  whole : List Char
  /-- The digits after the point; empty when there is no point. -/
  fraction : List Char
  exponent : Option Int
deriving DecidableEq, Repr

inductive Token
  | openArray
  | closeArray
  | openObject
  | closeObject
  | comma
  | colon
  | null
  | bool (value : Bool)
  | numeral (value : Numeral)
  | string (text : Option String)
deriving DecidableEq, Repr

/-! ## Numerals -/

def digitValue (c : Char) : Nat := c.toNat - 48

def naturalOf (digits : List Char) : Nat :=
  digits.foldl (fun n c => n * 10 + digitValue c) 0

/-- The digits after a point. -/
def readFraction? : List Char → Option (List Char × List Char)
  | '.' :: cs =>
    let digits := cs.takeWhile Char.isDigit
    if digits = [] then none else some (digits, cs.dropWhile Char.isDigit)
  | cs => some ([], cs)

/-- A sign, if there is one; `true` for minus. -/
def readSign : List Char → Bool × List Char
  | '-' :: cs => (true, cs)
  | '+' :: cs => (false, cs)
  | cs => (false, cs)

/-- The exponent after an `e` of either case. -/
def readExponent? : List Char → Option (Option Int × List Char)
  | [] => some (none, [])
  | c :: cs =>
    if c = 'e' ∨ c = 'E' then
      let (negative, cs) := readSign cs
      let digits := cs.takeWhile Char.isDigit
      if digits = [] then none
      else
        let value : Int := naturalOf digits
        some (some (if negative then -value else value), cs.dropWhile Char.isDigit)
    else some (none, c :: cs)

/-- A numeral without its sign; a leading zero stands alone. -/
def readUnsigned? (negative : Bool) (cs : List Char) : Option (Numeral × List Char) :=
  let whole := cs.takeWhile Char.isDigit
  if whole = [] ∨ (whole.head? = some '0' ∧ 1 < whole.length) then none
  else
    match readFraction? (cs.dropWhile Char.isDigit) with
    | none => none
    | some (fraction, cs) =>
      match readExponent? cs with
      | none => none
      | some (exponent, cs) => some (⟨negative, whole, fraction, exponent⟩, cs)

/-! ## Strings -/

def hexValue? (c : Char) : Option Nat :=
  if '0' ≤ c ∧ c ≤ '9' then some (c.toNat - 48)
  else if 'a' ≤ c ∧ c ≤ 'f' then some (c.toNat - 87)
  else if 'A' ≤ c ∧ c ≤ 'F' then some (c.toNat - 55)
  else none

def hexUnit? (a b c d : Char) : Option Nat :=
  match hexValue? a, hexValue? b, hexValue? c, hexValue? d with
  | some a, some b, some c, some d => some (((a * 16 + b) * 16 + c) * 16 + d)
  | _, _, _, _ => none

/-- The code of a character after a backslash. -/
def escaped? (c : Char) : Option Nat :=
  match c with
  | '"' => some 0x22
  | '\\' => some 0x5C
  | '/' => some 0x2F
  | 'b' => some 0x08
  | 'f' => some 0x0C
  | 'n' => some 0x0A
  | 'r' => some 0x0D
  | 't' => some 0x09
  | _ => none

/-- The codes up to the closing quote: a code point for a character as such, a 16-bit unit for a
`\u` escape. Control characters must be escaped. -/
def readCodes? (codes : List Nat) : List Char → Option (List Nat × List Char)
  | [] => none
  | c :: cs =>
    if c = '"' then some (codes.reverse, cs)
    else if c = '\\' then
      match cs with
      | 'u' :: w :: x :: y :: z :: cs =>
        match hexUnit? w x y z with
        | some unit => readCodes? (unit :: codes) cs
        | none => none
      | e :: cs =>
        match escaped? e with
        | some code => readCodes? (code :: codes) cs
        | none => none
      | [] => none
    else if c.toNat < 0x20 then none
    else readCodes? (c.toNat :: codes) cs

/-- The characters of a sequence of codes: a surrogate pair is one character, half a pair none. -/
def charsOfCodes? (chars : List Char) : List Nat → Option (List Char)
  | [] => some chars.reverse
  | n :: ns =>
    if 0xD800 ≤ n ∧ n ≤ 0xDBFF then
      match ns with
      | m :: ms =>
        if 0xDC00 ≤ m ∧ m ≤ 0xDFFF then
          charsOfCodes? (Char.ofNat (0x10000 + (n - 0xD800) * 0x400 + (m - 0xDC00)) :: chars) ms
        else none
      | [] => none
    else if 0xDC00 ≤ n ∧ n ≤ 0xDFFF then none
    else charsOfCodes? (Char.ofNat n :: chars) ns

/-! ## One token -/

/-- The rest of a text after a word. -/
def afterWord? : List Char → List Char → Option (List Char)
  | [], cs => some cs
  | _ :: _, [] => none
  | w :: ws, c :: cs => if w = c then afterWord? ws cs else none

/-- One token that starts with `c` and goes on in `cs`. -/
def Token.read (c : Char) (cs : List Char) : Option (Token × List Char) :=
  match c with
  | '[' => some (.openArray, cs)
  | ']' => some (.closeArray, cs)
  | '\x7b' => some (.openObject, cs)
  | '\x7d' => some (.closeObject, cs)
  | ',' => some (.comma, cs)
  | ':' => some (.colon, cs)
  | 'n' => (afterWord? ['u', 'l', 'l'] cs).map (Token.null, ·)
  | 't' => (afterWord? ['r', 'u', 'e'] cs).map (Token.bool true, ·)
  | 'f' => (afterWord? ['a', 'l', 's', 'e'] cs).map (Token.bool false, ·)
  | '"' =>
    (readCodes? [] cs).map fun (codes, cs) =>
      (Token.string ((charsOfCodes? [] codes).map String.ofList), cs)
  | '-' => (readUnsigned? true cs).map fun (n, cs) => (Token.numeral n, cs)
  | c =>
    if c.isDigit then (readUnsigned? false (c :: cs)).map fun (n, cs) => (Token.numeral n, cs)
    else none

theorem length_dropWhile_le (p : Char → Bool) (cs : List Char) :
    (cs.dropWhile p).length ≤ cs.length :=
  (List.dropWhile_suffix p).length_le

theorem readFraction?_length {cs rest fraction : List Char}
    (h : readFraction? cs = some (fraction, rest)) : rest.length ≤ cs.length := by
  unfold readFraction? at h
  split at h
  · rename_i cs
    have := length_dropWhile_le Char.isDigit cs
    simp only at h
    split at h
    · cases h
    · cases h
      simp only [List.length_cons]
      omega
  · cases h
    exact Nat.le_refl _

theorem readSign_length (cs : List Char) : (readSign cs).2.length ≤ cs.length := by
  unfold readSign
  split <;> simp

theorem readExponent?_length {cs rest : List Char} {exponent : Option Int}
    (h : readExponent? cs = some (exponent, rest)) : rest.length ≤ cs.length := by
  unfold readExponent? at h
  split at h
  · cases h
    exact Nat.le_refl _
  · rename_i c cs
    have h1 := readSign_length cs
    have h2 := length_dropWhile_le Char.isDigit (readSign cs).2
    split at h
    · simp only at h
      split at h
      · cases h
      · cases h
        simp only [List.length_cons]
        omega
    · cases h
      exact Nat.le_refl _

/-- A numeral takes at least one digit off the text. -/
theorem readUnsigned?_length {negative : Bool} {cs rest : List Char} {n : Numeral}
    (h : readUnsigned? negative cs = some (n, rest)) : rest.length < cs.length := by
  unfold readUnsigned? at h
  simp only at h
  split at h
  · cases h
  · rename_i hw
    have hne : cs.takeWhile Char.isDigit ≠ [] := fun e => hw (Or.inl e)
    have hsum := congrArg List.length (List.takeWhile_append_dropWhile (p := Char.isDigit) (l := cs))
    rw [List.length_append] at hsum
    have hpos := List.length_pos_iff.2 hne
    split at h
    · cases h
    · rename_i hf
      have := readFraction?_length hf
      split at h
      · cases h
      · rename_i he
        have := readExponent?_length he
        cases h
        omega

theorem readCodes?_length {cs rest : List Char} {codes found : List Nat}
    (h : readCodes? codes cs = some (found, rest)) : rest.length ≤ cs.length := by
  fun_induction readCodes? codes cs <;> simp_all <;> omega

theorem afterWord?_length {word cs rest : List Char} (h : afterWord? word cs = some rest) :
    rest.length ≤ cs.length := by
  fun_induction afterWord? word cs <;> simp_all
  omega

theorem Token.read_length {c : Char} {cs rest : List Char} {t : Token}
    (h : Token.read c cs = some (t, rest)) : rest.length ≤ cs.length := by
  unfold Token.read at h
  split at h
  all_goals first
    | (cases h; exact Nat.le_refl _)
    | skip
  · obtain ⟨r, hr, he⟩ := Option.map_eq_some_iff.1 h
    cases he
    exact afterWord?_length hr
  · obtain ⟨r, hr, he⟩ := Option.map_eq_some_iff.1 h
    cases he
    exact afterWord?_length hr
  · obtain ⟨r, hr, he⟩ := Option.map_eq_some_iff.1 h
    cases he
    exact afterWord?_length hr
  · obtain ⟨r, hr, he⟩ := Option.map_eq_some_iff.1 h
    cases he
    exact readCodes?_length hr
  · obtain ⟨r, hr, he⟩ := Option.map_eq_some_iff.1 h
    cases he
    exact Nat.le_of_lt (readUnsigned?_length hr)
  · split at h
    · obtain ⟨r, hr, he⟩ := Option.map_eq_some_iff.1 h
      cases he
      have := readUnsigned?_length hr
      simp only [List.length_cons] at this
      omega
    · cases h

/-! ## All tokens -/

/-- The blanks that may stand between tokens. -/
def isSpace (c : Char) : Bool :=
  c = ' ' || c = '\t' || c = '\n' || c = '\x0d'

/-- The tokens of a text, after those read already, the latest first. -/
def Token.listAfter? (tokens : List Token) : List Char → Option (List Token)
  | [] => some tokens.reverse
  | c :: cs =>
    if isSpace c then Token.listAfter? tokens cs
    else
      match _h : Token.read c cs with
      | none => none
      | some (t, rest) => Token.listAfter? (t :: tokens) rest
termination_by cs => cs.length
decreasing_by
  all_goals simp only [List.length_cons]
  · omega
  · have := Token.read_length _h
    omega

def Token.list? (text : List Char) : Option (List Token) :=
  Token.listAfter? [] text

end MessageGraph.Json
