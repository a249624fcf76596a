import MessageGraph.Proofs.Json.Numeral

/-!
# Written texts are JSON

The text of every value parses (`parse?_pretty`), to a tree that the value determines by itself
(`Json.written`): integers and finite reals stand there as numerals, and what has no decimal as `null`.
The way there has two halves that meet at the tokens of the tree.

* `list?_pretty`: the text falls apart into those tokens. Only a numeral depends on what follows it, so
  each piece of text is read with anything behind it that ends a numeral.
* `build?_tokens`: the tokens of any tree build that tree, inside whatever frames are open.
-/
namespace MessageGraph.Json

open Token (listAfter?)

/-! ## The tree of a value -/

mutual

/-- The tree that the text of a value is. -/
def written : Json → Written
  | null => .null
  | bool b => .bool b
  | integer i => .numeral (Numeral.ofInt i)
  | real x => x.numeral?.elim .null .numeral
  | string s => .string (some s)
  | array items => .array (writtenItems items)
  | object fields => .object (writtenFields fields)

def writtenItems : List Json → List Written
  | [] => []
  | item :: items => written item :: writtenItems items

def writtenFields : List (String × Json) → List (Option String × Written)
  | [] => []
  | (key, value) :: fields => (some key, written value) :: writtenFields fields

end

/-! ## The tokens of a tree -/

namespace Written

mutual

def tokens : Written → List Token
  | .null => [.null]
  | .bool b => [.bool b]
  | .numeral n => [.numeral n]
  | .string s => [.string s]
  | .array items => .openArray :: itemTokens items ++ [.closeArray]
  | .object fields => .openObject :: fieldTokens fields ++ [.closeObject]

def itemTokens : List Written → List Token
  | [] => []
  | [item] => tokens item
  | item :: items => tokens item ++ .comma :: itemTokens items

def fieldTokens : List (Option String × Written) → List Token
  | [] => []
  | [(key, value)] => .string key :: .colon :: tokens value
  | (key, value) :: fields =>
    .string key :: .colon :: tokens value ++ .comma :: fieldTokens fields

end

/-- An array may begin with whatever begins a value. -/
theorem build?_item (w : Written) (frames : List Frame) (ts : List Token) :
    build? .item frames (w.tokens ++ ts) = build? .value frames (w.tokens ++ ts) := by
  cases w <;> simp [tokens, build?]

/-- An object begins with its first key as it goes on with the others. -/
theorem build?_firstKey (fields : List (Option String × Written)) (hf : fields ≠ [])
    (frames : List Frame) (ts : List Token) :
    build? .firstKey frames (fieldTokens fields ++ ts) =
      build? (.key []) frames (fieldTokens fields ++ ts) := by
  match fields with
  | [_] => simp [fieldTokens, build?]
  | _ :: _ :: _ => simp [fieldTokens, build?]

mutual

theorem build?_tokens (frames : List Frame) (ts : List Token) :
    (w : Written) → build? .value frames (w.tokens ++ ts) = build? (.after w) frames ts
  | .null => by simp [tokens, build?]
  | .bool _ => by simp [tokens, build?]
  | .numeral _ => by simp [tokens, build?]
  | .string _ => by simp [tokens, build?]
  | .array [] => by simp [tokens, itemTokens, build?]
  | .array (item :: items) => by
    have h := build?_itemTokens frames ts (item :: items) (List.cons_ne_nil item items) []
    have hi : build? .item (.array [] :: frames) (itemTokens (item :: items) ++ .closeArray :: ts) =
        build? .value (.array [] :: frames) (itemTokens (item :: items) ++ .closeArray :: ts) := by
      cases items <;> simp [itemTokens, build?_item]
    simpa [tokens, build?, hi] using h
  | .object [] => by simp [tokens, fieldTokens, build?]
  | .object (field :: fields) => by
    have h := build?_fieldTokens frames ts (field :: fields) (List.cons_ne_nil field fields) []
    simpa [tokens, build?, build?_firstKey] using h

theorem build?_itemTokens (frames : List Frame) (ts : List Token) :
    (items : List Written) → items ≠ [] → ∀ done : List Written,
    build? .value (.array done :: frames) (itemTokens items ++ .closeArray :: ts) =
      build? (.after (.array (done.reverse ++ items))) frames ts
  | [], hne, _ => absurd rfl hne
  | [item], _, done => by
    rw [itemTokens, build?_tokens _ _ item]
    simp [build?]
  | item :: next :: items, _, done => by
    have h := build?_itemTokens frames ts (next :: items) (List.cons_ne_nil next items) (item :: done)
    rw [itemTokens, List.append_assoc, build?_tokens _ _ item]
    · simpa [build?] using h
    · exact List.cons_ne_nil next items

theorem build?_fieldTokens (frames : List Frame) (ts : List Token) :
    (fields : List (Option String × Written)) → fields ≠ [] →
    ∀ done : List (Option String × Written),
    build? (.key done) frames (fieldTokens fields ++ .closeObject :: ts) =
      build? (.after (.object (done.reverse ++ fields))) frames ts
  | [], hne, _ => absurd rfl hne
  | [(key, value)], _, done => by
    simp only [fieldTokens, List.cons_append, build?]
    rw [build?_tokens _ _ value]
    simp [build?]
  | (key, value) :: next :: fields, _, done => by
    have h := build?_fieldTokens frames ts (next :: fields) (List.cons_ne_nil next fields)
      ((key, value) :: done)
    simp only [fieldTokens, List.cons_append, List.append_assoc, build?]
    rw [build?_tokens _ _ value]
    simpa [build?] using h

end

end Written

/-! ## The tokens of a text -/

section Reading

variable {done : List Token} {rest : List Char}

theorem listAfter?_space {c : Char} (hc : isSpace c = true) (cs : List Char) :
    listAfter? done (c :: cs) = listAfter? done cs := by
  rw [listAfter?, if_pos hc]

theorem listAfter?_read {c : Char} {cs : List Char} {t : Token} (hc : isSpace c = false)
    (ht : Token.read c cs = some (t, rest)) :
    listAfter? done (c :: cs) = listAfter? (t :: done) rest := by
  rw [listAfter?, if_neg (by simp [hc])]
  split
  · rename_i h
    rw [ht] at h
    cases h
  · rename_i h
    rw [ht] at h
    cases h
    rfl

theorem listAfter?_newline (depth : Nat) :
    listAfter? done (newline depth ++ rest) = listAfter? done rest := by
  have h : ∀ n, listAfter? done (List.replicate n ' ' ++ rest) = listAfter? done rest := by
    intro n
    induction n with
    | zero => rfl
    | succ n ih => rw [List.replicate_succ, List.cons_append, listAfter?_space rfl, ih]
  rw [newline, List.cons_append, listAfter?_space rfl, h]

theorem hexUnit?_low : ∀ n < 32, hexUnit? '0' '0' (hexDigit (n / 16)) (hexDigit (n % 16)) = some n := by
  decide

/-- Every character is read as its own code, however it is escaped. -/
theorem readCodes?_escape (codes : List Nat) (c : Char) :
    readCodes? codes (escape c ++ rest) = readCodes? (c.toNat :: codes) rest := by
  unfold escape
  split
  · subst c
    simp [readCodes?, escaped?]
  split
  · subst c
    simp [readCodes?, escaped?]
  split
  · rename_i h
    simp [readCodes?, escaped?, h]
  split
  · rename_i h
    simp [readCodes?, escaped?, h]
  split
  · subst c
    simp [readCodes?, escaped?]
  split
  · rename_i h
    simp [readCodes?, escaped?, h]
  split
  · subst c
    simp [readCodes?, escaped?]
  split
  · rename_i h
    simp [readCodes?, hexUnit?_low c.toNat h]
  · rename_i hquote hback _ _ _ _ _ hlow
    rw [List.singleton_append, readCodes?.eq_def]
    simp [hquote, hback, hlow]

theorem readCodes?_escapes (cs : List Char) (codes : List Nat) :
    readCodes? codes (cs.flatMap escape ++ '"' :: rest) =
      some (codes.reverse ++ cs.map Char.toNat, rest) := by
  induction cs generalizing codes with
  | nil =>
    rw [List.flatMap_nil, List.nil_append, readCodes?.eq_def]
    simp
  | cons c cs ih =>
    rw [List.flatMap_cons, List.append_assoc, readCodes?_escape, ih]
    simp

/-- A character is no half of a surrogate pair. -/
theorem charsOfCodes?_toNat (cs chars : List Char) :
    charsOfCodes? chars (cs.map Char.toNat) = some (chars.reverse ++ cs) := by
  induction cs generalizing chars with
  | nil => simp [charsOfCodes?]
  | cons c cs ih =>
    have hv : c.toNat < 0xD800 ∨ 0xDFFF < c.toNat ∧ c.toNat < 0x110000 := c.valid
    rw [List.map_cons, charsOfCodes?.eq_def]
    simp only
    rw [if_neg (by omega), if_neg (by omega), ih, Char.ofNat_toNat]
    simp

theorem listAfter?_quoted (s : String) :
    listAfter? done (quoted s ++ rest) = listAfter? (.string (some s) :: done) rest := by
  have hc : readCodes? [] (s.toList.flatMap escape ++ '"' :: rest) = _ :=
    readCodes?_escapes s.toList []
  have hs := charsOfCodes?_toNat s.toList []
  rw [quoted, List.append_assoc, List.cons_append]
  refine listAfter?_read rfl ?_
  simp only [Token.read]
  simp only [List.cons_append, List.nil_append, hc, Option.map_some, List.reverse_nil, hs,
    String.ofList_toList]

theorem listAfter?_numeral {n : Numeral} (h : n.Sound) (hr : EndsNumeral rest) :
    listAfter? done (n.text ++ rest) = listAfter? (.numeral n :: done) rest := by
  obtain ⟨c, cs, he, hc, ht⟩ := Numeral.read_text h hr
  rw [he]
  exact listAfter?_read hc ht

theorem endsNumeral_newline (depth : Nat) (cs : List Char) : EndsNumeral (newline depth ++ cs) := by
  intro c hc
  obtain rfl : '\n' = c := by simpa [newline] using hc
  decide

theorem endsNumeral_comma (cs : List Char) : EndsNumeral (',' :: cs) := by
  intro c hc
  obtain rfl : ',' = c := by simpa using hc
  decide

mutual

/-- The text of a value at any depth falls apart into the tokens of its tree. -/
theorem listAfter?_pretty (depth : Nat) (done : List Token) (rest : List Char)
    (hr : EndsNumeral rest) : (v : Json) →
    listAfter? done (prettyChars depth v ++ rest) = listAfter? (v.written.tokens.reverse ++ done) rest
  | .null => listAfter?_read rfl rfl
  | .bool true => listAfter?_read rfl rfl
  | .bool false => listAfter?_read rfl rfl
  | .integer i => by
    show listAfter? done (integerText i ++ rest) = _
    rw [integerText_eq]
    exact listAfter?_numeral (Numeral.ofInt_sound i) hr
  | .real x => by
    show listAfter? done (x.text?.getD nullText ++ rest) = _
    rw [Binary64.text?_eq, written]
    cases hx : x.numeral? with
    | none => exact listAfter?_read rfl rfl
    | some n => exact listAfter?_numeral (Binary64.numeral?_sound hx).1 hr
  | .string s => listAfter?_quoted s
  | .array [] => by
    show listAfter? done ('[' :: ']' :: rest) = _
    rw [listAfter?_read (t := .openArray) rfl rfl, listAfter?_read (t := .closeArray) rfl rfl]
    rfl
  | .array (item :: items) => by
    have h := listAfter?_prettyItems (depth + 1) (.openArray :: done) (newline depth ++ ']' :: rest)
      (endsNumeral_newline depth _) (item :: items)
    rw [listAfter?_newline, listAfter?_read (t := .closeArray) rfl rfl] at h
    simp only [prettyChars, List.cons_append, List.append_assoc, List.nil_append]
    rw [listAfter?_read (t := .openArray) rfl rfl, h]
    simp [written, Written.tokens]
  | .object [] => by
    show listAfter? done ('\x7b' :: '\x7d' :: rest) = _
    rw [listAfter?_read (t := .openObject) rfl rfl, listAfter?_read (t := .closeObject) rfl rfl]
    rfl
  | .object (field :: fields) => by
    have h := listAfter?_prettyFields (depth + 1) (.openObject :: done)
      (newline depth ++ '\x7d' :: rest) (endsNumeral_newline depth _) (field :: fields)
    rw [listAfter?_newline, listAfter?_read (t := .closeObject) rfl rfl] at h
    simp only [prettyChars, List.cons_append, List.append_assoc, List.nil_append]
    rw [listAfter?_read (t := .openObject) rfl rfl, h]
    simp [written, Written.tokens]

theorem listAfter?_prettyItems (depth : Nat) (done : List Token) (rest : List Char)
    (hr : EndsNumeral rest) : (items : List Json) →
    listAfter? done (prettyItems depth items ++ rest) =
      listAfter? ((Written.itemTokens (writtenItems items)).reverse ++ done) rest
  | [] => rfl
  | [item] => by
    have h := listAfter?_pretty depth done rest hr item
    rw [prettyItems, List.append_assoc, listAfter?_newline, h]
    rfl
  | item :: next :: items => by
    have h := listAfter?_pretty depth done (',' :: (prettyItems depth (next :: items) ++ rest))
      (endsNumeral_comma _) item
    have ih := listAfter?_prettyItems depth (.comma :: (item.written.tokens.reverse ++ done)) rest hr
      (next :: items)
    simp only [prettyItems, List.append_assoc, List.cons_append]
    rw [listAfter?_newline, h, listAfter?_read (t := .comma) rfl rfl, ih]
    simp [writtenItems, Written.itemTokens]

theorem listAfter?_prettyFields (depth : Nat) (done : List Token) (rest : List Char)
    (hr : EndsNumeral rest) : (fields : List (String × Json)) →
    listAfter? done (prettyFields depth fields ++ rest) =
      listAfter? ((Written.fieldTokens (writtenFields fields)).reverse ++ done) rest
  | [] => rfl
  | [(key, value)] => by
    have h := listAfter?_pretty depth (.colon :: .string (some key) :: done) rest hr value
    simp only [prettyFields, List.append_assoc, List.cons_append, List.nil_append]
    rw [listAfter?_newline, listAfter?_quoted, listAfter?_read (t := .colon) rfl rfl,
      listAfter?_space rfl, h]
    simp [writtenFields, Written.fieldTokens]
  | (key, value) :: next :: fields => by
    have h := listAfter?_pretty depth (.colon :: .string (some key) :: done)
      (',' :: (prettyFields depth (next :: fields) ++ rest)) (endsNumeral_comma _) value
    have ih := listAfter?_prettyFields depth
      (.comma :: (value.written.tokens.reverse ++ .colon :: .string (some key) :: done)) rest hr
      (next :: fields)
    simp only [prettyFields, List.append_assoc, List.cons_append, List.nil_append]
    rw [listAfter?_newline, listAfter?_quoted, listAfter?_read (t := .colon) rfl rfl,
      listAfter?_space rfl, h, listAfter?_read (t := .comma) rfl rfl, ih]
    simp [writtenFields, Written.fieldTokens]

end

end Reading

theorem list?_pretty (v : Json) : Token.list? (prettyChars 0 v) = some v.written.tokens := by
  have h := listAfter?_pretty 0 [] [] (fun c hc => by cases hc) v
  rw [List.append_nil, List.append_nil] at h
  rw [Token.list?, h, listAfter?, List.reverse_reverse]

/-- A numeral by itself is a text. -/
theorem parse?_numeral {n : Numeral} (h : n.Sound) :
    Written.parse? (String.ofList n.text) = some (.numeral n) := by
  have hl : listAfter? [] (n.text ++ []) = listAfter? [.numeral n] [] :=
    listAfter?_numeral h fun c hc => by cases hc
  rw [List.append_nil] at hl
  rw [Written.parse?, String.toList_ofList, Token.list?, hl, listAfter?]
  rfl

/-- A written text is JSON, and its tree is that of the value. -/
theorem parse?_pretty (v : Json) : Written.parse? v.pretty = some v.written := by
  have h := Written.build?_tokens [] [] v.written
  rw [List.append_nil] at h
  rw [Written.parse?, pretty, String.toList_ofList, list?_pretty, Option.bind_some, h]
  rfl

end MessageGraph.Json
