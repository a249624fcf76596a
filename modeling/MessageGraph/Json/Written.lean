import MessageGraph.Json.Token
import MessageGraph.Json.Value

/-!
# A JSON text as a tree

`Written` is a text with its nesting resolved and nothing else decided: numerals are unread, object
fields keep their order and repeats, and a key or string without a text is still there. What a text
means is up to its reader (`Decoder`); here only the grammar counts.

* `Written.parse?` reads a text; nesting has no limit.
* `Written.value?` is the plain JSON value of a tree, with a limit on nesting.
-/
namespace MessageGraph.Json

inductive Written
  | null
  | bool (value : Bool)
  | numeral (value : Numeral)
  | string (text : Option String)
  | array (items : List Written)
  | object (fields : List (Option String × Written))

namespace Written

/-- An array or a field of an object whose value is being read. Finished parts are listed backwards. -/
inductive Frame
  | array (done : List Written)
  | field (done : List (Option String × Written)) (key : Option String)

/-- What the next token may be. -/
inductive Expect
  /-- a value -/
  | value
  /-- a value, or the end of an array that has just begun -/
  | item
  /-- a key, or the end of an object that has just begun -/
  | firstKey
  /-- the key of a further field -/
  | key (done : List (Option String × Written))
  /-- the colon after a key -/
  | colon (done : List (Option String × Written)) (key : Option String)
  /-- what follows a finished value -/
  | after (value : Written)

/-- Reads tokens into the innermost of the open frames. -/
def build? : Expect → List Frame → List Token → Option Written
  | .after v, [], [] => some v
  | _, _, [] => none
  | .after v, .array done :: frames, t :: ts =>
    match t with
    | .comma => build? .value (.array (v :: done) :: frames) ts
    | .closeArray => build? (.after (.array (v :: done).reverse)) frames ts
    | _ => none
  | .after v, .field done key :: frames, t :: ts =>
    match t with
    | .comma => build? (.key ((key, v) :: done)) frames ts
    | .closeObject => build? (.after (.object ((key, v) :: done).reverse)) frames ts
    | _ => none
  | .after _, [], _ :: _ => none
  | .firstKey, frames, t :: ts =>
    match t with
    | .string key => build? (.colon [] key) frames ts
    | .closeObject => build? (.after (.object [])) frames ts
    | _ => none
  | .key done, frames, t :: ts =>
    match t with
    | .string key => build? (.colon done key) frames ts
    | _ => none
  | .colon done key, frames, t :: ts =>
    match t with
    | .colon => build? .value (.field done key :: frames) ts
    | _ => none
  | .item, frames, t :: ts =>
    match t with
    | .closeArray =>
      match frames with
      | .array _ :: frames => build? (.after (.array [])) frames ts
      | _ => none
    | .null => build? (.after .null) frames ts
    | .bool b => build? (.after (.bool b)) frames ts
    | .numeral n => build? (.after (.numeral n)) frames ts
    | .string s => build? (.after (.string s)) frames ts
    | .openArray => build? .item (.array [] :: frames) ts
    | .openObject => build? .firstKey frames ts
    | _ => none
  | .value, frames, t :: ts =>
    match t with
    | .null => build? (.after .null) frames ts
    | .bool b => build? (.after (.bool b)) frames ts
    | .numeral n => build? (.after (.numeral n)) frames ts
    | .string s => build? (.after (.string s)) frames ts
    | .openArray => build? .item (.array [] :: frames) ts
    | .openObject => build? .firstKey frames ts
    | _ => none

/-- The tree of a text, if the text is JSON. -/
def parse? (text : String) : Option Written :=
  (Token.list? text.toList).bind (build? .value [])

end Written

/-! ## Numbers -/

namespace Numeral

def isInteger (n : Numeral) : Bool := n.fraction.isEmpty && n.exponent.isNone

/-- Appends digits as long as 64 bits hold the number; also gives the digits left over. -/
def accumulate (value : Nat) : List Char → Nat × List Char
  | [] => (value, [])
  | c :: cs =>
    let next := value * 10 + digitValue c
    if next < Json.word then accumulate next cs else (value, c :: cs)

/-- The number nearest to the leading digits, scaled by a power of ten. Digits beyond 64 bits are
left out; in the whole part they still count for the exponent. -/
def magnitude? (n : Numeral) : Option Magnitude :=
  let (whole, dropped) := accumulate 0 n.whole
  let (significand, ignored) := accumulate whole n.fraction
  let read : Int := n.fraction.length - ignored.length
  Magnitude.ofScientific? significand (n.exponent.getD 0 + dropped.length - read)

def real? (n : Numeral) : Option Binary64 :=
  n.magnitude?.map (Binary64.number n.negative)

/-- An integer of 64 bits; `-0` is none. -/
def integer? (n : Numeral) : Option Int :=
  if n.isInteger then
    let value : Int := naturalOf n.whole
    if n.negative then
      if value ≠ 0 ∧ value ≤ (Json.word / 2 : Nat) then some (-value) else none
    else if value < Json.word then some value
    else none
  else none

/-- Integers stay integers where 64 bits hold them; any other number is real. -/
def json? (n : Numeral) : Option Json :=
  match n.integer? with
  | some i => some (.integer i)
  | none => n.real?.map Json.real

end Numeral

/-! ## Plain values -/

namespace Written

mutual

/-- The value of a tree whose arrays and objects nest at most `levels` deep. -/
def value? (levels : Nat) : Written → Option Json
  | .null => some .null
  | .bool b => some (.bool b)
  | .numeral n => n.json?
  | .string s => s.map Json.string
  | .array items =>
    match levels with
    | 0 => none
    | levels + 1 => (values? levels items).map Json.array
  | .object fields =>
    match levels with
    | 0 => none
    | levels + 1 => (fieldValues? levels fields).map Json.object

def values? (levels : Nat) : List Written → Option (List Json)
  | [] => some []
  | item :: items =>
    match value? levels item, values? levels items with
    | some v, some vs => some (v :: vs)
    | _, _ => none

def fieldValues? (levels : Nat) :
    List (Option String × Written) → Option (List (String × Json))
  | [] => some []
  | (key, value) :: fields =>
    match key, value? levels value, fieldValues? levels fields with
    | some k, some v, some vs => some ((k, v) :: vs)
    | _, _, _ => none

end

end Written
end MessageGraph.Json
