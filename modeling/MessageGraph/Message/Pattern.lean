import MessageGraph.Text.Blank

/-!
# Message names

A name is either plain, and stands for one message, or a pattern that lists variants in its first
pair of brackets and stands for one message per label:

    key [up, down] event    stands for    key up event, key down event

* `Pattern.parse?` reads a pattern; brackets without a label leave the name plain.
* `expand` lists the messages a name stands for, in label order.
* `overlap`, `compatible` and `received` say which names can exchange a message.
-/
namespace MessageGraph

/-- A name with variants: the text before the brackets, the labels in them and the text after. -/
structure Pattern where
  before : String
  labels : List String
  after : String
deriving DecidableEq, Repr

namespace Pattern

/-- Reads the first `[` and the first `]` after it; all parts are trimmed and empty labels dropped. -/
def parse? (name : String) : Option Pattern :=
  let cs := name.toList
  match cs.dropWhile (· ≠ '[') with
  | [] => none
  | _ :: rest =>
    match rest.dropWhile (· ≠ ']') with
    | [] => none
    | _ :: after =>
      let pieces := (Text.splitOn ',' (rest.takeWhile (· ≠ ']'))).map Text.trimBlanks
      let labels := pieces.filter (· ≠ [])
      if labels = [] then none
      else some
        { before := String.ofList (Text.trimBlanks (cs.takeWhile (· ≠ '[')))
          labels := labels.map String.ofList
          after := String.ofList (Text.trimBlanks after) }

/-- Two texts with a blank between them; an empty one leaves the other as it is. -/
def spaced (a b : String) : String :=
  if a = "" then b else if b = "" then a else a ++ " " ++ b

/-- The concrete message for one label. -/
def literal (p : Pattern) (label : String) : String :=
  spaced (spaced p.before label) p.after

def expand (p : Pattern) : List String :=
  p.labels.map p.literal

/-- The first label that expands to this message. -/
def labelOf? (p : Pattern) (message : String) : Option String :=
  p.labels.find? fun label => p.literal label = message

end Pattern

namespace Message

def isPattern (name : String) : Bool :=
  (Pattern.parse? name).isSome

/-- The messages a name stands for: its variants, or itself. -/
def expand (name : String) : List String :=
  match Pattern.parse? name with
  | some p => p.expand
  | none => [name]

/-- The labels of a pattern; a plain name has none. -/
def labels (name : String) : List String :=
  match Pattern.parse? name with
  | some p => p.labels
  | none => []

/-- The label of `name` that expands to `message`. -/
def labelOf? (name message : String) : Option String :=
  (Pattern.parse? name).bind (·.labelOf? message)

/-- Whether two names share a message: plain names when equal, a plain name and a pattern when the
pattern expands to it, two patterns when they share a label. -/
def overlap (a b : String) : Bool :=
  match Pattern.parse? a, Pattern.parse? b with
  | none, none => a = b
  | some p, none => p.expand.contains b
  | none, some q => q.expand.contains a
  | some p, some q => q.labels.any p.labels.contains

/-- Plain names are compatible with each other; a pattern demands overlap. -/
def compatible (a b : String) : Bool :=
  if !isPattern a && !isPattern b then true else overlap a b

/-- The message that a destination called `name` receives for the concrete message `variant`.
`fromPattern` tells that `variant` is an expansion; a plain sender reaches a plain destination under
the destination's own name. -/
def received (variant : String) (fromPattern : Bool) (name : String) : Option String :=
  match Pattern.parse? name with
  | some p => p.expand.find? (· = variant)
  | none => if fromPattern then (if name = variant then some name else none) else some name

end Message
end MessageGraph
