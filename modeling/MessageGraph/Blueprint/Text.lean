import MessageGraph.Blueprint.Codec
import MessageGraph.Blueprint.Join
import MessageGraph.Blueprint.Split

/-!
# Loading and saving a model

`Blueprint.load` reads a model from the texts of its documents: an unusable behavioral text is an error,
a missing or unusable visual text only costs layout. `Blueprint.save` writes both texts.
-/
namespace MessageGraph

/-- Reads a behavioral document, whose top-level node must be a group. -/
def BehavioralDocument.load (location text : String) : Except LoadError BehavioralDocument :=
  match read? text with
  | none => .error (.behavioral location .unreadable)
  | some d =>
    if d.root.value.tag = .group then .ok d else .error (.behavioral location .rootIsNoGroup)

def VisualDocument.load (location text : String) : Except LoadError VisualDocument :=
  match read? text with
  | none => .error (.visual location .unreadable)
  | some d => .ok d

namespace Blueprint

/-- A report that there is no visual document to go by. -/
def visualFailure (message : String) : Diagnostic := ⟨.visualLoadFailure, message, none⟩

/-- Builds a model from the texts of its documents. -/
def load (location behavioral : String) (visual : Option String) (options : LayoutOptions) :
    Except LoadError Blueprint := do
  let behavioral ← BehavioralDocument.load location behavioral
  let (visual, early) := match visual.map (VisualDocument.load location) with
    | none => (none, [])
    | some (.ok d) => (some d, [])
    | some (.error e) => (none, [visualFailure e.message])
  let b ← join behavioral visual options
  return { b with diagnostics := early ++ b.diagnostics }

/-- The texts of both documents, the behavioral one first. -/
def save (b : Blueprint) : String × String :=
  let (behavioral, visual) := b.split
  (behavioral.text, visual.text)

end Blueprint
end MessageGraph
