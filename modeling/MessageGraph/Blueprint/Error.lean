import MessageGraph.Graph.Error

/-!
# Why a model cannot be loaded or saved
-/
namespace MessageGraph

inductive DocumentKind
  | behavioral
  | visual
deriving DecidableEq, Repr

def DocumentKind.keyword : DocumentKind → String
  | behavioral => "behavioral"
  | visual => "visual"

/-- Failures of the place where documents are stored. -/
inductive StoreError
  | notFound (location : String) (kind : DocumentKind)
  | failure (location reason : String)
deriving DecidableEq, Repr

def StoreError.message : StoreError → String
  | notFound location kind => s!"No {kind.keyword} document at '{location}'"
  | failure location reason => s!"Storage failure at '{location}': {reason}"

/-- What is wrong with a document. -/
inductive Fault
  /-- its text is no document of its kind -/
  | unreadable
  /-- its top-level node is a source -/
  | rootIsNoGroup
  /-- there is no text -/
  | store (error : StoreError)
deriving DecidableEq, Repr

/-- What is said in place of the details of an unreadable text. -/
def unreadableText : String := "<json>"

def Fault.message : Fault → String
  | unreadable => unreadableText
  | rootIsNoGroup => "top-level node must be a group"
  | store error => error.message

inductive LoadError
  | behavioral (location : String) (fault : Fault)
  | visual (location : String) (fault : Fault)
  /-- the model waits for the one that links to it -/
  | linkCycle (location : String)
  | store (error : StoreError)
  | edit (error : EditError)
  | json
deriving DecidableEq, Repr

def LoadError.message : LoadError → String
  | behavioral location fault =>
    s!"Behavioral document for '{location}' is unusable: {fault.message}"
  | visual location fault => s!"Visual document for '{location}' is unusable: {fault.message}"
  | linkCycle location => s!"Model '{location}' is already waiting on its importer"
  | store error => error.message
  | edit error => error.message
  | json => s!"JSON error: {unreadableText}"

end MessageGraph
