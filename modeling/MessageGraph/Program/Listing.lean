import MessageGraph.Program.Descriptor

/-!
# The listing of a program

A stable text form of a program for readers and for comparing builds: a heading, the imports by
location, then each node with its inputs and rows, then the filters if there are any.
-/
namespace MessageGraph.Program

def heading (p : Program) : List String :=
  ["// Auto-generated program description from Pinflow",
   "// DO NOT EDIT - Changes will be overwritten",
   "// Program: " ++ p.name,
   ""]

def importText (i : Import) : String :=
  match i.aliasName with
  | some aliasName => i.identifier ++ " as " ++ aliasName
  | none => i.identifier

def sectionLine (s : Section) : String :=
  "from \"" ++ s.location ++ "\" use " ++ String.intercalate ", " (s.items.map importText)

def inputLine (i : Input) : String :=
  if i.channel then "    in " ++ i.name ++ " (channel)" else "    in " ++ i.name

def rowLine (r : Row) : String := "    out " ++ r.text

def nodeLines (n : NodeDescriptor) : List String :=
  s!"node {n.name} ({n.id}) = {n.behavior}" :: n.inputs.map inputLine ++ n.outputs.map rowLine

def filterLines (f : FilterDescriptor) : List String :=
  s!"filter {f.name} ({f.bus}) = {f.filter}" :: f.rows.map rowLine

def listingLines (p : Program) : List String :=
  p.heading ++ "[imports]" :: p.imports.sections.map sectionLine ++
    "" :: "[nodes]" :: p.nodes.flatMap nodeLines ++
      (if p.filters = [] then [] else "" :: "[filters]" :: p.filters.flatMap filterLines)

/-- The listing: every line ends with a line feed. -/
def listing (p : Program) : String :=
  String.join (p.listingLines.map (· ++ "\n"))

end MessageGraph.Program
