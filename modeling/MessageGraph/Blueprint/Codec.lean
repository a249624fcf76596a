import MessageGraph.Blueprint.Document
import MessageGraph.Json.Writer

/-!
# The documents as JSON

Both documents have a JSON form with fixed fields in a fixed order; absent values, empty lists and
flags that are off are left out, but the visual root and the points of a wire are always written.
`BehavioralDocument.read?` and `VisualDocument.read?` read what `text` writes, and any other text
with these fields.
-/
namespace MessageGraph

open Json (Decoder)
open Json.Decoder (Record)

/-! ## Fields that may be left out -/

/-- A field that is left out when there is no value. -/
def optionalField {α : Type} (name : String) (value : Option α) (write : α → Json) :
    List (String × Json) :=
  match value with
  | some v => [(name, write v)]
  | none => []

/-- A field that is left out when the list is empty. -/
def listField {α : Type} (name : String) (values : List α) (write : α → Json) :
    List (String × Json) :=
  if values.isEmpty then [] else [(name, .array (values.map write))]

/-- A field that is left out when the flag is off. -/
def flagField (name : String) (value : Bool) : List (String × Json) :=
  if value then [(name, .bool true)] else []

def Direction.decoder : Decoder Direction := Decoder.keyword Direction.ofKeyword?

def NodeTag.decoder : Decoder NodeTag := Decoder.keyword NodeTag.ofKeyword?

def Json.id (id : Id) : Json := .integer id

/-! ## The behavioral document -/

namespace PinSpec

def toJson (p : PinSpec) : Json :=
  .object ([("name", .string p.name), ("direction", .string p.direction.keyword)] ++
    flagField "channel" p.channel)

def decoder : Decoder PinSpec :=
  Decoder.record ["name", "direction", "channel"] fun r => do
    let name ← r.required "name" Decoder.string
    let direction ← r.required "direction" Direction.decoder
    let channel ← r.withDefault "channel" false Decoder.bool
    return { name, direction, channel }

end PinSpec

namespace GateSpec

def toJson (p : GateSpec) : Json :=
  .object ([("name", .string p.name), ("direction", .string p.direction.keyword)] ++
    flagField "channel" p.channel)

def decoder : Decoder GateSpec :=
  Decoder.record ["name", "direction", "channel"] fun r => do
    let name ← r.required "name" Decoder.string
    let direction ← r.required "direction" Direction.decoder
    let channel ← r.withDefault "channel" false Decoder.bool
    return { name, direction, channel }

end GateSpec

namespace BusSpec

def toJson (b : BusSpec) : Json :=
  .object ([("id", Json.id b.id), ("name", .string b.name)] ++
    optionalField "filter" b.filter BehaviorRef.toJson)

def decoder : Decoder BusSpec :=
  Decoder.record ["id", "name", "filter"] fun r => do
    let id ← r.required "id" Decoder.identifier
    let name ← r.required "name" Decoder.string
    let filter ← r.optional "filter" BehaviorRef.decoder
    return { id, name, filter }

end BusSpec

namespace EndpointSpec

def toJson : EndpointSpec → Json
  | pin node name => .object [("type", .string "pin"), ("node", Json.id node), ("pin", .string name)]
  | proxy group name =>
    .object [("type", .string "proxy"), ("group", Json.id group), ("port", .string name)]
  | pad group name =>
    .object [("type", .string "pad"), ("group", Json.id group), ("port", .string name)]
  | bus id => .object [("type", .string "bus"), ("bus", Json.id id)]

/-- The fields of each type of endpoint. -/
def fieldNames? (type : String) : Option (List String) :=
  match type with
  | "pin" => some ["node", "pin"]
  | "proxy" => some ["group", "port"]
  | "pad" => some ["group", "port"]
  | "bus" => some ["bus"]
  | _ => none

def ofRecord? (type : String) (r : Record) : Option EndpointSpec :=
  match type with
  | "pin" => do
    return pin (← r.required "node" Decoder.identifier) (← r.required "pin" Decoder.string)
  | "proxy" => do
    return proxy (← r.required "group" Decoder.identifier) (← r.required "port" Decoder.string)
  | "pad" => do
    return pad (← r.required "group" Decoder.identifier) (← r.required "port" Decoder.string)
  | "bus" => do return bus (← r.required "bus" Decoder.identifier)
  | _ => none

/-- The one type that an object states. -/
def statedType? (fields : List (Option String × Json.Written)) : Option String :=
  match fields.filter (·.1 = some "type") with
  | [(_, .string type)] => type
  | _ => none

/-- An endpoint is an object with its type anywhere among the fields, or an array that begins with the
type and then has exactly its fields. All parts have to be sound values, the unknown ones too. -/
def decoder : Decoder EndpointSpec
  | levels + 1, .object fields => do
    let _ ← Json.Written.fieldValues? levels fields
    let type ← statedType? fields
    let names ← fieldNames? type
    let known ← Decoder.knownFields? names fields
    ofRecord? type ⟨levels, known⟩
  | levels + 1, .array (.string (some type) :: items) => do
    let _ ← Json.Written.values? levels items
    let names ← fieldNames? type
    if items.length = names.length then ofRecord? type ⟨levels, names.zip items⟩ else none
  | _, _ => none

end EndpointSpec

namespace ConnectionSpec

def toJson (c : ConnectionSpec) : Json :=
  .object [("from", c.sender.toJson), ("to", c.receiver.toJson)]

def decoder : Decoder ConnectionSpec :=
  Decoder.record ["from", "to"] fun r => do
    let sender ← r.required "from" EndpointSpec.decoder
    let receiver ← r.required "to" EndpointSpec.decoder
    return { sender, receiver }

end ConnectionSpec

namespace NodeSpec

/-- A node with the JSON forms of its children. -/
def toJson (n : NodeSpec) (children : List Json) : Json :=
  .object (
    [("kind", .string n.tag.keyword), ("id", Json.id n.id), ("name", .string n.name)] ++
    optionalField "behavior" n.behavior BehaviorRef.toJson ++
    (if n.settings.isEmpty then [] else [("settings", n.settings.toJson)]) ++
    listField "pins" n.pins PinSpec.toJson ++
    listField "ports" n.gates GateSpec.toJson ++
    listField "buses" n.buses BusSpec.toJson ++
    listField "children" children (fun child => child) ++
    optionalField "link" n.link Json.string ++
    optionalField "library" n.library Json.string)

mutual

def treeJson : Tree NodeSpec → Json
  | .node n children => n.toJson (treesJson children)

def treesJson : List (Tree NodeSpec) → List Json
  | [] => []
  | t :: ts => treeJson t :: treesJson ts

end

/-- A node with its children, of at most `bound` generations. -/
def treeDecoder : Nat → Decoder (Tree NodeSpec)
  | 0 => fun _ _ => none
  | bound + 1 =>
    Decoder.record
      ["kind", "id", "name", "behavior", "settings", "pins", "ports", "buses", "children", "link",
        "library"]
      fun r => do
        let tag ← r.required "kind" NodeTag.decoder
        let id ← r.required "id" Decoder.identifier
        let name ← r.required "name" Decoder.string
        let behavior ← r.optional "behavior" BehaviorRef.decoder
        let settings ← r.withDefault "settings" Settings.empty Decoder.settings
        let pins ← r.withDefault "pins" [] (Decoder.list PinSpec.decoder)
        let gates ← r.withDefault "ports" [] (Decoder.list GateSpec.decoder)
        let buses ← r.withDefault "buses" [] (Decoder.list BusSpec.decoder)
        let children ← r.withDefault "children" [] (Decoder.list (treeDecoder bound))
        let link ← r.optional "link" Decoder.string
        let library ← r.optional "library" Decoder.string
        return .node
          { tag, id, name, behavior, settings, pins, gates, buses, link, library } children

end NodeSpec

namespace BehavioralDocument

def toJson (d : BehavioralDocument) : Json :=
  .object (("root", NodeSpec.treeJson d.root) ::
    listField "connections" d.connections ConnectionSpec.toJson)

/-- Nodes nest less deep than arrays and objects may. -/
def decoder : Decoder BehavioralDocument :=
  Decoder.record ["root", "connections"] fun r => do
    let root ← r.required "root" (NodeSpec.treeDecoder Json.levelLimit)
    let connections ← r.withDefault "connections" [] (Decoder.list ConnectionSpec.decoder)
    return { root, connections }

def text (d : BehavioralDocument) : String := d.toJson.pretty

def read? (text : String) : Option BehavioralDocument := decoder.run? text

end BehavioralDocument

/-! ## The visual document -/

namespace PinVisual

def toJson (p : PinVisual) : Json :=
  .object
    [("name", .string p.name), ("direction", .string p.direction.keyword), ("label", p.label.toJson)]

def decoder : Decoder PinVisual :=
  Decoder.record ["name", "direction", "label"] fun r => do
    let name ← r.required "name" Decoder.string
    let direction ← r.required "direction" Direction.decoder
    let label ← r.required "label" Point.decoder
    return { name, direction, label }

end PinVisual

namespace GateVisual

def toJson (p : GateVisual) : Json :=
  .object (("name", .string p.name) :: optionalField "pad" p.pad Point.toJson ++
    optionalField "proxy" p.proxy Point.toJson)

def decoder : Decoder GateVisual :=
  Decoder.record ["name", "pad", "proxy"] fun r => do
    let name ← r.required "name" Decoder.string
    let pad ← r.optional "pad" Point.decoder
    let proxy ← r.optional "proxy" Point.decoder
    return { name, pad, proxy }

end GateVisual

namespace BusVisual

def toJson (b : BusVisual) : Json := .object [("name", .string b.name), ("rect", b.rect.toJson)]

def decoder : Decoder BusVisual :=
  Decoder.record ["name", "rect"] fun r => do
    let name ← r.required "name" Decoder.string
    let rect ← r.required "rect" Rect.decoder
    return { name, rect }

end BusVisual

/-- A wire is a record of its points. -/
def wireJson (points : List Point) : Json :=
  .object [("points", .array (points.map Point.toJson))]

def wireDecoder : Decoder (List Point) :=
  Decoder.record ["points"] fun r => r.withDefault "points" [] (Decoder.list Point.decoder)

namespace NodeVisual

/-- The picture of a node with the JSON forms of those of its children. -/
def toJson (n : NodeVisual) (children : List Json) : Json :=
  .object (
    [("kind", .string n.tag.keyword), ("name", .string n.name)] ++
    optionalField "rect" n.rect Rect.toJson ++
    optionalField "view" n.view View.toJson ++
    listField "pins" n.pins PinVisual.toJson ++
    listField "ports" n.gates GateVisual.toJson ++
    listField "buses" n.buses BusVisual.toJson ++
    listField "children" children (fun child => child))

mutual

def treeJson : Tree NodeVisual → Json
  | .node n children => n.toJson (treesJson children)

def treesJson : List (Tree NodeVisual) → List Json
  | [] => []
  | t :: ts => treeJson t :: treesJson ts

end

/-- A picture with those of the children, of at most `bound` generations. -/
def treeDecoder : Nat → Decoder (Tree NodeVisual)
  | 0 => fun _ _ => none
  | bound + 1 =>
    Decoder.record ["kind", "name", "rect", "view", "pins", "ports", "buses", "children"] fun r => do
      let tag ← r.required "kind" NodeTag.decoder
      let name ← r.required "name" Decoder.string
      let rect ← r.optional "rect" Rect.decoder
      let view ← r.optional "view" View.decoder
      let pins ← r.withDefault "pins" [] (Decoder.list PinVisual.decoder)
      let gates ← r.withDefault "ports" [] (Decoder.list GateVisual.decoder)
      let buses ← r.withDefault "buses" [] (Decoder.list BusVisual.decoder)
      let children ← r.withDefault "children" [] (Decoder.list (treeDecoder bound))
      return .node { tag, name, rect, view, pins, gates, buses } children

end NodeVisual

namespace VisualDocument

def toJson (d : VisualDocument) : Json :=
  .object (("root", d.root.elim .null NodeVisual.treeJson) :: listField "wires" d.wires wireJson)

def decoder : Decoder VisualDocument :=
  Decoder.record ["root", "wires"] fun r => do
    let root ← r.optional "root" (NodeVisual.treeDecoder Json.levelLimit)
    let wires ← r.withDefault "wires" [] (Decoder.list wireDecoder)
    return { root, wires }

def text (d : VisualDocument) : String := d.toJson.pretty

def read? (text : String) : Option VisualDocument := decoder.run? text

end VisualDocument
end MessageGraph
