import Mathlib.Logic.Basic
import MessageGraph.Blueprint.Codec
import MessageGraph.Proofs.Json.Decoder

/-!
# Documents are read back from what they are written as

Every record of the two documents has its `cells`, the fields as they are declared with those left out
empty. What is written is the object of its cells, and the decoder of the record reads it back.
-/
namespace MessageGraph

open Json (Decoder Cells)
open Json.Decoder

/-! ## Cells of fields that may be left out -/

namespace Json.Cells

/-- The field of a list, which is left out when the list is empty. -/
def ofList {α : Type} (values : List α) (write : α → Json) : Option Json :=
  if values.isEmpty then none else some (.array (values.map write))

/-- The field of a flag, which is left out when the flag is off. -/
def ofFlag (value : Bool) : Option Json := if value then some (.bool true) else none

variable {α : Type}

theorem present_append (cells more : Cells) : (cells ++ more).present = cells.present ++ more.present :=
  List.filterMap_append

theorem optionalField_eq (name : String) (value : Option α) (write : α → Json) :
    optionalField name value write = Cells.present [(name, value.map write)] := by
  cases value <;> rfl

theorem listField_eq (name : String) (values : List α) (write : α → Json) :
    listField name values write = Cells.present [(name, ofList values write)] := by
  cases values <;> rfl

theorem flagField_eq (name : String) (value : Bool) :
    flagField name value = Cells.present [(name, ofFlag value)] := by
  cases value <;> rfl

variable {cells : Cells} {levels : Nat}

theorem flag_record (hd : (cells.map (·.1)).Nodup) (name : String) (value : Bool)
    (hm : (name, ofFlag value) ∈ cells) :
    (cells.record levels).withDefault name false Decoder.bool =
      if (ofFlag value).elim 0 Json.depth ≤ levels then some value else none := by
  refine withDefault_record hd name hm (fun h => ?_) fun v hv => ?_
  · cases value <;> simp_all [ofFlag]
  · cases value with
    | false => cases hv
    | true =>
      cases hv
      exact bool_reads true levels

theorem list_record (hd : (cells.map (·.1)).Nodup) (name : String) {d : Decoder α}
    (values : List α) {write : α → Json} (hm : (name, ofList values write) ∈ cells)
    (h : ∀ m, levels = m + 1 → ∀ a ∈ values, d.ReadsAt m (write a) a) :
    (cells.record levels).withDefault name [] (list d) =
      if (ofList values write).elim 0 Json.depth ≤ levels then some values else none := by
  refine withDefault_record hd name hm (fun h => ?_) fun v hv => ?_
  · cases values <;> simp_all [ofList]
  · cases values with
    | nil => cases hv
    | cons a as =>
      cases hv
      exact list_readsAt h

/-- The settings of a node, which are left out when there are none. -/
def ofSettings (s : Settings) : Option Json := if s.isEmpty then none else some s.toJson

theorem settingsField_eq (s : Settings) :
    (if s.isEmpty then [] else [("settings", s.toJson)]) =
      Cells.present [("settings", ofSettings s)] := by
  unfold ofSettings
  split <;> rfl

theorem settings_record (hd : (cells.map (·.1)).Nodup) (name : String) (s : Settings)
    (hm : (name, ofSettings s) ∈ cells) (hl : ∀ v ∈ ofSettings s, v.Legible) :
    (cells.record levels).withDefault name Settings.empty Decoder.settings =
      if (ofSettings s).elim 0 Json.depth ≤ levels then some s else none := by
  refine withDefault_record hd name hm (fun h => ?_) fun v hv => ?_
  · obtain ⟨fields, hc⟩ := s
    cases fields with
    | nil => rfl
    | cons => cases h
  · have hlv := hl v hv
    unfold ofSettings at hv
    split at hv
    · cases hv
    · cases hv
      exact settings_readsAt s hlv

theorem ofList_map {β : Type} (values : List β) (f : β → α) (write : α → Json) :
    ofList (values.map f) write = ofList values fun b => write (f b) := by
  simp [ofList, Function.comp_def]

/-- A value is legible if its field is. -/
theorem legible_map {value : Option α} {write : α → Json}
    (h : ∀ v ∈ value.map write, v.Legible) : ∀ a ∈ value, (write a).Legible := fun a ha =>
  h (write a) (Option.mem_map_of_mem write ha)

/-- All values of a list are legible if its field is. -/
theorem legible_ofList {values : List α} {write : α → Json}
    (h : ∀ v ∈ ofList values write, v.Legible) : ∀ a ∈ values, (write a).Legible := by
  intro a ha
  have hne : values.isEmpty = false := by
    rw [List.isEmpty_eq_false_iff]
    exact List.ne_nil_of_mem ha
  exact Json.legible_array.1 (h _ (by simp [ofList, hne])) _ (List.mem_map_of_mem ha)

end Json.Cells

open Json.Cells

/-- How many ids a document can tell apart: `2^32`. -/
def idLimit : Nat := 4294967296

theorem id_reads {n : Id} (h : n < idLimit) : Decoder.identifier.Reads (Json.id n) n :=
  natural_reads h

theorem Direction.reads (d : Direction) : Direction.decoder.Reads (.string d.keyword) d :=
  keyword_reads (by cases d <;> decide)

theorem NodeTag.reads (t : NodeTag) : NodeTag.decoder.Reads (.string t.keyword) t :=
  keyword_reads (by cases t <;> decide)

theorem written_string_ne_null (s : String) : (Json.string s).written ≠ .null := nofun

/-! ## Values in both documents -/

namespace BehaviorRef

def cells (b : BehaviorRef) : Cells :=
  [("identifier", some (.string b.identifier)), ("location", b.location.map Json.string)]

theorem toJson_eq (b : BehaviorRef) : b.toJson = .object b.cells.present := by
  obtain ⟨identifier, location⟩ := b
  cases location <;> rfl

theorem reads (b : BehaviorRef) : BehaviorRef.decoder.Reads b.toJson b := by
  intro levels
  have hd : (b.cells.map (·.1)).Nodup := by simp [cells]
  rw [toJson_eq]
  refine record_readsAt hd fun m _ => ?_
  simp only [required_record hd "identifier" (by simp [cells]) (string_reads b.identifier m),
    optional_record hd "location" b.location (by simp [cells]) written_string_ne_null
      fun s _ => string_reads s m, guarded_bind]
  simp only [cells, Cells.depth, Nat.max_le, ite_and]
  rfl

theorem written_ne_null (b : BehaviorRef) : b.toJson.written ≠ .null := nofun

end BehaviorRef

namespace Point

def cells (p : Point) : Cells := [("x", some (.real p.x)), ("y", some (.real p.y))]

theorem toJson_eq (p : Point) : p.toJson = .object p.cells.present := rfl

theorem reads {p : Point} (h : p.toJson.Legible) : Point.decoder.Reads p.toJson p := by
  intro levels
  have hd : (p.cells.map (·.1)).Nodup := by simp [cells]
  rw [toJson_eq, Cells.legible_present] at h
  simp only [cells, List.forall_mem_cons, Option.mem_some_iff, forall_eq', Json.legible_real] at h
  rw [toJson_eq]
  refine record_readsAt hd fun m _ => ?_
  simp only [required_record hd "x" (by simp [cells]) (real_reads h.1 m),
    required_record hd "y" (by simp [cells]) (real_reads h.2.1 m), guarded_bind]
  simp only [cells, Cells.depth, Nat.max_le, ite_and]
  rfl

theorem written_ne_null (p : Point) : p.toJson.written ≠ .null := nofun

end Point

namespace Rect

def cells (r : Rect) : Cells :=
  [("x", some (.real r.x)), ("y", some (.real r.y)), ("width", some (.real r.width)),
    ("height", some (.real r.height))]

theorem toJson_eq (r : Rect) : r.toJson = .object r.cells.present := rfl

theorem reads {r : Rect} (h : r.toJson.Legible) : Rect.decoder.Reads r.toJson r := by
  intro levels
  have hd : (r.cells.map (·.1)).Nodup := by simp [cells]
  rw [toJson_eq, Cells.legible_present] at h
  simp only [cells, List.forall_mem_cons, Option.mem_some_iff, forall_eq', Json.legible_real] at h
  rw [toJson_eq]
  refine record_readsAt hd fun m _ => ?_
  simp only [required_record hd "x" (by simp [cells]) (real_reads h.1 m),
    required_record hd "y" (by simp [cells]) (real_reads h.2.1 m),
    required_record hd "width" (by simp [cells]) (real_reads h.2.2.1 m),
    required_record hd "height" (by simp [cells]) (real_reads h.2.2.2.1 m), guarded_bind]
  simp only [cells, Cells.depth, Nat.max_le, ite_and]
  rfl

theorem written_ne_null (r : Rect) : r.toJson.written ≠ .null := nofun

end Rect

namespace View

def cells (v : View) : Cells := [("offset", some v.offset.toJson), ("zoom", some (.real v.zoom))]

theorem toJson_eq (v : View) : v.toJson = .object v.cells.present := rfl

theorem reads {v : View} (h : v.toJson.Legible) : View.decoder.Reads v.toJson v := by
  intro levels
  have hd : (v.cells.map (·.1)).Nodup := by simp [cells]
  rw [toJson_eq, Cells.legible_present] at h
  simp only [cells, List.forall_mem_cons, Option.mem_some_iff, forall_eq', Json.legible_real] at h
  rw [toJson_eq]
  refine record_readsAt hd fun m _ => ?_
  simp only [required_record hd "offset" (by simp [cells]) (Point.reads h.1 m),
    required_record hd "zoom" (by simp [cells]) (real_reads h.2.1 m), guarded_bind]
  simp only [cells, Cells.depth, Nat.max_le, ite_and]
  rfl

theorem written_ne_null (v : View) : v.toJson.written ≠ .null := nofun

end View

/-! ## Trees -/

/-- A tree is read back, with any bound on its generations that the levels stay within, if every node is
whose children are. -/
theorem Tree.readsAt {α : Type} (write : Tree α → Json) (decoder : Nat → Decoder (Tree α))
    (P : Tree α → Prop) (hzero : ∀ t, (decoder 0).ReadsAt 0 (write t) t)
    (hchild : ∀ {n children}, P (.node n children) → ∀ t ∈ children, P t)
    (hnode : ∀ {n children bound levels}, P (.node n children) →
      (∀ k < levels, ∀ t ∈ children, (decoder bound).ReadsAt k (write t) t) →
      (decoder (bound + 1)).ReadsAt levels (write (.node n children)) (.node n children))
    {t : Tree α} (h : P t) {bound levels : Nat} (hb : levels ≤ bound) :
    (decoder bound).ReadsAt levels (write t) t := by
  induction bound generalizing t levels with
  | zero =>
    obtain rfl : levels = 0 := Nat.le_zero.1 hb
    exact hzero t
  | succ bound ih =>
    obtain ⟨n, children⟩ := t
    exact hnode h fun k hk c hc => ih (hchild h c hc) (by omega)

/-! ## Parts of the behavioral document -/

/-- The fields that a pin and a gate are declared with. -/
def socketCells (name : String) (direction : Direction) (channel : Bool) : Cells :=
  [("name", some (.string name)), ("direction", some (.string direction.keyword)),
    ("channel", ofFlag channel)]

theorem socket_reads {α : Type} (make : String → Direction → Bool → α) (name : String)
    (direction : Direction) (channel : Bool) :
    (Json.Decoder.record ["name", "direction", "channel"] fun r => do
      let name ← r.required "name" Decoder.string
      let direction ← r.required "direction" Direction.decoder
      let channel ← r.withDefault "channel" false Decoder.bool
      return make name direction channel).Reads
        (.object (socketCells name direction channel).present) (make name direction channel) := by
  intro levels
  have hd : ((socketCells name direction channel).map (·.1)).Nodup := by simp [socketCells]
  refine record_readsAt hd fun m _ => ?_
  simp only [required_record hd "name" (by simp [socketCells]) (string_reads name m),
    required_record hd "direction" (by simp [socketCells]) (direction.reads m),
    flag_record hd "channel" channel (by simp [socketCells]), guarded_bind]
  simp only [socketCells, Cells.depth, Nat.max_le, ite_and]
  rfl

namespace PinSpec

theorem toJson_eq (p : PinSpec) :
    p.toJson = .object (socketCells p.name p.direction p.channel).present := by
  rw [toJson, flagField_eq]
  rfl

theorem reads (p : PinSpec) : PinSpec.decoder.Reads p.toJson p := by
  rw [toJson_eq]
  exact socket_reads PinSpec.mk p.name p.direction p.channel

end PinSpec

namespace GateSpec

theorem toJson_eq (p : GateSpec) :
    p.toJson = .object (socketCells p.name p.direction p.channel).present := by
  rw [toJson, flagField_eq]
  rfl

theorem reads (p : GateSpec) : GateSpec.decoder.Reads p.toJson p := by
  rw [toJson_eq]
  exact socket_reads GateSpec.mk p.name p.direction p.channel

end GateSpec

namespace BusSpec

def cells (b : BusSpec) : Cells :=
  [("id", some (Json.id b.id)), ("name", some (.string b.name)),
    ("filter", b.filter.map BehaviorRef.toJson)]

theorem toJson_eq (b : BusSpec) : b.toJson = .object b.cells.present := by
  rw [toJson, optionalField_eq]
  rfl

theorem reads {b : BusSpec} (h : b.id < idLimit) : BusSpec.decoder.Reads b.toJson b := by
  intro levels
  have hd : (b.cells.map (·.1)).Nodup := by simp [cells]
  rw [toJson_eq]
  refine record_readsAt hd fun m _ => ?_
  simp only [required_record hd "id" (by simp [cells]) (id_reads h m),
    required_record hd "name" (by simp [cells]) (string_reads b.name m),
    optional_record hd "filter" b.filter (by simp [cells]) BehaviorRef.written_ne_null
      fun f _ => f.reads m, guarded_bind]
  simp only [cells, Cells.depth, Nat.max_le, ite_and]
  rfl

end BusSpec

namespace EndpointSpec

/-- The id that an endpoint is written with. -/
def ownerId : EndpointSpec → Id
  | pin node _ => node
  | proxy group _ => group
  | pad group _ => group
  | bus id => id

/-- The fields of an endpoint besides its type. -/
def cells : EndpointSpec → Cells
  | pin node name => [("node", some (Json.id node)), ("pin", some (.string name))]
  | proxy group name => [("group", some (Json.id group)), ("port", some (.string name))]
  | pad group name => [("group", some (Json.id group)), ("port", some (.string name))]
  | bus id => [("bus", some (Json.id id))]

def typeName : EndpointSpec → String
  | pin _ _ => "pin"
  | proxy _ _ => "proxy"
  | pad _ _ => "pad"
  | bus _ => "bus"

theorem toJson_eq (e : EndpointSpec) :
    e.toJson = .object (("type", .string e.typeName) :: e.cells.present) := by
  cases e <;> rfl

theorem fieldNames?_typeName (e : EndpointSpec) :
    fieldNames? e.typeName = some (e.cells.map (·.1)) := by
  cases e <;> rfl

theorem statedType?_written (e : EndpointSpec) :
    statedType? (Json.writtenFields (("type", .string e.typeName) :: e.cells.present)) =
      some e.typeName := by
  cases e <;> simp [statedType?, Json.writtenFields, Json.written, cells, Cells.present, Json.id]

theorem ofRecord?_record {e : EndpointSpec} (h : e.ownerId < idLimit) (levels : Nat) :
    ofRecord? e.typeName (e.cells.record levels) = some e := by
  have hd : (e.cells.map (·.1)).Nodup := by cases e <;> simp [cells]
  cases e with
  | pin node name =>
    replace h : node < idLimit := h
    simp [ofRecord?, typeName, required_record hd "node" (by simp [cells]) (id_reads h levels),
      required_record hd "pin" (by simp [cells]) (string_reads name levels), Json.id, Json.depth]
  | proxy group name =>
    replace h : group < idLimit := h
    simp [ofRecord?, typeName, required_record hd "group" (by simp [cells]) (id_reads h levels),
      required_record hd "port" (by simp [cells]) (string_reads name levels), Json.id, Json.depth]
  | pad group name =>
    replace h : group < idLimit := h
    simp [ofRecord?, typeName, required_record hd "group" (by simp [cells]) (id_reads h levels),
      required_record hd "port" (by simp [cells]) (string_reads name levels), Json.id, Json.depth]
  | bus id =>
    replace h : id < idLimit := h
    simp [ofRecord?, typeName, required_record hd "bus" (by simp [cells]) (id_reads h levels), Json.id,
      Json.depth]

theorem fitsInteger_id {n : Nat} (h : n < idLimit) : Json.fitsInteger n = true := by
  have hw : Json.word = 18446744073709551616 := rfl
  have hi : idLimit = 4294967296 := rfl
  simp only [Json.fitsInteger, Bool.and_eq_true, decide_eq_true_eq]
  omega

/-- An endpoint holds nothing but names and an id. -/
theorem plain {e : EndpointSpec} (h : e.ownerId < idLimit) :
    Json.fieldsCanonical e.cells.present = true ∧ e.cells.depth = 0 ∧
      Json.fieldsReals e.cells.present = [] := by
  cases e <;>
    exact ⟨by simpa [cells, Cells.present, Json.fieldsCanonical, Json.isCanonical, Json.id, ownerId]
      using fitsInteger_id h, rfl, rfl⟩

theorem knownFields?_present (e : EndpointSpec) :
    knownFields? (e.cells.map (·.1))
        (Json.writtenFields (("type", .string e.typeName) :: e.cells.present)) =
      some (e.cells.present.map fun field => (field.1, field.2.written)) := by
  have hd : (e.cells.map (·.1)).Nodup := by cases e <;> simp [cells]
  have hk := Cells.keys_present e.cells
  have hf := knownFields?_written (fun f hf => hk.subset (List.mem_map_of_mem hf)) (hk.nodup hd)
  have ht : (e.cells.map (·.1)).contains "type" = false := by cases e <;> simp [cells]
  rw [Json.writtenFields, knownFields?, hf]
  simp only [ht, Bool.false_eq_true, if_false]

theorem reads {e : EndpointSpec} (h : e.ownerId < idLimit) :
    EndpointSpec.decoder.Reads e.toJson e := by
  intro levels
  obtain ⟨hc, hdepth, hreals⟩ := plain h
  rw [toJson_eq]
  cases levels with
  | zero => rfl
  | succ levels =>
    have hv := Json.fieldValues?_written levels (("type", .string e.typeName) :: e.cells.present)
      (by simpa [Json.fieldsCanonical, Json.isCanonical] using hc)
      (Json.legible_object.1 (by simp [Json.Legible, Json.reals, Json.fieldsReals, hreals]))
    have hd : Json.fieldsDepth (("type", .string e.typeName) :: e.cells.present) = 0 := by
      simp [Json.fieldsDepth, Cells.fieldsDepth_present, hdepth, Json.depth]
    have hr := ofRecord?_record h levels
    rw [hd, if_pos (Nat.zero_le levels)] at hv
    simp only [ReadsAt, Json.written, decoder, hv, statedType?_written, fieldNames?_typeName,
      knownFields?_present, Option.bind_eq_bind, Option.bind_some, Json.depth, hd]
    exact hr

end EndpointSpec

namespace ConnectionSpec

def cells (c : ConnectionSpec) : Cells :=
  [("from", some c.sender.toJson), ("to", some c.receiver.toJson)]

theorem toJson_eq (c : ConnectionSpec) : c.toJson = .object c.cells.present := rfl

theorem reads {c : ConnectionSpec} (hs : c.sender.ownerId < idLimit)
    (hr : c.receiver.ownerId < idLimit) : ConnectionSpec.decoder.Reads c.toJson c := by
  intro levels
  have hd : (c.cells.map (·.1)).Nodup := by simp [cells]
  rw [toJson_eq]
  refine record_readsAt hd fun m _ => ?_
  simp only [required_record hd "from" (by simp [cells]) (EndpointSpec.reads hs m),
    required_record hd "to" (by simp [cells]) (EndpointSpec.reads hr m), guarded_bind]
  simp only [cells, Cells.depth, Nat.max_le, ite_and]
  rfl

end ConnectionSpec

namespace NodeSpec

/-- Whether a node and its buses have ids below a bound. -/
structure IdsBelow (n : NodeSpec) (bound : Id) : Prop where
  node : n.id < bound
  buses : ∀ b ∈ n.buses, b.id < bound

theorem treesJson_eq_map (ts : List (Tree NodeSpec)) : treesJson ts = ts.map treeJson := by
  induction ts with
  | nil => rfl
  | cons t ts ih => rw [treesJson, ih, List.map_cons]

def cells (n : NodeSpec) (children : List (Tree NodeSpec)) : Cells :=
  [("kind", some (.string n.tag.keyword)), ("id", some (Json.id n.id)),
    ("name", some (.string n.name)), ("behavior", n.behavior.map BehaviorRef.toJson),
    ("settings", ofSettings n.settings), ("pins", ofList n.pins PinSpec.toJson),
    ("ports", ofList n.gates GateSpec.toJson), ("buses", ofList n.buses BusSpec.toJson),
    ("children", ofList children treeJson), ("link", n.link.map Json.string),
    ("library", n.library.map Json.string)]

theorem toJson_eq (n : NodeSpec) (children : List (Tree NodeSpec)) :
    n.toJson (treesJson children) = .object (n.cells children).present := by
  have hfirst : [("kind", Json.string n.tag.keyword), ("id", Json.id n.id),
      ("name", Json.string n.name)] = Cells.present [("kind", some (.string n.tag.keyword)),
        ("id", some (Json.id n.id)), ("name", some (.string n.name))] := rfl
  simp only [toJson, optionalField_eq, listField_eq, settingsField_eq, treesJson_eq_map, ofList_map,
    hfirst, ← present_append]
  rfl

/-- A node is read back if its children are. -/
theorem node_readsAt {n : NodeSpec} {children : List (Tree NodeSpec)} {bound levels : Nat}
    (hl : (n.toJson (treesJson children)).Legible) (hids : n.IdsBelow idLimit)
    (hc : ∀ k < levels, ∀ t ∈ children, (treeDecoder bound).ReadsAt k (treeJson t) t) :
    (treeDecoder (bound + 1)).ReadsAt levels (treeJson (.node n children)) (.node n children) := by
  have hd : ((n.cells children).map (·.1)).Nodup := by simp [cells]
  rw [toJson_eq, Cells.legible_present] at hl
  have hsettings := hl ("settings", ofSettings n.settings) (by simp [cells])
  rw [treeJson, toJson_eq]
  refine record_readsAt hd fun m hm => ?_
  have hchildren : ∀ k, m = k + 1 → ∀ t ∈ children,
      (treeDecoder bound).ReadsAt k (treeJson t) t := fun k hk => hc k (by omega)
  simp only [required_record hd "kind" (by simp [cells]) (n.tag.reads m),
    required_record hd "id" (by simp [cells]) (id_reads hids.node m),
    required_record hd "name" (by simp [cells]) (string_reads n.name m),
    optional_record hd "behavior" n.behavior (by simp [cells]) BehaviorRef.written_ne_null
      fun b _ => b.reads m,
    settings_record hd "settings" n.settings (by simp [cells]) hsettings,
    list_record hd "pins" n.pins (by simp [cells]) fun k _ p _ => p.reads k,
    list_record hd "ports" n.gates (by simp [cells]) fun k _ p _ => p.reads k,
    list_record hd "buses" n.buses (by simp [cells]) fun k _ b hb =>
      BusSpec.reads (hids.buses b hb) k,
    list_record hd "children" children (by simp [cells]) hchildren,
    optional_record hd "link" n.link (by simp [cells]) written_string_ne_null fun s _ =>
      string_reads s m,
    optional_record hd "library" n.library (by simp [cells]) written_string_ne_null fun s _ =>
      string_reads s m,
    guarded_bind]
  simp only [cells, Cells.depth, Nat.max_le, ite_and]
  rfl

/-- The children of a node whose reals are legible have legible reals. -/
theorem legible_children {n : NodeSpec} {children : List (Tree NodeSpec)}
    (hl : (n.toJson (treesJson children)).Legible) : ∀ t ∈ children, (treeJson t).Legible := by
  rw [toJson_eq, Cells.legible_present] at hl
  exact legible_ofList (hl ("children", ofList children treeJson) (by simp [cells]))

theorem tree_readsAt {t : Tree NodeSpec} (hl : (treeJson t).Legible)
    (hids : ∀ n ∈ t.values, n.IdsBelow idLimit) {bound levels : Nat} (hb : levels ≤ bound) :
    (treeDecoder bound).ReadsAt levels (treeJson t) t := by
  refine Tree.readsAt treeJson treeDecoder
    (fun t => (treeJson t).Legible ∧ ∀ n ∈ t.values, n.IdsBelow idLimit)
    (fun ⟨_, _⟩ => rfl) (fun ⟨hl, hids⟩ c hc => ⟨legible_children hl c hc, fun n hn => ?_⟩)
    (fun ⟨hl, hids⟩ => node_readsAt hl (hids _ List.mem_cons_self)) ⟨hl, hids⟩ hb
  rw [Tree.values, Tree.valuesOf_eq_flatMap] at hids
  exact hids n (List.mem_cons_of_mem _ (List.mem_flatMap.2 ⟨c, hc, hn⟩))

end NodeSpec

/-! ## The behavioral document -/

namespace BehavioralDocument

/-- Whether all ids in a document are below a bound. -/
structure IdsBelow (d : BehavioralDocument) (bound : Id) : Prop where
  nodes : ∀ n ∈ d.root.values, n.IdsBelow bound
  connections : ∀ c ∈ d.connections, c.sender.ownerId < bound ∧ c.receiver.ownerId < bound

theorem IdsBelow.mono {d : BehavioralDocument} {bound bound' : Nat} (h : d.IdsBelow bound)
    (hb : bound ≤ bound') : d.IdsBelow bound' where
  nodes n hn := ⟨Nat.lt_of_lt_of_le (h.nodes n hn).node hb, fun x hx =>
    Nat.lt_of_lt_of_le ((h.nodes n hn).buses x hx) hb⟩
  connections c hc := ⟨Nat.lt_of_lt_of_le (h.connections c hc).1 hb,
    Nat.lt_of_lt_of_le (h.connections c hc).2 hb⟩

def cells (d : BehavioralDocument) : Cells :=
  [("root", some (NodeSpec.treeJson d.root)),
    ("connections", ofList d.connections ConnectionSpec.toJson)]

theorem toJson_eq (d : BehavioralDocument) : d.toJson = .object d.cells.present := by
  rw [toJson, listField_eq]
  rfl

theorem readsAt {d : BehavioralDocument} (hl : d.toJson.Legible) (hids : d.IdsBelow idLimit) :
    BehavioralDocument.decoder.ReadsAt Json.levelLimit d.toJson d := by
  have hd : (d.cells.map (·.1)).Nodup := by simp [cells]
  rw [toJson_eq] at hl ⊢
  rw [Cells.legible_present] at hl
  refine record_readsAt hd fun m hm => ?_
  have hlroot := hl ("root", some (NodeSpec.treeJson d.root)) (by simp [cells]) _ rfl
  have hroot : (NodeSpec.treeDecoder Json.levelLimit).ReadsAt m (NodeSpec.treeJson d.root) d.root :=
    NodeSpec.tree_readsAt hlroot hids.nodes (by omega)
  simp only [required_record hd "root" (by simp [cells]) hroot,
    list_record hd "connections" d.connections (by simp [cells]) fun k _ c hc =>
      ConnectionSpec.reads (hids.connections c hc).1 (hids.connections c hc).2 k, guarded_bind]
  simp only [cells, Cells.depth, Nat.max_le, ite_and]
  rfl

/-- A behavioral document is read back from its text unless it nests too deep. -/
theorem read?_text {d : BehavioralDocument} (hl : d.toJson.Legible) (hids : d.IdsBelow idLimit) :
    read? d.text = if d.toJson.depth ≤ Json.levelLimit then some d else none := by
  rw [read?, Decoder.run?, text, Json.parse?_pretty, Option.bind_some]
  exact readsAt hl hids

end BehavioralDocument

/-! ## Parts of the visual document -/

namespace PinVisual

def cells (p : PinVisual) : Cells :=
  [("name", some (.string p.name)), ("direction", some (.string p.direction.keyword)),
    ("label", some p.label.toJson)]

theorem toJson_eq (p : PinVisual) : p.toJson = .object p.cells.present := rfl

theorem reads {p : PinVisual} (hl : p.toJson.Legible) : PinVisual.decoder.Reads p.toJson p := by
  intro levels
  have hd : (p.cells.map (·.1)).Nodup := by simp [cells]
  rw [toJson_eq, Cells.legible_present] at hl
  have hlabel := hl ("label", _) (by simp [cells]) p.label.toJson rfl
  rw [toJson_eq]
  refine record_readsAt hd fun m _ => ?_
  simp only [required_record hd "name" (by simp [cells]) (string_reads p.name m),
    required_record hd "direction" (by simp [cells]) (p.direction.reads m),
    required_record hd "label" (by simp [cells]) (Point.reads hlabel m), guarded_bind]
  simp only [cells, Cells.depth, Nat.max_le, ite_and]
  rfl

end PinVisual

namespace GateVisual

def cells (p : GateVisual) : Cells :=
  [("name", some (.string p.name)), ("pad", p.pad.map Point.toJson),
    ("proxy", p.proxy.map Point.toJson)]

theorem toJson_eq (p : GateVisual) : p.toJson = .object p.cells.present := by
  obtain ⟨name, pad, proxy⟩ := p
  cases pad <;> cases proxy <;> rfl

theorem reads {p : GateVisual} (hl : p.toJson.Legible) : GateVisual.decoder.Reads p.toJson p := by
  intro levels
  have hd : (p.cells.map (·.1)).Nodup := by simp [cells]
  rw [toJson_eq, Cells.legible_present] at hl
  have hpad := legible_map (hl ("pad", p.pad.map Point.toJson) (by simp [cells]))
  have hproxy := legible_map (hl ("proxy", p.proxy.map Point.toJson) (by simp [cells]))
  rw [toJson_eq]
  refine record_readsAt hd fun m _ => ?_
  simp only [required_record hd "name" (by simp [cells]) (string_reads p.name m),
    optional_record hd "pad" p.pad (by simp [cells]) Point.written_ne_null fun q hq =>
      Point.reads (hpad q hq) m,
    optional_record hd "proxy" p.proxy (by simp [cells]) Point.written_ne_null fun q hq =>
      Point.reads (hproxy q hq) m, guarded_bind]
  simp only [cells, Cells.depth, Nat.max_le, ite_and]
  rfl

end GateVisual

namespace BusVisual

def cells (b : BusVisual) : Cells :=
  [("name", some (.string b.name)), ("rect", some b.rect.toJson)]

theorem toJson_eq (b : BusVisual) : b.toJson = .object b.cells.present := rfl

theorem reads {b : BusVisual} (hl : b.toJson.Legible) : BusVisual.decoder.Reads b.toJson b := by
  intro levels
  have hd : (b.cells.map (·.1)).Nodup := by simp [cells]
  rw [toJson_eq, Cells.legible_present] at hl
  have hrect := hl ("rect", some b.rect.toJson) (by simp [cells]) b.rect.toJson rfl
  rw [toJson_eq]
  refine record_readsAt hd fun m _ => ?_
  simp only [required_record hd "name" (by simp [cells]) (string_reads b.name m),
    required_record hd "rect" (by simp [cells]) (Rect.reads hrect m), guarded_bind]
  simp only [cells, Cells.depth, Nat.max_le, ite_and]
  rfl

end BusVisual

def wireCells (points : List Point) : Cells :=
  [("points", some (.array (points.map Point.toJson)))]

/-- The points of a wire are written even when there are none, and may be missing all the same. -/
theorem wire_reads {points : List Point} (hl : (wireJson points).Legible) :
    wireDecoder.Reads (wireJson points) points := by
  intro levels
  have hd : ((wireCells points).map (·.1)).Nodup := by simp [wireCells]
  have he : wireJson points = .object (wireCells points).present := rfl
  rw [he, Cells.legible_present] at hl
  have hpoints := hl ("points", some (.array (points.map Point.toJson))) (by simp [wireCells]) _ rfl
  rw [Json.legible_array] at hpoints
  rw [he]
  refine record_readsAt hd fun m _ => ?_
  rw [present_record hd "points" (by simp [wireCells]) (list_readsAt fun k _ p hp =>
    Point.reads (hpoints p.toJson (List.mem_map_of_mem hp)) k)]
  simp only [wireCells, Cells.depth, Nat.max_le, ite_and]
  rfl

namespace NodeVisual

theorem treesJson_eq_map (ts : List (Tree NodeVisual)) : treesJson ts = ts.map treeJson := by
  induction ts with
  | nil => rfl
  | cons t ts ih => rw [treesJson, ih, List.map_cons]

def cells (n : NodeVisual) (children : List (Tree NodeVisual)) : Cells :=
  [("kind", some (.string n.tag.keyword)), ("name", some (.string n.name)),
    ("rect", n.rect.map Rect.toJson), ("view", n.view.map View.toJson),
    ("pins", ofList n.pins PinVisual.toJson), ("ports", ofList n.gates GateVisual.toJson),
    ("buses", ofList n.buses BusVisual.toJson), ("children", ofList children treeJson)]

theorem toJson_eq (n : NodeVisual) (children : List (Tree NodeVisual)) :
    n.toJson (treesJson children) = .object (n.cells children).present := by
  have hfirst : [("kind", Json.string n.tag.keyword), ("name", Json.string n.name)] =
      Cells.present [("kind", some (.string n.tag.keyword)), ("name", some (.string n.name))] := rfl
  simp only [toJson, optionalField_eq, listField_eq, treesJson_eq_map, ofList_map, hfirst,
    ← present_append]
  rfl

/-- A picture is read back if those of the children are. -/
theorem node_readsAt {n : NodeVisual} {children : List (Tree NodeVisual)} {bound levels : Nat}
    (hl : (n.toJson (treesJson children)).Legible)
    (hc : ∀ k < levels, ∀ t ∈ children, (treeDecoder bound).ReadsAt k (treeJson t) t) :
    (treeDecoder (bound + 1)).ReadsAt levels (treeJson (.node n children)) (.node n children) := by
  have hd : ((n.cells children).map (·.1)).Nodup := by simp [cells]
  rw [toJson_eq, Cells.legible_present] at hl
  have hrect := legible_map (hl ("rect", n.rect.map Rect.toJson) (by simp [cells]))
  have hview := legible_map (hl ("view", n.view.map View.toJson) (by simp [cells]))
  have hpins := legible_ofList (hl ("pins", ofList n.pins PinVisual.toJson) (by simp [cells]))
  have hgates := legible_ofList (hl ("ports", ofList n.gates GateVisual.toJson) (by simp [cells]))
  have hbuses := legible_ofList (hl ("buses", ofList n.buses BusVisual.toJson) (by simp [cells]))
  rw [treeJson, toJson_eq]
  refine record_readsAt hd fun m hm => ?_
  have hchildren : ∀ k, m = k + 1 → ∀ t ∈ children,
      (treeDecoder bound).ReadsAt k (treeJson t) t := fun k hk => hc k (by omega)
  simp only [required_record hd "kind" (by simp [cells]) (n.tag.reads m),
    required_record hd "name" (by simp [cells]) (string_reads n.name m),
    optional_record hd "rect" n.rect (by simp [cells]) Rect.written_ne_null fun r hr =>
      Rect.reads (hrect r hr) m,
    optional_record hd "view" n.view (by simp [cells]) View.written_ne_null fun v hv =>
      View.reads (hview v hv) m,
    list_record hd "pins" n.pins (by simp [cells]) fun k _ p hp => PinVisual.reads (hpins p hp) k,
    list_record hd "ports" n.gates (by simp [cells]) fun k _ p hp => GateVisual.reads (hgates p hp) k,
    list_record hd "buses" n.buses (by simp [cells]) fun k _ b hb => BusVisual.reads (hbuses b hb) k,
    list_record hd "children" children (by simp [cells]) hchildren, guarded_bind]
  simp only [cells, Cells.depth, Nat.max_le, ite_and]
  rfl

theorem legible_children {n : NodeVisual} {children : List (Tree NodeVisual)}
    (hl : (n.toJson (treesJson children)).Legible) : ∀ t ∈ children, (treeJson t).Legible := by
  rw [toJson_eq, Cells.legible_present] at hl
  exact legible_ofList (hl ("children", ofList children treeJson) (by simp [cells]))

theorem tree_readsAt {t : Tree NodeVisual} (hl : (treeJson t).Legible) {bound levels : Nat}
    (hb : levels ≤ bound) : (treeDecoder bound).ReadsAt levels (treeJson t) t :=
  Tree.readsAt treeJson treeDecoder (fun t => (treeJson t).Legible) (fun ⟨_, _⟩ => rfl)
    legible_children node_readsAt hl hb

theorem tree_written_ne_null : (t : Tree NodeVisual) → (treeJson t).written ≠ .null
  | .node _ _ => nofun

end NodeVisual

/-! ## The visual document -/

namespace VisualDocument

def cells (d : VisualDocument) : Cells :=
  [("root", some (d.root.elim .null NodeVisual.treeJson)), ("wires", ofList d.wires wireJson)]

theorem toJson_eq (d : VisualDocument) : d.toJson = .object d.cells.present := by
  rw [toJson, listField_eq]
  rfl

theorem readsAt {d : VisualDocument} (hl : d.toJson.Legible) :
    VisualDocument.decoder.ReadsAt Json.levelLimit d.toJson d := by
  have hd : (d.cells.map (·.1)).Nodup := by simp [cells]
  rw [toJson_eq] at hl ⊢
  rw [Cells.legible_present] at hl
  have hwires := legible_ofList (hl ("wires", ofList d.wires wireJson) (by simp [cells]))
  refine record_readsAt hd fun m hm => ?_
  have hroot : (nullable (NodeVisual.treeDecoder Json.levelLimit)).ReadsAt m
      (d.root.elim .null NodeVisual.treeJson) d.root := by
    cases hr : d.root with
    | none => rfl
    | some t =>
      have ht := hl ("root", some (d.root.elim .null NodeVisual.treeJson)) (by simp [cells]) _ rfl
      rw [hr] at ht
      exact nullable_readsAt (NodeVisual.tree_written_ne_null t)
        (NodeVisual.tree_readsAt ht (by omega))
  simp only [Record.optional, present_record hd "root" (by simp [cells]) hroot,
    list_record hd "wires" d.wires (by simp [cells]) fun k _ w hw => wire_reads (hwires w hw) k,
    guarded_bind]
  simp only [cells, Cells.depth, Nat.max_le, ite_and]
  rfl

/-- A visual document is read back from its text unless it nests too deep. -/
theorem read?_text {d : VisualDocument} (hl : d.toJson.Legible) :
    read? d.text = if d.toJson.depth ≤ Json.levelLimit then some d else none := by
  rw [read?, Decoder.run?, text, Json.parse?_pretty, Option.bind_some]
  exact readsAt hl

end VisualDocument
end MessageGraph
