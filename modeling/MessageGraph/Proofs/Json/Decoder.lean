import MessageGraph.Json.Decoder
import MessageGraph.Proofs.Json.Text

/-!
# Decoders against what is written

A text limits how deep arrays and objects nest for whoever reads it, but nothing limits it for the
writer. So a decoder can be the inverse of a writer only up to that depth, and `Decoder.ReadsAt` says
just that: within the levels that are left the decoder gives back what was written, beyond them it
refuses the text.

* `value?_written`: plain values are read back so, if their integers have 64 bits and their reals are
  *legible*, that is, come back from their own text.
* `record_readsAt`: a record is read back if each of its fields is. Its fields are given as `Cells`, one
  for each name, which may be empty; an empty cell is left out of the object.
-/
namespace MessageGraph

open Json (Decoder Numeral)

/-! ## Numbers -/

namespace Binary64

deriving instance DecidableEq for Binary64

/-- A number that is read back from its own text. -/
def Legible (x : Binary64) : Prop :=
  (x.text?.bind fun text => Decoder.run? Decoder.real (String.ofList text)) = some x

variable {x : Binary64}

/-- Only the numeral matters, not that it is written and read. -/
theorem legible_iff : x.Legible ↔ x.numeral?.bind Numeral.real? = some x := by
  unfold Legible
  rw [text?_eq]
  cases hn : x.numeral? with
  | none => rfl
  | some n =>
    simp only [Option.map_some, Option.bind_some, Decoder.run?, Json.parse?_numeral (numeral?_sound hn).1]
    rfl

instance : Decidable x.Legible := decidable_of_iff _ legible_iff.symm

theorem Legible.exists_numeral (h : x.Legible) :
    ∃ n, x.numeral? = some n ∧ n.real? = some x ∧ n.isInteger = false := by
  obtain ⟨n, hn, hx⟩ := Option.bind_eq_some_iff.1 (legible_iff.1 h)
  exact ⟨n, hn, hx, (numeral?_sound hn).2⟩

end Binary64

namespace Json

/-! ## Measures of a value -/

mutual

/-- How many arrays and objects stand inside one another. -/
def depth : Json → Nat
  | array items => itemsDepth items + 1
  | object fields => fieldsDepth fields + 1
  | _ => 0

def itemsDepth : List Json → Nat
  | [] => 0
  | item :: items => max (depth item) (itemsDepth items)

def fieldsDepth : List (String × Json) → Nat
  | [] => 0
  | (_, value) :: fields => max (depth value) (fieldsDepth fields)

end

mutual

/-- Every real in a value. -/
def reals : Json → List Binary64
  | real x => [x]
  | array items => itemsReals items
  | object fields => fieldsReals fields
  | _ => []

def itemsReals : List Json → List Binary64
  | [] => []
  | item :: items => reals item ++ itemsReals items

def fieldsReals : List (String × Json) → List Binary64
  | [] => []
  | (_, value) :: fields => reals value ++ fieldsReals fields

end

/-- Whether all reals in a value are legible. -/
def Legible (v : Json) : Prop := ∀ x ∈ v.reals, x.Legible

instance (v : Json) : Decidable v.Legible :=
  inferInstanceAs (Decidable (∀ x ∈ v.reals, x.Legible))

theorem legible_array {items : List Json} :
    (array items).Legible ↔ ∀ item ∈ items, item.Legible := by
  unfold Legible
  rw [reals]
  induction items with
  | nil => simp [itemsReals]
  | cons item items ih => simp [itemsReals, or_imp, forall_and, ih]

theorem legible_real {x : Binary64} : (real x).Legible ↔ x.Legible := by
  simp [Legible, reals]

theorem legible_object {fields : List (String × Json)} :
    (object fields).Legible ↔ ∀ field ∈ fields, field.2.Legible := by
  unfold Legible
  rw [reals]
  induction fields with
  | nil => simp [fieldsReals]
  | cons field fields ih => simp [fieldsReals, or_imp, forall_and, ih]

/-! ## Plain values -/

theorem json?_ofInt {i : Int} (h : fitsInteger i = true) : (Numeral.ofInt i).json? = some (integer i) := by
  rw [Numeral.json?, Numeral.integer?_ofInt h]

theorem json?_of_real {n : Numeral} {x : Binary64} (hn : n.isInteger = false)
    (hx : n.real? = some x) : n.json? = some (real x) := by
  rw [Numeral.json?, Numeral.integer?, hn, hx]
  rfl

mutual

/-- A value comes back from its tree, if its nesting fits. -/
theorem value?_written (levels : Nat) : (v : Json) → v.isCanonical = true → v.Legible →
    Written.value? levels v.written = if v.depth ≤ levels then some v else none
  | .null, _, _ => rfl
  | .bool _, _, _ => rfl
  | .integer i, hc, _ => by
    simp only [isCanonical] at hc
    simp [written, Written.value?, json?_ofInt hc, depth]
  | .real x, _, hl => by
    obtain ⟨n, hn, hx, hi⟩ := (hl x (by simp [reals])).exists_numeral
    simp [written, hn, Written.value?, json?_of_real hi hx, depth]
  | .string _, _, _ => rfl
  | .array items, hc, hl => by
    cases levels with
    | zero => simp [written, Written.value?, depth]
    | succ levels =>
      have h := values?_written levels items hc (legible_array.1 hl)
      simp only [written, Written.value?, h, depth, Nat.add_le_add_iff_right]
      split <;> rfl
  | .object fields, hc, hl => by
    simp only [isCanonical, Bool.and_eq_true] at hc
    cases levels with
    | zero => simp [written, Written.value?, depth]
    | succ levels =>
      have h := fieldValues?_written levels fields hc.2 (legible_object.1 hl)
      simp only [written, Written.value?, h, depth, Nat.add_le_add_iff_right]
      split <;> rfl

theorem values?_written (levels : Nat) : (items : List Json) → allCanonical items = true →
    (∀ item ∈ items, item.Legible) → Written.values? levels (writtenItems items) =
      if itemsDepth items ≤ levels then some items else none
  | [], _, _ => rfl
  | item :: items, hc, hl => by
    simp only [allCanonical, Bool.and_eq_true] at hc
    have h := value?_written levels item hc.1 (hl item List.mem_cons_self)
    have ih := values?_written levels items hc.2 fun i hi => hl i (List.mem_cons_of_mem item hi)
    rw [writtenItems, Written.values?, h, ih, itemsDepth]
    simp only [Nat.max_le]
    by_cases h1 : item.depth ≤ levels <;> by_cases h2 : itemsDepth items ≤ levels <;> simp [h1, h2]

theorem fieldValues?_written (levels : Nat) : (fields : List (String × Json)) →
    fieldsCanonical fields = true → (∀ field ∈ fields, field.2.Legible) →
    Written.fieldValues? levels (writtenFields fields) =
      if fieldsDepth fields ≤ levels then some fields else none
  | [], _, _ => rfl
  | (key, value) :: fields, hc, hl => by
    simp only [fieldsCanonical, Bool.and_eq_true] at hc
    have h := value?_written levels value hc.1 (hl (key, value) List.mem_cons_self)
    have ih := fieldValues?_written levels fields hc.2 fun f hf => hl f (List.mem_cons_of_mem _ hf)
    rw [writtenFields, Written.fieldValues?.eq_def]
    simp only [h, ih, fieldsDepth, Nat.max_le]
    by_cases h1 : value.depth ≤ levels <;> by_cases h2 : fieldsDepth fields ≤ levels <;> simp [h1, h2]

end

theorem insertAbsent_of_startsAbove {key : String} {value : Json} {fields : List (String × Json)}
    (h : startsAbove key fields) : insertAbsent key value fields = (key, value) :: fields := by
  cases fields with
  | nil => rfl
  | cons field fields => rw [insertAbsent, if_pos (show key < field.1 from h)]

mutual

theorem canonical_of_isCanonical : (v : Json) → v.isCanonical = true → v.canonical = v
  | .null, _ => rfl
  | .bool _, _ => rfl
  | .integer i, h => by
    simp only [isCanonical] at h
    rw [canonical, if_pos h]
  | .real _, _ => rfl
  | .string _, _ => rfl
  | .array items, h => by rw [canonical, canonicalItems_of_allCanonical items h]
  | .object fields, h => by
    simp only [isCanonical, Bool.and_eq_true] at h
    rw [canonical, canonicalFields_of_isCanonical fields h.1 h.2]

theorem canonicalItems_of_allCanonical : (items : List Json) → allCanonical items = true →
    canonicalItems items = items
  | [], _ => rfl
  | item :: items, h => by
    simp only [allCanonical, Bool.and_eq_true] at h
    rw [canonicalItems, canonical_of_isCanonical item h.1, canonicalItems_of_allCanonical items h.2]

theorem canonicalFields_of_isCanonical : (fields : List (String × Json)) →
    increasing fields = true → fieldsCanonical fields = true → canonicalFields fields = fields
  | [], _, _ => rfl
  | (key, value) :: fields, hi, hc => by
    simp only [fieldsCanonical, Bool.and_eq_true] at hc
    have h := increasing_cons.1 hi
    rw [canonicalFields, canonical_of_isCanonical value hc.1,
      canonicalFields_of_isCanonical fields h.2 hc.2, insertAbsent_of_startsAbove h.1]

end

theorem ofFields_fields (s : Settings) : Settings.ofFields s.fields = s := by
  have h := s.canonical
  simp only [isCanonical, Bool.and_eq_true] at h
  obtain ⟨fields, _⟩ := s
  simp only [Settings.ofFields, canonicalFields_of_isCanonical fields h.1 h.2]

/-! ## Reading what was written -/

namespace Decoder

variable {α β : Type} {d : Decoder α} {levels : Nat}

/-- The decoder reads `a` from what `v` is written as, if the nesting of `v` fits the levels that are
left, and refuses it otherwise. -/
def ReadsAt (d : Decoder α) (levels : Nat) (v : Json) (a : α) : Prop :=
  d levels v.written = if v.depth ≤ levels then some a else none

/-- The same for any number of levels. -/
def Reads (d : Decoder α) (v : Json) (a : α) : Prop := ∀ levels, d.ReadsAt levels v a

theorem string_reads (s : String) : Decoder.string.Reads (.string s) s := fun _ => rfl

theorem bool_reads (b : Bool) : Decoder.bool.Reads (.bool b) b := fun _ => rfl

theorem natural_reads {bound n : Nat} (h : n < bound) : (natural bound).Reads (.integer n) n := by
  intro levels
  have hn : naturalOf (Numeral.ofInt n).whole = n := Numeral.naturalOf_ofInt n
  have hs : (Numeral.ofInt n).negative = false := by simp [Numeral.ofInt]
  simp [ReadsAt, written, natural, Numeral.isInteger_ofInt, hn, hs, h, depth]

theorem real_reads {x : Binary64} (h : x.Legible) : Decoder.real.Reads (.real x) x := by
  intro levels
  obtain ⟨n, hn, hx, -⟩ := h.exists_numeral
  simp [ReadsAt, written, hn, Decoder.real, hx, depth]

theorem keyword_reads {ofName? : String → Option α} {name : String} {a : α}
    (h : ofName? name = some a) : (keyword ofName?).Reads (.string name) a := by
  intro levels
  simp [ReadsAt, written, keyword, h, depth]

theorem nullable_readsAt {v : Json} {a : α} (hv : v.written ≠ .null) (h : d.ReadsAt levels v a) :
    (nullable d).ReadsAt levels v (some a) := by
  unfold ReadsAt at h ⊢
  rw [nullable, h]
  · split <;> rfl
  · exact hv

theorem list_readsAt {as : List α} {write : α → Json}
    (h : ∀ m, levels = m + 1 → ∀ a ∈ as, d.ReadsAt m (write a) a) :
    (list d).ReadsAt levels (.array (as.map write)) as := by
  cases levels with
  | zero => simp [ReadsAt, list, depth]
  | succ levels =>
    replace h := h levels rfl
    have hm : (writtenItems (as.map write)).mapM (d levels) =
        if itemsDepth (as.map write) ≤ levels then some as else none := by
      induction as with
      | nil => rfl
      | cons a as ih =>
        have ha := h a List.mem_cons_self
        unfold ReadsAt at ha
        rw [List.map_cons, writtenItems, List.mapM_cons, ha,
          ih fun b hb => h b (List.mem_cons_of_mem a hb), itemsDepth]
        simp only [Nat.max_le]
        by_cases h1 : (write a).depth ≤ levels <;>
          by_cases h2 : itemsDepth (as.map write) ≤ levels <;> simp [h1, h2]
    simp only [ReadsAt, written, list, hm, depth, Nat.add_le_add_iff_right]

theorem settings_readsAt (s : Settings) (h : s.toJson.Legible) :
    Decoder.settings.ReadsAt levels s.toJson s := by
  have hc := s.canonical
  simp only [isCanonical, Bool.and_eq_true] at hc
  cases levels with
  | zero => simp [ReadsAt, Settings.toJson, Decoder.settings, depth]
  | succ levels =>
    have hf := fieldValues?_written levels s.fields hc.2 (legible_object.1 h)
    simp only [ReadsAt, Settings.toJson, written, Decoder.settings, hf, depth,
      Nat.add_le_add_iff_right]
    split
    · simp [ofFields_fields]
    · rfl

end Decoder

/-! ## Records -/

/-- The fields that a record may have, in writing order. An empty cell is a field that is left out. -/
abbrev Cells := List (String × Option Json)

namespace Cells

/-- The fields that are written. -/
def present (cells : Cells) : List (String × Json) :=
  cells.filterMap fun cell => cell.2.map (cell.1, ·)

/-- How deep the written fields nest. -/
def depth : Cells → Nat
  | [] => 0
  | (_, value) :: cells => max (value.elim 0 Json.depth) (depth cells)

variable {cells : Cells}

theorem fieldsDepth_present (cells : Cells) : fieldsDepth cells.present = cells.depth := by
  induction cells with
  | nil => rfl
  | cons cell cells ih =>
    obtain ⟨name, value⟩ := cell
    cases value with
    | none => simpa [present, depth] using ih
    | some v => simpa [present, depth, fieldsDepth] using congrArg (max v.depth) ih

theorem le_depth {name : String} {value : Option Json} (hm : (name, value) ∈ cells) :
    value.elim 0 Json.depth ≤ cells.depth := by
  induction cells with
  | nil => cases hm
  | cons cell cells ih =>
    rcases List.mem_cons.1 hm with rfl | htail
    · exact Nat.le_max_left _ _
    · exact Nat.le_trans (ih htail) (Nat.le_max_right _ _)

theorem legible_present :
    (Json.object cells.present).Legible ↔ ∀ cell ∈ cells, ∀ v ∈ cell.2, v.Legible := by
  rw [legible_object]
  constructor
  · intro h cell hc v hv
    exact h (cell.1, v) (List.mem_filterMap.2 ⟨cell, hc, by rw [Option.mem_def.1 hv]; rfl⟩)
  · intro h field hf
    obtain ⟨cell, hc, he⟩ := List.mem_filterMap.1 hf
    obtain ⟨v, hv, rfl⟩ := Option.map_eq_some_iff.1 he
    exact h cell hc v hv

theorem keys_present (cells : Cells) :
    (cells.present.map (·.1)).Sublist (cells.map (·.1)) := by
  induction cells with
  | nil => exact .slnil
  | cons cell cells ih =>
    obtain ⟨name, value⟩ := cell
    cases value with
    | none => exact ih.cons name
    | some v => exact ih.cons_cons name

/-- The record of the written fields, as a decoder finds it. -/
def record (cells : Cells) (levels : Nat) : Decoder.Record :=
  ⟨levels, cells.present.map fun field => (field.1, field.2.written)⟩

theorem find?_record (hd : (cells.map (·.1)).Nodup) {name : String} {value : Option Json}
    (hm : (name, value) ∈ cells) (levels : Nat) :
    (cells.record levels).find? name = value.map Json.written := by
  have hnone : ∀ cells : Cells, name ∉ cells.map (·.1) →
      (cells.present.map fun field => (field.1, field.2.written)).find? (·.1 = name) = none := by
    intro cells hname
    rw [List.find?_eq_none]
    intro field hmem
    obtain ⟨f, hf, rfl⟩ := List.mem_map.1 hmem
    simp only [decide_eq_true_eq]
    rintro rfl
    exact hname ((keys_present cells).subset (List.mem_map_of_mem hf))
  unfold Decoder.Record.find? record
  induction cells with
  | nil => cases hm
  | cons cell cells ih =>
    rw [List.map_cons, List.nodup_cons] at hd
    rcases List.mem_cons.1 hm with rfl | htail
    · cases value with
      | none => exact congrArg (Option.map Prod.snd) (hnone cells hd.1)
      | some v => simp [present]
    · have hne : cell.1 ≠ name := fun he => hd.1 (he ▸ List.mem_map_of_mem htail)
      obtain ⟨key, other⟩ := cell
      cases other with
      | none => exact ih hd.2 htail
      | some v =>
        rw [← ih hd.2 htail]
        simp [present, hne]

end Cells

namespace Decoder

variable {α β : Type} {d : Decoder α} {levels : Nat} {cells : Cells} {a : α}

theorem required_record (hd : (cells.map (·.1)).Nodup) (name : String) {v : Json}
    (hm : (name, some v) ∈ cells) (h : d.ReadsAt levels v a) :
    (cells.record levels).required name d = if v.depth ≤ levels then some a else none := by
  rw [Record.required, Cells.find?_record hd hm]
  exact h

/-- A field that is left out is read as the default. -/
theorem withDefault_record (hd : (cells.map (·.1)).Nodup) (name : String) {value : Option Json}
    (hm : (name, value) ∈ cells) {default : α} (h0 : value = none → a = default)
    (h : ∀ v ∈ value, d.ReadsAt levels v a) :
    (cells.record levels).withDefault name default d =
      if value.elim 0 Json.depth ≤ levels then some a else none := by
  rw [Record.withDefault, Cells.find?_record hd hm]
  cases value with
  | none => simp [h0 rfl]
  | some v => exact h v rfl

/-- A field that has a default and is written all the same. -/
theorem present_record (hd : (cells.map (·.1)).Nodup) (name : String) {v : Json}
    (hm : (name, some v) ∈ cells) {default : α} (h : d.ReadsAt levels v a) :
    (cells.record levels).withDefault name default d =
      if v.depth ≤ levels then some a else none :=
  withDefault_record hd name hm (fun he => absurd he (Option.some_ne_none v)) fun _ hw =>
    Option.some.inj hw ▸ h

theorem optional_record (hd : (cells.map (·.1)).Nodup) (name : String) (x : Option α)
    {write : α → Json} (hm : (name, x.map write) ∈ cells) (hw : ∀ a, (write a).written ≠ .null)
    (h : ∀ a ∈ x, d.ReadsAt levels (write a) a) :
    (cells.record levels).optional name d =
      if (x.map write).elim 0 Json.depth ≤ levels then some x else none := by
  refine withDefault_record hd name hm (fun he => Option.map_eq_none_iff.1 he) fun v hv => ?_
  obtain ⟨a, rfl, rfl⟩ := Option.map_eq_some_iff.1 hv
  exact nullable_readsAt (hw a) (h a rfl)

theorem knownFields?_written {names : List String} {fields : List (String × Json)}
    (hn : ∀ field ∈ fields, field.1 ∈ names) (hd : (fields.map (·.1)).Nodup) :
    knownFields? names (writtenFields fields) =
      some (fields.map fun field => (field.1, field.2.written)) := by
  induction fields with
  | nil => rfl
  | cons field fields ih =>
    rw [List.map_cons, List.nodup_cons] at hd
    have hkey : names.contains field.1 = true := by simpa using hn field List.mem_cons_self
    have hany : (fields.map fun f => (f.1, f.2.written)).any (·.1 = field.1) = false := by
      rw [List.any_eq_false]
      intro field' hmem
      obtain ⟨f, hf, rfl⟩ := List.mem_map.1 hmem
      simp only [decide_eq_true_eq]
      intro he
      exact hd.1 (he ▸ List.mem_map_of_mem hf)
    obtain ⟨key, value⟩ := field
    rw [writtenFields, knownFields?, ih (fun f hf => hn f (List.mem_cons_of_mem _ hf)) hd.2]
    simp only [hkey, hany, if_true, Bool.false_eq_true, if_false, List.map_cons]

/-- A record is read back if it can be put together from its written fields. -/
theorem record_readsAt {make : Record → Option α} (hd : (cells.map (·.1)).Nodup)
    (h : ∀ m, levels = m + 1 →
      make (cells.record m) = if cells.depth ≤ m then some a else none) :
    (record (cells.map (·.1)) make).ReadsAt levels (.object cells.present) a := by
  cases levels with
  | zero => simp [ReadsAt, record, fields?, depth]
  | succ levels =>
    have hk := Cells.keys_present cells
    have hf := knownFields?_written (fun f hf => hk.subset (List.mem_map_of_mem hf)) (hk.nodup hd)
    simp only [ReadsAt, record, written, fields?, hf, Option.map_some, Option.bind_some, depth,
      Cells.fieldsDepth_present, Nat.add_le_add_iff_right]
    exact h levels rfl

/-- Conditions on the fields of a record, taken out of the steps that read them. -/
theorem guarded_bind {p : Prop} [Decidable p] {f : α → Option β} :
    ((if p then some a else none) >>= f) = if p then f a else none := by
  split <;> rfl

end Decoder

end Json
end MessageGraph
