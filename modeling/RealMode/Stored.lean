/-
**Stored state.** Machines, register files, configurations, fields and names are kept as JSON. A
record is an object or the array of its fields in order; keys it does not know are passed over, and
a key it knows stands at most once. A name is a string, or an object with that one key and `null`.

* `load?_save`: what is stored is read back from its text.
-/

import RealMode.Json.Written
import RealMode.Machine

namespace RealMode

open Json

/-- A type whose values can be stored as JSON. -/
class Stored (α : Type) where
  toValue : α → Value
  ofValue? : Value → Option α
  ofValue?_toValue : ∀ a, ofValue? (toValue a) = some a
  isKnown_toValue : ∀ a, (toValue a).isKnown

namespace Stored

/-- The stored text of a value. -/
def save {α : Type} [Stored α] (a : α) : String := (toValue a).compact

/-- The value of a stored text. -/
def load? (α : Type) [Stored α] (text : String) : Option α := (Value.ofText? text).bind ofValue?

/-- **What is stored is read back from its text.** -/
theorem load?_save {α : Type} [Stored α] (a : α) : load? α (save a) = some a := by
  rw [load?, save, Value.ofText?_compact (isKnown_toValue a), Option.bind_some, ofValue?_toValue]

/-! ### Names -/

/-- The value with some name. -/
def named? {α : Type} (all : List α) (name : α → String) (key : String) : Option α :=
  all.find? fun a => name a == key

/-- Reads a name. -/
def name? {α : Type} (all : List α) (name : α → String) : Value → Option α
  | .string (some key) => named? all name key
  | .object [(some key, .null)] => named? all name key
  | _ => none

theorem named?_name {α : Type} [DecidableEq α] {all : List α} {name : α → String}
    (different : all.Pairwise fun a b => name a ≠ name b) {a : α} (member : a ∈ all) :
    named? all name (name a) = some a := by
  induction all with
  | nil => cases member
  | cons first rest ih =>
    rw [List.pairwise_cons] at different
    rcases List.mem_cons.mp member with rfl | later
    · simp [named?]
    · have other : name first ≠ name a := different.1 a later
      have found := ih different.2 later
      unfold named? at found ⊢
      rw [List.find?_cons_of_neg (by simpa using other), found]

/-- Stores the values of a type by name. -/
@[reducible] def byName {α : Type} [DecidableEq α] (all : List α) (name : α → String)
    (complete : ∀ a, a ∈ all) (different : all.Pairwise fun a b => name a ≠ name b) : Stored α where
  toValue a := .text (name a)
  ofValue? := name? all name
  ofValue?_toValue a := named?_name different (complete a)
  isKnown_toValue _ := rfl

instance : Stored ErrorPolicy :=
  byName [.abort, .skip]
    (fun
      | .abort => "abort"
      | .skip => "skip")
    (fun policy => by cases policy <;> decide) (by decide)

instance : Stored Register :=
  byName Register.all Register.name Register.mem_all (by decide)

instance : Stored RegisterPart :=
  byName [.full, .low, .high]
    (fun
      | .full => "Full"
      | .low => "Low"
      | .high => "High")
    (fun part => by cases part <;> decide) (by decide)

instance : Stored Mnemonic :=
  byName Mnemonic.all Mnemonic.name Mnemonic.mem_all (by decide)

instance : Stored FieldKind :=
  byName [.literal, .d, .s, .w, .rm, .mode, .reg, .ext, .sr, .disp, .dataLow, .dataHigh, .addr]
    (fun
      | .literal => "Literal"
      | .d => "D"
      | .s => "S"
      | .w => "W"
      | .rm => "Rm"
      | .mode => "Mod"
      | .reg => "Reg"
      | .ext => "Extension"
      | .sr => "Sr"
      | .disp => "Disp"
      | .dataLow => "DataLo"
      | .dataHigh => "DataHi"
      | .addr => "Addr")
    (fun kind => by cases kind <;> decide) (by decide)

instance : Stored AddressBase :=
  byName AddressBase.all
    (fun
      | .bxSi => "BxSi"
      | .bxDi => "BxDi"
      | .bpSi => "BpSi"
      | .bpDi => "BpDi"
      | .si => "Si"
      | .di => "Di"
      | .bp => "Bp"
      | .bx => "Bx")
    (fun base => by cases base <;> decide) (by decide)

instance : Stored SegmentRegister :=
  byName SegmentRegister.all
    (fun
      | .es => "Es"
      | .cs => "Cs"
      | .ss => "Ss"
      | .ds => "Ds")
    (fun segment => by cases segment <;> decide) (by decide)

/-! ### Records -/

/-- The value of a key: absent, or there once. -/
def member? (members : List (Option String × Value)) (key : String) : Option (Option Value) :=
  match members.filter fun member => member.1 == some key with
  | [] => some none
  | [member] => some (some member.2)
  | _ => none

/-- The fields of a record in the order of its keys; those not written are absent. -/
def fields? (keys : List String) : Value → Option (List (Option Value))
  | .object members =>
    if members.all fun member => member.1.isSome then keys.mapM (member? members) else none
  | .array items =>
    if items.length ≤ keys.length then
      some (items.map some ++ List.replicate (keys.length - items.length) none)
    else none
  | _ => none

/-- Reads a field that must be there. -/
def required {α : Type} [Stored α] (field : Option Value) : Option α := field.bind ofValue?

/-- Reads a field that may be left out. -/
def optional {α : Type} [Stored α] (otherwise : α) : Option Value → Option α
  | none => some otherwise
  | some v => ofValue? v

instance : Stored Bool where
  toValue := .bool
  ofValue?
    | .bool b => some b
    | _ => none
  ofValue?_toValue _ := rfl
  isKnown_toValue _ := rfl

instance : Stored UInt8 where
  toValue b := .nat b.toNat
  ofValue?
    | .number (some n) => if n < 256 then some n.toUInt8 else none
    | _ => none
  ofValue?_toValue b := by
    simp [Value.nat, b.toNat_lt]
  isKnown_toValue _ := rfl

instance : Stored Config where
  toValue c := .record [("on_error", toValue c.onError), ("execute", toValue c.execute)]
  ofValue? v :=
    match fields? ["on_error", "execute"] v with
    | some [onError, execute] => do
      let onError ← optional .abort onError
      let execute ← optional true execute
      return { onError, execute }
    | _ => none
  ofValue?_toValue c := by
    simp [fields?, member?, Value.record, optional, ofValue?_toValue]
  isKnown_toValue c := by
    simp [Value.isKnown_record, isKnown_toValue]

instance : Stored Field where
  toValue f := .record
    [("kind", toValue f.kind), ("width", toValue f.width), ("value", toValue f.value)]
  ofValue? v :=
    match fields? ["kind", "width", "value"] v with
    | some [kind, width, value] => do
      let kind ← required kind
      let width ← required width
      let value ← required value
      return { kind, width, value }
    | _ => none
  ofValue?_toValue f := by
    simp [fields?, member?, Value.record, required, ofValue?_toValue]
  isKnown_toValue f := by
    simp [Value.isKnown_record, isKnown_toValue]

instance : Stored Storage where
  toValue s := .array [toValue s.low, toValue s.high]
  ofValue?
    | .array [low, high] => do
      let low ← ofValue? low
      let high ← ofValue? high
      return { low, high }
    | _ => none
  ofValue?_toValue s := by
    simp [ofValue?_toValue]
  isKnown_toValue s := by
    simp [Value.isKnown_array, isKnown_toValue]

/-- Eight words of storage. -/
def slots? (words : List Storage) : Option RegisterFile :=
  if eight : words.length = 8 then some ⟨⟨words.toArray, by simpa using eight⟩⟩ else none

theorem mapM_ofValue?_toValue {α : Type} [Stored α] (items : List α) :
    items.mapM (ofValue? (α := α) ∘ toValue) = some items := by
  induction items with
  | nil => rfl
  | cons item items ih => simp [ih, ofValue?_toValue]

instance : Stored RegisterFile where
  toValue f := .record [("slots", .array (f.slots.toList.map toValue))]
  ofValue? v :=
    match fields? ["slots"] v with
    | some [some (.array words)] => do
      let words ← words.mapM ofValue?
      slots? words
    | _ => none
  ofValue?_toValue := by
    rintro ⟨⟨slots, eight⟩⟩
    simp [fields?, member?, Value.record, mapM_ofValue?_toValue, slots?, eight]
  isKnown_toValue f := by
    simp [Value.isKnown_record, Value.isKnown_array, isKnown_toValue]

instance : Stored Machine where
  toValue m := .record [("regs", toValue m.registers), ("cfg", toValue m.config)]
  ofValue? v :=
    match fields? ["regs", "cfg"] v with
    | some [registers, config] => do
      let registers ← required registers
      let config ← required config
      return { registers, config }
    | _ => none
  ofValue?_toValue m := by
    simp [fields?, member?, Value.record, required, ofValue?_toValue]
  isKnown_toValue m := by
    simp [Value.isKnown_record, isKnown_toValue]

end Stored

end RealMode
