/-
**Decoding does not fault.** A fault is a failure of the decoder and not of the stream: fields that
contradict each other, a read of more than sixteen bits, a code past the end of a table. From any
bit, the fields of every format are read without one.

* `Yields`: what a reading comes to where it succeeds, and that it does not fault where it fails; it
  is closed under sequencing.
* `yields_readField`: a field no wider than a read is read without fault, an r/m field once the mode
  is known.
* `isFault_of_decode`: a decoding that fails has met bits that are no instruction, or the end.
-/

import RealMode.Decoding

namespace RealMode

/-- The cause lies in the decoder and not in the stream. -/
def DecodeError.isFault : DecodeError → Bool
  | .addressing _ | .fieldWidth _ | .registerCode _ => true
  | .unknownOpcode _ | .unimplemented _ _ | .truncated _ => false

namespace BitReader

/-! ### Readings that do not fault -/

/-- Where the reading succeeds its value has the property, and where it fails it does not fault. -/
def Yields {α : Type} (reading : Reading α) (holds : α → Prop) : Prop :=
  ∀ r, match reading r with
    | .ok value _ => holds value
    | .error cause _ => cause.isFault = false

section Yields

variable {α β : Type} {reading : Reading α} {next : α → Reading β} {holds : α → Prop}
  {holds' : β → Prop}

theorem yields_pure {value : α} (held : holds value) : Yields (pure value) holds := fun _ => held

theorem yields_throw {cause : DecodeError} (sound : cause.isFault = false) :
    Yields (throw cause) holds := fun _ => sound

theorem Yields.bind (first : Yields reading holds)
    (rest : ∀ value, holds value → Yields (next value) holds') :
    Yields (reading >>= next) holds' := by
  intro r
  have sound := first r
  cases result : reading r with
  | ok value r' =>
    rw [result] at sound
    rw [bind_ok result]
    exact rest value sound r'
  | error cause r' =>
    rw [result] at sound
    rw [bind_error result]
    exact sound

theorem Yields.mono {weaker : α → Prop} (sound : Yields reading holds)
    (weaken : ∀ value, holds value → weaker value) : Yields reading weaker := by
  intro r
  have here := sound r
  cases result : reading r with
  | ok value r' =>
    rw [result] at here
    exact weaken value here
  | error cause r' =>
    rw [result] at here
    exact here

theorem yields_read {width : Nat} (positive : 1 ≤ width) (narrow : width ≤ 16) :
    Yields (read width) fun _ => True := by
  intro r
  by_cases fits : r.pos + width ≤ 8 * r.bytes.size
  · rw [read_ok positive narrow fits]
    trivial
  · rw [read_truncated positive narrow (by omega)]
    rfl

theorem yields_readByte : Yields readByte fun _ => True :=
  (yields_read (by decide) (by decide)).bind fun _ _ => yields_pure trivial

end Yields

end BitReader

namespace Decoding

open BitReader

/-! ### Fields that do not fault -/

section Field

variable {op : Decoding} {field : Field}

theorem yields_fieldRead (narrow : field.width.toNat ≤ 16) :
    Yields field.read fun _ => True := by
  unfold Field.read
  split
  · exact yields_pure trivial
  · rename_i some
    have positive : field.width.toNat ≠ 0 := fun zero => some (UInt8.toNat_inj.mp zero)
    exact (yields_read (by omega) narrow).bind fun _ _ => yields_pure trivial

theorem yields_groupMember (opcode code : UInt8) :
    Yields (groupMember opcode code) fun _ => True := by
  unfold groupMember
  split
  · exact yields_pure trivial
  split
  · exact yields_pure trivial
  split
  · exact yields_pure trivial
  · exact yields_throw rfl

theorem yields_readAddress (op : Decoding) : Yields op.readAddress fun op' => op'.mode = op.mode :=
  yields_readByte.bind fun _ _ => yields_readByte.bind fun _ _ => yields_pure rfl

theorem yields_readAfterCode (known : op.mode.isSome) (code : UInt8) :
    Yields (op.readAfterCode code) fun op' => op'.mode = op.mode := by
  unfold readAfterCode
  split
  · rename_i missing
    rw [missing] at known
    cases known
  split
  · exact yields_readAddress op
  split
  · exact yields_readByte.bind fun _ _ => yields_pure rfl
  split
  · exact yields_readByte.bind fun _ _ => yields_readByte.bind fun _ _ => yields_pure rfl
  · exact yields_pure rfl

theorem mode_kept {op' : Decoding} {kind : FieldKind} (other : kind ≠ .mode)
    (kept : op'.mode = op.mode) : op'.mode.isSome = (op.mode.isSome || kind == .mode) := by
  simp [kept, other]

/-- **A field is read without fault** if it is no wider than a read, and the mode is known before
the r/m field. -/
theorem yields_readField (narrow : field.width.toNat ≤ 16)
    (known : field.kind = .rm → op.mode.isSome) :
    Yields (op.readField field) fun op' =>
      op'.mode.isSome = (op.mode.isSome || field.kind == .mode) := by
  have value := yields_fieldRead narrow
  obtain ⟨kind, width, implied⟩ := field
  unfold readField
  cases kind
  case literal =>
    refine value.bind fun _ _ => ?_
    split
    · exact yields_pure (mode_kept nofun rfl)
    · exact yields_throw rfl
  case mode => exact value.bind fun _ _ => yields_pure (Bool.or_true _).symm
  case ext =>
    exact value.bind fun _ _ => (yields_groupMember _ _).bind fun _ _ =>
      yields_pure (mode_kept nofun rfl)
  case rm =>
    refine value.bind fun code _ => ?_
    have mode : ({ op with rm := some code } : Decoding).mode.isSome := known rfl
    exact (yields_readAfterCode mode code).mono fun _ kept => mode_kept nofun kept
  case dataHigh =>
    dsimp only
    split
    · exact yields_readByte.bind fun _ _ => yields_pure (mode_kept nofun rfl)
    · exact yields_pure (mode_kept nofun rfl)
  case addr => exact (yields_readAddress op).mono fun _ kept => mode_kept nofun kept
  all_goals exact value.bind fun _ _ => yields_pure (mode_kept nofun rfl)

/-- No field is wider than a read, and the mode stands before the r/m field unless it is `known`. -/
def readable : Bool → List Field → Bool
  | _, [] => true
  | known, field :: fields =>
    field.width.toNat ≤ 16 && (field.kind != .rm || known) &&
      readable (known || field.kind == .mode) fields

theorem table_readable : ∀ row ∈ Format.table, readable false row.format.fields := by decide

theorem yields_fields {fields : List Field} (fit : readable op.mode.isSome fields) :
    Yields (fields.foldlM readField op) fun _ => True := by
  induction fields generalizing op with
  | nil => exact yields_pure trivial
  | cons field fields ih =>
    simp only [readable, Bool.and_eq_true, Bool.or_eq_true, bne_iff_ne, decide_eq_true_eq] at fit
    obtain ⟨⟨narrow, known⟩, fit⟩ := fit
    rw [List.foldlM_cons]
    refine (yields_readField narrow known.neg_resolve_left).bind fun op' knows => ih ?_
    rw [knows]
    exact fit

end Field

/-! ### Decoding -/

/-- **A decoding does not fault**, from any bit of a stream. -/
theorem isFault_of_decode {r r' : BitReader} {cause : DecodeError}
    (result : decode r = .error cause r') : cause.isFault = false := by
  unfold decode at result
  split at result
  · cases result
    rfl
  split at result
  · cases result
    rfl
  rename_i opcode _ _ format found
  split at result
  · cases result
    rfl
  obtain ⟨row, member, rfl⟩ := Option.map_eq_some_iff.mp found
  have fit := table_readable row (List.mem_of_find?_eq_some member)
  have sound := @yields_fields { opcode, mnemonic := row.format.mnemonic } _ fit r
  split at result
  · rename_i failed
    rw [failed] at sound
    cases result
    exact sound
  · cases result

end Decoding

end RealMode
