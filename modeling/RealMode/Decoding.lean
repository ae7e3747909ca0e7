/-
**Decoding: from bits to field values.** The byte under the reader chooses a format, whose fields
are read in order into the slots of a `Decoding`. What follows the r/m field depends on the mode,
and whether a high data byte is there depends on the width and sign bits.

* `pos_lt_of_decode`: a successful decoding moves the reader forward in the same stream.
* `advances_decode`: a failing one does not move it back.
-/

import RealMode.BitReader
import RealMode.Format

namespace RealMode

/-- What an operand of an instruction is. -/
inductive OperandKind
  | register
  | memory
  | immediate
  deriving DecidableEq

/-- The field values of one instruction. A slot is empty if no value was taken for it; the mode and
the r/m code fill those of an address or a displacement, also in a format without such a field. -/
structure Decoding where
  opcode : UInt8
  mnemonic : Mnemonic
  literals : List Field := []
  d : Option UInt8 := none
  s : Option UInt8 := none
  w : Option UInt8 := none
  mode : Option UInt8 := none
  reg : Option UInt8 := none
  ext : Option UInt8 := none
  rm : Option UInt8 := none
  sr : Option UInt8 := none
  dispLow : Option UInt8 := none
  dispHigh : Option UInt8 := none
  addrLow : Option UInt8 := none
  addrHigh : Option UInt8 := none
  dataLow : Option UInt8 := none
  dataHigh : Option UInt8 := none
  kinds : List OperandKind := []
  length : Nat := 0
  deriving DecidableEq

/-- The value of a field: the bits of its width, or what the format implies. -/
def Field.read (field : Field) : Reading UInt8 :=
  if field.width = 0 then pure field.value
  else do return (← BitReader.read field.width.toNat).toUInt8

namespace Decoding

open BitReader

/-- The operands are words. -/
def wide (op : Decoding) : Bool := op.w == some 1

/-- The r/m code that stands for a direct address under mode 0. -/
def directCode : UInt8 := 6

/-- The operations of the arithmetic group by their code. -/
def groupNames : List String := ["add", "or", "adc", "sbb", "and", "sub", "xor", "cmp"]

/-- The operation that an extension chooses in the arithmetic group. -/
def groupMember (opcode code : UInt8) : Reading Mnemonic :=
  if code = 0 then pure .add
  else if code = 5 then pure .sub
  else if code = 7 then pure .cmp
  else throw (.unimplemented opcode (groupNames.getD (code.toNat % 8) ""))

/-- Takes the two bytes of a direct address. -/
def readAddress (op : Decoding) : Reading Decoding := do
  let low ← readByte
  let high ← readByte
  return { op with addrLow := some low, addrHigh := some high }

/-- Takes what the mode says follows the r/m code. -/
def readAfterCode (op : Decoding) (code : UInt8) : Reading Decoding :=
  match op.mode with
  | none => throw (.addressing .modeAfterMemory)
  | some mode =>
    if mode = 0 ∧ code = directCode then op.readAddress
    else if mode = 1 then do
      let low ← readByte
      return { op with dispLow := some low }
    else if mode = 2 then do
      let low ← readByte
      let high ← readByte
      return { op with dispLow := some low, dispHigh := some high }
    else pure op

/-- Takes one field. -/
def readField (op : Decoding) (field : Field) : Reading Decoding :=
  match field.kind with
  | .literal => do
    let value ← field.read
    if value = field.value then return { op with literals := op.literals ++ [field] }
    else throw (.unknownOpcode op.opcode)
  | .d => do
    let value ← field.read
    return { op with d := some value }
  | .s => do
    let value ← field.read
    return { op with s := some value }
  | .w => do
    let value ← field.read
    return { op with w := some value }
  | .mode => do
    let value ← field.read
    return { op with mode := some value }
  | .reg => do
    let value ← field.read
    return { op with reg := some value }
  | .sr => do
    let value ← field.read
    return { op with sr := some value }
  | .ext => do
    let value ← field.read
    let mnemonic ← groupMember op.opcode value
    return { op with ext := some value, mnemonic }
  | .rm => do
    let value ← field.read
    readAfterCode { op with rm := some value } value
  | .disp => do
    let value ← field.read
    return { op with dispLow := some value }
  | .dataLow => do
    let value ← field.read
    return { op with dataLow := some value }
  | .dataHigh =>
    if op.wide ∧ op.s ≠ some 1 then do
      let high ← readByte
      return { op with dataHigh := some high }
    else pure op
  | .addr => op.readAddress

/-- The kinds of the operands in printed order, the destination first. -/
def operandKinds (op : Decoding) : List OperandKind :=
  if op.mnemonic.isJump then [.immediate]
  else
    let reg := if op.reg.isSome ∨ op.sr.isSome then some OperandKind.register else none
    let rm :=
      if op.rm.isSome then some (if op.mode = some 3 then OperandKind.register else .memory)
      else op.addrLow.map fun _ => .memory
    let data := op.dataLow.map fun _ => OperandKind.immediate
    match reg, rm, data with
    | _, some destination, some data => [destination, data]
    | some destination, none, some data => [destination, data]
    | some reg, some rm, none => if op.d = some 1 then [reg, rm] else [rm, reg]
    | reg, rm, data => reg.toList ++ rm.toList ++ data.toList

/-- Decodes the instruction under the reader. -/
def decode : Reading Decoding := fun r =>
  match r.peek? with
  | none => .error (.truncated r.offset) r
  | some opcode =>
    match Format.ofOpcode? opcode with
    | none => .error (.unknownOpcode opcode) r
    | some format =>
      if format.isStub then .error (.unimplemented opcode format.mnemonic.name) r
      else
        match format.fields.foldlM readField { opcode, mnemonic := format.mnemonic } r with
        | .error e r' => .error e r'
        | .ok op r' => .ok { op with kinds := op.operandKinds, length := r'.offset - r.offset } r'

/-! ### Decoding moves forward -/

theorem advances_fieldRead (field : Field) : Advances field.read := by
  unfold Field.read
  split
  · exact advances_pure _
  · exact advances_bind (advances_read _) fun n => advances_pure n.toUInt8

theorem advances_groupMember (opcode code : UInt8) : Advances (groupMember opcode code) := by
  unfold groupMember
  split
  · exact advances_pure _
  · split
    · exact advances_pure _
    · split
      · exact advances_pure _
      · exact advances_throw _

theorem advances_readAddress (op : Decoding) : Advances op.readAddress :=
  advances_bind advances_readByte fun _ => advances_bind advances_readByte fun _ => advances_pure _

theorem advances_readAfterCode (op : Decoding) (code : UInt8) :
    Advances (op.readAfterCode code) := by
  unfold readAfterCode
  split
  · exact advances_throw _
  · split
    · exact advances_readAddress op
    · split
      · exact advances_bind advances_readByte fun _ => advances_pure _
      · split
        · exact advances_bind advances_readByte fun _ =>
            advances_bind advances_readByte fun _ => advances_pure _
        · exact advances_pure op

theorem advances_readField (op : Decoding) (field : Field) : Advances (op.readField field) := by
  unfold readField
  split
  case h_1 =>
    refine advances_bind (advances_fieldRead field) fun value => ?_
    split
    · exact advances_pure _
    · exact advances_throw _
  case h_8 =>
    exact advances_bind (advances_fieldRead field) fun value =>
      advances_bind (advances_groupMember _ value) fun _ => advances_pure _
  case h_9 =>
    exact advances_bind (advances_fieldRead field) fun value => advances_readAfterCode _ value
  case h_12 =>
    split
    · exact advances_bind advances_readByte fun _ => advances_pure _
    · exact advances_pure op
  case h_13 => exact advances_readAddress op
  all_goals exact advances_bind (advances_fieldRead field) fun _ => advances_pure _

/-- A field moves the reader by its width, and one of width zero not at all. -/
theorem moves_of_fieldRead {field : Field} {value : UInt8} {r r' : BitReader}
    (result : field.read r = .ok value r') :
    r'.bytes = r.bytes ∧ r'.pos = r.pos + field.width.toNat := by
  unfold Field.read at result
  split at result
  · rename_i zero
    cases result
    exact ⟨rfl, by rw [zero]; rfl⟩
  · obtain ⟨n, middle, read, rest⟩ := of_bind_ok result
    cases rest
    exact moves_of_read read

/-- Fixed bits of positive width move the reader on. -/
theorem pos_lt_of_literal {op op' : Decoding} {field : Field} {r r' : BitReader}
    (kind : field.kind = .literal) (width : field.width ≠ 0)
    (result : op.readField field r = .ok op' r') : r.pos < r'.pos := by
  simp only [readField, kind] at result
  obtain ⟨value, middle, read, rest⟩ := of_bind_ok result
  have positive : 0 < field.width.toNat :=
    Nat.pos_of_ne_zero fun zero => width (UInt8.toNat_inj.mp zero)
  have moved := (moves_of_fieldRead read).2
  split at rest
  · cases rest
    omega
  · cases rest

theorem advances_decode : Advances decode := by
  intro r
  unfold decode
  split
  · exact ⟨rfl, Nat.le_refl _⟩
  · split
    · exact ⟨rfl, Nat.le_refl _⟩
    · rename_i opcode _ _ format _
      split
      · exact ⟨rfl, Nat.le_refl _⟩
      · have moved := advances_foldlM advances_readField format.fields
          { opcode, mnemonic := format.mnemonic } r
        split
        · rename_i result
          rw [result] at moved
          exact moved
        · rename_i result
          rw [result] at moved
          exact moved

/-- A successful decoding moves the reader forward. -/
theorem pos_lt_of_decode {op : Decoding} {r r' : BitReader} (result : decode r = .ok op r') :
    r.pos < r'.pos := by
  unfold decode at result
  split at result
  · cases result
  · rename_i opcode peeked
    split at result
    · cases result
    · rename_i format found
      split at result
      · cases result
      · rename_i notStub
        obtain ⟨field, rest, fields, kind, width⟩ :=
          (Format.ofOpcode?_leads found).resolve_left notStub
        rw [fields, List.foldlM_cons] at result
        split at result
        · cases result
        · rename_i walked
          cases result
          obtain ⟨op', middle, first, others⟩ := of_bind_ok walked
          have moved := advances_foldlM advances_readField rest op' middle
          rw [others] at moved
          exact Nat.lt_of_lt_of_le (pos_lt_of_literal kind width first) moved.2

end Decoding

end RealMode
