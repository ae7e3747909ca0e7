/-
**Instruction formats.** A format is the list of bit fields of an encoding, in the order in which
they stand in the stream; the first byte of an instruction chooses the format.

* `ofOpcode?_leads`: a format that is read starts with fixed bits, so reading it takes at least
  one bit.
-/

import RealMode.Mnemonic

namespace RealMode

/-- What a bit field says; the names are those of the processor's manual. -/
inductive FieldKind
  /-- Fixed bits. -/
  | literal
  /-- Whether the register operand is the destination. -/
  | d
  /-- Whether a data byte is widened by its sign. -/
  | s
  /-- Whether the operands are words. -/
  | w
  /-- The register or memory operand; an address or a displacement may follow it. -/
  | rm
  /-- How the register or memory operand is addressed. -/
  | mode
  /-- The code of a register. -/
  | reg
  /-- Which operation of a group is meant. -/
  | ext
  /-- The code of a segment register. -/
  | sr
  /-- The increment of a jump. -/
  | disp
  /-- The low data byte. -/
  | dataLow
  /-- The high data byte; it stands only in a word form whose data byte is not widened. -/
  | dataHigh
  /-- A direct address of two bytes. -/
  | addr
  deriving DecidableEq

/-- A bit field; one of width zero takes no bits and has the stated value. -/
structure Field where
  kind : FieldKind
  width : UInt8
  value : UInt8
  deriving DecidableEq

namespace Field

/-- Fixed bits. -/
def literal (value width : UInt8) : Field := ⟨.literal, width, value⟩

/-- A value that the format implies. -/
def implied (kind : FieldKind) (value : UInt8) : Field := ⟨kind, 0, value⟩

/-! ### The fields that take bits -/

def d : Field := ⟨.d, 1, 0⟩

def s : Field := ⟨.s, 1, 0⟩

def w : Field := ⟨.w, 1, 0⟩

def mode : Field := ⟨.mode, 2, 0⟩

def reg : Field := ⟨.reg, 3, 0⟩

def ext : Field := ⟨.ext, 3, 0⟩

def rm : Field := ⟨.rm, 3, 0⟩

def sr : Field := ⟨.sr, 2, 0⟩

def disp : Field := ⟨.disp, 8, 0⟩

def dataLow : Field := ⟨.dataLow, 8, 0⟩

def dataHigh : Field := ⟨.dataHigh, 8, 0⟩

def addr : Field := ⟨.addr, 16, 0⟩

end Field

/-- How the instructions that start with some byte are laid out. -/
structure Format where
  mnemonic : Mnemonic
  fields : List Field
  deriving DecidableEq

/-- The formats of all opcodes from `first` to `last`. -/
structure OpcodeRange where
  first : UInt8
  last : UInt8
  format : Format

namespace Format

/-- A known operation whose encoding is not read. -/
def isStub (f : Format) : Bool := f.fields.isEmpty

def stub (mnemonic : Mnemonic) : Format := ⟨mnemonic, []⟩

/-- `mov` between a register and a register or memory operand. -/
def movRegister : Format :=
  ⟨.mov, [.literal 0b100010 6, .d, .w, .mode, .reg, .rm]⟩

/-- `mov` between a segment register and a register or memory operand. -/
def movSegment : Format :=
  ⟨.mov, [.literal 0b100011 6, .d, .literal 0 1, .mode, .literal 0 1, .sr, .rm, .implied .w 1]⟩

/-- `mov` of an immediate into a register. -/
def movRegisterImmediate : Format :=
  ⟨.mov, [.literal 0b1011 4, .w, .reg, .dataLow, .dataHigh, .implied .d 1]⟩

/-- `mov` of an immediate into a register or memory operand. -/
def movImmediate : Format :=
  ⟨.mov, [.literal 0b1100011 7, .w, .mode, .literal 0 3, .rm, .dataLow, .dataHigh, .implied .d 0]⟩

/-- `mov` from a direct address into the accumulator. -/
def movToAccumulator : Format :=
  ⟨.mov, [.literal 0b1010000 7, .w, .addr, .implied .d 1, .implied .reg 0]⟩

/-- `mov` from the accumulator to a direct address. -/
def movFromAccumulator : Format :=
  ⟨.mov, [.literal 0b1010001 7, .w, .addr, .implied .d 0, .implied .reg 0]⟩

/-- Arithmetic with an immediate on a register or memory operand. -/
def arithmeticImmediate : Format :=
  ⟨.immed, [.literal 0b100000 6, .s, .w, .mode, .ext, .rm, .dataLow, .dataHigh]⟩

/-- Arithmetic with an immediate on the accumulator. -/
def arithmeticAccumulator (mnemonic : Mnemonic) (code : UInt8) : Format :=
  ⟨mnemonic, [.literal code 7, .w, .dataLow, .dataHigh, .implied .d 1, .implied .reg 0]⟩

def shortJump (mnemonic : Mnemonic) (code : UInt8) : Format :=
  ⟨mnemonic, [.literal code 8, .disp]⟩

def shortJumpRow (mnemonic : Mnemonic) (code : UInt8) : OpcodeRange :=
  ⟨code, code, shortJump mnemonic code⟩

/-- The formats by the first byte of the instruction. -/
def table : List OpcodeRange := [
  ⟨0x00, 0x03, stub .add⟩,
  ⟨0x04, 0x05, arithmeticAccumulator .add 0b0000010⟩,
  ⟨0x28, 0x2B, stub .sub⟩,
  ⟨0x2C, 0x2D, arithmeticAccumulator .sub 0b0010110⟩,
  ⟨0x38, 0x3B, stub .cmp⟩,
  ⟨0x3C, 0x3D, arithmeticAccumulator .cmp 0b0011110⟩,
  shortJumpRow .jo 0x70,
  shortJumpRow .jno 0x71,
  shortJumpRow .jb 0x72,
  shortJumpRow .jnb 0x73,
  shortJumpRow .je 0x74,
  shortJumpRow .jne 0x75,
  shortJumpRow .jbe 0x76,
  shortJumpRow .jnbe 0x77,
  shortJumpRow .js 0x78,
  shortJumpRow .jns 0x79,
  shortJumpRow .jp 0x7A,
  shortJumpRow .jnp 0x7B,
  shortJumpRow .jl 0x7C,
  shortJumpRow .jnl 0x7D,
  shortJumpRow .jle 0x7E,
  shortJumpRow .jnle 0x7F,
  ⟨0x80, 0x83, arithmeticImmediate⟩,
  ⟨0x88, 0x8B, movRegister⟩,
  ⟨0x8C, 0x8C, movSegment⟩,
  ⟨0x8E, 0x8E, movSegment⟩,
  ⟨0xA0, 0xA1, movToAccumulator⟩,
  ⟨0xA2, 0xA3, movFromAccumulator⟩,
  ⟨0xB0, 0xBF, movRegisterImmediate⟩,
  ⟨0xC6, 0xC7, movImmediate⟩,
  ⟨0xE0, 0xE0, stub .loopnz⟩,
  ⟨0xE1, 0xE1, stub .loopz⟩,
  ⟨0xE2, 0xE2, stub .loop⟩,
  shortJumpRow .jcxz 0xE3,
  ⟨0xE9, 0xE9, stub .jmp⟩,
  ⟨0xEB, 0xEB, stub .jmp⟩]

/-- The format of the instructions that start with `opcode`. -/
def ofOpcode? (opcode : UInt8) : Option Format :=
  (table.find? fun row => row.first ≤ opcode && opcode ≤ row.last).map (·.format)

/-! ### The first field -/

/-- A format that is not read, or one that starts with fixed bits. -/
def Leads (f : Format) : Prop :=
  f.isStub ∨ ∃ field rest, f.fields = field :: rest ∧ field.kind = .literal ∧ field.width ≠ 0

theorem leads_of_head {f : Format} {field : Field} (head : f.fields.head? = some field)
    (kind : field.kind = .literal) (width : field.width ≠ 0) : f.Leads := by
  obtain ⟨rest, fields⟩ := List.head?_eq_some_iff.mp head
  exact .inr ⟨field, rest, fields, kind, width⟩

theorem table_leads : ∀ row ∈ table, row.format.Leads := by
  have checked : ∀ row ∈ table, row.format.isStub ∨
      ∃ field ∈ row.format.fields.head?, field.kind = .literal ∧ field.width ≠ 0 := by decide
  intro row member
  rcases checked row member with stub | ⟨field, head, kind, width⟩
  · exact .inl stub
  · exact leads_of_head head kind width

theorem ofOpcode?_leads {opcode : UInt8} {f : Format} (found : ofOpcode? opcode = some f) :
    f.Leads := by
  obtain ⟨row, member, rfl⟩ := Option.map_eq_some_iff.mp found
  exact table_leads row (List.mem_of_find?_eq_some member)

end Format

end RealMode
