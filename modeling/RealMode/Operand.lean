/-
**Operands.** Registers, segment registers, memory references, immediates and jump increments, with
the way each is written.
-/

import RealMode.Numeral
import RealMode.Register

namespace RealMode

/-- A segment register. -/
inductive SegmentRegister
  | es
  | cs
  | ss
  | ds
  deriving DecidableEq

namespace SegmentRegister

/-- The segment registers in the order of their codes. -/
def all : List SegmentRegister := [es, cs, ss, ds]

/-- The written name. -/
def name : SegmentRegister → String
  | es => "es"
  | cs => "cs"
  | ss => "ss"
  | ds => "ds"

/-- The segment register that the low two bits of a code name. -/
def ofCode (code : UInt8) : SegmentRegister :=
  if code % 4 = 0 then es
  else if code % 4 = 1 then cs
  else if code % 4 = 2 then ss
  else ds

theorem mem_all (s : SegmentRegister) : s ∈ all := by
  cases s <;> decide

end SegmentRegister

/-- The registers whose sum an effective address starts from. -/
inductive AddressBase
  | bxSi
  | bxDi
  | bpSi
  | bpDi
  | si
  | di
  | bp
  | bx
  deriving DecidableEq

namespace AddressBase

/-- The bases in the order of their codes. -/
def all : List AddressBase := [bxSi, bxDi, bpSi, bpDi, si, di, bp, bx]

/-- The written form. -/
def name : AddressBase → String
  | bxSi => "bx + si"
  | bxDi => "bx + di"
  | bpSi => "bp + si"
  | bpDi => "bp + di"
  | si => "si"
  | di => "di"
  | bp => "bp"
  | bx => "bx"

/-- The base that a three-bit code names. -/
def ofCode? (code : UInt8) : Option AddressBase := all[code.toNat]?

theorem mem_all (base : AddressBase) : base ∈ all := by
  cases base <;> decide

end AddressBase

/-- A place in memory. -/
inductive MemoryRef
  /-- A base with a signed displacement. -/
  | based (base : AddressBase) (displacement : Int16)
  /-- An address by itself. -/
  | direct (address : UInt16)
  deriving DecidableEq

/-- The written form: the sign of a displacement stands between blanks, and zero is left out. -/
def MemoryRef.text : MemoryRef → String
  | .direct address => "[" ++ Numeral.decimal address.toNat ++ "]"
  | .based base displacement =>
    if displacement = 0 then "[" ++ base.name ++ "]"
    else if displacement < 0 then
      "[" ++ base.name ++ " - " ++ Numeral.decimal displacement.toInt.natAbs ++ "]"
    else "[" ++ base.name ++ " + " ++ Numeral.decimal displacement.toInt.natAbs ++ "]"

/-- The width of an immediate. -/
inductive DataWidth
  | byte
  | word
  deriving DecidableEq

/-- The written name. -/
def DataWidth.name : DataWidth → String
  | .byte => "byte"
  | .word => "word"

/-- A signed constant with the width of the operation that it takes part in. -/
structure Immediate where
  value : Int16
  width : DataWidth
  deriving DecidableEq

/-- The written form of the constant, without its width. -/
def Immediate.text (i : Immediate) : String := Numeral.signed i.value.toInt

/-- An operand of an instruction. -/
inductive Operand
  | register (r : Register)
  | segment (s : SegmentRegister)
  | memory (m : MemoryRef)
  | immediate (i : Immediate)
  /-- What a jump adds to the instruction pointer. -/
  | relative (increment : Int8)
  deriving DecidableEq

namespace Operand

/-- Whether the operand is in memory. -/
def isMemory : Operand → Bool
  | memory _ => true
  | register _ | segment _ | immediate _ | relative _ => false

/-- The written form. -/
def text : Operand → String
  | register r => r.name
  | segment s => s.name
  | memory m => m.text
  | immediate i => i.text
  | relative increment => Numeral.signed increment.toInt

end Operand

end RealMode
