/-
**Instructions.** A decoding together with its place in the stream, its bytes and its operands, and
the line of assembly that it reads as.

* `pos_lt_of_read`: a successful reading moves the reader forward in the same stream.
-/

import RealMode.Addressing

namespace RealMode

/-- The line of assembly for an operation and its operands: the width of an immediate is written
only where the destination, being in memory, does not tell it. -/
def assemblyLine (mnemonic : Mnemonic) : List Operand → String
  | [] => mnemonic.name
  | [only] => mnemonic.name ++ " " ++ only.text
  | [.memory m, .immediate i] =>
    mnemonic.name ++ " " ++ m.text ++ ", " ++ i.width.name ++ " " ++ i.text
  | destination :: source :: _ =>
    mnemonic.name ++ " " ++ destination.text ++ ", " ++ source.text

/-- An instruction found at byte `offset` of a stream. -/
structure Instruction where
  offset : Nat
  bytes : Array UInt8
  decoding : Decoding
  operands : List Operand
  deriving DecidableEq

namespace Instruction

open BitReader

/-- The operation. -/
def mnemonic (i : Instruction) : Mnemonic := i.decoding.mnemonic

/-- The line of assembly. -/
def text (i : Instruction) : String := assemblyLine i.mnemonic i.operands

/-- Reads the instruction under the reader. -/
def read : Reading Instruction := fun r =>
  match Decoding.decode r with
  | .error e r' => .error e r'
  | .ok decoding r' =>
    match decoding.operands with
    | .error e => .error e r'
    | .ok operands =>
      let bytes := r'.bytes.extract r.offset (r.offset + decoding.length)
      .ok { offset := r.offset, bytes, decoding, operands } r'

/-! ### Reading moves forward -/

theorem advances_read : Advances read := by
  intro r
  have moved := Decoding.advances_decode r
  unfold read
  split
  · rename_i result
    rw [result] at moved
    exact moved
  · rename_i result
    rw [result] at moved
    split
    · exact moved
    · exact moved

/-- A successful reading moves the reader forward. -/
theorem pos_lt_of_read {i : Instruction} {r r' : BitReader} (result : read r = .ok i r') :
    r.pos < r'.pos := by
  unfold read at result
  split at result
  · cases result
  · rename_i decoded
    split at result
    · cases result
    · cases result
      exact Decoding.pos_lt_of_decode decoded

end Instruction

end RealMode
