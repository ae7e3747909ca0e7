/-
**Why an instruction cannot be decoded.** Each cause is a constructor; the wording is kept apart in
`DecodeError.message`.
-/

import RealMode.Numeral

namespace RealMode

/-- Field values that do not add up to operands. -/
inductive AddressingFault
  | jumpWithoutIncrement
  | registerWithoutWidth
  | memoryWithoutMode
  | missingDisplacement
  | missingDirection
  | notTwoOperands
  | modeAfterMemory
  deriving DecidableEq

/-- The wording of an addressing fault. -/
def AddressingFault.message : AddressingFault → String
  | .jumpWithoutIncrement => "jump without increment"
  | .registerWithoutWidth => "register named before W"
  | .memoryWithoutMode => "RM resolved before MOD"
  | .missingDisplacement => "displacement missing for MOD"
  | .missingDirection => "register and r/m operands without a direction bit"
  | .notTwoOperands => "fields do not form a two-operand instruction"
  | .modeAfterMemory => "RM walked before MOD"

/-- Why reading or resolving an instruction failed. -/
inductive DecodeError
  /-- No format starts with this byte, or a fixed bit of its format differs. -/
  | unknownOpcode (opcode : UInt8)
  /-- The byte starts a known operation whose encoding is not read. -/
  | unimplemented (opcode : UInt8) (operation : String)
  /-- The stream, `size` bytes long, ends inside an instruction. -/
  | truncated (size : Nat)
  /-- The fields do not add up to operands. -/
  | addressing (fault : AddressingFault)
  /-- A field of this width was asked for; only 1 to 16 bits can be read at once. -/
  | fieldWidth (width : Nat)
  /-- A register code past seven. -/
  | registerCode (code : UInt8)
  deriving DecidableEq

/-- The wording of a decode error. -/
def DecodeError.message : DecodeError → String
  | .unknownOpcode opcode =>
    "unknown opcode " ++ Numeral.marked 4 opcode.toNat ++
      " (" ++ Numeral.paddedText 2 8 opcode.toNat ++ ")"
  | .unimplemented opcode operation =>
    operation ++ " encoding " ++ Numeral.marked 4 opcode.toNat ++ " is not implemented"
  | .truncated size =>
    "stream ended at byte " ++ Numeral.decimal size ++ " in the middle of an instruction"
  | .addressing fault => "invalid addressing state: " ++ fault.message
  | .fieldWidth width => "field width " ++ Numeral.decimal width ++ " is not between 1 and 16"
  | .registerCode code => "register code " ++ Numeral.decimal code.toNat ++ " is past 7"

end RealMode
