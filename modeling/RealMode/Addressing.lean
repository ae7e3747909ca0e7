/-
**Addressing: from field values to operands.** A decoding names at most a register operand, a
register or memory operand and an immediate; they are put in order, the destination first. Values
that do not add up to operands are refused, and of several faults the one met first is reported:
the register operand is looked at before the r/m operand, and both before their order.

* `operands_length`: what is not a jump has two operands.
-/

import RealMode.Decoding
import RealMode.Operand
import RealMode.Word

namespace RealMode.Decoding

/-- The register that a code names in the width of the operation. -/
def namedRegister (op : Decoding) (code : UInt8) : Except DecodeError Operand :=
  match op.w with
  | none => .error (.addressing .registerWithoutWidth)
  | some w =>
    match Register.ofCode? (w == 1) code with
    | none => .error (.registerCode code)
    | some r => .ok (.register r)

/-- The register operand; a segment register goes before a general one. -/
def registerOperand (op : Decoding) : Except DecodeError (Option Operand) :=
  match op.sr, op.reg with
  | some sr, _ => .ok (some (.segment (.ofCode sr)))
  | none, some reg => (op.namedRegister reg).map some
  | none, none => .ok none

/-- The operand of an r/m code under a mode. -/
def codedOperand (op : Decoding) (code mode : UInt8) : Except DecodeError Operand :=
  match AddressBase.ofCode? code with
  | none => .error (.registerCode code)
  | some base =>
    if mode = 3 then op.namedRegister code
    else if mode = 0 then .ok (.memory (.based base 0))
    else if mode = 1 then
      match op.dispLow with
      | some low => .ok (.memory (.based base (Word.signExtend low)))
      | none => .error (.addressing .missingDisplacement)
    else if mode = 2 then
      match op.dispLow, op.dispHigh with
      | some low, some high => .ok (.memory (.based base (Word.signed low high)))
      | _, _ => .error (.addressing .missingDisplacement)
    else .error (.addressing .missingDisplacement)

/-- The register or memory operand; a direct address goes before an r/m code. -/
def memoryOperand (op : Decoding) : Except DecodeError (Option Operand) :=
  match op.addrLow, op.addrHigh with
  | some low, some high => .ok (some (.memory (.direct (Word.ofBytes low high))))
  | _, _ =>
    match op.rm, op.mode with
    | none, _ => .ok none
    | some _, none => .error (.addressing .memoryWithoutMode)
    | some code, some mode => (op.codedOperand code mode).map some

/-- The immediate; a single data byte is widened by its sign. -/
def immediate? (op : Decoding) : Option Immediate :=
  op.dataLow.map fun low =>
    { value := match op.dataHigh with
        | some high => Word.signed low high
        | none => Word.signExtend low
      width := if op.wide then .word else .byte }

/-- Puts the operands in order: an immediate comes last, and of two others the direction bit says
which is the destination. -/
def arrange (d : Option UInt8) : Option Operand → Option Operand → Option Immediate →
    Except DecodeError (List Operand)
  | _, some destination, some data => .ok [destination, .immediate data]
  | some destination, none, some data => .ok [destination, .immediate data]
  | some reg, some rm, none =>
    match d with
    | none => .error (.addressing .missingDirection)
    | some d => .ok (if d = 1 then [reg, rm] else [rm, reg])
  | _, _, _ => .error (.addressing .notTwoOperands)

/-- The operands in printed order, the destination first. -/
def operands (op : Decoding) : Except DecodeError (List Operand) :=
  if op.mnemonic.isJump then
    match op.dispLow with
    | none => .error (.addressing .jumpWithoutIncrement)
    | some increment => .ok [.relative increment.toInt8]
  else do
    let reg ← op.registerOperand
    let rm ← op.memoryOperand
    arrange op.d reg rm op.immediate?

/-! ### Number of operands -/

theorem arrange_length {d : Option UInt8} {reg rm : Option Operand} {data : Option Immediate}
    {items : List Operand} (result : arrange d reg rm data = .ok items) : items.length = 2 := by
  unfold arrange at result
  split at result
  · cases result; rfl
  · cases result; rfl
  · split at result
    · cases result
    · cases result
      split <;> rfl
  · cases result

theorem operands_length {op : Decoding} {items : List Operand} (other : op.mnemonic.isJump = false)
    (result : op.operands = .ok items) : items.length = 2 := by
  simp only [operands, other, Bool.false_eq_true, if_false, bind, Except.bind] at result
  split at result
  · cases result
  · split at result
    · cases result
    · exact arrange_length result

end RealMode.Decoding
