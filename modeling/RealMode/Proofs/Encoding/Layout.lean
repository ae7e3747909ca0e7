/-
**The layout of the encodings.** What follows the first byte of each kind of instruction, written
out byte by byte: the ModRM byte with its address or displacement, addresses, data, increments, and
the slots that they fill.

* `ofBytes_eq_spelled`: decoding is the first byte followed by the layout that it announces.
-/

import RealMode.Proofs.Encoding.Opening

namespace RealMode.Encoding

open ByteReading Decoding

/-- The operation of the arithmetic group under a code, where it is read. -/
def groupOperation? (code : UInt8) : Option Mnemonic :=
  if code = 0 then some .add
  else if code = 5 then some .sub
  else if code = 7 then some .cmp
  else none

/-- The slots that a ModRM byte fills. -/
def withModRM (op : Decoding) (m : UInt8) : Opening → Decoding
  | .moveRegister => { op with mode := some (mode m), reg := some (reg m), rm := some (rm m) }
  | .moveSegment =>
    { op with
      literals := op.literals ++ [.literal 0 1], mode := some (mode m), sr := some (sr m)
      rm := some (rm m) }
  | .moveImmediate =>
    { op with
      literals := op.literals ++ [.literal 0 3], mode := some (mode m), rm := some (rm m) }
  | .arithmetic =>
    { op with
      mnemonic := (groupOperation? (reg m)).getD .immed, mode := some (mode m)
      ext := some (reg m), rm := some (rm m) }
  | _ => op

/-- A second data byte follows the first. -/
def twoData (op : Decoding) : Bool := op.wide ∧ op.s ≠ some 1

/-- One or two data bytes. -/
def fillData (op : Decoding) : ByteReading Decoding :=
  .next fun low =>
    if twoData op then
      .next fun high => .done { op with dataLow := some low, dataHigh := some high }
    else .done { op with dataLow := some low }

/-- The slots that the first byte fills. -/
def lead (b : UInt8) : Opening → Decoding
  | .unknown => { opcode := b, mnemonic := .immed }
  | .unread operation => { opcode := b, mnemonic := operation }
  | .moveRegister =>
    { opcode := b, mnemonic := .mov, literals := [.literal 0b100010 6]
      d := some (dBit b), w := some (wBit b) }
  | .moveSegment =>
    { opcode := b, mnemonic := .mov, literals := [.literal 0b100011 6, .literal 0 1]
      d := some (dBit b) }
  | .moveImmediate =>
    { opcode := b, mnemonic := .mov, literals := [.literal 0b1100011 7], w := some (wBit b) }
  | .moveAccumulator =>
    { opcode := b, mnemonic := .mov
      literals := [.literal (if b ≤ 0xA1 then 0b1010000 else 0b1010001) 7], w := some (wBit b) }
  | .moveRegisterImmediate =>
    { opcode := b, mnemonic := .mov, literals := [.literal 0b1011 4]
      w := some (upperWBit b), reg := some (rm b) }
  | .arithmetic =>
    { opcode := b, mnemonic := .immed, literals := [.literal 0b100000 6]
      s := some (dBit b), w := some (wBit b) }
  | .accumulator operation =>
    { opcode := b, mnemonic := operation, literals := [.literal (b >>> 1) 7], w := some (wBit b) }
  | .jump operation => { opcode := b, mnemonic := operation, literals := [.literal b 8] }

/-- What follows the first byte. -/
def layout (b : UInt8) (op : Decoding) : Opening → ByteReading Decoding
  | .unknown => .refuse (.opcode b)
  | .unread operation => .refuse (.operation b operation.name)
  | .moveRegister => .next fun m => fillAfterCode (withModRM op m .moveRegister) (rm m)
  | .moveSegment =>
    .next fun m =>
      if aboveSr m = 0 then
        (fillAfterCode (withModRM op m .moveSegment) (rm m)).bind fun op =>
          .done { op with w := some 1 }
      else .refuse (.opcode b)
  | .moveImmediate =>
    .next fun m =>
      if reg m = 0 then
        ((fillAfterCode (withModRM op m .moveImmediate) (rm m)).bind fun op =>
            fillData op).bind fun op =>
          .done { op with d := some 0 }
      else .refuse (.opcode b)
  | .moveAccumulator =>
    op.fillAddress.bind fun op =>
      .done { op with d := some (if b ≤ 0xA1 then 1 else 0), reg := some 0 }
  | .moveRegisterImmediate => (fillData op).bind fun op => .done { op with d := some 1 }
  | .arithmetic =>
    .next fun m =>
      if (groupOperation? (reg m)).isSome then
        (fillAfterCode (withModRM op m .arithmetic) (rm m)).bind fun op => fillData op
      else .refuse (.operation b (groupNames.getD (reg m).toNat ""))
  | .accumulator _ =>
    (fillData op).bind fun op => .done { op with d := some 1, reg := some 0 }
  | .jump _ => .next fun increment => .done { op with dispLow := some increment }

/-! ### The layouts are what the formats say -/

theorem reading_eq_walk {b : UInt8} {format : Format}
    (found : (opening b).format? b = some format) (read : format.isStub = false) :
    reading b = (walk format.fields { opcode := b, mnemonic := format.mnemonic } 0 0).measured
      finish := by
  rw [reading, ofOpcode?_eq, found]
  dsimp only
  rw [read]
  rfl

section Walk

variable {b : UInt8} (rest : List UInt8)

attribute [local simp] walk run fill Field.takesBits ByteReading.bind bind_done bind_ite
  ByteReading.bind_assoc Nat.mod_one wide twoData fillData withModRM lead layout
  Field.literal Field.implied Field.d Field.s Field.w Field.mode Field.reg Field.ext Field.rm
  Field.sr Field.disp Field.dataLow Field.dataHigh Field.addr
  ofNat_wBit ofNat_dBit ofNat_upperWBit ofNat_mode ofNat_reg ofNat_rm ofNat_sr ofNat_aboveSr

theorem walk_movRegister (fixed : (Opening.moveRegister).fixed b) :
    (walk Format.movRegister.fields { opcode := b, mnemonic := .mov } 0 0).run (b :: rest) =
      (layout b (lead b .moveRegister) .moveRegister).run rest := by
  simp only [Opening.fixed, decide_eq_true_eq] at fixed
  simp [Format.movRegister, fixed]

theorem walk_movSegment (fixed : (Opening.moveSegment).fixed b) :
    (walk Format.movSegment.fields { opcode := b, mnemonic := .mov } 0 0).run (b :: rest) =
      (layout b (lead b .moveSegment) .moveSegment).run rest := by
  simp only [Opening.fixed, decide_eq_true_eq] at fixed
  simp [Format.movSegment, fixed]

theorem walk_movImmediate (fixed : (Opening.moveImmediate).fixed b) :
    (walk Format.movImmediate.fields { opcode := b, mnemonic := .mov } 0 0).run (b :: rest) =
      (layout b (lead b .moveImmediate) .moveImmediate).run rest := by
  simp only [Opening.fixed, decide_eq_true_eq] at fixed
  simp [Format.movImmediate, fixed]

theorem walk_movRegisterImmediate (fixed : (Opening.moveRegisterImmediate).fixed b) :
    (walk Format.movRegisterImmediate.fields { opcode := b, mnemonic := .mov } 0 0).run
        (b :: rest) =
      (layout b (lead b .moveRegisterImmediate) .moveRegisterImmediate).run rest := by
  simp only [Opening.fixed, decide_eq_true_eq] at fixed
  simp [Format.movRegisterImmediate, fixed]

theorem walk_arithmeticImmediate (fixed : (Opening.arithmetic).fixed b) :
    (walk Format.arithmeticImmediate.fields { opcode := b, mnemonic := .immed } 0 0).run
        (b :: rest) =
      (layout b (lead b .arithmetic) .arithmetic).run rest := by
  simp only [Opening.fixed, decide_eq_true_eq] at fixed
  cases rest with
  | nil => simp [Format.arithmeticImmediate, fixed]
  | cons m rest =>
    by_cases add : reg m = 0
    · simp [Format.arithmeticImmediate, fixed, groupOperation?, add]
    · by_cases sub : reg m = 5
      · simp [Format.arithmeticImmediate, fixed, groupOperation?, sub]
      · by_cases cmp : reg m = 7
        · simp [Format.arithmeticImmediate, fixed, groupOperation?, cmp]
        · simp [Format.arithmeticImmediate, fixed, groupOperation?, add, sub, cmp,
            Nat.mod_eq_of_lt (reg_lt m)]

theorem walk_movAccumulator (fixed : (Opening.moveAccumulator).fixed b) :
    (walk (if b ≤ 0xA1 then Format.movToAccumulator else .movFromAccumulator).fields
        { opcode := b, mnemonic := .mov } 0 0).run (b :: rest) =
      (layout b (lead b .moveAccumulator) .moveAccumulator).run rest := by
  simp only [Opening.fixed, decide_eq_true_eq] at fixed
  by_cases toAccumulator : b ≤ 0xA1
  · rw [if_pos toAccumulator] at fixed ⊢
    simp [Format.movToAccumulator, fixed, toAccumulator]
  · rw [if_neg toAccumulator] at fixed ⊢
    simp [Format.movFromAccumulator, fixed, toAccumulator]

theorem walk_arithmeticAccumulator (operation : Mnemonic) :
    (walk (Format.arithmeticAccumulator operation (b >>> 1)).fields
        { opcode := b, mnemonic := operation } 0 0).run (b :: rest) =
      (layout b (lead b (.accumulator operation)) (.accumulator operation)).run rest := by
  simp [Format.arithmeticAccumulator, ofNat_half]

theorem walk_shortJump (operation : Mnemonic) :
    (walk (Format.shortJump operation b).fields { opcode := b, mnemonic := operation } 0 0).run
        (b :: rest) =
      (layout b (lead b (.jump operation)) (.jump operation)).run rest := by
  simp [Format.shortJump]

end Walk

/-- What decoding comes to, told by the opening and its layout. -/
def spelled : List UInt8 → Outcome Decoding
  | [] => .ended
  | b :: rest =>
    ((layout b (lead b (opening b)) (opening b)).measured fun count => finish (count + 1)).run rest

theorem run_measured_of_run {walked layout : ByteReading Decoding} {b : UInt8} {rest : List UInt8}
    (same : walked.run (b :: rest) = layout.run rest) :
    (walked.measured finish).run (b :: rest) =
      (layout.measured fun count => finish (count + 1)).run rest := by
  rw [run_measured, run_measured, same]
  cases result : layout.run rest with
  | refused refusal => rfl
  | ended => rfl
  | taken op left =>
    obtain ⟨used, rfl⟩ := split_of_run result
    simp only [List.length_cons, List.length_append]
    rw [show used.length + left.length + 1 - left.length =
      used.length + left.length - left.length + 1 by omega]

/-- **Decoding is the first byte followed by the layout that it announces.** -/
theorem ofBytes_eq_spelled (bytes : List UInt8) : ofBytes bytes = spelled bytes := by
  cases bytes with
  | nil => rfl
  | cons b rest =>
    have fixed := opening_fixed b
    rw [ofBytes, spelled]
    cases kind : opening b with
    | unknown =>
      rw [reading, ofOpcode?_eq, kind]
      rfl
    | unread operation =>
      rw [reading, ofOpcode?_eq, kind]
      rfl
    | moveRegister =>
      rw [kind] at fixed
      rw [reading_eq_walk (by rw [kind]; rfl) rfl]
      exact run_measured_of_run (walk_movRegister rest fixed)
    | moveSegment =>
      rw [kind] at fixed
      rw [reading_eq_walk (by rw [kind]; rfl) rfl]
      exact run_measured_of_run (walk_movSegment rest fixed)
    | moveImmediate =>
      rw [kind] at fixed
      rw [reading_eq_walk (by rw [kind]; rfl) rfl]
      exact run_measured_of_run (walk_movImmediate rest fixed)
    | moveAccumulator =>
      rw [kind] at fixed
      have mov :
          (if b ≤ 0xA1 then Format.movToAccumulator else .movFromAccumulator).mnemonic = .mov := by
        split <;> rfl
      rw [reading_eq_walk (by rw [kind]; rfl) (by split <;> rfl), mov]
      exact run_measured_of_run (walk_movAccumulator rest fixed)
    | moveRegisterImmediate =>
      rw [kind] at fixed
      rw [reading_eq_walk (by rw [kind]; rfl) rfl]
      exact run_measured_of_run (walk_movRegisterImmediate rest fixed)
    | arithmetic =>
      rw [kind] at fixed
      rw [reading_eq_walk (by rw [kind]; rfl) rfl]
      exact run_measured_of_run (walk_arithmeticImmediate rest fixed)
    | accumulator operation =>
      rw [reading_eq_walk (by rw [kind]; rfl) rfl]
      exact run_measured_of_run (walk_arithmeticAccumulator rest operation)
    | jump operation =>
      rw [reading_eq_walk (by rw [kind]; rfl) rfl]
      exact run_measured_of_run (walk_shortJump rest operation)

end RealMode.Encoding
