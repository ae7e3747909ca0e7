/-
**What the first byte announces.** The first byte of an instruction says what follows it: a ModRM
byte with its address or displacement, an address, data, or an increment. Here this is told by
ranges of bytes and shifts of bits alone.

* `ofOpcode?_eq`: the table of formats is the one that the ranges describe.
* `opening_fixed`: the first byte has the fixed bits of its own format.
-/

import RealMode.Proofs.Bytes.Formats

namespace RealMode.Encoding

/-- What the first byte of an instruction announces. -/
inductive Opening
  | unknown
  | unread (operation : Mnemonic)
  | moveRegister
  | moveSegment
  | moveImmediate
  | moveAccumulator
  | moveRegisterImmediate
  | arithmetic
  | accumulator (operation : Mnemonic)
  | jump (operation : Mnemonic)
  deriving DecidableEq

/-- The conditional jumps in the order of their first bytes. -/
def jumps : List Mnemonic :=
  [.jo, .jno, .jb, .jnb, .je, .jne, .jbe, .jnbe, .js, .jns, .jp, .jnp, .jl, .jnl, .jle, .jnle]

def opening (b : UInt8) : Opening :=
  if b ≤ 0x03 then .unread .add
  else if b = 0x04 ∨ b = 0x05 then .accumulator .add
  else if 0x28 ≤ b ∧ b ≤ 0x2B then .unread .sub
  else if b = 0x2C ∨ b = 0x2D then .accumulator .sub
  else if 0x38 ≤ b ∧ b ≤ 0x3B then .unread .cmp
  else if b = 0x3C ∨ b = 0x3D then .accumulator .cmp
  else if 0x70 ≤ b ∧ b ≤ 0x7F then .jump (jumps.getD (b - 0x70).toNat .jo)
  else if 0x80 ≤ b ∧ b ≤ 0x83 then .arithmetic
  else if 0x88 ≤ b ∧ b ≤ 0x8B then .moveRegister
  else if b = 0x8C ∨ b = 0x8E then .moveSegment
  else if 0xA0 ≤ b ∧ b ≤ 0xA3 then .moveAccumulator
  else if 0xB0 ≤ b ∧ b ≤ 0xBF then .moveRegisterImmediate
  else if b = 0xC6 ∨ b = 0xC7 then .moveImmediate
  else if b = 0xE0 then .unread .loopnz
  else if b = 0xE1 then .unread .loopz
  else if b = 0xE2 then .unread .loop
  else if b = 0xE3 then .jump .jcxz
  else if b = 0xE9 ∨ b = 0xEB then .unread .jmp
  else .unknown

/-! ### Parts of a byte -/

/-- The lowest bit: the operands are words. -/
def wBit (b : UInt8) : UInt8 := b &&& 1

/-- The bit above it: the register is the destination, or the data byte is widened by its sign. -/
def dBit (b : UInt8) : UInt8 := (b >>> 1) &&& 1

/-- Bit 3, which plays the part of the lowest one where the register code takes its place. -/
def upperWBit (b : UInt8) : UInt8 := (b >>> 3) &&& 1

/-- The mode of a ModRM byte. -/
def mode (m : UInt8) : UInt8 := m >>> 6

/-- The code of the register or of the operation in a ModRM byte. -/
def reg (m : UInt8) : UInt8 := (m >>> 3) &&& 7

/-- The code of the register or memory operand in a ModRM byte. -/
def rm (m : UInt8) : UInt8 := m &&& 7

/-- The code of a segment register in a ModRM byte. -/
def sr (m : UInt8) : UInt8 := (m >>> 3) &&& 3

/-- The bit above the code of a segment register. -/
def aboveSr (m : UInt8) : UInt8 := (m >>> 5) &&& 1

theorem ofNat_eq {n : Nat} {b : UInt8} (same : n = b.toNat) : UInt8.ofNat n = b := by
  rw [same, UInt8.ofNat_toNat]

section Parts

variable (b : UInt8)

theorem toNat_and_one : (b &&& 1).toNat = b.toNat % 2 := by
  rw [UInt8.toNat_and]
  exact Nat.and_two_pow_sub_one_eq_mod b.toNat 1

theorem toNat_and_three : (b &&& 3).toNat = b.toNat % 4 := by
  rw [UInt8.toNat_and]
  exact Nat.and_two_pow_sub_one_eq_mod b.toNat 2

theorem toNat_and_seven : (b &&& 7).toNat = b.toNat % 8 := by
  rw [UInt8.toNat_and]
  exact Nat.and_two_pow_sub_one_eq_mod b.toNat 3

theorem toNat_shift (count : UInt8) (small : count.toNat < 8) :
    (b >>> count).toNat = b.toNat / 2 ^ count.toNat := by
  rw [UInt8.toNat_shiftRight, Nat.mod_eq_of_lt small, Nat.shiftRight_eq_div_pow]

theorem toNat_mode : (mode b).toNat = b.toNat / 64 := toNat_shift b 6 (by decide)

theorem toNat_reg : (reg b).toNat = b.toNat / 8 % 8 := by
  rw [reg, toNat_and_seven, toNat_shift b 3 (by decide)]
  rfl

theorem toNat_rm : (rm b).toNat = b.toNat % 8 := toNat_and_seven b

theorem reg_lt : (reg b).toNat < 8 := by
  rw [toNat_reg]
  exact Nat.mod_lt _ (by decide)

theorem rm_lt : (rm b).toNat < 8 := by
  rw [toNat_rm]
  exact Nat.mod_lt _ (by decide)

theorem ofNat_half : UInt8.ofNat (b.toNat / 2) = b >>> 1 :=
  ofNat_eq (toNat_shift b 1 (by decide)).symm

theorem ofNat_wBit : UInt8.ofNat (b.toNat % 2) = wBit b := ofNat_eq (toNat_and_one b).symm

theorem ofNat_dBit : UInt8.ofNat (b.toNat % 4 / 2) = dBit b := by
  apply ofNat_eq
  rw [dBit, toNat_and_one, toNat_shift b 1 (by decide)]
  show _ = b.toNat / 2 % 2
  omega

theorem ofNat_upperWBit : UInt8.ofNat (b.toNat % 16 / 8) = upperWBit b := by
  apply ofNat_eq
  rw [upperWBit, toNat_and_one, toNat_shift b 3 (by decide)]
  show _ = b.toNat / 8 % 2
  omega

theorem ofNat_mode : UInt8.ofNat (b.toNat / 64) = mode b := ofNat_eq (toNat_mode b).symm

theorem ofNat_reg : UInt8.ofNat (b.toNat % 64 / 8) = reg b := by
  apply ofNat_eq
  rw [toNat_reg]
  omega

theorem ofNat_rm : UInt8.ofNat (b.toNat % 8) = rm b := ofNat_eq (toNat_rm b).symm

theorem ofNat_sr : UInt8.ofNat (b.toNat % 32 / 8) = sr b := by
  apply ofNat_eq
  rw [sr, toNat_and_three, toNat_shift b 3 (by decide)]
  show _ = b.toNat / 8 % 4
  omega

theorem ofNat_aboveSr : UInt8.ofNat (b.toNat % 64 / 32) = aboveSr b := by
  apply ofNat_eq
  rw [aboveSr, toNat_and_one, toNat_shift b 5 (by decide)]
  show _ = b.toNat / 32 % 2
  omega

theorem mode_cases : mode b = 0 ∨ mode b = 1 ∨ mode b = 2 ∨ mode b = 3 := by
  have bound := b.toNat_lt
  have value := toNat_mode b
  simp only [← UInt8.toNat_inj, value]
  show b.toNat / 64 = 0 ∨ b.toNat / 64 = 1 ∨ b.toNat / 64 = 2 ∨ b.toNat / 64 = 3
  omega

end Parts

/-! ### The formats behind the openings -/

/-- The format of the instructions that start with `b`. -/
def Opening.format? (b : UInt8) : Opening → Option Format
  | .unknown => none
  | .unread operation => some (.stub operation)
  | .moveRegister => some .movRegister
  | .moveSegment => some .movSegment
  | .moveImmediate => some .movImmediate
  | .moveAccumulator => some (if b ≤ 0xA1 then .movToAccumulator else .movFromAccumulator)
  | .moveRegisterImmediate => some .movRegisterImmediate
  | .arithmetic => some .arithmeticImmediate
  | .accumulator operation => some (.arithmeticAccumulator operation (b >>> 1))
  | .jump operation => some (.shortJump operation b)

/-- The first byte has the fixed bits of the format. -/
def Opening.fixed (b : UInt8) : Opening → Bool
  | .moveRegister => b.toNat / 4 = 0b100010
  | .moveSegment => b.toNat / 4 = 0b100011 ∧ wBit b = 0
  | .moveImmediate => b.toNat / 2 = 0b1100011
  | .moveAccumulator => b.toNat / 2 = if b ≤ 0xA1 then 0b1010000 else 0b1010001
  | .moveRegisterImmediate => b.toNat / 16 = 0b1011
  | .arithmetic => b.toNat / 4 = 0b100000
  | .unknown | .unread _ | .accumulator _ | .jump _ => true

/-- A decidable property holds of all bytes if it holds of the 256 of them. -/
@[elab_as_elim]
theorem forall_byte {P : UInt8 → Prop} (b : UInt8) (checked : ∀ n < 256, P (.ofNat n)) : P b := by
  have found := checked b.toNat b.toNat_lt
  rw [UInt8.ofNat_toNat] at found
  exact found

/-- It holds of all codes of three bits if it holds of the eight of them. -/
@[elab_as_elim]
theorem forall_code {P : UInt8 → Prop} {code : UInt8} (small : code.toNat < 8)
    (checked : ∀ n < 8, P (.ofNat n)) : P code := by
  have found := checked code.toNat small
  rw [UInt8.ofNat_toNat] at found
  exact found

/-- **The table of formats is the one that the openings describe.** -/
theorem ofOpcode?_eq (b : UInt8) : Format.ofOpcode? b = (opening b).format? b :=
  forall_byte b (by decide +kernel)

theorem opening_fixed (b : UInt8) : (opening b).fixed b :=
  forall_byte b (by decide +kernel)

end RealMode.Encoding
