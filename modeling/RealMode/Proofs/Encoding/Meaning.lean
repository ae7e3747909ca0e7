/-
**The meaning of the bytes of an instruction.** `meaning` tells the operation and the operands by
arithmetic on the bytes: registers, bases and segment registers from tables by code, addresses as
numbers, displacements and constants as signed ones. It gives an answer only for byte strings that
are an instruction and nothing more.

* `operands_slots`: the operands resolved from the slots are those that the bytes mean.
* `decode_meaning`: decoding and resolving together give the meaning of the bytes consumed.
* `meaning_of_decode`: from any bit, the operands are those that the bytes ahead mean.
-/

import RealMode.Addressing
import RealMode.Proofs.Bytes.AnyBit
import RealMode.Proofs.Encoding.Extent

namespace RealMode.Encoding

open ByteReading Decoding

/-! ### Numbers -/

/-- Two bytes as a number, the low one first. -/
def number (low high : UInt8) : Nat := low.toNat + 256 * high.toNat

/-- A byte as a signed number. -/
def signedByte (b : UInt8) : Int := if b < 128 then b.toNat else b.toNat - 256

/-- Two bytes as a signed number, the low one first. -/
def signedNumber (low high : UInt8) : Int :=
  if high < 128 then number low high else number low high - 65536

/-! ### Names -/

def wordRegister : UInt8 → Register
  | 0 => .ax | 1 => .cx | 2 => .dx | 3 => .bx | 4 => .sp | 5 => .bp | 6 => .si | _ => .di

def byteRegister : UInt8 → Register
  | 0 => .al | 1 => .cl | 2 => .dl | 3 => .bl | 4 => .ah | 5 => .ch | 6 => .dh | _ => .bh

/-- The register under a code of three bits. -/
def register (w code : UInt8) : Register := if w = 1 then wordRegister code else byteRegister code

/-- The base of an effective address under a code of three bits. -/
def base : UInt8 → AddressBase
  | 0 => .bxSi | 1 => .bxDi | 2 => .bpSi | 3 => .bpDi | 4 => .si | 5 => .di | 6 => .bp | _ => .bx

/-- The segment register under a code of two bits. -/
def segment : UInt8 → SegmentRegister
  | 0 => .es | 1 => .cs | 2 => .ss | _ => .ds

/-! ### The meaning -/

/-- The register or memory operand of the ModRM byte `m` and the bytes of its address. -/
def place (w m : UInt8) (address : List UInt8) : Option Operand :=
  match mode m, address with
  | 3, [] => some (.register (register w (rm m)))
  | 2, [low, high] => some (.memory (.based (base (rm m)) (.ofInt (signedNumber low high))))
  | 1, [low] => some (.memory (.based (base (rm m)) (.ofInt (signedByte low))))
  | 0, [low, high] => if rm m = 6 then some (.memory (.direct (.ofNat (number low high)))) else none
  | 0, [] => if rm m = 6 then none else some (.memory (.based (base (rm m)) 0))
  | _, _ => none

/-- The immediate of the data bytes. -/
def constant (w : UInt8) (data : List UInt8) : Option Operand :=
  let width := if w = 1 then DataWidth.word else .byte
  match data with
  | [low] => some (.immediate { value := .ofInt (signedByte low), width })
  | [low, high] => some (.immediate { value := .ofInt (signedNumber low high), width })
  | _ => none

/-- The operation and the operands, the destination first. -/
def meaning : List UInt8 → Option (Mnemonic × List Operand)
  | [] => none
  | b :: rest =>
    match opening b, rest with
    | .moveRegister, m :: address => do
      let named := Operand.register (register (wBit b) (reg m))
      let placed ← place (wBit b) m address
      return (.mov, if dBit b = 1 then [named, placed] else [placed, named])
    | .moveSegment, m :: address => do
      let named := Operand.segment (segment (sr m))
      let placed ← place 1 m address
      return (.mov, if dBit b = 1 then [named, placed] else [placed, named])
    | .moveImmediate, m :: rest => do
      let placed ← place (wBit b) m (rest.take (addressLength m))
      let source ← constant (wBit b) (rest.drop (addressLength m))
      return (.mov, [placed, source])
    | .arithmetic, m :: rest => do
      let operation ← groupOperation? (reg m)
      let placed ← place (wBit b) m (rest.take (addressLength m))
      let source ← constant (wBit b) (rest.drop (addressLength m))
      return (operation, [placed, source])
    | .moveAccumulator, [low, high] =>
      let named := Operand.register (register (wBit b) 0)
      let placed := Operand.memory (.direct (.ofNat (number low high)))
      return (.mov, if b ≤ 0xA1 then [named, placed] else [placed, named])
    | .moveRegisterImmediate, data => do
      let source ← constant (upperWBit b) data
      return (.mov, [.register (register (upperWBit b) (rm b)), source])
    | .accumulator operation, data => do
      let source ← constant (wBit b) data
      return (operation, [.register (register (wBit b) 0), source])
    | .jump operation, [increment] =>
      return (operation, [.relative (.ofInt (signedByte increment))])
    | _, _ => none

/-! ### Numbers and names as they are resolved -/

theorem ofBytes_eq (low high : UInt8) : Word.ofBytes low high = .ofNat (number low high) := by
  have lowBound := low.toNat_lt
  have highBound := high.toNat_lt
  apply UInt16.toNat_inj.mp
  rw [Word.toNat_ofBytes, UInt16.toNat_ofNat', number]
  omega

theorem signed_eq (low high : UInt8) :
    Word.signed low high = .ofInt (signedNumber low high) := by
  have lowBound := low.toNat_lt
  have highBound := high.toNat_lt
  apply Int16.toBitVec.inj
  apply BitVec.eq_of_toNat_eq
  rw [Int16.toBitVec_ofInt, BitVec.toNat_ofInt]
  show (Word.ofBytes low high).toNat = _
  rw [Word.toNat_ofBytes, signedNumber, number]
  split <;> omega

theorem toInt8_eq (b : UInt8) : b.toInt8 = .ofInt (signedByte b) := by
  have bound := b.toNat_lt
  apply Int8.toBitVec.inj
  apply BitVec.eq_of_toNat_eq
  rw [Int8.toBitVec_ofInt, BitVec.toNat_ofInt]
  show b.toNat = _
  rw [signedByte]
  split <;> omega

theorem signExtend_eq (b : UInt8) : Word.signExtend b = .ofInt (signedByte b) :=
  forall_byte b (by decide +kernel)

theorem ofCode?_eq {w code : UInt8} (small : code.toNat < 8) :
    Register.ofCode? (w == 1) code = some (register w code) := by
  have words : Register.ofCode? true code = some (wordRegister code) :=
    forall_code small (by decide)
  have bytes : Register.ofCode? false code = some (byteRegister code) :=
    forall_code small (by decide)
  unfold register
  by_cases wide : w = 1
  · rw [if_pos wide, beq_iff_eq.mpr wide, words]
  · rw [if_neg wide, beq_eq_false_iff_ne.mpr wide, bytes]

theorem baseOfCode?_eq {code : UInt8} (small : code.toNat < 8) :
    AddressBase.ofCode? code = some (base code) :=
  forall_code small (by decide)

theorem segmentOfCode_eq (m : UInt8) : SegmentRegister.ofCode (sr m) = segment (sr m) :=
  forall_byte m (by decide +kernel)

/-! ### Places by their mode -/

section Place

variable {w m : UInt8}

theorem place_direct (zero : mode m = 0) (direct : rm m = 6) (low high : UInt8) :
    place w m [low, high] = some (.memory (.direct (.ofNat (number low high)))) := by
  unfold place
  rw [zero]
  exact if_pos direct

theorem place_bare (zero : mode m = 0) (indirect : rm m ≠ 6) :
    place w m [] = some (.memory (.based (base (rm m)) 0)) := by
  unfold place
  rw [zero]
  exact if_neg indirect

theorem place_byte (one : mode m = 1) (low : UInt8) :
    place w m [low] = some (.memory (.based (base (rm m)) (.ofInt (signedByte low)))) := by
  unfold place
  rw [one]
  rfl

theorem place_word (two : mode m = 2) (low high : UInt8) :
    place w m [low, high] =
      some (.memory (.based (base (rm m)) (.ofInt (signedNumber low high)))) := by
  unfold place
  rw [two]
  rfl

theorem place_register (three : mode m = 3) :
    place w m [] = some (.register (register w (rm m))) := by
  unfold place
  rw [three]
  rfl

end Place

/-! ### Slots as operands -/

section Slots

variable (op : Decoding) {w m : UInt8} {address data : List UInt8}

theorem namedRegister_eq {code : UInt8} (width : op.w = some w) (small : code.toNat < 8) :
    op.namedRegister code = .ok (.register (register w code)) := by
  unfold namedRegister
  rw [width]
  dsimp only
  rw [ofCode?_eq small]

theorem registerOperand_eq {code : UInt8} (width : op.w = some w) (general : op.sr = none)
    (named : op.reg = some code) (small : code.toNat < 8) :
    op.registerOperand = .ok (some (.register (register w code))) := by
  unfold registerOperand
  rw [general, named]
  dsimp only
  rw [namedRegister_eq op width small]
  rfl

/-- The five forms of an address after a ModRM byte. -/
theorem address_cases (whole : address.length = addressLength m) :
    (mode m = 0 ∧ rm m = 6 ∧ ∃ low high, address = [low, high]) ∨
      (mode m = 0 ∧ rm m ≠ 6 ∧ address = []) ∨
      (mode m = 1 ∧ ∃ low, address = [low]) ∨
      (mode m = 2 ∧ ∃ low high, address = [low, high]) ∨
      (mode m = 3 ∧ address = []) := by
  unfold addressLength at whole
  rcases mode_cases m with zero | one | two | three
  · by_cases direct : rm m = 6
    · rw [if_neg (by simp [zero, direct]), if_neg (by simp [zero])] at whole
      match address, whole with
      | [low, high], _ => exact .inl ⟨zero, direct, low, high, rfl⟩
    · rw [if_pos (.inr ⟨zero, direct⟩)] at whole
      exact .inr (.inl ⟨zero, direct, List.eq_nil_of_length_eq_zero whole⟩)
  · rw [if_neg (by simp [one]), if_pos one] at whole
    match address, whole with
    | [low], _ => exact .inr (.inr (.inl ⟨one, low, rfl⟩))
  · rw [if_neg (by simp [two]), if_neg (by simp [two])] at whole
    match address, whole with
    | [low, high], _ => exact .inr (.inr (.inr (.inl ⟨two, low, high, rfl⟩)))
  · rw [if_pos (.inl three)] at whole
    exact .inr (.inr (.inr (.inr ⟨three, List.eq_nil_of_length_eq_zero whole⟩)))

/-- The address slots and the r/m slots together name the place of the ModRM byte. -/
theorem memoryOperand_withAddress (width : op.w = some w) (known : op.mode = some (mode m))
    (code : op.rm = some (rm m)) (free : op.addrLow = none)
    (whole : address.length = addressLength m) :
    ∃ placed, place w m address = some placed ∧
      (withAddress op m address).memoryOperand = .ok (some placed) := by
  have small := rm_lt m
  have named := namedRegister_eq op width small
  rcases address_cases whole with ⟨zero, direct, low, high, rfl⟩ | ⟨zero, indirect, rfl⟩ |
    ⟨one, low, rfl⟩ | ⟨two, low, high, rfl⟩ | ⟨three, rfl⟩
  · refine ⟨_, place_direct zero direct low high, ?_⟩
    rw [withAddress, if_pos ⟨zero, direct⟩, ← ofBytes_eq]
    rfl
  · refine ⟨_, place_bare zero indirect, ?_⟩
    rw [withAddress, if_neg (by simp [indirect]), if_neg (by simp [zero]),
      if_neg (by simp [zero])]
    simp only [memoryOperand, free, code, known, codedOperand, baseOfCode?_eq small, zero]
    rfl
  · refine ⟨_, place_byte one low, ?_⟩
    rw [withAddress, if_neg (by simp [one]), if_pos one, ← signExtend_eq]
    simp only [memoryOperand, free, code, known, codedOperand, baseOfCode?_eq small, one]
    rfl
  · refine ⟨_, place_word two low high, ?_⟩
    rw [withAddress, if_neg (by simp [two]), if_neg (by simp [two]), if_pos two, ← signed_eq]
    simp only [memoryOperand, free, code, known, codedOperand, baseOfCode?_eq small, two]
    rfl
  · refine ⟨_, place_register three, ?_⟩
    rw [withAddress, if_neg (by simp [three]), if_neg (by simp [three]), if_neg (by simp [three])]
    simp only [memoryOperand, free, code, known, codedOperand, baseOfCode?_eq small, three, named]
    rfl

/-! ### Slots as operands in order -/

theorem mnemonic_withAddress (m : UInt8) (address : List UInt8) :
    (withAddress op m address).mnemonic = op.mnemonic := by
  obtain ⟨addrLow, addrHigh, dispLow, dispHigh, filled⟩ := withAddress_eq op m address
  rw [filled]

theorem mnemonic_withData (data : List UInt8) : (withData op data).mnemonic = op.mnemonic := by
  unfold withData
  split <;> rfl

theorem withAddress_w (m w : UInt8) (address : List UInt8) :
    { withAddress op m address with w := some w } =
      withAddress { op with w := some w } m address := by
  unfold withAddress
  split
  · rfl
  · split
    · rfl
    · split <;> rfl

theorem withAddress_d (m d : UInt8) (address : List UInt8) :
    { withAddress op m address with d := some d } =
      withAddress { op with d := some d } m address := by
  unfold withAddress
  split
  · rfl
  · split
    · rfl
    · split <;> rfl

theorem withData_d (d : UInt8) (data : List UInt8) :
    { withData op data with d := some d } = withData { op with d := some d } data := by
  have same : twoData { op with d := some d } = twoData op := rfl
  unfold withData
  rw [same]
  split <;> rfl

theorem withData_d_reg (d reg : UInt8) (data : List UInt8) :
    { withData op data with d := some d, reg := some reg } =
      withData { op with d := some d, reg := some reg } data := by
  have same : twoData { op with d := some d, reg := some reg } = twoData op := rfl
  unfold withData
  rw [same]
  split <;> rfl

theorem operands_eq {reg placed : Option Operand} (other : op.mnemonic.isJump = false)
    (named : op.registerOperand = .ok reg) (found : op.memoryOperand = .ok placed) :
    op.operands = arrange op.d reg placed op.immediate? := by
  simp only [operands, other, Bool.false_eq_true, if_false, named, found]
  rfl

theorem operands_jump {increment : UInt8} (jump : op.mnemonic.isJump)
    (found : op.dispLow = some increment) : op.operands = .ok [.relative increment.toInt8] := by
  simp only [operands, jump, if_true, found]

theorem operands_direct {reg : Option Operand} (low high : UInt8)
    (other : op.mnemonic.isJump = false) (named : op.registerOperand = .ok reg) :
    { op with addrLow := some low, addrHigh := some high }.operands =
      arrange op.d reg (some (.memory (.direct (.ofNat (number low high))))) op.immediate? := by
  rw [← ofBytes_eq]
  exact operands_eq _ other named rfl

theorem operands_withAddress {reg : Option Operand} (other : op.mnemonic.isJump = false)
    (named : op.registerOperand = .ok reg) (width : op.w = some w)
    (known : op.mode = some (mode m)) (code : op.rm = some (rm m)) (free : op.addrLow = none)
    (whole : address.length = addressLength m) :
    ∃ placed, place w m address = some placed ∧
      (withAddress op m address).operands = arrange op.d reg (some placed) op.immediate? := by
  obtain ⟨placed, meant, found⟩ := memoryOperand_withAddress op width known code free whole
  obtain ⟨addrLow, addrHigh, dispLow, dispHigh, filled⟩ := withAddress_eq op m address
  refine ⟨placed, meant, ?_⟩
  rw [filled] at found ⊢
  exact operands_eq _ other named found

/-- The data slots hold the constant of the data bytes. -/
theorem operands_withData {reg placed : Option Operand} (other : op.mnemonic.isJump = false)
    (named : op.registerOperand = .ok reg) (found : op.memoryOperand = .ok placed)
    (width : op.w = some w) (free : op.dataHigh = none) (whole : data.length = dataLength op) :
    ∃ i, constant w data = some (.immediate i) ∧
      (withData op data).operands = arrange op.d reg placed (some i) := by
  have kind : (if op.wide then DataWidth.word else .byte) = if w = 1 then .word else .byte := by
    simp [wide, width]
  unfold dataLength at whole
  unfold withData
  by_cases two : twoData op
  · rw [if_pos two] at whole ⊢
    match data, whole with
    | [low, high], _ =>
      refine ⟨_, rfl, ?_⟩
      rw [← signed_eq, ← kind]
      exact operands_eq _ other named found
  · rw [if_neg two] at whole ⊢
    match data, whole with
    | [low], _ =>
      refine ⟨_, rfl, ?_⟩
      rw [← signExtend_eq, ← kind]
      have held : { op with dataLow := some low }.immediate? = some
          { value := Word.signExtend low, width := if op.wide then .word else .byte } := by
        simp only [immediate?, free]
        rfl
      rw [← held]
      exact operands_eq _ other named found

/-- An address and data are a place and a constant. -/
theorem operands_address_data (other : op.mnemonic.isJump = false)
    (named : op.registerOperand = .ok none) (width : op.w = some w)
    (known : op.mode = some (mode m)) (code : op.rm = some (rm m)) (freeAddress : op.addrLow = none)
    (freeData : op.dataHigh = none) (whole : data.length = addressLength m + dataLength op) :
    ∃ placed source, place w m (data.take (addressLength m)) = some placed ∧
      constant w (data.drop (addressLength m)) = some source ∧
      (withData (withAddress op m (data.take (addressLength m)))
        (data.drop (addressLength m))).operands = .ok [placed, source] := by
  have short : (data.take (addressLength m)).length = addressLength m := by
    rw [List.length_take]
    omega
  have rest : (data.drop (addressLength m)).length =
      dataLength (withAddress op m (data.take (addressLength m))) := by
    rw [List.length_drop, dataLength_withAddress]
    omega
  obtain ⟨placed, meant, found⟩ := memoryOperand_withAddress op width known code freeAddress short
  -- the address fills no slot that the data or their width are read from
  obtain ⟨addrLow, addrHigh, dispLow, dispHigh, filled⟩ :=
    withAddress_eq op m (data.take (addressLength m))
  rw [filled] at found rest ⊢
  obtain ⟨i, held, resolved⟩ := operands_withData
    { op with addrLow, addrHigh, dispLow, dispHigh } other named found width freeData rest
  exact ⟨placed, .immediate i, meant, held, resolved⟩

end Slots

/-- The operations of jumps are jumps, and those on the accumulator are not. -/
theorem opening_isJump (b : UInt8) :
    (match opening b with
      | .jump operation => operation.isJump
      | .accumulator operation => !operation.isJump
      | _ => true) = true :=
  forall_byte b (by decide +kernel)

theorem isJump_groupOperation {code : UInt8} {operation : Mnemonic}
    (chosen : groupOperation? code = some operation) : operation.isJump = false := by
  unfold groupOperation? at chosen
  split at chosen
  · cases chosen
    rfl
  · split at chosen
    · cases chosen
      rfl
    · split at chosen
      · cases chosen
        rfl
      · cases chosen

/-! ### The slots mean what the bytes mean -/

/-- The operation and the operands in the slots of an instruction are those that its bytes mean. -/
def Meant (b m : UInt8) (tail : List UInt8) : Prop :=
  ∃ items, (slots b (m :: tail)).operands = .ok items ∧
    meaning (b :: m :: tail) = some ((slots b (m :: tail)).mnemonic, items)

section Meant

variable {b m : UInt8} {tail : List UInt8} {operation : Mnemonic}

theorem meant_moveRegister (kind : opening b = .moveRegister)
    (whole : tail.length = addressLength m) : Meant b m tail := by
  have all : tail.take (addressLength m) = tail := List.take_of_length_le (Nat.le_of_eq whole)
  unfold Meant slots meaning
  dsimp only [List.headD_cons, List.tail_cons]
  rw [kind]
  dsimp only
  rw [all]
  obtain ⟨placed, meant, resolved⟩ := operands_withAddress
    (withModRM (lead b .moveRegister) m .moveRegister) rfl
    (registerOperand_eq _ rfl rfl rfl (reg_lt m)) rfl rfl rfl rfl whole
  rw [meant, mnemonic_withAddress]
  exact ⟨_, resolved, rfl⟩

theorem meant_moveSegment (kind : opening b = .moveSegment)
    (whole : tail.length = addressLength m) : Meant b m tail := by
  have all : tail.take (addressLength m) = tail := List.take_of_length_le (Nat.le_of_eq whole)
  unfold Meant slots meaning
  dsimp only [List.headD_cons, List.tail_cons]
  rw [kind]
  dsimp only
  rw [all, withAddress_w]
  obtain ⟨placed, meant, resolved⟩ := operands_withAddress
    { withModRM (lead b .moveSegment) m .moveSegment with w := some 1 } rfl rfl rfl rfl rfl rfl
    whole
  rw [meant, mnemonic_withAddress, ← segmentOfCode_eq]
  exact ⟨_, resolved, rfl⟩

theorem meant_moveImmediate (kind : opening b = .moveImmediate)
    (whole : tail.length = addressLength m + 1 + (wBit b).toNat) : Meant b m tail := by
  have length := dataLength_eq (lead b .moveImmediate) rfl rfl (bit_cases b)
  unfold Meant slots meaning
  dsimp only [List.headD_cons, List.tail_cons]
  rw [kind]
  dsimp only
  rw [withData_d, withAddress_d]
  obtain ⟨placed, source, meant, held, resolved⟩ := operands_address_data
    { withModRM (lead b .moveImmediate) m .moveImmediate with d := some 0 } rfl rfl rfl rfl rfl rfl
    rfl (whole.trans (by rw [Nat.add_assoc, ← length]; rfl))
  rw [meant, held, mnemonic_withData, mnemonic_withAddress]
  exact ⟨_, resolved, rfl⟩

theorem meant_arithmetic (kind : opening b = .arithmetic)
    (chosen : groupOperation? (reg m) = some operation)
    (whole : tail.length = addressLength m + dataLength (lead b .arithmetic)) :
    Meant b m tail := by
  have other : (withModRM (lead b .arithmetic) m .arithmetic).mnemonic = operation := by
    show (groupOperation? (reg m)).getD .immed = operation
    rw [chosen]
    rfl
  have notJump : (withModRM (lead b .arithmetic) m .arithmetic).mnemonic.isJump = false := by
    rw [other]
    exact isJump_groupOperation chosen
  unfold Meant slots meaning
  dsimp only [List.headD_cons, List.tail_cons]
  rw [kind]
  dsimp only
  obtain ⟨placed, source, meant, held, resolved⟩ := operands_address_data
    (withModRM (lead b .arithmetic) m .arithmetic) notJump rfl rfl rfl rfl rfl rfl whole
  rw [meant, held, chosen, mnemonic_withData, mnemonic_withAddress, other]
  exact ⟨_, resolved, rfl⟩

theorem meant_moveAccumulator (kind : opening b = .moveAccumulator) (whole : tail.length = 1) :
    Meant b m tail := by
  have zero : (0 : UInt8).toNat < 8 := by decide
  unfold Meant slots meaning
  dsimp only
  rw [kind]
  match tail, whole with
  | [high], _ =>
    have resolved := operands_direct
      { lead b .moveAccumulator with d := some (if b ≤ 0xA1 then 1 else 0), reg := some 0 } m high
      rfl (registerOperand_eq _ rfl rfl rfl zero)
    refine ⟨_, resolved, ?_⟩
    by_cases toAccumulator : b ≤ 0xA1
    · simp only [toAccumulator, if_true]
      rfl
    · simp only [toAccumulator, if_false]
      rfl

theorem meant_moveRegisterImmediate (kind : opening b = .moveRegisterImmediate)
    (whole : tail.length = (upperWBit b).toNat) : Meant b m tail := by
  have length := dataLength_eq (lead b .moveRegisterImmediate) rfl rfl (bit_cases (b >>> 3))
  have data : (m :: tail).length =
      dataLength { lead b .moveRegisterImmediate with d := some 1 } := by
    rw [List.length_cons, whole, Nat.add_comm]
    exact length.symm
  unfold Meant slots meaning
  dsimp only
  rw [kind]
  dsimp only
  rw [withData_d]
  obtain ⟨i, held, resolved⟩ := operands_withData { lead b .moveRegisterImmediate with d := some 1 }
    rfl (registerOperand_eq _ rfl rfl rfl (rm_lt b)) rfl rfl rfl data
  rw [held, mnemonic_withData]
  exact ⟨_, resolved, rfl⟩

theorem meant_accumulator (kind : opening b = .accumulator operation)
    (other : operation.isJump = false) (whole : tail.length = (wBit b).toNat) :
    Meant b m tail := by
  have zero : (0 : UInt8).toNat < 8 := by decide
  have length := dataLength_eq (lead b (.accumulator operation)) rfl rfl (bit_cases b)
  have data : (m :: tail).length =
      dataLength { lead b (.accumulator operation) with d := some 1, reg := some 0 } := by
    rw [List.length_cons, whole, Nat.add_comm]
    exact length.symm
  unfold Meant slots meaning
  dsimp only
  rw [kind]
  dsimp only
  rw [withData_d_reg]
  obtain ⟨i, held, resolved⟩ := operands_withData
    { lead b (.accumulator operation) with d := some 1, reg := some 0 } other
    (registerOperand_eq _ rfl rfl rfl zero) rfl rfl rfl data
  rw [held, mnemonic_withData]
  exact ⟨_, resolved, rfl⟩

theorem meant_jump (kind : opening b = .jump operation) (jump : operation.isJump)
    (whole : tail.length = 0) : Meant b m tail := by
  obtain rfl := List.eq_nil_of_length_eq_zero whole
  unfold Meant slots meaning
  dsimp only
  rw [kind]
  dsimp only
  refine ⟨_, operands_jump _ jump rfl, ?_⟩
  rw [toInt8_eq]
  rfl

end Meant

/-- **The operands resolved from the slots are those that the bytes mean.** -/
theorem operands_slots {b m : UInt8} {tail : List UInt8} (read : refusal? b (some m) = none)
    (whole : tail.length = beyond b m) : Meant b m tail := by
  have jumps := opening_isJump b
  unfold refusal? at read
  unfold beyond at whole
  cases kind : opening b with
  | unknown =>
    rw [kind] at read
    cases read
  | unread operation =>
    rw [kind] at read
    cases read
  | moveRegister =>
    rw [kind] at whole
    exact meant_moveRegister kind whole
  | moveSegment =>
    rw [kind] at whole
    exact meant_moveSegment kind whole
  | moveImmediate =>
    rw [kind] at whole
    exact meant_moveImmediate kind whole
  | moveAccumulator =>
    rw [kind] at whole
    exact meant_moveAccumulator kind whole
  | moveRegisterImmediate =>
    rw [kind] at whole
    exact meant_moveRegisterImmediate kind whole
  | arithmetic =>
    rw [kind] at whole read
    dsimp only at read whole
    have known : reg m = 0 ∨ reg m = 5 ∨ reg m = 7 := by
      refine Decidable.byContradiction fun unknown => ?_
      rw [if_neg unknown] at read
      cases read
    obtain ⟨operation, chosen⟩ :=
      Option.isSome_iff_exists.mp ((isSome_groupOperation? (reg m)).mpr known)
    rw [← dataLength_arithmetic kind] at whole
    exact meant_arithmetic kind chosen whole
  | accumulator operation =>
    rw [kind] at whole jumps
    exact meant_accumulator kind (by simpa using jumps) whole
  | jump operation =>
    rw [kind] at whole jumps
    exact meant_jump kind jumps whole

/-- **Decoding and resolving give the meaning of the bytes consumed.** -/
theorem decode_meaning {r r' : BitReader} {op : Decoding} (aligned : r.pos % 8 = 0)
    (result : decode r = .ok op r') :
    ∃ items, op.operands = .ok items ∧
      meaning ((r.bytes.toList.drop r.offset).take op.length) = some (op.mnemonic, items) := by
  obtain ⟨b, m, tail, ahead, read, whole, decoded, count⟩ :=
    of_spelled_taken (spelled_of_decode_ok aligned result).1
  have consumed : (r.bytes.toList.drop r.offset).take op.length = b :: m :: tail := by
    rw [ahead, count]
    exact List.take_left
  rw [consumed, decoded]
  exact operands_slots read whole

theorem decode_meaning_addWord :
    meaning [0x81, 0x47, 0xFE, 0x34, 0x12] =
        some (.add, [.memory (.based .bx (-2)), .immediate { value := 0x1234, width := .word }]) ∧
      ∃ op r', addWord.pos % 8 = 0 ∧ decode addWord = .ok op r' ∧
        ∃ items, op.operands = .ok items ∧
          meaning ((addWord.bytes.toList.drop addWord.offset).take op.length) =
            some (op.mnemonic, items) :=
  ⟨by rfl, _, _, by decide, rfl, decode_meaning (by decide) rfl⟩

/-! ### From any bit -/

/-- The opcode plays no part in what the operands are. -/
theorem operands_recode (op : Decoding) (opcode : UInt8) :
    (op.recode opcode).operands = op.operands := rfl

/-- **From any bit, the operands are those that the bytes ahead mean.** -/
theorem meaning_of_decode {r r' : BitReader} {op : Decoding} (result : decode r = .ok op r') :
    ∃ b m tail rest items, r.upcoming = (b :: m :: tail) ++ rest ∧ tail.length = beyond b m ∧
      op.length = (b :: m :: tail).length ∧ op.operands = .ok items ∧
      meaning (b :: m :: tail) = some (op.mnemonic, items) := by
  obtain ⟨opcode, rest, came, _⟩ := ofBytes_of_decode result
  rw [ofBytes_eq_spelled] at came
  obtain ⟨b, m, tail, ahead, read, whole, filled, count⟩ := of_spelled_taken came
  obtain ⟨items, resolved, meant⟩ := operands_slots read whole
  have operands : op.operands = .ok items := by
    rw [← operands_recode op opcode, filled]
    exact resolved
  have mnemonic : op.mnemonic = (slots b (m :: tail)).mnemonic := by
    show (op.recode opcode).mnemonic = _
    rw [filled]
    rfl
  exact ⟨b, m, tail, rest, items, ahead, whole, count, operands, by rw [mnemonic, meant]⟩

end RealMode.Encoding
