/-
**Well-typed assembly.** An instruction has operands that belong together: a jump has its increment
alone, and any other operation a destination and a source of one width, of which at most one is in
memory. From any bit of a stream, what is decoded is well typed.

* `typed_of_meaning`: the bytes of an instruction mean well-typed assembly.
* `run_typed`: every instruction of a run is well typed.
-/

import RealMode.Proofs.Run.Fresh
import RealMode.Proofs.Run.Policies

namespace RealMode

open BitReader Decoding Encoding

/-! ### Types -/

/-- The width of a register. -/
def Register.width (r : Register) : DataWidth :=
  match r.part with
  | .full => .word
  | .low | .high => .byte

/-- The operations with two operands. -/
def Mnemonic.isBinary : Mnemonic → Bool
  | mov | add | sub | cmp => true
  | _ => false

/-- A constant for a byte is a signed byte. -/
def Immediate.Fits (i : Immediate) : Prop :=
  i.width = .byte → -128 ≤ i.value.toInt ∧ i.value.toInt ≤ 127

namespace Operand

/-- The operand is a register of this width; a segment register is a word. -/
def Names (w : DataWidth) : Operand → Prop
  | register r => r.width = w
  | segment _ => w = .word
  | memory _ | immediate _ | relative _ => False

/-- The operand is a general register of this width, or is in memory. -/
def Spans (w : DataWidth) : Operand → Prop
  | register r => r.width = w
  | memory _ => True
  | segment _ | immediate _ | relative _ => False

end Operand

/-- The operands belong to the operation and to each other. -/
inductive WellTyped : Mnemonic → List Operand → Prop
  | jump {operation : Mnemonic} (increment : Int8) (jumps : operation.isJump) :
    WellTyped operation [.relative increment]
  | constant {operation : Mnemonic} {destination : Operand} {i : Immediate}
    (binary : operation.isBinary) (spans : destination.Spans i.width) (fits : i.Fits) :
    WellTyped operation [destination, .immediate i]
  | load {w : DataWidth} {named placed : Operand} (names : named.Names w)
    (spans : placed.Spans w) : WellTyped .mov [named, placed]
  | store {w : DataWidth} {named placed : Operand} (names : named.Names w)
    (spans : placed.Spans w) : WellTyped .mov [placed, named]

namespace Encoding

/-! ### The meaning of bytes is well typed -/

/-- The width that the bit `w` stands for. -/
def widthOf (w : UInt8) : DataWidth := if w = 1 then .word else .byte

theorem width_register (w code : UInt8) : (register w code).width = widthOf w := by
  unfold register widthOf
  split
  · unfold wordRegister
    split <;> rfl
  · unfold byteRegister
    split <;> rfl

theorem names_register (w code : UInt8) :
    (Operand.register (register w code)).Names (widthOf w) := width_register w code

theorem names_segment (s : SegmentRegister) : (Operand.segment s).Names (widthOf 1) := rfl

theorem spans_memory (w : DataWidth) (place : MemoryRef) : (Operand.memory place).Spans w := trivial

theorem spans_of_place {w m : UInt8} {address : List UInt8} {placed : Operand}
    (meant : place w m address = some placed) : placed.Spans (widthOf w) := by
  unfold place at meant
  rcases mode_cases m with zero | one | two | three
  · rw [zero] at meant
    by_cases direct : rm m = 6
    · match address, meant with
      | [], meant => cases meant.symm.trans (if_pos direct)
      | [low, high], meant =>
        cases meant.symm.trans (if_pos direct)
        exact spans_memory _ _
    · match address, meant with
      | [], meant =>
        cases meant.symm.trans (if_neg direct)
        exact spans_memory _ _
      | [low, high], meant => cases meant.symm.trans (if_neg direct)
  · rw [one] at meant
    match address, meant with
    | [low], rfl => exact spans_memory _ _
  · rw [two] at meant
    match address, meant with
    | [low, high], rfl => exact spans_memory _ _
  · rw [three] at meant
    match address, meant with
    | [], rfl => exact width_register w _

theorem signedByte_bounds (b : UInt8) : -128 ≤ signedByte b ∧ signedByte b ≤ 127 := by
  have bound := b.toNat_lt
  unfold signedByte
  split
  · rename_i small
    have small : b.toNat < 128 := small
    omega
  · rename_i large
    have large : ¬b.toNat < 128 := large
    omega

theorem fits_of_constant {w : UInt8} {data : List UInt8} {source : Operand}
    (narrow : w ≠ 1 → data.length ≤ 1) (meant : constant w data = some source) :
    ∃ i, source = .immediate i ∧ i.width = widthOf w ∧ i.Fits := by
  unfold constant at meant
  match data, narrow, meant with
  | [low], _, rfl =>
    refine ⟨_, rfl, rfl, fun _ => ?_⟩
    have bounds := signedByte_bounds low
    dsimp only
    rw [Int16.toInt_ofInt_of_le (by omega) (by omega)]
    exact bounds
  | [low, high], narrow, rfl =>
    refine ⟨_, rfl, rfl, fun byte => ?_⟩
    have word : w = 1 := Decidable.byContradiction fun other => absurd (narrow other) (by simp)
    rw [if_pos word] at byte
    cases byte

theorem isBinary_groupOperation {code : UInt8} {operation : Mnemonic}
    (chosen : groupOperation? code = some operation) : operation.isBinary := by
  unfold groupOperation? at chosen
  split at chosen
  · cases chosen
    rfl
  split at chosen
  · cases chosen
    rfl
  split at chosen
  · cases chosen
    rfl
  · cases chosen

/-- The operations that a first byte announces have the operands that follow it. -/
theorem opening_isBinary (b : UInt8) :
    (match opening b with
      | .jump operation => operation.isJump
      | .accumulator operation => operation.isBinary
      | _ => true) = true :=
  forall_byte b (by decide +kernel)

/-- In the arithmetic group, a byte form has one data byte. -/
theorem narrow_arithmetic {b : UInt8} (kind : opening b = .arithmetic) (narrow : wBit b ≠ 1) :
    b ≠ 0x81 := by
  revert kind narrow
  exact forall_byte b (by decide +kernel)

/-- The bit that stands for words is clear or set. -/
theorem toNat_of_narrow {b : UInt8} (narrow : b &&& 1 ≠ 1) : (b &&& 1).toNat = 0 := by
  rw [(bit_cases b).resolve_right narrow]
  rfl

/-- A register and a place in the order that the direction bit gives. -/
theorem typed_move {w : DataWidth} {named placed : Operand} (names : named.Names w)
    (spans : placed.Spans w) (first : Prop) [Decidable first] :
    WellTyped .mov (if first then [named, placed] else [placed, named]) := by
  split
  · exact .load names spans
  · exact .store names spans

section Typed

variable {b m : UInt8} {tail : List UInt8} {operation : Mnemonic} {items : List Operand}

/-- A place and a constant after the ModRM byte. -/
theorem typed_place_constant {w : UInt8} {placed source : Operand} {address data : List UInt8}
    (binary : operation.isBinary) (narrow : w ≠ 1 → data.length ≤ 1)
    (meantPlace : place w m address = some placed) (meant : constant w data = some source) :
    WellTyped operation [placed, source] := by
  obtain ⟨i, rfl, width, fits⟩ := fits_of_constant narrow meant
  have spans := spans_of_place meantPlace
  rw [← width] at spans
  exact .constant binary spans fits

/-- A register and a constant. -/
theorem typed_register_constant {w code : UInt8} {source : Operand} {data : List UInt8}
    (binary : operation.isBinary) (narrow : w ≠ 1 → data.length ≤ 1)
    (meant : constant w data = some source) :
    WellTyped operation [.register (register w code), source] := by
  obtain ⟨i, rfl, width, fits⟩ := fits_of_constant narrow meant
  exact .constant binary ((width_register w code).trans width.symm) fits

/-- **The bytes of an instruction mean well-typed assembly.** -/
theorem typed_of_meaning (whole : tail.length = beyond b m)
    (meant : meaning (b :: m :: tail) = some (operation, items)) : WellTyped operation items := by
  have known := opening_isBinary b
  unfold beyond at whole
  unfold meaning at meant
  dsimp only at meant
  cases kind : opening b with
  | unknown =>
    rw [kind] at meant
    cases meant
  | unread _ =>
    rw [kind] at meant
    cases meant
  | moveRegister =>
    rw [kind] at meant
    obtain ⟨placed, spanned, meant⟩ := Option.bind_eq_some_iff.mp meant
    cases meant
    exact typed_move (names_register _ _) (spans_of_place spanned) _
  | moveSegment =>
    rw [kind] at meant
    obtain ⟨placed, spanned, meant⟩ := Option.bind_eq_some_iff.mp meant
    cases meant
    exact typed_move (names_segment _) (spans_of_place spanned) _
  | moveImmediate =>
    rw [kind] at meant whole
    obtain ⟨placed, spanned, meant⟩ := Option.bind_eq_some_iff.mp meant
    obtain ⟨source, held, meant⟩ := Option.bind_eq_some_iff.mp meant
    cases meant
    refine typed_place_constant rfl (fun narrow => ?_) spanned held
    dsimp only at whole
    have zero : (wBit b).toNat = 0 := toNat_of_narrow narrow
    rw [List.length_drop]
    omega
  | moveAccumulator =>
    rw [kind] at meant whole
    match tail, whole with
    | [high], _ =>
      cases meant
      exact typed_move (names_register _ _) (spans_memory _ _) _
  | moveRegisterImmediate =>
    rw [kind] at meant whole
    obtain ⟨source, held, meant⟩ := Option.bind_eq_some_iff.mp meant
    cases meant
    refine typed_register_constant rfl (fun narrow => ?_) held
    dsimp only at whole
    have zero : (upperWBit b).toNat = 0 := toNat_of_narrow narrow
    rw [List.length_cons]
    omega
  | arithmetic =>
    rw [kind] at meant whole
    obtain ⟨chosen, group, meant⟩ := Option.bind_eq_some_iff.mp meant
    obtain ⟨placed, spanned, meant⟩ := Option.bind_eq_some_iff.mp meant
    obtain ⟨source, held, meant⟩ := Option.bind_eq_some_iff.mp meant
    cases meant
    refine typed_place_constant (isBinary_groupOperation group) (fun narrow => ?_) spanned held
    dsimp only at whole
    rw [if_neg (narrow_arithmetic kind narrow)] at whole
    rw [List.length_drop]
    omega
  | accumulator chosen =>
    rw [kind] at meant whole known
    obtain ⟨source, held, meant⟩ := Option.bind_eq_some_iff.mp meant
    cases meant
    refine typed_register_constant known (fun narrow => ?_) held
    dsimp only at whole
    have zero : (wBit b).toNat = 0 := toNat_of_narrow narrow
    rw [List.length_cons]
    omega
  | jump chosen =>
    rw [kind] at meant whole known
    match tail, whole with
    | [], _ =>
      cases meant
      exact .jump _ known

end Typed

/-! ### Runs -/

/-- What is read as an instruction is well typed. -/
theorem typed_of_read {r r' : BitReader} {i : Instruction}
    (result : Instruction.read r = .ok i r') : WellTyped i.mnemonic i.operands := by
  obtain ⟨decoded, resolved, _⟩ := of_read_ok result
  obtain ⟨b, m, tail, _, items, _, whole, _, operands, meant⟩ := meaning_of_decode decoded
  rw [operands] at resolved
  cases resolved
  exact typed_of_meaning whole meant

end Encoding

/-- **Every instruction of a run is well typed**, whatever the stream and the bit it starts at. -/
theorem run_typed (m : Machine) (r : BitReader) :
    ∀ i ∈ (m.run r).instructions, WellTyped i.mnemonic i.operands := by
  intro i member
  obtain ⟨m₁, r₁, m₂, r₂, emitted⟩ := Machine.step_of_instruction m r i member
  exact typed_of_read (Machine.step_emitted emitted).2.1

end RealMode
