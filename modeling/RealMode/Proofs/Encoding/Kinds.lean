/-
**Operand kinds.** The kinds of the operands are noted when the fields are read; the operands are
resolved from the same slots by other rules, which look at the address slots before the r/m code.
The two agree where the address slots are filled together and do not stand beside a register in the
place of the address, and the fields of every encoding fill them so.

* `kinds_of_operands`: slots so filled resolve to operands of the kinds that are noted.
* `addressed_slots`: the bytes of an instruction fill them so.
* `kinds_agree`: from any bit, an instruction resolves to operands of the kinds that it notes.
-/

import RealMode.Proofs.Encoding.Meaning

namespace RealMode

/-- What an operand is; a segment register is a register, and an increment a constant. -/
def Operand.kind : Operand → OperandKind
  | .register _ | .segment _ => .register
  | .memory _ => .memory
  | .immediate _ | .relative _ => .immediate

namespace Decoding

/-- A low byte of an address has the high one beside it, and no register in its place. -/
def Addressed (op : Decoding) : Prop :=
  op.addrLow.isSome → op.addrHigh.isSome ∧ (op.rm.isSome → op.mode ≠ some 3)

/-! ### The kinds one by one -/

section Kinds

variable {op : Decoding}

/-- The kind of the register operand. -/
def registerKind (op : Decoding) : Option OperandKind :=
  if op.reg.isSome ∨ op.sr.isSome then some .register else none

/-- The kind of the register or memory operand. -/
def memoryKind (op : Decoding) : Option OperandKind :=
  if op.rm.isSome then some (if op.mode = some 3 then .register else .memory)
  else op.addrLow.map fun _ => .memory

/-- Puts kinds in the order of the operands. -/
def arrangeKinds (d : Option UInt8) : Option OperandKind → Option OperandKind →
    Option OperandKind → List OperandKind
  | _, some destination, some data => [destination, data]
  | some destination, none, some data => [destination, data]
  | some reg, some rm, none => if d = some 1 then [reg, rm] else [rm, reg]
  | reg, rm, data => reg.toList ++ rm.toList ++ data.toList

theorem operandKinds_eq (op : Decoding) :
    op.operandKinds =
      if op.mnemonic.isJump then [.immediate]
      else arrangeKinds op.d op.registerKind op.memoryKind
        (op.dataLow.map fun _ => .immediate) := rfl

theorem kind_of_named {code : UInt8} {named : Operand} (found : op.namedRegister code = .ok named) :
    named.kind = .register := by
  unfold namedRegister at found
  split at found
  · cases found
  split at found
  · cases found
  · cases found
    rfl

theorem registerKind_of_operand {named : Option Operand} (found : op.registerOperand = .ok named) :
    op.registerKind = named.map Operand.kind := by
  unfold registerOperand at found
  unfold registerKind
  cases segment : op.sr with
  | some sr =>
    rw [segment] at found
    cases found
    exact if_pos (.inr rfl)
  | none =>
    rw [segment] at found
    cases general : op.reg with
    | none =>
      rw [general] at found
      cases found
      exact if_neg (by simp)
    | some code =>
      rw [general] at found
      dsimp only at found
      cases result : op.namedRegister code with
      | error e =>
        rw [result] at found
        cases found
      | ok r =>
        rw [result] at found
        cases found
        rw [if_pos (.inl rfl), Option.map_some, kind_of_named result]

/-- An r/m code stands for a register under mode 3 and for a place in memory under the others. -/
theorem kind_of_coded {code mode : UInt8} {placed : Operand}
    (found : op.codedOperand code mode = .ok placed) :
    placed.kind = if mode = 3 then .register else .memory := by
  unfold codedOperand at found
  split at found
  · cases found
  by_cases three : mode = 3
  · rw [if_pos three] at found ⊢
    exact kind_of_named found
  rw [if_neg three] at found ⊢
  split at found
  · cases found
    rfl
  split at found
  · split at found
    · cases found
      rfl
    · cases found
  split at found
  · split at found
    · cases found
      rfl
    · cases found
  · cases found

theorem memoryKind_of_operand {placed : Option Operand} (addressed : op.Addressed)
    (found : op.memoryOperand = .ok placed) : op.memoryKind = placed.map Operand.kind := by
  unfold memoryOperand at found
  unfold memoryKind
  cases low : op.addrLow with
  | some first =>
    -- a direct address, whether an r/m code stands beside it or not
    obtain ⟨high, memory⟩ := addressed (by rw [low]; rfl)
    obtain ⟨second, high⟩ := Option.isSome_iff_exists.mp high
    rw [low, high] at found
    cases found
    by_cases code : op.rm.isSome
    · rw [if_pos code, if_neg (memory code)]
      rfl
    · rw [if_neg code]
      rfl
  | none =>
    rw [low] at found
    dsimp only at found
    cases code : op.rm with
    | none =>
      rw [code] at found
      cases found
      rfl
    | some code' =>
      rw [code] at found
      cases known : op.mode with
      | none =>
        rw [known] at found
        cases found
      | some mode =>
        rw [known] at found
        dsimp only at found
        cases result : op.codedOperand code' mode with
        | error e =>
          rw [result] at found
          cases found
        | ok m =>
          rw [result] at found
          cases found
          rw [Option.map_some, kind_of_coded result]
          simp

theorem arrangeKinds_of_arrange {d : Option UInt8} {reg rm : Option Operand}
    {data : Option Immediate} {items : List Operand} (result : arrange d reg rm data = .ok items) :
    arrangeKinds d (reg.map Operand.kind) (rm.map Operand.kind) (data.map fun _ => .immediate) =
      items.map Operand.kind := by
  unfold arrange at result
  split at result
  · cases result
    rfl
  · cases result
    rfl
  · split at result
    · cases result
    · rename_i direction
      cases result
      by_cases first : direction = 1
      · rw [if_pos first, first]
        rfl
      · rw [if_neg first]
        exact if_neg fun same => first (Option.some.inj same)
  · cases result

/-- **Slots resolve to operands of the kinds that are noted**, where the address slots allow it. -/
theorem kinds_of_operands {items : List Operand} (addressed : op.Addressed)
    (resolved : op.operands = .ok items) : op.operandKinds = items.map Operand.kind := by
  rw [operandKinds_eq]
  unfold operands at resolved
  by_cases jump : op.mnemonic.isJump
  · rw [if_pos jump] at resolved ⊢
    split at resolved
    · cases resolved
    · cases resolved
      rfl
  · rw [if_neg jump] at resolved ⊢
    simp only [bind, Except.bind] at resolved
    split at resolved
    · cases resolved
    · rename_i reg named
      split at resolved
      · cases resolved
      · rename_i rm placed
        rw [registerKind_of_operand named, memoryKind_of_operand addressed placed,
          ← arrangeKinds_of_arrange resolved, immediate?, Option.map_map]
        rfl

end Kinds

end Decoding

namespace Encoding

open Decoding

/-! ### The slots of an instruction -/

/-- Of the forms of an address only the direct one fills the address slots, and it does not come
under the mode of registers. -/
theorem addressed_withAddress {op : Decoding} {m : UInt8} (known : op.mode = some (mode m))
    (free : op.addrLow = none) (used : List UInt8) : (withAddress op m used).Addressed := by
  have bare {op' : Decoding} (kept : op'.addrLow = op.addrLow) : op'.Addressed := by
    intro low
    rw [kept, free] at low
    cases low
  unfold withAddress
  by_cases direct : mode m = 0 ∧ rm m = 6
  · rw [if_pos direct]
    refine fun _ => ⟨rfl, fun _ => ?_⟩
    show op.mode ≠ some 3
    rw [known, direct.1]
    decide
  rw [if_neg direct]
  split
  · exact bare rfl
  split
  · exact bare rfl
  · exact bare rfl

theorem addressed_withData (op : Decoding) (addressed : op.Addressed) (data : List UInt8) :
    (withData op data).Addressed := by
  unfold withData
  split
  · exact addressed
  · exact addressed

/-- **The bytes of an instruction fill the address slots together** and not beside a register. -/
theorem addressed_slots (b : UInt8) (used : List UInt8) : (slots b used).Addressed := by
  unfold slots
  cases opening b with
  | unknown => exact nofun
  | unread operation => exact nofun
  | moveRegister => exact addressed_withAddress rfl rfl _
  | moveSegment => exact addressed_withAddress rfl rfl _
  | moveImmediate => exact addressed_withData _ (addressed_withAddress rfl rfl _) _
  | moveAccumulator => exact fun _ => ⟨rfl, nofun⟩
  | moveRegisterImmediate =>
    exact addressed_withData (lead b .moveRegisterImmediate) nofun used
  | arithmetic => exact addressed_withData _ (addressed_withAddress rfl rfl _) _
  | accumulator operation =>
    exact addressed_withData (lead b (.accumulator operation)) nofun used
  | jump operation => exact nofun

/-- **From any bit, an instruction resolves to operands of the kinds that it notes**, in their
order. -/
theorem kinds_agree {r r' : BitReader} {op : Decoding} (result : decode r = .ok op r') :
    ∃ items, op.operands = .ok items ∧ op.kinds = items.map Operand.kind := by
  obtain ⟨opcode, rest, came, _⟩ := ofBytes_of_decode result
  rw [ofBytes_eq_spelled] at came
  obtain ⟨b, m, tail, _, read, whole, filled, _⟩ := of_spelled_taken came
  obtain ⟨items, resolved, _⟩ := operands_slots read whole
  have noted : op.kinds = (slots b (m :: tail)).operandKinds := by
    show (op.recode opcode).kinds = _
    rw [filled]
    rfl
  refine ⟨items, ?_, noted.trans (kinds_of_operands (addressed_slots b _) resolved)⟩
  rw [← operands_recode op opcode, filled]
  exact resolved

/-- A move from memory into a word register, from the middle of the first byte on. -/
def halfway : BitReader := ⟨#[0x88, 0xB4, 0x7F, 0xE0], 4, by decide⟩

theorem kinds_agree_halfway :
    ∃ op r', decode halfway = .ok op r' ∧
      op.operands = .ok [.register .ax, .memory (.based .bx (-2))] ∧
      op.kinds = [.register, .memory] ∧
      ∃ items, op.operands = .ok items ∧ op.kinds = items.map Operand.kind := by
  have decoded : ∃ op r', decode halfway = .ok op r' ∧
      op.operands = .ok [.register .ax, .memory (.based .bx (-2))] ∧
      op.kinds = [.register, .memory] := ⟨_, _, rfl, by rfl, by rfl⟩
  obtain ⟨op, r', result, resolved, kinds⟩ := decoded
  exact ⟨op, r', result, resolved, kinds, kinds_agree result⟩

end Encoding

end RealMode
