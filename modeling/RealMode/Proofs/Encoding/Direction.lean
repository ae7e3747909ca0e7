/-
**The direction of a move.** A move between a register and a place has a bit that says which of them
is the destination; with the other value of this bit it is the same move the other way. Only the
first byte and the order of the operands change: what is refused stays refused, and what is too
short stays too short.

* `Mirrored`: two decodings of one move in its two directions.
* `slots_turn`: the slots are filled alike in both directions, but for the direction.
* `decode_turned`: a move is decoded in one direction as it is in the other.
-/

import RealMode.Proofs.Encoding.Kinds
import RealMode.Proofs.Encoding.Spelling

namespace RealMode

/-- The reader in the stream that has the other direction in the byte under the reader. -/
def BitReader.turned (r : BitReader) : BitReader where
  bytes := r.bytes.modify r.offset (· ^^^ 2)
  pos := r.pos
  pos_le := by
    rw [Array.size_modify]
    exact r.pos_le

namespace Decoding

/-- Directions that are not the same. -/
def Opposite (d d' : UInt8) : Prop := d = 0 ∧ d' = 1 ∨ d = 1 ∧ d' = 0

instance (d d' : UInt8) : Decidable (Opposite d d') := inferInstanceAs (Decidable (_ ∨ _))

/-- One move in its two directions. -/
structure Mirrored (op op' : Decoding) : Prop where
  /-- The length is the same, and so are all slots but these. -/
  rest : op' = { op with
    opcode := op'.opcode, literals := op'.literals, d := op'.d, kinds := op'.kinds }
  /-- The first bytes differ in the direction. -/
  opcode : op'.opcode = op.opcode ^^^ 2
  /-- The directions are opposite. -/
  direction : ∃ d d', Opposite d d' ∧ op.d = some d ∧ op'.d = some d'
  /-- The kinds of the operands are in reverse order. -/
  kinds : op'.kinds = op.kinds.reverse
  /-- The operands are in reverse order. -/
  operands : ∃ items, op.operands = .ok items ∧ op'.operands = .ok items.reverse

/-- The decoding with what the direction decides. -/
def redirect (op : Decoding) (opcode : UInt8) (literals : List Field) (d : UInt8) : Decoding :=
  { op with opcode, literals, d := some d }

/-! ### Operands in the other order -/

section Operands

variable {op : Decoding} {d d' : UInt8} {items : List Operand}

theorem arrange_opposite {reg rm : Option Operand} (opposite : Opposite d d')
    (result : arrange (some d) reg rm none = .ok items) :
    arrange (some d') reg rm none = .ok items.reverse := by
  match reg, rm with
  | some reg, some rm =>
    rcases opposite with ⟨rfl, rfl⟩ | ⟨rfl, rfl⟩
    · cases result
      rfl
    · cases result
      rfl
  | some _, none => cases result
  | none, some _ => cases result
  | none, none => cases result

/-- **In the other direction the operands are in reverse order.** -/
theorem operands_redirect (opposite : Opposite d d') (known : op.d = some d)
    (other : op.mnemonic.isJump = false) (bare : op.dataLow = none)
    (resolved : op.operands = .ok items) (opcode : UInt8) (literals : List Field) :
    (op.redirect opcode literals d').operands = .ok items.reverse := by
  have free : op.immediate? = none := by
    rw [immediate?, bare]
    rfl
  have same : (op.redirect opcode literals d').operands = (do
      let reg ← op.registerOperand
      let rm ← op.memoryOperand
      arrange (some d') reg rm op.immediate?) := if_neg (by simp [redirect, other])
  rw [operands, if_neg (by simp [other]), known, free] at resolved
  rw [same, free]
  simp only [bind, Except.bind] at resolved ⊢
  cases named : op.registerOperand with
  | error e =>
    rw [named] at resolved
    cases resolved
  | ok reg =>
    rw [named] at resolved
    cases placed : op.memoryOperand with
    | error e =>
      rw [placed] at resolved
      cases resolved
    | ok rm =>
      rw [placed] at resolved
      exact arrange_opposite opposite resolved

end Operands

end Decoding

namespace Encoding

open ByteReading Decoding

/-! ### First bytes -/

/-- The first bytes of the moves that have a direction. -/
def directed : List UInt8 := [0x88, 0x89, 0x8A, 0x8B, 0x8C, 0x8E, 0xA0, 0xA1, 0xA2, 0xA3]

section Turn

variable {b m : UInt8} {used rest : List UInt8}

theorem opening_directed : ∀ b ∈ directed,
    opening b = .moveRegister ∨ opening b = .moveSegment ∨ opening b = .moveAccumulator := by
  decide +kernel

theorem opening_turn : ∀ b ∈ directed, opening (b ^^^ 2) = opening b := by
  decide +kernel

theorem wBit_turn : ∀ b ∈ directed, wBit (b ^^^ 2) = wBit b := by
  decide +kernel

theorem dBit_turn : ∀ b ∈ directed, Opposite (dBit b) (dBit (b ^^^ 2)) := by
  decide +kernel

/-- The moves of the accumulator have their direction the other way round. -/
theorem low_turn : ∀ b ∈ directed, opening b = .moveAccumulator →
    Opposite (if b ≤ 0xA1 then 1 else 0) (if b ^^^ 2 ≤ 0xA1 then 1 else 0) := by
  decide +kernel

/-! ### The slots in the two directions -/

theorem withAddress_redirect (op : Decoding) (opcode : UInt8) (literals : List Field) (d m : UInt8)
    (used : List UInt8) :
    withAddress (op.redirect opcode literals d) m used =
      (withAddress op m used).redirect opcode literals d := by
  unfold withAddress
  split
  · rfl
  split
  · rfl
  split
  · rfl
  · rfl

/-- The decoding is a move that starts with `b`, has the direction `d` and names no constant. -/
structure Move (op : Decoding) (b d : UInt8) : Prop where
  opcode : op.opcode = b
  mnemonic : op.mnemonic = .mov
  d : op.d = some d
  bare : op.dataLow = none

theorem move_withAddress {op : Decoding} {d : UInt8} (move : Move op b d) (m : UInt8)
    (used : List UInt8) : Move (withAddress op m used) b d := by
  obtain ⟨addrLow, addrHigh, dispLow, dispHigh, filled⟩ := withAddress_eq op m used
  rw [filled]
  exact ⟨move.opcode, move.mnemonic, move.d, move.bare⟩

/-- **The slots are filled alike in both directions**, but for the direction. -/
theorem slots_turn (turns : b ∈ directed) (used : List UInt8) :
    ∃ literals d d', Opposite d d' ∧ Move (slots b used) b d ∧
      slots (b ^^^ 2) used = (slots b used).redirect (b ^^^ 2) literals d' := by
  have width := wBit_turn b turns
  have opposite := dBit_turn b turns
  unfold slots
  rw [opening_turn b turns]
  rcases opening_directed b turns with kind | kind | kind
  · rw [kind]
    refine ⟨[.literal 0b100010 6], dBit b, dBit (b ^^^ 2), opposite, ?_, ?_⟩
    · exact move_withAddress ⟨rfl, rfl, rfl, rfl⟩ _ _
    · dsimp only
      rw [← withAddress_redirect]
      simp only [lead, withModRM, redirect, width]
  · rw [kind]
    refine ⟨[.literal 0b100011 6, .literal 0 1, .literal 0 1], dBit b, dBit (b ^^^ 2), opposite,
      ?_, ?_⟩
    · dsimp only
      rw [withAddress_w]
      exact move_withAddress ⟨rfl, rfl, rfl, rfl⟩ _ _
    · dsimp only
      rw [withAddress_w, withAddress_w, ← withAddress_redirect]
      rfl
  · rw [kind]
    refine ⟨[.literal (if b ^^^ 2 ≤ 0xA1 then 0b1010000 else 0b1010001) 7], _, _,
      low_turn b turns kind, ⟨rfl, rfl, rfl, rfl⟩, ?_⟩
    simp only [lead, redirect, width]

theorem mirrored_slots {tail : List UInt8} (turns : b ∈ directed)
    (read : refusal? b (some m) = none) (whole : tail.length = beyond b m) (count : Nat) :
    Mirrored (finish count (slots b (m :: tail))) (finish count (slots (b ^^^ 2) (m :: tail))) := by
  obtain ⟨literals, d, d', opposite, move, turned⟩ := slots_turn turns (m :: tail)
  obtain ⟨items, resolved, _⟩ := operands_slots read whole
  have other : (slots b (m :: tail)).mnemonic.isJump = false := by
    rw [move.mnemonic]
    rfl
  have reversed : (slots (b ^^^ 2) (m :: tail)).operands = .ok items.reverse := by
    rw [turned]
    exact operands_redirect opposite move.d other move.bare resolved _ _
  refine ⟨?_, ?_, ⟨d, d', opposite, move.d, ?_⟩, ?_, items, resolved, reversed⟩
  · rw [turned]
    rfl
  · rw [turned]
    show b ^^^ 2 = (slots b (m :: tail)).opcode ^^^ 2
    rw [move.opcode]
  · rw [turned]
    rfl
  · show operandKinds _ = (operandKinds _).reverse
    rw [kinds_of_operands (addressed_slots _ _) reversed,
      kinds_of_operands (addressed_slots _ _) resolved, List.map_reverse]

/-! ### The bytes in the two directions -/

/-- Moves in opposite directions are refused alike, each for its own first byte. -/
theorem refusal?_turn (turns : b ∈ directed) (second? : Option UInt8) :
    refusal? b second? = none ∧ refusal? (b ^^^ 2) second? = none ∨
      refusal? b second? = some (.opcode b) ∧
        refusal? (b ^^^ 2) second? = some (.opcode (b ^^^ 2)) := by
  unfold refusal?
  rw [opening_turn b turns]
  rcases opening_directed b turns with kind | kind | kind
  · rw [kind]
    exact .inl ⟨rfl, rfl⟩
  · rw [kind]
    cases second? with
    | none => exact .inl ⟨rfl, rfl⟩
    | some m =>
      by_cases clear : aboveSr m = 0
      · exact .inl ⟨if_pos clear, if_pos clear⟩
      · exact .inr ⟨if_neg clear, if_neg clear⟩
  · rw [kind]
    exact .inl ⟨rfl, rfl⟩

theorem need_turn (turns : b ∈ directed) (m : UInt8) : need (b ^^^ 2) m = need b m := by
  unfold need beyond
  rw [opening_turn b turns]
  rcases opening_directed b turns with kind | kind | kind <;> rw [kind]

/-- What a move that starts with `b` is spelled as, and the same in the other direction. -/
inductive Alike (b : UInt8) : Outcome Decoding → Outcome Decoding → Prop
  | taken {op op' : Decoding} {rest : List UInt8} (mirrored : Mirrored op op') :
    Alike b (.taken op rest) (.taken op' rest)
  | refused : Alike b (.refused (.opcode b)) (.refused (.opcode (b ^^^ 2)))
  | ended : Alike b .ended .ended

/-- **Moves in opposite directions are spelled alike**: both are taken, refused or too short. -/
theorem spelled_turn (turns : b ∈ directed) (rest : List UInt8) :
    Alike b (spelled (b :: rest)) (spelled ((b ^^^ 2) :: rest)) := by
  rw [spelled_cons, spelled_cons, need_turn turns]
  rcases refusal?_turn turns rest.head? with ⟨read, read'⟩ | ⟨refused, refused'⟩
  · rw [read, read']
    dsimp only
    by_cases enough : need b (rest.headD 0) ≤ rest.length + 1
    · rw [if_pos enough, if_pos enough]
      match rest with
      | [] =>
        simp only [need, List.length_nil] at enough
        omega
      | m :: tail =>
        have two : need b m = beyond b m + 1 + 1 := by unfold need; omega
        simp only [List.headD_cons, two, List.length_cons, Nat.add_le_add_iff_right] at enough
        rw [List.headD_cons, two, Nat.add_sub_cancel, List.take_succ_cons]
        have whole : (tail.take (beyond b m)).length = beyond b m := by
          rw [List.length_take, Nat.min_eq_left enough]
        exact .taken (mirrored_slots turns read whole _)
    · rw [if_neg enough, if_neg enough]
      exact .ended
  · rw [refused, refused']
    exact .refused

/-- The turned stream differs in the byte under the reader alone. -/
theorem ahead_turned {r : BitReader} (ahead : r.bytes.toList.drop r.offset = b :: rest) :
    r.turned.bytes.toList.drop r.turned.offset = (b ^^^ 2) :: rest := by
  show (r.bytes.modify r.offset (· ^^^ 2)).toList.drop r.offset = _
  rw [Array.toList_modify]
  apply List.ext_getElem?
  intro k
  have same := congrArg (·[k]?) ahead
  rw [List.getElem?_drop] at same ⊢
  rw [List.getElem?_modify, same]
  cases k with
  | zero => simp
  | succ k => simp

end Turn

/-- What decoding gives where the bytes ahead spell the outcome. -/
def answer (size : Nat) (r' : BitReader) :
    Outcome Decoding → EStateM.Result DecodeError BitReader Decoding
  | .taken op _ => .ok op r'
  | .refused refusal => .error refusal.cause r'
  | .ended => .error (.truncated size) r'

theorem decode_eq_answer (r : BitReader) (aligned : r.pos % 8 = 0) :
    ∃ r', decode r = answer r.bytes.size r' (spelled (r.bytes.toList.drop r.offset)) := by
  cases result : decode r with
  | ok op r' =>
    rw [(spelled_of_decode_ok aligned result).1]
    exact ⟨r', rfl⟩
  | error cause r' =>
    rcases spelled_of_decode_error aligned result with ⟨refusal, came, rfl⟩ | ⟨came, rfl⟩
    · rw [came]
      exact ⟨r', rfl⟩
    · rw [came]
      exact ⟨r', rfl⟩

/-- **A move is decoded in one direction as it is in the other**: with its operands in reverse
order, or not at all. -/
theorem decode_turned {r : BitReader} {b : UInt8} (aligned : r.pos % 8 = 0)
    (under : r.peek? = some b) (turns : b ∈ directed) :
    match decode r, decode r.turned with
    | .ok op _, .ok op' _ => Mirrored op op'
    | .error cause _, .error cause' _ =>
      (∃ offset, cause = .truncated offset ∧ cause' = .truncated offset) ∨
        cause = .unknownOpcode b ∧ cause' = .unknownOpcode (b ^^^ 2)
    | _, _ => False := by
  obtain ⟨rest, ahead⟩ : ∃ rest, r.bytes.toList.drop r.offset = b :: rest := by
    rw [BitReader.peek?, ← Array.getElem?_toList, ← List.head?_drop] at under
    obtain ⟨rest, ahead⟩ := List.head?_eq_some_iff.mp under
    exact ⟨rest, ahead⟩
  obtain ⟨r', here⟩ := decode_eq_answer r aligned
  obtain ⟨s', there⟩ := decode_eq_answer r.turned aligned
  have alike := spelled_turn turns rest
  rw [here, there, ahead, ahead_turned ahead,
    show r.turned.bytes.size = r.bytes.size from Array.size_modify]
  generalize spelled (b :: rest) = outcome at alike
  generalize spelled ((b ^^^ 2) :: rest) = outcome' at alike
  cases alike with
  | taken mirrored => exact mirrored
  | refused => exact .inr ⟨rfl, rfl⟩
  | ended => exact .inl ⟨_, rfl, rfl⟩

/-- A move of a segment register into memory, after another byte; the other direction loads it. -/
def storeSegment : BitReader := (BitReader.ofBytes #[0x90, 0x8C, 0x58, 0xFE, 0x90]).seek 1

theorem decode_turned_storeSegment :
    storeSegment.pos % 8 = 0 ∧ storeSegment.peek? = some 0x8C ∧ 0x8C ∈ directed ∧
      ∃ op op' r' s', decode storeSegment = .ok op r' ∧ decode storeSegment.turned = .ok op' s' ∧
        op.operands = .ok [.memory (.based .bxSi (-2)), .segment .ds] ∧ Mirrored op op' := by
  have aligned : storeSegment.pos % 8 = 0 := by decide
  have under : storeSegment.peek? = some 0x8C := by rfl
  have turns : 0x8C ∈ directed := by decide
  have decoded : ∃ op op' r' s', decode storeSegment = .ok op r' ∧
      decode storeSegment.turned = .ok op' s' ∧
      op.operands = .ok [.memory (.based .bxSi (-2)), .segment .ds] :=
    ⟨_, _, _, _, rfl, rfl, by rfl⟩
  obtain ⟨op, op', r', s', result, result', resolved⟩ := decoded
  have mirrored := decode_turned aligned under turns
  rw [result, result'] at mirrored
  exact ⟨aligned, under, turns, op, op', r', s', result, result', resolved, mirrored⟩

end Encoding

end RealMode
