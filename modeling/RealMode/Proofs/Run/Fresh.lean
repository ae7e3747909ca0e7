/-
**Fresh starts.** At the start of a byte, what a machine reads is told by the bytes from there on:
the same instruction, or the same failure, comes from a fresh reader of these bytes alone, and only
offsets and the size of the stream are counted from another place.

* `fresh_of_emitted`: an instruction, offset aside, is what a fresh step yields.
* `fresh_of_trapped`: a fresh decoding fails where a step fails, with the same error.
-/

import RealMode.Machine
import RealMode.Proofs.Encoding.Meaning

namespace RealMode

open BitReader Encoding

/-- The error in a stream with `before` more bytes in front. -/
def DecodeError.later (before : Nat) : DecodeError → DecodeError
  | .truncated size => .truncated (before + size)
  | .unknownOpcode opcode => .unknownOpcode opcode
  | .unimplemented opcode operation => .unimplemented opcode operation
  | .addressing fault => .addressing fault
  | .fieldWidth width => .fieldWidth width
  | .registerCode code => .registerCode code

/-- A fresh reader of a stream from byte `offset` on. -/
def BitReader.freshAt (bytes : Array UInt8) (offset : Nat) : BitReader :=
  .ofBytes (bytes.extract offset bytes.size)

/-- The instruction has the bytes of its place, and is, offset aside, what a fresh step yields
there. -/
def Instruction.Fresh (bytes : Array UInt8) (i : Instruction) : Prop :=
  i.bytes = bytes.extract i.offset (i.offset + i.decoding.length) ∧
    ∀ m : Machine, ∃ r',
      m.step (freshAt bytes i.offset) = .emitted { i with offset := 0 } (m.execute i) r'

/-- A fresh decoding at the place of the failure fails with the same error. -/
def Trap.Fresh (bytes : Array UInt8) (t : Trap) : Prop :=
  ∃ cause r', Decoding.decode (freshAt bytes t.offset) = .error cause r' ∧
    t.cause = cause.later t.offset

/-! ### What is ahead of a fresh reader -/

theorem offset_freshAt (bytes : Array UInt8) (offset : Nat) : (freshAt bytes offset).offset = 0 :=
  Nat.zero_div 8

theorem ahead_freshAt (bytes : Array UInt8) (offset : Nat) :
    (freshAt bytes offset).bytes.toList.drop (freshAt bytes offset).offset =
      bytes.toList.drop offset := by
  rw [offset_freshAt, List.drop_zero]
  simp only [freshAt, ofBytes, Array.toList_extract, List.extract_eq_take_drop,
    ← Array.length_toList, ← List.length_drop, List.take_length]

theorem verdict_later (before size : Nat) (bytes : List UInt8) :
    verdict (before + size) bytes = (verdict size bytes).mapError (DecodeError.later before) := by
  rw [verdict_eq, verdict_eq]
  cases spelled bytes with
  | taken op rest => rfl
  | refused refusal => cases refusal <;> rfl
  | ended => rfl

/-! ### Readings as decodings -/

section Reading

variable {r r' : BitReader} {i : Instruction} {cause : DecodeError}

theorem of_read_ok (result : Instruction.read r = .ok i r') :
    Decoding.decode r = .ok i.decoding r' ∧ i.decoding.operands = .ok i.operands ∧
      i.offset = r.offset ∧ i.bytes = r'.bytes.extract r.offset (r.offset + i.decoding.length) := by
  unfold Instruction.read at result
  split at result
  · cases result
  · rename_i decoded
    split at result
    · cases result
    · rename_i resolved
      cases result
      exact ⟨decoded, resolved, rfl, rfl⟩

theorem read_eq_ok {op : Decoding} {items : List Operand} (decoded : Decoding.decode r = .ok op r')
    (resolved : op.operands = .ok items) :
    Instruction.read r =
      .ok { offset := r.offset, bytes := r'.bytes.extract r.offset (r.offset + op.length)
            decoding := op, operands := items } r' := by
  rw [Instruction.read, decoded]
  dsimp only
  rw [resolved]

/-- A reading fails only where the decoding does. -/
theorem decode_of_read_error (result : Instruction.read r = .error cause r') :
    Decoding.decode r = .error cause r' := by
  unfold Instruction.read at result
  split at result
  · rename_i failed
    cases result
    exact failed
  · rename_i decoded
    obtain ⟨_, _, _, _, items, _, _, _, resolved, _⟩ := meaning_of_decode decoded
    rw [resolved] at result
    cases result

end Reading

/-! ### Steps against fresh starts -/

section Step

variable {m m' : Machine} {r r' : BitReader} {i : Instruction} {t : Trap}

theorem offset_le_of_step (more : r.atEnd = false) : r.offset < r.bytes.size := by
  simp only [atEnd, decide_eq_false_iff_not] at more
  simp only [BitReader.offset]
  omega

/-- Where an instruction was read, it has its place and takes its bytes. -/
theorem moved_of_emitted (aligned : r.pos % 8 = 0) (result : m.step r = .emitted i m' r') :
    i.offset = r.offset ∧ r'.bytes = r.bytes ∧ r'.pos = r.pos + 8 * i.decoding.length ∧
      0 < i.decoding.length := by
  obtain ⟨_, found, _⟩ := Machine.step_emitted result
  obtain ⟨decoded, _, place, _⟩ := of_read_ok found
  obtain ⟨_, same, moved⟩ := spelled_of_decode_ok aligned decoded
  have further := Decoding.pos_lt_of_decode decoded
  exact ⟨place, same, moved, by omega⟩

/-- **An instruction, offset aside, is what a fresh step yields.** -/
theorem fresh_of_emitted (aligned : r.pos % 8 = 0) (result : m.step r = .emitted i m' r') :
    i.Fresh r.bytes := by
  obtain ⟨_, found, _⟩ := Machine.step_emitted result
  obtain ⟨decoded, resolved, place, bytes⟩ := of_read_ok found
  obtain ⟨came, same, moved⟩ := spelled_of_decode_ok aligned decoded
  rw [same, ← place] at bytes
  refine ⟨bytes, fun m => ?_⟩
  rw [← ahead_freshAt] at came
  obtain ⟨fresh', again⟩ := exists_decode_ok rfl came
  have kept := (spelled_of_decode_ok rfl again).2.1
  have further := Decoding.pos_lt_of_decode again
  have bound := fresh'.pos_le
  have more : (freshAt r.bytes r.offset).atEnd = false := by
    simp only [atEnd, decide_eq_false_iff_not]
    rw [kept] at bound
    omega
  have inside : i.offset + i.decoding.length ≤ r.bytes.size := by
    have bound := r'.pos_le
    rw [same, moved] at bound
    rw [place, BitReader.offset]
    omega
  -- the bytes of the instruction, cut out of what is ahead of the fresh reader
  have cut : fresh'.bytes.extract 0 (0 + i.decoding.length) = i.bytes := by
    rw [kept, bytes, ← place]
    show (r.bytes.extract i.offset r.bytes.size).extract 0 (0 + i.decoding.length) = _
    rw [Array.extract_extract, Nat.zero_add, Nat.add_zero, Nat.min_eq_left inside]
  refine ⟨fresh', ?_⟩
  rw [place, Machine.step, more, read_eq_ok again resolved, offset_freshAt, cut]
  rfl

/-- **A fresh decoding fails where a step fails**, with the same error. -/
theorem fresh_of_trapped (aligned : r.pos % 8 = 0) (result : m.step r = .trapped t r') :
    t.Fresh r.bytes := by
  obtain ⟨more, failed, place⟩ := Machine.step_trapped result
  have before := offset_le_of_step more
  have whole : r.bytes.size = r.offset + (freshAt r.bytes r.offset).bytes.size := by
    simp only [freshAt, ofBytes, Array.size_extract]
    omega
  have verdicts := verdict_of_decode_error aligned (decode_of_read_error failed)
  rw [whole, verdict_later, ← ahead_freshAt] at verdicts
  cases came : verdict (freshAt r.bytes r.offset).bytes.size
      ((freshAt r.bytes r.offset).bytes.toList.drop (freshAt r.bytes r.offset).offset) with
  | ok length =>
    rw [came] at verdicts
    cases verdicts
  | error cause =>
    rw [came] at verdicts
    obtain ⟨fresh', again⟩ := exists_decode_error rfl came
    rw [← place] at again verdicts
    exact ⟨cause, fresh', again, (Except.error.inj verdicts).symm⟩

end Step

end RealMode
