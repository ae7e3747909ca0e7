/-
**The bytes that spell an instruction.** At the start of a byte decoding is one reading of whole
bytes, so the bytes that it consumes spell the instruction wherever they stand: what is before and
after them plays no part, and while one of them is missing more are wanted.

* `spells_of_decode`: the bytes that a decoding consumes spell what it gives.
* `decode_of_spells`: where such bytes stand, they are decoded.
* `decode_cut`: a part of them, as a stream of its own, is wanting.
* `decode_extend`: a refusal stands when the stream goes on.
-/

import RealMode.Proofs.Encoding.Extent

namespace RealMode

/-- The next `count` bytes, from the byte under the reader on. -/
def BitReader.front (r : BitReader) (count : Nat) : List UInt8 :=
  (r.bytes.toList.drop r.offset).take count

/-- The reader in the stream that goes on with `more`. -/
def BitReader.extend (r : BitReader) (more : Array UInt8) : BitReader where
  bytes := r.bytes ++ more
  pos := r.pos
  pos_le := by
    have bound := r.pos_le
    rw [Array.size_append]
    omega

/-- The stream ended too early. -/
def DecodeError.isTruncated : DecodeError → Bool
  | .truncated _ => true
  | .unknownOpcode _ | .unimplemented _ _ | .addressing _ | .fieldWidth _ | .registerCode _ => false

namespace Encoding

open ByteReading Decoding

/-- Decoding as a reading of whole bytes. -/
def instruction : ByteReading Decoding :=
  .next fun b =>
    (layout b (lead b (opening b)) (opening b)).measured fun count => finish (count + 1)

theorem run_instruction (bytes : List UInt8) : instruction.run bytes = spelled bytes := by
  cases bytes <;> rfl

theorem isTruncated_cause (refusal : Refusal) : refusal.cause.isTruncated = false := by
  cases refusal <;> rfl

section Aligned

variable {r r' s : BitReader} {op op' : Decoding} {cause : DecodeError} {used rest : List UInt8}

/-- **The bytes that a decoding consumes spell what it gives.** -/
theorem spells_of_decode (aligned : r.pos % 8 = 0) (result : decode r = .ok op r') :
    instruction.Spells (r.front op.length) op ∧ (r.front op.length).length = op.length := by
  obtain ⟨came, _, _⟩ := spelled_of_decode_ok aligned result
  obtain ⟨used, split, spells⟩ := spells_of_run ((run_instruction _).trans came)
  have enough := (rest_of_spelled came).1
  have count := congrArg List.length split
  simp only [List.length_append, List.length_drop] at count enough
  have whole : used.length = op.length := by omega
  have own : r.front op.length = used := by
    rw [BitReader.front, split, ← whole]
    exact List.take_left
  rw [own]
  exact ⟨spells, whole⟩

/-- Where bytes stand that spell an instruction, they are decoded. -/
theorem decode_of_spells (aligned : s.pos % 8 = 0) (spells : instruction.Spells used op)
    (ahead : s.bytes.toList.drop s.offset = used ++ rest) : ∃ s', decode s = .ok op s' := by
  have came : spelled (s.bytes.toList.drop s.offset) = .taken op rest := by
    rw [ahead, ← run_instruction]
    exact spells.taken rest
  exact exists_decode_ok aligned came

theorem ahead_ofBytes (bytes : List UInt8) :
    (BitReader.ofBytes bytes.toArray).bytes.toList.drop (BitReader.ofBytes bytes.toArray).offset =
      bytes := by
  show bytes.drop (0 / 8) = bytes
  rfl

/-- **A part of the bytes of an instruction**, as a stream of its own, is wanting. -/
theorem decode_cut (spells : instruction.Spells used op) {k : Nat} (short : k < used.length) :
    ∃ s', decode (.ofBytes (used.take k).toArray) = .error (.truncated k) s' := by
  refine exists_decode_error rfl ?_
  have size : (BitReader.ofBytes (used.take k).toArray).bytes.size = k := by
    show (used.take k).toArray.size = k
    rw [List.size_toArray, List.length_take]
    omega
  rw [ahead_ofBytes, verdict_eq, ← run_instruction, spells.wanted k short, size]

/-- Why a decoding failed: the bytes ahead are refused, or there are not enough of them. -/
theorem spelled_of_decode_error (aligned : r.pos % 8 = 0) (result : decode r = .error cause r') :
    (∃ refusal, spelled (r.bytes.toList.drop r.offset) = .refused refusal ∧
        cause = refusal.cause) ∨
      spelled (r.bytes.toList.drop r.offset) = .ended ∧ cause = .truncated r.bytes.size := by
  have failed := verdict_of_decode_error aligned result
  rw [verdict_eq] at failed
  cases came : spelled (r.bytes.toList.drop r.offset) with
  | taken op rest =>
    rw [came] at failed
    cases failed
  | refused refusal =>
    rw [came] at failed
    exact .inl ⟨refusal, rfl, (Except.error.inj failed).symm⟩
  | ended =>
    rw [came] at failed
    exact .inr ⟨rfl, (Except.error.inj failed).symm⟩

/-- A refusal stands wherever the refused bytes stand, and whatever follows them. -/
theorem decode_refused (aligned : r.pos % 8 = 0) (result : decode r = .error cause r')
    (refused : cause.isTruncated = false) (there : s.pos % 8 = 0)
    (ahead : s.bytes.toList.drop s.offset = r.bytes.toList.drop r.offset ++ rest) :
    ∃ s', decode s = .error cause s' := by
  rcases spelled_of_decode_error aligned result with ⟨refusal, came, rfl⟩ | ⟨_, rfl⟩
  · refine exists_decode_error there ?_
    rw [← run_instruction] at came
    rw [verdict_eq, ahead, ← run_instruction, run_append_of_refused came rest]
  · cases refused

theorem ahead_extend (r : BitReader) (more : Array UInt8) :
    (r.extend more).bytes.toList.drop (r.extend more).offset =
      r.bytes.toList.drop r.offset ++ more.toList := by
  have bound := r.pos_le
  have inside : r.offset ≤ r.bytes.toList.length := by
    rw [Array.length_toList, BitReader.offset]
    omega
  show (r.bytes ++ more).toList.drop r.offset = _
  rw [Array.toList_append, List.drop_append_of_le_length inside]

/-- **A refusal stands when the stream goes on.** -/
theorem decode_extend (aligned : r.pos % 8 = 0) (result : decode r = .error cause r')
    (refused : cause.isTruncated = false) (more : Array UInt8) :
    ∃ s', decode (r.extend more) = .error cause s' :=
  decode_refused aligned result refused aligned (ahead_extend r more)

end Aligned

end Encoding

end RealMode
