/-
**An instruction is told by its own bytes.** What is decoded at a place depends on the bytes of the
instruction alone: they give the same instruction wherever they stand and by themselves, and as long
as one of them is missing they give none. So no instruction is the beginning of another one.

* `step_of_decode`: what a step emits is told by the decoding and the bytes that it consumed.
* `decode_local`: an instruction is told by its own bytes, and a refusal stands when the stream goes
  on.
-/

import RealMode.Proofs.Encoding.Spelling
import RealMode.Proofs.Run.Fresh

namespace RealMode

open BitReader Decoding Encoding

section Step

variable {r r' : BitReader} {op : Decoding}

/-- The bytes of an instruction are the next ones of the stream. -/
theorem extract_eq_front (r : BitReader) (count : Nat) :
    r.bytes.extract r.offset (r.offset + count) = (r.front count).toArray := by
  apply Array.toList_inj.mp
  rw [Array.toList_extract, List.extract_eq_take_drop, Nat.add_sub_cancel_left]
  rfl

theorem more_of_decode (result : decode r = .ok op r') : r.atEnd = false := by
  have further := pos_lt_of_decode result
  have kept := advances_decode r
  rw [result] at kept
  have same : r'.bytes = r.bytes := kept.1
  have bound := r'.pos_le
  simp only [atEnd, decide_eq_false_iff_not]
  rw [same] at bound
  omega

/-- **What a step emits** is told by the decoding and the bytes that it consumed. -/
theorem step_of_decode {items : List Operand} (aligned : r.pos % 8 = 0)
    (result : decode r = .ok op r') (resolved : op.operands = .ok items) (m : Machine) :
    m.step r = .emitted ⟨r.offset, (r.front op.length).toArray, op, items⟩
      (m.execute ⟨r.offset, (r.front op.length).toArray, op, items⟩) r' := by
  obtain ⟨_, same, _⟩ := spelled_of_decode_ok aligned result
  rw [Machine.step, more_of_decode result, read_eq_ok result resolved, same, extract_eq_front]
  rfl

theorem decode_of_emitted {m m' : Machine} {i : Instruction} (aligned : r.pos % 8 = 0)
    (result : m.step r = .emitted i m' r') :
    ∃ op items, decode r = .ok op r' ∧ op.operands = .ok items ∧
      i = ⟨r.offset, (r.front op.length).toArray, op, items⟩ ∧ m' = m.execute i := by
  obtain ⟨_, found, executed⟩ := Machine.step_emitted result
  obtain ⟨decoded, resolved, _⟩ := of_read_ok found
  rw [step_of_decode aligned decoded resolved] at result
  exact ⟨i.decoding, i.operands, decoded, resolved, (Step.emitted.inj result).1.symm, executed⟩

end Step

/-- The instruction `op`, which leaves the reader at `r'`, is told by its own bytes. -/
structure Decoding.Local (r : BitReader) (op : Decoding) (r' : BitReader) : Prop where
  /-- The same bytes give the same decoding, whatever is before and after them. -/
  anywhere : ∀ s : BitReader, s.pos % 8 = 0 → s.front op.length = r.front op.length →
    ∃ s', decode s = .ok op s'
  /-- A step over these bytes alone yields the instruction that a step yields here. -/
  alone : ∃ i : Instruction, i.decoding = op ∧ i.bytes = (r.front op.length).toArray ∧
    ∀ m : Machine, m.step r = .emitted i (m.execute i) r' ∧
      ∃ s', m.step (.ofBytes i.bytes) = .emitted { i with offset := 0 } (m.execute i) s' ∧
        s'.atEnd ∧ ({ i with offset := 0 } : Instruction).text = i.text
  /-- The first of these bytes, by themselves, end in the middle of an instruction. -/
  cut : ∀ k < op.length,
    ∃ s', decode (.ofBytes ((r.front op.length).take k).toArray) = .error (.truncated k) s'
  /-- No instruction is the beginning of this one. -/
  prefixFree : ∀ (s : BitReader) (op' : Decoding) (s' : BitReader), s.pos % 8 = 0 →
    decode s = .ok op' s' → s.front op'.length <+: r.front op.length →
      s.front op'.length = r.front op.length

section Local

variable {r r' s : BitReader} {op : Decoding}

theorem decode_anywhere (aligned : r.pos % 8 = 0) (result : decode r = .ok op r')
    (there : s.pos % 8 = 0) (same : s.front op.length = r.front op.length) :
    ∃ s', decode s = .ok op s' := by
  obtain ⟨spells, _⟩ := spells_of_decode aligned result
  have ahead : s.bytes.toList.drop s.offset =
      r.front op.length ++ (s.bytes.toList.drop s.offset).drop op.length := by
    rw [← same, BitReader.front, List.take_append_drop]
  exact decode_of_spells there spells ahead

/-- A fresh step over the bytes of an instruction alone. -/
theorem step_alone (aligned : r.pos % 8 = 0) (result : decode r = .ok op r') :
    ∃ i : Instruction, i.decoding = op ∧ i.bytes = (r.front op.length).toArray ∧
      ∀ m : Machine, m.step r = .emitted i (m.execute i) r' ∧
        ∃ s', m.step (.ofBytes i.bytes) = .emitted { i with offset := 0 } (m.execute i) s' ∧
          s'.atEnd ∧ ({ i with offset := 0 } : Instruction).text = i.text := by
  obtain ⟨spells, whole⟩ := spells_of_decode aligned result
  obtain ⟨items, resolved, _⟩ := decode_meaning aligned result
  refine ⟨⟨r.offset, (r.front op.length).toArray, op, items⟩, rfl, rfl, fun m => ⟨?_, ?_⟩⟩
  · exact step_of_decode aligned result resolved m
  · have own : (BitReader.ofBytes (r.front op.length).toArray).front op.length =
        r.front op.length := by
      rw [BitReader.front, ahead_ofBytes, List.take_of_length_le (Nat.le_of_eq whole)]
    obtain ⟨s', again⟩ := decode_anywhere aligned result rfl own
    obtain ⟨_, same, moved⟩ := spelled_of_decode_ok rfl again
    have stepped := step_of_decode rfl again resolved m
    have start : (BitReader.ofBytes (r.front op.length).toArray).offset = 0 := Nat.zero_div 8
    rw [own, start] at stepped
    refine ⟨s', stepped, ?_, rfl⟩
    -- the reader has moved over as many bytes as the stream has
    have size : s'.bytes.size = op.length := by
      rw [same]
      exact List.size_toArray.trans whole
    simp only [atEnd, decide_eq_true_eq, size, moved]
    exact Nat.le_add_left _ _

end Local

/-- **An instruction is told by its own bytes**, and a refusal stands when the stream goes on. -/
theorem decode_local (r : BitReader) (aligned : r.pos % 8 = 0) :
    match decode r with
    | .ok op r' => Decoding.Local r op r'
    | .error cause _ => cause.isTruncated = false →
        ∀ more, ∃ s', decode (r.extend more) = .error cause s' := by
  cases result : decode r with
  | error cause r' => exact fun refused more => decode_extend aligned result refused more
  | ok op r' =>
    obtain ⟨spells, whole⟩ := spells_of_decode aligned result
    refine ⟨?_, step_alone aligned result, ?_, ?_⟩
    · exact fun s there same => decode_anywhere aligned result there same
    · intro k short
      exact decode_cut spells (by rw [whole]; exact short)
    · intro s op' s' there found front
      obtain ⟨spells', _⟩ := spells_of_decode there found
      exact spells'.eq_of_prefix spells front

/-- A move out of a segment register whose ModRM byte has a bit above the code set. -/
def badSegment : BitReader := .ofBytes #[0x8C, 0x20]

theorem decode_local_addWord :
    addWord.pos % 8 = 0 ∧
      (∃ op r', decode addWord = .ok op r' ∧ op.length = 5 ∧ Decoding.Local addWord op r') ∧
      badSegment.pos % 8 = 0 ∧ (DecodeError.unknownOpcode 0x8C).isTruncated = false ∧
      ∃ s', decode (badSegment.extend #[0x12, 0x34]) = .error (.unknownOpcode 0x8C) s' :=
  ⟨by decide, ⟨_, _, rfl, rfl, decode_local addWord (by decide)⟩, rfl, rfl,
    decode_local badSegment rfl rfl #[0x12, 0x34]⟩

end RealMode
