/-
**Safe runs.** From any bit of any stream, a decoding that succeeds takes two to six whole bytes
that are there, and has operands; one that fails has met bits that are no instruction, or the end of
the stream. A machine adds no failure of its own, so these are the only failures that a run meets.

* `sound_of_decode`: what a successful decoding is.
* `isFault_of_trapped`: a step does not fault.
* `run_safe`: decodings, steps and runs do not fault.
-/

import RealMode.Proofs.Assembly.Typing
import RealMode.Proofs.Bytes.Faults
import RealMode.Proofs.Run.Placement

namespace RealMode

open BitReader Encoding

/-- The decoding takes whole bytes of the stream, two to six of them, and its operands are told. -/
structure Decoding.Sound (r r' : BitReader) (op : Decoding) : Prop where
  stream : r'.bytes = r.bytes
  /-- The reader has moved by the bytes taken, so it stands at the same bit of a byte. -/
  moved : r'.pos = r.pos + 8 * op.length
  sameBit : r'.pos % 8 = r.pos % 8
  length : 2 ≤ op.length ∧ op.length ≤ 6
  /-- The bytes taken are bytes of the stream. -/
  inside : r.offset + op.length ≤ r.bytes.size
  resolves : ∃ items, op.operands = .ok items

/-- The instruction has the bytes and the operands of its decoding. -/
structure Instruction.Sound (r r' : BitReader) (i : Instruction) : Prop where
  decoding : i.decoding.Sound r r'
  bytes : i.bytes = r.bytes.extract r.offset (r.offset + i.decoding.length)
  length : i.bytes.size = i.decoding.length
  operands : i.decoding.operands = .ok i.operands

section Step

variable {m m' : Machine} {r r' : BitReader} {op : Decoding} {i : Instruction} {t : Trap}

/-- **A successful decoding takes two to six bytes that are there, and has operands.** -/
theorem sound_of_decode (result : Decoding.decode r = .ok op r') : op.Sound r r' := by
  obtain ⟨same, moved⟩ := Decoding.moves_of_decode result
  obtain ⟨b, m, tail, _, items, _, whole, count, resolved, _⟩ := meaning_of_decode result
  have most := need_le b m
  simp only [List.length_cons] at count
  simp only [need] at most
  have bound := r'.pos_le
  rw [same] at bound
  refine ⟨same, moved, by omega, by omega, ?_, items, resolved⟩
  simp only [offset]
  omega

theorem sound_of_emitted (result : m.step r = .emitted i m' r') : i.Sound r r' := by
  obtain ⟨_, found, _⟩ := Machine.step_emitted result
  obtain ⟨decoded, resolved, _, bytes⟩ := of_read_ok found
  have sound := sound_of_decode decoded
  rw [sound.stream] at bytes
  refine ⟨sound, bytes, ?_, resolved⟩
  have inside := sound.inside
  rw [bytes, Array.size_extract]
  omega

/-- **A step does not fault.** -/
theorem isFault_of_trapped (result : m.step r = .trapped t r') : t.cause.isFault = false :=
  Decoding.isFault_of_decode (decode_of_read_error (Machine.step_trapped result).2.1)

end Step

/-! ### Runs -/

/-- Every failure of a run trapped a step. -/
theorem step_of_failure (m : Machine) (r : BitReader) : ∀ t ∈ (m.run r).failures,
    ∃ m₁ r₁ r₂, Machine.step m₁ r₁ = .trapped t r₂ := by
  refine Machine.run_induction (P := fun _ _ run => ∀ t ∈ run.failures,
    ∃ m₁ r₁ r₂, Machine.step m₁ r₁ = .trapped t r₂) ?_ ?_ ?_ ?_ m r
  · intro m r finished t member
    cases member
  · intro m r i m' r' result ih
    rw [failures_instruction]
    exact ih
  · intro m r t r' result abort t' member
    obtain rfl := List.mem_singleton.mp member
    exact ⟨m, r, r', result⟩
  · intro m r t r' result skip ih t' member
    rw [failures_skipped] at member
    rcases List.mem_cons.mp member with rfl | later
    · exact ⟨m, r, r', result⟩
    · exact ih t' later

/-- **Decodings, steps and runs do not fault**, whatever the stream and the bit they start at. -/
theorem run_safe (m : Machine) (r : BitReader) :
    (match Decoding.decode r with
      | .ok op r' => op.Sound r r'
      | .error cause _ => cause.isFault = false) ∧
    (match m.step r with
      | .halted => r.atEnd
      | .emitted i _ r' => i.Sound r r'
      | .trapped t _ => t.cause.isFault = false) ∧
    ∀ t ∈ (m.run r).failures, t.cause.isFault = false := by
  refine ⟨?_, ?_, fun t member => ?_⟩
  · cases result : Decoding.decode r with
    | ok op r' => exact sound_of_decode result
    | error cause r' => exact Decoding.isFault_of_decode result
  · cases result : m.step r with
    | halted => exact Machine.atEnd_of_halted result
    | emitted i m' r' => exact sound_of_emitted result
    | trapped t r' => exact isFault_of_trapped result
  · obtain ⟨m₁, r₁, r₂, trapped⟩ := step_of_failure m r t member
    exact isFault_of_trapped trapped

/-- An addition from the seventh bit on, then one failure of every kind. -/
def mixed : BitReader := ⟨#[0x82, 0x0F, 0x00, 0x14, 0xE0, 0xB8, 0x01], 6, by decide⟩

theorem run_safe_mixed :
    let run := (Machine.under {} .skip).run mixed
    run.instructions.map (·.text) = ["add ax, 5"] ∧
      run.failures = [⟨3, .unknownOpcode 0x14⟩, ⟨4, .unimplemented 0xE0 "loopnz"⟩,
        ⟨5, .truncated 7⟩, ⟨6, .unimplemented 0x01 "add"⟩] ∧
      ⟨5, .truncated 7⟩ ∈ run.failures ∧ (DecodeError.truncated 7).isFault = false := by
  intro run
  have failures : run.failures = [⟨3, .unknownOpcode 0x14⟩, ⟨4, .unimplemented 0xE0 "loopnz"⟩,
      ⟨5, .truncated 7⟩, ⟨6, .unimplemented 0x01 "add"⟩] := by decide +kernel
  have member : ⟨5, .truncated 7⟩ ∈ run.failures := by rw [failures]; decide
  exact ⟨by decide +kernel, failures, member, (run_safe (.under {} .skip) mixed).2.2 _ member⟩

end RealMode
