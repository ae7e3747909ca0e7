/-
**A failure undoes itself.** A step reads bits, resolves operands and changes the machine, and it
may fail after any of the reads. `Stepping.step` is the step with these effects one after another
on a machine at a stream: whichever of them fails, the machine is as it was and the trap tells where
to put the reader back, so that everything can be tried again.

* `Stepping.step_eq`: the effects one after another come to a step.
* `seek_of_trapped`: the trap of a step at the start of a byte leads back to where it began.
* `failure_atomic`: a step that fails leaves all as it was, and fails again in the same way.
* `run_retried`: so does a run that a failure ended.
-/

import RealMode.Proofs.Run.Placement
import RealMode.Session

namespace RealMode

open BitReader

/-! ### A step effect by effect -/

/-- A computation in a session; a failure also leaves the machine and the reader somewhere. -/
abbrev Stepping := EStateM Trap Session

namespace Stepping

/-- Reads the stream for the instruction at byte `offset`. -/
def reading {α : Type} (offset : Nat) (reading : Reading α) : Stepping α := fun s =>
  match reading s.reader with
  | .ok a reader => .ok a { s with reader }
  | .error cause reader => .error { offset, cause } { s with reader }

/-- Goes on with what was computed for the instruction at byte `offset`. -/
def computed {α : Type} (offset : Nat) : Except DecodeError α → Stepping α
  | .ok a => pure a
  | .error cause => throw { offset, cause }

/-- Decodes the instruction under the reader, resolves its operands and then lets the machine
execute it; gives nothing at the end of the stream. -/
def step : Stepping (Option Instruction) := do
  let start ← get
  if start.reader.atEnd then return none
  let offset := start.reader.offset
  let decoding ← reading offset Decoding.decode
  let operands ← computed offset decoding.operands
  let s ← get
  let bytes := s.reader.bytes.extract offset (offset + decoding.length)
  let i : Instruction := { offset, bytes, decoding, operands }
  set { s with machine := s.machine.execute i }
  return some i

theorem get_bind {β : Type} (next : Session → Stepping β) (s : Session) :
    (get >>= next) s = next s s := rfl

/-- **The effects one after another come to a step**, which leaves the machine alone where it
fails. -/
theorem step_eq (s : Session) :
    step s =
      match s.machine.step s.reader with
      | .halted => .ok none s
      | .emitted i machine reader => .ok (some i) { machine, reader }
      | .trapped t reader => .error t { s with reader } := by
  rw [step, get_bind, Machine.step]
  by_cases finished : s.reader.atEnd
  · rw [if_pos finished, if_pos finished]
    rfl
  rw [if_neg finished, if_neg finished]
  simp only [bind, EStateM.bind, reading, Instruction.read]
  cases Decoding.decode s.reader with
  | error cause reader => rfl
  | ok decoding reader =>
    dsimp only
    cases decoding.operands with
    | error cause => rfl
    | ok operands => rfl

end Stepping

namespace Machine

/-! ### Trying again -/

section Failure

variable {m : Machine} {r r' : BitReader} {t : Trap}

/-- What a failure leaves of the stream: all of it, and no bit gained. -/
theorem kept_of_trapped (result : m.step r = .trapped t r') :
    r'.bytes = r.bytes ∧ r.pos ≤ r'.pos := by
  have kept := Instruction.advances_read r
  rw [(step_trapped result).2.1] at kept
  exact kept

/-- **The trap of a step leads back to where it began**, if that was the start of a byte. -/
theorem seek_of_trapped (aligned : r.pos % 8 = 0) (result : m.step r = .trapped t r') :
    r'.seek t.offset = r := by
  have bound := r.pos_le
  have place := (step_trapped result).2.2
  have same := (kept_of_trapped result).1
  refine BitReader.ext same ?_
  show min (8 * t.offset) (8 * r'.bytes.size) = r.pos
  rw [place, same, offset]
  omega

/-- **A step that fails leaves all as it was**: the machine untouched, the trap at the byte where
the step began, and the reader no further back. Put back there, the machine fails again in the same
way, and so does a run that stops at failures. -/
theorem failure_atomic {b : Nat} (start : r.pos = 8 * b) (result : m.step r = .trapped t r') :
    t.offset = b ∧
      Stepping.step ⟨m, r⟩ = .error t ⟨m, r'⟩ ∧
      r'.bytes = r.bytes ∧ r.pos ≤ r'.pos ∧
      r'.seek t.offset = r ∧
      m.step (r'.seek t.offset) = .trapped t r' ∧
      (m.under .abort).run (r'.seek t.offset) =
        { events := [], trap := some t, machine := m.under .abort, reader := r' } := by
  have back := seek_of_trapped (by omega) result
  obtain ⟨same, forward⟩ := kept_of_trapped result
  refine ⟨?_, ?_, same, forward, back, ?_, ?_⟩
  · rw [(step_trapped result).2.2, offset]
    omega
  · rw [Stepping.step_eq, result]
  · rw [back]
    exact result
  · rw [back]
    exact run_of_aborted (by rw [step_under, result]) rfl

/-- A store whose address is cut short, after another instruction. -/
def cutShort : BitReader := (BitReader.ofBytes #[0x90, 0x88, 0xA7, 0x01]).seek 1

theorem failure_atomic_cutShort :
    ∃ r', cutShort.pos = 8 * 1 ∧
      step {} cutShort = .trapped ⟨1, .truncated 4⟩ r' ∧ cutShort.pos < r'.pos ∧
      r'.seek 1 = cutShort ∧ step {} (r'.seek 1) = .trapped ⟨1, .truncated 4⟩ r' := by
  have start : cutShort.pos = 8 * 1 := by decide
  obtain ⟨r', trapped, further⟩ : ∃ r', step {} cutShort = .trapped ⟨1, .truncated 4⟩ r' ∧
      cutShort.pos < r'.pos := ⟨_, rfl, by decide⟩
  obtain ⟨_, _, _, _, back, again, _⟩ := failure_atomic start trapped
  exact ⟨r', start, trapped, further, back, again⟩

end Failure

/-- **A run that a failure ended can be tried again from its trap**: it meets nothing before the
same failure. -/
theorem run_retried (m : Machine) (r : BitReader) (aligned : r.pos % 8 = 0) {t : Trap}
    (ended : (m.run r).trap = some t) :
    (m.run r).machine.run ((m.run r).reader.seek t.offset) =
      { m.run r with events := [] } := by
  refine run_induction (P := fun _ r run => r.pos % 8 = 0 → run.trap = some t →
    run.machine.run (run.reader.seek t.offset) = { run with events := [] })
    ?_ ?_ ?_ ?_ m r aligned ended
  · intro m r finished aligned ended
    cases ended
  · intro m r i m' r' result ih aligned ended
    obtain ⟨_, same, moved, _⟩ := moved_of_emitted aligned result
    exact ih (by omega) ended
  · intro m r t' r' result abort aligned ended
    cases ended
    show m.run (r'.seek t.offset) = _
    rw [seek_of_trapped aligned result]
    exact run_of_aborted result abort
  · intro m r t' r' result skip ih aligned ended
    have pos := pos_seek (kept_of_trapped result).1 (step_trapped result).1
    exact ih (by omega) ended

end Machine

end RealMode
