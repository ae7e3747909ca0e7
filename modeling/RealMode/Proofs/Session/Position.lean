/-
**Where operations leave the reader.** Whatever is done in a session, and whether it succeeds or
fails, the reader stays within its stream. Only seeking moves it back: a run that passes over
failures goes back to the byte after each of them, but never as far as the place it came from. So a
step, which looks whether the stream has ended, never decodes where there is no byte.

* `atEnd_iff`, `peek_none_iff`: three ways to see that the stream has ended.
* `advances_run`: a run keeps the stream and does not go back in it.
* `walked_of_truncated`: a step that lacks bytes lacks them inside a format.
* `bytes_afterAll`, `pos_le_afterAll`: operations that open no other stream keep this one and, if
  none of them seeks, do not go back in it.
* `reader_within`: all of this, for any operations in a session.
-/

import RealMode.Proofs.Run.Atomicity
import RealMode.Proofs.Run.Safety

namespace RealMode

open BitReader

/-! ### The end of a stream -/

namespace BitReader

variable (r : BitReader)

theorem peek_none_iff : r.peek? = none ↔ r.offset = r.bytes.size := by
  have bound := r.pos_le
  rw [peek?, Array.getElem?_eq_none_iff, offset]
  omega

theorem atEnd_iff : r.atEnd ↔ r.peek? = none := by
  have bound := r.pos_le
  rw [peek_none_iff, offset]
  simp only [atEnd, decide_eq_true_eq]
  omega

end BitReader

/-! ### Steps and runs -/

namespace Machine

/-- The failure of a field to find its bits: a byte is under the reader, its format is known and
read, and the stream ends inside it. -/
def EndsInside (r r' : BitReader) (cause : DecodeError) : Prop :=
  ∃ opcode format, r.peek? = some opcode ∧ Format.ofOpcode? opcode = some format ∧
    format.isStub = false ∧
    format.fields.foldlM Decoding.readField { opcode, mnemonic := format.mnemonic } r =
      .error cause r'

section Step

variable {m : Machine} {r r' : BitReader} {t : Trap}

/-- **A step that lacks bytes lacks them inside a format**, never for the first byte. -/
theorem walked_of_truncated (result : m.step r = .trapped t r') {size : Nat}
    (truncated : t.cause = .truncated size) : EndsInside r r' t.cause := by
  obtain ⟨more, failed, _⟩ := step_trapped result
  have failed := decode_of_read_error failed
  unfold Decoding.decode at failed
  split at failed
  · rename_i missing
    rw [(atEnd_iff r).mpr missing] at more
    cases more
  · rename_i opcode peeked
    rw [truncated] at failed
    split at failed
    · cases failed
    · rename_i format found
      split at failed
      · cases failed
      · rename_i read
        split at failed
        · rename_i walked
          cases failed
          exact ⟨opcode, format, peeked, found, by simpa using read, by rw [truncated, walked]⟩
        · cases failed

end Step

/-- **A run keeps the stream and does not go back in it**, even where it passes over failures. -/
theorem advances_run (m : Machine) (r : BitReader) :
    (m.run r).reader.bytes = r.bytes ∧ r.pos ≤ (m.run r).reader.pos := by
  refine run_induction (P := fun _ r run => run.reader.bytes = r.bytes ∧ r.pos ≤ run.reader.pos)
    ?_ ?_ ?_ ?_ m r
  · exact fun m r finished => ⟨rfl, Nat.le_refl _⟩
  · intro m r i m' r' result ih
    obtain ⟨stream, moved, _⟩ := (sound_of_emitted result).decoding
    exact ⟨ih.1.trans stream, Nat.le_trans (by omega) ih.2⟩
  · exact fun m r t r' result abort => kept_of_trapped result
  · intro m r t r' result skip ih
    -- the decoding may have failed further on, but the next byte is past the place it began at
    have same := (kept_of_trapped result).1
    have pos := pos_seek same (step_trapped result).1
    refine ⟨ih.1.trans same, Nat.le_trans ?_ ih.2⟩
    rw [pos, BitReader.offset]
    omega

end Machine

/-! ### Operations -/

namespace Operation

/-- The operation puts the reader at another stream. -/
def opensStream : Operation → Bool
  | .stream _ => true
  | .read _ | .readByte | .seek _ | .decode | .step | .run | .execute _ _ | .set _ _ | .reset
  | .configure _ | .load _ => false

/-- The operation puts the reader at another byte of its stream. -/
def seeks : Operation → Bool
  | .seek _ => true
  | .stream _ | .read _ | .readByte | .decode | .step | .run | .execute _ _ | .set _ _ | .reset
  | .configure _ | .load _ => false

/-- Where an operation in a stream leaves a reader that stood at `r`. -/
def Leaves (op : Operation) (r r' : BitReader) : Prop :=
  match op with
  | .read width =>
    r'.pos = if 1 ≤ width ∧ width ≤ 16 ∧ r.pos + width ≤ 8 * r.bytes.size then r.pos + width
      else r.pos
  | .readByte => r'.pos = if r.pos + 8 ≤ 8 * r.bytes.size then r.pos + 8 else r.pos
  | .seek offset => r'.pos = min (8 * offset) (8 * r.bytes.size)
  | .decode | .step | .run => r.pos ≤ r'.pos
  | .execute _ _ | .set _ _ | .reset | .configure _ | .load _ => r'.pos = r.pos
  | .stream bytes => r' = .ofBytes bytes

end Operation

/-- A read of admissible width takes its bits if they are all there, and any other stays. -/
theorem BitReader.pos_read (r : BitReader) (width : Nat) :
    (BitReader.after (BitReader.read width r)).pos =
      if 1 ≤ width ∧ width ≤ 16 ∧ r.pos + width ≤ 8 * r.bytes.size then r.pos + width
      else r.pos := by
  by_cases admissible : 1 ≤ width ∧ width ≤ 16
  · obtain ⟨positive, narrow⟩ := admissible
    by_cases fits : r.pos + width ≤ 8 * r.bytes.size
    · rw [read_ok positive narrow fits, if_pos ⟨positive, narrow, fits⟩]
      rfl
    · rw [read_truncated positive narrow (by omega), if_neg fun all => fits all.2.2]
      rfl
  · rw [BitReader.read, if_neg admissible, if_neg fun all => admissible ⟨all.1, all.2.1⟩]
    rfl

theorem BitReader.after_readByte (r : BitReader) :
    BitReader.after (readByte r) = BitReader.after (BitReader.read 8 r) := by
  unfold readByte
  cases result : BitReader.read 8 r with
  | ok n r' => rw [bind_ok result]; rfl
  | error e r' => rw [bind_error result]; rfl

namespace Session

section After

variable (s : Session) {op : Operation}

/-- A step leaves the reader in its stream and not further back. -/
theorem advances_step : s.afterStep.reader.bytes = s.reader.bytes ∧
    s.reader.pos ≤ s.afterStep.reader.pos := by
  unfold afterStep
  cases result : s.machine.step s.reader with
  | halted => exact ⟨rfl, Nat.le_refl _⟩
  | emitted i m r =>
    obtain ⟨stream, moved, _⟩ := (sound_of_emitted result).decoding
    exact ⟨stream, by dsimp only; omega⟩
  | trapped t r => exact Machine.kept_of_trapped result

theorem bytes_after (same : op.opensStream = false) :
    (s.after op).reader.bytes = s.reader.bytes := by
  cases op with
  | stream bytes => cases same
  | read width => exact (advances_read width s.reader).1
  | readByte => exact (advances_readByte s.reader).1
  | decode => exact (Decoding.advances_decode s.reader).1
  | step => exact s.advances_step.1
  | run => exact (Machine.advances_run _ _).1
  | seek _ | execute _ _ | set _ _ | reset | configure _ | load _ => rfl

/-- **Where an operation leaves the reader.** -/
theorem leaves_after (op : Operation) : op.Leaves s.reader (s.after op).reader := by
  cases op with
  | read width => exact s.reader.pos_read width
  | readByte =>
    show (BitReader.after (readByte s.reader)).pos = _
    rw [after_readByte, pos_read]
    simp
  | decode => exact (Decoding.advances_decode s.reader).2
  | step => exact s.advances_step.2
  | run => exact (Machine.advances_run _ _).2
  | stream _ | seek _ | execute _ _ | set _ _ | reset | configure _ | load _ => rfl

/-- **Only seeking moves the reader back.** -/
theorem pos_le_after (same : op.opensStream = false) (forward : op.seeks = false) :
    s.reader.pos ≤ (s.after op).reader.pos := by
  have left := s.leaves_after op
  cases op with
  | stream _ => cases same
  | seek _ => cases forward
  | decode | step | run => exact left
  | read _ | readByte | execute _ _ | set _ _ | reset | configure _ | load _ =>
    unfold Operation.Leaves at left
    grind

end After

/-! ### Sequences of operations -/

section AfterAll

variable (s : Session) {operations : List Operation}

theorem bytes_afterAll (same : ∀ op ∈ operations, op.opensStream = false) :
    (s.afterAll operations).reader.bytes = s.reader.bytes := by
  induction operations generalizing s with
  | nil => rfl
  | cons op operations ih =>
    have first := s.bytes_after (same op List.mem_cons_self)
    have rest := ih (s.after op) fun later member => same later (List.mem_cons_of_mem op member)
    exact rest.trans first

theorem pos_le_afterAll (same : ∀ op ∈ operations, op.opensStream = false)
    (forward : ∀ op ∈ operations, op.seeks = false) :
    s.reader.pos ≤ (s.afterAll operations).reader.pos := by
  induction operations generalizing s with
  | nil => exact Nat.le_refl _
  | cons op operations ih =>
    have first := s.pos_le_after (same op List.mem_cons_self) (forward op List.mem_cons_self)
    have rest := ih (s.after op) (fun later member => same later (List.mem_cons_of_mem op member))
      fun later member => forward later (List.mem_cons_of_mem op member)
    exact Nat.le_trans first rest

end AfterAll

/-- **The reader stays within its stream under any use**, and only seeking moves it back. Wherever
operations have left it, what it tells of the end of the stream agrees, and a step that lacks bytes
has found the first one. -/
theorem reader_within (s : Session) (operations : List Operation)
    (same : ∀ op ∈ operations, op.opensStream = false) :
    let left := s.afterAll operations
    left.reader.bytes = s.reader.bytes ∧
      left.reader.pos ≤ 8 * s.reader.bytes.size ∧ left.reader.offset ≤ s.reader.bytes.size ∧
      (left.reader.atEnd ↔ left.reader.peek? = none) ∧
      (left.reader.peek? = none ↔ left.reader.offset = s.reader.bytes.size) ∧
      ((∀ op ∈ operations, op.seeks = false) → s.reader.pos ≤ left.reader.pos) ∧
      (∀ op : Operation, op.Leaves left.reader (left.after op).reader) ∧
      ∀ t r', left.machine.step left.reader = .trapped t r' →
        ∀ size, t.cause = .truncated size → Machine.EndsInside left.reader r' t.cause := by
  intro left
  have stream : left.reader.bytes = s.reader.bytes := s.bytes_afterAll same
  have bound := left.reader.pos_le
  rw [stream] at bound
  have inside : left.reader.offset ≤ s.reader.bytes.size := by
    rw [BitReader.offset]
    omega
  have ended := left.reader.peek_none_iff
  rw [stream] at ended
  refine ⟨stream, bound, inside, left.reader.atEnd_iff, ended, s.pos_le_afterAll same,
    left.leaves_after, ?_⟩
  intro t r' result size truncated
  exact Machine.walked_of_truncated result truncated

/-- A session at a stream that ends inside its last instruction. -/
def unfinished : Session :=
  { machine := Machine.under {} .skip, reader := .ofBytes #[0xB0, 0x05, 0x0F, 0xB8, 0x01] }

theorem reader_within_unfinished :
    let operations := [Operation.read 3, .decode, .run, .seek 3]
    let left := unfinished.afterAll operations
    (∀ op ∈ operations, op.opensStream = false) ∧
      (unfinished.afterAll [.read 3, .decode, .run]).reader.pos = 40 ∧ left.reader.pos = 24 ∧
      ∃ r', left.machine.step left.reader = .trapped ⟨3, .truncated 5⟩ r' ∧ r'.pos = 40 ∧
        Machine.EndsInside left.reader r' (.truncated 5) := by
  intro operations left
  have same : ∀ op ∈ operations, op.opensStream = false := by decide
  have back : left.reader = unfinished.reader.seek 3 := by decide +kernel
  obtain ⟨r', trapped, further⟩ : ∃ r',
      left.machine.step left.reader = .trapped ⟨3, .truncated 5⟩ r' ∧ r'.pos = 40 := by
    rw [back]
    exact ⟨_, rfl, rfl⟩
  obtain ⟨_, _, _, _, _, _, _, ends⟩ := reader_within unfinished operations same
  exact ⟨same, by decide +kernel, by decide +kernel, r', trapped, further, ends _ r' trapped 5 rfl⟩

end Session

end RealMode
