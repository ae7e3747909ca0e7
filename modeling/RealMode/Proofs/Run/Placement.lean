/-
**Runs inside longer streams.** A stream that stands inside a longer one, with bytes before and
after it, is read there as it is by itself: the same instructions and the same failures, counted
from further on. Only where the shorter stream ends inside an instruction may the two part.

* `step_placed_emitted`, `step_placed_trapped`: one step in the two streams.
* `run_placed`: a run whose failures are all refusals is the same in the longer stream, and where it
  comes to the end of its own the longer one goes on.
* `run_shifted`: with nothing after the shorter stream, all of the run is the same.
* `prefix_placed`: what is met before the first end inside an instruction is met in both.
-/

import RealMode.Proofs.Run.Locality
import RealMode.Proofs.Run.Tiling

namespace RealMode

open BitReader Decoding Encoding Machine

/-! ### Counting from further on -/

/-- The instruction with `before` more bytes in front of its stream. -/
def Instruction.later (before : Nat) (i : Instruction) : Instruction :=
  { i with offset := before + i.offset }

def Trap.later (before : Nat) (t : Trap) : Trap := ⟨before + t.offset, t.cause.later before⟩

def Event.later (before : Nat) : Event → Event
  | .instruction i => .instruction (i.later before)
  | .skipped t => .skipped (t.later before)

/-- The event is a failure at the end of the stream. -/
def Event.isTruncated : Event → Bool
  | .instruction _ => false
  | .skipped t => t.cause.isTruncated

/-- The failures that a run met: those it passed over, and the one that ended it. -/
def Run.failures (run : Run) : List Trap := run.skipped ++ run.trap.toList

theorem later_zero (cause : DecodeError) : cause.later 0 = cause := by
  cases cause with
  | truncated size => exact congrArg DecodeError.truncated (Nat.zero_add size)
  | unknownOpcode _ | unimplemented _ _ | addressing _ | fieldWidth _ | registerCode _ => rfl

theorem later_of_refused {cause : DecodeError} (refused : cause.isTruncated = false)
    (before : Nat) : cause.later before = cause := by
  cases cause with
  | truncated size => cases refused
  | unknownOpcode _ | unimplemented _ _ | addressing _ | fieldWidth _ | registerCode _ => rfl

@[simp] theorem Trap.later_zero (t : Trap) : t.later 0 = t :=
  Trap.ext (Nat.zero_add _) (RealMode.later_zero _)

@[simp] theorem Event.later_zero (e : Event) : e.later 0 = e := by
  cases e with
  | instruction i =>
    obtain ⟨offset, bytes, decoding, operands⟩ := i
    simp [Event.later, Instruction.later]
  | skipped t => exact congrArg Event.skipped t.later_zero

theorem instructions_later (before : Nat) (events : List Event) :
    (events.map (Event.later before)).filterMap Event.instruction? =
      (events.filterMap Event.instruction?).map (Instruction.later before) := by
  rw [List.filterMap_map, List.map_filterMap]
  refine congrArg (fun kept => events.filterMap kept) (funext fun e => ?_)
  cases e <;> rfl

theorem skipped_later (before : Nat) (events : List Event) :
    (events.map (Event.later before)).filterMap Event.skipped? =
      (events.filterMap Event.skipped?).map (Trap.later before) := by
  rw [List.filterMap_map, List.map_filterMap]
  refine congrArg (fun kept => events.filterMap kept) (funext fun e => ?_)
  cases e <;> rfl

/-! ### A stream inside a longer one -/

/-- The reader `s` stands in its stream as `r` does in a part of it, which has the bytes `before` in
front and the bytes `after` behind; both stand at the start of a byte. -/
structure Placed (before after : List UInt8) (r s : BitReader) : Prop where
  bytes : s.bytes.toList = before ++ r.bytes.toList ++ after
  pos : s.pos = 8 * before.length + r.pos
  aligned : r.pos % 8 = 0

namespace Placed

variable {before after : List UInt8} {r s : BitReader}

theorem aligned_there (placed : Placed before after r s) : s.pos % 8 = 0 := by
  have pos := placed.pos
  have aligned := placed.aligned
  omega

theorem offset_eq (placed : Placed before after r s) : s.offset = before.length + r.offset := by
  have pos := placed.pos
  simp only [BitReader.offset]
  omega

theorem size_eq (placed : Placed before after r s) :
    s.bytes.size = before.length + r.bytes.size + after.length := by
  have length := congrArg List.length placed.bytes
  simp only [List.length_append, Array.length_toList] at length
  exact length

theorem ahead_eq (placed : Placed before after r s) :
    s.bytes.toList.drop s.offset = r.bytes.toList.drop r.offset ++ after := by
  have bound := r.pos_le
  have inside : r.offset ≤ r.bytes.toList.length := by
    rw [Array.length_toList, BitReader.offset]
    omega
  rw [placed.bytes, placed.offset_eq, List.append_assoc, List.drop_append,
    List.drop_of_length_le (Nat.le_add_right _ _), List.nil_append, Nat.add_sub_cancel_left,
    List.drop_append_of_le_length inside]

/-- The two readers after the same number of bytes more. -/
theorem moved {r' s' : BitReader} {count : Nat} (placed : Placed before after r s)
    (same : r'.bytes = r.bytes) (same' : s'.bytes = s.bytes) (pos : r'.pos = r.pos + 8 * count)
    (pos' : s'.pos = s.pos + 8 * count) : Placed before after r' s' := by
  have start := placed.pos
  have aligned := placed.aligned
  refine ⟨?_, by omega, by omega⟩
  rw [same, same', placed.bytes]

end Placed

/-! ### One step in the two streams -/

section Step

variable {before after : List UInt8} {r r' s : BitReader} {m m' : Machine}

theorem decode_placed {op : Decoding} (placed : Placed before after r s)
    (result : decode r = .ok op r') :
    ∃ s', decode s = .ok op s' ∧ s.front op.length = r.front op.length ∧
      Placed before after r' s' := by
  obtain ⟨came, same, pos⟩ := spelled_of_decode_ok placed.aligned result
  have enough := (rest_of_spelled came).1
  have front : s.front op.length = r.front op.length := by
    rw [front, placed.ahead_eq, List.take_append_of_le_length enough, BitReader.front]
  obtain ⟨s', found⟩ := decode_anywhere placed.aligned result placed.aligned_there front
  obtain ⟨_, same', pos'⟩ := spelled_of_decode_ok placed.aligned_there found
  exact ⟨s', found, front, placed.moved same same' pos pos'⟩

/-- **An instruction is read in the longer stream as it is in the shorter one.** -/
theorem step_placed_emitted {i : Instruction} (placed : Placed before after r s)
    (result : m.step r = .emitted i m' r') :
    ∃ s', m.step s = .emitted (i.later before.length) m' s' ∧ Placed before after r' s' := by
  obtain ⟨op, items, decoded, resolved, rfl, rfl⟩ := decode_of_emitted placed.aligned result
  obtain ⟨s', decoded', front, placed'⟩ := decode_placed placed decoded
  refine ⟨s', ?_, placed'⟩
  rw [step_of_decode placed.aligned_there decoded' resolved, front, placed.offset_eq]
  rfl

/-- A reader in the middle of its stream, put at the next byte. -/
theorem pos_seek {r r' : BitReader} (same : r'.bytes = r.bytes) (more : r.atEnd = false) :
    (r'.seek (r.offset + 1)).pos = 8 * (r.offset + 1) := by
  have inside := offset_le_of_step more
  show min (8 * (r.offset + 1)) (8 * r'.bytes.size) = _
  rw [same]
  omega

/-- **A failure is the same in the longer stream**, unless it is for want of bytes that stand
there. -/
theorem step_placed_trapped {t : Trap} (placed : Placed before after r s)
    (result : m.step r = .trapped t r') (told : after = [] ∨ t.cause.isTruncated = false) :
    ∃ s', m.step s = .trapped (t.later before.length) s' ∧
      Placed before after (r'.seek (r.offset + 1)) (s'.seek (s.offset + 1)) := by
  obtain ⟨more, failed, place⟩ := step_trapped result
  have failed := decode_of_read_error failed
  have inside := offset_le_of_step more
  have offsets := placed.offset_eq
  have sizes := placed.size_eq
  have more' : s.atEnd = false := by
    have there := placed.aligned_there
    simp only [BitReader.offset] at inside offsets
    simp only [atEnd, decide_eq_false_iff_not]
    omega
  have found : ∃ s', decode s = .error (t.cause.later before.length) s' := by
    rcases told with rfl | refused
    · refine exists_decode_error placed.aligned_there ?_
      rw [placed.ahead_eq, List.append_nil, sizes, List.length_nil, Nat.add_zero, verdict_later,
        verdict_of_decode_error placed.aligned failed]
      rfl
    · rw [later_of_refused refused]
      exact decode_refused placed.aligned failed refused placed.aligned_there placed.ahead_eq
  obtain ⟨s', found⟩ := found
  have stepped : m.step s = .trapped (t.later before.length) s' := by
    rw [Machine.step, more', Instruction.read, found]
    show Step.trapped ⟨s.offset, t.cause.later before.length⟩ s' = _
    rw [offsets, ← place]
    rfl
  have same := bytes_of_trapped result
  have same' := bytes_of_trapped stepped
  have pos := pos_seek same more
  have pos' := pos_seek same' more'
  refine ⟨s', stepped, ?_, ?_, ?_⟩
  · show s'.bytes.toList = before ++ r'.bytes.toList ++ after
    rw [same, same', placed.bytes]
  · omega
  · omega

end Step

/-! ### Runs in the two streams -/

theorem failures_instruction (i : Instruction) (run : Run) :
    (Run.after [.instruction i] run).failures = run.failures := by
  unfold Run.failures
  rw [Run.skipped_after]
  rfl

theorem failures_skipped (t : Trap) (run : Run) :
    (Run.after [.skipped t] run).failures = t :: run.failures := by
  unfold Run.failures
  rw [Run.skipped_after]
  rfl

/-- What a run of the longer stream comes to, told by the run of the shorter one: it stops where
that run stopped, and goes on where that run came to the end of its stream. -/
def Run.Resumes (before after : List UInt8) (run whole : Run) : Prop :=
  match run.trap with
  | some t => ∃ s', whole =
      { events := run.events.map (.later before.length), trap := some (t.later before.length)
        machine := run.machine, reader := s' }
  | none => ∃ s', Placed before after run.reader s' ∧ run.reader.atEnd ∧
      whole = Run.after (run.events.map (.later before.length)) (run.machine.run s')

section Run

variable {before after : List UInt8} {r s : BitReader}

theorem resumes_after {run whole : Run} (e : Event) (resumes : run.Resumes before after whole) :
    (Run.after [e] run).Resumes before after (Run.after [e.later before.length] whole) := by
  unfold Run.Resumes at resumes ⊢
  show match run.trap with | some t => _ | none => _
  cases trap : run.trap with
  | some t =>
    rw [trap] at resumes
    obtain ⟨s', rfl⟩ := resumes
    exact ⟨s', rfl⟩
  | none =>
    rw [trap] at resumes
    obtain ⟨s', placed, finished, rfl⟩ := resumes
    refine ⟨s', placed, finished, ?_⟩
    rw [Run.after_after]
    rfl

/-- **A run whose failures are all refusals is the same in a longer stream**, and so is every run
that has the end of its stream in common with it. -/
theorem run_placed (m : Machine) (placed : Placed before after r s)
    (told : after = [] ∨ ∀ t ∈ (m.run r).failures, t.cause.isTruncated = false) :
    (m.run r).Resumes before after (m.run s) := by
  refine run_induction (P := fun m r run => ∀ s, Placed before after r s →
    (after = [] ∨ ∀ t ∈ run.failures, t.cause.isTruncated = false) →
      run.Resumes before after (m.run s)) ?_ ?_ ?_ ?_ m r s placed told
  · intro m r finished s placed told
    exact ⟨s, placed, finished, rfl⟩
  · intro m r i m' r' result ih s placed told
    obtain ⟨s', stepped, placed'⟩ := step_placed_emitted placed result
    rw [failures_instruction] at told
    rw [run_of_emitted stepped]
    exact resumes_after (.instruction i) (ih s' placed' told)
  · intro m r t r' result abort s placed told
    have refused := told.imp_right fun refused => refused t List.mem_cons_self
    obtain ⟨s', stepped, _⟩ := step_placed_trapped placed result refused
    rw [run_of_aborted stepped abort]
    exact ⟨s', rfl⟩
  · intro m r t r' result skip ih s placed told
    rw [failures_skipped] at told
    have refused := told.imp_right fun refused => refused t List.mem_cons_self
    obtain ⟨s', stepped, placed'⟩ := step_placed_trapped placed result refused
    rw [run_of_skipped stepped skip]
    refine resumes_after (.skipped t) (ih _ placed' (told.imp_right fun refused t' member => ?_))
    exact refused t' (List.mem_cons_of_mem _ member)

/-- **With nothing after the shorter stream, all of its run is the same.** -/
theorem run_shifted (m : Machine) (placed : Placed before [] r s) :
    (m.run s).events = (m.run r).events.map (.later before.length) ∧
      (m.run s).trap = (m.run r).trap.map (.later before.length) ∧
      (m.run s).machine = (m.run r).machine := by
  have resumes := run_placed m placed (.inl rfl)
  unfold Run.Resumes at resumes
  cases trap : (m.run r).trap with
  | some t =>
    rw [trap] at resumes
    obtain ⟨s', whole⟩ := resumes
    rw [whole]
    exact ⟨rfl, rfl, rfl⟩
  | none =>
    rw [trap] at resumes
    obtain ⟨s', there, finished, whole⟩ := resumes
    -- both streams have ended, so nothing follows
    have ended : s'.atEnd := by
      have size := there.size_eq
      have pos := there.pos
      simp only [atEnd, decide_eq_true_eq] at finished ⊢
      rw [List.length_nil] at size
      omega
    rw [whole, run_of_halted ended]
    exact ⟨List.append_nil _, rfl, rfl⟩

/-- **What is met before the first end inside an instruction is met in both streams.** -/
theorem prefix_placed (m : Machine) (placed : Placed before after r s) {met rest : List Event}
    (split : (m.run r).events = met ++ rest) (told : ∀ e ∈ met, e.isTruncated = false) :
    met.map (.later before.length) <+: (m.run s).events := by
  refine run_induction (P := fun m r run => ∀ s, Placed before after r s → ∀ met,
    run.events = met ++ rest → (∀ e ∈ met, e.isTruncated = false) →
      met.map (.later before.length) <+: (m.run s).events) ?_ ?_ ?_ ?_ m r s placed met split told
  · intro m r finished s placed met split told
    obtain ⟨rfl, _⟩ := List.append_eq_nil_iff.mp split.symm
    exact List.nil_prefix
  · intro m r i m' r' result ih s placed met split told
    cases met with
    | nil => exact List.nil_prefix
    | cons e met =>
      obtain ⟨rfl, others⟩ := List.cons.inj split
      obtain ⟨s', stepped, placed'⟩ := step_placed_emitted placed result
      rw [run_of_emitted stepped]
      refine (List.prefix_cons_inj _).mpr (ih s' placed' met others fun e member => ?_)
      exact told e (List.mem_cons_of_mem _ member)
  · intro m r t r' result abort s placed met split told
    obtain ⟨rfl, _⟩ := List.append_eq_nil_iff.mp split.symm
    exact List.nil_prefix
  · intro m r t r' result skip ih s placed met split told
    cases met with
    | nil => exact List.nil_prefix
    | cons e met =>
      obtain ⟨rfl, others⟩ := List.cons.inj split
      have refused := told (.skipped t) List.mem_cons_self
      obtain ⟨s', stepped, placed'⟩ := step_placed_trapped placed result (.inr refused)
      rw [run_of_skipped stepped skip]
      refine (List.prefix_cons_inj _).mpr (ih _ placed' met others fun e member => ?_)
      exact told e (List.mem_cons_of_mem _ member)

end Run

end RealMode
