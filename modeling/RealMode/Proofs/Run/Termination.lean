/-
**Runs end.** A round of the run loop reads one instruction or passes over one failure, unless it
ends the run. From any bit of a stream each round moves the reader on, by as many whole bytes as its
instruction has or to the start of the next byte, so the rounds of a run use up the bytes ahead.

* `moves_of_round`: what one round does to the reader.
* `offset_of_rounds`: what all rounds together do to it.
* `rounds_run`: a run is the rounds that it makes, and then one that ends it.
* `run_terminates`: no run makes more rounds than there are bytes ahead, and one that passes over
  failures accounts for each of these bytes.
-/

import Mathlib.Algebra.GroupWithZero.Nat
import RealMode.Proofs.Run.Safety

namespace RealMode

open BitReader

/-- The number of bytes that an event uses up. -/
def Event.size : Event → Nat
  | .instruction i => i.decoding.length
  | .skipped _ => 1

namespace Machine

/-! ### Rounds of the loop -/

/-- What one round of the run loop meets, and where it leaves the machine and the reader; nothing if
it ends the run. -/
def round? (m : Machine) (r : BitReader) : Option (Event × Machine × BitReader) :=
  match m.step r with
  | .halted => none
  | .emitted i m' r' => some (.instruction i, m', r')
  | .trapped t r' =>
    match m.config.onError with
    | .abort => none
    | .skip => some (.skipped t, m, r'.seek (r.offset + 1))

/-- The loop goes from one machine and reader to others in rounds that meet these events. -/
inductive Rounds : Machine → BitReader → List Event → Machine → BitReader → Prop
  | none (m : Machine) (r : BitReader) : Rounds m r [] m r
  | round {m m₁ m₂ : Machine} {r r₁ r₂ : BitReader} {e : Event} {events : List Event}
    (first : m.round? r = some (e, m₁, r₁)) (rest : Rounds m₁ r₁ events m₂ r₂) :
    Rounds m r (e :: events) m₂ r₂

/-- A round moves the reader on in its stream: by two bytes at least where an instruction was read,
and otherwise to the start of the next byte. -/
structure Moves (r : BitReader) (e : Event) (r' : BitReader) : Prop where
  stream : r'.bytes = r.bytes
  further : r.pos < r'.pos
  instruction : ∀ i, e = .instruction i → r.pos + 16 ≤ r'.pos
  skipped : ∀ t, e = .skipped t → r'.pos = 8 * (r.offset + 1)
  /-- Whatever the bit it stood at, the reader gets on by the bytes that the event uses up. -/
  offset : r'.offset = r.offset + e.size

section Round

variable {m m' : Machine} {r r' : BitReader} {e : Event} {events : List Event}

/-- A round is a step that emits an instruction, or one that fails where failures are passed
over. -/
theorem of_round (round : m.round? r = some (e, m', r')) :
    (∃ i, e = .instruction i ∧ m.step r = .emitted i m' r') ∨
      ∃ t r₁, e = .skipped t ∧ m.step r = .trapped t r₁ ∧ m.config.onError = .skip ∧ m' = m ∧
        r' = r₁.seek (r.offset + 1) := by
  unfold round? at round
  split at round
  · cases round
  · rename_i emitted
    cases round
    exact .inl ⟨_, rfl, emitted⟩
  · rename_i trapped
    split at round
    · cases round
    · rename_i skip
      cases round
      exact .inr ⟨_, _, rfl, trapped, skip, rfl, rfl⟩

/-- **A round moves the reader on**, from any bit of the stream. -/
theorem moves_of_round (round : m.round? r = some (e, m', r')) : Moves r e r' := by
  rcases of_round round with ⟨i, rfl, emitted⟩ | ⟨t, r₁, rfl, trapped, _, _, rfl⟩
  · obtain ⟨stream, moved, _, ⟨least, _⟩, _⟩ := (sound_of_emitted emitted).decoding
    refine ⟨stream, by omega, fun _ _ => by omega, ?_, ?_⟩
    · intro t other
      cases other
    · simp only [BitReader.offset, Event.size]
      omega
  · have same := bytes_of_trapped trapped
    -- the failing decoding may have stopped at any bit, so the place is told by the next byte
    have pos := pos_seek same (step_trapped trapped).1
    refine ⟨same, ?_, ?_, fun _ _ => pos, ?_⟩
    · rw [pos, BitReader.offset]
      omega
    · intro i other
      cases other
    · rw [BitReader.offset, pos, Nat.mul_div_cancel_left _ (by decide), Event.size]

/-- **All rounds together** get the reader on by the bytes that their events use up. -/
theorem offset_of_rounds (rounds : Rounds m r events m' r') :
    r'.bytes = r.bytes ∧ r'.offset = r.offset + (events.map Event.size).sum := by
  induction rounds with
  | none m r => exact ⟨rfl, rfl⟩
  | round first rest ih =>
    have moves := moves_of_round first
    refine ⟨ih.1.trans moves.stream, ?_⟩
    rw [ih.2, moves.offset, List.map_cons, List.sum_cons, Nat.add_assoc]

theorem pos_size_of_round (round : m.round? r = some (e, m', r')) : 1 ≤ e.size := by
  rcases of_round round with ⟨i, rfl, emitted⟩ | ⟨t, r₁, rfl, _⟩
  · exact Nat.le_trans (by decide) (sound_of_emitted emitted).decoding.length.1
  · exact Nat.le_refl 1

theorem length_le_size (rounds : Rounds m r events m' r') :
    events.length ≤ (events.map Event.size).sum := by
  induction rounds with
  | none m r => exact Nat.le_refl 0
  | round first rest ih =>
    have one := pos_size_of_round first
    rw [List.length_cons, List.map_cons, List.sum_cons]
    omega

theorem offset_le_size (r : BitReader) : r.offset ≤ r.bytes.size := by
  have bound := r.pos_le
  simp only [BitReader.offset]
  omega

/-- No more rounds are made than there are bytes ahead. -/
theorem length_of_rounds (rounds : Rounds m r events m' r') :
    events.length ≤ r.bytes.size - r.offset := by
  obtain ⟨same, further⟩ := offset_of_rounds rounds
  have bytes := length_le_size rounds
  have bound := offset_le_size r'
  rw [same] at bound
  omega

end Round

/-! ### Runs -/

/-- The round from here is the last of the run: the stream has ended, or a failure ends the run. -/
def Ends (m : Machine) (r : BitReader) (run : Run) : Prop :=
  m.round? r = none ∧ run.machine = m ∧
    match run.trap with
    | none => r.atEnd ∧ run.reader = r
    | some t => m.config.onError = .abort ∧ m.step r = .trapped t run.reader

section Run

variable (m : Machine) (r : BitReader)

/-- **A run is the rounds that it makes**, and then one that ends it. -/
theorem rounds_run :
    ∃ last, Rounds m r (m.run r).events (m.run r).machine last ∧
      (m.run r).machine.Ends last (m.run r) := by
  refine run_induction (P := fun m r run => ∃ last, Rounds m r run.events run.machine last ∧
    run.machine.Ends last run) ?_ ?_ ?_ ?_ m r
  · intro m r finished
    refine ⟨r, .none m r, ?_, rfl, finished, rfl⟩
    rw [round?, step, if_pos finished]
  · rintro m r i m' r' result ⟨last, rounds, ends⟩
    exact ⟨last, .round (by rw [round?, result]) rounds, ends⟩
  · intro m r t r' result abort
    refine ⟨r, .none m r, ?_, rfl, abort, result⟩
    simp only [round?, result, abort]
  · rintro m r t r' result skip ⟨last, rounds, ends⟩
    exact ⟨last, .round (by simp only [round?, result, skip]) rounds, ends⟩

/-- The bytes of the events are those of the instructions and one for each failure passed over. -/
theorem sum_size (events : List Event) :
    (events.map Event.size).sum =
      ((events.filterMap Event.instruction?).map (·.decoding.length)).sum +
        (events.filterMap Event.skipped?).length := by
  induction events with
  | nil => rfl
  | cons e rest ih =>
    rw [List.map_cons, List.sum_cons, ih]
    cases e with
    | instruction i => exact (Nat.add_assoc _ _ _).symm
    | skipped t => exact (Nat.add_comm _ _).trans (Nat.add_assoc _ _ _)

/-- A run that no failure ends comes to the end of its stream. -/
theorem atEnd_of_run (ended : (m.run r).trap = none) : (m.run r).reader.atEnd := by
  obtain ⟨last, _, _, _, how⟩ := rounds_run m r
  rw [ended] at how
  rw [how.2]
  exact how.1

/-- **A run that no failure ends uses up the bytes ahead**, from any bit. -/
theorem size_of_run (ended : (m.run r).trap = none) :
    ((m.run r).instructions.map (·.decoding.length)).sum + (m.run r).skipped.length =
      r.bytes.size - r.offset := by
  obtain ⟨last, rounds, _, _, how⟩ := rounds_run m r
  rw [ended] at how
  obtain ⟨same, further⟩ := offset_of_rounds rounds
  have finished := how.1
  have bound := offset_le_size last
  rw [sum_size] at further
  simp only [atEnd, decide_eq_true_eq] at finished
  simp only [BitReader.offset] at bound further ⊢
  rw [same] at finished bound
  show _ + ((m.run r).events.filterMap Event.skipped?).length = _
  rw [Run.instructions]
  omega

/-- **Runs end**, from any bit of any stream. -/
theorem run_terminates :
    (∀ events m₁ r₁, Rounds m r events m₁ r₁ →
      events.length ≤ r.bytes.size - r.offset ∧
        ∀ e m₂ r₂, m₁.round? r₁ = some (e, m₂, r₂) → Moves r₁ e r₂) ∧
    (∃ last, Rounds m r (m.run r).events (m.run r).machine last ∧
      (m.run r).machine.Ends last (m.run r)) ∧
    ((m.run r).trap = none → (m.run r).reader.atEnd) ∧
    (m.config.onError = .skip →
      ((m.run r).instructions.map (·.decoding.length)).sum + (m.run r).skipped.length =
        r.bytes.size - r.offset) := by
  refine ⟨fun events m₁ r₁ rounds => ⟨?_, fun e m₂ r₂ round => ?_⟩, ?_, ?_, fun policy => ?_⟩
  · exact length_of_rounds rounds
  · exact moves_of_round round
  · exact rounds_run m r
  · exact atEnd_of_run m r
  · exact size_of_run m r (trap_of_skip m r policy)

end Run

/-- From the seventh bit of seven bytes: one instruction, then four failures passed over. -/
theorem run_terminates_mixed :
    let m := Machine.under {} .skip
    let run := m.run mixed
    (∃ e m' r', m.round? mixed = some (e, m', r') ∧ Moves mixed e r') ∧
      (∃ last, Rounds m mixed run.events run.machine last ∧ run.events.length ≤ 7) ∧
      run.trap = none ∧ run.reader.atEnd ∧ m.config.onError = .skip ∧
      run.instructions.map (·.decoding.length) = [3] ∧ run.skipped.length = 4 ∧
      (run.instructions.map (·.decoding.length)).sum + run.skipped.length = 7 := by
  intro m run
  obtain ⟨within, ⟨last, rounds, _⟩, finished, whole⟩ := run_terminates m mixed
  have ended : run.trap = none := by decide +kernel
  have more : (m.round? mixed).isSome := by decide +kernel
  obtain ⟨⟨e, m', r'⟩, round⟩ := Option.isSome_iff_exists.mp more
  refine ⟨⟨e, m', r', round, (within [] m mixed (.none m mixed)).2 e m' r' round⟩,
    ⟨last, rounds, (within _ _ _ rounds).1⟩, ended, finished ended, rfl, ?_, ?_, whole rfl⟩
  · decide +kernel
  · decide +kernel

end Machine

end RealMode
