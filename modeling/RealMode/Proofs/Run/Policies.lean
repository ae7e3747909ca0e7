/-
**Runs and their policies.** A run is a step followed by a run, until the stream has ended or a
failure ends it. The policy plays no part in a step: under another one a machine reads the same
instructions, executes them alike and fails at the same places.

* `run_induction`: what holds at the ends of runs and is kept by a step holds of every run.
* `step_of_instruction`: every instruction of a run was emitted by a step.
* `registers_run`: the registers after a run are those that its instructions make of the first ones.
* `trap_of_skip`, `skipped_of_abort`: no failure ends a run under the one policy, and none is passed
  over under the other.
* `run_skip_eq`: a run that passes over failures is one that stops at the first of them and, where
  it does, another one from the byte after it.
-/

import RealMode.Machine

namespace RealMode

open BitReader

/-- The registers after some instructions. -/
def RegisterFile.executeAll (f : RegisterFile) (instructions : List Instruction) : RegisterFile :=
  instructions.foldl (fun f i => f.execute i.mnemonic i.operands) f

namespace Machine

/-! ### Events before a run -/

section After

variable (met : List Event) (run : Run)

theorem Run.instructions_after :
    (Run.after met run).instructions = met.filterMap Event.instruction? ++ run.instructions :=
  List.filterMap_append

theorem Run.skipped_after :
    (Run.after met run).skipped = met.filterMap Event.skipped? ++ run.skipped :=
  List.filterMap_append

end After

/-! ### The first step of a run -/

section First

variable {m m' : Machine} {r r' : BitReader} {i : Instruction} {t : Trap}

theorem run_of_halted (finished : r.atEnd) :
    m.run r = { events := [], trap := none, machine := m, reader := r } := by
  rw [run_eq, step, if_pos finished]

theorem run_of_emitted (result : m.step r = .emitted i m' r') :
    m.run r = Run.after [.instruction i] (m'.run r') := by
  rw [run_eq, result]

theorem run_of_aborted (result : m.step r = .trapped t r') (abort : m.config.onError = .abort) :
    m.run r = { events := [], trap := some t, machine := m, reader := r' } := by
  rw [run_eq, result]
  dsimp only
  rw [abort]

theorem run_of_skipped (result : m.step r = .trapped t r') (skip : m.config.onError = .skip) :
    m.run r = Run.after [.skipped t] (m.run (r'.seek (r.offset + 1))) := by
  rw [run_eq, result]
  dsimp only
  rw [skip]

end First

/-! ### Induction along a run -/

theorem atEnd_of_halted {m : Machine} {r : BitReader} (result : m.step r = .halted) : r.atEnd := by
  unfold step at result
  split at result
  · assumption
  · split at result
    · cases result
    · cases result

/-- What holds at the ends of runs and is kept by a step holds of every run. -/
theorem run_induction {P : Machine → BitReader → Run → Prop}
    (halted : ∀ m r, r.atEnd → P m r { events := [], trap := none, machine := m, reader := r })
    (emitted : ∀ m r i m' r', m.step r = .emitted i m' r' → P m' r' (m'.run r') →
      P m r (Run.after [.instruction i] (m'.run r')))
    (aborted : ∀ m r t r', m.step r = .trapped t r' → m.config.onError = .abort →
      P m r { events := [], trap := some t, machine := m, reader := r' })
    (skipped : ∀ m r t r', m.step r = .trapped t r' → m.config.onError = .skip →
      P m (r'.seek (r.offset + 1)) (m.run (r'.seek (r.offset + 1))) →
      P m r (Run.after [.skipped t] (m.run (r'.seek (r.offset + 1)))))
    (m : Machine) (r : BitReader) : P m r (m.run r) := by
  induction bound : r.remaining using Nat.strongRecOn generalizing m r with
  | ind n ih =>
    subst bound
    rw [run_eq]
    cases result : m.step r with
    | halted => exact halted m r (atEnd_of_halted result)
    | emitted i m' r' =>
      exact emitted m r i m' r' result (ih _ (remaining_lt_of_emitted result) m' r' rfl)
    | trapped t r' =>
      dsimp only
      cases policy : m.config.onError with
      | abort => exact aborted m r t r' result policy
      | skip => exact skipped m r t r' result policy (ih _ (remaining_lt_of_trapped result) m _ rfl)

/-- Every instruction of a run was emitted by a step. -/
theorem step_of_instruction (m : Machine) (r : BitReader) : ∀ i ∈ (m.run r).instructions,
    ∃ m₁ r₁ m₂ r₂, Machine.step m₁ r₁ = .emitted i m₂ r₂ := by
  refine run_induction (P := fun _ _ run => ∀ i ∈ run.instructions,
    ∃ m₁ r₁ m₂ r₂, Machine.step m₁ r₁ = .emitted i m₂ r₂) ?_ ?_ ?_ ?_ m r
  · intro m r finished i member
    cases member
  · intro m r i m' r' result ih j member
    rw [Run.instructions_after] at member
    rcases List.mem_append.mp member with first | later
    · obtain rfl := List.mem_singleton.mp first
      exact ⟨m, r, m', r', result⟩
    · exact ih j later
  · intro m r t r' result abort i member
    cases member
  · intro m r t r' result skip ih i member
    rw [Run.instructions_after] at member
    exact ih i member

/-! ### The registers after a run -/

theorem config_execute (m : Machine) (i : Instruction) : (m.execute i).config = m.config := by
  unfold execute
  split <;> rfl

theorem registers_execute {m : Machine} (executes : m.config.execute) (i : Instruction) :
    (m.execute i).registers = m.registers.execute i.mnemonic i.operands := by
  rw [execute, if_pos executes]

/-- **The registers after a run** are those that its instructions make of the first ones. -/
theorem registers_run (m : Machine) (r : BitReader) (executes : m.config.execute) :
    (m.run r).machine.registers = m.registers.executeAll (m.run r).instructions := by
  refine run_induction (P := fun m _ run => m.config.execute →
    run.machine.registers = m.registers.executeAll run.instructions) ?_ ?_ ?_ ?_ m r executes
  · exact fun m r finished executes => rfl
  · intro m r i m' r' result ih executes
    obtain ⟨_, _, rfl⟩ := step_emitted result
    rw [Run.instructions_after]
    refine (ih (by rw [config_execute]; exact executes)).trans ?_
    rw [registers_execute executes]
    rfl
  · exact fun m r t r' result abort executes => rfl
  · intro m r t r' result skip ih executes
    rw [Run.instructions_after]
    exact ih executes

/-! ### The machine under another policy -/

/-- The machine under the given policy. -/
def under (m : Machine) (policy : ErrorPolicy) : Machine :=
  { m with config := { m.config with onError := policy } }

@[simp] theorem onError_under (m : Machine) (policy : ErrorPolicy) :
    (m.under policy).config.onError = policy := rfl

@[simp] theorem under_under (m : Machine) (first second : ErrorPolicy) :
    (m.under first).under second = m.under second := rfl

theorem execute_under (m : Machine) (policy : ErrorPolicy) (i : Instruction) :
    (m.under policy).execute i = (m.execute i).under policy := by
  unfold execute
  show (if m.config.execute then _ else _) = _
  split <;> rfl

theorem onError_execute (m : Machine) (i : Instruction) :
    (m.execute i).config.onError = m.config.onError := by
  rw [config_execute]

theorem step_under (m : Machine) (policy : ErrorPolicy) (r : BitReader) :
    (m.under policy).step r =
      match m.step r with
      | .halted => .halted
      | .emitted i m' r' => .emitted i (m'.under policy) r'
      | .trapped t r' => .trapped t r' := by
  unfold step
  split
  · rfl
  · split
    · rw [execute_under]
    · rfl

/-! ### What the policies rule out -/

theorem onError_of_emitted {m m' : Machine} {r r' : BitReader} {i : Instruction}
    (result : m.step r = .emitted i m' r') : m'.config.onError = m.config.onError := by
  obtain ⟨_, _, rfl⟩ := step_emitted result
  exact onError_execute m i

theorem trap_of_skip (m : Machine) (r : BitReader) (policy : m.config.onError = .skip) :
    (m.run r).trap = none := by
  refine run_induction (P := fun m _ run => m.config.onError = .skip → run.trap = none)
    ?_ ?_ ?_ ?_ m r policy
  · exact fun m r finished policy => rfl
  · exact fun m r i m' r' result ih policy => ih ((onError_of_emitted result).trans policy)
  · intro m r t r' result abort policy
    rw [abort] at policy
    cases policy
  · exact fun m r t r' result skip ih policy => ih policy

theorem skipped_of_abort (m : Machine) (r : BitReader) (policy : m.config.onError = .abort) :
    (m.run r).skipped = [] := by
  refine run_induction (P := fun m _ run => m.config.onError = .abort → run.skipped = [])
    ?_ ?_ ?_ ?_ m r policy
  · exact fun m r finished policy => rfl
  · intro m r i m' r' result ih policy
    rw [Run.skipped_after, ih ((onError_of_emitted result).trans policy)]
    rfl
  · exact fun m r t r' result abort policy => rfl
  · intro m r t r' result skip ih policy
    rw [skip] at policy
    cases policy

/-! ### Going on after a failure -/

/-- The byte after the failure that ended a run is further on than its start. -/
theorem remaining_lt_of_trap (m : Machine) (r : BitReader) {t : Trap}
    (trapped : (m.run r).trap = some t) :
    ((m.run r).reader.seek (t.offset + 1)).remaining < r.remaining := by
  refine run_induction (P := fun _ r run =>
    run.trap = some t → (run.reader.seek (t.offset + 1)).remaining < r.remaining)
    ?_ ?_ ?_ ?_ m r trapped
  · intro m r finished trapped
    cases trapped
  · exact fun m r i m' r' result ih trapped =>
      Nat.lt_trans (ih trapped) (remaining_lt_of_emitted result)
  · intro m r t' r' result abort trapped
    cases trapped
    rw [(step_trapped result).2.2]
    exact remaining_lt_of_trapped result
  · exact fun m r t' r' result skip ih trapped =>
      Nat.lt_trans (ih trapped) (remaining_lt_of_trapped result)

/-- **A run that passes over failures is one that stops at the first of them** and, where it does,
another one from the byte after it. -/
theorem run_skip_eq (m : Machine) (r : BitReader) (policy : m.config.onError = .abort) :
    (m.under .skip).run r =
      match (m.run r).trap with
      | none => { m.run r with trap := none, machine := (m.run r).machine.under .skip }
      | some t =>
        Run.after ((m.run r).events ++ [.skipped t])
          (((m.run r).machine.under .skip).run ((m.run r).reader.seek (t.offset + 1))) := by
  refine run_induction (P := fun m r run => m.config.onError = .abort →
    (m.under .skip).run r =
      match run.trap with
      | none => { run with trap := none, machine := run.machine.under .skip }
      | some t =>
        Run.after (run.events ++ [.skipped t])
          ((run.machine.under .skip).run (run.reader.seek (t.offset + 1)))) ?_ ?_ ?_ ?_ m r policy
  · intro m r finished policy
    rw [run_eq, step_under, step, if_pos finished]
  · -- the instruction stands before the events of both runs
    intro m r i m' r' result ih policy
    rw [run_eq, step_under, result]
    dsimp only
    rw [ih ((onError_of_emitted result).trans policy)]
    show _ = match (m'.run r').trap with | none => _ | some t => _
    cases (m'.run r').trap with
    | none => rfl
    | some t => rw [Run.after_after]; rfl
  · intro m r t r' result abort policy
    rw [run_eq, step_under, result, ← (step_trapped result).2.2]
    rfl
  · intro m r t r' result skip ih policy
    rw [skip] at policy
    cases policy

end Machine

end RealMode
