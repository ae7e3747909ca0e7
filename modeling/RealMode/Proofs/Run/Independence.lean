/-
**What a machine reads does not depend on its state.** Machines with the same policy read the same
instructions from a stream, meet the same failures and stop at the same bit, whatever their
registers hold and whether they execute what they read. Only a machine that executes changes its
registers, and none changes its configuration.

* `step_emitted_by`, `step_trapped_by`: the step of one machine tells that of any other.
* `alike_run`: the runs of machines with the same policy, step by step.
* `machine_run`: the machine that a run leaves.
* `run_independent`: a run reads the same on any machine with its policy.
-/

import RealMode.Proofs.Run.Policies

namespace RealMode

open BitReader

/-- The runs met the same, ended alike and left the reader at the same place. -/
structure Run.Alike (run run' : Run) : Prop where
  events : run.events = run'.events
  trap : run.trap = run'.trap
  reader : run.reader = run'.reader

namespace Run.Alike

variable {run run' : Run}

theorem instructions (alike : run.Alike run') : run.instructions = run'.instructions := by
  rw [Run.instructions, alike.events, Run.instructions]

theorem skipped (alike : run.Alike run') : run.skipped = run'.skipped := by
  rw [Run.skipped, alike.events, Run.skipped]

end Run.Alike

namespace Machine

/-! ### Steps of two machines -/

section Step

variable {m m₁ : Machine} {r r' : BitReader} {i : Instruction} {t : Trap}

/-- What one machine emits every machine emits, and executes in its own way. -/
theorem step_emitted_by (result : m.step r = .emitted i m₁ r') (other : Machine) :
    other.step r = .emitted i (other.execute i) r' := by
  obtain ⟨more, found, _⟩ := step_emitted result
  rw [step, more, found]
  rfl

/-- Where one machine is trapped every machine is. -/
theorem step_trapped_by (result : m.step r = .trapped t r') (other : Machine) :
    other.step r = .trapped t r' := by
  obtain ⟨more, failed, place⟩ := step_trapped result
  rw [step, more, failed, ← place]
  rfl

end Step

/-! ### Runs of two machines -/

theorem alike_after {run run' : Run} (alike : run.Alike run') (met : List Event) :
    (Run.after met run).Alike (Run.after met run') where
  events := congrArg (met ++ ·) alike.events
  trap := alike.trap
  reader := alike.reader

/-- **Machines with the same policy have runs alike**, whatever their registers hold and whether
they execute. -/
theorem alike_run (m other : Machine) (r : BitReader)
    (policy : other.config.onError = m.config.onError) : (m.run r).Alike (other.run r) := by
  refine run_induction (P := fun m r run => ∀ other : Machine,
    other.config.onError = m.config.onError → run.Alike (other.run r)) ?_ ?_ ?_ ?_ m r other policy
  · intro m r finished other policy
    rw [run_of_halted finished]
    exact ⟨rfl, rfl, rfl⟩
  · -- both machines execute the instruction, each in its own way, and go on under the same policy
    intro m r i m' r' result ih other policy
    rw [run_of_emitted (step_emitted_by result other)]
    refine alike_after (ih (other.execute i) ?_) _
    rw [onError_execute, onError_of_emitted result, policy]
  · intro m r t r' result abort other policy
    rw [run_of_aborted (step_trapped_by result other) (policy.trans abort)]
    exact ⟨rfl, rfl, rfl⟩
  · intro m r t r' result skip ih other policy
    rw [run_of_skipped (step_trapped_by result other) (policy.trans skip)]
    exact alike_after (ih other policy) _

/-- **No run changes the configuration.** -/
theorem config_run (m : Machine) (r : BitReader) : (m.run r).machine.config = m.config := by
  refine run_induction (P := fun m _ run => run.machine.config = m.config) ?_ ?_ ?_ ?_ m r
  · exact fun m r finished => rfl
  · intro m r i m' r' result ih
    obtain ⟨_, _, rfl⟩ := step_emitted result
    exact ih.trans (config_execute m i)
  · exact fun m r t r' result abort => rfl
  · exact fun m r t r' result skip ih => ih

theorem execute_of_idle {m : Machine} (idle : m.config.execute = false) (i : Instruction) :
    m.execute i = m := by
  rw [execute, idle, if_neg Bool.false_ne_true]

/-- A run that does not execute leaves the machine as it was. -/
theorem machine_run_of_idle (m : Machine) (r : BitReader) (idle : m.config.execute = false) :
    (m.run r).machine = m := by
  refine run_induction (P := fun m _ run => m.config.execute = false → run.machine = m)
    ?_ ?_ ?_ ?_ m r idle
  · exact fun m r finished idle => rfl
  · intro m r i m' r' result ih idle
    obtain ⟨_, _, rfl⟩ := step_emitted result
    rw [execute_of_idle idle] at ih
    rw [execute_of_idle idle]
    exact ih idle
  · exact fun m r t r' result abort idle => rfl
  · exact fun m r t r' result skip ih idle => ih idle

/-- **The machine that a run leaves** has its configuration, and the registers that the instructions
make if it executes. -/
theorem machine_run (m : Machine) (r : BitReader) :
    (m.run r).machine =
      { m with
        registers :=
          if m.config.execute then m.registers.executeAll (m.run r).instructions
          else m.registers } := by
  cases executes : m.config.execute with
  | true => exact Machine.ext (registers_run m r executes) (config_run m r)
  | false => exact machine_run_of_idle m r executes

/-- **A run reads the same on any machine with its policy**: the same instructions and failures, the
same end and the same place. Of the machine it changes the registers alone, and these only if it
executes. -/
theorem run_independent (policy : ErrorPolicy) (execute execute' : Bool) (f f' : RegisterFile)
    (r : BitReader) :
    let run := Machine.run ⟨f, ⟨policy, execute⟩⟩ r
    let run' := Machine.run ⟨f', ⟨policy, execute'⟩⟩ r
    run.instructions = run'.instructions ∧ run.skipped = run'.skipped ∧
      run.events = run'.events ∧ run.trap = run'.trap ∧ run.reader = run'.reader ∧
      run.machine.config = ⟨policy, execute⟩ ∧
      run.machine.registers = if execute then f.executeAll run.instructions else f := by
  intro run run'
  have alike : run.Alike run' := alike_run _ _ r rfl
  have left := machine_run ⟨f, ⟨policy, execute⟩⟩ r
  refine ⟨alike.instructions, alike.skipped, alike.events, alike.trap, alike.reader, ?_, ?_⟩
  · exact congrArg Machine.config left
  · exact congrArg Machine.registers left

end Machine

end RealMode
