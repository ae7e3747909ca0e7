/-
**The machine.** A register file and a configuration. The machine steps through a stream one
instruction at a time; `mov`, `add` and `sub` of an immediate into a register change the registers,
and every other instruction leaves them alone. A failure ends the run or drops one byte, as the
configuration says.

* `step_emitted`, `step_trapped`: what a step does to the reader.
* `run_eq`: a run unfolds into a step and the run that follows it.
-/

import RealMode.Instruction
import RealMode.RegisterFile

namespace RealMode

/-- What a run does when an instruction cannot be decoded. -/
inductive ErrorPolicy
  /-- It stops. -/
  | abort
  /-- It drops the byte at which the instruction starts and goes on at the next one. -/
  | skip
  deriving DecidableEq

/-- How the machine runs; by default it stops at a failure, and executes what it decodes. -/
@[ext] structure Config where
  onError : ErrorPolicy := .abort
  execute : Bool := true
  deriving DecidableEq

/-- Registers and configuration. -/
@[ext] structure Machine where
  registers : RegisterFile := .zero
  config : Config := {}
  deriving DecidableEq

/-- A failure to decode the instruction at byte `offset`. -/
@[ext] structure Trap where
  offset : Nat
  cause : DecodeError
  deriving DecidableEq

/-- The wording of a trap. -/
def Trap.message (t : Trap) : String :=
  "decode failed at offset " ++ Numeral.marked 6 t.offset ++ ": " ++ t.cause.message

/-- The registers after an instruction. -/
def RegisterFile.execute (f : RegisterFile) (mnemonic : Mnemonic) : List Operand → RegisterFile
  | [.register r, .immediate i] =>
    match mnemonic with
    | .mov => f.set r i.value.toUInt16
    | .add => f.set r (f.get r + i.value.toUInt16)
    | .sub => f.set r (f.get r - i.value.toUInt16)
    | _ => f
  | _ => f

/-- What one step came to. -/
inductive Step
  /-- The stream had ended. -/
  | halted
  /-- An instruction was read; the machine has executed it. -/
  | emitted (i : Instruction) (m : Machine) (r : BitReader)
  /-- No instruction was read; the machine is as before. -/
  | trapped (t : Trap) (r : BitReader)

/-- What a run met: an instruction, or a failure passed over. -/
inductive Event
  | instruction (i : Instruction)
  | skipped (t : Trap)
  deriving DecidableEq

/-- The instruction of an event. -/
def Event.instruction? : Event → Option Instruction
  | .instruction i => some i
  | .skipped _ => none

/-- The failure of an event. -/
def Event.skipped? : Event → Option Trap
  | .instruction _ => none
  | .skipped t => some t

/-- A run: what it met in order, the failure that ended it if any, and where it left the machine
and the reader. -/
structure Run where
  events : List Event
  trap : Option Trap
  machine : Machine
  reader : BitReader

namespace Run

/-- The instructions of a run in order. -/
def instructions (run : Run) : List Instruction := run.events.filterMap Event.instruction?

/-- The failures that a run passed over, in order. -/
def skipped (run : Run) : List Trap := run.events.filterMap Event.skipped?

end Run

namespace Machine

open BitReader

/-- The machine after an instruction. -/
def execute (m : Machine) (i : Instruction) : Machine :=
  if m.config.execute then { m with registers := m.registers.execute i.mnemonic i.operands } else m

/-- The machine with its registers cleared. -/
def reset (m : Machine) : Machine := { m with registers := .zero }

/-- Reads and executes the instruction under the reader. -/
def step (m : Machine) (r : BitReader) : Step :=
  if r.atEnd then .halted
  else
    match Instruction.read r with
    | .ok i r' => .emitted i (m.execute i) r'
    | .error cause r' => .trapped { offset := r.offset, cause } r'

theorem step_emitted {m m' : Machine} {r r' : BitReader} {i : Instruction}
    (result : m.step r = .emitted i m' r') :
    r.atEnd = false ∧ Instruction.read r = .ok i r' ∧ m' = m.execute i := by
  unfold step at result
  split at result
  · cases result
  · rename_i more
    split at result
    · rename_i found
      cases result
      exact ⟨by simpa using more, found, rfl⟩
    · cases result

theorem step_trapped {m : Machine} {r r' : BitReader} {t : Trap}
    (result : m.step r = .trapped t r') :
    r.atEnd = false ∧ Instruction.read r = .error t.cause r' ∧ t.offset = r.offset := by
  unfold step at result
  split at result
  · cases result
  · rename_i more
    split at result
    · cases result
    · rename_i failed
      cases result
      exact ⟨by simpa using more, failed, rfl⟩

theorem remaining_lt_of_emitted {m m' : Machine} {r r' : BitReader} {i : Instruction}
    (result : m.step r = .emitted i m' r') : r'.remaining < r.remaining := by
  obtain ⟨_, found, _⟩ := step_emitted result
  have moved := Instruction.pos_lt_of_read found
  have kept := Instruction.advances_read r
  rw [found] at kept
  have same : r'.bytes = r.bytes := kept.1
  have bound := r'.pos_le
  unfold remaining
  rw [same] at bound ⊢
  omega

theorem remaining_lt_of_trapped {m : Machine} {r r' : BitReader} {t : Trap}
    (result : m.step r = .trapped t r') :
    (r'.seek (r.offset + 1)).remaining < r.remaining := by
  obtain ⟨more, failed, _⟩ := step_trapped result
  have kept := Instruction.advances_read r
  rw [failed] at kept
  have same : r'.bytes = r.bytes := kept.1
  simp only [atEnd, decide_eq_false_iff_not] at more
  simp only [remaining, seek, offset, same]
  omega

/-- Runs on, after what was `met` already, to the end of the stream or to the failure that ends the
run. -/
def runOn (met : Array Event) (m : Machine) (r : BitReader) : Run :=
  match _ : m.step r with
  | .halted => { events := met.toList, trap := none, machine := m, reader := r }
  | .emitted i m' r' => runOn (met.push (.instruction i)) m' r'
  | .trapped t r' =>
    match m.config.onError with
    | .abort => { events := met.toList, trap := some t, machine := m, reader := r' }
    | .skip => runOn (met.push (.skipped t)) m (r'.seek (r.offset + 1))
  termination_by r.remaining
  decreasing_by
  · exact remaining_lt_of_emitted ‹_›
  · exact remaining_lt_of_trapped ‹_›

/-- Runs a machine from where the reader stands. -/
def run (m : Machine) (r : BitReader) : Run := runOn #[] m r

/-! ### Runs unfold into steps -/

/-- A run with events before it. -/
def Run.after (met : List Event) (run : Run) : Run := { run with events := met ++ run.events }

theorem Run.after_after (first second : List Event) (run : Run) :
    Run.after first (Run.after second run) = Run.after (first ++ second) run := by
  simp [Run.after]

theorem runOn_eq_after (met : Array Event) (m : Machine) (r : BitReader) :
    runOn met m r = Run.after met.toList (m.run r) := by
  unfold run
  induction bound : r.remaining using Nat.strongRecOn generalizing met m r with
  | ind n ih =>
    subst bound
    rw [runOn, runOn]
    split
    · simp [Run.after]
    · rename_i i m' r' result
      have less := remaining_lt_of_emitted result
      rw [ih _ less (met.push _) m' r' rfl, ih _ less (#[].push _) m' r' rfl, Run.after_after]
      simp
    · rename_i t r' result
      split
      · simp [Run.after]
      · have less := remaining_lt_of_trapped result
        rw [ih _ less (met.push _) m _ rfl, ih _ less (#[].push _) m _ rfl, Run.after_after]
        simp

/-- **A run is a step followed by a run.** -/
theorem run_eq (m : Machine) (r : BitReader) :
    m.run r =
      match m.step r with
      | .halted => { events := [], trap := none, machine := m, reader := r }
      | .emitted i m' r' => Run.after [.instruction i] (m'.run r')
      | .trapped t r' =>
        match m.config.onError with
        | .abort => { events := [], trap := some t, machine := m, reader := r' }
        | .skip => Run.after [.skipped t] (m.run (r'.seek (r.offset + 1))) := by
  rw [run, runOn]
  split
  · rename_i result
    rw [result]
  · rename_i result
    rw [result, runOn_eq_after]
    rfl
  · rename_i result
    rw [result]
    split
    · rfl
    · rw [runOn_eq_after]
      rfl

end Machine

end RealMode
