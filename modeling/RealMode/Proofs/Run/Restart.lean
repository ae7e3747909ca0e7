/-
**Passing over failures is stopping and starting again.** `restarted` runs a machine until a failure
stops it, passes over the byte at which the instruction starts, and runs it again from there, until
a run ends without a failure.

* `run_skip_eq_restarted`: a run that passes over failures is this iteration.
-/

import RealMode.Proofs.Run.Policies

namespace RealMode.Machine

/-- What a sequence of runs came to: all their instructions, the failures that stopped them, and
where the last one left the registers and the reader. -/
structure Restarts where
  instructions : List Instruction
  skipped : List Trap
  registers : RegisterFile
  reader : BitReader

/-- Runs under the policy that stops at failures, again and again from the byte after a failure. -/
def restarted (m : Machine) (r : BitReader) : Restarts :=
  let first := (m.under .abort).run r
  match _ : first.trap with
  | none =>
    { instructions := first.instructions, skipped := [], registers := first.machine.registers
      reader := first.reader }
  | some t =>
    let rest := restarted first.machine (first.reader.seek (t.offset + 1))
    { rest with
      instructions := first.instructions ++ rest.instructions, skipped := t :: rest.skipped }
  termination_by r.remaining
  decreasing_by exact remaining_lt_of_trap _ _ ‹_›

/-! ### The events before a restart -/

section Resumed

variable (first rest : Run) (t : Trap)

theorem instructions_resumed :
    (Run.after (first.events ++ [.skipped t]) rest).instructions =
      first.instructions ++ rest.instructions := by
  rw [Run.instructions_after, List.filterMap_append]
  show first.instructions ++ [] ++ rest.instructions = _
  rw [List.append_nil]

theorem skipped_resumed (none : first.skipped = []) :
    (Run.after (first.events ++ [.skipped t]) rest).skipped = t :: rest.skipped := by
  rw [Run.skipped_after, List.filterMap_append]
  show first.skipped ++ [t] ++ rest.skipped = _
  rw [none]
  rfl

end Resumed

/-! ### The iteration -/

theorem restarted_eq (m : Machine) (r : BitReader) :
    restarted m r =
      { instructions := ((m.under .skip).run r).instructions
        skipped := ((m.under .skip).run r).skipped
        registers := ((m.under .skip).run r).machine.registers
        reader := ((m.under .skip).run r).reader } := by
  induction bound : r.remaining using Nat.strongRecOn generalizing m r with
  | ind n ih =>
    subst bound
    have whole := run_skip_eq (m.under .abort) r rfl
    have none := skipped_of_abort (m.under .abort) r rfl
    rw [under_under] at whole
    rw [restarted, whole]
    dsimp only
    split
    · rename_i ended
      rw [ended, ← none]
      rfl
    · rename_i t trapped
      -- the run stopped at `t`: the rest is the iteration on fewer unread bits
      have less := remaining_lt_of_trap (m.under .abort) r trapped
      rw [trapped, ih _ less _ _ rfl]
      dsimp only
      rw [instructions_resumed, skipped_resumed _ _ _ none]
      rfl

/-- **A run that passes over failures is a sequence of runs that stop at them.** Its first
instructions are those of a run that stops, and its first failure the one that stops that run. -/
theorem run_skip_eq_restarted (m : Machine) (r : BitReader) :
    ((m.under .skip).run r).trap = none ∧
      ((m.under .skip).run r).instructions = (restarted m r).instructions ∧
      ((m.under .skip).run r).skipped = (restarted m r).skipped ∧
      ((m.under .skip).run r).machine.registers = (restarted m r).registers ∧
      ((m.under .skip).run r).reader = (restarted m r).reader ∧
      ((m.under .abort).run r).instructions <+: ((m.under .skip).run r).instructions ∧
      ((m.under .skip).run r).skipped.head? = ((m.under .abort).run r).trap := by
  have same := restarted_eq m r
  have instructions : ((m.under .skip).run r).instructions = (restarted m r).instructions := by
    rw [same]
  have skipped : ((m.under .skip).run r).skipped = (restarted m r).skipped := by rw [same]
  refine ⟨trap_of_skip _ r rfl, instructions, skipped, by rw [same], by rw [same], ?_, ?_⟩
  · rw [instructions, restarted]
    dsimp only
    split
    · exact List.prefix_rfl
    · exact List.prefix_append _ _
  · rw [skipped, restarted]
    dsimp only
    split
    · rename_i ended
      rw [ended]
      rfl
    · rename_i trapped
      rw [trapped]
      rfl

end RealMode.Machine
