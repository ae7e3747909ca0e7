/-
**Additions and subtractions of constants.** Each of them adds a number to one register, modulo its
size, so the one undoes the other; and two of them commute when their registers are the same or have
no byte in common. A program of them is undone by its opposites in reverse order, whatever bytes its
registers share, and where none shares part of another the order plays no part.

* `adjust_adjust`: adding to a register twice is adding the sum.
* `adjust_comm`: additions to registers that do not share a part commute.
* `executeAll_undone`: a program, then its opposites from the last to the first, changes nothing.
* `adjustments_reversible`: a program is undone, and may be put in another order.
-/

import RealMode.Proofs.Registers.Cells
import RealMode.Proofs.Run.Policies

namespace RealMode

/-! ### Adding to a register -/

namespace RegisterFile

section Adjust

variable (f : RegisterFile) {r s : Register} {v w : UInt16}

/-- The register file after a number is added to a register. -/
def adjust (f : RegisterFile) (r : Register) (n : UInt16) : RegisterFile := f.set r (f.get r + n)

/-- A write to a register makes up for what was written to it before. -/
theorem set_set (r : Register) (v w : UInt16) : (f.set r v).set r w = f.set r w := by
  refine eq_of_cells fun c => UInt8.toNat_inj.mp ?_
  rw [cell_set, cell_set, cell_set]
  by_cases covered : c ∈ r.cells
  · rw [if_pos covered, if_pos covered]
  · rw [if_neg covered, if_neg covered, if_neg covered]

/-- What a register can hold of a value is all that a write depends on. -/
theorem set_cut (same : cut v r.part = cut w r.part) : f.set r v = f.set r w := by
  have written : (f.slot r).write v r.part = (f.slot r).write w r.part := by
    revert same
    cases r.part with
    | full => exact congrArg fun value => (f.slot r).write value .full
    | low | high =>
      intro same
      simp only [Storage.write, UInt8.toUInt16_inj.mp same]
  rw [set, set, written]

theorem write_read (s : Storage) (part : RegisterPart) : s.write (s.read part) part = s := by
  cases part with
  | full =>
    simp only [Storage.write, Storage.read, Word.low_ofBytes, Word.high_ofBytes]
  | low | high =>
    simp only [Storage.write, Storage.read, Word.low, UInt8.toUInt8_toUInt16]

/-- Writing to a register what it holds changes nothing. -/
theorem set_get (r : Register) : f.set r (f.get r) = f := by
  rw [set, get, write_read]
  exact RegisterFile.ext (Vector.set_getElem_self r.slot.isLt)

theorem cut_add (part : RegisterPart) (v n : UInt16) :
    cut (cut v part + n) part = cut (v + n) part := by
  cases part with
  | full => rfl
  | low | high =>
    simp only [cut, Word.low, UInt16.toUInt8_add, UInt8.toUInt8_toUInt16]

/-- **Adding to a register twice is adding the sum.** -/
theorem adjust_adjust (r : Register) (m n : UInt16) :
    (f.adjust r m).adjust r n = f.adjust r (m + n) := by
  unfold adjust
  rw [get_set_self, set_set, ← UInt16.add_assoc]
  exact f.set_cut (cut_add r.part (f.get r + m) n)

theorem adjust_zero (r : Register) : f.adjust r 0 = f := by
  rw [adjust, UInt16.add_zero, set_get]

/-- Writes to registers without a byte in common commute. -/
theorem set_comm (apart : ¬r.Overlaps s) (v w : UInt16) :
    (f.set r v).set s w = (f.set s w).set r v := by
  refine eq_of_cells fun c => UInt8.toNat_inj.mp ?_
  rw [cell_set, cell_set, cell_set, cell_set]
  by_cases first : c ∈ r.cells
  · rw [if_pos first, if_pos first, if_neg fun second => apart ⟨c, first, second⟩]
  · rw [if_neg first, if_neg first]

/-- **Additions to registers that do not share a part commute.** -/
theorem adjust_comm (clear : r = s ∨ ¬r.Overlaps s) (m n : UInt16) :
    (f.adjust r m).adjust s n = (f.adjust s n).adjust r m := by
  rcases clear with rfl | apart
  · rw [adjust_adjust, adjust_adjust, UInt16.add_comm]
  · have apart' : ¬s.Overlaps r := fun ⟨c, second, first⟩ => apart ⟨c, first, second⟩
    unfold adjust
    rw [get_set_of_apart f _ apart, get_set_of_apart f _ apart', set_comm f apart]

end Adjust

end RegisterFile

/-! ### Instructions that add or subtract -/

/-- Subtraction for addition, and addition for subtraction. -/
def Mnemonic.opposite : Mnemonic → Mnemonic
  | add => sub
  | sub => add
  | other => other

namespace Instruction

/-- The instruction adds a constant to the register or subtracts one from it. -/
def Adjusts (i : Instruction) (r : Register) : Prop :=
  (i.mnemonic = .add ∨ i.mnemonic = .sub) ∧ ∃ c, i.operands = [.register r, .immediate c]

/-- Any two destinations are one register or have no byte in common. -/
def Clear (program : List Instruction) : Prop :=
  ∀ i ∈ program, ∀ j ∈ program, ∀ r s, i.Adjusts r → j.Adjusts s → r = s ∨ ¬r.Overlaps s

/-- The instruction with addition and subtraction exchanged. -/
def opposite (i : Instruction) : Instruction :=
  { i with decoding := { i.decoding with mnemonic := i.mnemonic.opposite } }

theorem mnemonic_opposite (i : Instruction) : i.opposite.mnemonic = i.mnemonic.opposite := rfl

theorem operands_opposite (i : Instruction) : i.opposite.operands = i.operands := rfl

/-- **An addition or a subtraction adds a number**, and its opposite adds the negative of it. -/
theorem execute_of_adjusts {i : Instruction} {r : Register} (adjusts : i.Adjusts r) :
    ∃ n, ∀ f : RegisterFile, f.execute i.mnemonic i.operands = f.adjust r n ∧
      f.execute i.opposite.mnemonic i.opposite.operands = f.adjust r (-n) := by
  obtain ⟨operation | operation, c, operands⟩ := adjusts
  · refine ⟨c.value.toUInt16, fun f => ?_⟩
    rw [mnemonic_opposite, operands_opposite, operation, operands, RegisterFile.adjust,
      RegisterFile.adjust, ← UInt16.sub_eq_add_neg]
    exact ⟨rfl, rfl⟩
  · refine ⟨-c.value.toUInt16, fun f => ?_⟩
    rw [mnemonic_opposite, operands_opposite, operation, operands, RegisterFile.adjust,
      RegisterFile.adjust, ← UInt16.sub_eq_add_neg, UInt16.neg_neg]
    exact ⟨rfl, rfl⟩

end Instruction

/-! ### Programs -/

namespace RegisterFile

section Programs

variable (f : RegisterFile) {i j : Instruction} {r s : Register} {program : List Instruction}

theorem executeAll_append (first second : List Instruction) :
    f.executeAll (first ++ second) = (f.executeAll first).executeAll second := List.foldl_append

/-- An addition or a subtraction, then its opposite, changes nothing. -/
theorem execute_opposite (adjusts : i.Adjusts r) :
    (f.execute i.mnemonic i.operands).execute i.opposite.mnemonic i.opposite.operands = f := by
  obtain ⟨n, adds⟩ := Instruction.execute_of_adjusts adjusts
  rw [(adds _).2, (adds f).1, adjust_adjust, UInt16.add_right_neg, adjust_zero]

/-- Two of them commute when their registers do not share a part. -/
theorem execute_comm (first : i.Adjusts r) (second : j.Adjusts s) (clear : r = s ∨ ¬r.Overlaps s) :
    (f.execute i.mnemonic i.operands).execute j.mnemonic j.operands =
      (f.execute j.mnemonic j.operands).execute i.mnemonic i.operands := by
  obtain ⟨m, adds⟩ := Instruction.execute_of_adjusts first
  obtain ⟨n, adds'⟩ := Instruction.execute_of_adjusts second
  rw [(adds' _).1, (adds f).1, (adds _).1, (adds' f).1, adjust_comm f clear]

/-- **A program, then its opposites from the last to the first, changes nothing.** -/
theorem executeAll_undone (adjusts : ∀ i ∈ program, ∃ r, i.Adjusts r) :
    (f.executeAll program).executeAll (program.reverse.map Instruction.opposite) = f := by
  induction program generalizing f with
  | nil => rfl
  | cons i program ih =>
    obtain ⟨r, first⟩ := adjusts i List.mem_cons_self
    have start : f.executeAll (i :: program) =
        (f.execute i.mnemonic i.operands).executeAll program := rfl
    rw [List.reverse_cons, List.map_append, executeAll_append, start,
      ih _ fun j member => adjusts j (List.mem_cons_of_mem i member)]
    exact f.execute_opposite first

/-- Where no destination is a part of another one, the order plays no part. -/
theorem executeAll_perm {shuffled : List Instruction} (adjusts : ∀ i ∈ program, ∃ r, i.Adjusts r)
    (clear : Instruction.Clear program) (same : program.Perm shuffled) :
    f.executeAll shuffled = f.executeAll program := by
  refine (same.foldl_eq' (fun i here j there f => ?_) f).symm
  obtain ⟨r, first⟩ := adjusts i here
  obtain ⟨s, second⟩ := adjusts j there
  exact f.execute_comm first second (clear i here j there r s first second)

end Programs

end RegisterFile

/-- **A program of additions and subtractions is undone by its opposites in reverse order**, and may
be put in any order where no destination is a part of another one. -/
theorem adjustments_reversible (f : RegisterFile) {program : List Instruction}
    (adjusts : ∀ i ∈ program, ∃ r, i.Adjusts r) :
    (f.executeAll program).executeAll (program.reverse.map Instruction.opposite) = f ∧
      (Instruction.Clear program →
        ∀ shuffled, program.Perm shuffled → f.executeAll shuffled = f.executeAll program) :=
  ⟨f.executeAll_undone adjusts, fun clear _ same => f.executeAll_perm adjusts clear same⟩

/-- An operation on a register with a constant. -/
def adjusting (step : Mnemonic × Register × Int16) : Instruction where
  offset := 0
  bytes := #[]
  decoding := { opcode := 0x81, mnemonic := step.1 }
  operands := [.register step.2.1, .immediate { value := step.2.2, width := .word }]

/-- A carry from one byte of a word into the other, which only the addition to the word makes. -/
def interleaved : List Instruction :=
  [(.add, .al, 200), (.add, .ax, 100), (.sub, .ah, 3)].map adjusting

/-- Two bytes of a word and another word. -/
def parted : List Instruction :=
  [(.add, .al, 200), (.sub, .bx, 1000), (.add, .ah, -3), (.sub, .al, 100)].map adjusting

theorem adjusts_adjusting {steps : List (Mnemonic × Register × Int16)}
    (known : ∀ step ∈ steps, step.1 = .add ∨ step.1 = .sub) :
    ∀ i ∈ steps.map adjusting, ∃ r, i.Adjusts r := by
  intro i member
  obtain ⟨step, here, rfl⟩ := List.mem_map.mp member
  exact ⟨step.2.1, known step here, _, rfl⟩

theorem clear_adjusting {steps : List (Mnemonic × Register × Int16)}
    (apart : ∀ a ∈ steps, ∀ b ∈ steps, a.2.1 = b.2.1 ∨ ¬a.2.1.Overlaps b.2.1) :
    Instruction.Clear (steps.map adjusting) := by
  intro i first j second r s adjusts adjusts'
  obtain ⟨a, here, rfl⟩ := List.mem_map.mp first
  obtain ⟨b, there, rfl⟩ := List.mem_map.mp second
  obtain ⟨_, _, operands⟩ := adjusts
  obtain ⟨_, _, operands'⟩ := adjusts'
  cases operands
  cases operands'
  exact apart a here b there

theorem adjustments_reversible_interleaved :
    (∀ i ∈ interleaved, ∃ r, i.Adjusts r) ∧ (∀ i ∈ parted, ∃ r, i.Adjusts r) ∧
      Instruction.Clear parted ∧
      RegisterFile.zero.executeAll interleaved.reverse ≠ RegisterFile.zero.executeAll interleaved ∧
      (RegisterFile.zero.executeAll interleaved).executeAll
        (interleaved.reverse.map Instruction.opposite) = RegisterFile.zero ∧
      RegisterFile.zero.executeAll parted.reverse = RegisterFile.zero.executeAll parted := by
  have adjusts : ∀ i ∈ interleaved, ∃ r, i.Adjusts r := adjusts_adjusting (by decide)
  have adjusts' : ∀ i ∈ parted, ∃ r, i.Adjusts r := adjusts_adjusting (by decide)
  have clear : Instruction.Clear parted := clear_adjusting (by decide)
  exact ⟨adjusts, adjusts', clear, by decide, (adjustments_reversible _ adjusts).1,
    (adjustments_reversible _ adjusts').2 clear _ parted.reverse_perm.symm⟩

end RealMode
