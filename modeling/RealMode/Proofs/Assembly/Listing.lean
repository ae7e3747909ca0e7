/-
**Listings are unambiguous.** A listing is read back line by line, and each line tells its
instruction. So two runs with the same listing, over whatever streams, have the same operations and
operands in the same order, and the same effect on the registers.

* `listing_injective`: a listing of well-typed instructions tells them in their order.
* `listing_unambiguous`: runs with the same listing have the same assembly and the same effect.
-/

import RealMode.Listing
import RealMode.Proofs.Assembly.Text

namespace RealMode

/-- The operation and the operands of an instruction. -/
def Instruction.assembly (i : Instruction) : Mnemonic × List Operand := (i.mnemonic, i.operands)

/-! ### Listings tell instructions -/

/-- A text of lines is cut into them in one way. -/
theorem lines_unique {first second : List (List Char)} (whole : ∀ line ∈ first, '\n' ∉ line)
    (whole' : ∀ line ∈ second, '\n' ∉ line)
    (same : first.flatMap (fun line => line ++ ['\n']) =
      second.flatMap fun line => line ++ ['\n']) : first = second := by
  induction first generalizing second with
  | nil =>
    cases second with
    | nil => rfl
    | cons line others => simp at same
  | cons line others ih =>
    cases second with
    | nil => simp at same
    | cons line' others' =>
      simp only [List.flatMap_cons, List.append_assoc, List.singleton_append] at same
      obtain ⟨rfl, rest⟩ := cut_unique (whole line List.mem_cons_self)
        (whole' line' List.mem_cons_self) same
      rw [ih (fun l member => whole l (List.mem_cons_of_mem _ member))
        (fun l member => whole' l (List.mem_cons_of_mem _ member)) rest]

/-- The instructions are well typed. -/
def AllTyped (instructions : List Instruction) : Prop :=
  ∀ i ∈ instructions, WellTyped i.mnemonic i.operands

theorem assembly_of_text {i j : Instruction} (typed : WellTyped i.mnemonic i.operands)
    (typed' : WellTyped j.mnemonic j.operands) (same : i.text = j.text) :
    i.assembly = j.assembly := by
  obtain ⟨operations, operands⟩ := line_injective typed typed' same
  exact Prod.ext operations operands

theorem assembly_of_lines {first second : List Instruction} (typed : AllTyped first)
    (typed' : AllTyped second)
    (same : first.map (·.text.toList) = second.map (·.text.toList)) :
    first.map Instruction.assembly = second.map Instruction.assembly := by
  induction first generalizing second with
  | nil =>
    cases second with
    | nil => rfl
    | cons j others => cases same
  | cons i others ih =>
    cases second with
    | nil => cases same
    | cons j others' =>
      obtain ⟨line, lines⟩ := List.cons.inj same
      have first := assembly_of_text (typed i List.mem_cons_self) (typed' j List.mem_cons_self)
        (String.toList_inj.mp line)
      rw [List.map_cons, List.map_cons, first,
        ih (fun k member => typed k (List.mem_cons_of_mem i member))
          (fun k member => typed' k (List.mem_cons_of_mem j member)) lines]

theorem newline_not_mem_lines {instructions : List Instruction} (typed : AllTyped instructions) :
    ∀ line ∈ instructions.map (·.text.toList), '\n' ∉ line := by
  intro line member
  obtain ⟨i, listed, rfl⟩ := List.mem_map.mp member
  exact newline_not_mem_line (typed i listed)

/-- **A listing of well-typed instructions tells them in their order.** -/
theorem listing_injective {first second : List Instruction} (typed : AllTyped first)
    (typed' : AllTyped second) (same : Listing.text first = Listing.text second) :
    first.map Instruction.assembly = second.map Instruction.assembly := by
  have lists := congrArg String.toList same
  rw [Listing.toList_text, Listing.toList_text] at lists
  have lines := (List.cons.inj (List.append_cancel_left lists)).2
  refine assembly_of_lines typed typed' ?_
  refine lines_unique (newline_not_mem_lines typed) (newline_not_mem_lines typed') ?_
  rw [List.flatMap_map, List.flatMap_map]
  exact lines

/-! ### The effect on the registers -/

/-- The effect of some instructions is told by their assembly. -/
theorem executeAll_of_assembly {first second : List Instruction}
    (same : first.map Instruction.assembly = second.map Instruction.assembly)
    (f : RegisterFile) : f.executeAll first = f.executeAll second := by
  have folded : ∀ instructions : List Instruction, f.executeAll instructions =
      (instructions.map Instruction.assembly).foldl (fun f a => f.execute a.1 a.2) f := by
    intro instructions
    rw [RegisterFile.executeAll, List.foldl_map]
    rfl
  rw [folded, folded, same]

/-! ### Runs with the same listing -/

/-- What the text of two runs tells of their instructions. -/
structure Run.Told (run run' : Run) : Prop where
  /-- No line of the listing is broken. -/
  whole : ∀ i ∈ run.instructions, '\n' ∉ i.text.toList
  /-- A line tells its instruction. -/
  line : ∀ i ∈ run.instructions, ∀ j ∈ run'.instructions, i.text = j.text → i.assembly = j.assembly
  /-- A listing tells its instructions in their order. -/
  listing : Listing.text run.instructions = Listing.text run'.instructions →
    run.instructions.map Instruction.assembly = run'.instructions.map Instruction.assembly

/-- **Listings are unambiguous.** -/
theorem listing_unambiguous (m m' : Machine) (r r' : BitReader) :
    (m.run r).Told (m'.run r') ∧
      (Listing.text (m.run r).instructions = Listing.text (m'.run r').instructions →
        (∀ f : RegisterFile,
          f.executeAll (m.run r).instructions = f.executeAll (m'.run r').instructions) ∧
        (m.config.execute → m'.config.execute → m.registers = m'.registers →
          (m.run r).machine.registers = (m'.run r').machine.registers)) := by
  have typed := run_typed m r
  have typed' := run_typed m' r'
  refine ⟨⟨?_, ?_, listing_injective typed typed'⟩, fun same => ⟨?_, ?_⟩⟩
  · exact fun i member => newline_not_mem_line (typed i member)
  · exact fun i member j member' => assembly_of_text (typed i member) (typed' j member')
  · exact executeAll_of_assembly (listing_injective typed typed' same)
  · intro executes executes' registers
    rw [Machine.registers_run m r executes, Machine.registers_run m' r' executes', registers]
    exact executeAll_of_assembly (listing_injective typed typed' same) _

/-- An addition from the seventh bit of a stream on. -/
def shifted : BitReader := ⟨#[0x82, 0x0F, 0x00, 0x14], 6, by decide⟩

/-- The same addition in its long form, at the start of a stream. -/
def widened : BitReader := .ofBytes #[0x81, 0xC0, 0x05, 0x00]

theorem listing_unambiguous_shifted :
    Listing.text (({} : Machine).run shifted).instructions = "bits 16\nadd ax, 5\n" ∧
      Listing.text (({} : Machine).run shifted).instructions =
        Listing.text (({} : Machine).run widened).instructions ∧
      (({} : Machine).run shifted).instructions.map Instruction.assembly =
        (({} : Machine).run widened).instructions.map Instruction.assembly ∧
      (({} : Machine).run shifted).machine.registers =
        (({} : Machine).run widened).machine.registers := by
  have same : Listing.text (({} : Machine).run shifted).instructions =
      Listing.text (({} : Machine).run widened).instructions := by decide +kernel
  obtain ⟨told, effect⟩ := listing_unambiguous {} {} shifted widened
  exact ⟨by decide +kernel, same, told.listing same, (effect same).2 rfl rfl rfl⟩

end RealMode
