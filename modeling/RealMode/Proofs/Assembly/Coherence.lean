/-
**Coherent assembly.** What well-typed assembly comes to, rule by rule: which operations there are,
how many operands each has, which kinds of operands stand together and in which place, and that the
widths of registers and constants agree. No rule is checked when an instruction is read.

* `coherent_pair`: two operands are coherent by what each is to the other.
* `WellTyped.coherent`: well-typed assembly is coherent.
* `run_coherent`: every instruction of a run is coherent.
-/

import RealMode.Proofs.Assembly.Text

namespace RealMode

/-- The operand is a word register or is in memory. -/
def Operand.TakesSegment : Operand → Prop
  | .register r => r.width = .word
  | .memory _ => True
  | .segment _ | .immediate _ | .relative _ => False

/-- The rules for an operation and its operands. -/
structure Coherent (operation : Mnemonic) (items : List Operand) : Prop where
  /-- Moves, additions, subtractions, comparisons and conditional jumps are all there is. -/
  known : operation ∈ [.mov, .add, .sub, .cmp] ∨ operation.isJump
  /-- The operations that are known but not read do not appear. -/
  unread : operation ∉ [.immed, .loop, .loopz, .loopnz, .jmp]
  /-- A jump has its increment alone. -/
  jump : operation.isJump → ∃ increment, items = [.relative increment]
  /-- Any other operation has two operands. -/
  binary : operation.isJump = false → items.length = 2
  /-- At most one operand is in memory. -/
  memory : items.countP Operand.isMemory ≤ 1
  /-- A constant stands in second place. -/
  constant : ∀ (k : Nat) (i : Immediate), items[k]? = some (.immediate i) → k = 1
  /-- An increment belongs to a jump. -/
  relative : ∀ increment, .relative increment ∈ items → operation.isJump
  /-- Two general registers have the same width. -/
  registers : ∀ r s, items = [.register r, .register s] → r.width = s.width
  /-- A segment register is moved, from or to a word register or memory. -/
  segment : ∀ s, .segment s ∈ items → operation = .mov ∧
    ∃ other : Operand, (items = [.segment s, other] ∨ items = [other, .segment s]) ∧
      other.TakesSegment
  /-- A constant for a register is a byte exactly if the register is. -/
  tag : ∀ r i, items = [.register r, .immediate i] → (i.width = .byte ↔ r.width = .byte)
  /-- A constant that is a byte is a signed byte. -/
  range : ∀ i, .immediate i ∈ items → i.width = .byte → -128 ≤ i.value.toInt ∧ i.value.toInt ≤ 127

/-! ### Two operands -/

section Pair

variable {operation : Mnemonic} {a b : Operand} {i : Immediate} {w : DataWidth}

theorem binary_cases (binary : operation.isBinary) :
    operation ∈ [.mov, .add, .sub, .cmp] ∧
      operation ∉ [.immed, .loop, .loopz, .loopnz, .jmp] ∧ operation.isJump = false := by
  revert binary
  cases operation <;> decide

theorem of_mem_pair {c : Operand} (member : c ∈ [a, b]) : c = a ∨ c = b :=
  (List.mem_cons.mp member).imp_right List.mem_singleton.mp

/-- **Two operands are coherent by what each is to the other.** -/
theorem coherent_pair (binary : operation.isBinary) (place : a.IsPlace)
    (steady : ∀ increment, b ≠ .relative increment) (memory : a.isMemory → b.isMemory = false)
    (registers : ∀ r s, a = .register r → b = .register s → r.width = s.width)
    (destination : ∀ s, a = .segment s → operation = .mov ∧ b.TakesSegment)
    (source : ∀ s, b = .segment s → operation = .mov ∧ a.TakesSegment)
    (tag : ∀ r i, a = .register r → b = .immediate i → (i.width = .byte ↔ r.width = .byte))
    (range : ∀ i, b = .immediate i → i.Fits) : Coherent operation [a, b] where
  known := .inl (binary_cases binary).1
  unread := (binary_cases binary).2.1
  jump := by
    intro jumps
    rw [(binary_cases binary).2.2] at jumps
    cases jumps
  binary := fun _ => rfl
  memory := by
    by_cases inMemory : a.isMemory
    · simp [inMemory, memory inMemory]
    · simp only [List.countP_cons, List.countP_nil, inMemory]
      split <;> decide
  constant := by
    intro k i found
    match k, found with
    | 0, found =>
      cases Option.some.inj found
      exact place.elim
    | 1, _ => rfl
  relative := by
    intro increment member
    rcases of_mem_pair member with rfl | same
    · exact place.elim
    · exact absurd same.symm (steady increment)
  registers := by
    intro r s same
    cases same
    exact registers r s rfl rfl
  segment := by
    intro s member
    rcases of_mem_pair member with same | same
    · obtain ⟨moves, takes⟩ := destination s same.symm
      exact ⟨moves, b, .inl (by rw [same]), takes⟩
    · obtain ⟨moves, takes⟩ := source s same.symm
      exact ⟨moves, a, .inr (by rw [same]), takes⟩
  tag := by
    intro r i same
    cases same
    exact tag r i rfl rfl
  range := by
    intro i member
    rcases of_mem_pair member with rfl | same
    · exact place.elim
    · exact range i same.symm

theorem takesSegment_of_spans (spans : a.Spans .word) : a.TakesSegment := by
  cases a with
  | register r => exact spans
  | memory m => trivial
  | segment _ | immediate _ | relative _ => exact spans.elim

theorem width_of_segment {s : SegmentRegister} (names : (Operand.segment s).Names w) : w = .word :=
  names

theorem coherent_constant (binary : operation.isBinary) (spans : a.Spans i.width) (fits : i.Fits) :
    Coherent operation [a, .immediate i] := by
  refine coherent_pair binary (.of_spans spans) nofun (fun _ => rfl) nofun ?_ nofun ?_ ?_
  · rintro s rfl
    exact spans.elim
  · intro r j register constant
    cases register
    cases constant
    rw [show r.width = i.width from spans]
  · intro j constant
    cases constant
    exact fits

theorem coherent_load (names : a.Names w) (spans : b.Spans w) : Coherent .mov [a, b] := by
  refine coherent_pair rfl (.of_names names) ?_ ?_ ?_ ?_ ?_ ?_ ?_
  · rintro increment rfl
    exact spans.elim
  · intro inMemory
    cases a with
    | memory m => exact names.elim
    | register _ | segment _ | immediate _ | relative _ => cases inMemory
  · rintro r s rfl rfl
    exact names.trans spans.symm
  · rintro s rfl
    rw [width_of_segment names] at spans
    exact ⟨rfl, takesSegment_of_spans spans⟩
  · rintro s rfl
    exact spans.elim
  · rintro r i rfl rfl
    exact spans.elim
  · rintro i rfl
    exact spans.elim

theorem coherent_store (names : b.Names w) (spans : a.Spans w) : Coherent .mov [a, b] := by
  refine coherent_pair rfl (.of_spans spans) ?_ ?_ ?_ ?_ ?_ ?_ ?_
  · rintro increment rfl
    exact names.elim
  · intro inMemory
    cases b with
    | memory m => exact names.elim
    | register _ | segment _ | immediate _ | relative _ => rfl
  · rintro r s rfl rfl
    exact spans.trans names.symm
  · rintro s rfl
    exact spans.elim
  · rintro s rfl
    rw [width_of_segment names] at spans
    exact ⟨rfl, takesSegment_of_spans spans⟩
  · rintro r i rfl rfl
    exact names.elim
  · rintro i rfl
    exact names.elim

end Pair

theorem coherent_jump {operation : Mnemonic} (increment : Int8) (jumps : operation.isJump) :
    Coherent operation [.relative increment] where
  known := .inr jumps
  unread := by
    revert jumps
    cases operation <;> decide
  jump := fun _ => ⟨increment, rfl⟩
  binary := by
    intro other
    rw [jumps] at other
    cases other
  memory := Nat.zero_le 1
  constant := by
    intro k i found
    match k, found with
    | 0, found => cases Option.some.inj found
  relative := fun _ _ => jumps
  registers := nofun
  segment := by
    intro s member
    cases List.mem_singleton.mp member
  tag := nofun
  range := by
    intro i member
    cases List.mem_singleton.mp member

/-- **Well-typed assembly is coherent.** -/
theorem WellTyped.coherent {operation : Mnemonic} {items : List Operand}
    (typed : WellTyped operation items) : Coherent operation items := by
  cases typed with
  | jump increment jumps => exact coherent_jump increment jumps
  | constant binary spans fits => exact coherent_constant binary spans fits
  | load names spans => exact coherent_load names spans
  | store names spans => exact coherent_store names spans

/-- **Every instruction of a run is coherent assembly**, whatever the stream, the bit it starts at
and the policy. -/
theorem run_coherent (m : Machine) (r : BitReader) :
    ∀ i ∈ (m.run r).instructions, Coherent i.mnemonic i.operands :=
  fun i member => (run_typed m r i member).coherent

/-- A segment register is moved to a word register, from the seventh bit on. -/
def segmentMove : BitReader := ⟨#[0x8E, 0x33, 0x60], 6, by decide⟩

theorem run_coherent_segmentMove :
    (∃ i ∈ (({} : Machine).run segmentMove).instructions,
      i.mnemonic = .mov ∧ i.operands = [.register .ax, .segment .ds]) ∧
      Coherent .mov [.register .ax, .segment .ds] := by
  have found : ∃ i ∈ (({} : Machine).run segmentMove).instructions,
      i.mnemonic = .mov ∧ i.operands = [.register .ax, .segment .ds] := by decide +kernel
  refine ⟨found, ?_⟩
  obtain ⟨i, member, operation, operands⟩ := found
  rw [← operation, ← operands]
  exact run_coherent {} segmentMove i member

end RealMode
