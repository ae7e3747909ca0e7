/-
**The operands of any slots.** Slots filled by hand need not be those of an encoding. Whatever they
hold, so long as the codes of registers are those of three bits, they name a register operand, a
register or memory operand, both or neither, or fail to; with the data they make two operands, or
one for a jump, or none that can be told.

* `NamesRegister`, `NamesPlace`: the operands that the register slots and the r/m slots name.
* `registerOperand_iff`, `memoryOperand_iff`: these are the ones that are resolved.
* `Makes`: the two operands that all slots together make, in their order.
* `operands_iff`: the slots of what is not a jump resolve to these.
* `operands_resolved`: when the slots resolve at all, and that they are at fault where they do not.
-/

import RealMode.Proofs.Encoding.Meaning

namespace RealMode.Decoding

open Encoding

/-- The codes of registers and of bases are codes of three bits. -/
structure ShortCodes (op : Decoding) : Prop where
  reg : ∀ code, op.reg = some code → code ≤ 7
  rm : ∀ code, op.rm = some code → code ≤ 7

section Codes

variable {op : Decoding} {code : UInt8} (short : op.ShortCodes)

include short

theorem ShortCodes.reg_lt (found : op.reg = some code) : code.toNat < 8 :=
  Nat.lt_succ_of_le (UInt8.le_iff_toNat_le.mp (short.reg code found))

theorem ShortCodes.rm_lt (found : op.rm = some code) : code.toNat < 8 :=
  Nat.lt_succ_of_le (UInt8.le_iff_toNat_le.mp (short.rm code found))

end Codes

/-! ### What the slots name -/

section Names

variable (op : Decoding)

/-- What the register slots name: a segment register goes before a general one. -/
inductive NamesRegister : Option Operand → Prop
  | nothing (noSegment : op.sr = none) (noCode : op.reg = none) : NamesRegister none
  | segment {code : UInt8} (found : op.sr = some code) :
    NamesRegister (some (.segment (segment (code % 4))))
  | general {code w : UInt8} (noSegment : op.sr = none) (found : op.reg = some code)
    (width : op.w = some w) : NamesRegister (some (.register (register w code)))

/-- Both bytes of a direct address are there. -/
def Direct : Prop := op.addrLow.isSome ∧ op.addrHigh.isSome

/-- What the address slots and the r/m slots name: a direct address goes before an r/m code. -/
inductive NamesPlace : Option Operand → Prop
  | nothing (indirect : ¬ op.Direct) (noCode : op.rm = none) : NamesPlace none
  | direct {low high : UInt8} (first : op.addrLow = some low) (second : op.addrHigh = some high) :
    NamesPlace (some (.memory (.direct (.ofNat (number low high)))))
  | register {code w : UInt8} (indirect : ¬ op.Direct) (found : op.rm = some code)
    (known : op.mode = some 3) (width : op.w = some w) :
    NamesPlace (some (.register (register w code)))
  | bare {code : UInt8} (indirect : ¬ op.Direct) (found : op.rm = some code)
    (known : op.mode = some 0) : NamesPlace (some (.memory (.based (base code) 0)))
  | byte {code low : UInt8} (indirect : ¬ op.Direct) (found : op.rm = some code)
    (known : op.mode = some 1) (first : op.dispLow = some low) :
    NamesPlace (some (.memory (.based (base code) (.ofInt (signedByte low)))))
  | word {code low high : UInt8} (indirect : ¬ op.Direct) (found : op.rm = some code)
    (known : op.mode = some 2) (first : op.dispLow = some low) (second : op.dispHigh = some high) :
    NamesPlace (some (.memory (.based (base code) (.ofInt (signedNumber low high)))))

/-- The two operands that the slots make, the destination first. -/
inductive Makes : List Operand → Prop
  /-- With data, the r/m slots name the destination where they name anything. -/
  | placeData {named : Option Operand} {placed source : Operand} {low : UInt8}
    (register : op.NamesRegister named) (place : op.NamesPlace (some placed))
    (first : op.dataLow = some low)
    (value : constant (op.w.getD 0) (low :: op.dataHigh.toList) = some source) :
    Makes [placed, source]
  | registerData {named source : Operand} {low : UInt8}
    (register : op.NamesRegister (some named)) (place : op.NamesPlace none)
    (first : op.dataLow = some low)
    (value : constant (op.w.getD 0) (low :: op.dataHigh.toList) = some source) :
    Makes [named, source]
  /-- Without data, the direction bit names the destination. -/
  | both {named placed : Operand} {d : UInt8} (register : op.NamesRegister (some named))
    (place : op.NamesPlace (some placed)) (noData : op.dataLow = none)
    (direction : op.d = some d) : Makes (if d = 1 then [named, placed] else [placed, named])

/-! ### When the slots name it -/

/-- The register slots say what they name. -/
def RegisterTold : Prop := op.sr.isSome ∨ op.reg = none ∨ op.w.isSome

/-- The address slots and the r/m slots say what they name. -/
def PlaceTold : Prop :=
  op.Direct ∨ op.rm = none ∨ (op.mode = some 3 ∧ op.w.isSome) ∨ op.mode = some 0 ∨
    (op.mode = some 1 ∧ op.dispLow.isSome) ∨
    (op.mode = some 2 ∧ op.dispLow.isSome ∧ op.dispHigh.isSome)

/-- There is a register operand. -/
def HasRegister : Prop := op.sr.isSome ∨ op.reg.isSome

/-- There is a register or memory operand. -/
def HasPlace : Prop := op.Direct ∨ op.rm.isSome

/-- Data stand with an operand to go into, or else two operands stand with a direction. -/
def Paired : Prop :=
  (op.dataLow.isSome ∧ (op.HasRegister ∨ op.HasPlace)) ∨
    (op.dataLow = none ∧ op.HasRegister ∧ op.HasPlace ∧ op.d.isSome)

end Names

section Names

variable {op : Decoding} {named placed : Option Operand} {items : List Operand}

theorem registerTold_iff : (∃ named, op.NamesRegister named) ↔ op.RegisterTold := by
  unfold RegisterTold
  constructor
  · rintro ⟨named, noSegment | segment | ⟨noSegment, found, width⟩⟩
    · exact .inr (.inl ‹_›)
    · exact .inl (by rw [segment]; rfl)
    · exact .inr (.inr (by rw [width]; rfl))
  · intro told
    cases segment : op.sr with
    | some code => exact ⟨_, .segment segment⟩
    | none =>
      cases found : op.reg with
      | none => exact ⟨_, .nothing segment found⟩
      | some code =>
        simp only [segment, found, Option.isSome_none, Bool.false_eq_true, reduceCtorEq,
          false_or] at told
        obtain ⟨w, width⟩ := Option.isSome_iff_exists.mp told
        exact ⟨_, .general segment found width⟩

theorem NamesRegister.isSome_iff (names : op.NamesRegister named) :
    named.isSome ↔ op.HasRegister := by
  unfold HasRegister
  cases names with
  | nothing noSegment noCode => simp [noSegment, noCode]
  | segment found => simp [found]
  | general noSegment found width => simp [found]

theorem placeTold_iff : (∃ placed, op.NamesPlace placed) ↔ op.PlaceTold := by
  unfold PlaceTold
  constructor
  · rintro ⟨placed, names⟩
    cases names with
    | nothing indirect noCode => exact .inr (.inl noCode)
    | direct first second => exact .inl (by simp [Direct, first, second])
    | register indirect found known width => simp [known, width]
    | bare indirect found known => simp [known]
    | byte indirect found known first => simp [known, first]
    | word indirect found known first second => simp [known, first, second]
  · intro told
    by_cases direct : op.Direct
    · obtain ⟨low, first⟩ := Option.isSome_iff_exists.mp direct.1
      obtain ⟨high, second⟩ := Option.isSome_iff_exists.mp direct.2
      exact ⟨_, .direct first second⟩
    cases found : op.rm with
    | none => exact ⟨_, .nothing direct found⟩
    | some code =>
      rcases told with told | absent | ⟨three, width⟩ | zero | ⟨one, first⟩ | ⟨two, first, second⟩
      · exact absurd told direct
      · rw [found] at absent
        cases absent
      · obtain ⟨w, width⟩ := Option.isSome_iff_exists.mp width
        exact ⟨_, .register direct found three width⟩
      · exact ⟨_, .bare direct found zero⟩
      · obtain ⟨low, first⟩ := Option.isSome_iff_exists.mp first
        exact ⟨_, .byte direct found one first⟩
      · obtain ⟨low, first⟩ := Option.isSome_iff_exists.mp first
        obtain ⟨high, second⟩ := Option.isSome_iff_exists.mp second
        exact ⟨_, .word direct found two first second⟩

theorem NamesPlace.isSome_iff (names : op.NamesPlace placed) : placed.isSome ↔ op.HasPlace := by
  unfold HasPlace
  cases names with
  | nothing indirect noCode => simp [indirect, noCode]
  | direct first second => simp [Direct, first, second]
  | register indirect found known width => simp [found]
  | bare indirect found known => simp [found]
  | byte indirect found known first => simp [found]
  | word indirect found known first second => simp [found]

end Names

/-! ### Resolving the slots -/

section Resolution

variable {op : Decoding} {named placed : Option Operand} {items : List Operand}

theorem segmentOfAny_eq (code : UInt8) : SegmentRegister.ofCode code = segment (code % 4) :=
  forall_byte code (by decide +kernel)

/-- The register operand is told, or the width is missing. -/
theorem registerOperand_told (short : op.ShortCodes) :
    match op.registerOperand with
    | .ok named => op.NamesRegister named
    | .error e => e = .addressing .registerWithoutWidth := by
  unfold registerOperand
  cases found : op.sr with
  | some code =>
    show op.NamesRegister (some (.segment (.ofCode code)))
    rw [segmentOfAny_eq]
    exact .segment found
  | none =>
    cases general : op.reg with
    | none => exact .nothing found general
    | some code =>
      cases width : op.w with
      | none =>
        simp only [namedRegister, width]
        rfl
      | some w =>
        simp only [namedRegister_eq op width (short.reg_lt general)]
        exact .general found general width

theorem registerOperand_iff (short : op.ShortCodes) :
    op.registerOperand = .ok named ↔ op.NamesRegister named := by
  constructor
  · intro resolved
    have told := registerOperand_told short
    rw [resolved] at told
    exact told
  · rintro (⟨noSegment, noCode⟩ | ⟨found⟩ | ⟨noSegment, found, width⟩)
    · simp only [registerOperand, noSegment, noCode]
    · simp only [registerOperand, found, segmentOfAny_eq]
    · exact registerOperand_eq op width noSegment found (short.reg_lt found)

theorem memoryOperand_indirect (indirect : ¬ op.Direct) :
    op.memoryOperand =
      match op.rm, op.mode with
      | none, _ => .ok none
      | some _, none => .error (.addressing .memoryWithoutMode)
      | some code, some mode => (op.codedOperand code mode).map some := by
  unfold memoryOperand
  split
  · rename_i first second
    exact absurd ⟨by rw [first]; rfl, by rw [second]; rfl⟩ indirect
  · rfl

theorem codedOperand_eq {code mode : UInt8} (small : code.toNat < 8) :
    op.codedOperand code mode =
      if mode = 3 then op.namedRegister code
      else if mode = 0 then .ok (.memory (.based (base code) 0))
      else if mode = 1 then
        match op.dispLow with
        | some low => .ok (.memory (.based (base code) (.ofInt (signedByte low))))
        | none => .error (.addressing .missingDisplacement)
      else if mode = 2 then
        match op.dispLow, op.dispHigh with
        | some low, some high => .ok (.memory (.based (base code) (.ofInt (signedNumber low high))))
        | _, _ => .error (.addressing .missingDisplacement)
      else .error (.addressing .missingDisplacement) := by
  unfold codedOperand
  rw [baseOfCode?_eq small]
  cases op.dispLow with
  | none => rfl
  | some low => cases op.dispHigh <;> simp only [signExtend_eq, signed_eq]

/-- The register or memory operand is told, or the slots are at fault. -/
theorem memoryOperand_told (short : op.ShortCodes) :
    match op.memoryOperand with
    | .ok placed => op.NamesPlace placed
    | .error e => ∃ fault, e = .addressing fault := by
  by_cases direct : op.Direct
  · obtain ⟨low, first⟩ := Option.isSome_iff_exists.mp direct.1
    obtain ⟨high, second⟩ := Option.isSome_iff_exists.mp direct.2
    simp only [memoryOperand, first, second, ofBytes_eq]
    exact .direct first second
  rw [memoryOperand_indirect direct]
  cases found : op.rm with
  | none => exact .nothing direct found
  | some code =>
    have small := short.rm_lt found
    cases known : op.mode with
    | none => exact ⟨_, rfl⟩
    | some mode =>
      simp only [codedOperand_eq small]
      by_cases three : mode = 3
      · subst three
        cases width : op.w with
        | none =>
          simp only [namedRegister, width]
          exact ⟨_, rfl⟩
        | some w =>
          simp only [namedRegister_eq op width small]
          exact .register direct found known width
      by_cases zero : mode = 0
      · subst zero
        exact .bare direct found known
      by_cases one : mode = 1
      · subst one
        cases first : op.dispLow with
        | none => exact ⟨_, rfl⟩
        | some low => exact .byte direct found known first
      by_cases two : mode = 2
      · subst two
        cases first : op.dispLow with
        | none => exact ⟨_, rfl⟩
        | some low =>
          cases second : op.dispHigh with
          | none => exact ⟨_, rfl⟩
          | some high => exact .word direct found known first second
      · rw [if_neg three, if_neg zero, if_neg one, if_neg two]
        exact ⟨_, rfl⟩

theorem memoryOperand_iff (short : op.ShortCodes) :
    op.memoryOperand = .ok placed ↔ op.NamesPlace placed := by
  constructor
  · intro resolved
    have told := memoryOperand_told short
    rw [resolved] at told
    exact told
  · intro names
    cases names with
    | nothing indirect noCode => simp only [memoryOperand_indirect indirect, noCode]
    | direct first second => simp only [memoryOperand, first, second, ofBytes_eq]
    | register indirect found known width =>
      have small := short.rm_lt found
      simp only [memoryOperand_indirect indirect, found, known, codedOperand_eq small, if_pos,
        namedRegister_eq op width small]
      rfl
    | bare indirect found known =>
      simp only [memoryOperand_indirect indirect, found, known, codedOperand_eq (short.rm_lt found)]
      rfl
    | byte indirect found known first =>
      simp only [memoryOperand_indirect indirect, found, known, first,
        codedOperand_eq (short.rm_lt found)]
      rfl
    | word indirect found known first second =>
      simp only [memoryOperand_indirect indirect, found, known, first, second,
        codedOperand_eq (short.rm_lt found)]
      rfl

/-- The immediate is the constant of the data bytes. -/
theorem immediate?_eq {low : UInt8} (first : op.dataLow = some low) :
    ∃ data, op.immediate? = some data ∧
      constant (op.w.getD 0) (low :: op.dataHigh.toList) = some (.immediate data) := by
  have width : (if op.wide then DataWidth.word else .byte) =
      if op.w.getD 0 = 1 then .word else .byte := by
    unfold wide
    cases op.w <;> simp
  unfold immediate?
  rw [first, Option.map_some]
  cases op.dataHigh with
  | none => exact ⟨_, rfl, by simp only [constant, Option.toList_none, width, signExtend_eq]⟩
  | some high => exact ⟨_, rfl, by simp only [constant, Option.toList_some, width, signed_eq]⟩

theorem immediate?_of_constant {low : UInt8} {source : Operand} (first : op.dataLow = some low)
    (value : constant (op.w.getD 0) (low :: op.dataHigh.toList) = some source) :
    ∃ data, op.immediate? = some data ∧ source = .immediate data := by
  obtain ⟨data, immediate, same⟩ := immediate?_eq first
  exact ⟨data, immediate, Option.some.inj (value.symm.trans same)⟩

/-! ### Putting the operands together -/

theorem operands_ok_iff (short : op.ShortCodes) (other : op.mnemonic.isJump = false) :
    op.operands = .ok items ↔
      ∃ named placed, op.NamesRegister named ∧ op.NamesPlace placed ∧
        arrange op.d named placed op.immediate? = .ok items := by
  constructor
  · intro resolved
    simp only [operands, other, Bool.false_eq_true, if_false, bind, Except.bind] at resolved
    split at resolved
    · cases resolved
    · rename_i named register
      split at resolved
      · cases resolved
      · rename_i placed place
        exact ⟨named, placed, (registerOperand_iff short).mp register,
          (memoryOperand_iff short).mp place, resolved⟩
  · rintro ⟨named, placed, register, place, arranged⟩
    rw [operands_eq op other ((registerOperand_iff short).mpr register)
      ((memoryOperand_iff short).mpr place)]
    exact arranged

theorem makes_of_arrange (register : op.NamesRegister named) (place : op.NamesPlace placed)
    (arranged : arrange op.d named placed op.immediate? = .ok items) : op.Makes items := by
  cases first : op.dataLow with
  | none =>
    -- both operands are there, and a direction between them
    have noData : op.immediate? = none := by rw [immediate?, first]; rfl
    rw [noData] at arranged
    cases named with
    | none => cases placed <;> cases arranged
    | some named =>
      cases placed with
      | none => cases arranged
      | some placed =>
        cases direction : op.d with
        | none =>
          rw [direction] at arranged
          cases arranged
        | some d =>
          rw [direction] at arranged
          cases arranged
          exact .both register place first direction
  | some low =>
    obtain ⟨data, immediate, value⟩ := immediate?_eq first
    rw [immediate] at arranged
    cases placed with
    | some placed =>
      cases named <;> cases arranged <;> exact .placeData register place first value
    | none =>
      cases named with
      | none => cases arranged
      | some named =>
        cases arranged
        exact .registerData register place first value

/-- **The slots of what is not a jump resolve to the operands that they make.** -/
theorem operands_iff (short : op.ShortCodes) (other : op.mnemonic.isJump = false) :
    op.operands = .ok items ↔ op.Makes items := by
  rw [operands_ok_iff short other]
  constructor
  · rintro ⟨named, placed, register, place, arranged⟩
    exact makes_of_arrange register place arranged
  · intro makes
    cases makes with
    | placeData register place first value =>
      obtain ⟨data, immediate, rfl⟩ := immediate?_of_constant first value
      refine ⟨_, _, register, place, ?_⟩
      rw [immediate]
      rfl
    | registerData register place first value =>
      obtain ⟨data, immediate, rfl⟩ := immediate?_of_constant first value
      refine ⟨_, _, register, place, ?_⟩
      rw [immediate]
      rfl
    | both register place noData direction =>
      refine ⟨_, _, register, place, ?_⟩
      rw [immediate?, noData, direction]
      rfl

theorem operands_jump_iff (jump : op.mnemonic.isJump) :
    op.operands = .ok items ↔
      ∃ increment, op.dispLow = some increment ∧
        items = [.relative (.ofInt (signedByte increment))] := by
  cases found : op.dispLow with
  | none => simp [operands, jump, found]
  | some increment =>
    rw [operands_jump op jump found, toInt8_eq]
    simp [eq_comm]

theorem addressing_of_arrange {d : Option UInt8} {data : Option Immediate} {e : DecodeError}
    (failed : arrange d named placed data = .error e) : ∃ fault, e = .addressing fault := by
  unfold arrange at failed
  split at failed
  · cases failed
  · cases failed
  · split at failed
    · cases failed
      exact ⟨_, rfl⟩
    · cases failed
  · cases failed
    exact ⟨_, rfl⟩

/-- **Slots that do not resolve are at fault**; no code is past the end of a table. -/
theorem addressing_of_operands (short : op.ShortCodes) {e : DecodeError}
    (failed : op.operands = .error e) : ∃ fault, e = .addressing fault := by
  unfold operands at failed
  split at failed
  · split at failed
    · cases failed
      exact ⟨_, rfl⟩
    · cases failed
  have register := registerOperand_told short
  have place := memoryOperand_told short
  cases named : op.registerOperand with
  | error e' =>
    rw [named] at failed register
    cases failed
    exact ⟨_, register⟩
  | ok named' =>
    cases placed : op.memoryOperand with
    | error e' =>
      rw [named, placed] at failed
      rw [placed] at place
      cases failed
      exact place
    | ok placed' =>
      rw [named, placed] at failed
      exact addressing_of_arrange failed

/-! ### When the slots make operands -/

theorem makes_iff :
    (∃ items, op.Makes items) ↔ op.RegisterTold ∧ op.PlaceTold ∧ op.Paired := by
  constructor
  · rintro ⟨items, makes⟩
    cases makes with
    | placeData register place first value =>
      refine ⟨registerTold_iff.mp ⟨_, register⟩, placeTold_iff.mp ⟨_, place⟩, .inl ⟨?_, .inr ?_⟩⟩
      · rw [first]; rfl
      · exact place.isSome_iff.mp rfl
    | registerData register place first value =>
      refine ⟨registerTold_iff.mp ⟨_, register⟩, placeTold_iff.mp ⟨_, place⟩, .inl ⟨?_, .inl ?_⟩⟩
      · rw [first]; rfl
      · exact register.isSome_iff.mp rfl
    | both register place noData direction =>
      refine ⟨registerTold_iff.mp ⟨_, register⟩, placeTold_iff.mp ⟨_, place⟩, .inr ⟨noData, ?_⟩⟩
      exact ⟨register.isSome_iff.mp rfl, place.isSome_iff.mp rfl, by rw [direction]; rfl⟩
  · rintro ⟨registerTold, placeTold, paired⟩
    obtain ⟨named, register⟩ := registerTold_iff.mpr registerTold
    obtain ⟨placed, place⟩ := placeTold_iff.mpr placeTold
    rcases paired with ⟨first, some⟩ | ⟨noData, hasRegister, hasPlace, direction⟩
    · obtain ⟨low, first⟩ := Option.isSome_iff_exists.mp first
      obtain ⟨data, _, value⟩ := immediate?_eq first
      cases placed with
      | some placed => exact ⟨_, .placeData register place first value⟩
      | none =>
        have noPlace : ¬ op.HasPlace := fun has => Bool.noConfusion (place.isSome_iff.mpr has)
        have has := register.isSome_iff.mpr (some.resolve_right noPlace)
        obtain ⟨named, rfl⟩ := Option.isSome_iff_exists.mp has
        exact ⟨_, .registerData register place first value⟩
    · obtain ⟨named, rfl⟩ := Option.isSome_iff_exists.mp (register.isSome_iff.mpr hasRegister)
      obtain ⟨placed, rfl⟩ := Option.isSome_iff_exists.mp (place.isSome_iff.mpr hasPlace)
      obtain ⟨d, direction⟩ := Option.isSome_iff_exists.mp direction
      exact ⟨_, .both register place noData direction⟩

/-! ### Operands in memory -/

theorem NamesRegister.isMemory {o : Operand} (names : op.NamesRegister (some o)) :
    o.isMemory = false := by
  cases names <;> rfl

theorem isMemory_constant {w : UInt8} {bytes : List UInt8} {o : Operand}
    (value : constant w bytes = some o) : o.isMemory = false := by
  unfold constant at value
  dsimp only at value
  split at value
  · cases value
    rfl
  · cases value
    rfl
  · cases value

theorem memory_pair_le {first second : Operand}
    (one : first.isMemory = false ∨ second.isMemory = false) :
    [first, second].countP Operand.isMemory ≤ 1 := by
  rcases one with outside | outside
  · simp only [List.countP_cons, List.countP_nil, outside, Bool.false_eq_true, if_false]
    split <;> decide
  · simp only [List.countP_cons, List.countP_nil, outside, Bool.false_eq_true, if_false]
    split <;> decide

/-- **Of the operands that the slots make, at most one is in memory.** -/
theorem Makes.memory_le (makes : op.Makes items) : items.countP Operand.isMemory ≤ 1 := by
  cases makes with
  | placeData _ _ _ value => exact memory_pair_le (.inr (isMemory_constant value))
  | registerData _ _ _ value => exact memory_pair_le (.inr (isMemory_constant value))
  | both register =>
    split
    · exact memory_pair_le (.inl register.isMemory)
    · exact memory_pair_le (.inr register.isMemory)

/-- **What any slots resolve to.** Those of a jump resolve to its increment, if it is there; others
resolve to the two operands that they make, which are there on the terms stated; and slots that do
not resolve are at fault. -/
theorem operands_resolved (short : op.ShortCodes) :
    (∀ e, op.operands = .error e → ∃ fault, e = .addressing fault) ∧
    (op.mnemonic.isJump → ∀ items, op.operands = .ok items ↔
      ∃ increment, op.dispLow = some increment ∧
        items = [.relative (.ofInt (signedByte increment))]) ∧
    (op.mnemonic.isJump = false →
      ((∃ items, op.operands = .ok items) ↔ op.RegisterTold ∧ op.PlaceTold ∧ op.Paired) ∧
      (∀ items, op.operands = .ok items ↔ op.Makes items) ∧
      ∀ items, op.operands = .ok items →
        items.length = 2 ∧ items.countP Operand.isMemory ≤ 1) := by
  refine ⟨fun e failed => addressing_of_operands short failed, fun jump items =>
    operands_jump_iff jump, fun other => ⟨?_, fun items => operands_iff short other,
    fun items resolved => ⟨operands_length other resolved, ?_⟩⟩⟩
  · simp only [operands_iff short other]
    exact makes_iff
  · exact ((operands_iff short other).mp resolved).memory_le

end Resolution

/-- Slots that no encoding fills: half of an address, and a general register beside a segment
register. -/
def odd : Decoding :=
  { opcode := 0, mnemonic := .add, d := some 7, mode := some 2, reg := some 3, rm := some 5,
    sr := some 6, dispLow := some 0xFE, dispHigh := some 0xFF, addrLow := some 1 }

theorem operands_resolved_odd :
    odd.ShortCodes ∧ odd.mnemonic.isJump = false ∧
      odd.operands = .ok [.memory (.based .di (-2)), .segment .ss] ∧
      odd.Makes [.memory (.based .di (-2)), .segment .ss] := by
  have short : odd.ShortCodes := ⟨fun code found => by cases found; decide,
    fun code found => by cases found; decide⟩
  have resolved : odd.operands = .ok [.memory (.based .di (-2)), .segment .ss] := by rfl
  have law := (operands_resolved short).2.2 rfl
  exact ⟨short, rfl, resolved, (law.2.1 _).mp resolved⟩

end RealMode.Decoding
