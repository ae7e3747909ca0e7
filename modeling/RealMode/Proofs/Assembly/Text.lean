/-
**What a line of assembly tells.** The line of a well-typed instruction is read back mark by mark:
the operation ends at the first blank, the destination at the first comma, and what follows the base
in the brackets of a memory operand is its displacement. Where a line does not tell the width of a
constant, the destination does.

* `split_unique`: a text is split in one way before its first mark.
* `place_injective`: registers and memory operands are told apart by what is written for them.
* `line_injective`: the line of a well-typed instruction tells its operation and operands.
* `newline_not_mem_line`: a line of assembly is one line.
-/

import RealMode.Proofs.Assembly.Typing

namespace RealMode

/-! ### Splitting a text -/

section Split

variable {mark : Char → Bool} {a b s t : List Char}

/-- **A text is split in one way before its first mark.** -/
theorem split_unique (clean : ∀ c ∈ a, mark c = false) (clean' : ∀ c ∈ b, mark c = false)
    (marked : ∀ c ∈ s.head?, mark c) (marked' : ∀ c ∈ t.head?, mark c)
    (same : a ++ s = b ++ t) : a = b ∧ s = t := by
  induction a generalizing b with
  | nil =>
    cases b with
    | nil => exact ⟨rfl, same⟩
    | cons c b =>
      have found := marked c (by rw [show s = c :: b ++ t from same]; rfl)
      rw [clean' c List.mem_cons_self] at found
      cases found
  | cons c a ih =>
    cases b with
    | nil =>
      have found := marked' c (by rw [show t = c :: a ++ s from same.symm]; rfl)
      rw [clean c List.mem_cons_self] at found
      cases found
    | cons d b =>
      obtain ⟨rfl, others⟩ := List.cons.inj same
      obtain ⟨rfl, rest⟩ := ih (fun e member => clean e (List.mem_cons_of_mem c member))
        (fun e member => clean' e (List.mem_cons_of_mem c member)) others
      exact ⟨rfl, rest⟩

/-- A text is cut in one way at the first of some character. -/
theorem cut_unique {c : Char} (clean : c ∉ a) (clean' : c ∉ b) (same : a ++ c :: s = b ++ c :: t) :
    a = b ∧ s = t := by
  have others : ∀ {l : List Char}, c ∉ l → ∀ d ∈ l, (d == c) = false :=
    fun clean d member => beq_eq_false_iff_ne.mpr fun same => clean (same ▸ member)
  have first : ∀ {l : List Char}, ∀ d ∈ (c :: l).head?, (d == c) = true := by
    intro l d member
    rw [List.head?_cons, Option.mem_some] at member
    exact beq_iff_eq.mpr member.symm
  obtain ⟨front, back⟩ := split_unique (others clean) (others clean') first first same
  exact ⟨front, (List.cons.inj back).2⟩

end Split

/-! ### Characters -/

/-- The character ends neither an operand nor a line. -/
def isInner (c : Char) : Bool := c != ',' && c != '\n'

/-- The character is part of a name. -/
def isWord (c : Char) : Bool := c != ' ' && isInner c

theorem ne_of_isInner {c : Char} (inner : isInner c) : c ≠ ',' ∧ c ≠ '\n' := by
  simpa [isInner] using inner

theorem of_isWord {c : Char} (word : isWord c) : c ≠ ' ' ∧ isInner c := by
  simpa [isWord] using word

theorem isInner_of_isDigit {c : Char} (digit : c.isDigit) : isInner c := by
  have comma : c ≠ ',' := by
    rintro rfl
    cases digit
  have newline : c ≠ '\n' := by
    rintro rfl
    cases digit
  simp [isInner, comma, newline]

/-! ### Memory operands -/

namespace MemoryRef

/-- What is written between a base and the magnitude of a displacement, told by how this compares
with zero. -/
def between : Ordering → String
  | .lt => " - "
  | .eq => ""
  | .gt => " + "

/-- How a displacement compares with zero. -/
def sign (displacement : Int16) : Ordering :=
  if displacement = 0 then .eq else if displacement < 0 then .lt else .gt

/-- What is written before the number in the brackets. -/
def lead : MemoryRef → List Char
  | .direct _ => []
  | .based base displacement => base.name.toList ++ (between (sign displacement)).toList

/-- The number in the brackets. -/
def figures : MemoryRef → List Char
  | .direct address => (Numeral.decimal address.toNat).toList
  | .based _ displacement =>
    if displacement = 0 then [] else (Numeral.decimal displacement.toInt.natAbs).toList

theorem toList_text (m : MemoryRef) : m.text.toList = '[' :: (m.lead ++ m.figures ++ [']']) := by
  cases m with
  | direct address => simp [text, lead, figures]
  | based base displacement =>
    by_cases zero : displacement = 0
    · simp [text, lead, figures, sign, between, zero]
    · by_cases negative : displacement < 0
      · simp [text, lead, figures, sign, between, zero, negative]
      · simp [text, lead, figures, sign, between, zero, negative]

theorem sign_cases (displacement : Int16) : sign displacement ∈ [Ordering.lt, .eq, .gt] := by
  cases sign displacement <;> decide

/-- The base and the sign of a displacement are told by what is written for them. -/
theorem lead_unique : ∀ base ∈ AddressBase.all, ∀ base' ∈ AddressBase.all,
    ∀ s ∈ [Ordering.lt, .eq, .gt], ∀ s' ∈ [Ordering.lt, .eq, .gt],
      base.name.toList ++ (between s).toList = base'.name.toList ++ (between s').toList →
        base = base' ∧ s = s' := by
  decide +kernel

/-- They are written without digits, in some characters, and stand in one line. -/
theorem lead_clean : ∀ base ∈ AddressBase.all, ∀ s ∈ [Ordering.lt, .eq, .gt],
    base.name.toList ++ (between s).toList ≠ [] ∧
      (base.name.toList ++ (between s).toList).all fun c => !c.isDigit && isInner c := by
  decide +kernel

theorem of_mem_lead {m : MemoryRef} {c : Char} (member : c ∈ m.lead) :
    c.isDigit = false ∧ isInner c := by
  cases m with
  | direct address => cases member
  | based base displacement =>
    have clean := (lead_clean base base.mem_all _ (sign_cases displacement)).2
    simpa using List.all_eq_true.mp clean c member

theorem isDigit_of_mem_figures {m : MemoryRef} {c : Char} (member : c ∈ m.figures) : c.isDigit := by
  cases m with
  | direct address => exact Numeral.isDigit_of_mem_decimal (n := address.toNat) member
  | based base displacement =>
    simp only [figures] at member
    split at member
    · cases member
    · exact Numeral.isDigit_of_mem_decimal member

theorem zero_of_sign {d : Int16} (equal : sign d = .eq) : d = 0 := by
  unfold sign at equal
  split at equal
  · assumption
  · split at equal <;> cases equal

theorem sign_eq_lt_iff {d : Int16} : sign d = .lt ↔ d.toInt < 0 := by
  have below : d < 0 ↔ d.toInt < 0 := Int16.lt_iff_toInt_lt
  rw [← below]
  unfold sign
  by_cases zero : d = 0
  · subst zero
    decide
  · simp [zero]

/-- A displacement is told by its sign and its magnitude. -/
theorem displacement_unique {base base' : AddressBase} {d d' : Int16} (signs : sign d = sign d')
    (magnitudes : (based base d).figures = (based base' d').figures) : d = d' := by
  by_cases zero : d = 0
  · rw [zero, zero_of_sign (signs.symm.trans (if_pos zero))]
  · have zero' : d' ≠ 0 := fun zero' => zero (zero_of_sign (signs.trans (if_pos zero')))
    simp only [figures, if_neg zero, if_neg zero'] at magnitudes
    have magnitude := Numeral.eq_of_decimal magnitudes
    have negative : d.toInt < 0 ↔ d'.toInt < 0 := by
      rw [← sign_eq_lt_iff, ← sign_eq_lt_iff, signs]
    apply Int16.toInt_inj.mp
    omega

/-- **A memory operand is told by what is written for it.** -/
theorem text_injective {m m' : MemoryRef} (same : m.text = m'.text) : m = m' := by
  have lists := congrArg String.toList same
  rw [toList_text, toList_text] at lists
  have inner := List.append_cancel_right (List.cons.inj lists).2
  have digits : ∀ {m : MemoryRef}, ∀ c ∈ m.figures.head?, c.isDigit :=
    fun c member => isDigit_of_mem_figures (List.mem_of_mem_head? member)
  obtain ⟨leads, magnitudes⟩ := split_unique (fun c member => (of_mem_lead member).1)
    (fun c member => (of_mem_lead member).1) digits digits inner
  cases m with
  | direct address =>
    cases m' with
    | direct address' =>
      exact congrArg direct (UInt16.toNat_inj.mp (Numeral.eq_of_decimal magnitudes))
    | based base displacement =>
      exact absurd leads.symm (lead_clean base base.mem_all _ (sign_cases displacement)).1
  | based base displacement =>
    cases m' with
    | direct address' =>
      exact absurd leads (lead_clean base base.mem_all _ (sign_cases displacement)).1
    | based base' displacement' =>
      obtain ⟨rfl, signs⟩ := lead_unique base base.mem_all base' base'.mem_all _
        (sign_cases displacement) _ (sign_cases displacement') leads
      rw [displacement_unique signs magnitudes]

end MemoryRef

/-! ### Operands -/

namespace Operand

/-- What the first character that is written for an operand tells. -/
inductive Shape
  | name
  | brackets
  | number
  deriving DecidableEq

def Shape.ofChar (c : Char) : Shape :=
  if c = '[' then .brackets else if c.isDigit ∨ c = '-' then .number else .name

def shape : Operand → Shape
  | register _ | segment _ => .name
  | memory _ => .brackets
  | immediate _ | relative _ => .number

theorem shape_signed (i : Int) :
    (Numeral.signed i).toList.head?.map Shape.ofChar = some .number := by
  rw [Numeral.toList_signed]
  split
  · rfl
  · cases digits : (Numeral.decimal i.natAbs).toList with
    | nil => exact absurd digits (Numeral.decimal_ne_nil _)
    | cons c rest =>
      have digit : c.isDigit :=
        Numeral.isDigit_of_mem_decimal (n := i.natAbs) (by rw [digits]; exact List.mem_cons_self)
      have other : c ≠ '[' := by
        intro same
        rw [same] at digit
        cases digit
      simp [Shape.ofChar, digit, other]

theorem shape_name : (∀ r ∈ Register.all, r.name.toList.head?.map Shape.ofChar = some .name) ∧
    ∀ s ∈ SegmentRegister.all, s.name.toList.head?.map Shape.ofChar = some .name := by
  decide

theorem shape_text (a : Operand) : a.text.toList.head?.map Shape.ofChar = some a.shape := by
  cases a with
  | register r => exact shape_name.1 r r.mem_all
  | segment s => exact shape_name.2 s s.mem_all
  | memory m =>
    rw [text, MemoryRef.toList_text]
    rfl
  | immediate i => exact shape_signed _
  | relative increment => exact shape_signed _

theorem shape_unique {a b : Operand} (same : a.text = b.text) : a.shape = b.shape := by
  have shapes := shape_text a
  rw [same, shape_text b] at shapes
  exact (Option.some.inj shapes).symm

/-! ### Registers and memory operands -/

/-- A general register, a segment register or a memory operand. -/
def IsPlace : Operand → Prop
  | register _ | segment _ | memory _ => True
  | immediate _ | relative _ => False

theorem IsPlace.of_names {w : DataWidth} {a : Operand} (names : a.Names w) : a.IsPlace := by
  cases a <;> trivial

theorem IsPlace.of_spans {w : DataWidth} {a : Operand} (spans : a.Spans w) : a.IsPlace := by
  cases a <;> trivial

theorem name_unique :
    (∀ r ∈ Register.all, ∀ r' ∈ Register.all, r.name = r'.name → r = r') ∧
      (∀ s ∈ SegmentRegister.all, ∀ s' ∈ SegmentRegister.all, s.name = s'.name → s = s') ∧
      ∀ r ∈ Register.all, ∀ s ∈ SegmentRegister.all, r.name ≠ s.name := by
  decide

/-- **Registers and memory operands are told apart by what is written for them.** -/
theorem place_injective {a b : Operand} (place : a.IsPlace) (place' : b.IsPlace)
    (same : a.text = b.text) : a = b := by
  have shapes := shape_unique same
  obtain ⟨registers, segments, apart⟩ := name_unique
  match a, b, place, place' with
  | register r, register r', _, _ => rw [registers r r.mem_all r' r'.mem_all same]
  | register r, segment s, _, _ => exact absurd same (apart r r.mem_all s s.mem_all)
  | segment s, register r, _, _ => exact absurd same.symm (apart r r.mem_all s s.mem_all)
  | segment s, segment s', _, _ => rw [segments s s.mem_all s' s'.mem_all same]
  | memory m, memory m', _, _ => rw [MemoryRef.text_injective same]
  | register _, memory _, _, _ => cases shapes
  | segment _, memory _, _, _ => cases shapes
  | memory _, register _, _, _ => cases shapes
  | memory _, segment _, _, _ => cases shapes

theorem name_clean : (∀ r ∈ Register.all, r.name.toList.all isWord) ∧
    ∀ s ∈ SegmentRegister.all, s.name.toList.all isWord := by
  decide

theorem signed_clean (i : Int) : ∀ c ∈ (Numeral.signed i).toList, isInner c := by
  intro c member
  rw [Numeral.toList_signed] at member
  split at member
  · rcases List.mem_cons.mp member with rfl | member
    · decide
    · exact isInner_of_isDigit (Numeral.isDigit_of_mem_decimal member)
  · exact isInner_of_isDigit (Numeral.isDigit_of_mem_decimal member)

/-- What is written for a register is a name. -/
theorem isWord_of_shape {a : Operand} (name : a.shape = .name) : ∀ c ∈ a.text.toList, isWord c := by
  cases a with
  | register r => exact List.all_eq_true.mp (name_clean.1 r r.mem_all)
  | segment s => exact List.all_eq_true.mp (name_clean.2 s s.mem_all)
  | memory _ | immediate _ | relative _ => cases name

/-- What is written for an operand has no comma and no line end. -/
theorem text_clean (a : Operand) : ∀ c ∈ a.text.toList, isInner c := by
  intro c member
  cases a with
  | register r => exact (of_isWord (isWord_of_shape rfl c member)).2
  | segment s => exact (of_isWord (isWord_of_shape rfl c member)).2
  | immediate i => exact signed_clean _ c member
  | relative increment => exact signed_clean _ c member
  | memory m =>
    rw [text, MemoryRef.toList_text] at member
    rcases List.mem_cons.mp member with rfl | member
    · decide
    rcases List.mem_append.mp member with member | last
    · rcases List.mem_append.mp member with inLead | inFigures
      · exact (MemoryRef.of_mem_lead inLead).2
      · exact isInner_of_isDigit (MemoryRef.isDigit_of_mem_figures inFigures)
    · obtain rfl := List.mem_singleton.mp last
      decide

end Operand

/-! ### Lines -/

/-- What is written for the source after the destination. -/
def sourceText : Operand → Operand → String
  | .memory _, .immediate i => i.width.name ++ " " ++ i.text
  | _, source => source.text

theorem toList_line_one (operation : Mnemonic) (only : Operand) :
    (assemblyLine operation [only]).toList = operation.name.toList ++ ' ' :: only.text.toList := by
  simp [assemblyLine]

theorem toList_line_two (operation : Mnemonic) (destination source : Operand) :
    (assemblyLine operation [destination, source]).toList =
      operation.name.toList ++ ' ' :: (destination.text.toList ++ ',' :: ' ' ::
        (sourceText destination source).toList) := by
  unfold assemblyLine sourceText
  cases destination <;> cases source <;> simp [Operand.text]

theorem mnemonic_unique : ∀ operation ∈ Mnemonic.all, ∀ operation' ∈ Mnemonic.all,
    operation.name.toList = operation'.name.toList → operation = operation' := by
  decide

theorem mnemonic_clean : ∀ operation ∈ Mnemonic.all, operation.name.toList.all isWord := by
  decide

theorem isWord_mnemonic (operation : Mnemonic) : ∀ c ∈ operation.name.toList, isWord c :=
  List.all_eq_true.mp (mnemonic_clean operation operation.mem_all)

section Typed

variable {operation operation' : Mnemonic} {items items' : List Operand}
  {destination source source' : Operand}

/-- The source has the width that the destination tells, or a width of its own is written. -/
def Sourced (destination source : Operand) : Prop :=
  source.IsPlace ∨ ∃ i, source = .immediate i ∧ destination.Spans i.width

/-- The operands of a jump, and those of any other operation. -/
theorem WellTyped.forms (typed : WellTyped operation items) :
    (operation.isJump ∧ ∃ increment, items = [.relative increment]) ∨
      (operation.isJump = false ∧ ∃ destination source, items = [destination, source] ∧
        destination.IsPlace ∧ Sourced destination source) := by
  cases typed with
  | jump increment jumps => exact .inl ⟨jumps, increment, rfl⟩
  | constant binary spans fits =>
    refine .inr ⟨?_, _, _, rfl, .of_spans spans, .inr ⟨_, rfl, spans⟩⟩
    revert binary
    cases operation <;> decide
  | load names spans => exact .inr ⟨rfl, _, _, rfl, .of_names names, .inl (.of_spans spans)⟩
  | store names spans => exact .inr ⟨rfl, _, _, rfl, .of_spans spans, .inl (.of_names names)⟩

/-! ### Sources -/

theorem sourceText_place (place : source.IsPlace) :
    sourceText destination source = source.text := by
  cases source with
  | immediate _ => exact place.elim
  | register _ | segment _ | memory _ | relative _ => cases destination <;> rfl

/-- A constant is not written like a register or a memory operand. -/
theorem place_ne_constant {i : Immediate} (place : source.IsPlace)
    (spans : destination.Spans i.width) :
    source.text ≠ sourceText destination (.immediate i) := by
  intro same
  cases destination with
  | segment _ | immediate _ | relative _ => exact spans.elim
  | register _ =>
    have shapes := Operand.shape_unique (b := .immediate i) same
    cases source <;> first | exact place.elim | cases shapes
  | memory _ =>
    have lists := congrArg String.toList same
    simp only [sourceText, String.toList_append] at lists
    have blank : ' ' ∈ source.text.toList := by
      rw [lists]
      simp
    cases source with
    | immediate _ | relative _ => exact place.elim
    | register r => exact (of_isWord (Operand.isWord_of_shape rfl _ blank)).1 rfl
    | segment s => exact (of_isWord (Operand.isWord_of_shape rfl _ blank)).1 rfl
    | memory m =>
      rw [Operand.text, MemoryRef.toList_text] at lists
      cases width : i.width <;> rw [width] at lists <;> cases (List.cons.inj lists).1

theorem immediate_unique {i j : Immediate} (width : i.width = j.width) (same : i.text = j.text) :
    i = j := by
  have value := Int16.toInt_inj.mp (Numeral.signed_injective same)
  cases i
  cases j
  cases width
  cases value
  rfl

theorem width_unique : ∀ w w' : DataWidth, w.name.toList = w'.name.toList → w = w' := by
  intro w w'
  cases w <;> cases w' <;> decide

theorem width_clean (w : DataWidth) : ' ' ∉ w.name.toList := by
  cases w <;> decide

theorem constant_unique {i j : Immediate} (spans : destination.Spans i.width)
    (spans' : destination.Spans j.width)
    (same : sourceText destination (.immediate i) = sourceText destination (.immediate j)) :
    i = j := by
  cases destination with
  | segment _ | immediate _ | relative _ => exact spans.elim
  | register r =>
    -- the register tells the width
    exact immediate_unique (spans.symm.trans spans') same
  | memory m =>
    have lists := congrArg String.toList same
    simp only [sourceText, String.toList_append, List.append_assoc] at lists
    obtain ⟨widths, texts⟩ := cut_unique (width_clean _) (width_clean _) lists
    exact immediate_unique (width_unique _ _ widths) (String.toList_inj.mp texts)

/-- **After a destination, a source is told by what is written for it.** -/
theorem source_injective (sourced : Sourced destination source)
    (sourced' : Sourced destination source')
    (same : sourceText destination source = sourceText destination source') : source = source' := by
  rcases sourced with place | ⟨i, rfl, spans⟩
  · rcases sourced' with place' | ⟨j, rfl, spans'⟩
    · rw [sourceText_place place, sourceText_place place'] at same
      exact Operand.place_injective place place' same
    · rw [sourceText_place place] at same
      exact absurd same (place_ne_constant place spans')
  · rcases sourced' with place' | ⟨j, rfl, spans'⟩
    · rw [sourceText_place place'] at same
      exact absurd same.symm (place_ne_constant place' spans)
    · rw [constant_unique spans spans' same]

/-! ### Lines tell instructions -/

theorem comma_not_mem (a : Operand) : ',' ∉ a.text.toList :=
  fun member => (ne_of_isInner (a.text_clean _ member)).1 rfl

theorem blank_not_mem (operation : Mnemonic) : ' ' ∉ operation.name.toList :=
  fun member => (of_isWord (isWord_mnemonic operation _ member)).1 rfl

/-- The operation of a line ends at the first blank. -/
theorem operation_unique {s t : List Char}
    (same : operation.name.toList ++ ' ' :: s = operation'.name.toList ++ ' ' :: t) :
    operation = operation' ∧ s = t := by
  obtain ⟨names, rest⟩ := cut_unique (blank_not_mem _) (blank_not_mem _) same
  exact ⟨mnemonic_unique _ operation.mem_all _ operation'.mem_all names, rest⟩

/-- **The line of a well-typed instruction tells its operation and its operands.** -/
theorem line_injective (typed : WellTyped operation items) (typed' : WellTyped operation' items')
    (same : assemblyLine operation items = assemblyLine operation' items') :
    operation = operation' ∧ items = items' := by
  have lists := congrArg String.toList same
  rcases typed.forms with ⟨jumps, increment, rfl⟩ |
    ⟨other, destination, source, rfl, place, sourced⟩
  · rcases typed'.forms with ⟨_, increment', rfl⟩ | ⟨other', destination', source', rfl, _⟩
    · rw [toList_line_one, toList_line_one] at lists
      obtain ⟨rfl, texts⟩ := operation_unique lists
      have value := Numeral.signed_injective (String.toList_inj.mp texts)
      rw [Int8.toInt_inj.mp value]
      exact ⟨rfl, rfl⟩
    · rw [toList_line_one, toList_line_two] at lists
      obtain ⟨rfl, _⟩ := operation_unique lists
      rw [other'] at jumps
      cases jumps
  · rcases typed'.forms with ⟨jumps', _, rfl⟩ | ⟨_, destination', source', rfl, place', sourced'⟩
    · rw [toList_line_two, toList_line_one] at lists
      obtain ⟨rfl, _⟩ := operation_unique lists
      rw [other] at jumps'
      cases jumps'
    · rw [toList_line_two, toList_line_two] at lists
      obtain ⟨rfl, rest⟩ := operation_unique lists
      obtain ⟨destinations, sources⟩ := cut_unique (comma_not_mem _) (comma_not_mem _) rest
      obtain rfl := Operand.place_injective place place' (String.toList_inj.mp destinations)
      have texts := String.toList_inj.mp (List.cons.inj sources).2
      rw [source_injective sourced sourced' texts]
      exact ⟨rfl, rfl⟩

theorem newline_not_mem_text (a : Operand) : '\n' ∉ a.text.toList :=
  fun member => (ne_of_isInner (a.text_clean _ member)).2 rfl

theorem newline_not_mem_source (destination source : Operand) :
    '\n' ∉ (sourceText destination source).toList := by
  unfold sourceText
  split
  · rename_i m i
    have number := newline_not_mem_text (.immediate i)
    have width : '\n' ∉ i.width.name.toList := by cases i.width <;> decide
    simp only [String.toList_append, List.mem_append, not_or]
    exact ⟨⟨width, by decide⟩, number⟩
  · exact newline_not_mem_text source

/-- **A line of assembly is one line.** -/
theorem newline_not_mem_line (typed : WellTyped operation items) :
    '\n' ∉ (assemblyLine operation items).toList := by
  have name : '\n' ∉ operation.name.toList :=
    fun member => (ne_of_isInner (of_isWord (isWord_mnemonic operation _ member)).2).2 rfl
  rcases typed.forms with ⟨_, increment, rfl⟩ | ⟨_, destination, source, rfl, _⟩
  · have text := newline_not_mem_text (.relative increment)
    simp [toList_line_one, name, text]
  · have first := newline_not_mem_text destination
    have second := newline_not_mem_source destination source
    simp [toList_line_two, name, first, second]

end Typed

end RealMode
