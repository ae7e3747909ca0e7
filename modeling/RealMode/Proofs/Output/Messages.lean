/-
**Messages.** What the text of a failure tells: it names one byte of the stream, whatever it says of
the cause, and it is one line.

* `marked_injective`: different numbers have different hexadecimal numerals.
* `names_unique`: the text of a failure names one byte.
* `unbroken_failure`: the failures of a run are told on one line each.
-/

import RealMode.Json.Written
import RealMode.Proofs.Assembly.Text
import RealMode.Proofs.Run.Placement

namespace RealMode

namespace Numeral

/-! ### Hexadecimal numerals -/

theorem mem_digits {base n : Nat} {c : Char} (two : 1 < base) (member : c ∈ digits base n) :
    ∃ d < base, c = Nat.digitChar d := by
  unfold digits at member
  induction n using Nat.strongRecOn with
  | ind n ih =>
    by_cases small : n < base
    · rw [Nat.toDigits_of_lt_base small] at member
      exact ⟨n, small, List.mem_singleton.mp member⟩
    · have large : base ≤ n := by omega
      rw [Nat.toDigits_of_base_le two large, List.mem_append] at member
      rcases member with upper | last
      · exact ih (n / base) (Nat.div_lt_self (by omega) two) upper
      · exact ⟨n % base, Nat.mod_lt n (by omega), List.mem_singleton.mp last⟩

theorem mem_padded {base width n : Nat} {c : Char} (two : 1 < base)
    (member : c ∈ padded base width n) : ∃ d < base, c = Nat.digitChar d := by
  rcases List.mem_append.mp member with zeros | digits
  · exact ⟨0, by omega, List.eq_of_mem_replicate zeros⟩
  · exact mem_digits two digits

/-- A digit is not one of the marks that stand between numerals. -/
theorem not_mem_padded {base width n : Nat} {c : Char} (two : 1 < base) (sixteen : base ≤ 16)
    (other : ∀ d : Fin 16, Nat.digitChar d ≠ c) : c ∉ padded base width n := by
  intro member
  obtain ⟨d, small, rfl⟩ := mem_padded two member
  exact other ⟨d, by omega⟩ rfl

/-- The number that hexadecimal digits spell. -/
def hexValue (digits : List Char) : Nat :=
  digits.foldl (fun n c => 16 * n + (Json.hexDigit? c).getD 0) 0

theorem hexValue_digits (n : Nat) : hexValue (digits 16 n) = n := by
  unfold digits
  induction n using Nat.strongRecOn with
  | ind n ih =>
    by_cases small : n < 16
    · rw [Nat.toDigits_of_lt_base small]
      simp [hexValue, Json.Scanner.hexDigit?_digitChar small]
    · have last : n % 16 < 16 := Nat.mod_lt n (by decide)
      have upper := ih (n / 16) (by omega)
      unfold hexValue at upper ⊢
      rw [Nat.toDigits_of_base_le (by decide) (by omega), List.foldl_append, upper]
      simp only [List.foldl_cons, List.foldl_nil, Json.Scanner.hexDigit?_digitChar last,
        Option.getD_some]
      omega

theorem hexValue_padded (width n : Nat) : hexValue (padded 16 width n) = n := by
  have zeros : ∀ count : Nat, hexValue (List.replicate count '0') = 0 := by
    intro count
    induction count with
    | zero => rfl
    | succ count ih => exact ih
  have value := hexValue_digits n
  unfold hexValue at zeros value ⊢
  rw [padded, List.leftpad, List.foldl_append, zeros, value]

theorem toList_marked (width n : Nat) :
    (marked width n).toList = '0' :: 'x' :: padded 16 (width - 2) n := by
  simp [marked, paddedText]

/-- **Different numbers have different hexadecimal numerals.** -/
theorem marked_injective {width m n : Nat} (same : marked width m = marked width n) : m = n := by
  have lists := congrArg String.toList same
  rw [toList_marked, toList_marked] at lists
  rw [← hexValue_padded (width - 2) m, (List.cons.inj (List.cons.inj lists).2).2, hexValue_padded]

end Numeral

/-! ### The byte that a failure names -/

/-- The text says that decoding failed at byte `place`. -/
def Names (text : String) (place : Nat) : Prop :=
  ∃ cause, text = "decode failed at offset " ++ Numeral.marked 6 place ++ ": " ++ cause

theorem names_message (t : Trap) : Names t.message t.offset := ⟨t.cause.message, rfl⟩

/-- **The text of a failure names one byte.** -/
theorem names_unique {text : String} {place place' : Nat} (names : Names text place)
    (names' : Names text place') : place = place' := by
  obtain ⟨cause, rfl⟩ := names
  obtain ⟨cause', same⟩ := names'
  have lists := congrArg String.toList same
  simp only [String.toList_append, List.append_assoc] at lists
  have clean : ∀ n : Nat, ':' ∉ (Numeral.marked 6 n).toList := by
    intro n member
    rw [Numeral.toList_marked] at member
    simp only [List.mem_cons, Char.reduceEq, false_or] at member
    exact Numeral.not_mem_padded (by decide) (Nat.le_refl 16) (by decide) member
  obtain ⟨numerals, _⟩ := cut_unique (clean place) (clean place')
    (List.append_cancel_left lists)
  exact Numeral.marked_injective (String.toList_inj.mp numerals)

/-! ### Messages are lines -/

/-- The text does not end a line. -/
def Unbroken (text : String) : Prop := '\n' ∉ text.toList

instance (text : String) : Decidable (Unbroken text) := inferInstanceAs (Decidable (¬ _))

@[simp] theorem unbroken_append {first second : String} :
    Unbroken (first ++ second) ↔ Unbroken first ∧ Unbroken second := by
  unfold Unbroken
  rw [String.toList_append, List.mem_append, not_or]

theorem unbroken_padded {base : Nat} (two : 1 < base) (sixteen : base ≤ 16) (width n : Nat) :
    Unbroken (Numeral.paddedText base width n) := by
  rw [Unbroken, Numeral.paddedText, String.toList_ofList]
  exact Numeral.not_mem_padded two sixteen (by decide)

theorem unbroken_marked (width n : Nat) : Unbroken (Numeral.marked width n) :=
  unbroken_append.mpr ⟨by decide, unbroken_padded (by decide) (Nat.le_refl 16) _ n⟩

theorem unbroken_decimal (n : Nat) : Unbroken (Numeral.decimal n) :=
  fun member => (ne_of_isInner (isInner_of_isDigit (Numeral.isDigit_of_mem_decimal member))).2 rfl

theorem unbroken_mnemonic (operation : Mnemonic) : Unbroken operation.name :=
  fun member => (ne_of_isInner (of_isWord (isWord_mnemonic operation _ member)).2).2 rfl

theorem unbroken_groupName (code : Nat) : Unbroken (Decoding.groupNames.getD code "") := by
  have checked : ∀ n : Fin 8, Unbroken (Decoding.groupNames.getD n "") := by decide
  by_cases small : code < 8
  · exact checked ⟨code, small⟩
  · rw [List.getD_eq_getElem?_getD, List.getElem?_eq_none (Nat.not_lt.mp small)]
    decide

/-- The wording of a cause is one line if the name in it is. -/
theorem unbroken_cause {cause : DecodeError}
    (named : ∀ opcode operation, cause = .unimplemented opcode operation → Unbroken operation) :
    Unbroken cause.message := by
  unfold DecodeError.message
  cases cause with
  | unknownOpcode opcode =>
    have bits := unbroken_padded (by decide : 1 < 2) (by decide) 8 opcode.toNat
    simp only [unbroken_append]
    exact ⟨⟨⟨⟨by decide +kernel, unbroken_marked 4 _⟩, by decide +kernel⟩, bits⟩, by decide +kernel⟩
  | unimplemented opcode operation =>
    simp only [unbroken_append]
    have name := named opcode operation rfl
    exact ⟨⟨⟨name, by decide +kernel⟩, unbroken_marked 4 _⟩, by decide +kernel⟩
  | truncated size =>
    simp only [unbroken_append]
    exact ⟨⟨by decide +kernel, unbroken_decimal size⟩, by decide +kernel⟩
  | addressing fault =>
    simp only [unbroken_append]
    exact ⟨by decide +kernel, by cases fault <;> decide +kernel⟩
  | fieldWidth width =>
    simp only [unbroken_append]
    exact ⟨⟨by decide +kernel, unbroken_decimal width⟩, by decide +kernel⟩
  | registerCode code =>
    simp only [unbroken_append]
    exact ⟨⟨by decide +kernel, unbroken_decimal _⟩, by decide +kernel⟩

/-- A refusal names an operation, if any. -/
theorem unbroken_refusal {b opcode : UInt8} {second? : Option UInt8} {operation : String}
    (found : Encoding.refusal? b second? = some (.operation opcode operation)) :
    Unbroken operation := by
  unfold Encoding.refusal? at found
  split at found
  · cases found
  · cases found
    exact unbroken_mnemonic _
  · split at found
    · cases found
    · cases found
      exact unbroken_groupName _
  all_goals
    first
    | cases found
    | split at found <;> cases found

/-- What the grammar says of some bytes is said on one line. -/
theorem unbroken_verdict {size : Nat} {bytes : List UInt8} {cause : DecodeError}
    (failed : Encoding.verdict size bytes = .error cause) : Unbroken cause.message := by
  refine unbroken_cause fun opcode operation same => ?_
  subst same
  cases bytes with
  | nil => cases failed
  | cons b rest =>
    rw [Encoding.verdict] at failed
    split at failed
    · rename_i refusal found
      cases refusal with
      | operation opcode' operation' =>
        cases failed
        exact unbroken_refusal found
      | opcode _ => cases failed
      | addressing _ => cases failed
    · split at failed <;> cases failed

theorem failures_fresh {bytes : Array UInt8} {start : Nat} {run : Run}
    (tiles : run.Tiles bytes start) : ∀ t ∈ run.failures, t.Fresh bytes := by
  intro t member
  rcases List.mem_append.mp member with skipped | trap
  · exact skipped_fresh tiles t skipped
  · exact (tiles.trapped t (Option.mem_toList.mp trap)).2

/-- **The failures of a run are told on one line each.** -/
theorem unbroken_failure {bytes : Array UInt8} {start : Nat} {run : Run}
    (tiles : run.Tiles bytes start) : ∀ t ∈ run.failures, Unbroken t.message := by
  intro t member
  obtain ⟨cause, r', failed, same⟩ := failures_fresh tiles t member
  have verdict := Encoding.verdict_of_decode_error rfl failed
  have later := verdict_later t.offset (BitReader.freshAt bytes t.offset).bytes.size
    ((BitReader.freshAt bytes t.offset).bytes.toList.drop (BitReader.freshAt bytes t.offset).offset)
  rw [verdict] at later
  unfold Trap.message
  simp only [same, unbroken_append]
  exact ⟨⟨⟨by decide +kernel, unbroken_marked 6 _⟩, by decide +kernel⟩, unbroken_verdict later⟩

end RealMode
