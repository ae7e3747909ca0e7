/-
**The printed registers determine the register file.** A printed file has a line for each of the
sixteen names, and a line is read back word by word: the name, the value in binary without leading
zeros, and for one byte of a word the mark that says which. So the text gives back every value that
the file has, and with the values of the eight words all of its storage.

* `binary?_digits`: a binary numeral is read back.
* `readLine?_line`: so is a line.
* `readLines?_text`: so are all lines of a printed file.
* `eq_of_words`: a register file is told by the values of its words.
* `text_tells`: all of this, for any register file.
-/

import RealMode.Proofs.Registers.Cells

namespace RealMode

/-! ### Binary numerals -/

namespace Numeral

/-- A binary numeral without leading zeros: a zero, or digits of which the first is a one. -/
def isBinary (digits : List Char) : Bool :=
  digits == ['0'] ||
    (digits.head? == some '1' && digits.all fun c => c == '0' || c == '1')

/-- The number that a binary numeral without leading zeros stands for. -/
def binary? (digits : List Char) : Option Nat :=
  if isBinary digits then some (Nat.ofDigitChars 2 digits 0) else none

theorem digitChar_bit (n : Nat) : (n % 2).digitChar = '0' ∨ (n % 2).digitChar = '1' := by
  rcases Nat.mod_two_eq_zero_or_one n with even | odd
  · exact .inl (by rw [even]; rfl)
  · exact .inr (by rw [odd]; rfl)

/-- The numeral of a positive number has a one in front, and zeros and ones behind it. -/
theorem digits_positive {n : Nat} (positive : 0 < n) :
    (digits 2 n).head? = some '1' ∧ ∀ c ∈ digits 2 n, c = '0' ∨ c = '1' := by
  induction n using Nat.strongRecOn with
  | ind n ih =>
    by_cases small : n < 2
    · obtain rfl : n = 1 := by omega
      have one : digits 2 1 = ['1'] := rfl
      rw [one]
      exact ⟨rfl, fun c member => .inr (List.mem_singleton.mp member)⟩
    · obtain ⟨first, others⟩ := ih (n / 2) (by omega) (by omega)
      rw [digits_split (by decide) (by omega)]
      refine ⟨by rw [List.head?_append, first, Option.some_or], fun c member => ?_⟩
      rcases List.mem_append.mp member with front | last
      · exact others c front
      · obtain rfl := List.mem_singleton.mp last
        exact digitChar_bit n

theorem isBinary_digits (n : Nat) : isBinary (digits 2 n) := by
  by_cases zero : n = 0
  · subst zero
    decide
  · obtain ⟨first, others⟩ := digits_positive (Nat.pos_of_ne_zero zero)
    have all : (digits 2 n).all fun c => c == '0' || c == '1' := by simpa using others
    simp [isBinary, first, all]

/-- **A binary numeral is read back.** -/
theorem binary?_digits (n : Nat) : binary? (digits 2 n) = some n := by
  rw [binary?, if_pos (isBinary_digits n), digits,
    Nat.ofDigitChars_toDigits (by decide) (by decide)]

theorem not_mem_digits_two {c : Char} (zero : c ≠ '0') (one : c ≠ '1') (n : Nat) :
    c ∉ digits 2 n := by
  intro member
  have binary := isBinary_digits n
  simp only [isBinary, Bool.or_eq_true, Bool.and_eq_true, beq_iff_eq, List.all_eq_true] at binary
  rcases binary with single | ⟨_, all⟩
  · rw [single] at member
    exact zero (List.mem_singleton.mp member)
  · exact (all c member).elim zero one

end Numeral

namespace RegisterFile

/-! ### Lines -/

/-- The last word of a line, which tells a byte from a word. -/
def lastWords : RegisterPart → List (List Char)
  | .full => []
  | .low => ["(lo)".toList]
  | .high => ["(hi)".toList]

/-- Reads a line word by word: a register name, a binary numeral, and the mark of the part that the
name covers, if that is a byte. -/
def readLine? (line : List Char) : Option (Register × Nat) :=
  match line.splitOn ' ' with
  | name :: numeral :: rest => do
    let r ← Register.all.find? fun r => r.name.toList == name
    let value ← Numeral.binary? numeral
    if rest = lastWords r.part then some (r, value) else none
  | _ => none

/-- Reads lines each of which has a line end. -/
def readLines? (text : String) : Option (List (Register × Nat)) :=
  let lines := text.toList.splitOn '\n'
  if lines.getLast? = some [] then lines.dropLast.mapM readLine? else none

theorem toList_line (r : Register) (value : UInt16) :
    (line r value).toList =
      [' '].intercalate (r.name.toList :: Numeral.digits 2 value.toNat :: lastWords r.part) := by
  unfold line mark lastWords
  cases r.part <;> simp [Numeral.text, List.intercalate]

theorem clean_name : ∀ r ∈ Register.all, ' ' ∉ r.name.toList ∧ '\n' ∉ r.name.toList := by decide

theorem clean_lastWords (part : RegisterPart) :
    ∀ word ∈ lastWords part, ' ' ∉ word ∧ '\n' ∉ word := by
  cases part <;> decide

/-- The words of a line. -/
theorem splitOn_line (r : Register) (value : UInt16) :
    (line r value).toList.splitOn ' ' =
      r.name.toList :: Numeral.digits 2 value.toNat :: lastWords r.part := by
  rw [toList_line]
  refine List.splitOn_intercalate ' ' (fun word member => ?_) (List.cons_ne_nil _ _)
  rcases List.mem_cons.mp member with rfl | member
  · exact (clean_name r r.mem_all).1
  · rcases List.mem_cons.mp member with rfl | member
    · exact Numeral.not_mem_digits_two (by decide) (by decide) _
    · exact (clean_lastWords _ word member).1

theorem find_name (r : Register) :
    (Register.all.find? fun s => s.name.toList == r.name.toList) = some r := by
  cases r <;> rfl

/-- **A line is read back.** -/
theorem readLine?_line (r : Register) (value : UInt16) :
    readLine? (line r value).toList = some (r, value.toNat) := by
  rw [readLine?, splitOn_line]
  simp [find_name, Numeral.binary?_digits]

theorem unbroken_line (r : Register) (value : UInt16) : '\n' ∉ (line r value).toList := by
  have digits : '\n' ∉ Numeral.digits 2 value.toNat :=
    Numeral.not_mem_digits_two (by decide) (by decide) _
  have name := (clean_name r r.mem_all).2
  unfold line mark
  cases r.part <;> simp [Numeral.text, name, digits]

/-! ### Texts -/

/-- Lines with a line end behind each are those lines and an empty one with line ends between. -/
theorem intercalate_ended (lineEnd : Char) (lines : List (List Char)) :
    [lineEnd].intercalate (lines ++ [[]]) = lines.flatMap (· ++ [lineEnd]) := by
  induction lines with
  | nil => rfl
  | cons first lines ih =>
    rw [List.cons_append, List.intercalate_cons_of_ne_nil (by simp), ih, List.flatMap_cons]

/-- A printed file splits into its lines, with nothing behind the last line end. -/
theorem splitOn_text (f : RegisterFile) :
    f.text.toList.splitOn '\n' =
      (f.dump.map fun entry => (line entry.1 entry.2).toList) ++ [[]] := by
  have joined : f.text.toList =
      (f.dump.map fun entry => (line entry.1 entry.2).toList).flatMap (· ++ ['\n']) := by
    simp [text, String.toList_join, List.flatMap_map]
  rw [joined, ← intercalate_ended]
  refine List.splitOn_intercalate '\n' (fun text member => ?_) (by simp)
  rcases List.mem_append.mp member with listed | last
  · obtain ⟨entry, _, rfl⟩ := List.mem_map.mp listed
    exact unbroken_line _ _
  · rw [List.mem_singleton.mp last]
    exact List.not_mem_nil

/-- **All lines of a printed file are read back.** -/
theorem readLines?_text (f : RegisterFile) :
    readLines? f.text = some (f.dump.map fun entry => (entry.1, entry.2.toNat)) := by
  have each : (readLine? ∘ fun entry : Register × UInt16 => (line entry.1 entry.2).toList) =
      fun entry => pure (entry.1, entry.2.toNat) :=
    funext fun entry => readLine?_line entry.1 entry.2
  rw [readLines?, splitOn_text]
  simp only [List.getLast?_concat, List.dropLast_concat, if_true]
  rw [List.mapM_map, each, List.mapM_pure]
  rfl

/-! ### Values -/

/-- **A register file is told by the values of its words.** -/
theorem eq_of_words {f g : RegisterFile} (same : ∀ r ∈ Register.words, f.get r = g.get r) :
    f = g := by
  have whole : ∀ r ∈ Register.words, r.part = .full := by decide
  refine eq_of_cells fun c => ?_
  have listed : c.slot ∈ Register.words.map Register.slot := by
    rw [Register.slots_words]
    exact List.mem_finRange c.slot
  obtain ⟨r, word, here⟩ := List.mem_map.mp listed
  have value := same r word
  simp only [get, RegisterFile.slot, here, whole r word, Storage.read] at value
  unfold cell
  cases c.half with
  | low =>
    have low := congrArg Word.low value
    rwa [Word.low_ofBytes, Word.low_ofBytes] at low
  | high =>
    have high := congrArg Word.high value
    rwa [Word.high_ofBytes, Word.high_ofBytes] at high

/-- The value of a word is told by those of its bytes. -/
theorem get_word (f : RegisterFile) {word high low : Register} (whole : word.part = .full)
    (upper : high.part = .high) (lower : low.part = .low) (above : high.slot = word.slot)
    (below : low.slot = word.slot) :
    (f.get word).toNat = 256 * (f.get high).toNat + (f.get low).toNat := by
  simp only [get, RegisterFile.slot, above, below, whole, upper, lower, Storage.read,
    Word.toNat_ofBytes, UInt8.toNat_toUInt16]
  omega

/-- **The printed registers determine the register file**, and agree among themselves. The text is
sixteen lines, each read back to the value of its register, in the order of all names; a word is
printed as its two bytes are, and only one register file is printed as the text says. -/
theorem text_tells (f : RegisterFile) :
    (∃ lines : List (List Char), lines.length = 16 ∧ f.text.toList.splitOn '\n' = lines ++ [[]] ∧
      lines.map readLine? = Register.all.map fun r => some (r, (f.get r).toNat)) ∧
    readLines? f.text = some (Register.all.map fun r => (r, (f.get r).toNat)) ∧
    ((f.get .ax).toNat = 256 * (f.get .ah).toNat + (f.get .al).toNat ∧
      (f.get .cx).toNat = 256 * (f.get .ch).toNat + (f.get .cl).toNat ∧
      (f.get .dx).toNat = 256 * (f.get .dh).toNat + (f.get .dl).toNat ∧
      (f.get .bx).toNat = 256 * (f.get .bh).toNat + (f.get .bl).toNat) ∧
    ∀ g : RegisterFile, f.text = g.text ↔ f = g := by
  refine ⟨⟨_, ?_, splitOn_text f, ?_⟩, ?_, ⟨?_, ?_, ?_, ?_⟩, fun g => ⟨fun same => ?_, ?_⟩⟩
  · rw [List.length_map, dump, List.length_map]
    rfl
  · rw [dump, List.map_map, List.map_map]
    exact List.map_congr_left fun r _ => readLine?_line r (f.get r)
  · rw [readLines?_text, dump, List.map_map]
    rfl
  · exact get_word f rfl rfl rfl rfl rfl
  · exact get_word f rfl rfl rfl rfl rfl
  · exact get_word f rfl rfl rfl rfl rfl
  · exact get_word f rfl rfl rfl rfl rfl
  · have values := congrArg readLines? same
    rw [readLines?_text, readLines?_text, dump, dump, List.map_map, List.map_map,
      Option.some.injEq] at values
    refine eq_of_words fun r _ => UInt16.toNat_inj.mp ?_
    exact congrArg Prod.snd (List.map_inj_left.mp values r r.mem_all)
  · rintro rfl
    rfl

end RegisterFile

end RealMode
