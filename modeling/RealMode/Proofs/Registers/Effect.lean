/-
**The effect of a run in whole numbers.** The eight words of the registers are numbers, and a byte
register is what is left of its word, or what is above, when 256 is taken out. Moving, adding or
subtracting a constant changes the number of one register, modulo its own size; the other byte of
the word stays, and so do all words under every other instruction.

* `number_write`: a write to a part of a word, in numbers.
* `values_execute`: one instruction, in numbers.
* `words_run`: a run changes the words as its instructions do one after another.
-/

import RealMode.Proofs.Run.Policies

namespace RealMode

/-! ### Numbers in a word -/

namespace RegisterPart

/-- The number in a part of a word. -/
def value : RegisterPart → Int → Int
  | full, word => word
  | low, word => word % 256
  | high, word => word / 256

/-- The word after its part is given a number, modulo the size of the part. -/
def replace : RegisterPart → Int → Int → Int
  | full, new, _ => new % 65536
  | low, new, word => 256 * (word / 256) + new % 256
  | high, new, word => 256 * (new % 256) + word % 256

/-- A number modulo 65536 is enough for every part. -/
theorem replace_congr (part : RegisterPart) {new new' : Int} (same : (new - new') % 65536 = 0)
    (word : Int) : part.replace new word = part.replace new' word := by
  cases part <;> simp only [replace] <;> omega

end RegisterPart

/-- The number that a word of storage holds. -/
def Storage.number (s : Storage) : Int := s.low.toNat + 256 * s.high.toNat

theorem number_read (s : Storage) (part : RegisterPart) :
    ((s.read part).toNat : Int) = part.value s.number := by
  have bound := s.low.toNat_lt
  cases part with
  | full => simp [Storage.read, Storage.number, RegisterPart.value, Word.toNat_ofBytes]
  | low =>
    simp only [Storage.read, Storage.number, RegisterPart.value, UInt8.toNat_toUInt16]
    omega
  | high =>
    simp only [Storage.read, Storage.number, RegisterPart.value, UInt8.toNat_toUInt16]
    omega

/-- **A write to a part of a word, in numbers.** -/
theorem number_write (s : Storage) (value : UInt16) (part : RegisterPart) :
    (s.write value part).number = part.replace value.toNat s.number := by
  have bound := s.low.toNat_lt
  have bound' := value.toNat_lt
  cases part <;>
    simp only [Storage.write, Storage.number, RegisterPart.replace, Word.toNat_low,
      Word.toNat_high] <;>
    omega

/-! ### Numbers in the registers -/

namespace Register

/-- The whole register that a name belongs to. -/
def whole : Register → Register
  | al | ah | ax => ax
  | cl | ch | cx => cx
  | dl | dh | dx => dx
  | bl | bh | bx => bx
  | sp => sp
  | bp => bp
  | si => si
  | di => di

theorem slot_whole (r : Register) : r.whole.slot = r.slot := by cases r <;> rfl

theorem part_whole (r : Register) : r.whole.part = .full := by cases r <;> rfl

theorem whole_eq_iff {r s : Register} : s.whole = r.whole ↔ s.slot = r.slot := by
  constructor
  · intro same
    rw [← slot_whole, same, slot_whole]
  · intro same
    exact eq_of_slot_part (by rw [slot_whole, slot_whole, same]) (by rw [part_whole, part_whole])

theorem whole_of_mem_words : ∀ r ∈ words, r.whole = r := by decide

end Register

/-- Under each name, the number of the whole register that it belongs to. -/
abbrev Values := Register → Int

namespace Values

/-- An operation on the number of a register; the rest of its word and all other words stay. -/
def change (values : Values) (r : Register) (operate : Int → Int) : Values := fun s =>
  if s.whole = r.whole then r.part.replace (operate (r.part.value (values s))) (values s)
  else values s

/-- Moving, adding or subtracting a constant changes a register, and nothing else does. -/
def execute (values : Values) (operation : Mnemonic) : List Operand → Values
  | [.register r, .immediate i] =>
    match operation with
    | .mov => values.change r fun _ => i.value.toInt
    | .add => values.change r fun old => old + i.value.toInt
    | .sub => values.change r fun old => old - i.value.toInt
    | _ => values
  | _ => values

end Values

namespace RegisterFile

/-- The numbers in a register file. -/
def values (f : RegisterFile) : Values := fun r => (f.get r.whole).toNat

variable (f : RegisterFile) (r : Register)

theorem slot_congr {r s : Register} (same : s.slot = r.slot) : f.slot s = f.slot r := by
  simp only [slot, same]

theorem values_eq : f.values r = (f.slot r).number := by
  rw [values, get, number_read, Register.part_whole, f.slot_congr r.slot_whole]
  rfl

theorem toNat_get : ((f.get r).toNat : Int) = r.part.value (f.values r) := by
  rw [values_eq, get, number_read]

/-- **Giving a register the result of an operation, in numbers.** -/
theorem values_set {value : UInt16} {operate : Int → Int}
    (same : ((value.toNat : Int) - operate (f.get r).toNat) % 65536 = 0) :
    (f.set r value).values = f.values.change r operate := by
  funext s
  unfold Values.change
  rw [toNat_get] at same
  by_cases here : s.slot = r.slot
  · have word : f.values s = f.values r := by rw [values_eq, values_eq, f.slot_congr here]
    rw [if_pos (Register.whole_eq_iff.mpr here), word, values_eq, slot_set_of_eq f value here,
      number_write, ← values_eq]
    exact r.part.replace_congr same _
  · rw [if_neg (mt Register.whole_eq_iff.mp here), values_eq, slot_set_of_ne f value here,
      ← values_eq]

end RegisterFile

/-! ### Instructions and runs -/

theorem toNat_toUInt16 (n : Int16) : ((n.toUInt16.toNat : Int) - n.toInt) % 65536 = 0 := by
  rw [← UInt16.toNat_toBitVec, ← Int16.toInt_toBitVec, Int16.toBitVec_toUInt16,
    BitVec.toInt_eq_toNat_cond]
  split <;> omega

theorem Values.execute_other (values : Values) (operation : Mnemonic) {items : List Operand}
    (other : ∀ r i, items ≠ [.register r, .immediate i]) :
    values.execute operation items = values := by
  unfold Values.execute
  split
  · exact absurd rfl (other _ _)
  · rfl

/-- **One instruction, in numbers.** -/
theorem values_execute (f : RegisterFile) (operation : Mnemonic) (items : List Operand) :
    (f.execute operation items).values = f.values.execute operation items := by
  unfold RegisterFile.execute
  split
  · rename_i r i
    have constant := toNat_toUInt16 i.value
    have bound := i.value.toUInt16.toNat_lt
    unfold Values.execute
    cases operation with
    | mov => exact f.values_set r constant
    | add =>
      apply f.values_set r
      rw [UInt16.toNat_add]
      omega
    | sub =>
      apply f.values_set r
      rw [UInt16.toNat_sub]
      omega
    | _ => rfl
  · rename_i other
    exact (f.values.execute_other operation other).symm

theorem values_executeAll (f : RegisterFile) (instructions : List Instruction) :
    (f.executeAll instructions).values =
      instructions.foldl (fun values i => Values.execute values i.mnemonic i.operands) f.values :=
  (List.foldl_hom RegisterFile.values fun f i => (values_execute f i.mnemonic i.operands).symm).symm

theorem words_eq (f : RegisterFile) :
    f.words.map (fun w => (w.toNat : Int)) = Register.words.map f.values := by
  rw [RegisterFile.words, List.map_map]
  refine List.map_congr_left fun r member => ?_
  rw [RegisterFile.values, Register.whole_of_mem_words r member]
  rfl

/-- **A run changes the words as its instructions do one after another**, each in whole numbers;
failures change nothing. -/
theorem words_run (m : Machine) (r : BitReader) (executes : m.config.execute) :
    (m.run r).machine.registers.words.map (fun w => (w.toNat : Int)) =
      Register.words.map ((m.run r).instructions.foldl
        (fun values i => Values.execute values i.mnemonic i.operands) m.registers.values) := by
  rw [words_eq, Machine.registers_run m r executes, values_executeAll]

/-- Byte arithmetic with a carry and a borrow, word arithmetic, and two failures in between. -/
def carrying : BitReader :=
  .ofBytes #[0xB8, 0xFF, 0x00, 0x04, 0x01, 0x0F, 0xB7, 0x00, 0x80, 0xEF, 0x02, 0x3C, 0x05, 0x2D,
    0x01, 0x00, 0x81]

theorem words_run_carrying :
    let m := Machine.under {} .skip
    (m.run carrying).instructions.map (·.text) =
        ["mov ax, 255", "add al, 1", "mov bh, 0", "sub bh, 2", "cmp al, 5", "sub ax, 1"] ∧
      (m.run carrying).skipped.length = 2 ∧
      (m.run carrying).machine.registers.words = [65535, 0, 0, 0xFE00, 0, 0, 0, 0] ∧
      m.config.execute = true ∧
      (m.run carrying).machine.registers.words.map (fun w => (w.toNat : Int)) =
        Register.words.map ((m.run carrying).instructions.foldl
          (fun values i => Values.execute values i.mnemonic i.operands) m.registers.values) := by
  intro m
  exact ⟨by decide +kernel, by decide +kernel, by decide +kernel, rfl, words_run m carrying rfl⟩

end RealMode
