/-
**The register file as cells.** The storage is sixteen bytes, and a name covers one of them or the
two of a word. A value written under a name goes to the cells of the name digit by digit in base
256, the low one first, and to no other cell; after any number of writes a cell holds what the last
of them that covers it left there.

* `cell_set`: a write sets the cells that its name covers.
* `cell_setAll`: the last write to a cell wins.
* `toNat_get_cells`: the value under a name is the number that its cells spell.
* `cells_after_writes`: all of this, for any writes to any register file.
-/

import Mathlib.Data.Nat.Digits.Defs
import RealMode.RegisterFile

namespace RealMode

/-! ### Cells -/

/-- A byte of a word. -/
inductive Half
  | low
  | high
  deriving DecidableEq

/-- A byte of storage, in one of the words ax, cx, dx, bx, sp, bp, si and di. -/
structure Cell where
  slot : Fin 8
  half : Half
  deriving DecidableEq

/-- A byte of a word of storage. -/
def Storage.byte (s : Storage) : Half → UInt8
  | .low => s.low
  | .high => s.high

/-- The bytes of a part, the low one first. -/
def RegisterPart.halves : RegisterPart → List Half
  | full => [.low, .high]
  | low => [.low]
  | high => [.high]

namespace Register

/-- The cells that a name covers, the low one first. -/
def cells : Register → List Cell
  | ax => [⟨slot ax, .low⟩, ⟨slot ax, .high⟩]
  | al => [⟨slot ax, .low⟩]
  | ah => [⟨slot ax, .high⟩]
  | cx => [⟨slot cx, .low⟩, ⟨slot cx, .high⟩]
  | cl => [⟨slot cx, .low⟩]
  | ch => [⟨slot cx, .high⟩]
  | dx => [⟨slot dx, .low⟩, ⟨slot dx, .high⟩]
  | dl => [⟨slot dx, .low⟩]
  | dh => [⟨slot dx, .high⟩]
  | bx => [⟨slot bx, .low⟩, ⟨slot bx, .high⟩]
  | bl => [⟨slot bx, .low⟩]
  | bh => [⟨slot bx, .high⟩]
  | sp => [⟨slot sp, .low⟩, ⟨slot sp, .high⟩]
  | bp => [⟨slot bp, .low⟩, ⟨slot bp, .high⟩]
  | si => [⟨slot si, .low⟩, ⟨slot si, .high⟩]
  | di => [⟨slot di, .low⟩, ⟨slot di, .high⟩]

/-- The two registers have a cell in common. -/
def Overlaps (r s : Register) : Prop := ∃ c ∈ r.cells, c ∈ s.cells

instance (r s : Register) : Decidable (r.Overlaps s) :=
  inferInstanceAs (Decidable (∃ c ∈ r.cells, c ∈ s.cells))

/-- The number that the cells of a name spell in base 256. -/
def valueIn (r : Register) (bytes : Cell → UInt8) : Nat :=
  Nat.ofDigits 256 (r.cells.map fun c => (bytes c).toNat)

/-- The digit of a number that goes to a cell of the register. -/
def digit (r : Register) (c : Cell) (value : Nat) : Nat := value / 256 ^ r.cells.idxOf c % 256

/-- The last of some writes that covers a cell. -/
def lastTo? (c : Cell) (writes : List (Register × UInt16)) : Option (Register × UInt16) :=
  (writes.filter fun write => c ∈ write.1.cells).getLast?

/-- Each of the eight words has a slot of its own. -/
theorem slots_words : words.map slot = List.finRange 8 := by decide

/-- A name covers the bytes of its part in its word. -/
theorem cells_eq (r : Register) : r.cells = r.part.halves.map (Cell.mk r.slot) := by
  cases r <;> rfl

theorem mem_cells_iff {r : Register} {c : Cell} :
    c ∈ r.cells ↔ r.slot = c.slot ∧ c.half ∈ r.part.halves := by
  rw [cells_eq, List.mem_map]
  constructor
  · rintro ⟨half, held, rfl⟩
    exact ⟨rfl, held⟩
  · rintro ⟨here, held⟩
    exact ⟨c.half, held, by rw [here]⟩

theorem idxOf_cell (slot : Fin 8) (half : Half) (halves : List Half) :
    (halves.map (Cell.mk slot)).idxOf ⟨slot, half⟩ = halves.idxOf half := by
  induction halves with
  | nil => rfl
  | cons first halves ih =>
    have same : (Cell.mk slot first == ⟨slot, half⟩) = (first == half) := by
      rw [Bool.eq_iff_iff, beq_iff_eq, beq_iff_eq, Cell.mk.injEq]
      exact and_iff_right rfl
    rw [List.map_cons, List.idxOf_cons, List.idxOf_cons, same, ih]

theorem digit_eq (r : Register) (half : Half) (value : Nat) :
    r.digit ⟨r.slot, half⟩ value = value / 256 ^ r.part.halves.idxOf half % 256 := by
  rw [digit, cells_eq, idxOf_cell]

theorem lastTo?_cons (c : Cell) (write : Register × UInt16) (writes : List (Register × UInt16)) :
    lastTo? c (write :: writes) =
      (lastTo? c writes).or (if c ∈ write.1.cells then some write else none) := by
  rw [lastTo?, List.filter_cons]
  by_cases covered : c ∈ write.1.cells
  · rw [if_pos (decide_eq_true covered), if_pos covered, List.getLast?_cons, lastTo?]
    cases (writes.filter fun write => c ∈ write.1.cells).getLast? <;> rfl
  · rw [if_neg (by simp [covered]), if_neg covered, Option.or_none, lastTo?]

end Register

namespace RegisterFile

section Cells

variable (f : RegisterFile) (r s : Register) (value : UInt16) (c : Cell)

/-- The byte in a cell. -/
def cell (f : RegisterFile) (c : Cell) : UInt8 := f.slots[c.slot].byte c.half

/-- The register file after some writes. -/
def setAll (f : RegisterFile) (writes : List (Register × UInt16)) : RegisterFile :=
  writes.foldl (fun f write => f.set write.1 write.2) f

/-! ### The cells are all there is -/

theorem eq_of_cells {f g : RegisterFile} (same : ∀ c, f.cell c = g.cell c) : f = g := by
  apply RegisterFile.ext
  apply Vector.ext
  intro i bound
  exact Storage.ext (same ⟨⟨i, bound⟩, .low⟩) (same ⟨⟨i, bound⟩, .high⟩)

/-- **A register file is sixteen bytes**, one for each cell. -/
theorem cell_bijective : Function.Bijective cell := by
  refine ⟨fun f g same => eq_of_cells fun c => congrFun same c, fun bytes => ?_⟩
  refine ⟨⟨Vector.ofFn fun slot => ⟨bytes ⟨slot, .low⟩, bytes ⟨slot, .high⟩⟩⟩, ?_⟩
  funext c
  obtain ⟨slot, half⟩ := c
  cases half <;> simp [cell, Storage.byte]

/-! ### Reading cells -/

theorem toNat_read (s : Storage) (part : RegisterPart) :
    (s.read part).toNat = Nat.ofDigits 256 (part.halves.map fun half => (s.byte half).toNat) := by
  cases part with
  | full =>
    simp only [Storage.read, Word.toNat_ofBytes, RegisterPart.halves, Storage.byte, List.map_cons,
      List.map_nil, Nat.ofDigits_cons, Nat.ofDigits_nil, Nat.mul_zero, Nat.add_zero]
  | low => simp [Storage.read, RegisterPart.halves, Storage.byte]
  | high => simp [Storage.read, RegisterPart.halves, Storage.byte]

/-- **The value under a name is the number that its cells spell.** -/
theorem toNat_get_cells : (f.get r).toNat = r.valueIn f.cell := by
  rw [get, toNat_read, Register.valueIn, Register.cells_eq, List.map_map]
  rfl

variable {f r s} in
theorem get_congr {g : RegisterFile} (same : ∀ c ∈ r.cells, f.cell c = g.cell c) :
    f.get r = g.get r := by
  apply UInt16.toNat_inj.mp
  rw [toNat_get_cells, toNat_get_cells, Register.valueIn, Register.valueIn]
  exact congrArg _ (List.map_congr_left fun c covered => congrArg UInt8.toNat (same c covered))

/-! ### Writing cells -/

theorem toNat_byte_write (s : Storage) (part : RegisterPart) (half : Half) :
    ((s.write value part).byte half).toNat =
      if half ∈ part.halves then value.toNat / 256 ^ part.halves.idxOf half % 256
      else (s.byte half).toNat := by
  cases part <;> cases half
  case full.high =>
    have bound := value.toNat_lt
    show (Word.high value).toNat = value.toNat / 256 ^ 1 % 256
    rw [Word.toNat_high]
    omega
  all_goals simp [Storage.write, Storage.byte, RegisterPart.halves, Word.toNat_low]

/-- **A write sets the cells that its name covers**, and no other. -/
theorem cell_set :
    ((f.set r value).cell c).toNat =
      if c ∈ r.cells then r.digit c value.toNat else (f.cell c).toNat := by
  obtain ⟨slot, half⟩ := c
  by_cases here : r.slot = slot
  · subst here
    have written : (f.set r value).cell ⟨r.slot, half⟩ =
        ((f.slot r).write value r.part).byte half := by
      rw [← slot_set_of_eq f value rfl]
      rfl
    rw [written, toNat_byte_write, Register.digit_eq]
    simp only [Register.mem_cells_iff, true_and]
    rfl
  · have other : (r.slot : Nat) ≠ slot := fun same => here (Fin.ext same)
    rw [if_neg fun covered => here (Register.mem_cells_iff.mp covered).1]
    simp [cell, set, Vector.getElem_set_ne _ _ other]

/-- **The last write to a cell wins**; a cell that none covers keeps its byte. -/
theorem cell_setAll (writes : List (Register × UInt16)) :
    ((f.setAll writes).cell c).toNat =
      match Register.lastTo? c writes with
      | some (r, value) => r.digit c value.toNat
      | none => (f.cell c).toNat := by
  induction writes generalizing f with
  | nil => rfl
  | cons write writes ih =>
    have first : f.setAll (write :: writes) = (f.set write.1 write.2).setAll writes := rfl
    rw [first, ih, Register.lastTo?_cons]
    cases Register.lastTo? c writes with
    | some later => rfl
    | none =>
      dsimp only
      rw [cell_set, Option.none_or]
      by_cases covered : c ∈ write.1.cells
      · rw [if_pos covered, if_pos covered]
      · rw [if_neg covered, if_neg covered]

variable {r s} in
/-- A write changes no name that has no cell in common with its own. -/
theorem get_set_of_apart (apart : ¬r.Overlaps s) : (f.set r value).get s = f.get s := by
  refine get_congr fun c covered => UInt8.toNat_inj.mp ?_
  rw [cell_set, if_neg fun written => apart ⟨c, written, covered⟩]

end Cells

/-- **The register file is sixteen cells in which the last write wins**, two for each of the words
ax, cx, dx, bx, sp, bp, si and di, and all names are told by the cells that they cover. -/
theorem cells_after_writes (f : RegisterFile) (writes : List (Register × UInt16)) :
    Register.words.map Register.slot = List.finRange 8 ∧
      Function.Bijective cell ∧
      (∀ c, ((f.setAll writes).cell c).toNat =
        match Register.lastTo? c writes with
        | some (r, value) => r.digit c value.toNat
        | none => (f.cell c).toNat) ∧
      (∀ r, ((f.setAll writes).get r).toNat = r.valueIn (f.setAll writes).cell) ∧
      ((f.setAll writes).dump.map fun (r, value) => (r, value.toNat)) =
        Register.all.map (fun r => (r, r.valueIn (f.setAll writes).cell)) ∧
      ∀ r s value, ((f.setAll writes).set r value).get s ≠ (f.setAll writes).get s →
        r.Overlaps s := by
  refine ⟨Register.slots_words, cell_bijective, fun c => cell_setAll f c writes,
    fun r => toNat_get_cells _ r, ?_, ?_⟩
  · rw [dump, List.map_map]
    exact List.map_congr_left fun r _ => congrArg (Prod.mk r) (toNat_get_cells _ r)
  · intro r s value changed
    exact Decidable.byContradiction fun apart => changed (get_set_of_apart _ value apart)

example : (zero.setAll [(.al, 0x12), (.ax, 0x3456), (.ah, 0x1FF)]).get .ax = 0xFF56 := by decide

end RegisterFile

end RealMode
