/-
**The register file.** Eight words of storage, read and written under sixteen names; a write under
the name of one byte leaves the other byte of the word alone.

* `get_set_self`: what is written under a name is read back under it, cut to the name's width.
* `slot_set_of_ne`: a write leaves every other word of storage alone.
-/

import RealMode.Numeral
import RealMode.Register
import RealMode.Word

namespace RealMode

/-- One word of storage. -/
@[ext] structure Storage where
  low : UInt8
  high : UInt8
  deriving DecidableEq

namespace Storage

/-- The value of a part of the word. -/
def read (s : Storage) : RegisterPart → UInt16
  | .full => Word.ofBytes s.low s.high
  | .low => s.low.toUInt16
  | .high => s.high.toUInt16

/-- The word after a write to a part of it; a byte takes the low eight bits of the value. -/
def write (s : Storage) (value : UInt16) : RegisterPart → Storage
  | .full => ⟨Word.low value, Word.high value⟩
  | .low => { s with low := Word.low value }
  | .high => { s with high := Word.low value }

end Storage

/-- The storage behind all registers, in the order ax, cx, dx, bx, sp, bp, si, di. -/
@[ext] structure RegisterFile where
  slots : Vector Storage 8
  deriving DecidableEq

namespace RegisterFile

/-- The register file that holds zeros. -/
def zero : RegisterFile := ⟨Vector.replicate 8 ⟨0, 0⟩⟩

instance : Inhabited RegisterFile := ⟨zero⟩

/-- The word of storage that a register belongs to. -/
def slot (f : RegisterFile) (r : Register) : Storage := f.slots[r.slot]

/-- The value of a register. -/
def get (f : RegisterFile) (r : Register) : UInt16 := (f.slot r).read r.part

/-- The register file after a register is given a value. -/
def set (f : RegisterFile) (r : Register) (value : UInt16) : RegisterFile :=
  ⟨f.slots.set r.slot ((f.slot r).write value r.part)⟩

/-- Every register with its value. -/
def dump (f : RegisterFile) : List (Register × UInt16) := Register.all.map fun r => (r, f.get r)

/-- The eight words. -/
def words (f : RegisterFile) : List UInt16 := Register.words.map f.get

/-- The mark that tells the name of one byte from the name of a word. -/
def mark : RegisterPart → String
  | .full => ""
  | .low => " (lo)"
  | .high => " (hi)"

/-- The line of a register in the printed file: its name and its value in binary. -/
def line (r : Register) (value : UInt16) : String :=
  r.name ++ " " ++ Numeral.text 2 value.toNat ++ mark r.part

/-- The printed register file, a line for each register. -/
def text (f : RegisterFile) : String :=
  String.join (f.dump.map fun entry => line entry.1 entry.2 ++ "\n")

/-! ### Reading what was written -/

/-- A value as a register of the given part holds it. -/
def cut (value : UInt16) : RegisterPart → UInt16
  | .full => value
  | .low | .high => (Word.low value).toUInt16

theorem read_write_self (s : Storage) (value : UInt16) (part : RegisterPart) :
    (s.write value part).read part = cut value part := by
  cases part <;> simp [Storage.write, Storage.read, cut, Word.ofBytes_low_high]

theorem slot_set_of_eq (f : RegisterFile) {r s : Register} (value : UInt16)
    (same : s.slot = r.slot) : (f.set r value).slot s = (f.slot r).write value r.part := by
  simp [slot, set, same]

theorem slot_set_of_ne (f : RegisterFile) {r s : Register} (value : UInt16)
    (different : s.slot ≠ r.slot) : (f.set r value).slot s = f.slot s := by
  have apart : (r.slot : Nat) ≠ s.slot := fun same => different (Fin.ext same.symm)
  simp [slot, set, Vector.getElem_set_ne _ _ apart]

theorem get_set_self (f : RegisterFile) (r : Register) (value : UInt16) :
    (f.set r value).get r = cut value r.part := by
  rw [get, slot_set_of_eq f value rfl, read_write_self]

end RegisterFile

end RealMode
