/-
**Register names.** Sixteen names cover eight words of storage: eight names stand for a whole word,
and each of the first four words has two more names, one for either byte.

* `ofCode?_isSome`: a register code names a register exactly when it is at most seven.
* `eq_of_slot_part`: a name is determined by its word and the part of it that it covers.
-/

namespace RealMode

/-- The part of a word of storage that a register name covers. -/
inductive RegisterPart
  | full
  | low
  | high
  deriving DecidableEq

/-- A register name. -/
inductive Register
  | al | cl | dl | bl
  | ah | ch | dh | bh
  | ax | cx | dx | bx
  | sp | bp | si | di
  deriving DecidableEq

namespace Register

/-- The names of one byte, in the order of their codes. -/
def bytes : List Register := [al, cl, dl, bl, ah, ch, dh, bh]

/-- The names of a whole word, in the order of their codes. -/
def words : List Register := [ax, cx, dx, bx, sp, bp, si, di]

/-- All names: the bytes, then the words. -/
def all : List Register := bytes ++ words

/-- The written name. -/
def name : Register → String
  | al => "al" | cl => "cl" | dl => "dl" | bl => "bl"
  | ah => "ah" | ch => "ch" | dh => "dh" | bh => "bh"
  | ax => "ax" | cx => "cx" | dx => "dx" | bx => "bx"
  | sp => "sp" | bp => "bp" | si => "si" | di => "di"

/-- The word of storage that the name belongs to. -/
def slot : Register → Fin 8
  | al | ah | ax => 0
  | cl | ch | cx => 1
  | dl | dh | dx => 2
  | bl | bh | bx => 3
  | sp => 4
  | bp => 5
  | si => 6
  | di => 7

/-- The part of its word that the name covers. -/
def part : Register → RegisterPart
  | al | cl | dl | bl => .low
  | ah | ch | dh | bh => .high
  | ax | cx | dx | bx | sp | bp | si | di => .full

/-- The register that a three-bit code names among the words or among the bytes. -/
def ofCode? (wide : Bool) (code : UInt8) : Option Register :=
  (if wide then words else bytes)[code.toNat]?

theorem ofCode?_isSome (wide : Bool) (code : UInt8) :
    (ofCode? wide code).isSome ↔ code ≤ 7 := by
  cases wide <;> simp [ofCode?, words, bytes, UInt8.le_iff_toNat_le] <;> omega

theorem mem_all (r : Register) : r ∈ all := by
  cases r <;> decide

theorem eq_of_slot_part {r s : Register} (sameSlot : r.slot = s.slot)
    (samePart : r.part = s.part) : r = s := by
  revert sameSlot samePart
  cases r <;> cases s <;> decide

end Register

end RealMode
