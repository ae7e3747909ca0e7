/-
**Listings.** The text of a program that an assembler reads back: a header, then one line for each
instruction.

* `toList_text`: a listing is its header line followed by the lines of its instructions.
-/

import RealMode.Instruction

namespace RealMode.Listing

/-- The directive that makes the assembler read what follows as 16-bit code. -/
def header : String := "bits 16"

/-- A line with its line end. -/
def line (text : String) : String := text ++ "\n"

/-- The listing of some instructions. -/
def text (instructions : List Instruction) : String :=
  line header ++ String.join (instructions.map fun i => line i.text)

theorem toList_text (instructions : List Instruction) :
    (text instructions).toList =
      header.toList ++ '\n' :: instructions.flatMap fun i => i.text.toList ++ ['\n'] := by
  simp [text, line, String.toList_join, List.flatMap_map]

end RealMode.Listing
