/-
**Disassemblies.** What a disassembler tells about an image: its instructions at their places in the
file, and the failures it met. It is written as a listing, with the place and the bytes of each
instruction before its line, or as a JSON report.
-/

import RealMode.Image
import RealMode.Json.Value
import RealMode.Listing
import RealMode.Machine

namespace RealMode

/-- The two digits of each byte, a blank between bytes. -/
def hexBytes (bytes : Array UInt8) : String :=
  " ".intercalate (bytes.toList.map fun b => Numeral.paddedText 16 2 b.toNat)

/-- A text filled up with blanks on the right. -/
def padRight (width : Nat) (text : String) : String :=
  text ++ String.ofList (List.replicate (width - text.length) ' ')

/-- A run over an image that was cut out of a file at `origin`. -/
structure Disassembly where
  origin : Nat
  run : Run

namespace Disassembly

/-- The disassembly of an image; nothing is executed. -/
def ofImage (image : Image) (onError : ErrorPolicy) : Disassembly where
  origin := image.origin
  run := ({ config := { onError, execute := false } } : Machine).run (.ofBytes image.bytes)

/-- The place of an instruction in the file. -/
def place (d : Disassembly) (i : Instruction) : Nat := d.origin + i.offset

/-- The assembly listing. -/
def listing (d : Disassembly) : String := Listing.text d.run.instructions

/-- The line of an instruction with its place and its bytes. -/
def annotatedLine (d : Disassembly) (i : Instruction) : String :=
  Listing.line (Numeral.marked 6 (d.place i) ++ ": " ++ padRight 20 (hexBytes i.bytes) ++ " " ++
    i.text)

/-- The lines of all instructions with their places and bytes. -/
def annotated (d : Disassembly) : String :=
  String.join (d.run.instructions.map d.annotatedLine)

/-- The report on one instruction. -/
def instructionReport (d : Disassembly) (i : Instruction) : Json.Value :=
  .record [
    ("offset", .nat (d.place i)),
    ("bytes", .text (hexBytes i.bytes)),
    ("mnemonic", .text i.mnemonic.name),
    ("text", .text i.text)]

/-- The JSON report. -/
def report (d : Disassembly) : Json.Value :=
  .record [
    ("instructions", .array (d.run.instructions.map d.instructionReport)),
    ("skipped", .array (d.run.skipped.map fun t => .text t.message)),
    ("error", match d.run.trap with
      | none => .null
      | some t => .text t.message)]

end Disassembly

end RealMode
