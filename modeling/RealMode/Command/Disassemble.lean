/-
**The disassembling command.** It disassembles a part of a file and writes the result to a file or
prints it. A JSON report holds the failures; beside the other forms they are printed.
-/

import RealMode.Command.Action
import RealMode.Command.Arguments
import RealMode.Disassembly

namespace RealMode.Command

/-- The options of the disassembling command. -/
structure Disassemble where
  skip : Nat
  length : Option Nat
  showBytes : Bool
  skipErrors : Bool
  format : OutputFormat
  out : Option String
  input : String
  deriving DecidableEq

namespace Disassemble

/-- The options that are known. -/
def grammar : Grammar where
  flags := ["--show-bytes", "--skip-errors"]
  settings := ["--skip", "--len", "--format", "--out"]

/-- The size that a setting gives, if it is given. -/
def sizeSetting? (arguments : List Argument) (name : String) : Option (Option Nat) :=
  match setting? arguments name with
  | none => none
  | some none => some none
  | some (some text) => (size? text).map some

/-- The options that the arguments give. -/
def ofArguments? (texts : List String) : Option Disassemble := do
  let arguments ← grammar.read? texts
  let skip ← sizeSetting? arguments "--skip"
  let length ← sizeSetting? arguments "--len"
  let showBytes ← flag? arguments "--show-bytes"
  let skipErrors ← flag? arguments "--skip-errors"
  let format ← OutputFormat.ofWord? (← setting? arguments "--format")
  let out ← setting? arguments "--out"
  let input ← operand? arguments
  return { skip := skip.getD 0, length, showBytes, skipErrors, format, out, input }

/-- The files to be read. -/
def inputs (options : Disassemble) : List String := [options.input]

/-- What an undecodable byte does. -/
def onError (options : Disassemble) : ErrorPolicy := if options.skipErrors then .skip else .abort

/-- The result in the form asked for. -/
def result (options : Disassemble) (d : Disassembly) : String :=
  match options.format with
  | .json => d.report.pretty ++ "\n"
  | .text => if options.showBytes then d.annotated else d.listing

/-- The failures that are printed beside the result. -/
def failures (options : Disassemble) (d : Disassembly) : String :=
  match options.format with
  | .json => ""
  | .text => failureLines d.run

/-- What is written and printed about a disassembly. -/
def action (options : Disassemble) (d : Disassembly) : Action :=
  match options.out with
  | none => { file := none, stdout := options.result d, stderr := options.failures d }
  | some name =>
    { file := some (name, options.result d), stdout := "", stderr := options.failures d }

/-- What the command does with some files. -/
def plan (options : Disassemble) (files : Files) : Except Failure Action := do
  let file ← files.read options.input
  match Image.ofFile file options.skip options.length with
  | .ok image => return options.action (.ofImage image options.onError)
  | .error error => throw (.image error)

end Disassemble

end RealMode.Command
