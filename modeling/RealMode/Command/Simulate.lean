/-
**The simulating command.** It runs a program, writes its listing to a file or prints it, and prints
the registers.
-/

import RealMode.Command.Action
import RealMode.Command.Arguments
import RealMode.Listing
import RealMode.Stored

namespace RealMode.Command

/-- The options of the simulating command. -/
structure Simulate where
  config : Option String
  skipErrors : Bool
  noExecute : Bool
  out : Option String
  format : OutputFormat
  input : String
  deriving DecidableEq

namespace Simulate

/-- The options that are known. -/
def grammar : Grammar where
  flags := ["--skip-errors", "--no-exec"]
  settings := ["--config", "--out", "--format"]

/-- The options that the arguments give. -/
def ofArguments? (texts : List String) : Option Simulate := do
  let arguments ← grammar.read? texts
  let config ← setting? arguments "--config"
  let skipErrors ← flag? arguments "--skip-errors"
  let noExecute ← flag? arguments "--no-exec"
  let out ← setting? arguments "--out"
  let format ← OutputFormat.ofWord? (← setting? arguments "--format")
  let input ← operand? arguments
  return { config, skipErrors, noExecute, out, format, input }

/-- The files to be read. -/
def inputs (options : Simulate) : List String := options.config.toList ++ [options.input]

/-- A configuration changed by the flags. -/
def adjust (options : Simulate) (config : Config) : Config where
  onError := if options.skipErrors then .skip else config.onError
  execute := if options.noExecute then false else config.execute

/-- The configuration kept in a file. -/
def readConfig (files : Files) (name : String) : Except Failure Config := do
  let bytes ← files.read name
  match (String.fromUTF8? ⟨bytes⟩).bind (Stored.load? Config) with
  | some config => return config
  | none => throw (.notConfig name)

/-- The configuration to start from. -/
def startConfig (options : Simulate) (files : Files) : Except Failure Config :=
  match options.config with
  | none => .ok {}
  | some name => readConfig files name

/-- The run of a program. -/
def run (config : Config) (program : Array UInt8) : Run :=
  ({ config } : Machine).run (.ofBytes program)

/-- The registers as they are printed. -/
def registers (format : OutputFormat) (f : RegisterFile) : String :=
  match format with
  | .text => f.text
  | .json =>
    let entry := fun (entry : Register × UInt16) =>
      Json.Value.record [("name", .text entry.1.name), ("value", .nat entry.2.toNat)]
    (Json.Value.array (f.dump.map entry)).pretty ++ "\n"

/-- What is written and printed about a run. -/
def action (options : Simulate) (run : Run) : Action :=
  let listing := Listing.text run.instructions
  let dump := "\n" ++ registers options.format run.machine.registers
  match options.out with
  | none => { file := none, stdout := listing ++ dump, stderr := failureLines run }
  | some name => { file := some (name, listing), stdout := dump, stderr := failureLines run }

/-- What the command does with some files. -/
def plan (options : Simulate) (files : Files) : Except Failure Action := do
  let config ← options.startConfig files
  let program ← files.read options.input
  return options.action (run (options.adjust config) program)

end Simulate

end RealMode.Command
