/-
**The command line.** The first word names the command; its files are read, and what it comes to is
written and printed.
-/

import RealMode.Command.Directory

namespace RealMode.Console

/-- The content of a file, if it can be read. -/
def readContent? (path : String) : IO (Option (Array UInt8)) := do
  try return some (← IO.FS.readBinFile path).data
  catch _ => return none

/-- Prints a failure. -/
def refuse (failure : Command.Failure) : IO UInt32 := do
  IO.eprintln failure.message
  return failure.code.toUInt32

/-- Writes and prints what a command comes to. -/
def perform (action : Command.Action) : IO UInt32 := do
  if let some (path, content) := action.file then
    try IO.FS.writeFile path content
    catch _ => return ← refuse (.unwritable path)
  IO.eprint action.stderr
  IO.print action.stdout
  return 0

end RealMode.Console

open RealMode Console in
/-- The program. -/
def main (words : List String) : IO UInt32 := do
  let word :: texts := words | refuse .usage
  let some command := Command.ofWord? word | refuse .usage
  let contents ← (command.inputs texts).mapM fun path => return (path, ← readContent? path)
  match command.plan texts fun path => (contents.lookup path).join with
  | .error failure => refuse failure
  | .ok action => perform action
