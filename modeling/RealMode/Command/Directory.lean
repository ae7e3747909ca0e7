/-
**Commands in a directory.** A directory of plain files, and what a command leaves of it.

* `read?_write?`: what is written under a name is read back under it.
* `invoke_files_of_failure`: a command that fails changes no file.
-/

import RealMode.Command.Disassemble
import RealMode.Command.Simulate
import RealMode.Path

namespace RealMode

/-- A command. -/
inductive Command
  | run
  | disasm
  deriving DecidableEq

namespace Command

/-- The command that a word names. -/
def ofWord? : String → Option Command
  | "run" => some .run
  | "disasm" => some .disasm
  | _ => none

/-- The files that a command reads. -/
def inputs (command : Command) (texts : List String) : List String :=
  match command with
  | .run => ((Simulate.ofArguments? texts).map Simulate.inputs).getD []
  | .disasm => ((Disassemble.ofArguments? texts).map Disassemble.inputs).getD []

/-- What a command does with some arguments and files. -/
def plan (command : Command) (texts : List String) (files : Files) : Except Failure Action :=
  match command with
  | .run =>
    match Simulate.ofArguments? texts with
    | none => .error .usage
    | some options => options.plan files
  | .disasm =>
    match Disassemble.ofArguments? texts with
    | none => .error .usage
    | some options => options.plan files

end Command

/-- Plain files by name, the newest first. -/
structure Directory where
  files : List (String × Array UInt8)

namespace Directory

/-- The content of a file. -/
def read? (d : Directory) (path : String) : Option (Array UInt8) :=
  (Path.fileName? path).bind fun name => d.files.lookup name

/-- The directory after a file is written. -/
def write? (d : Directory) (path : String) (content : Array UInt8) : Option Directory :=
  (Path.fileName? path).map fun name => ⟨(name, content) :: d.files⟩

/-- The directory after an action, where its file can be written. -/
def perform? (d : Directory) (action : Command.Action) : Except Command.Failure Directory :=
  match action.file with
  | none => .ok d
  | some (path, content) =>
    match d.write? path content.toUTF8.data with
    | some d' => .ok d'
    | none => .error (.unwritable path)

/-- A command is run in the directory. -/
def invoke (d : Directory) (command : Command) (texts : List String) :
    Command.Outcome × Directory :=
  match command.plan texts d.read? with
  | .error failure => (failure.outcome, d)
  | .ok action =>
    match d.perform? action with
    | .error failure => (failure.outcome, d)
    | .ok d' => (action.outcome, d')

theorem read?_write? {d d' : Directory} {path : String} {content : Array UInt8}
    (written : d.write? path content = some d') : d'.read? path = some content := by
  obtain ⟨name, named, rfl⟩ := Option.map_eq_some_iff.mp written
  simp [read?, named]

theorem invoke_files_of_failure {d : Directory} {command : Command} {texts : List String}
    (failed : (d.invoke command texts).1.code ≠ 0) : (d.invoke command texts).2 = d := by
  unfold invoke at failed ⊢
  split
  · rfl
  · rename_i planned
    rw [planned] at failed
    split
    · rfl
    · rename_i performed
      simp [performed, Command.Action.outcome] at failed

end Directory

end RealMode
