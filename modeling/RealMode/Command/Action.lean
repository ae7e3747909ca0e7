/-
**What a command comes to.** A command reads files, and then fails or acts: it may write one file,
and it prints. Nothing is printed where the file cannot be written.
-/

import RealMode.Image
import RealMode.Machine

namespace RealMode.Command

/-- The contents of files by name. -/
abbrev Files := String → Option (Array UInt8)

/-- Why a command does nothing. -/
inductive Failure
  /-- The arguments are refused. -/
  | usage
  /-- A file cannot be read. -/
  | unreadable (name : String)
  /-- A file does not hold a configuration. -/
  | notConfig (name : String)
  /-- The part of the file that was asked for does not exist. -/
  | image (error : ImageError)
  /-- A file cannot be written. -/
  | unwritable (name : String)
  deriving DecidableEq

/-- What a command does once it has read its files. -/
structure Action where
  /-- The file to write first, with its content. -/
  file : Option (String × String)
  stdout : String
  stderr : String

/-- What is seen of a command that has ended. -/
structure Outcome where
  code : Nat
  stdout : String
  stderr : String
  deriving DecidableEq

/-- The wording of a failure. -/
def Failure.message : Failure → String
  | .usage => "usage: (run | disasm) [options] FILE"
  | .unreadable name => "Error: cannot read " ++ name
  | .notConfig name => "Error: no configuration in " ++ name
  | .image error => "Error: " ++ error.message
  | .unwritable name => "Error: cannot write " ++ name

/-- The exit code of a failure. -/
def Failure.code : Failure → Nat
  | .usage => 2
  | .unreadable _ | .notConfig _ | .image _ | .unwritable _ => 1

/-- The outcome of a failure. -/
def Failure.outcome (f : Failure) : Outcome :=
  { code := f.code, stdout := "", stderr := f.message ++ "\n" }

/-- The outcome of an action. -/
def Action.outcome (a : Action) : Outcome := { code := 0, stdout := a.stdout, stderr := a.stderr }

/-- Reads a file. -/
def Files.read (files : Files) (name : String) : Except Failure (Array UInt8) :=
  match files name with
  | some bytes => .ok bytes
  | none => .error (.unreadable name)

/-- A line for each failure of a run: first those passed over, then the one that ended it. -/
def failureLines (run : Run) : String :=
  String.join (run.skipped.map fun t => "SKIPPED: " ++ t.message ++ "\n") ++
    match run.trap with
    | none => ""
    | some t => "TRAP: " ++ t.message ++ "\n"

end RealMode.Command
