/-
**Sessions.** One machine and one reader, on which operations are performed one after another in any
order. An operation that fails has no answer but leaves the machine and the reader somewhere, and
the session goes on from there.

* `afterAll_append`: operations in two groups.
-/

import RealMode.Stored

namespace RealMode

/-- A machine at a stream. -/
@[ext] structure Session where
  machine : Machine
  reader : BitReader
  deriving DecidableEq

/-- What can be done in a session. -/
inductive Operation
  /-- Puts the reader at the start of a stream. -/
  | stream (bytes : Array UInt8)
  | read (width : Nat)
  | readByte
  | seek (offset : Nat)
  | decode
  | step
  | run
  /-- Executes an instruction that does not come from the stream. -/
  | execute (mnemonic : Mnemonic) (operands : List Operand)
  | set (r : Register) (value : UInt16)
  | reset
  | configure (config : Config)
  /-- Puts a saved machine in the place of this one; a text that is none changes nothing. -/
  | load (text : String)

namespace Session

/-- The machine and the reader that a step leaves. -/
def afterStep (s : Session) : Session :=
  match s.machine.step s.reader with
  | .halted => s
  | .emitted _ machine reader => { machine, reader }
  | .trapped _ reader => { s with reader }

/-- The session after an operation. -/
def after (s : Session) : Operation → Session
  | .stream bytes => { s with reader := .ofBytes bytes }
  | .read width => { s with reader := .after (BitReader.read width s.reader) }
  | .readByte => { s with reader := .after (BitReader.readByte s.reader) }
  | .seek offset => { s with reader := s.reader.seek offset }
  | .decode => { s with reader := .after (Decoding.decode s.reader) }
  | .step => s.afterStep
  | .run =>
    let run := s.machine.run s.reader
    { machine := run.machine, reader := run.reader }
  | .execute mnemonic operands =>
    let registers := s.machine.registers.execute mnemonic operands
    { s with machine := { s.machine with registers } }
  | .set r value =>
    { s with machine := { s.machine with registers := s.machine.registers.set r value } }
  | .reset => { s with machine := s.machine.reset }
  | .configure config => { s with machine := { s.machine with config } }
  | .load text => { s with machine := (Stored.load? Machine text).getD s.machine }

/-- The session after some operations. -/
def afterAll (s : Session) (operations : List Operation) : Session := operations.foldl after s

theorem afterAll_append (s : Session) (first second : List Operation) :
    s.afterAll (first ++ second) = (s.afterAll first).afterAll second := List.foldl_append

end Session

end RealMode
