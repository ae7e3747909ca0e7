/-
**Program images.** The part of a file that holds code: some bytes are skipped at its start, and a
limit may be set on how many follow.

* `ofFile_ok_iff`: a cut is accepted exactly when it lies within the file.
-/

namespace RealMode

/-- Code cut out of a file, with the file offset it was cut at. -/
structure Image where
  origin : Nat
  bytes : Array UInt8
  deriving DecidableEq

/-- Why a cut is refused. -/
inductive ImageError
  | skipPastEnd
  | lengthPastEnd
  deriving DecidableEq

/-- The wording of a refusal. -/
def ImageError.message : ImageError → String
  | .skipPastEnd => "--skip exceeds file size"
  | .lengthPastEnd => "--len exceeds remaining file size after skip"

/-- Cuts `length` bytes out of a file after `skip` bytes, or all the rest of it. -/
def Image.ofFile (file : Array UInt8) (skip : Nat) (length : Option Nat) :
    Except ImageError Image :=
  if skip ≤ file.size then
    match length with
    | none => .ok { origin := skip, bytes := file.extract skip file.size }
    | some length =>
      if length ≤ file.size - skip then
        .ok { origin := skip, bytes := file.extract skip (skip + length) }
      else .error .lengthPastEnd
  else .error .skipPastEnd

theorem Image.ofFile_ok_iff (file : Array UInt8) (skip : Nat) (length : Option Nat) :
    (∃ image, ofFile file skip length = .ok image) ↔ skip + length.getD 0 ≤ file.size := by
  unfold ofFile
  by_cases inside : skip ≤ file.size
  · rw [if_pos inside]
    cases length with
    | none => simpa using inside
    | some length =>
      by_cases fits : length ≤ file.size - skip
      · simp only [if_pos fits, Except.ok.injEq, exists_eq', Option.getD_some, true_iff]
        omega
      · simp only [if_neg fits, reduceCtorEq, exists_false, Option.getD_some, false_iff]
        omega
  · simp only [if_neg inside, reduceCtorEq, exists_false, false_iff]
    omega

end RealMode
