/-
**Reading a byte stream bit by bit.** A reader stands at a bit of its stream, the most significant
bit of each byte first, and never past the end. A read of one to sixteen bits either takes them all
and moves on, or fails and stays.

* `read_ok`, `read_truncated`: the two outcomes of a read of admissible width.
* `Advances`: reading that keeps the stream and never goes back; it is closed under sequencing.
-/

import RealMode.DecodeError

namespace RealMode

/-- A byte stream with the position of its next unread bit. -/
@[ext] structure BitReader where
  bytes : Array UInt8
  pos : Nat
  pos_le : pos ≤ 8 * bytes.size
  deriving DecidableEq

/-- A computation that reads a stream; a failure also leaves the reader somewhere. -/
abbrev Reading := EStateM DecodeError BitReader

namespace BitReader

/-- A reader at the start of a stream. -/
def ofBytes (bytes : Array UInt8) : BitReader := ⟨bytes, 0, Nat.zero_le _⟩

/-- Bit `i` of a stream, the most significant bit of each byte first; zero past the end. -/
def bit (bytes : Array UInt8) (i : Nat) : Nat :=
  (bytes.getD (i / 8) 0).toNat >>> (7 - i % 8) % 2

/-- The number that the `width` bits from `pos` on spell, most significant bit first. -/
def bits (bytes : Array UInt8) (pos : Nat) : Nat → Nat
  | 0 => 0
  | width + 1 => 2 * bits bytes pos width + bit bytes (pos + width)

/-- The byte that holds the next unread bit. -/
def offset (r : BitReader) : Nat := r.pos / 8

/-- No bit is left. -/
def atEnd (r : BitReader) : Bool := 8 * r.bytes.size ≤ r.pos

/-- The number of unread bits. -/
def remaining (r : BitReader) : Nat := 8 * r.bytes.size - r.pos

/-- The whole byte under the reader, if the stream has not ended. -/
def peek? (r : BitReader) : Option UInt8 := r.bytes[r.offset]?

/-- The reader at the start of byte `offset`, or at the end of a shorter stream. -/
def seek (r : BitReader) (offset : Nat) : BitReader :=
  { r with pos := min (8 * offset) (8 * r.bytes.size), pos_le := Nat.min_le_right _ _ }

/-- Takes the next `width` bits, between one and sixteen, as a number. -/
def read (width : Nat) : Reading Nat := fun r =>
  if 1 ≤ width ∧ width ≤ 16 then
    if fits : r.pos + width ≤ 8 * r.bytes.size then
      .ok (bits r.bytes r.pos width) { r with pos := r.pos + width, pos_le := fits }
    else .error (.truncated r.bytes.size) r
  else .error (.fieldWidth width) r

/-- Takes the next eight bits as a byte. -/
def readByte : Reading UInt8 := do return (← read 8).toUInt8

/-! ### Outcomes of a read -/

theorem read_ok {r : BitReader} {width : Nat} (positive : 1 ≤ width) (narrow : width ≤ 16)
    (fits : r.pos + width ≤ 8 * r.bytes.size) :
    read width r =
      .ok (bits r.bytes r.pos width) { r with pos := r.pos + width, pos_le := fits } := by
  rw [read, if_pos ⟨positive, narrow⟩, dif_pos fits]

theorem read_truncated {r : BitReader} {width : Nat} (positive : 1 ≤ width) (narrow : width ≤ 16)
    (short : 8 * r.bytes.size < r.pos + width) :
    read width r = .error (.truncated r.bytes.size) r := by
  rw [read, if_pos ⟨positive, narrow⟩, dif_neg (by omega)]

/-- A successful read keeps the stream and moves on by exactly the width. -/
theorem moves_of_read {width n : Nat} {r r' : BitReader} (result : read width r = .ok n r') :
    r'.bytes = r.bytes ∧ r'.pos = r.pos + width := by
  unfold read at result
  split at result
  · split at result
    · cases result
      exact ⟨rfl, rfl⟩
    · cases result
  · cases result

/-! ### Reading moves forward -/

/-- The reader that a computation leaves, whether it succeeds or fails. -/
def after {α : Type} : EStateM.Result DecodeError BitReader α → BitReader
  | .ok _ r => r
  | .error _ r => r

/-- A computation that keeps the stream and never goes back in it. -/
def Advances {α : Type} (reading : Reading α) : Prop :=
  ∀ r, (after (reading r)).bytes = r.bytes ∧ r.pos ≤ (after (reading r)).pos

theorem advances_pure {α : Type} (a : α) : Advances (pure a) := fun _ => ⟨rfl, Nat.le_refl _⟩

theorem advances_throw {α : Type} (e : DecodeError) : Advances (throw e : Reading α) :=
  fun _ => ⟨rfl, Nat.le_refl _⟩

theorem bind_ok {α β : Type} {reading : Reading α} {next : α → Reading β} {r r' : BitReader} {a : α}
    (result : reading r = .ok a r') : (reading >>= next) r = next a r' := by
  simp [bind, EStateM.bind, result]

theorem of_bind_ok {α β : Type} {reading : Reading α} {next : α → Reading β} {r r' : BitReader}
    {b : β} (result : (reading >>= next) r = .ok b r') :
    ∃ a middle, reading r = .ok a middle ∧ next a middle = .ok b r' := by
  cases first : reading r with
  | ok a middle => exact ⟨a, middle, rfl, by rw [← result, bind_ok first]⟩
  | error e middle => simp [bind, EStateM.bind, first] at result

theorem bind_error {α β : Type} {reading : Reading α} {next : α → Reading β} {r r' : BitReader}
    {e : DecodeError} (result : reading r = .error e r') :
    (reading >>= next) r = .error e r' := by
  simp [bind, EStateM.bind, result]

theorem advances_bind {α β : Type} {reading : Reading α} {next : α → Reading β}
    (first : Advances reading) (rest : ∀ a, Advances (next a)) : Advances (reading >>= next) := by
  intro r
  have moved := first r
  cases result : reading r with
  | error e r' => rw [bind_error result]; rw [result] at moved; exact moved
  | ok a r' =>
    rw [bind_ok result]
    rw [result] at moved
    have movedOn := rest a r'
    exact ⟨movedOn.1.trans moved.1, Nat.le_trans moved.2 movedOn.2⟩

theorem advances_foldlM {α β : Type} {step : β → α → Reading β} (each : ∀ b a, Advances (step b a))
    (items : List α) (start : β) : Advances (items.foldlM step start) := by
  induction items generalizing start with
  | nil => exact advances_pure start
  | cons item items ih => exact advances_bind (each start item) fun b => ih b

theorem advances_read (width : Nat) : Advances (read width) := by
  intro r
  unfold read
  split
  · split
    · exact ⟨rfl, Nat.le_add_right _ _⟩
    · exact ⟨rfl, Nat.le_refl _⟩
  · exact ⟨rfl, Nat.le_refl _⟩

theorem advances_readByte : Advances readByte :=
  advances_bind (advances_read 8) fun n => advances_pure n.toUInt8

end BitReader

end RealMode
