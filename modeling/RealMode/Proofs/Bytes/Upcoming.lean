/-
**The bytes ahead of a reader.** From the bit where a reader stands its stream goes on in whole
bytes, with fewer than eight bits to spare at the end; at the start of a byte nothing is to spare,
and the bytes ahead are the rest of the stream. A reading of whole bytes agrees with a computation
on bits when both give the same value and leave the same bytes, or both fail.

* `at_of_aligned`: what is ahead of a reader at the start of a byte.
* `Inside.read`: a read of bits inside a byte.
* `agrees_bind`: agreement is kept by sequencing.
* `agrees_perform`: a reading of whole bytes agrees with its performance bit by bit.
-/

import Mathlib.Algebra.Group.Nat.Defs
import RealMode.Proofs.Bytes.ByteReading

namespace RealMode.BitReader

/-! ### Bits of a byte -/

theorem bits_lt (bytes : Array UInt8) (pos width : Nat) : bits bytes pos width < 2 ^ width := by
  induction width with
  | zero => simp [bits]
  | succ width ih =>
    have one : bit bytes (pos + width) < 2 := Nat.mod_lt _ (by decide)
    rw [bits, Nat.pow_succ]
    omega

/-- **A run of bits splits anywhere.** -/
theorem bits_add (bytes : Array UInt8) (pos first second : Nat) :
    bits bytes pos (first + second) =
      bits bytes pos first * 2 ^ second + bits bytes (pos + first) second := by
  induction second with
  | zero => simp [bits]
  | succ second ih =>
    rw [← Nat.add_assoc, bits, bits, ih, Nat.pow_succ, ← Nat.mul_assoc, Nat.add_assoc pos]
    omega

/-- The bits from the start of a byte on are its upper bits. -/
theorem bits_upper (bytes : Array UInt8) (offset : Nat) {width : Nat} (narrow : width ≤ 8) :
    bits bytes (8 * offset) width = (bytes.getD offset 0).toNat / 2 ^ (8 - width) := by
  induction width with
  | zero => exact (Nat.div_eq_of_lt (bytes.getD offset 0).toNat_lt).symm
  | succ width ih =>
    have place : (8 * offset + width) / 8 = offset ∧ (8 * offset + width) % 8 = width := by omega
    have halves : (2 : Nat) ^ (8 - width) = 2 ^ (8 - (width + 1)) * 2 := by
      rw [← Nat.pow_succ]
      congr 1
      omega
    rw [bits, ih (by omega), bit, place.1, place.2, Nat.shiftRight_eq_div_pow, halves,
      ← Nat.div_div_eq_div_mul, show 8 - (width + 1) = 7 - width by omega]
    exact Nat.div_add_mod _ 2

theorem bits_aligned (bytes : Array UInt8) (offset : Nat) :
    bits bytes (8 * offset) 8 = (bytes.getD offset 0).toNat :=
  (bits_upper bytes offset (Nat.le_refl 8)).trans (Nat.div_one _)

/-! ### Moving forward -/

/-- The reader `width` bits further on, or at the end of a shorter stream. -/
def forward (r : BitReader) (width : Nat) : BitReader :=
  { r with pos := min (r.pos + width) (8 * r.bytes.size), pos_le := Nat.min_le_right _ _ }

theorem forward_zero (r : BitReader) : r.forward 0 = r :=
  BitReader.ext rfl (Nat.min_eq_left r.pos_le)

theorem forward_forward (r : BitReader) (first second : Nat) :
    (r.forward first).forward second = r.forward (first + second) := by
  refine BitReader.ext rfl ?_
  simp only [forward]
  omega

theorem pos_forward {r : BitReader} {width : Nat} (fits : width ≤ r.remaining) :
    (r.forward width).pos = r.pos + width := by
  have bound := r.pos_le
  simp only [remaining] at fits
  simp only [forward]
  omega

theorem remaining_forward {r : BitReader} {width : Nat} (fits : width ≤ r.remaining) :
    (r.forward width).remaining = r.remaining - width := by
  rw [remaining, pos_forward fits, remaining]
  exact Nat.sub_add_eq _ _ _

theorem read_forward {r : BitReader} {width : Nat} (positive : 1 ≤ width) (narrow : width ≤ 16)
    (fits : width ≤ r.remaining) :
    read width r = .ok (bits r.bytes r.pos width) (r.forward width) := by
  have bound := r.pos_le
  have inside : r.pos + width ≤ 8 * r.bytes.size := by
    simp only [remaining] at fits
    omega
  rw [read_ok positive narrow inside]
  congr 1
  exact BitReader.ext rfl (Nat.min_eq_left inside).symm

theorem read_short {r : BitReader} {width : Nat} (positive : 1 ≤ width) (narrow : width ≤ 16)
    (short : r.remaining < width) : read width r = .error (.truncated r.bytes.size) r := by
  apply read_truncated positive narrow
  simp only [remaining] at short
  omega

/-! ### The bytes ahead -/

/-- `count` bytes of a stream from bit `pos` on. -/
def bytesFrom (bytes : Array UInt8) (pos : Nat) : Nat → List UInt8
  | 0 => []
  | count + 1 => (bits bytes pos 8).toUInt8 :: bytesFrom bytes (pos + 8) count

/-- The whole bytes ahead of a reader. -/
def upcoming (r : BitReader) : List UInt8 := bytesFrom r.bytes r.pos (r.remaining / 8)

/-- The reader stands in `stream` before the bytes `ahead` and `spare` bits more. -/
structure At (r : BitReader) (stream : Array UInt8) (spare : Nat) (ahead : List UInt8) : Prop where
  bytes : r.bytes = stream
  spare : r.remaining % 8 = spare
  ahead : r.upcoming = ahead

theorem length_bytesFrom (bytes : Array UInt8) (pos count : Nat) :
    (bytesFrom bytes pos count).length = count := by
  induction count generalizing pos with
  | zero => rfl
  | succ count ih => rw [bytesFrom, List.length_cons, ih]

theorem bytesFrom_aligned (bytes : Array UInt8) {offset count : Nat}
    (whole : offset + count = bytes.size) :
    bytesFrom bytes (8 * offset) count = bytes.toList.drop offset := by
  induction count generalizing offset with
  | zero => rw [bytesFrom, List.drop_of_length_le (by simp; omega)]
  | succ count ih =>
    have inside : offset < bytes.toList.length := by rw [Array.length_toList]; omega
    have head : (bits bytes (8 * offset) 8).toUInt8 = bytes.toList[offset] := by
      rw [bits_aligned, Nat.toUInt8_eq, UInt8.ofNat_toNat, Array.getElem_toList, Array.getD,
        dif_pos (by omega)]
      rfl
    rw [bytesFrom, List.drop_eq_getElem_cons inside, head,
      show 8 * offset + 8 = 8 * (offset + 1) by omega, ih (by omega)]

/-- **At the start of a byte the rest of the stream is ahead.** -/
theorem at_of_aligned {r : BitReader} (aligned : r.pos % 8 = 0) :
    r.At r.bytes 0 (r.bytes.toList.drop r.offset) := by
  have bound := r.pos_le
  refine ⟨rfl, ?_, ?_⟩
  · rw [remaining]
    omega
  · have start : r.pos = 8 * r.offset := by rw [offset]; omega
    rw [upcoming, start, bytesFrom_aligned]
    rw [remaining]
    omega

namespace At

variable {r r' : BitReader} {stream : Array UInt8} {spare : Nat} {ahead rest : List UInt8}
  {byte : UInt8}

theorem remaining_eq (here : r.At stream spare ahead) :
    r.remaining = 8 * ahead.length + spare := by
  have length := congrArg List.length here.ahead
  rw [upcoming, length_bytesFrom] at length
  have spare := here.spare
  omega

/-- The next byte ahead, as bits. -/
theorem bits_eq (here : r.At stream spare (byte :: rest)) : bits r.bytes r.pos 8 = byte.toNat := by
  have count := here.remaining_eq
  have found := here.ahead
  rw [upcoming, show r.remaining / 8 = rest.length + 1 by
    rw [count, List.length_cons]; have := here.spare; omega, bytesFrom] at found
  rw [← (List.cons.inj found).1]
  exact (Nat.mod_eq_of_lt (bits_lt _ _ 8)).symm

theorem fits (here : r.At stream spare (byte :: rest)) : 8 ≤ r.remaining := by
  rw [here.remaining_eq, List.length_cons]
  omega

theorem forward (here : r.At stream spare (byte :: rest)) : (r.forward 8).At stream spare rest := by
  have count := here.remaining_eq
  rw [List.length_cons] at count
  have small := here.spare
  have left := remaining_forward here.fits
  refine ⟨here.bytes, by omega, ?_⟩
  have found := here.ahead
  rw [upcoming, show r.remaining / 8 = rest.length + 1 by omega, bytesFrom] at found
  rw [upcoming, left, show (r.remaining - 8) / 8 = rest.length by omega, pos_forward here.fits]
  exact (List.cons.inj found).2

theorem readByte (here : r.At stream spare (byte :: rest)) :
    readByte r = .ok byte (r.forward 8) := by
  have taken := read_forward (by decide) (by decide) here.fits
  rw [here.bits_eq] at taken
  rw [BitReader.readByte, bind_ok taken, Nat.toUInt8_eq, UInt8.ofNat_toNat]
  rfl

theorem readByte_nil (here : r.At stream spare []) :
    BitReader.readByte r = .error (.truncated stream.size) r := by
  have count := here.remaining_eq
  have small := here.spare
  rw [BitReader.readByte, bind_error (read_short (by decide) (by decide) (by
    rw [List.length_nil] at count; omega)), here.bytes]

end At

/-! ### Bits inside a byte -/

/-- The reader stands `left` bits before the end of a byte, and these bits spell `held`. -/
structure Inside (r : BitReader) (left held : Nat) (stream : Array UInt8) (spare : Nat)
    (ahead : List UInt8) : Prop where
  fits : left ≤ r.remaining
  held : bits r.bytes r.pos left = held
  border : (r.forward left).At stream spare ahead

section Inside

variable {r : BitReader} {left held spare width : Nat} {stream : Array UInt8}
  {ahead rest : List UInt8} {byte : UInt8}

theorem At.enter (here : r.At stream spare (byte :: rest)) :
    r.Inside 8 byte.toNat stream spare rest :=
  ⟨here.fits, here.bits_eq, here.forward⟩

theorem At.border (here : r.At stream spare ahead) : r.Inside 0 0 stream spare ahead :=
  ⟨Nat.zero_le _, rfl, by rw [forward_zero]; exact here⟩

theorem Inside.leave (inside : r.Inside 0 held stream spare ahead) : r.At stream spare ahead := by
  have border := inside.border
  rw [forward_zero] at border
  exact border

/-- **A read inside a byte** takes the upper bits of what is left of it. -/
theorem Inside.read (inside : r.Inside left held stream spare ahead) (positive : 1 ≤ width)
    (narrow : width ≤ 16) (within : width ≤ left) :
    BitReader.read width r = .ok (held / 2 ^ (left - width)) (r.forward width) ∧
      (r.forward width).Inside (left - width) (held % 2 ^ (left - width)) stream spare ahead := by
  have fits := inside.fits
  have split := bits_add r.bytes r.pos width (left - width)
  rw [show width + (left - width) = left by omega, inside.held] at split
  have lower := bits_lt r.bytes (r.pos + width) (left - width)
  have positivePower : 0 < 2 ^ (left - width) := Nat.two_pow_pos _
  refine ⟨?_, ?_, ?_, ?_⟩
  · rw [read_forward positive narrow (by omega), split, Nat.mul_comm, Nat.mul_add_div positivePower,
      Nat.div_eq_of_lt lower, Nat.add_zero]
  · rw [remaining_forward (by omega)]
    omega
  · rw [pos_forward (by omega), split, Nat.mul_comm, Nat.mul_add_mod, Nat.mod_eq_of_lt lower]
    rfl
  · rw [forward_forward, show width + (left - width) = left by omega]
    exact inside.border

end Inside

/-! ### Agreement of bytes and bits -/

/-- What a reading of whole bytes came to agrees with what a computation on bits did. With bits to
spare at the end of the stream the two may report different errors. -/
def Agrees {α : Type} (stream : Array UInt8) (spare : Nat) :
    ByteReading.Outcome α → EStateM.Result DecodeError BitReader α → Prop
  | .taken value rest, .ok value' r => value' = value ∧ r.At stream spare rest
  | .refused refusal, .error cause _ => spare = 0 → cause = refusal.cause
  | .ended, .error cause _ => spare = 0 → cause = .truncated stream.size
  | .taken _ _, .error _ _ => False
  | .refused _, .ok _ _ => False
  | .ended, .ok _ _ => False

section Agreement

variable {α β : Type} {stream : Array UInt8} {spare : Nat} {ahead : List UInt8} {r : BitReader}

/-- Where the computation on bits succeeds, the reading takes bytes for the same value. -/
theorem taken_of_agrees {outcome : ByteReading.Outcome α} {value : α}
    (agrees : Agrees stream spare outcome (.ok value r)) :
    ∃ rest, outcome = .taken value rest ∧ r.At stream spare rest := by
  cases outcome with
  | taken value' rest =>
    obtain ⟨rfl, here⟩ := agrees
    exact ⟨rest, rfl, here⟩
  | refused refusal => exact agrees.elim
  | ended => exact agrees.elim

theorem agrees_bind {tree : ByteReading α} {after : α → ByteReading β} {reading : Reading α}
    {next : α → Reading β} (first : Agrees stream spare (tree.run ahead) (reading r))
    (rest : ∀ value left r', r'.At stream spare left →
      Agrees stream spare ((after value).run left) (next value r')) :
    Agrees stream spare ((tree.bind after).run ahead) ((reading >>= next) r) := by
  rw [ByteReading.run_bind]
  cases came : tree.run ahead with
  | taken value left =>
    cases result : reading r with
    | ok value' r' =>
      rw [came, result] at first
      obtain ⟨rfl, here⟩ := first
      rw [bind_ok result]
      exact rest value' left r' here
    | error cause r' =>
      rw [came, result] at first
      exact first.elim
  | refused refusal =>
    cases result : reading r with
    | ok value' r' =>
      rw [came, result] at first
      exact first.elim
    | error cause r' =>
      rw [came, result] at first
      rw [bind_error result]
      exact first
  | ended =>
    cases result : reading r with
    | ok value' r' =>
      rw [came, result] at first
      exact first.elim
    | error cause r' =>
      rw [came, result] at first
      rw [bind_error result]
      exact first

theorem agrees_perform (tree : ByteReading α) (here : r.At stream spare ahead) :
    Agrees stream spare (tree.run ahead) (tree.perform r) := by
  induction tree generalizing r ahead with
  | done value => exact ⟨rfl, here⟩
  | refuse refusal => exact fun _ => rfl
  | next further ih =>
    cases ahead with
    | nil =>
      rw [ByteReading.perform, bind_error here.readByte_nil]
      exact fun _ => rfl
    | cons byte rest =>
      rw [ByteReading.perform, bind_ok here.readByte]
      exact ih byte here.forward

end Agreement

end RealMode.BitReader
