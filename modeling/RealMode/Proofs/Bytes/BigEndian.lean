/-
**A stream is one big-endian number.** The bytes of a stream are the digits of a number in base 256,
the first one the most significant, and a read anywhere in the stream cuts its bits out of that
number. Reads one after another cut out bits that stand next to each other, so it does not matter
how the bits are grouped.

* `bits_eq_cut`: the bits at a position are those of the number, shifted and reduced.
* `take_drop_bitList`: they are also the ones that the bytes spell there.
* `readAll_ok`, `readAll_short`: what reads one after another come to.
* `read_bigEndian`: all of this, for any reader.
-/

import Mathlib.Data.List.Induction
import Mathlib.Data.Nat.Digits.Defs
import RealMode.Proofs.Bytes.Upcoming

namespace RealMode.BitReader

/-! ### Bits of a number -/

/-- The low `width` bits of a number, most significant first. -/
def msbs (width n : Nat) : List Bool := List.ofFn fun i : Fin width => n.testBit i.rev

theorem length_msbs (width n : Nat) : (msbs width n).length = width := List.length_ofFn

/-- Only the low bits count. -/
theorem msbs_congr {width m n : Nat} (same : m % 2 ^ width = n % 2 ^ width) :
    msbs width m = msbs width n := by
  unfold msbs
  refine congrArg List.ofFn (funext fun i => ?_)
  have bit := congrArg (Nat.testBit · i.rev) same
  simpa only [Nat.testBit_mod_two_pow, i.rev.isLt, decide_true, Bool.true_and] using bit

/-- Splitting a run of bits. -/
theorem msbs_add (first second n : Nat) :
    msbs (first + second) n = msbs first (n / 2 ^ second) ++ msbs second n := by
  unfold msbs
  rw [List.ofFn_add]
  congr 1
  · refine congrArg List.ofFn (funext fun i => ?_)
    rw [Nat.testBit_div_two_pow]
    congr 1
    simp only [Fin.val_rev, Fin.val_castLE]
    omega
  · refine congrArg List.ofFn (funext fun i => ?_)
    congr 1
    simp only [Fin.val_rev, Fin.val_natAdd]
    omega

/-- A number put behind another one. -/
theorem msbs_join {first second a b : Nat} (small : b < 2 ^ second) :
    msbs (first + second) (a * 2 ^ second + b) = msbs first a ++ msbs second b := by
  have positive : 0 < 2 ^ second := Nat.two_pow_pos second
  rw [msbs_add, Nat.mul_comm a, Nat.mul_add_div positive, Nat.div_eq_of_lt small, Nat.add_zero]
  congr 1
  exact msbs_congr (Nat.mul_add_mod _ _ _)

/-! ### The number of a stream -/

/-- The number that some bytes are, the first one the most significant. -/
def bigEndian (bytes : List UInt8) : Nat := Nat.ofDigits 256 (bytes.reverse.map UInt8.toNat)

theorem bigEndian_concat (bytes : List UInt8) (last : UInt8) :
    bigEndian (bytes ++ [last]) = bigEndian bytes * 2 ^ 8 + last.toNat := by
  simp only [bigEndian, List.reverse_append, List.reverse_singleton, List.singleton_append,
    List.map_cons, Nat.ofDigits_cons]
  omega

/-- The bits of a stream, most significant first in each byte. -/
def bitList (bytes : List UInt8) : List Bool := bytes.flatMap fun b => msbs 8 b.toNat

theorem bitList_eq (bytes : List UInt8) :
    bitList bytes = msbs (8 * bytes.length) (bigEndian bytes) := by
  induction bytes using List.reverseRecOn with
  | nil => rfl
  | append_singleton bytes last ih =>
    rw [bigEndian_concat, List.length_append, List.length_singleton, Nat.mul_add, Nat.mul_one,
      msbs_join last.toNat_lt, ← ih]
    simp [bitList]

section Cut

variable {bytes : Array UInt8} {pos width : Nat}

/-- The bits of the first bytes are the number of these bytes. -/
theorem bits_front {count : Nat} (inside : count ≤ bytes.size) :
    bits bytes 0 (8 * count) = bigEndian (bytes.toList.take count) := by
  induction count with
  | zero => rfl
  | succ count ih =>
    have last : bytes.toList[count]? = some (bytes.getD count 0) := by
      rw [Array.getElem?_toList, Array.getD_eq_getD_getElem?, Array.getElem?_eq_getElem inside]
      rfl
    have front := bits_add bytes 0 (8 * count) 8
    rw [Nat.zero_add, bits_aligned, ih (by omega)] at front
    rw [List.take_add_one, last, Option.toList_some, bigEndian_concat, ← front]
    rfl

/-- **The bits at a position are those of the number**, shifted and reduced. -/
theorem bits_eq_cut (fits : pos + width ≤ 8 * bytes.size) :
    bits bytes pos width =
      bigEndian bytes.toList / 2 ^ (8 * bytes.size - pos - width) % 2 ^ width := by
  obtain ⟨after, total⟩ := Nat.exists_eq_add_of_le fits
  have whole := @bits_front bytes _ (Nat.le_refl _)
  have rest := bits_add bytes 0 (pos + width) after
  have front := bits_add bytes 0 pos width
  rw [Nat.zero_add] at front rest
  rw [List.take_of_length_le (by simp), total, rest, front, Nat.mul_comm _ (2 ^ after)] at whole
  rw [← whole, show 8 * bytes.size - pos - width = after by omega,
    Nat.mul_add_div (Nat.two_pow_pos after), Nat.div_eq_of_lt (bits_lt bytes _ after), Nat.add_zero,
    Nat.mul_comm _ (2 ^ width), Nat.mul_add_mod, Nat.mod_eq_of_lt (bits_lt bytes pos width)]

/-- **The bits at a position are those that the bytes spell there.** -/
theorem take_drop_bitList (fits : pos + width ≤ 8 * bytes.size) :
    ((bitList bytes.toList).drop pos).take width = msbs width (bits bytes pos width) := by
  obtain ⟨after, total⟩ := Nat.exists_eq_add_of_le fits
  rw [bitList_eq, Array.length_toList, bits_eq_cut fits,
    show 8 * bytes.size - pos - width = after by omega, total, Nat.add_assoc, msbs_add, msbs_add,
    List.drop_left' (length_msbs _ _), List.take_left' (length_msbs _ _)]
  exact msbs_congr (Nat.mod_mod _ _).symm

end Cut

/-! ### Reads one after another -/

/-- The widths are those of reads. -/
def Readable (widths : List Nat) : Prop := ∀ width ∈ widths, 1 ≤ width ∧ width ≤ 16

instance (widths : List Nat) : Decidable (Readable widths) :=
  inferInstanceAs (Decidable (∀ width ∈ widths, 1 ≤ width ∧ width ≤ 16))

/-- Takes numbers of these widths one after another. -/
def readAll (widths : List Nat) : Reading (List Nat) := widths.mapM read

/-- Numbers written in their widths, one behind the other. -/
def written (widths values : List Nat) : List Bool := (List.zipWith msbs widths values).flatten

section Reads

variable {r r' : BitReader} {widths widths' values values' : List Nat} {width : Nat}

theorem readAll_cons (width : Nat) (widths : List Nat) :
    readAll (width :: widths) =
      read width >>= fun value => readAll widths >>= fun values => pure (value :: values) :=
  List.mapM_cons

/-- **Reads that fit take the bits ahead**, in numbers that fit their widths. -/
theorem readAll_ok (readable : Readable widths) (fits : widths.sum ≤ r.remaining) :
    ∃ values, readAll widths r = .ok values (r.forward widths.sum) ∧
      List.Forall₂ (fun width value => value < 2 ^ width) widths values ∧
      written widths values = msbs widths.sum (bits r.bytes r.pos widths.sum) := by
  induction widths generalizing r with
  | nil => exact ⟨[], by rw [List.sum_nil, forward_zero]; rfl, .nil, rfl⟩
  | cons width widths ih =>
    rw [List.sum_cons] at fits ⊢
    obtain ⟨positive, narrow⟩ := readable width List.mem_cons_self
    have here : width ≤ r.remaining := by omega
    have first := read_forward positive narrow here
    obtain ⟨values, rest, small, spells⟩ := ih (r := r.forward width)
      (fun later member => readable later (List.mem_cons_of_mem _ member))
      (by rw [remaining_forward here]; omega)
    refine ⟨bits r.bytes r.pos width :: values, ?_, .cons (bits_lt _ _ _) small, ?_⟩
    · rw [readAll_cons, bind_ok first, bind_ok rest, forward_forward]
      rfl
    · rw [bits_add, msbs_join (bits_lt _ _ _), ← pos_forward here]
      exact congrArg (msbs width _ ++ ·) spells

theorem readAll_short (readable : Readable widths) (short : r.remaining < widths.sum) :
    ∃ r', readAll widths r = .error (.truncated r.bytes.size) r' := by
  induction widths generalizing r with
  | nil => exact absurd short (Nat.not_lt_zero _)
  | cons width widths ih =>
    rw [List.sum_cons] at short
    obtain ⟨positive, narrow⟩ := readable width List.mem_cons_self
    by_cases here : width ≤ r.remaining
    · obtain ⟨r', failed⟩ := ih (r := r.forward width)
        (fun later member => readable later (List.mem_cons_of_mem _ member))
        (by rw [remaining_forward here]; omega)
      refine ⟨r', ?_⟩
      rw [readAll_cons, bind_ok (read_forward positive narrow here), bind_error failed]
      rfl
    · refine ⟨r, ?_⟩
      rw [readAll_cons, bind_error (read_short positive narrow (Nat.lt_of_not_le here))]

theorem readAll_iff (readable : Readable widths) :
    (∃ values r', readAll widths r = .ok values r') ↔ widths.sum ≤ r.remaining := by
  constructor
  · rintro ⟨values, r', taken⟩
    by_contra short
    obtain ⟨r'', failed⟩ := readAll_short readable (Nat.lt_of_not_le short)
    rw [failed] at taken
    cases taken
  · intro fits
    obtain ⟨values, taken, _⟩ := readAll_ok readable fits
    exact ⟨values, _, taken⟩

/-- What reads that succeed have taken. -/
theorem of_readAll (readable : Readable widths) (taken : readAll widths r = .ok values r') :
    r' = r.forward widths.sum ∧ r'.pos = r.pos + widths.sum ∧
      List.Forall₂ (fun width value => value < 2 ^ width) widths values ∧
      written widths values = ((bitList r.bytes.toList).drop r.pos).take widths.sum := by
  have fits := (readAll_iff readable).mp ⟨values, r', taken⟩
  obtain ⟨values', taken', small, spells⟩ := readAll_ok readable fits
  rw [taken] at taken'
  cases taken'
  have bound := r.pos_le
  have inside : r.pos + widths.sum ≤ 8 * r.bytes.size := by
    simp only [remaining] at fits
    omega
  exact ⟨rfl, pos_forward fits, small, by rw [take_drop_bitList inside, spells]⟩

end Reads

/-- **A stream is one big-endian number.** A read anywhere cuts its bits out of that number, or
fails and stays if they are not all there. Reads one after another succeed just when their widths
fit, their numbers spell the bits ahead, and how the widths group the bits makes no difference. -/
theorem read_bigEndian (r : BitReader) :
    (∀ width, 1 ≤ width → width ≤ 16 →
      (∀ fits : r.pos + width ≤ 8 * r.bytes.size,
        read width r =
          .ok (bigEndian r.bytes.toList / 2 ^ (8 * r.bytes.size - r.pos - width) % 2 ^ width)
            { r with pos := r.pos + width, pos_le := fits }) ∧
      (8 * r.bytes.size < r.pos + width → read width r = .error (.truncated r.bytes.size) r)) ∧
    ∀ widths, Readable widths →
      ((∃ values r', readAll widths r = .ok values r') ↔
        widths.sum ≤ 8 * r.bytes.size - r.pos) ∧
      (∀ values r', readAll widths r = .ok values r' →
        r'.bytes = r.bytes ∧ r'.pos = r.pos + widths.sum ∧
          List.Forall₂ (fun width value => value < 2 ^ width) widths values ∧
          written widths values = ((bitList r.bytes.toList).drop r.pos).take widths.sum) ∧
      ∀ widths', Readable widths' → widths'.sum = widths.sum →
        ∀ values r₁ values' r₂, readAll widths r = .ok values r₁ →
          readAll widths' r = .ok values' r₂ →
          written widths values = written widths' values' ∧ r₁ = r₂ := by
  refine ⟨fun width positive narrow => ⟨fun fits => ?_, read_truncated positive narrow⟩,
    fun widths readable => ⟨readAll_iff readable, fun values r' taken => ?_, ?_⟩⟩
  · rw [← bits_eq_cut fits]
    exact read_ok positive narrow fits
  · obtain ⟨rfl, moved, small, spells⟩ := of_readAll readable taken
    exact ⟨rfl, moved, small, spells⟩
  · intro widths' readable' total values r₁ values' r₂ taken taken'
    obtain ⟨rfl, _, _, spells⟩ := of_readAll readable taken
    obtain ⟨rfl, _, _, spells'⟩ := of_readAll readable' taken'
    rw [spells, spells', total]
    exact ⟨rfl, rfl⟩

/-- A reader inside the first of three bytes. -/
def nibble : BitReader := ⟨#[0xAB, 0xCD, 0xEF], 4, by decide⟩

theorem read_bigEndian_nibble :
    read 16 nibble = .ok (0xABCDEF / 2 ^ 4 % 2 ^ 16) ⟨nibble.bytes, 20, by decide⟩ ∧
      Readable [16, 4] ∧ Readable [3, 7, 10] ∧
      (readAll [16, 4] nibble = .ok [0xBCDE, 0xF] ⟨nibble.bytes, 24, by decide⟩) ∧
      written [16, 4] [0xBCDE, 0xF] = written [3, 7, 10] [0b101, 0b1110011, 0b0111101111] := by
  have two : Readable [16, 4] := by decide
  have three : Readable [3, 7, 10] := by decide
  have law := read_bigEndian nibble
  have first : readAll [16, 4] nibble = .ok [0xBCDE, 0xF] ⟨nibble.bytes, 24, by decide⟩ := by rfl
  have second : readAll [3, 7, 10] nibble =
    .ok [0b101, 0b1110011, 0b0111101111] ⟨nibble.bytes, 24, by decide⟩ := by rfl
  exact ⟨(law.1 16 (by decide) (by decide)).1 (by decide), two, three, first,
    ((law.2 _ two).2.2 _ three rfl _ _ _ _ first second).1⟩

end RealMode.BitReader
