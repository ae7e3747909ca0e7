/-
**Bytes and words.** A word is two bytes, the low one first; a byte stands for a signed word by
extending its sign.

* `low_ofBytes`, `high_ofBytes`, `ofBytes_low_high`: a word and its two bytes determine each other.
-/

namespace RealMode.Word

/-- The word with the given low and high byte. -/
def ofBytes (lo hi : UInt8) : UInt16 := lo.toUInt16 + hi.toUInt16 * 256

/-- The low byte of a word. -/
def low (w : UInt16) : UInt8 := w.toUInt8

/-- The high byte of a word. -/
def high (w : UInt16) : UInt8 := (w / 256).toUInt8

/-- The signed word with the given low and high byte. -/
def signed (lo hi : UInt8) : Int16 := (ofBytes lo hi).toInt16

/-- The byte read as a signed number, as a word. -/
def signExtend (b : UInt8) : Int16 := b.toInt8.toInt16

theorem toNat_ofBytes (lo hi : UInt8) : (ofBytes lo hi).toNat = lo.toNat + 256 * hi.toNat := by
  have loBound := lo.toNat_lt
  have hiBound := hi.toNat_lt
  simp only [ofBytes, UInt16.toNat_add, UInt16.toNat_mul, UInt8.toNat_toUInt16, UInt16.toNat_ofNat]
  omega

theorem toNat_low (w : UInt16) : (low w).toNat = w.toNat % 256 := by
  simp [low]

theorem toNat_high (w : UInt16) : (high w).toNat = w.toNat / 256 := by
  have bound := w.toNat_lt
  simp only [high, UInt16.toNat_toUInt8, UInt16.toNat_div, UInt16.toNat_ofNat, Nat.reducePow,
    Nat.reduceMod]
  omega

theorem low_ofBytes (lo hi : UInt8) : low (ofBytes lo hi) = lo := by
  have bound := lo.toNat_lt
  apply UInt8.toNat_inj.mp
  rw [toNat_low, toNat_ofBytes]
  omega

theorem high_ofBytes (lo hi : UInt8) : high (ofBytes lo hi) = hi := by
  have bound := lo.toNat_lt
  apply UInt8.toNat_inj.mp
  rw [toNat_high, toNat_ofBytes]
  omega

theorem ofBytes_low_high (w : UInt16) : ofBytes (low w) (high w) = w := by
  apply UInt16.toNat_inj.mp
  rw [toNat_ofBytes, toNat_low, toNat_high]
  omega

end RealMode.Word
