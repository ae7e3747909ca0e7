/-
**Numerals.** A natural number written in a base of at least two, most significant digit first and
without leading zeros, with lower-case letters for the digits past nine; the fixed-width and signed
forms are built on it.

* `length_padded`: a padded numeral is never shorter than the width asked for.
* `text_injective`: in bases two to ten, different numbers have different numerals.
* `signed_injective`: different integers have different decimal numerals.
-/

namespace RealMode.Numeral

/-- The digits of `n` in `base`. -/
def digits (base n : Nat) : List Char := Nat.toDigits base n

/-- The digits of `n` in `base`, filled up with zeros on the left to `width` places. -/
def padded (base width n : Nat) : List Char := (digits base n).leftpad width '0'

/-- The numeral of `n` in `base`. -/
def text (base n : Nat) : String := String.ofList (digits base n)

/-- The numeral of `n` in `base`, at least `width` places wide. -/
def paddedText (base width n : Nat) : String := String.ofList (padded base width n)

/-- The decimal numeral of a natural number. -/
def decimal (n : Nat) : String := text 10 n

/-- The decimal numeral of an integer: a minus sign before the magnitude of a negative one. -/
def signed (i : Int) : String := if i < 0 then "-" ++ decimal i.natAbs else decimal i.natAbs

/-- Hexadecimal with the mark `0x`; the mark counts toward `width`. -/
def marked (width n : Nat) : String := "0x" ++ paddedText 16 (width - 2) n

theorem length_padded (base width n : Nat) : width ≤ (padded base width n).length := by
  simp only [padded, List.leftpad, List.length_append, List.length_replicate]
  omega

theorem text_injective {base m n : Nat} (two : 1 < base) (ten : base ≤ 10)
    (same : text base m = text base n) : m = n := by
  have digitsSame : Nat.toDigits base m = Nat.toDigits base n := String.ofList_injective same
  rw [← Nat.ofDigitChars_toDigits (n := m) two ten, digitsSame, Nat.ofDigitChars_toDigits two ten]

/-- The last digit of a numeral is the remainder by the base. -/
theorem digits_split {base n : Nat} (two : 1 < base) (large : base ≤ n) :
    digits base n = digits base (n / base) ++ [(n % base).digitChar] := by
  have last : n % base < base := Nat.mod_lt _ (by omega)
  have front : 0 < n / base := Nat.div_pos large (by omega)
  have whole : base * (n / base) + n % base = n := Nat.div_add_mod n base
  rw [digits, digits, ← Nat.toDigits_of_lt_base (b := base) last,
    Nat.toDigits_append_toDigits two front last, whole]

/-! ### Decimal numerals -/

theorem isDigit_of_mem_decimal {n : Nat} {c : Char} (member : c ∈ (decimal n).toList) :
    c.isDigit := by
  rw [decimal, text, String.toList_ofList] at member
  exact Nat.isDigit_of_mem_toDigits (by decide) (by decide) member

theorem eq_of_decimal {m n : Nat} (same : (decimal m).toList = (decimal n).toList) : m = n :=
  text_injective (by decide) (by decide) (String.toList_inj.mp same)

theorem decimal_ne_nil (n : Nat) : (decimal n).toList ≠ [] := by
  rw [decimal, text, String.toList_ofList]
  exact Nat.toDigits_ne_nil

theorem toList_signed (i : Int) :
    (signed i).toList =
      if i < 0 then '-' :: (decimal i.natAbs).toList else (decimal i.natAbs).toList := by
  unfold signed
  split
  · rw [String.toList_append]
    rfl
  · rfl

/-- A numeral without a sign does not start with one. -/
theorem decimal_ne_minus (n : Nat) (rest : List Char) : (decimal n).toList ≠ '-' :: rest := by
  intro same
  have digit : ('-' : Char).isDigit :=
    isDigit_of_mem_decimal (n := n) (by rw [same]; exact List.mem_cons_self)
  cases digit

theorem signed_injective {i j : Int} (same : signed i = signed j) : i = j := by
  have lists := congrArg String.toList same
  rw [toList_signed, toList_signed] at lists
  split at lists
  · split at lists
    · have magnitude := eq_of_decimal (List.cons.inj lists).2
      omega
    · exact absurd lists.symm (decimal_ne_minus _ _)
  · split at lists
    · exact absurd lists (decimal_ne_minus _ _)
    · have magnitude := eq_of_decimal lists
      omega

end RealMode.Numeral
