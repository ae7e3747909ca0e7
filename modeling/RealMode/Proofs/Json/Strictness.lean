/-
**Only JSON tokens are scanned.** Whatever place of a token the scanner stands at, a text that it
can read to the end goes on with the rest of that token and then with other tokens, each in one of
its spellings.

* `numberRest_cons`, `continues_step`: what follows a character, with the character in front.
* `continues_of_read`: what the scanner has read is a layout of the tokens that it found.
* `Token.ofText?_iff`: some tokens are found in exactly their texts.
-/

import RealMode.Proofs.Json.Grammar

namespace RealMode.Json

/-! ### Characters -/

theorem toNat_le {c d : Char} (le : c ≤ d) : c.toNat ≤ d.toNat :=
  UInt32.le_iff_toNat_le.mp (Char.le_def.mp le)

theorem of_digit? {c : Char} {d : Nat} (value : digit? c = some d) :
    c.isDigit ∧ d = c.toNat - '0'.toNat ∧ d < 10 ∧ c = d.digitChar := by
  unfold digit? at value
  split at value
  · rename_i range
    cases value
    have low : 48 ≤ c.toNat := toNat_le range.1
    have high : c.toNat ≤ 57 := toNat_le range.2
    have zero : '0'.toNat = 48 := rfl
    refine ⟨by simpa [Char.isDigit, Char.le_def] using range, rfl, by omega, ?_⟩
    apply Char.toNat_inj.mp
    rw [Nat.toNat_digitChar_of_lt_ten (by omega)]
    omega
  · cases value

theorem isHexDigit_of_hexDigit? {c : Char} {d : Nat} (value : hexDigit? c = some d) :
    IsHexDigit c d := by
  have table : ∀ n : Fin 103, ∀ d ∈ hexDigit? (Char.ofNat n), d < 16 ∧
      (Char.ofNat n = d.digitChar ∨ Char.ofNat n = d.digitChar.toUpper) := by decide
  have small : c.toNat ≤ 102 := by
    unfold hexDigit? at value
    split at value
    · rename_i range
      exact Nat.le_trans (toNat_le range.2) (by decide)
    · split at value
      · rename_i range
        exact toNat_le range.2
      · split at value
        · rename_i range
          exact Nat.le_trans (toNat_le range.2) (by decide)
        · cases value
  have found := table ⟨c.toNat, by omega⟩ d (by simpa using value)
  rwa [Char.ofNat_toNat] at found

theorem mem_shortEscapes {letter c : Char} (meant : escaped? letter = some c) :
    (letter, c) ∈ shortEscapes := by
  unfold escaped? at meant
  unfold shortEscapes
  grind

theorem spelled_of_mark? {c : Char} {token : Token} (mark : mark? c = some token) :
    token.Spelled [c] := by
  rcases eq_of_mark (by rw [mark]; rfl) with rfl | rfl | rfl | rfl | rfl | rfl <;>
    · cases mark
      constructor

/-! ### Numbers -/

/-- Digits behind a positive number make a longer number. -/
theorem digits_append {n : Nat} (positive : 0 < n) {digits : List Char}
    (decimal : ∀ c ∈ digits, c.isDigit) :
    Numeral.digits 10 n ++ digits = Numeral.digits 10 (Nat.ofDigitChars 10 digits n) := by
  induction digits generalizing n with
  | nil => rw [List.append_nil]; rfl
  | cons c digits ih =>
    obtain ⟨d, value⟩ := Scanner.digit?_isDigit (decimal c List.mem_cons_self)
    obtain ⟨_, amount, small, written⟩ := of_digit? value
    have next := ih (n := 10 * n + d) (by omega)
      fun c member => decimal c (List.mem_cons_of_mem _ member)
    rw [Numeral.digits_split (by decide) (by omega), show (10 * n + d) / 10 = n by omega,
      show (10 * n + d) % 10 = d by omega, ← written, List.append_assoc] at next
    rw [Nat.ofDigitChars_cons, ← amount]
    exact next

/-- What follows `part` in the text of a number that comes to `value'`, where the scanner stands
behind `part` with `value`. -/
def NumberRest (part : NumberPart) (value value' : Option Nat) (text : List Char) : Prop :=
  match part with
  | .sign => ∃ n fraction exponent, IsFraction fraction ∧ IsExponent exponent ∧
    text = Numeral.digits 10 n ++ fraction ++ exponent ∧ value' = none
  | .zero => ∃ fraction exponent, IsFraction fraction ∧ IsExponent exponent ∧
    text = fraction ++ exponent ∧ value' = if text = [] then value else none
  | .integer => ∃ digits fraction exponent, (∀ c ∈ digits, c.isDigit) ∧ IsFraction fraction ∧
    IsExponent exponent ∧ text = digits ++ fraction ++ exponent ∧
    value' = if fraction ++ exponent = [] then value.map (Nat.ofDigitChars 10 digits) else none
  | .point => ∃ digits exponent, IsDigits digits ∧ IsExponent exponent ∧
    text = digits ++ exponent ∧ value' = none
  | .fraction => ∃ digits exponent, (∀ c ∈ digits, c.isDigit) ∧ IsExponent exponent ∧
    text = digits ++ exponent ∧ value' = if text = [] then value else none
  | .mark => ∃ sign digits, (sign = [] ∨ sign = ['+'] ∨ sign = ['-']) ∧ IsDigits digits ∧
    text = sign ++ digits ∧ value' = none
  | .markSign => IsDigits text ∧ value' = none
  | .exponent => (∀ c ∈ text, c.isDigit) ∧ value' = if text = [] then value else none

/-- A number may end where it is complete. -/
theorem numberRest_nil {part : NumberPart} (complete : part.complete) (value : Option Nat) :
    NumberRest part value value [] := by
  cases part with
  | sign | point | mark | markSign => cases complete
  | zero => exact ⟨[], [], .absent, .absent, rfl, rfl⟩
  | integer => exact ⟨[], [], [], nofun, .absent, .absent, rfl, by cases value <;> rfl⟩
  | fraction => exact ⟨[], [], nofun, .absent, rfl, rfl⟩
  | exponent => exact ⟨nofun, rfl⟩

/-- Where a number goes on. -/
theorem numberNext?_cases {part : NumberPart} {value : Option Nat} {c : Char} {place : Place}
    (next : numberNext? part value c = some place) :
    (part = .sign ∧ ∃ d, digit? c = some d ∧
      place = .number (if d = 0 then .zero else .integer) none) ∨
    (part = .integer ∧ ∃ d, digit? c = some d ∧
      place = .number .integer (value.map fun v => 10 * v + d)) ∨
    ((part = .point ∨ part = .fraction) ∧ c.isDigit ∧ place = .number .fraction none) ∨
    ((part = .mark ∨ part = .markSign ∨ part = .exponent) ∧ c.isDigit ∧
      place = .number .exponent none) ∨
    ((part = .zero ∨ part = .integer) ∧ c = '.' ∧ place = .number .point none) ∨
    ((part = .zero ∨ part = .integer ∨ part = .fraction) ∧ (c = 'e' ∨ c = 'E') ∧
      place = .number .mark none) ∨
    (part = .mark ∧ (c = '+' ∨ c = '-') ∧ place = .number .markSign none) := by
  have digit := fun d (value : digit? c = some d) => (of_digit? value).1
  unfold numberNext? isExponentMark at next
  cases part <;> cases found : digit? c <;> grind

theorem isDigits_cons {c : Char} {digits : List Char} (digit : c.isDigit)
    (all : ∀ c ∈ digits, c.isDigit) : IsDigits (c :: digits) :=
  ⟨List.cons_ne_nil _ _, List.forall_mem_cons.mpr ⟨digit, all⟩⟩

/-- Behind a digit that is no zero, more digits make a natural number. -/
theorem digits_cons {c : Char} {d : Nat} (value : digit? c = some d) (positive : d ≠ 0)
    {digits : List Char} (decimal : ∀ c ∈ digits, c.isDigit) :
    c :: digits = Numeral.digits 10 (Nat.ofDigitChars 10 digits d) := by
  obtain ⟨_, _, small, written⟩ := of_digit? value
  have single : Numeral.digits 10 d = [c] := by
    rw [Numeral.digits, Nat.toDigits_of_lt_base small, ← written]
  rw [← digits_append (Nat.pos_of_ne_zero positive) decimal, single, List.singleton_append]

theorem eq_zero_of_digit? {c : Char} (value : digit? c = some 0) : c = '0' :=
  (of_digit? value).2.2.2

/-- The first digit behind a sign. -/
theorem numberRest_sign {value value' : Option Nat} {c : Char} {d : Nat} {text : List Char}
    (digit : digit? c = some d)
    (rest : NumberRest (if d = 0 then .zero else .integer) none value' text) :
    NumberRest .sign value value' (c :: text) := by
  by_cases zero : d = 0
  · subst zero
    obtain ⟨fraction, exponent, fractional, exponential, rfl, rfl⟩ := rest
    obtain rfl := eq_zero_of_digit? digit
    exact ⟨0, fraction, exponent, fractional, exponential, rfl, ite_self _⟩
  · rw [if_neg zero] at rest
    obtain ⟨digits, fraction, exponent, all, fractional, exponential, rfl, rfl⟩ := rest
    refine ⟨Nat.ofDigitChars 10 digits d, fraction, exponent, fractional, exponential, ?_,
      ite_self _⟩
    rw [← digits_cons digit zero all]
    rfl

/-- One character more in front of the rest of a number. -/
theorem numberRest_cons {part part' : NumberPart} {value value' value'' : Option Nat} {c : Char}
    {text : List Char} (next : numberNext? part value c = some (.number part' value'))
    (rest : NumberRest part' value' value'' text) : NumberRest part value value'' (c :: text) := by
  -- First the digits: behind a sign, of the integer, of the fraction, of the exponent.
  rcases numberNext?_cases next with ⟨rfl, d, digit, place⟩ | ⟨rfl, d, digit, place⟩ |
    ⟨before, digit, place⟩ | ⟨before, digit, place⟩ | ⟨before, rfl, place⟩ |
    ⟨before, named, place⟩ | ⟨rfl, signed, place⟩ <;> cases place
  · exact numberRest_sign digit rest
  · obtain ⟨digits, fraction, exponent, all, fractional, exponential, rfl, rfl⟩ := rest
    obtain ⟨decimal, amount, _⟩ := of_digit? digit
    have whole : Nat.ofDigitChars 10 (c :: digits) =
        Nat.ofDigitChars 10 digits ∘ fun v => 10 * v + d :=
      funext fun v => by rw [Nat.ofDigitChars_cons, amount, Function.comp_apply]
    refine ⟨c :: digits, fraction, exponent, List.forall_mem_cons.mpr ⟨decimal, all⟩, fractional,
      exponential, rfl, ?_⟩
    rw [Option.map_map, whole]
  · obtain ⟨digits, exponent, all, exponential, rfl, rfl⟩ := rest
    rcases before with rfl | rfl
    · exact ⟨c :: digits, exponent, isDigits_cons digit all, exponential, rfl, by simp⟩
    · exact ⟨c :: digits, exponent, List.forall_mem_cons.mpr ⟨digit, all⟩, exponential, rfl,
        by simp⟩
  · obtain ⟨all, rfl⟩ := rest
    rcases before with rfl | rfl | rfl
    · exact ⟨[], c :: text, .inl rfl, isDigits_cons digit all, rfl, by simp⟩
    · exact ⟨isDigits_cons digit all, by simp⟩
    · exact ⟨List.forall_mem_cons.mpr ⟨digit, all⟩, by simp⟩
  · obtain ⟨digits, exponent, some, exponential, rfl, rfl⟩ := rest
    rcases before with rfl | rfl
    · exact ⟨'.' :: digits, exponent, .point some, exponential, rfl, by simp⟩
    · exact ⟨[], '.' :: digits, exponent, nofun, .point some, exponential, rfl, by simp⟩
  · obtain ⟨sign, digits, signed, some, rfl, rfl⟩ := rest
    have exponential : IsExponent (c :: (sign ++ digits)) := .mark named signed some
    rcases before with rfl | rfl | rfl
    · exact ⟨[], _, .absent, exponential, rfl, by simp⟩
    · exact ⟨[], [], _, nofun, .absent, exponential, rfl, by simp⟩
    · exact ⟨[], _, nofun, exponential, rfl, by simp⟩
  · obtain ⟨some, rfl⟩ := rest
    refine ⟨[c], text, ?_, some, rfl, rfl⟩
    rcases signed with rfl | rfl
    · exact .inr (.inl rfl)
    · exact .inr (.inr rfl)

/-! ### The rest of a text -/

/-- What follows in a text whose scanner stands at `place`, where `tokens` are still to be found. -/
def Place.Continues (place : Place) (tokens : List Token) (text : List Char) : Prop :=
  match place with
  | .between => Layout tokens text
  | .word rest token => ∃ others later, tokens = token :: others ∧ text = rest ++ later ∧
    rest ≠ [] ∧ Layout others later
  | .number part value => ∃ value' here others later, tokens = .number value' :: others ∧
    text = here ++ later ∧ NumberRest part value value' here ∧ Layout others later
  | .string s => ∃ pieces here others later,
    tokens = .string (pieces.foldl Spelling.take s).finish :: others ∧
    text = here ++ '"' :: later ∧ ArePieces pieces here ∧ Layout others later
  | .escape s => ∃ piece escape pieces here others later,
    tokens = .string ((piece :: pieces).foldl Spelling.take s).finish :: others ∧
    text = escape ++ here ++ '"' :: later ∧ Piece.IsText piece ('\\' :: escape) ∧
    ArePieces pieces here ∧ Layout others later
  -- The last digit is read with one digit left, but also with none.
  | .unit s left value => ∃ digits values pieces here others later,
    tokens = .string ((Piece.unit (values.foldl (16 * · + ·) value) :: pieces).foldl
      Spelling.take s).finish :: others ∧
    text = digits ++ here ++ '"' :: later ∧ digits.length = max left 1 ∧
    List.Forall₂ IsHexDigit digits values ∧ ArePieces pieces here ∧ Layout others later

namespace Scanner

/-- The tokens of a text that goes on with `text`, if the scanner has come so far. -/
def Continues (s : Scanner) (tokens : List Token) (text : List Char) : Prop :=
  ∃ later, tokens = s.found.reverse ++ later ∧ s.place.Continues later text

theorem continues_emit {s : Scanner} {token : Token} {tokens : List Token} {text : List Char}
    (continues : (s.emit token).Continues tokens text) :
    ∃ others, tokens = s.found.reverse ++ token :: others ∧ Layout others text := by
  obtain ⟨others, rfl, layout⟩ := continues
  exact ⟨others, by simp [emit], layout⟩

end Scanner

/-! ### The first character of a token -/

theorem layout_blank {c : Char} (blank : isBlank c) {tokens : List Token} {text : List Char}
    (layout : Layout tokens text) : Layout tokens (c :: text) := by
  cases layout with
  | done blanks => exact .done (List.forall_mem_cons.mpr ⟨blank, blanks⟩)
  | token blanks spelled others =>
    exact .token (List.forall_mem_cons.mpr ⟨blank, blanks⟩) spelled others

theorem layout_token {token : Token} {tokens : List Token} {spelling text : List Char}
    (spelled : token.Spelled spelling) (others : Layout tokens text) :
    Layout (token :: tokens) (spelling ++ text) :=
  @Layout.token token tokens [] spelling text nofun spelled others

/-- How a token that is more than a mark starts. -/
theorem opening?_cases {c : Char} {place : Place} (opens : opening? c = some place) :
    (c = '"' ∧ place = .string {}) ∨
    (c = 'n' ∧ place = .word ['u', 'l', 'l'] .null) ∨
    (c = 't' ∧ place = .word ['r', 'u', 'e'] (.bool true)) ∨
    (c = 'f' ∧ place = .word ['a', 'l', 's', 'e'] (.bool false)) ∨
    (c = '-' ∧ place = .number .sign none) ∨
    (c = '0' ∧ place = .number .zero (some 0)) ∨
    ∃ d, digit? c = some d ∧ d ≠ 0 ∧ place = .number .integer (some d) := by
  unfold opening? at opens
  split_ifs at opens with quote n t f minus zero
  case neg =>
    obtain ⟨d, digit, rfl⟩ := Option.map_eq_some_iff.mp opens
    have positive : d ≠ 0 := by
      rintro rfl
      exact zero (eq_zero_of_digit? digit)
    simp [digit, positive]
  all_goals
    cases opens
    simp [*]

theorem isNumber_opening {c : Char} {part : NumberPart} {value value' : Option Nat}
    {text : List Char} (opens : opening? c = some (.number part value))
    (rest : NumberRest part value value' text) : IsNumber value' (c :: text) := by
  rcases opening?_cases opens with ⟨_, place⟩ | ⟨_, place⟩ | ⟨_, place⟩ | ⟨_, place⟩ |
    ⟨rfl, place⟩ | ⟨rfl, place⟩ | ⟨d, digit, positive, place⟩ <;> cases place
  · obtain ⟨n, fraction, exponent, fractional, exponential, rfl, rfl⟩ := rest
    exact .parts n (.inr rfl) fractional exponential
  · obtain ⟨fraction, exponent, fractional, exponential, rfl, rfl⟩ := rest
    exact .parts 0 (.inl rfl) fractional exponential
  · obtain ⟨digits, fraction, exponent, all, fractional, exponential, rfl, rfl⟩ := rest
    have number := IsNumber.parts (Nat.ofDigitChars 10 digits d) (.inl rfl) fractional exponential
    rwa [List.nil_append, List.nil_append, ← digits_cons digit positive all] at number

theorem layout_opening {c : Char} {place : Place} {tokens : List Token} {text : List Char}
    (opens : opening? c = some place) (rest : place.Continues tokens text) :
    Layout tokens (c :: text) := by
  rcases opening?_cases opens with ⟨rfl, rfl⟩ | ⟨rfl, rfl⟩ | ⟨rfl, rfl⟩ | ⟨rfl, rfl⟩ |
    ⟨_, rfl⟩ | ⟨_, rfl⟩ | ⟨_, _, _, rfl⟩
  · obtain ⟨pieces, here, others, later, rfl, rfl, spelled, layout⟩ := rest
    have string : IsString (pieces.foldl Spelling.take {}).finish ('"' :: (here ++ ['"'])) := by
      rw [Spelling.finish_pieces]
      exact .quoted spelled
    simpa using layout_token (.string string) layout
  · obtain ⟨others, later, rfl, rfl, _, layout⟩ := rest
    exact layout_token .null layout
  · obtain ⟨others, later, rfl, rfl, _, layout⟩ := rest
    exact layout_token .yes layout
  · obtain ⟨others, later, rfl, rfl, _, layout⟩ := rest
    exact layout_token .no layout
  all_goals
    obtain ⟨value', here, others, later, rfl, rfl, number, layout⟩ := rest
    exact layout_token (.number (isNumber_opening opens number)) layout

namespace Scanner

/-! ### One character -/

variable {s s' : Scanner} {found tokens : List Token} {c : Char} {text : List Char}

theorem continues_stepBetween (steps : s.stepBetween c = some s')
    (continues : s'.Continues tokens text) :
    ∃ later, tokens = s.found.reverse ++ later ∧ Layout later (c :: text) := by
  unfold stepBetween at steps
  split at steps
  · rename_i blank
    cases steps
    obtain ⟨later, rfl, layout⟩ := continues
    exact ⟨later, rfl, layout_blank blank layout⟩
  · cases mark : mark? c with
    | some token =>
      simp only [mark, Option.some.injEq] at steps
      subst steps
      obtain ⟨others, rfl, layout⟩ := continues_emit continues
      exact ⟨token :: others, rfl, layout_token (spelled_of_mark? mark) layout⟩
    | none =>
      rw [mark] at steps
      obtain ⟨place, opens, rfl⟩ := Option.map_eq_some_iff.mp steps
      obtain ⟨later, rfl, rest⟩ := continues
      exact ⟨later, rfl, layout_opening opens rest⟩

/-- In a number. -/
theorem continues_number {part : NumberPart} {value : Option Nat}
    (steps : step ⟨found, .number part value⟩ c = some s') (continues : s'.Continues tokens text) :
    Continues ⟨found, .number part value⟩ tokens (c :: text) := by
  cases next : numberNext? part value c with
  | some place =>
    simp only [step, next, goTo, Option.some.injEq] at steps
    subst steps
    obtain ⟨part', value', rfl⟩ : ∃ part' value', place = .number part' value' := by
      rcases numberNext?_cases next with ⟨_, _, _, place⟩ | ⟨_, _, _, place⟩ | ⟨_, _, place⟩ |
        ⟨_, _, place⟩ | ⟨_, _, place⟩ | ⟨_, _, place⟩ | ⟨_, _, place⟩ <;> exact ⟨_, _, place⟩
    obtain ⟨_, rfl, value'', here, others, later, rfl, rfl, rest, layout⟩ := continues
    exact ⟨_, rfl, value'', c :: here, others, later, rfl, rfl, numberRest_cons next rest, layout⟩
  | none =>
    simp only [step, next, Option.ite_none_right_eq_some] at steps
    obtain ⟨complete, steps⟩ := steps
    obtain ⟨others, rfl, layout⟩ := continues_stepBetween steps continues
    refine ⟨.number value :: others, by simp [emit], ?_⟩
    exact ⟨value, [], others, c :: text, rfl, rfl, numberRest_nil complete value, layout⟩

/-- In a string. -/
theorem continues_string {spelling : Spelling}
    (steps : step ⟨found, .string spelling⟩ c = some s') (continues : s'.Continues tokens text) :
    Continues ⟨found, .string spelling⟩ tokens (c :: text) := by
  simp only [step] at steps
  split at steps
  · rename_i quote
    cases steps
    subst quote
    obtain ⟨others, rfl, layout⟩ := continues_emit continues
    exact ⟨_, rfl, [], [], others, text, rfl, rfl, .none, layout⟩
  · split at steps
    · rename_i backslash
      cases steps
      subst backslash
      obtain ⟨_, rfl, piece, escape, pieces, here, others, later, rfl, rfl, spelled, more,
        layout⟩ := continues
      refine ⟨_, rfl, piece :: pieces, '\\' :: escape ++ here, others, later, rfl, ?_, ?_, layout⟩
      · simp
      · exact .piece spelled more
    · split at steps
      · cases steps
      · rename_i noQuote noBackslash noControl
        cases steps
        obtain ⟨_, rfl, pieces, here, others, later, rfl, rfl, more, layout⟩ := continues
        refine ⟨_, rfl, .char c :: pieces, [c] ++ here, others, later, rfl, rfl, ?_, layout⟩
        exact .piece (.plain noQuote noBackslash (Nat.not_lt.mp noControl)) more

/-- Behind a backslash. -/
theorem continues_escape {spelling : Spelling}
    (steps : step ⟨found, .escape spelling⟩ c = some s') (continues : s'.Continues tokens text) :
    Continues ⟨found, .escape spelling⟩ tokens (c :: text) := by
  simp only [step] at steps
  split at steps
  · rename_i named
    cases steps
    subst named
    obtain ⟨_, rfl, digits, values, pieces, here, others, later, rfl, rfl, four, digital, more,
      layout⟩ := continues
    obtain ⟨a, b, c, d, rfl⟩ : ∃ a b c d, digits = [a, b, c, d] := List.length_eq_four.mp four
    obtain _ | ⟨first, _ | ⟨second, _ | ⟨third, _ | ⟨fourth, _ | _⟩⟩⟩⟩ := digital
    refine ⟨_, rfl, _, ['u', a, b, c, d], pieces, here, others, later, rfl, rfl, ?_, more, layout⟩
    simpa using Piece.IsText.unit first second third fourth
  · obtain ⟨meant, listed, rfl⟩ := Option.map_eq_some_iff.mp steps
    obtain ⟨_, rfl, pieces, here, others, later, rfl, rfl, more, layout⟩ := continues
    exact ⟨_, rfl, .char meant, [c], pieces, here, others, later, rfl, rfl,
      .short (mem_shortEscapes listed), more, layout⟩

/-- In the digits of an escape. -/
theorem continues_unit {spelling : Spelling} {left value : Nat}
    (steps : step ⟨found, .unit spelling left value⟩ c = some s')
    (continues : s'.Continues tokens text) :
    Continues ⟨found, .unit spelling left value⟩ tokens (c :: text) := by
  obtain ⟨d, digit, after⟩ := Option.map_eq_some_iff.mp steps
  have here : IsHexDigit c d := isHexDigit_of_hexDigit? digit
  split at after
  · subst after
    obtain ⟨_, rfl, pieces, text, others, later, rfl, rfl, more, layout⟩ := continues
    exact ⟨_, rfl, [c], [d], pieces, text, others, later, rfl, rfl,
      by simp only [List.length_singleton]; omega, .cons here .nil, more, layout⟩
  · subst after
    obtain ⟨_, rfl, digits, values, pieces, text, others, later, rfl, rfl, count, digital, more,
      layout⟩ := continues
    exact ⟨_, rfl, c :: digits, d :: values, pieces, text, others, later, rfl, rfl,
      by simp only [List.length_cons]; omega, .cons here digital, more, layout⟩

/-- **What is read goes on one character before.** -/
theorem continues_step (steps : s.step c = some s') (continues : s'.Continues tokens text) :
    s.Continues tokens (c :: text) := by
  obtain ⟨found, place⟩ := s
  cases place with
  | between => exact continues_stepBetween steps continues
  | word rest token =>
    match rest with
    | [] => cases steps
    | [last] =>
      obtain ⟨rfl, rfl⟩ : c = last ∧ emit _ token = s' := by simpa [step] using steps
      obtain ⟨others, rfl, layout⟩ := continues_emit continues
      exact ⟨_, rfl, others, text, rfl, rfl, List.cons_ne_nil _ _, layout⟩
    | next :: second :: rest =>
      obtain ⟨rfl, rfl⟩ : c = next ∧ goTo _ (.word (second :: rest) token) = s' := by
        simpa [step] using steps
      obtain ⟨_, rfl, others, later, rfl, rfl, _, layout⟩ := continues
      exact ⟨_, rfl, others, later, rfl, rfl, List.cons_ne_nil _ _, layout⟩
  | number part value => exact continues_number steps continues
  | string spelling => exact continues_string steps continues
  | escape spelling => exact continues_escape steps continues
  | unit spelling left value => exact continues_unit steps continues

/-! ### A text -/

theorem continues_of_finish (ended : s.finish = some tokens) : s.Continues tokens [] := by
  obtain ⟨found, place⟩ := s
  cases place with
  | between =>
    cases ended
    exact ⟨[], by simp, .done nofun⟩
  | number part value =>
    obtain ⟨complete, rfl⟩ : part.complete ∧ (found.reverse ++ [.number value]) = tokens := by
      simpa [finish, emit] using ended
    exact ⟨[.number value], rfl, value, [], [], [], rfl, rfl, numberRest_nil complete value,
      .done nofun⟩
  | _ => cases ended

/-- **What the scanner has read is a layout of the tokens that it found.** -/
theorem continues_of_read (read : s.read text = some tokens) : s.Continues tokens text := by
  -- From the front and for every scanner: what a character means is told by what follows it.
  induction text generalizing s with
  | nil => exact continues_of_finish read
  | cons c text ih =>
    rw [Scanner.read, scan_cons, Option.bind_assoc] at read
    obtain ⟨s', steps, read⟩ := Option.bind_eq_some_iff.mp read
    exact continues_step steps (ih read)

theorem layout_of_read (read : (behind found).read text = some tokens) :
    ∃ later, tokens = found.reverse ++ later ∧ Layout later text := continues_of_read read

end Scanner

/-- **Some tokens are found in exactly their texts**, if of two neighbours one is a mark. -/
theorem Token.ofText?_iff {tokens : List Token} (apart : Apart tokens) {text : List Char} :
    Token.ofText? text = some tokens ↔ Layout tokens text := by
  refine ⟨fun read => ?_, fun layout => ofText?_of_layout layout apart⟩
  obtain ⟨later, rfl, layout⟩ := @Scanner.layout_of_read [] tokens text read
  exact layout

end RealMode.Json
