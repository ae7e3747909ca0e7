/-
**JSON texts are read back.** The scanner finds the tokens of a text that was written without
blanks: a number ends at the mark that follows it, a string at its closing quote. Some values say
less than a text does, since they do not hold all numbers and strings; all others survive.

* `ofText?_compact`: a value that is fully known is read back from its text.
-/

import RealMode.Json.Reading

namespace RealMode.Json

/-- A number with a value, a string with characters, or any other token. -/
def Token.isKnown : Token → Bool
  | number value => value.isSome
  | string value => value.isSome
  | objectOpen | objectClose | arrayOpen | arrayClose | colon | comma | null | bool _ => true

/-- A text that goes on with a mark of punctuation, if it goes on. -/
def Closes (text : List Char) : Prop := ∀ c ∈ text.head?, (mark? c).isSome

/-- A text that goes on with a mark of punctuation or a blank, if it goes on. -/
def Ends (text : List Char) : Prop := ∀ c ∈ text.head?, (mark? c).isSome ∨ isBlank c

theorem Closes.ends {text : List Char} (closes : Closes text) : Ends text :=
  fun c first => .inl (closes c first)

theorem eq_of_mark {c : Char} (mark : (mark? c).isSome) :
    c = '{' ∨ c = '}' ∨ c = '[' ∨ c = ']' ∨ c = ':' ∨ c = ',' := by
  unfold mark? at mark
  grind

theorem eq_of_blank {c : Char} (blank : isBlank c) :
    c = ' ' ∨ c = '\t' ∨ c = '\n' ∨ c = '\r' := by
  simpa [isBlank, or_assoc] using blank

namespace Scanner

/-- A scanner between two tokens. -/
def behind (found : List Token) : Scanner := { found }

/-- The tokens found in the end, if the text is made of tokens. -/
def read (s : Scanner) (text : List Char) : Option (List Token) := (s.scan text).bind finish

theorem scan_cons (s : Scanner) (c : Char) (text : List Char) :
    s.scan (c :: text) = (s.step c).bind fun s' => s'.scan text := rfl

theorem read_of_scan {s s' : Scanner} {first : List Char} (scanned : s.scan first = some s')
    (second : List Char) : s.read (first ++ second) = s'.read second := by
  rw [read, scan_append, scanned]
  rfl

theorem read_mark {c : Char} {token : Token} (mark : mark? c = some token) (found : List Token)
    (rest : List Char) : (behind found).read (c :: rest) = (behind (token :: found)).read rest := by
  have solid : isBlank c = false := by
    rcases eq_of_mark (by rw [mark]; rfl) with rfl | rfl | rfl | rfl | rfl | rfl <;> rfl
  simp [read, scan_cons, step, behind, stepBetween, mark, solid, emit]

/-! ### Numbers -/

theorem digit?_digitChar {d : Nat} (small : d < 10) : digit? d.digitChar = some d := by
  have checked : ∀ d : Fin 10, digit? (Nat.digitChar d) = some d.val := by decide
  exact checked ⟨d, small⟩

theorem step_digitChar {d : Nat} (small : d < 10) (positive : 0 < d) (found : List Token) :
    (behind found).step d.digitChar = some ⟨found, .number .integer (some d)⟩ := by
  have checked : ∀ d : Fin 10, 0 < d.val →
      isBlank (Nat.digitChar d) = false ∧ mark? (Nat.digitChar d) = none ∧
        opening? (Nat.digitChar d) = some (.number .integer (some d.val)) := by decide
  obtain ⟨solid, plain, opens⟩ := checked ⟨d, small⟩ positive
  simp only at solid plain opens
  simp [step, behind, stepBetween, solid, plain, opens, goTo]

theorem scan_digits {n : Nat} (positive : 0 < n) (found : List Token) :
    (behind found).scan (Numeral.digits 10 n) = some ⟨found, .number .integer (some n)⟩ := by
  induction n using Nat.strongRecOn with
  | ind n ih =>
    by_cases small : n < 10
    · rw [Numeral.digits, Nat.toDigits_of_lt_base small, scan_cons, step_digitChar small positive]
      rfl
    · have last : digit? (n % 10).digitChar = some (n % 10) :=
        digit?_digitChar (Nat.mod_lt _ (by decide))
      have whole : 10 * (n / 10) + n % 10 = n := by omega
      rw [Numeral.digits_split (by decide) (by omega), scan_append,
        ih (n / 10) (by omega) (by omega)]
      simp [scan, step, numberNext?, last, goTo, whole]

theorem numberNext?_end {c : Char} (ends : (mark? c).isSome ∨ isBlank c) {part : NumberPart}
    (complete : part.complete) (value : Option Nat) : numberNext? part value c = none := by
  have other : digit? c = none ∧ c ≠ '.' ∧ isExponentMark c = false := by
    rcases ends with mark | blank
    · rcases eq_of_mark mark with rfl | rfl | rfl | rfl | rfl | rfl <;> decide
    · rcases eq_of_blank blank with rfl | rfl | rfl | rfl <;> decide
  obtain ⟨noDigit, noPoint, noExponent⟩ := other
  cases part <;> simp_all [numberNext?, NumberPart.complete]

/-- A number ends at a mark or a blank. -/
theorem read_number {part : NumberPart} (complete : part.complete) (value : Option Nat)
    (found : List Token) {rest : List Char} (ends : Ends rest) :
    (⟨found, .number part value⟩ : Scanner).read rest =
      (behind (.number value :: found)).read rest := by
  cases rest with
  | nil => simp [read, scan, finish, complete, emit, behind]
  | cons c rest =>
    have stops := numberNext?_end (ends c rfl) complete value
    simp [read, scan_cons, step, stops, complete, emit, behind]

theorem read_natural (n : Nat) (found : List Token) {rest : List Char} (ends : Ends rest) :
    (behind found).read (Numeral.digits 10 n ++ rest) =
      (behind (.number (some n) :: found)).read rest := by
  by_cases zero : n = 0
  · subst zero
    have scanned : (behind found).scan (Numeral.digits 10 0) =
        some ⟨found, .number .zero (some 0)⟩ := rfl
    rw [read_of_scan scanned]
    exact read_number rfl _ _ ends
  · rw [read_of_scan (scan_digits (Nat.pos_of_ne_zero zero) found)]
    exact read_number rfl _ _ ends

/-! ### Strings -/

/-- A scanner inside a string, behind its characters, last first. -/
def inside (found : List Token) (before : List Char) : Scanner :=
  ⟨found, .string { reversed := some before }⟩

theorem padded_control {n : Nat} (control : n < 0x20) :
    Numeral.padded 16 4 n = ['0', '0', (n / 16).digitChar, (n % 16).digitChar] := by
  have checked : ∀ n : Fin 0x20, Numeral.padded 16 4 n =
      ['0', '0', Nat.digitChar (n / 16), Nat.digitChar (n % 16)] := by decide
  exact checked ⟨n, control⟩

theorem hexDigit?_digitChar {d : Nat} (small : d < 16) : hexDigit? d.digitChar = some d := by
  have checked : ∀ d : Fin 16, hexDigit? (Nat.digitChar d) = some d.val := by decide
  exact checked ⟨d, small⟩

theorem scan_control (found : List Token) (before : List Char) {c : Char}
    (control : c.toNat < 0x20) :
    (inside found before).scan ('\\' :: 'u' :: Numeral.padded 16 4 c.toNat) =
      some (inside found (c :: before)) := by
  have high : hexDigit? (c.toNat / 16).digitChar = some (c.toNat / 16) :=
    hexDigit?_digitChar (by omega)
  have low : hexDigit? (c.toNat % 16).digitChar = some (c.toNat % 16) :=
    hexDigit?_digitChar (by omega)
  have zero : hexDigit? '0' = some 0 := by decide
  have whole : 16 * (c.toNat / 16) + c.toNat % 16 = c.toNat := by omega
  have first : Spelling.isFirstHalf c.toNat = false := by
    simp only [Spelling.isFirstHalf, Bool.and_eq_false_iff, decide_eq_false_iff_not]
    omega
  have second : Spelling.isSecondHalf c.toNat = false := by
    simp only [Spelling.isSecondHalf, Bool.and_eq_false_iff, decide_eq_false_iff_not]
    omega
  rw [padded_control control]
  simp [inside, scan, step, goTo, high, low, zero, whole, Spelling.addUnit, first, second]

theorem scan_escape (found : List Token) (before : List Char) (c : Char) :
    (inside found before).scan (escape c) = some (inside found (c :: before)) := by
  by_cases short : c ∈ ['"', '\\', '\x08', '\x0c', '\n', '\r', '\t']
  · simp only [List.mem_cons, List.not_mem_nil, or_false] at short
    rcases short with rfl | rfl | rfl | rfl | rfl | rfl | rfl <;> rfl
  · simp only [List.mem_cons, List.not_mem_nil, or_false, not_or] at short
    by_cases control : c.toNat < 0x20
    · have long : escape c = '\\' :: 'u' :: Numeral.padded 16 4 c.toNat := by
        simp [escape, short, control]
      rw [long]
      exact scan_control found before control
    · simp [inside, escape, short, control, scan, step, goTo, Spelling.add]

theorem scan_escapes (found : List Token) (before text : List Char) :
    (inside found before).scan (text.flatMap escape) =
      some (inside found (text.reverse ++ before)) := by
  induction text generalizing before with
  | nil => rfl
  | cons c text ih =>
    rw [List.flatMap_cons, scan_append, scan_escape, Option.bind_some, ih]
    simp

theorem scan_quote (found : List Token) (text : String) :
    (behind found).scan (quote text) = some (behind (.string (some text) :: found)) := by
  have opens : (behind found).step '"' = some (inside found []) := rfl
  rw [quote, List.cons_append, scan_cons, opens, Option.bind_some, scan_append, scan_escapes]
  simp [inside, behind, scan, step, emit, Spelling.finish]

/-! ### Values -/

theorem closes_itemTokens (items : List Value) (rest : List Char) :
    Closes ((Value.itemTokens items).flatMap Token.text ++ ']' :: rest) := by
  cases items <;> simp [Closes, Value.itemTokens, Token.text, mark?]

theorem closes_memberTokens (members : List (Option String × Value)) (rest : List Char) :
    Closes ((Value.memberTokens members).flatMap Token.text ++ '}' :: rest) := by
  rcases members with _ | ⟨⟨key, value⟩, members⟩ <;>
    simp [Closes, Value.memberTokens, Token.text, mark?]

theorem read_key (key : String) (found : List Token) (rest : List Char) :
    (behind found).read (quote key ++ ':' :: rest) =
      (behind (.colon :: .string (some key) :: found)).read rest := by
  rw [read_of_scan (scan_quote found key)]
  exact read_mark rfl _ rest

mutual

theorem read_tokens (v : Value) (known : v.tokens.all Token.isKnown) (found : List Token)
    {rest : List Char} (closes : Closes rest) :
    (behind found).read (v.tokens.flatMap Token.text ++ rest) =
      (behind (v.tokens.reverse ++ found)).read rest := by
  match v with
  | .null | .bool true | .bool false | .array [] | .object [] => rfl
  | .number none | .string none => cases known
  | .number (some n) =>
    simp only [Value.tokens, List.flatMap_singleton]
    exact read_natural n found closes.ends
  | .string (some s) =>
    simp only [Value.tokens, List.flatMap_singleton]
    exact read_of_scan (scan_quote found s) rest
  | .array (item :: items) =>
    simp only [Value.tokens, List.cons_append, List.all_append, List.all_cons,
      Bool.and_eq_true] at known
    obtain ⟨_, ⟨itemKnown, itemsKnown⟩, _⟩ := known
    have first := fun found => read_tokens item itemKnown found (closes_itemTokens items rest)
    have others := fun found => read_itemTokens items itemsKnown found rest
    have opens := fun text => read_mark (c := '[') rfl found text
    have ends := fun found => read_mark (c := ']') rfl found rest
    simp [Value.tokens, Token.text, opens, first, others, ends]
  | .object ((none, _) :: _) => cases known
  | .object ((some key, value) :: members) =>
    simp only [Value.tokens, List.cons_append, List.all_append, List.all_cons,
      Bool.and_eq_true] at known
    obtain ⟨_, _, _, ⟨valueKnown, membersKnown⟩, _⟩ := known
    have first := fun found => read_tokens value valueKnown found (closes_memberTokens members rest)
    have others := fun found => read_memberTokens members membersKnown found rest
    have opens := fun text => read_mark (c := '{') rfl found text
    have ends := fun found => read_mark (c := '}') rfl found rest
    simp [Value.tokens, Token.text, opens, read_key, first, others, ends]

theorem read_itemTokens (items : List Value) (known : (Value.itemTokens items).all Token.isKnown)
    (found : List Token) (rest : List Char) :
    (behind found).read ((Value.itemTokens items).flatMap Token.text ++ ']' :: rest) =
      (behind ((Value.itemTokens items).reverse ++ found)).read (']' :: rest) := by
  match items with
  | [] => rfl
  | item :: items =>
    simp only [Value.itemTokens, List.cons_append, List.all_append, List.all_cons,
      Bool.and_eq_true] at known
    obtain ⟨_, itemKnown, itemsKnown⟩ := known
    have first := fun found => read_tokens item itemKnown found (closes_itemTokens items rest)
    have others := fun found => read_itemTokens items itemsKnown found rest
    have opens := fun text => read_mark (c := ',') rfl found text
    simp [Value.itemTokens, Token.text, opens, first, others]

theorem read_memberTokens (members : List (Option String × Value))
    (known : (Value.memberTokens members).all Token.isKnown) (found : List Token)
    (rest : List Char) :
    (behind found).read ((Value.memberTokens members).flatMap Token.text ++ '}' :: rest) =
      (behind ((Value.memberTokens members).reverse ++ found)).read ('}' :: rest) := by
  match members with
  | [] => rfl
  | (none, _) :: _ => cases known
  | (some key, value) :: members =>
    simp only [Value.memberTokens, List.cons_append, List.all_append, List.all_cons,
      Bool.and_eq_true] at known
    obtain ⟨_, _, _, valueKnown, membersKnown⟩ := known
    have first := fun found => read_tokens value valueKnown found (closes_memberTokens members rest)
    have others := fun found => read_memberTokens members membersKnown found rest
    have opens := fun text => read_mark (c := ',') rfl found text
    simp [Value.memberTokens, Token.text, opens, read_key, first, others]

end

end Scanner

namespace Value

/-- A value all of whose numbers, strings and keys are known. -/
def isKnown (v : Value) : Bool := v.tokens.all Token.isKnown

theorem all_itemTokens (items : List Value) :
    (itemTokens items).all Token.isKnown = items.all isKnown := by
  induction items with
  | nil => rfl
  | cons item items ih => simp [itemTokens, Token.isKnown, isKnown, ih]

theorem all_memberTokens (members : List (Option String × Value)) :
    (memberTokens members).all Token.isKnown =
      members.all fun member => member.1.isSome && member.2.isKnown := by
  induction members with
  | nil => rfl
  | cons member members ih => simp [memberTokens, Token.isKnown, isKnown, ih, Bool.and_assoc]

theorem isKnown_array (items : List Value) : (array items).isKnown = items.all isKnown := by
  cases items with
  | nil => rfl
  | cons item items => simp [isKnown, tokens, Token.isKnown, all_itemTokens]

theorem isKnown_record (members : List (String × Value)) :
    (record members).isKnown = members.all fun member => member.2.isKnown := by
  cases members with
  | nil => rfl
  | cons member members =>
    simp [record, isKnown, tokens, Token.isKnown, all_memberTokens, Function.comp_def]

theorem tokens_compact {v : Value} (known : v.isKnown) :
    Token.ofText? v.compact.toList = some v.tokens := by
  have closes : Closes [] := fun _ member => nomatch member
  have scanned := Scanner.read_tokens v known [] closes
  rw [List.append_nil, List.append_nil] at scanned
  rw [compact, String.toList_ofList]
  refine Eq.trans scanned ?_
  simp [Scanner.read, Scanner.scan, Scanner.behind, Scanner.finish]

/-- **A value that is fully known is read back from its text.** -/
theorem ofText?_compact {v : Value} (known : v.isKnown) : ofText? v.compact = some v := by
  rw [ofText?, tokens_compact known, Option.bind_some, ofTokens?_tokens]

end Value

end RealMode.Json
