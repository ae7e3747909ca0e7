/-
**JSON tokens.** A text is scanned one character at a time; the scanner carries the token it stands
in and the tokens before it. Of a number it keeps the value where the number is written as a plain
natural, and of a string its characters, where no escape leaves half of a surrogate pair alone.

* `scan_append`: scanning goes on from where the first part of a text left the scanner.
-/

import RealMode.Numeral

namespace RealMode.Json

/-- A token. A number without a value has a sign, a fraction or an exponent; a string without
characters names half of a surrogate pair. -/
inductive Token
  | objectOpen
  | objectClose
  | arrayOpen
  | arrayClose
  | colon
  | comma
  | null
  | bool (value : Bool)
  | number (value : Option Nat)
  | string (value : Option String)
  deriving DecidableEq

/-- The part of a number that was scanned last. -/
inductive NumberPart
  | sign
  | zero
  | integer
  | point
  | fraction
  | mark
  | markSign
  | exponent
  deriving DecidableEq

/-- A number may end after this part. -/
def NumberPart.complete : NumberPart → Bool
  | zero | integer | fraction | exponent => true
  | sign | point | mark | markSign => false

/-- The characters of a string so far, last first, and the first half of a surrogate pair whose
second half must follow; without characters, some half stood alone. -/
structure Spelling where
  reversed : Option (List Char) := some []
  half : Option Nat := none
  deriving DecidableEq

namespace Spelling

/-- The spelling of a string in which half of a pair stands alone. -/
def broken : Spelling := { reversed := none }

/-- One more character. -/
def add (s : Spelling) (c : Char) : Spelling :=
  match s.half with
  | some _ => broken
  | none => { s with reversed := s.reversed.map (c :: ·) }

/-- The unit is the first half of a surrogate pair. -/
def isFirstHalf (unit : Nat) : Bool := 0xD800 ≤ unit && unit < 0xDC00

/-- The unit is the second half of a surrogate pair. -/
def isSecondHalf (unit : Nat) : Bool := 0xDC00 ≤ unit && unit < 0xE000

/-- The character of a surrogate pair. -/
def pair (first second : Nat) : Char :=
  Char.ofNat (0x10000 + (first - 0xD800) * 0x400 + (second - 0xDC00))

/-- One more sixteen-bit unit. -/
def addUnit (s : Spelling) (unit : Nat) : Spelling :=
  match s.half with
  | some first =>
    if isSecondHalf unit then { reversed := s.reversed.map (pair first unit :: ·) } else broken
  | none =>
    if isFirstHalf unit then { s with half := some unit }
    else if isSecondHalf unit then broken
    else { s with reversed := s.reversed.map (Char.ofNat unit :: ·) }

/-- The finished string. -/
def finish (s : Spelling) : Option String :=
  match s.half with
  | some _ => none
  | none => s.reversed.map fun cs => String.ofList cs.reverse

end Spelling

/-- What a scanner stands in. -/
inductive Place
  /-- Between two tokens. -/
  | between
  /-- In a word, of which `rest` is still to come. -/
  | word (rest : List Char) (token : Token)
  /-- In a number, after `part`. -/
  | number (part : NumberPart) (value : Option Nat)
  /-- In a string. -/
  | string (spelling : Spelling)
  /-- In a string, after a backslash. -/
  | escape (spelling : Spelling)
  /-- In the four digits of an escape, of which `left` are still to come. -/
  | unit (spelling : Spelling) (left : Nat) (value : Nat)
  deriving DecidableEq

/-- A scanner: the tokens found, last first, and where it stands. -/
structure Scanner where
  found : List Token := []
  place : Place := .between
  deriving DecidableEq

/-- The blanks that may stand between tokens. -/
def isBlank (c : Char) : Bool := c == ' ' || c == '\t' || c == '\n' || c == '\r'

/-- The value of a decimal digit. -/
def digit? (c : Char) : Option Nat :=
  if '0' ≤ c ∧ c ≤ '9' then some (c.toNat - '0'.toNat) else none

/-- The value of a hexadecimal digit. -/
def hexDigit? (c : Char) : Option Nat :=
  if '0' ≤ c ∧ c ≤ '9' then some (c.toNat - '0'.toNat)
  else if 'a' ≤ c ∧ c ≤ 'f' then some (c.toNat - 'a'.toNat + 10)
  else if 'A' ≤ c ∧ c ≤ 'F' then some (c.toNat - 'A'.toNat + 10)
  else none

/-- The character that a backslash and a letter stand for. -/
def escaped? (c : Char) : Option Char :=
  if c = '"' then some '"'
  else if c = '\\' then some '\\'
  else if c = '/' then some '/'
  else if c = 'b' then some '\x08'
  else if c = 'f' then some '\x0c'
  else if c = 'n' then some '\n'
  else if c = 'r' then some '\r'
  else if c = 't' then some '\t'
  else none

/-- The token that a mark of punctuation is. -/
def mark? (c : Char) : Option Token :=
  if c = '{' then some .objectOpen
  else if c = '}' then some .objectClose
  else if c = '[' then some .arrayOpen
  else if c = ']' then some .arrayClose
  else if c = ':' then some .colon
  else if c = ',' then some .comma
  else none

/-- The place after the first character of a token that is more than a mark. -/
def opening? (c : Char) : Option Place :=
  if c = '"' then some (.string {})
  else if c = 'n' then some (.word ['u', 'l', 'l'] .null)
  else if c = 't' then some (.word ['r', 'u', 'e'] (.bool true))
  else if c = 'f' then some (.word ['a', 'l', 's', 'e'] (.bool false))
  else if c = '-' then some (.number .sign none)
  else if c = '0' then some (.number .zero (some 0))
  else (digit? c).map fun d => .number .integer (some d)

/-- Whether a character opens the exponent of a number. -/
def isExponentMark (c : Char) : Bool := c == 'e' || c == 'E'

/-- Where a number goes on, if it does. -/
def numberNext? (part : NumberPart) (value : Option Nat) (c : Char) : Option Place :=
  match part, digit? c with
  | .sign, some d => some (.number (if d = 0 then .zero else .integer) none)
  | .integer, some d => some (.number .integer (value.map fun v => 10 * v + d))
  | .point, some _ | .fraction, some _ => some (.number .fraction none)
  | .mark, some _ | .markSign, some _ | .exponent, some _ => some (.number .exponent none)
  | .zero, none | .integer, none =>
    if c = '.' then some (.number .point none)
    else if isExponentMark c then some (.number .mark none)
    else none
  | .fraction, none => if isExponentMark c then some (.number .mark none) else none
  | .mark, none => if c = '+' ∨ c = '-' then some (.number .markSign none) else none
  | _, _ => none

namespace Scanner

/-- A token is complete. -/
def emit (s : Scanner) (token : Token) : Scanner := ⟨token :: s.found, .between⟩

/-- The scanner is somewhere else. -/
def goTo (s : Scanner) (place : Place) : Scanner := { s with place }

/-- Takes a character that stands between tokens. -/
def stepBetween (s : Scanner) (c : Char) : Option Scanner :=
  if isBlank c then some (s.goTo .between)
  else
    match mark? c with
    | some token => some (s.emit token)
    | none => (opening? c).map s.goTo

/-- Takes one character. -/
def step (s : Scanner) (c : Char) : Option Scanner :=
  match s.place with
  | .between => s.stepBetween c
  | .word [] _ => none
  | .word [last] token => if c = last then some (s.emit token) else none
  | .word (next :: rest) token => if c = next then some (s.goTo (.word rest token)) else none
  | .number part value =>
    match numberNext? part value c with
    | some place => some (s.goTo place)
    | none => if part.complete then (s.emit (.number value)).stepBetween c else none
  | .string spelling =>
    if c = '"' then some (s.emit (.string spelling.finish))
    else if c = '\\' then some (s.goTo (.escape spelling))
    else if c.toNat < 0x20 then none
    else some (s.goTo (.string (spelling.add c)))
  | .escape spelling =>
    if c = 'u' then some (s.goTo (.unit spelling 4 0))
    else (escaped? c).map fun meant => s.goTo (.string (spelling.add meant))
  | .unit spelling left value =>
    (hexDigit? c).map fun d =>
      if left ≤ 1 then s.goTo (.string (spelling.addUnit (16 * value + d)))
      else s.goTo (.unit spelling (left - 1) (16 * value + d))

/-- Takes the characters of a text. -/
def scan (s : Scanner) (text : List Char) : Option Scanner := text.foldlM step s

/-- The tokens of a text that ends here. -/
def finish (s : Scanner) : Option (List Token) :=
  match s.place with
  | .between => some s.found.reverse
  | .number part value =>
    if part.complete then some (s.emit (.number value)).found.reverse else none
  | _ => none

theorem scan_append (s : Scanner) (first second : List Char) :
    s.scan (first ++ second) = (s.scan first).bind fun middle => middle.scan second := by
  simp [scan, List.foldlM_append]

end Scanner

/-- The tokens of a text, if it is made of tokens. -/
def Token.ofText? (text : List Char) : Option (List Token) :=
  (Scanner.scan {} text).bind Scanner.finish

/-! ### Writing -/

/-- A character as it is written inside a string. -/
def escape (c : Char) : List Char :=
  if c = '"' then ['\\', '"']
  else if c = '\\' then ['\\', '\\']
  else if c = '\x08' then ['\\', 'b']
  else if c = '\x0c' then ['\\', 'f']
  else if c = '\n' then ['\\', 'n']
  else if c = '\r' then ['\\', 'r']
  else if c = '\t' then ['\\', 't']
  else if c.toNat < 0x20 then '\\' :: 'u' :: Numeral.padded 16 4 c.toNat
  else [c]

/-- A string in quotes. -/
def quote (text : String) : List Char := '"' :: text.toList.flatMap escape ++ ['"']

/-- The text of a token. -/
def Token.text : Token → List Char
  | objectOpen => ['{']
  | objectClose => ['}']
  | arrayOpen => ['[']
  | arrayClose => [']']
  | colon => [':']
  | comma => [',']
  | null => ['n', 'u', 'l', 'l']
  | bool true => ['t', 'r', 'u', 'e']
  | bool false => ['f', 'a', 'l', 's', 'e']
  | number (some n) => Numeral.digits 10 n
  | number none => ['-', '0']
  | string (some s) => quote s
  | string none => ['"', '\\', 'u', 'd', '8', '0', '0', '"']

end RealMode.Json
