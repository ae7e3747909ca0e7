/-
**The grammar of JSON texts.** A text of a value is the tokens of the value in their order, each in
one of its spellings, with blanks before, between and behind them. A number may have a sign, a
fraction and an exponent, and any character of a string may stand there as an escape.

* `read_spelled`: the scanner finds a token in each of its spellings.
* `read_layout`: it finds the tokens of a text, whatever the blanks.
* `ofText?_of_isText`: a value is read back from each of its texts.
-/

import Mathlib.Data.List.Chain
import RealMode.Proofs.Json.Pretty

namespace RealMode.Json

/-! ### Numbers -/

/-- Decimal digits, at least one. -/
def IsDigits (text : List Char) : Prop := text ≠ [] ∧ ∀ c ∈ text, c.isDigit

/-- The fraction of a number, if it has one. -/
inductive IsFraction : List Char → Prop
  | absent : IsFraction []
  | point {digits : List Char} (some : IsDigits digits) : IsFraction ('.' :: digits)

/-- The exponent of a number, if it has one. -/
inductive IsExponent : List Char → Prop
  | absent : IsExponent []
  | mark {mark : Char} {sign digits : List Char} (named : mark = 'e' ∨ mark = 'E')
    (signed : sign = [] ∨ sign = ['+'] ∨ sign = ['-']) (some : IsDigits digits) :
    IsExponent (mark :: (sign ++ digits))

/-- The texts of a number. Only a plain natural number has a value; before a fraction or an exponent
there is a natural number too, without leading zeros. -/
inductive IsNumber : Option Nat → List Char → Prop
  | parts {sign fraction exponent : List Char} (n : Nat) (signed : sign = [] ∨ sign = ['-'])
    (fractional : IsFraction fraction) (exponential : IsExponent exponent) :
    IsNumber (if sign ++ fraction ++ exponent = [] then some n else none)
      (sign ++ Numeral.digits 10 n ++ fraction ++ exponent)

/-! ### Strings -/

/-- A piece of a string: a character, or a sixteen-bit unit. -/
inductive Piece
  | char (c : Char)
  | unit (unit : Nat)

/-- The letters that stand behind a backslash, and what they stand for. -/
def shortEscapes : List (Char × Char) :=
  [('"', '"'), ('\\', '\\'), ('/', '/'), ('b', '\x08'), ('f', '\x0c'), ('n', '\n'), ('r', '\r'),
    ('t', '\t')]

/-- The character is the hexadecimal digit of a number below sixteen, in either case. -/
def IsHexDigit (c : Char) (d : Nat) : Prop :=
  d < 16 ∧ (c = d.digitChar ∨ c = d.digitChar.toUpper)

/-- The texts of a piece of a string. -/
inductive Piece.IsText : Piece → List Char → Prop
  | plain {c : Char} (noQuote : c ≠ '"') (noBackslash : c ≠ '\\') (noControl : 0x20 ≤ c.toNat) :
    IsText (.char c) [c]
  | short {letter c : Char} (listed : (letter, c) ∈ shortEscapes) :
    IsText (.char c) ['\\', letter]
  | unit {a b c d : Char} {w x y z : Nat} (first : IsHexDigit a w) (second : IsHexDigit b x)
    (third : IsHexDigit c y) (fourth : IsHexDigit d z) :
    IsText (.unit (16 * (16 * (16 * w + x) + y) + z)) ['\\', 'u', a, b, c, d]

/-- The texts of some pieces. -/
inductive ArePieces : List Piece → List Char → Prop
  | none : ArePieces [] []
  | piece {piece : Piece} {pieces : List Piece} {first rest : List Char}
    (here : piece.IsText first) (others : ArePieces pieces rest) :
    ArePieces (piece :: pieces) (first ++ rest)

/-- The characters that pieces stand for: two halves of a surrogate pair for one, and none at all if
some half stands alone. -/
def charsOf? : List Piece → Option (List Char)
  | [] => some []
  | .char c :: pieces => (charsOf? pieces).map (c :: ·)
  | .unit first :: pieces =>
    if Spelling.isFirstHalf first then
      match pieces with
      | .unit second :: pieces =>
        if Spelling.isSecondHalf second then
          (charsOf? pieces).map (Spelling.pair first second :: ·)
        else none
      | _ => none
    else if Spelling.isSecondHalf first then none
    else (charsOf? pieces).map (Char.ofNat first :: ·)

/-- The texts of a string. -/
inductive IsString : Option String → List Char → Prop
  | quoted {pieces : List Piece} {text : List Char} (spelled : ArePieces pieces text) :
    IsString ((charsOf? pieces).map String.ofList) ('"' :: (text ++ ['"']))

/-! ### Tokens and values -/

/-- The spellings of a token. -/
inductive Token.Spelled : Token → List Char → Prop
  | objectOpen : Spelled .objectOpen ['{']
  | objectClose : Spelled .objectClose ['}']
  | arrayOpen : Spelled .arrayOpen ['[']
  | arrayClose : Spelled .arrayClose [']']
  | colon : Spelled .colon [':']
  | comma : Spelled .comma [',']
  | null : Spelled .null ['n', 'u', 'l', 'l']
  | yes : Spelled (.bool true) ['t', 'r', 'u', 'e']
  | no : Spelled (.bool false) ['f', 'a', 'l', 's', 'e']
  | number {value : Option Nat} {text : List Char} (spelled : IsNumber value text) :
    Spelled (.number value) text
  | string {value : Option String} {text : List Char} (spelled : IsString value text) :
    Spelled (.string value) text

/-- Tokens in their order, with blanks before, between and behind them. -/
inductive Layout : List Token → List Char → Prop
  | done {blanks : List Char} (blank : ∀ c ∈ blanks, isBlank c) : Layout [] blanks
  | token {token : Token} {tokens : List Token} {blanks spelling rest : List Char}
    (blank : ∀ c ∈ blanks, isBlank c) (spelled : token.Spelled spelling)
    (others : Layout tokens rest) : Layout (token :: tokens) (blanks ++ spelling ++ rest)

/-- The text is one of the value: strict JSON. -/
def Value.IsText (v : Value) (text : String) : Prop := Layout v.tokens text.toList

/-! ### The characters of a string -/

namespace Spelling

/-- A spelling with one more piece. -/
def take (s : Spelling) : Piece → Spelling
  | .char c => s.add c
  | .unit unit => s.addUnit unit

/-- Once half of a surrogate pair stands alone, the string has no characters. -/
theorem take_broken {s : Spelling} (broken : s.reversed = none) (piece : Piece) :
    (take s piece).reversed = none := by
  obtain ⟨reversed, half⟩ := s
  obtain rfl : reversed = none := broken
  cases piece <;> cases half <;> simp only [take, add, addUnit] <;>
    grind [Spelling.broken]

theorem finish_broken (pieces : List Piece) {s : Spelling} (broken : s.reversed = none) :
    (pieces.foldl take s).finish = none := by
  induction pieces generalizing s with
  | nil =>
    rw [List.foldl_nil, Spelling.finish, broken]
    split <;> rfl
  | cons piece pieces ih => exact ih (take_broken broken piece)

theorem map_ofList_cons (before : List Char) (c : Char) (chars : Option (List Char)) :
    (chars.map fun cs => String.ofList ((c :: before).reverse ++ cs)) =
      (chars.map (c :: ·)).map fun cs => String.ofList (before.reverse ++ cs) := by
  cases chars <;> simp

/-- **The characters of a string are those of its pieces.** -/
theorem finish_pieces (pieces : List Piece) (before : List Char) :
    (pieces.foldl take { reversed := some before }).finish =
      (charsOf? pieces).map fun cs => String.ofList (before.reverse ++ cs) := by
  -- A first half looks at the piece behind it, so the cases are those of the characters.
  induction pieces using charsOf?.induct generalizing before with
  | case1 => simp [Spelling.finish, charsOf?]
  | case2 c pieces ih =>
    have next : take { reversed := some before } (.char c) =
        { reversed := some (c :: before) } := rfl
    rw [List.foldl_cons, next, ih, charsOf?, map_ofList_cons]
  | case3 first firstHalf second pieces secondHalf ih =>
    have pair : take (take { reversed := some before } (.unit first))
        (.unit second) = { reversed := some (Spelling.pair first second :: before) } := by
      simp [take, addUnit, firstHalf, secondHalf]
    rw [List.foldl_cons, List.foldl_cons, pair, ih, charsOf?, if_pos firstHalf, map_ofList_cons]
    simp only [secondHalf, if_true]
  | case4 first firstHalf second pieces other =>
    have alone : charsOf? (.unit first :: .unit second :: pieces) = none := by
      simp [charsOf?, firstHalf, other]
    rw [alone, List.foldl_cons, List.foldl_cons]
    refine finish_broken pieces ?_
    simp [take, addUnit, firstHalf, other, Spelling.broken]
  | case5 first pieces firstHalf noUnit =>
    have half : take { reversed := some before } (.unit first) =
        { reversed := some before, half := some first } := by
      simp [take, addUnit, firstHalf]
    rw [List.foldl_cons, half]
    cases pieces with
    | nil => simp [charsOf?, firstHalf, Spelling.finish]
    | cons piece pieces =>
      cases piece with
      | char c =>
        have alone : charsOf? (.unit first :: .char c :: pieces) = none := by
          simp [charsOf?, firstHalf]
        rw [alone, List.foldl_cons]
        exact finish_broken pieces rfl
      | unit second => exact (noUnit second pieces rfl).elim
  | case6 first pieces noFirst secondHalf =>
    have alone : charsOf? (.unit first :: pieces) = none := by
      unfold charsOf?
      simp [noFirst, secondHalf]
    rw [alone, List.foldl_cons]
    refine finish_broken pieces ?_
    simp [take, addUnit, noFirst, secondHalf, Spelling.broken]
  | case7 first pieces noFirst noSecond ih =>
    have next : take { reversed := some before } (.unit first) =
        { reversed := some (Char.ofNat first :: before) } := by
      simp [take, addUnit, noFirst, noSecond]
    have chars : charsOf? (.unit first :: pieces) =
        (charsOf? pieces).map (Char.ofNat first :: ·) := by
      rw [charsOf?.eq_def]
      simp [noFirst, noSecond]
    rw [List.foldl_cons, next, ih, chars, map_ofList_cons]

end Spelling

namespace Scanner

/-! ### Scanning numbers -/

theorem digit?_isDigit {c : Char} (digit : c.isDigit) : ∃ d, digit? c = some d := by
  refine ⟨c.toNat - '0'.toNat, if_pos ?_⟩
  simpa [Char.isDigit, Char.le_def] using digit

/-- What stands before the fraction of a number ends with this part. -/
def wholePart (n : Nat) : NumberPart := if n = 0 then .zero else .integer

theorem scan_whole (n : Nat) (found : List Token) :
    (behind found).scan (Numeral.digits 10 n) = some ⟨found, .number (wholePart n) (some n)⟩ := by
  by_cases zero : n = 0
  · subst zero
    rfl
  · rw [wholePart, if_neg zero]
    exact scan_digits (Nat.pos_of_ne_zero zero) found

theorem scan_signed (n : Nat) (found : List Token) :
    (behind found).scan ('-' :: Numeral.digits 10 n) =
      some ⟨found, .number (wholePart n) none⟩ := by
  have opens : (behind found).step '-' = some ⟨found, .number .sign none⟩ := rfl
  rw [scan_cons, opens, Option.bind_some]
  induction n using Nat.strongRecOn with
  | ind n ih =>
    by_cases small : n < 10
    · rw [Numeral.digits, Nat.toDigits_of_lt_base small]
      simp [scan, step, numberNext?, digit?_digitChar small, goTo, wholePart]
    · have last : digit? (n % 10).digitChar = some (n % 10) :=
        digit?_digitChar (Nat.mod_lt _ (by decide))
      have positive : n / 10 ≠ 0 := by omega
      rw [Numeral.digits_split (by decide) (by omega), scan_append, ih (n / 10) (by omega)]
      simp [scan, step, numberNext?, last, goTo, wholePart, positive, show n ≠ 0 by omega]

/-- Digits do not take a number out of its fraction or its exponent. -/
theorem scan_further {part : NumberPart} (decimal : part = .fraction ∨ part = .exponent)
    (found : List Token) {digits : List Char} (all : ∀ c ∈ digits, c.isDigit) :
    (⟨found, .number part none⟩ : Scanner).scan digits = some ⟨found, .number part none⟩ := by
  induction digits with
  | nil => rfl
  | cons c digits ih =>
    obtain ⟨d, value⟩ := digit?_isDigit (all c List.mem_cons_self)
    have stays : (⟨found, .number part none⟩ : Scanner).step c =
        some ⟨found, .number part none⟩ := by
      rcases decimal with rfl | rfl <;> simp [step, numberNext?, value, goTo]
    rw [scan_cons, stays, Option.bind_some]
    exact ih fun c member => all c (List.mem_cons_of_mem _ member)

/-- Digits take a number into its fraction or its exponent. -/
theorem scan_decimals {part part' : NumberPart}
    (opens : part = .point ∧ part' = .fraction ∨
      (part = .mark ∨ part = .markSign) ∧ part' = .exponent)
    (found : List Token) {digits : List Char} (some : IsDigits digits) :
    (⟨found, .number part none⟩ : Scanner).scan digits =
      Option.some ⟨found, .number part' none⟩ := by
  obtain ⟨c, digits, rfl⟩ := List.exists_cons_of_ne_nil some.1
  obtain ⟨d, value⟩ := digit?_isDigit (some.2 c List.mem_cons_self)
  have enters : (⟨found, .number part none⟩ : Scanner).step c =
      Option.some ⟨found, .number part' none⟩ := by
    rcases opens with ⟨rfl, rfl⟩ | ⟨rfl | rfl, rfl⟩ <;> simp [step, numberNext?, value, goTo]
  rw [scan_cons, enters, Option.bind_some]
  exact scan_further (opens.imp And.right And.right) found
    fun c member => some.2 c (List.mem_cons_of_mem _ member)

/-- What a number has before its fraction. -/
def IsWhole (part : NumberPart) : Prop := part = .zero ∨ part = .integer

theorem isWhole_wholePart (n : Nat) : IsWhole (wholePart n) := by
  unfold IsWhole wholePart
  split
  · exact .inl rfl
  · exact .inr rfl

/-- Where the fraction of a number leaves the scanner. -/
theorem scan_fraction {part : NumberPart} (whole : IsWhole part) (value : Option Nat)
    (found : List Token) {fraction : List Char} (fractional : IsFraction fraction) :
    ∃ part', (IsWhole part' ∨ part' = .fraction) ∧
      (⟨found, .number part value⟩ : Scanner).scan fraction =
        some ⟨found, .number part' (if fraction = [] then value else none)⟩ := by
  cases fractional with
  | absent => exact ⟨part, .inl whole, rfl⟩
  | @point digits some =>
    have opens : (⟨found, .number part value⟩ : Scanner).step '.' =
        Option.some ⟨found, .number .point none⟩ := by
      rcases whole with rfl | rfl <;> rfl
    refine ⟨.fraction, .inr rfl, ?_⟩
    rw [scan_cons, opens, Option.bind_some, scan_decimals (.inl ⟨rfl, rfl⟩) found some,
      if_neg (List.cons_ne_nil _ _)]

/-- Where the exponent of a number leaves the scanner. -/
theorem scan_exponent {part : NumberPart} (before : IsWhole part ∨ part = .fraction)
    (value : Option Nat) (found : List Token) {exponent : List Char}
    (exponential : IsExponent exponent) :
    ∃ part', part'.complete ∧
      (⟨found, .number part value⟩ : Scanner).scan exponent =
        some ⟨found, .number part' (if exponent = [] then value else none)⟩ := by
  cases exponential with
  | absent =>
    refine ⟨part, ?_, rfl⟩
    rcases before with (rfl | rfl) | rfl <;> rfl
  | @mark mark sign digits named signed some =>
    have opens : (⟨found, .number part value⟩ : Scanner).step mark =
        Option.some ⟨found, .number .mark none⟩ := by
      rcases before with (rfl | rfl) | rfl <;> rcases named with rfl | rfl <;> rfl
    have signs : ∃ part, (part = .mark ∨ part = .markSign) ∧
        (⟨found, .number .mark none⟩ : Scanner).scan sign =
          Option.some ⟨found, .number part none⟩ := by
      rcases signed with rfl | rfl | rfl
      · exact ⟨.mark, .inl rfl, rfl⟩
      · exact ⟨.markSign, .inr rfl, rfl⟩
      · exact ⟨.markSign, .inr rfl, rfl⟩
    obtain ⟨part', marked, toDigits⟩ := signs
    refine ⟨.exponent, rfl, ?_⟩
    rw [scan_cons, opens, Option.bind_some, scan_append, toDigits, Option.bind_some,
      scan_decimals (.inr ⟨marked, rfl⟩) found some, if_neg (List.cons_ne_nil _ _)]

/-- **The scanner finds a number in each of its texts**, if a mark, a blank or nothing follows. -/
theorem read_isNumber {value : Option Nat} {text : List Char} (number : IsNumber value text)
    (found : List Token) {rest : List Char} (ends : Ends rest) :
    (behind found).read (text ++ rest) = (behind (.number value :: found)).read rest := by
  cases number with
  | @parts sign fraction exponent n signed fractional exponential =>
    have whole : (behind found).scan (sign ++ Numeral.digits 10 n) =
        some ⟨found, .number (wholePart n) (if sign = [] then some n else none)⟩ := by
      rcases signed with rfl | rfl
      · exact scan_whole n found
      · exact scan_signed n found
    obtain ⟨part, before, toFraction⟩ :=
      scan_fraction (isWhole_wholePart n) (if sign = [] then some n else none) found fractional
    obtain ⟨part', complete, toExponent⟩ := scan_exponent before
      (if fraction = [] then if sign = [] then some n else none else none) found exponential
    have value : (if exponent = [] then if fraction = [] then if sign = [] then some n else none
        else none else none) = if sign ++ fraction ++ exponent = [] then some n else none := by
      simp only [List.append_eq_nil_iff]
      grind
    have scanned : (behind found).scan (sign ++ Numeral.digits 10 n ++ fraction ++ exponent) =
        some ⟨found, .number part' (if sign ++ fraction ++ exponent = [] then some n else none)⟩ :=
      by rw [scan_append, scan_append, whole, Option.bind_some, toFraction, Option.bind_some,
        toExponent, value]
    rw [read_of_scan scanned]
    exact read_number complete _ found ends

/-! ### Scanning strings -/

theorem hexDigit?_isHexDigit {c : Char} {d : Nat} (digit : IsHexDigit c d) :
    hexDigit? c = some d := by
  obtain ⟨small, rfl | rfl⟩ := digit
  · exact hexDigit?_digitChar small
  · have checked : ∀ d : Fin 16, hexDigit? (Nat.digitChar d).toUpper = some d.val := by decide
    exact checked ⟨d, small⟩

theorem scan_piece {piece : Piece} {text : List Char} (spelled : piece.IsText text)
    (found : List Token) (s : Spelling) :
    (⟨found, .string s⟩ : Scanner).scan text = some ⟨found, .string (Spelling.take s piece)⟩ := by
  cases spelled with
  | @plain c noQuote noBackslash noControl =>
    simp [scan, step, noQuote, noBackslash, Nat.not_lt.mpr noControl, goTo, Spelling.take]
  | @short letter c listed =>
    have table : ∀ entry ∈ shortEscapes, entry.1 ≠ 'u' ∧ escaped? entry.1 = some entry.2 := by
      decide
    have meant := table _ listed
    simp [scan, step, meant, goTo, Spelling.take]
  | unit first second third fourth =>
    simp [scan, step, goTo, Spelling.take, hexDigit?_isHexDigit first, hexDigit?_isHexDigit second,
      hexDigit?_isHexDigit third, hexDigit?_isHexDigit fourth]

theorem scan_pieces {pieces : List Piece} {text : List Char} (spelled : ArePieces pieces text)
    (found : List Token) (s : Spelling) :
    (⟨found, .string s⟩ : Scanner).scan text =
      some ⟨found, .string (pieces.foldl Spelling.take s)⟩ := by
  induction spelled generalizing s with
  | none => rfl
  | piece here others ih => rw [scan_append, scan_piece here, Option.bind_some, ih, List.foldl_cons]

theorem scan_isString {value : Option String} {text : List Char} (string : IsString value text)
    (found : List Token) : (behind found).scan text = some (behind (.string value :: found)) := by
  cases string with
  | @quoted pieces text spelled =>
    have opens : (behind found).step '"' = some ⟨found, .string {}⟩ := rfl
    rw [scan_cons, opens, Option.bind_some, scan_append, scan_pieces spelled, Option.bind_some]
    show (Option.some (behind (.string (pieces.foldl Spelling.take {}).finish :: found))) = _
    rw [Spelling.finish_pieces]
    rfl

/-! ### Scanning tokens -/

/-- **The scanner finds a token in each of its spellings**, if a number is followed by a mark, a
blank or nothing. -/
theorem read_spelled {token : Token} {text : List Char} (spelled : token.Spelled text)
    (found : List Token) {rest : List Char}
    (ends : ∀ value, token = .number value → Ends rest) :
    (behind found).read (text ++ rest) = (behind (token :: found)).read rest := by
  cases spelled with
  | number spelled => exact read_isNumber spelled found (ends _ rfl)
  | string spelled => exact read_of_scan (scan_isString spelled found) rest
  | _ => rfl

end Scanner

/-- The token is a mark of punctuation. -/
def Token.isMark : Token → Bool
  | objectOpen | objectClose | arrayOpen | arrayClose | colon | comma => true
  | null | bool _ | number _ | string _ => false

/-- The tokens start with a mark, if there are any. -/
def Marked (tokens : List Token) : Prop := ∀ token ∈ tokens.head?, token.isMark

/-- Of two neighbours one is a mark. -/
def Apart (tokens : List Token) : Prop :=
  tokens.IsChain fun first second => first.isMark ∨ second.isMark

namespace Scanner

/-- The text of a token that is a mark starts as one. -/
theorem closes_spelled {token : Token} {text : List Char} (spelled : token.Spelled text)
    (mark : token.isMark) (rest : List Char) : Closes (text ++ rest) := by
  cases spelled with
  | number _ | string _ | null | yes | no => cases mark
  | _ =>
    intro c first
    cases first
    rfl

theorem ends_blanks {blanks rest : List Char} (blank : ∀ c ∈ blanks, isBlank c)
    (ends : Ends rest) : Ends (blanks ++ rest) := by
  cases blanks with
  | nil => exact ends
  | cons c blanks =>
    intro first here
    cases here
    exact .inr (blank c List.mem_cons_self)

/-- Before a mark or the end, a text ends a number. -/
theorem ends_layout {tokens : List Token} {text rest : List Char} (layout : Layout tokens text)
    (marked : Marked tokens) (ends : tokens = [] → Ends rest) : Ends (text ++ rest) := by
  cases layout with
  | done blank => exact ends_blanks blank (ends rfl)
  | token blank spelled others =>
    rw [List.append_assoc, List.append_assoc]
    exact ends_blanks blank (closes_spelled spelled (marked _ rfl) _).ends

/-- **The scanner finds the tokens of a text**, whatever the blanks, if of two neighbours one is a
mark and a number at the end is not continued. -/
theorem read_layout {tokens : List Token} {text : List Char} (layout : Layout tokens text)
    (apart : Apart tokens) (found : List Token) {rest : List Char}
    (ends : ∀ value, tokens.getLast? = some (.number value) → Ends rest) :
    (behind found).read (text ++ rest) = (behind (tokens.reverse ++ found)).read rest := by
  induction layout generalizing found with
  | done blank => exact read_blanks blank found rest
  | @token token tokens blanks spelling text blank spelled others ih =>
    obtain ⟨next, later⟩ := List.isChain_cons.mp apart
    -- A number has no end of its own: it needs the mark or the blank that follows it.
    have last : ∀ value, tokens.getLast? = some (.number value) → Ends rest := by
      intro value found
      exact ends value (by rw [List.getLast?_cons, found]; rfl)
    have here : ∀ value, token = .number value → Ends (text ++ rest) := by
      rintro value rfl
      refine ends_layout others (fun t first => ?_) fun none => ends value (by rw [none]; rfl)
      exact (next t first).resolve_left Bool.false_ne_true
    rw [List.append_assoc, List.append_assoc, read_blanks blank, read_spelled spelled found here,
      ih later _ last]
    simp

end Scanner

/-- The tokens of a text are found in it. -/
theorem Token.ofText?_of_layout {tokens : List Token} {text : List Char}
    (layout : Layout tokens text) (apart : Apart tokens) : Token.ofText? text = some tokens := by
  have scanned : (Scanner.behind []).read (text ++ []) = _ :=
    Scanner.read_layout layout apart [] fun _ _ _ missing => nomatch missing
  rw [List.append_nil, List.append_nil] at scanned
  refine Eq.trans scanned ?_
  simp [Scanner.read, Scanner.scan, Scanner.behind, Scanner.finish]

/-! ### Reading texts -/

theorem marked_cons (mark : Token) (isMark : mark.isMark) (rest : List Token) :
    Marked (mark :: rest) := by
  intro token first
  cases first
  exact isMark

theorem apart_mark (mark : Token) (isMark : mark.isMark) {rest : List Token}
    (apart : Apart rest) : Apart (mark :: rest) :=
  List.isChain_cons.mpr ⟨fun _ _ => .inl isMark, apart⟩

theorem apart_before {rest : List Token} (marked : Marked rest) (token : Token)
    (apart : Apart rest) : Apart (token :: rest) :=
  List.isChain_cons.mpr ⟨fun next first => .inr (marked next first), apart⟩

namespace Value

theorem marked_itemTokens (items : List Value) {rest : List Token} (marked : Marked rest) :
    Marked (itemTokens items ++ rest) := by
  cases items with
  | nil => exact marked
  | cons item items => exact marked_cons _ rfl _

theorem marked_memberTokens (members : List (Option String × Value)) {rest : List Token}
    (marked : Marked rest) : Marked (memberTokens members ++ rest) := by
  cases members with
  | nil => exact marked
  | cons member members => exact marked_cons _ rfl _

mutual

/-- **Of two neighbouring tokens of a value one is a mark.** -/
theorem apart_tokens (v : Value) {rest : List Token} (apart : Apart rest) (marked : Marked rest) :
    Apart (v.tokens ++ rest) := by
  match v with
  | .null | .bool _ | .number _ | .string _ => exact apart_before marked _ apart
  | .array [] | .object [] => exact apart_mark _ rfl (apart_mark _ rfl apart)
  | .array (item :: items) =>
    have close : Apart (.arrayClose :: rest) := apart_mark _ rfl apart
    have others := apart_itemTokens items close (marked_cons _ rfl _)
    have first := apart_tokens item others (marked_itemTokens items (marked_cons _ rfl _))
    simpa [tokens] using apart_mark .arrayOpen rfl first
  | .object ((key, value) :: members) =>
    have close : Apart (.objectClose :: rest) := apart_mark _ rfl apart
    have others := apart_memberTokens members close (marked_cons _ rfl _)
    have first := apart_tokens value others (marked_memberTokens members (marked_cons _ rfl _))
    have named := apart_before (marked_cons .colon rfl _) (.string key)
      (apart_mark _ rfl first)
    simpa [tokens] using apart_mark .objectOpen rfl named

theorem apart_itemTokens (items : List Value) {rest : List Token} (apart : Apart rest)
    (marked : Marked rest) : Apart (itemTokens items ++ rest) := by
  match items with
  | [] => exact apart
  | item :: items =>
    have others := apart_itemTokens items apart marked
    have first := apart_tokens item others (marked_itemTokens items marked)
    simpa [itemTokens] using apart_mark .comma rfl first

theorem apart_memberTokens (members : List (Option String × Value)) {rest : List Token}
    (apart : Apart rest) (marked : Marked rest) : Apart (memberTokens members ++ rest) := by
  match members with
  | [] => exact apart
  | (key, value) :: members =>
    have others := apart_memberTokens members apart marked
    have first := apart_tokens value others (marked_memberTokens members marked)
    have named := apart_before (marked_cons .colon rfl _) (.string key)
      (apart_mark _ rfl first)
    simpa [memberTokens] using apart_mark .comma rfl named

end

theorem apart_of_tokens (v : Value) : Apart v.tokens := by
  have apart := apart_tokens v List.isChain_nil fun _ missing => nomatch missing
  rwa [List.append_nil] at apart

/-- **A value is read back from each of its texts.** -/
theorem ofText?_of_isText {v : Value} {text : String} (written : v.IsText text) :
    ofText? text = some v := by
  rw [ofText?, Token.ofText?_of_layout written (apart_of_tokens v), Option.bind_some,
    ofTokens?_tokens]

end Value

end RealMode.Json
