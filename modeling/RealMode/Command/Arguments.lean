/-
**Command-line arguments.** An argument is a flag, a setting with its value attached or after it, or
an operand; two dashes end the options. A value that is not attached does not start with a dash,
though it may be a single dash.

* `operand_of_not_isOption`: what does not look like an option is an operand.
-/

namespace RealMode.Command

/-- The options of a command: `flags` stand alone, `settings` take a value. -/
structure Grammar where
  flags : List String
  settings : List String

/-- One argument. -/
inductive Argument
  | flag (name : String)
  | setting (name value : String)
  | operand (text : String)
  deriving DecidableEq

/-- A text that looks like an option: a dash with something after it. -/
def isOption (text : String) : Bool := text.toList.head? == some '-' && text != "-"

/-- The name of an option, and the value attached to it by an equals sign. -/
def attached (text : String) : String × Option String :=
  match text.toList.span (· != '=') with
  | (name, _ :: value) => (String.ofList name, some (String.ofList value))
  | (name, []) => (String.ofList name, none)

/-- Reads the arguments of a command. -/
def Grammar.read? (g : Grammar) : List String → Option (List Argument)
  | [] => some []
  | text :: rest =>
    if text = "--" then some (rest.map .operand)
    else if isOption text then
      match attached text with
      | (name, some value) =>
        if name ∈ g.settings then (g.read? rest).map (.setting name value :: ·) else none
      | (name, none) =>
        if name ∈ g.flags then (g.read? rest).map (.flag name :: ·)
        else if name ∈ g.settings then
          match rest with
          | [] => none
          | value :: rest =>
            if isOption value then none else (g.read? rest).map (.setting name value :: ·)
        else none
    else (g.read? rest).map (.operand text :: ·)

/-- Whether a flag is given; it may be given once. -/
def flag? (arguments : List Argument) (name : String) : Option Bool :=
  match arguments.count (.flag name) with
  | 0 => some false
  | 1 => some true
  | _ => none

/-- The value of a setting for which a value is given. -/
def Argument.settingValue? (name : String) : Argument → Option String
  | setting other value => if other = name then some value else none
  | flag _ | operand _ => none

/-- The value of a setting, if it is given; it may be given once. -/
def setting? (arguments : List Argument) (name : String) : Option (Option String) :=
  match arguments.filterMap (Argument.settingValue? name) with
  | [] => some none
  | [value] => some (some value)
  | _ => none

/-- The text of an operand. -/
def Argument.operandText? : Argument → Option String
  | operand text => some text
  | flag _ | setting _ _ => none

/-- The one operand. -/
def operand? (arguments : List Argument) : Option String :=
  match arguments.filterMap Argument.operandText? with
  | [text] => some text
  | _ => none

/-- Sizes lie below this bound. -/
def sizeBound : Nat := UInt64.size

/-- A size: decimal digits, a plus sign before them allowed. -/
def size? (text : String) : Option Nat :=
  let digits :=
    match text.toList with
    | '+' :: digits => digits
    | digits => digits
  if digits ≠ [] ∧ digits.all Char.isDigit then
    let n := Nat.ofDigitChars 10 digits 0
    if n < sizeBound then some n else none
  else none

/-- The form of the output. -/
inductive OutputFormat
  | text
  | json
  deriving DecidableEq

/-- The form that a word names; text where no word is given. -/
def OutputFormat.ofWord? : Option String → Option OutputFormat
  | none | some "text" => some .text
  | some "json" => some .json
  | some _ => none

theorem operand_of_not_isOption (g : Grammar) {text : String} (rest : List String)
    (plain : isOption text = false) :
    g.read? (text :: rest) = (g.read? rest).map (.operand text :: ·) := by
  have notEnd : text ≠ "--" := by
    rintro rfl
    exact absurd plain (by decide)
  rw [Grammar.read?, if_neg notEnd, if_neg (by simp [plain])]

end RealMode.Command
