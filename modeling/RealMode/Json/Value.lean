/-
**JSON values and how they are written.** A value is written as the texts of its tokens without
blanks, or over several lines with two blanks for each level of nesting.
-/

import RealMode.Json.Token

namespace RealMode.Json

/-- A JSON value. Members stand in the order in which they were written, repeated keys included. -/
inductive Value
  | null
  | bool (value : Bool)
  | number (value : Option Nat)
  | string (value : Option String)
  | array (items : List Value)
  | object (members : List (Option String × Value))

namespace Value

/-- A natural number. -/
def nat (n : Nat) : Value := .number (some n)

/-- A string. -/
def text (s : String) : Value := .string (some s)

/-- An object with readable keys. -/
def record (members : List (String × Value)) : Value :=
  .object (members.map fun member => (some member.1, member.2))

mutual

/-- The tokens of a value. -/
def tokens : Value → List Token
  | null => [.null]
  | bool b => [.bool b]
  | number n => [.number n]
  | string s => [.string s]
  | array [] => [.arrayOpen, .arrayClose]
  | array (item :: items) => .arrayOpen :: item.tokens ++ itemTokens items ++ [.arrayClose]
  | object [] => [.objectOpen, .objectClose]
  | object ((key, value) :: members) =>
    .objectOpen :: .string key :: .colon :: value.tokens ++ memberTokens members ++ [.objectClose]

/-- The tokens of the items that follow an item. -/
def itemTokens : List Value → List Token
  | [] => []
  | item :: items => .comma :: item.tokens ++ itemTokens items

/-- The tokens of the members that follow a member. -/
def memberTokens : List (Option String × Value) → List Token
  | [] => []
  | (key, value) :: members =>
    .comma :: .string key :: .colon :: value.tokens ++ memberTokens members

end

/-- The text of a value without blanks. -/
def compact (v : Value) : String := String.ofList (v.tokens.flatMap Token.text)

/-- The start of a line at some depth. -/
def newLine (depth : Nat) : List Char := '\n' :: List.replicate (2 * depth) ' '

mutual

/-- The text of a value over several lines, inside `depth` brackets. -/
def lines (depth : Nat) : Value → List Char
  | null => Token.null.text
  | bool b => (Token.bool b).text
  | number n => (Token.number n).text
  | string s => (Token.string s).text
  | array [] => ['[', ']']
  | array (item :: items) =>
    '[' :: newLine (depth + 1) ++ item.lines (depth + 1) ++ itemLines (depth + 1) items ++
      newLine depth ++ [']']
  | object [] => ['{', '}']
  | object ((key, value) :: members) =>
    '{' :: newLine (depth + 1) ++ (Token.string key).text ++ [':', ' '] ++
      value.lines (depth + 1) ++ memberLines (depth + 1) members ++ newLine depth ++ ['}']

/-- The text of the items that follow an item. -/
def itemLines (depth : Nat) : List Value → List Char
  | [] => []
  | item :: items => ',' :: newLine depth ++ item.lines depth ++ itemLines depth items

/-- The text of the members that follow a member. -/
def memberLines (depth : Nat) : List (Option String × Value) → List Char
  | [] => []
  | (key, value) :: members =>
    ',' :: newLine depth ++ (Token.string key).text ++ [':', ' '] ++ value.lines depth ++
      memberLines depth members

end

/-- The text of a value over several lines. -/
def pretty (v : Value) : String := String.ofList (v.lines 0)

end Value

end RealMode.Json
