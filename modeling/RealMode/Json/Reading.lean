/-
**Reading JSON values.** The tokens of a text are taken one at a time; the reader carries the open
arrays and objects around the place where it stands, so that nesting is not bounded. A value is read
only if nothing follows it.

* `ofTokens?_tokens`: a value is read back from its tokens.
-/

import RealMode.Json.Value

namespace RealMode.Json

/-- An array or object that is still open: what it holds before the value being read, last
first. -/
inductive Frame
  | array (before : List Value)
  | object (before : List (Option String × Value)) (key : Option String)

/-- What a reader waits for. -/
inductive Awaited
  /-- A value. -/
  | value (outer : List Frame)
  /-- The first item of an array, or its end. -/
  | firstItem (outer : List Frame)
  /-- A comma or the end of an array. -/
  | afterItem (items : List Value) (outer : List Frame)
  /-- The first key of an object, or its end. -/
  | firstKey (outer : List Frame)
  /-- Another key. -/
  | nextKey (members : List (Option String × Value)) (outer : List Frame)
  /-- The colon after a key. -/
  | colon (members : List (Option String × Value)) (key : Option String) (outer : List Frame)
  /-- A comma or the end of an object. -/
  | afterMember (members : List (Option String × Value)) (outer : List Frame)
  /-- Nothing: the value is complete. -/
  | nothing (value : Value)

namespace Awaited

/-- What is awaited once a value is complete. -/
def complete (v : Value) : List Frame → Awaited
  | [] => .nothing v
  | .array before :: outer => .afterItem (v :: before) outer
  | .object before key :: outer => .afterMember ((key, v) :: before) outer

/-- Takes the first token of a value. -/
def open? (outer : List Frame) : Token → Option Awaited
  | .null => some (complete .null outer)
  | .bool b => some (complete (.bool b) outer)
  | .number n => some (complete (.number n) outer)
  | .string s => some (complete (.string s) outer)
  | .arrayOpen => some (.firstItem outer)
  | .objectOpen => some (.firstKey outer)
  | .arrayClose | .objectClose | .colon | .comma => none

/-- Takes one token. -/
def step : Awaited → Token → Option Awaited
  | .value outer, token => open? outer token
  | .firstItem outer, .arrayClose => some (complete (.array []) outer)
  | .firstItem outer, token => open? (.array [] :: outer) token
  | .afterItem items outer, .arrayClose => some (complete (.array items.reverse) outer)
  | .afterItem items outer, .comma => some (.value (.array items :: outer))
  | .firstKey outer, .objectClose => some (complete (.object []) outer)
  | .firstKey outer, .string key => some (.colon [] key outer)
  | .nextKey members outer, .string key => some (.colon members key outer)
  | .colon members key outer, .colon => some (.value (.object members key :: outer))
  | .afterMember members outer, .objectClose =>
    some (complete (.object members.reverse) outer)
  | .afterMember members outer, .comma => some (.nextKey members outer)
  | _, _ => none

/-- The value, if it is complete. -/
def finish : Awaited → Option Value
  | .nothing v => some v
  | _ => none

end Awaited

namespace Value

/-- The value that some tokens are. -/
def ofTokens? (tokens : List Token) : Option Value :=
  (tokens.foldlM Awaited.step (.value [])).bind Awaited.finish

/-- The value that a text is. -/
def ofText? (text : String) : Option Value := (Token.ofText? text.toList).bind ofTokens?

/-! ### Reading what was written -/

/-- The tokens of a value do not start with the end of an array. -/
theorem step_firstItem_tokens (v : Value) (outer : List Frame) :
    v.tokens.foldlM Awaited.step (.firstItem outer) =
      v.tokens.foldlM Awaited.step (.value (.array [] :: outer)) := by
  cases v with
  | array items => cases items <;> rfl
  | object members => rcases members with _ | ⟨⟨key, value⟩, members⟩ <;> rfl
  | _ => rfl

mutual

theorem step_tokens (v : Value) (outer : List Frame) :
    v.tokens.foldlM Awaited.step (.value outer) = some (.complete v outer) := by
  match v with
  | null | bool _ | number _ | string _ | array [] | object [] => rfl
  | array (item :: items) =>
    have first := step_tokens item (.array [] :: outer)
    have rest := step_itemTokens items [item] outer
    simp only [tokens, List.cons_append, List.foldlM_cons, List.foldlM_append, Awaited.step,
      Awaited.open?, Option.bind_eq_bind, Option.bind_some, step_firstItem_tokens]
    rw [first]
    simp only [Awaited.complete, Option.bind_some, rest]
    simp
  | object ((key, value) :: members) =>
    have first := step_tokens value (.object [] key :: outer)
    have rest := step_memberTokens members [(key, value)] outer
    simp only [tokens, List.cons_append, List.foldlM_cons, List.foldlM_append, Awaited.step,
      Awaited.open?, Option.bind_eq_bind, Option.bind_some]
    rw [first]
    simp only [Awaited.complete, Option.bind_some, rest]
    simp

theorem step_itemTokens (items before : List Value) (outer : List Frame) :
    (itemTokens items).foldlM Awaited.step (.afterItem before outer) =
      some (.afterItem (items.reverse ++ before) outer) := by
  match items with
  | [] => rfl
  | item :: items =>
    have first := step_tokens item (.array before :: outer)
    have rest := step_itemTokens items (item :: before) outer
    simp only [itemTokens, List.cons_append, List.foldlM_cons, List.foldlM_append, Awaited.step,
      Option.bind_eq_bind, Option.bind_some]
    rw [first]
    simp only [Awaited.complete, Option.bind_some, rest]
    simp

theorem step_memberTokens (members before : List (Option String × Value)) (outer : List Frame) :
    (memberTokens members).foldlM Awaited.step (.afterMember before outer) =
      some (.afterMember (members.reverse ++ before) outer) := by
  match members with
  | [] => rfl
  | (key, value) :: members =>
    have first := step_tokens value (.object before key :: outer)
    have rest := step_memberTokens members ((key, value) :: before) outer
    simp only [memberTokens, List.cons_append, List.foldlM_cons, List.foldlM_append, Awaited.step,
      Option.bind_eq_bind, Option.bind_some]
    rw [first]
    simp only [Awaited.complete, Option.bind_some, rest]
    simp

end

theorem ofTokens?_tokens (v : Value) : ofTokens? v.tokens = some v := by
  rw [ofTokens?, step_tokens v []]
  rfl

end Value

end RealMode.Json
