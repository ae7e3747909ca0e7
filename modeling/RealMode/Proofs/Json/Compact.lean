/-
**Compact JSON texts.** A value written without blanks is the texts of its parts between brackets,
with a comma between any two of them and a colon after each key.

* `compact_array`, `compact_record`: the text of an array and of an object from those of its parts.
* `quote_plain`: a name without special characters is written as it is, between quotes.
-/

import RealMode.Json.Value

namespace RealMode.Json

/-! ### Texts -/

/-- Texts between square brackets. -/
def arrayText (items : List String) : String := "[" ++ ",".intercalate items ++ "]"

/-- A name between quotes. -/
def quoted (name : String) : String := "\"" ++ name ++ "\""

/-- Texts under their keys, between braces. -/
def objectText (members : List (String × String)) : String :=
  "\x7b" ++ ",".intercalate (members.map fun member => quoted member.1 ++ ":" ++ member.2) ++
    "\x7d"

/-- No character of the text is written as an escape. -/
def Plain (text : String) : Prop := text.toList.flatMap escape = text.toList

instance (text : String) : Decidable (Plain text) :=
  inferInstanceAs (Decidable (text.toList.flatMap escape = text.toList))

theorem quote_plain {name : String} (plain : Plain name) : quote name = (quoted name).toList := by
  rw [quote, plain, quoted, String.toList_append, String.toList_append]
  rfl

theorem toList_intercalate_cons (first : String) (rest : List String) :
    (",".intercalate (first :: rest)).toList =
      first.toList ++ rest.flatMap fun text => ',' :: text.toList := by
  induction rest generalizing first with
  | nil => rw [String.intercalate_singleton, List.flatMap_nil, List.append_nil]
  | cons second rest ih =>
    rw [String.intercalate_cons_cons, String.toList_append, String.toList_append, ih,
      List.flatMap_cons, List.append_assoc]
    rfl

namespace Value

theorem toList_compact (v : Value) : v.compact.toList = v.tokens.flatMap Token.text :=
  String.toList_ofList

theorem text_itemTokens (items : List Value) :
    (itemTokens items).flatMap Token.text = items.flatMap fun v => ',' :: v.compact.toList := by
  induction items with
  | nil => rfl
  | cons item items ih =>
    rw [List.flatMap_cons, ← ih, toList_compact]
    simp [itemTokens, Token.text]

/-- **The text of an array** is those of its items, with a comma between any two. -/
theorem compact_array (items : List Value) :
    (array items).compact = arrayText (items.map compact) := by
  apply String.toList_inj.mp
  cases items with
  | nil => rfl
  | cons item items =>
    rw [arrayText, String.toList_append, String.toList_append, List.map_cons,
      toList_intercalate_cons, List.flatMap_map, ← text_itemTokens, toList_compact, toList_compact]
    simp [tokens, Token.text]

theorem text_memberTokens (members : List (String × Value))
    (plain : ∀ member ∈ members, Plain member.1) :
    (memberTokens (members.map fun member => (some member.1, member.2))).flatMap Token.text =
      members.flatMap fun member =>
        ',' :: (quoted member.1 ++ ":" ++ member.2.compact).toList := by
  induction members with
  | nil => rfl
  | cons member members ih =>
    have name := quote_plain (plain member List.mem_cons_self)
    rw [List.flatMap_cons, ← ih fun other later => plain other (List.mem_cons_of_mem _ later),
      String.toList_append, String.toList_append, ← name, toList_compact]
    simp [memberTokens, Token.text]

/-- **The text of an object** is those of its members under their keys. -/
theorem compact_record (members : List (String × Value))
    (plain : ∀ member ∈ members, Plain member.1) :
    (record members).compact =
      objectText (members.map fun member => (member.1, member.2.compact)) := by
  apply String.toList_inj.mp
  cases members with
  | nil => rfl
  | cons member members =>
    have name := quote_plain (plain member List.mem_cons_self)
    rw [objectText, String.toList_append, String.toList_append, List.map_map, List.map_cons,
      toList_intercalate_cons, List.flatMap_map]
    have rest := text_memberTokens members fun other later =>
      plain other (List.mem_cons_of_mem _ later)
    simp only [Function.comp_apply]
    rw [← rest, String.toList_append, String.toList_append, ← name, toList_compact, toList_compact]
    simp [record, tokens, Token.text]

theorem compact_nat (n : Nat) : (nat n).compact = Numeral.decimal n := by
  rw [compact, nat, tokens, List.flatMap_singleton]
  rfl

theorem compact_text {name : String} (plain : Plain name) : (text name).compact = quoted name := by
  rw [compact, text, tokens, List.flatMap_singleton, Token.text, quote_plain plain,
    String.ofList_toList]

theorem compact_bool (b : Bool) : (bool b).compact = if b then "true" else "false" := by
  cases b <;> rfl

end Value

end RealMode.Json
