/-
**JSON texts over several lines are read back.** Blanks between tokens make no difference to the
scanner, and a number may end at one, so a value is read back from its lines as from its text
without blanks.

* `read_blanks`: blanks between tokens are passed over.
* `read_lines`: the scanner finds the tokens of a value in its lines, at any depth.
* `ofText?_pretty`: a value that is fully known is read back from its lines.
-/

import RealMode.Json.Written

namespace RealMode.Json

namespace Scanner

theorem read_blank {c : Char} (blank : isBlank c) (found : List Token) (rest : List Char) :
    (behind found).read (c :: rest) = (behind found).read rest := by
  simp [read, scan_cons, step, behind, stepBetween, blank, goTo]

/-- **Blanks between tokens are passed over.** -/
theorem read_blanks {blanks : List Char} (blank : ∀ c ∈ blanks, isBlank c) (found : List Token)
    (rest : List Char) : (behind found).read (blanks ++ rest) = (behind found).read rest := by
  induction blanks with
  | nil => rfl
  | cons c blanks ih =>
    rw [List.cons_append, read_blank (blank c List.mem_cons_self),
      ih fun c member => blank c (List.mem_cons_of_mem _ member)]

theorem isBlank_newLine (depth : Nat) : ∀ c ∈ Value.newLine depth, isBlank c := by
  intro c member
  rcases List.mem_cons.mp member with rfl | indent
  · rfl
  · rw [List.eq_of_mem_replicate indent]
    rfl

theorem read_newLine (depth : Nat) (found : List Token) (rest : List Char) :
    (behind found).read (Value.newLine depth ++ rest) = (behind found).read rest :=
  read_blanks (isBlank_newLine depth) found rest

theorem read_key_blank (key : String) (found : List Token) (rest : List Char) :
    (behind found).read (quote key ++ ':' :: ' ' :: rest) =
      (behind (.colon :: .string (some key) :: found)).read rest := by
  rw [read_key, read_blank rfl]

/-! ### Values -/

theorem ends_newLine (depth : Nat) (rest : List Char) : Ends (Value.newLine depth ++ rest) := by
  intro c first
  cases first
  exact .inr rfl

theorem ends_itemLines (depth : Nat) (items : List Value) {rest : List Char} (ends : Ends rest) :
    Ends (Value.itemLines depth items ++ rest) := by
  cases items with
  | nil => exact ends
  | cons item items =>
    intro c first
    cases first
    exact .inl rfl

theorem ends_memberLines (depth : Nat) (members : List (Option String × Value))
    {rest : List Char} (ends : Ends rest) : Ends (Value.memberLines depth members ++ rest) := by
  rcases members with _ | ⟨⟨key, value⟩, members⟩
  · exact ends
  · intro c first
    cases first
    exact .inl rfl

mutual

/-- **The scanner finds the tokens of a value in its lines.** -/
theorem read_lines (v : Value) (known : v.tokens.all Token.isKnown) (depth : Nat)
    (found : List Token) {rest : List Char} (ends : Ends rest) :
    (behind found).read (v.lines depth ++ rest) =
      (behind (v.tokens.reverse ++ found)).read rest := by
  match v with
  | .null | .bool true | .bool false | .array [] | .object [] => rfl
  | .number none | .string none => cases known
  | .number (some n) => exact read_natural n found ends
  | .string (some s) => exact read_of_scan (scan_quote found s) rest
  | .array (item :: items) =>
    simp only [Value.tokens, List.cons_append, List.all_append, List.all_cons,
      Bool.and_eq_true] at known
    obtain ⟨_, ⟨itemKnown, itemsKnown⟩, _⟩ := known
    have close := ends_newLine depth (']' :: rest)
    have first := fun found =>
      read_lines item itemKnown (depth + 1) found (ends_itemLines (depth + 1) items close)
    have others := fun found => read_itemLines items itemsKnown (depth + 1) found close
    have opens := fun text => read_mark (c := '[') rfl found text
    have shut := fun found => read_mark (c := ']') rfl found rest
    simp [Value.lines, Value.tokens, opens, read_newLine, first, others, shut]
  | .object ((none, _) :: _) => cases known
  | .object ((some key, value) :: members) =>
    simp only [Value.tokens, List.cons_append, List.all_append, List.all_cons,
      Bool.and_eq_true] at known
    obtain ⟨_, _, _, ⟨valueKnown, membersKnown⟩, _⟩ := known
    have close := ends_newLine depth ('}' :: rest)
    have first := fun found =>
      read_lines value valueKnown (depth + 1) found (ends_memberLines (depth + 1) members close)
    have others := fun found => read_memberLines members membersKnown (depth + 1) found close
    have opens := fun text => read_mark (c := '{') rfl found text
    have shut := fun found => read_mark (c := '}') rfl found rest
    simp [Value.lines, Value.tokens, Token.text, opens, read_newLine, read_key_blank, first, others,
      shut]

theorem read_itemLines (items : List Value) (known : (Value.itemTokens items).all Token.isKnown)
    (depth : Nat) (found : List Token) {rest : List Char} (ends : Ends rest) :
    (behind found).read (Value.itemLines depth items ++ rest) =
      (behind ((Value.itemTokens items).reverse ++ found)).read rest := by
  match items with
  | [] => rfl
  | item :: items =>
    simp only [Value.itemTokens, List.cons_append, List.all_append, List.all_cons,
      Bool.and_eq_true] at known
    obtain ⟨_, itemKnown, itemsKnown⟩ := known
    have first := fun found =>
      read_lines item itemKnown depth found (ends_itemLines depth items ends)
    have others := fun found => read_itemLines items itemsKnown depth found ends
    have opens := fun text => read_mark (c := ',') rfl found text
    simp [Value.itemLines, Value.itemTokens, opens, read_newLine, first, others]

theorem read_memberLines (members : List (Option String × Value))
    (known : (Value.memberTokens members).all Token.isKnown) (depth : Nat) (found : List Token)
    {rest : List Char} (ends : Ends rest) :
    (behind found).read (Value.memberLines depth members ++ rest) =
      (behind ((Value.memberTokens members).reverse ++ found)).read rest := by
  match members with
  | [] => rfl
  | (none, _) :: _ => cases known
  | (some key, value) :: members =>
    simp only [Value.memberTokens, List.cons_append, List.all_append, List.all_cons,
      Bool.and_eq_true] at known
    obtain ⟨_, _, _, valueKnown, membersKnown⟩ := known
    have first := fun found =>
      read_lines value valueKnown depth found (ends_memberLines depth members ends)
    have others := fun found => read_memberLines members membersKnown depth found ends
    have opens := fun text => read_mark (c := ',') rfl found text
    simp [Value.memberLines, Value.memberTokens, Token.text, opens, read_newLine, read_key_blank,
      first, others]

end

end Scanner

namespace Value

/-- **A value that is fully known is read back from its lines**, with a line end after them. -/
theorem ofText?_pretty {v : Value} (known : v.isKnown) :
    ofText? (v.pretty ++ "\n") = some v := by
  have ends : Ends ['\n'] := fun c first => by
    cases first
    exact .inr rfl
  have scanned := Scanner.read_lines v known 0 [] ends
  rw [List.append_nil, Scanner.read_blank rfl] at scanned
  have tokens : Token.ofText? (v.pretty ++ "\n").toList = some v.tokens := by
    rw [String.toList_append, pretty, String.toList_ofList]
    refine Eq.trans scanned ?_
    simp [Scanner.read, Scanner.scan, Scanner.behind, Scanner.finish]
  rw [ofText?, tokens, Option.bind_some, ofTokens?_tokens]

end Value

end RealMode.Json
