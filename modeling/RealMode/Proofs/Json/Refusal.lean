/-
**Only JSON texts are read.** Whatever array or object is open, the tokens that a reader has taken
are those of its parts so far, so a text that is read is one of the value it is read as. Behind an
array or an object nothing but blanks may follow, and behind an item or a member of an open one only
a comma or the end.

* `ofText?_iff`: a text is read as a value exactly if it is a text of that value.
* `ofText?_behind`: a text is not read as any value if something follows its array or object.
* `ofText?_member`, `ofText?_item`: nor if one of the parts of an array or object is followed by
  anything but a comma or the end.
-/

import RealMode.Proofs.Json.Strictness

namespace RealMode.Json

namespace Value

/-! ### Open arrays and objects -/

/-- The tokens of an array up to its end. -/
def openItems : List Value → List Token
  | [] => [.arrayOpen]
  | item :: items => .arrayOpen :: item.tokens ++ itemTokens items

/-- The tokens of an object up to its end. -/
def openMembers : List (Option String × Value) → List Token
  | [] => [.objectOpen]
  | (key, value) :: members =>
    .objectOpen :: .string key :: .colon :: value.tokens ++ memberTokens members

theorem tokens_array (items : List Value) :
    (array items).tokens = openItems items ++ [.arrayClose] := by
  cases items <;> rfl

theorem tokens_object (members : List (Option String × Value)) :
    (object members).tokens = openMembers members ++ [.objectClose] := by
  cases members <;> rfl

/-- The tokens of an array up to its next item. -/
def beforeItem (items : List Value) : List Token :=
  if items = [] then [.arrayOpen] else openItems items ++ [.comma]

/-- The tokens of an object up to its next key. -/
def beforeKey (members : List (Option String × Value)) : List Token :=
  if members = [] then [.objectOpen] else openMembers members ++ [.comma]

theorem itemTokens_append (first second : List Value) :
    itemTokens (first ++ second) = itemTokens first ++ itemTokens second := by
  induction first with
  | nil => rfl
  | cons item first ih => simp [itemTokens, ih]

theorem memberTokens_append (first second : List (Option String × Value)) :
    memberTokens (first ++ second) = memberTokens first ++ memberTokens second := by
  induction first with
  | nil => rfl
  | cons member first ih => simp [memberTokens, ih]

theorem openItems_concat (items : List Value) (item : Value) :
    openItems (items ++ [item]) = beforeItem items ++ item.tokens := by
  cases items <;> simp [openItems, beforeItem, itemTokens, itemTokens_append]

theorem openMembers_concat (members : List (Option String × Value)) (key : Option String)
    (value : Value) : openMembers (members ++ [(key, value)]) =
      beforeKey members ++ .string key :: .colon :: value.tokens := by
  cases members <;> simp [openMembers, beforeKey, memberTokens, memberTokens_append]

end Value

/-- The tokens of an open array or object up to the value being read. -/
def Frame.taken : Frame → List Token
  | .array before => Value.beforeItem before.reverse
  | .object before key => Value.beforeKey before.reverse ++ [.string key, .colon]

/-- The tokens of open arrays and objects, the innermost first. -/
def takenAround : List Frame → List Token
  | [] => []
  | frame :: outer => takenAround outer ++ frame.taken

namespace Awaited

/-- The tokens that a reader has taken. -/
def taken : Awaited → List Token
  | .value outer => takenAround outer
  | .firstItem outer => takenAround outer ++ [.arrayOpen]
  | .afterItem items outer => takenAround outer ++ Value.openItems items.reverse
  | .firstKey outer => takenAround outer ++ [.objectOpen]
  | .nextKey members outer => takenAround outer ++ Value.beforeKey members.reverse
  | .colon members key outer =>
    takenAround outer ++ Value.beforeKey members.reverse ++ [.string key]
  | .afterMember members outer => takenAround outer ++ Value.openMembers members.reverse
  | .nothing v => v.tokens

/-- Behind an item there is an item, and behind a member there is a member. -/
def Filled : Awaited → Prop
  | .afterItem items _ => items ≠ []
  | .afterMember members _ | .nextKey members _ => members ≠ []
  | _ => True

theorem taken_complete (v : Value) (outer : List Frame) :
    (complete v outer).Filled ∧ (complete v outer).taken = takenAround outer ++ v.tokens := by
  match outer with
  | [] => exact ⟨trivial, rfl⟩
  | .array before :: outer =>
    refine ⟨List.cons_ne_nil _ _, ?_⟩
    simp [complete, taken, takenAround, Frame.taken, Value.openItems_concat]
  | .object before key :: outer =>
    refine ⟨List.cons_ne_nil _ _, ?_⟩
    simp [complete, taken, takenAround, Frame.taken, Value.openMembers_concat]

theorem taken_open {outer : List Frame} {token : Token} {a : Awaited}
    (opens : open? outer token = some a) :
    a.Filled ∧ a.taken = takenAround outer ++ [token] := by
  cases token with
  | null | bool _ | number _ | string _ =>
    cases opens
    exact taken_complete _ outer
  | arrayOpen | objectOpen =>
    cases opens
    exact ⟨trivial, rfl⟩
  | arrayClose | objectClose | colon | comma => cases opens

/-- A reader takes one token at a time. -/
theorem taken_step {a a' : Awaited} {token : Token} (filled : a.Filled)
    (steps : a.step token = some a') : a'.Filled ∧ a'.taken = a.taken ++ [token] := by
  cases a with
  | value outer => exact taken_open steps
  | nothing v => cases steps
  | firstItem outer =>
    cases token with
    | arrayClose =>
      cases steps
      simpa [taken, Value.tokens] using taken_complete (.array []) outer
    | _ => exact @taken_open (.array [] :: outer) _ _ steps
  | afterItem items outer =>
    cases token with
    | arrayClose =>
      cases steps
      simpa [taken, Value.tokens_array] using taken_complete (.array items.reverse) outer
    | comma =>
      cases steps
      have some : items ≠ [] := filled
      exact ⟨trivial, by simp [taken, takenAround, Frame.taken, Value.beforeItem, some]⟩
    | _ => cases steps
  | firstKey outer =>
    cases token with
    | objectClose =>
      cases steps
      simpa [taken, Value.tokens] using taken_complete (.object []) outer
    | string key =>
      cases steps
      exact ⟨trivial, rfl⟩
    | _ => cases steps
  | nextKey members outer =>
    cases token with
    | string key =>
      cases steps
      exact ⟨trivial, rfl⟩
    | _ => cases steps
  | colon members key outer =>
    cases token with
    | colon =>
      cases steps
      exact ⟨trivial, by simp [taken, takenAround, Frame.taken]⟩
    | _ => cases steps
  | afterMember members outer =>
    cases token with
    | objectClose =>
      cases steps
      simpa [taken, Value.tokens_object] using taken_complete (.object members.reverse) outer
    | comma =>
      cases steps
      have some : members ≠ [] := filled
      exact ⟨filled, by simp [taken, Value.beforeKey, some]⟩
    | _ => cases steps

/-- **A reader has taken all tokens that it was given.** -/
theorem taken_steps {a a' : Awaited} {tokens : List Token} (filled : a.Filled)
    (steps : tokens.foldlM step a = some a') : a'.taken = a.taken ++ tokens := by
  induction tokens generalizing a with
  | nil =>
    cases steps
    rw [List.append_nil]
  | cons token tokens ih =>
    obtain ⟨next, first, others⟩ := Option.bind_eq_some_iff.mp steps
    obtain ⟨filled', taken⟩ := taken_step filled first
    rw [ih filled' others, taken, List.append_assoc, List.singleton_append]

end Awaited

namespace Value

/-! ### Texts that are read -/

/-- **Only the tokens of a value are read as that value.** -/
theorem ofTokens?_iff {tokens : List Token} {v : Value} :
    ofTokens? tokens = some v ↔ tokens = v.tokens := by
  refine ⟨fun read => ?_, fun same => by rw [same, ofTokens?_tokens]⟩
  obtain ⟨a, steps, finished⟩ := Option.bind_eq_some_iff.mp read
  have taken : a.taken = [] ++ tokens := Awaited.taken_steps (a := .value []) trivial steps
  cases a with
  | nothing w =>
    cases finished
    exact taken.symm
  | _ => cases finished

instance (v : Value) (text : String) : Decidable (v.IsText text) :=
  decidable_of_iff _ (Token.ofText?_iff (apart_of_tokens v))

/-- **A text is read as a value exactly if it is a text of that value.** -/
theorem ofText?_iff {text : String} {v : Value} : ofText? text = some v ↔ v.IsText text := by
  refine ⟨fun read => ?_, ofText?_of_isText⟩
  obtain ⟨tokens, scanned, taken⟩ := Option.bind_eq_some_iff.mp read
  rw [ofTokens?_iff.mp taken] at scanned
  exact (Token.ofText?_iff (apart_of_tokens v)).mp scanned

example : ofText? "[-1.5e3, \"\\u00e9\"]" = some (.array [.number none, .text "é"]) := by rfl

example : ofText? "[01]" = none := by rfl

/-! ### What follows an array or an object -/

/-- Where the tokens of a text end, a text is read on as far as the reader takes its tokens. -/
theorem taken_behind {tokens : List Token} {text rest : List Char} {a : Awaited} {v : Value}
    (layout : Layout tokens text) (apart : Apart tokens)
    (ended : ∀ value, tokens.getLast? ≠ some (.number value))
    (steps : tokens.foldlM Awaited.step (.value []) = some a)
    (read : ofText? (String.ofList (text ++ rest)) = some v) :
    ∃ later, Layout later rest ∧ (later.foldlM Awaited.step a).bind Awaited.finish = some v := by
  obtain ⟨all, scanned, taken⟩ := Option.bind_eq_some_iff.mp read
  rw [String.toList_ofList] at scanned
  have through : (Scanner.behind []).read (text ++ rest) = _ :=
    Scanner.read_layout layout apart [] fun value last => (ended value last).elim
  obtain ⟨later, rfl, behind⟩ := Scanner.layout_of_read (through.symm.trans scanned)
  refine ⟨later, behind, ?_⟩
  simpa [ofTokens?, List.foldlM_append, steps] using taken

theorem blank_of_layout {text : List Char} (layout : Layout [] text) : ∀ c ∈ text, isBlank c := by
  cases layout with
  | done blank => exact blank

theorem eq_of_mark? {c first : Char} {token : Token} (mark : mark? c = some token)
    (text : token.text = [first]) : c = first := by
  rcases eq_of_mark (by rw [mark]; rfl) with rfl | rfl | rfl | rfl | rfl | rfl <;>
    · cases mark
      exact List.singleton_inj.mp text

/-- A text that starts with no blank starts with its first token. -/
theorem mark_of_layout {token : Token} {tokens : List Token} {c : Char} {text : List Char}
    (layout : Layout (token :: tokens) (c :: text)) (solid : ¬ isBlank c) (mark : token.isMark) :
    mark? c = some token := by
  generalize whole : c :: text = chars at layout
  cases layout with
  | @token _ _ blanks spelling rest blank spelled others =>
    cases blanks with
    | cons first blanks =>
      cases whole
      exact (solid (blank _ List.mem_cons_self)).elim
    | nil =>
      cases spelled with
      | number _ | string _ | null | yes | no => cases mark
      | _ =>
        cases whole
        rfl

theorem apart_openMembers (members : List (Option String × Value)) :
    Apart (openMembers members) := by
  have apart := apart_of_tokens (.object members)
  rw [tokens_object] at apart
  exact apart.left_of_append

theorem apart_openItems (items : List Value) : Apart (openItems items) := by
  have apart := apart_of_tokens (.array items)
  rw [tokens_array] at apart
  exact apart.left_of_append

theorem getLast?_tokens {v : Value} (noNumber : ∀ value, v ≠ .number value) (value : Option Nat) :
    v.tokens.getLast? ≠ some (.number value) := by
  cases v with
  | number n => exact (noNumber n rfl).elim
  | array items => simp [tokens_array]
  | object members => simp [tokens_object]
  | _ => simp [tokens]

theorem getLast?_append_tokens (before : List Token) (v : Value) :
    (before ++ v.tokens).getLast? = v.tokens.getLast? := by
  have some : v.tokens ≠ [] := by
    cases v <;> simp [tokens, tokens_array, tokens_object]
  rw [List.getLast?_append, List.getLast?_eq_some_getLast some, Option.some_or]

theorem steps_openMembers {members : List (Option String × Value)} (some : members ≠ [])
    (outer : List Frame) : (openMembers members).foldlM Awaited.step (.value outer) =
      Option.some (.afterMember members.reverse outer) := by
  obtain ⟨⟨key, value⟩, members, rfl⟩ := List.exists_cons_of_ne_nil some
  have first := step_tokens value (.object [] key :: outer)
  have rest := step_memberTokens members [(key, value)] outer
  simp only [openMembers, List.cons_append, List.foldlM_cons, List.foldlM_append, Awaited.step,
    Awaited.open?, Option.bind_eq_bind, Option.bind_some]
  rw [first]
  simpa [Awaited.complete] using rest

theorem steps_openItems {items : List Value} (some : items ≠ []) (outer : List Frame) :
    (openItems items).foldlM Awaited.step (.value outer) =
      Option.some (.afterItem items.reverse outer) := by
  obtain ⟨item, items, rfl⟩ := List.exists_cons_of_ne_nil some
  have first := step_tokens item (.array [] :: outer)
  have rest := step_itemTokens items [item] outer
  simp only [openItems, List.cons_append, List.foldlM_cons, List.foldlM_append, Awaited.step,
    Awaited.open?, Option.bind_eq_bind, Option.bind_some, step_firstItem_tokens]
  rw [first]
  simpa [Awaited.complete] using rest

/-- **Nothing but blanks may follow a value**, unless it is a number, which may go on. -/
theorem ofText?_behind {v : Value} (noNumber : ∀ value, v ≠ .number value) {text : String}
    (written : v.IsText text) {rest : String} (more : ∃ c ∈ rest.toList, ¬ isBlank c) :
    ofText? (text ++ rest) = none := by
  by_contra read
  obtain ⟨w, read⟩ := Option.ne_none_iff_exists'.mp read
  rw [← String.ofList_toList (s := text ++ rest), String.toList_append] at read
  obtain ⟨later, behind, taken⟩ :=
    taken_behind written (apart_of_tokens v) (getLast?_tokens noNumber) (step_tokens v []) read
  cases later with
  | nil =>
    obtain ⟨c, member, solid⟩ := more
    exact solid (blank_of_layout behind c member)
  | cons token later => cases taken

/-- In an open array or object, a character that starts no token to be taken is refused. -/
theorem ofText?_inside {tokens : List Token} {text : List Char} {a : Awaited}
    (layout : Layout tokens text) (apart : Apart tokens)
    (ended : ∀ value, tokens.getLast? ≠ some (.number value))
    (steps : tokens.foldlM Awaited.step (.value []) = some a) (unfinished : a.finish = none)
    {c : Char} (solid : ¬ isBlank c)
    (refused : ∀ token, (token.isMark → mark? c = some token) → a.step token = none)
    (rest : List Char) : ofText? (String.ofList (text ++ c :: rest)) = none := by
  by_contra read
  obtain ⟨w, read⟩ := Option.ne_none_iff_exists'.mp read
  obtain ⟨later, behind, taken⟩ := taken_behind layout apart ended steps read
  cases later with
  | nil =>
    rw [List.foldlM_nil] at taken
    cases unfinished.symm.trans taken
  | cons token later =>
    have none := refused token (mark_of_layout behind solid)
    rw [List.foldlM_cons, none] at taken
    cases taken

/-- **Behind a member nothing but a comma or the end may follow.** -/
theorem ofText?_member {members : List (Option String × Value)} {key : Option String} {v : Value}
    (noNumber : ∀ value, v ≠ .number value) {text : List Char}
    (layout : Layout (openMembers (members ++ [(key, v)])) text) {c : Char} (solid : ¬ isBlank c)
    (noComma : c ≠ ',') (noEnd : c ≠ '}') (rest : List Char) :
    ofText? (String.ofList (text ++ c :: rest)) = none := by
  refine ofText?_inside layout (apart_openMembers _) (fun value => ?_)
    (steps_openMembers (by simp) []) rfl solid (fun token starts => ?_) rest
  · rw [openMembers_concat, List.append_cons, List.append_cons, getLast?_append_tokens]
    exact getLast?_tokens noNumber value
  · cases token with
    | comma => exact (noComma (eq_of_mark? (starts rfl) rfl)).elim
    | objectClose => exact (noEnd (eq_of_mark? (starts rfl) rfl)).elim
    | _ => rfl

/-- **Behind an item nothing but a comma or the end may follow.** -/
theorem ofText?_item {items : List Value} {v : Value} (noNumber : ∀ value, v ≠ .number value)
    {text : List Char} (layout : Layout (openItems (items ++ [v])) text) {c : Char}
    (solid : ¬ isBlank c) (noComma : c ≠ ',') (noEnd : c ≠ ']') (rest : List Char) :
    ofText? (String.ofList (text ++ c :: rest)) = none := by
  refine ofText?_inside layout (apart_openItems _) (fun value => ?_)
    (steps_openItems (by simp) []) rfl solid (fun token starts => ?_) rest
  · rw [openItems_concat, getLast?_append_tokens]
    exact getLast?_tokens noNumber value
  · cases token with
    | comma => exact (noComma (eq_of_mark? (starts rfl) rfl)).elim
    | arrayClose => exact (noEnd (eq_of_mark? (starts rfl) rfl)).elim
    | _ => rfl

end Value

end RealMode.Json
