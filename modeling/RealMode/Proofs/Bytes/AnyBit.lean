/-
**Decoding from any bit.** A reader that stands inside a byte takes the format from the byte under
it, and the bits of the fields from where it stands. When this succeeds, the first byte ahead has
the fixed bits of the format, so it would have chosen the same one: but for the opcode that it
notes, the decoding is that of the bytes ahead.

* `walk_recode`: the opcode plays no part in what the fields of a format come to.
* `table_fits`: fixed bits belong to one format.
* `first_fits`: the bytes that the fields of a format are read from start with its fixed bits.
* `ofBytes_of_decode`: from any bit, what is decoded is told by the bytes ahead.
* `moves_of_decode`: from any bit, a decoding moves the reader by whole bytes.
-/

import Mathlib.Tactic.SplitIfs
import RealMode.Proofs.Bytes.Formats

namespace RealMode.Decoding

open BitReader ByteReading

/-! ### The opcode plays no part -/

section Recode

variable {op op' : Decoding} {bytes rest : List UInt8} {field : Field} {fields : List Field}
  {value : UInt8} {left held : Nat}

/-- The decoding with another opcode. -/
def recode (op : Decoding) (opcode : UInt8) : Decoding := { op with opcode }

theorem fillAfterCode_recode (op : Decoding) (code opcode : UInt8) :
    (op.recode opcode).fillAfterCode code =
      (op.fillAfterCode code).bind fun op => .done (op.recode opcode) := by
  have known : (op.recode opcode).mode = op.mode := rfl
  unfold fillAfterCode
  rw [known]
  cases op.mode with
  | none => rfl
  | some mode =>
    dsimp only
    rw [bind_ite, bind_ite, bind_ite]
    rfl

theorem fill_recode (opcode : UInt8) (taken : (op.fill field value).run bytes = .taken op' rest) :
    ((op.recode opcode).fill field value).run bytes = .taken (op'.recode opcode) rest := by
  obtain ⟨kind, width, expected⟩ := field
  cases kind
  case literal =>
    dsimp only [fill] at taken ⊢
    split_ifs at taken ⊢
    · cases taken
      rfl
    · cases taken
  case ext =>
    dsimp only [fill] at taken ⊢
    split_ifs at taken ⊢
    · cases taken
      rfl
    · cases taken
      rfl
    · cases taken
      rfl
    · cases taken
  case rm =>
    have filled := fillAfterCode_recode { op with rm := some value } value opcode
    have came : (fillAfterCode { op with rm := some value } value).run bytes = .taken op' rest :=
      taken
    show (fillAfterCode (recode { op with rm := some value } opcode) value).run bytes = _
    rw [filled, run_bind, came]
    rfl
  case dataHigh =>
    have same : (op.recode opcode).wide = op.wide ∧ (op.recode opcode).s = op.s := ⟨rfl, rfl⟩
    dsimp only [fill] at taken ⊢
    rw [same.1, same.2]
    split_ifs at taken ⊢
    · match bytes, taken with
      | high :: rest, rfl => rfl
    · cases taken
      rfl
  case addr =>
    match bytes, taken with
    | low :: high :: rest, rfl => rfl
  all_goals
    cases taken
    rfl

/-- **The opcode plays no part in what the fields come to.** -/
theorem walk_recode (opcode : UInt8)
    (taken : (walk fields op left held).run bytes = .taken op' rest) :
    (walk fields (op.recode opcode) left held).run bytes = .taken (op'.recode opcode) rest := by
  induction fields generalizing op left held bytes with
  | nil =>
    cases taken
    rfl
  | cons field fields ih =>
    have onward : ∀ {value : UInt8} {left held : Nat} {bytes : List UInt8},
        ((op.fill field value).bind fun op => walk fields op left held).run bytes =
            .taken op' rest →
          (((op.recode opcode).fill field value).bind fun op =>
            walk fields op left held).run bytes = .taken (op'.recode opcode) rest := by
      intro value left held bytes taken
      obtain ⟨op₁, further, filled, walked⟩ := of_run_bind taken
      rw [run_bind, fill_recode opcode filled]
      exact ih walked
    rw [walk] at taken ⊢
    dsimp only at taken ⊢
    split_ifs at taken ⊢
    · exact onward taken
    · cases bytes with
      | nil => cases taken
      | cons byte bytes => exact onward taken
    · exact onward taken

/-- A walk keeps the opcode. -/
theorem opcode_of_walk (taken : (walk fields op left held).run bytes = .taken op' rest) :
    op'.opcode = op.opcode := by
  have same := walk_recode op.opcode taken
  have own : op.recode op.opcode = op := rfl
  rw [own, taken] at same
  have recoded := congrArg opcode (Outcome.taken.inj same).1
  exact recoded

end Recode

/-! ### Fixed bits choose the format -/

/-- The fixed bits among the last `left` bits of a byte, which spell `held`, are those of the
fields. -/
def fits : List Field → Nat → Nat → Bool
  | [], _, _ => true
  | field :: fields, left, held =>
    let after := left - field.width.toNat
    if field.takesBits ∧ field.width.toNat ≤ left then
      (field.kind ≠ .literal || (held / 2 ^ after).toUInt8 == field.value) &&
        fits fields after (held % 2 ^ after)
    else true

theorem fits_of_walk {op op' : Decoding} {bytes rest : List UInt8} {fields : List Field}
    {left held : Nat} (taken : (walk fields op left held).run bytes = .taken op' rest) :
    fits fields left held := by
  induction fields generalizing op left held bytes with
  | nil => rfl
  | cons field fields ih =>
    rw [fits]
    split
    · rename_i inHand
      rw [walk] at taken
      simp only [inHand, if_true] at taken
      obtain ⟨op₁, further, filled, walked⟩ := of_run_bind taken
      have fixed : field.kind = .literal →
          (held / 2 ^ (left - field.width.toNat)).toUInt8 = field.value :=
        fun kind => (of_fill_literal kind filled).1
      rw [Bool.and_eq_true]
      refine ⟨?_, ih walked⟩
      by_cases kind : field.kind = .literal
      · simp [fixed kind]
      · simp [kind]
    · rfl

/-- **Fixed bits belong to one format.** -/
theorem table_fits : ∀ row ∈ Format.table, row.format.isStub = false → ∀ n < 256,
    fits row.format.fields 8 n → Format.ofOpcode? (.ofNat n) = some row.format := by
  decide +kernel

/-! ### Decoding -/

/-- What a reading that succeeds comes to: the fields of a format that is read. -/
theorem of_reading_taken {opcode : UInt8} {bytes rest : List UInt8} {op : Decoding}
    (taken : (reading opcode).run bytes = .taken op rest) :
    ∃ row ∈ Format.table, ∃ op', Format.ofOpcode? opcode = some row.format ∧
      row.format.isStub = false ∧
      (walk row.format.fields { opcode, mnemonic := row.format.mnemonic } 0 0).run bytes =
        .taken op' rest ∧ op = finish (bytes.length - rest.length) op' := by
  unfold reading at taken
  cases found : Format.ofOpcode? opcode with
  | none =>
    rw [found] at taken
    cases taken
  | some format =>
    rw [found] at taken
    dsimp only at taken
    split at taken
    · cases taken
    · rename_i read
      obtain ⟨row, member, rfl⟩ := Option.map_eq_some_iff.mp found
      rw [run_measured] at taken
      split at taken
      · rename_i op' rest' walked
        cases taken
        exact ⟨row, List.mem_of_find?_eq_some member, op', rfl, Bool.eq_false_iff.mpr read, walked,
          rfl⟩
      · cases taken
      · cases taken

/-- The fields of a format that is read start with a byte that fits them. -/
theorem first_fits {opcode : UInt8} {format : Format} {op op' : Decoding} {bytes rest : List UInt8}
    (found : Format.ofOpcode? opcode = some format) (read : format.isStub = false)
    (walked : (walk format.fields op 0 0).run bytes = .taken op' rest) :
    ∃ b tail, bytes = b :: tail ∧ fits format.fields 8 b.toNat := by
  obtain ⟨field, fields, layout, literal, width⟩ :=
    (Format.ofOpcode?_leads found).resolve_left (Bool.eq_false_iff.mp read)
  have takes : field.takesBits := by simp [Field.takesBits, literal, width]
  have positive := width_bounds takes
  have fit := ofOpcode?_packed found
  rw [layout] at fit walked ⊢
  obtain ⟨_, narrow, _⟩ := packed_enter takes (by omega) fit
  rw [walk_enter takes narrow] at walked
  cases bytes with
  | nil => cases walked
  | cons b tail => exact ⟨b, tail, rfl, fits_of_walk walked⟩

/-- **From any bit, what is decoded is told by the bytes ahead**, but for the opcode that it
notes. -/
theorem ofBytes_of_decode {r r' : BitReader} {op : Decoding} (result : decode r = .ok op r') :
    ∃ b rest, ofBytes r.upcoming = .taken (op.recode b) rest ∧
      r'.At r.bytes (r.remaining % 8) rest := by
  obtain ⟨opcode, peeked⟩ : ∃ opcode, r.peek? = some opcode := by
    unfold decode at result
    split at result
    · cases result
    · exact ⟨_, ‹_›⟩
  have agrees := agrees_decode ⟨rfl, rfl, rfl⟩ peeked
  rw [result] at agrees
  obtain ⟨rest, came, there⟩ := taken_of_agrees agrees
  obtain ⟨row, member, op, found, read, walked, rfl⟩ := of_reading_taken came
  obtain ⟨b, tail, ahead, fixed⟩ := first_fits found read walked
  -- the byte ahead chooses the same format
  have same := table_fits row member read b.toNat b.toNat_lt fixed
  rw [UInt8.ofNat_toNat] at same
  have recoded : (walk row.format.fields { opcode := b, mnemonic := row.format.mnemonic } 0 0).run
      r.upcoming = .taken (op.recode b) rest := walk_recode b walked
  refine ⟨b, rest, ?_, there⟩
  rw [ahead] at recoded ⊢
  rw [ofBytes, reading, same]
  dsimp only
  rw [read, if_neg Bool.false_ne_true, run_measured, recoded]
  rfl

/-- The length of a decoding is the number of the bytes that it takes. -/
theorem length_of_ofBytes {bytes rest : List UInt8} {op : Decoding}
    (taken : ofBytes bytes = .taken op rest) : bytes.length = op.length + rest.length := by
  cases bytes with
  | nil => cases taken
  | cons b tail =>
    obtain ⟨used, split⟩ := split_of_run taken
    obtain ⟨_, _, _, _, _, _, rfl⟩ := of_reading_taken taken
    have whole := congrArg List.length split
    rw [List.length_append] at whole
    show (b :: tail).length = (b :: tail).length - rest.length + rest.length
    omega

/-- **From any bit, a decoding moves the reader by whole bytes**, as many as its length says. -/
theorem moves_of_decode {r r' : BitReader} {op : Decoding} (result : decode r = .ok op r') :
    r'.bytes = r.bytes ∧ r'.pos = r.pos + 8 * op.length := by
  obtain ⟨b, rest, came, there⟩ := ofBytes_of_decode result
  have here : r.At r.bytes (r.remaining % 8) r.upcoming := ⟨rfl, rfl, rfl⟩
  have taken := length_of_ofBytes came
  rw [show (op.recode b).length = op.length from rfl] at taken
  have before := here.remaining_eq
  have after := there.remaining_eq
  have same := there.bytes
  have bound := r.pos_le
  have bound' := r'.pos_le
  simp only [remaining] at before after
  rw [same] at after bound'
  exact ⟨same, by omega⟩

end RealMode.Decoding
