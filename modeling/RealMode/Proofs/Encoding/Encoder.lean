/-
**Decoding loses nothing.** `Decoding.encode` writes a decoding out again: the fields of its format
in their order, each with the bits in its slot, and the address or displacement bytes after the r/m
field. What it writes are the bytes that were decoded.

* `fill_kept`: a field leaves the slots of the others alone.
* `emit_of_walk`: the fields of a format, written out, are the bytes that they were read from.
* `encode_decode`: encoding gives back the bytes of an instruction, and these give it again.
-/

import RealMode.Proofs.Bytes.AnyBit
import RealMode.Proofs.Encoding.Spelling

namespace RealMode

/-- The kind whose slots include those of this one. -/
def FieldKind.area : FieldKind → FieldKind
  | .addr | .disp => .rm
  | kind => kind

/-- Fields of these kinds fill different slots. -/
def FieldKind.Apart (kind other : FieldKind) : Prop :=
  kind = .literal ∨ other = .literal ∨ kind.area ≠ other.area

instance (kind other : FieldKind) : Decidable (kind.Apart other) :=
  inferInstanceAs (Decidable (_ ∨ _ ∨ _))

/-- No two of the fields fill the same slot. -/
def Field.Distinct (fields : List Field) : Prop := fields.Pairwise fun f g => f.kind.Apart g.kind

instance (fields : List Field) : Decidable (Field.Distinct fields) :=
  inferInstanceAs (Decidable (fields.Pairwise fun f g => f.kind.Apart g.kind))

theorem Format.table_distinct : ∀ row ∈ Format.table, Field.Distinct row.format.fields := by decide

theorem Format.ofOpcode?_distinct {opcode : UInt8} {format : Format}
    (found : Format.ofOpcode? opcode = some format) : Field.Distinct format.fields := by
  obtain ⟨row, member, rfl⟩ := Option.map_eq_some_iff.mp found
  exact table_distinct row (List.mem_of_find?_eq_some member)

namespace Decoding

open BitReader ByteReading Encoding

/-! ### Writing out a decoding -/

/-- The bits of a field: the fixed ones, or those in the slot that it fills. -/
def bitsOf (op : Decoding) (field : Field) : UInt8 :=
  match field.kind with
  | .literal => field.value
  | .d => op.d.getD 0
  | .s => op.s.getD 0
  | .w => op.w.getD 0
  | .mode => op.mode.getD 0
  | .reg => op.reg.getD 0
  | .ext => op.ext.getD 0
  | .rm => op.rm.getD 0
  | .sr => op.sr.getD 0
  | .disp => op.dispLow.getD 0
  | .dataLow => op.dataLow.getD 0
  | .dataHigh | .addr => 0

/-- The whole bytes after the bits of a field: those in the slots that are filled. -/
def bytesOf (op : Decoding) : FieldKind → List UInt8
  | .rm =>
    op.addrLow.toList ++ op.addrHigh.toList ++ op.dispLow.toList ++ op.dispHigh.toList
  | .addr => op.addrLow.toList ++ op.addrHigh.toList
  | .dataHigh => op.dataHigh.toList
  | .literal | .d | .s | .w | .mode | .reg | .ext | .sr | .disp | .dataLow => []

/-- Writes fields out, when `left` bits of the current byte are to come and those before them spell
`upper`. -/
def emit (op : Decoding) : List Field → Nat → Nat → List UInt8
  | [], _, _ => []
  | field :: fields, left, upper =>
    let width := field.width.toNat
    let within (left upper : Nat) : List UInt8 :=
      let upper := upper * 2 ^ width + (op.bitsOf field).toNat
      (if left = width then [upper.toUInt8] else []) ++ op.bytesOf field.kind ++
        emit op fields (left - width) upper
    if field.takesBits then if width ≤ left then within left upper else within 8 0
    else op.bytesOf field.kind ++ emit op fields left upper

/-- The bytes of an instruction. -/
def encode (op : Decoding) : List UInt8 :=
  match Format.ofOpcode? op.opcode with
  | none => []
  | some format => op.emit format.fields 0 0

/-! ### What a field fills -/

section Fill

variable {op op' : Decoding} {bytes rest : List UInt8} {f g : Field} {value : UInt8}

/-- Without bytes after the r/m code the address slots are empty. -/
theorem none_of_bytesOf_rm (bare : op.bytesOf .rm = []) :
    ((op.addrLow = none ∧ op.addrHigh = none) ∧ op.dispLow = none) ∧ op.dispHigh = none := by
  simpa only [bytesOf, List.append_eq_nil_iff, Option.toList_eq_nil_iff] using bare

/-- What follows an r/m code fills the address slots, in the order of the bytes. -/
theorem of_fillAfterCode {code : UInt8}
    (taken : (op.fillAfterCode code).run bytes = .taken op' rest) :
    ∃ addrLow addrHigh dispLow dispHigh, op' = { op with addrLow, addrHigh, dispLow, dispHigh } ∧
      (op.bytesOf .rm = [] → bytes = op'.bytesOf .rm ++ rest) := by
  unfold fillAfterCode at taken
  split at taken
  · cases taken
  split at taken
  · obtain ⟨low, high, rfl, rfl⟩ := of_fillAddress taken
    exact ⟨_, _, _, _, rfl, fun bare => by simp [bytesOf, none_of_bytesOf_rm bare]⟩
  split at taken
  · match bytes, taken with
    | low :: rest, rfl =>
      exact ⟨_, _, _, _, rfl, fun bare => by simp [bytesOf, none_of_bytesOf_rm bare]⟩
  split at taken
  · match bytes, taken with
    | low :: high :: rest, rfl =>
      exact ⟨_, _, _, _, rfl, fun bare => by simp [bytesOf, none_of_bytesOf_rm bare]⟩
  · cases taken
    exact ⟨_, _, _, _, rfl, fun bare => by rw [bare]; rfl⟩

/-- **A field leaves the slots of the others alone.** -/
theorem fill_kept (taken : (op.fill f value).run bytes = .taken op' rest)
    (apart : f.kind.Apart g.kind) :
    op'.bitsOf g = op.bitsOf g ∧ op'.bytesOf g.kind = op.bytesOf g.kind := by
  obtain ⟨kind, width, expected⟩ := f
  obtain ⟨other, width', expected'⟩ := g
  dsimp only at apart
  cases kind
  case literal =>
    obtain ⟨_, _, rfl⟩ := of_fill_literal rfl taken
    cases other <;> exact ⟨rfl, rfl⟩
  case ext =>
    obtain ⟨_, mnemonic, rfl⟩ := of_fill_ext rfl taken
    cases other <;> first | exact ⟨rfl, rfl⟩ | exact absurd apart (by decide)
  case rm =>
    obtain ⟨addrLow, addrHigh, dispLow, dispHigh, rfl, _⟩ := of_fillAfterCode taken
    cases other <;> first | exact ⟨rfl, rfl⟩ | exact absurd apart (by decide)
  case dataHigh =>
    obtain ⟨dataHigh, rfl, _⟩ := of_fill_dataHigh rfl taken
    cases other <;> first | exact ⟨rfl, rfl⟩ | exact absurd apart (by decide)
  case addr =>
    obtain ⟨low, high, _, rfl⟩ := of_fillAddress taken
    cases other <;> first | exact ⟨rfl, rfl⟩ | exact absurd apart (by decide)
  all_goals
    cases taken
    cases other <;> first | exact ⟨rfl, rfl⟩ | exact absurd apart (by decide)

/-- A field fills its own slots with its bits and the bytes that it takes. -/
theorem fill_written (taken : (op.fill f value).run bytes = .taken op' rest)
    (bare : op.bytesOf f.kind = []) :
    (f.takesBits → op'.bitsOf f = value) ∧ bytes = op'.bytesOf f.kind ++ rest := by
  obtain ⟨kind, width, expected⟩ := f
  cases kind
  case literal =>
    obtain ⟨same, rfl, rfl⟩ := of_fill_literal rfl taken
    exact ⟨fun _ => same.symm, rfl⟩
  case ext =>
    obtain ⟨rfl, mnemonic, rfl⟩ := of_fill_ext rfl taken
    exact ⟨fun _ => rfl, rfl⟩
  case rm =>
    obtain ⟨addrLow, addrHigh, dispLow, dispHigh, rfl, spelled⟩ := of_fillAfterCode taken
    exact ⟨fun _ => rfl, spelled bare⟩
  case dataHigh =>
    obtain ⟨dataHigh, rfl, spelled⟩ := of_fill_dataHigh rfl taken
    refine ⟨fun bits => ?_, spelled (Option.toList_eq_nil_iff.mp bare)⟩
    simp [Field.takesBits] at bits
  case addr =>
    obtain ⟨low, high, rfl, rfl⟩ := of_fillAddress taken
    refine ⟨fun bits => ?_, rfl⟩
    simp [Field.takesBits] at bits
  all_goals
    cases taken
    exact ⟨fun _ => rfl, rfl⟩

end Fill

theorem bytesOf_eq_nil (op : Decoding) {kind : FieldKind} (none : kind.takesBytes = false) :
    op.bytesOf kind = [] := by
  cases kind <;> first | rfl | cases none

/-! ### Walking over fields -/

section Walk

variable {op op' : Decoding} {bytes rest used : List UInt8} {fields : List Field} {field : Field}
  {left held : Nat}

/-- A walk takes the first field, then walks over the others. -/
theorem of_walk_cons (taken : (walk (field :: fields) op left held).run bytes = .taken op' rest) :
    ∃ value left' held' op₁ here further, (op.fill field value).run here = .taken op₁ further ∧
      (walk fields op₁ left' held').run further = .taken op' rest := by
  rw [walk] at taken
  dsimp only at taken
  split at taken
  · split at taken
    · obtain ⟨op₁, further, filled, walked⟩ := of_run_bind taken
      exact ⟨_, _, _, op₁, bytes, further, filled, walked⟩
    · cases bytes with
      | nil => cases taken
      | cons byte bytes =>
        obtain ⟨op₁, further, filled, walked⟩ := of_run_bind taken
        exact ⟨_, _, _, op₁, bytes, further, filled, walked⟩
  · obtain ⟨op₁, further, filled, walked⟩ := of_run_bind taken
    exact ⟨_, _, _, op₁, bytes, further, filled, walked⟩

/-- A walk leaves the slots alone that none of its fields fills. -/
theorem walk_kept (taken : (walk fields op left held).run bytes = .taken op' rest)
    (apart : ∀ f ∈ fields, f.kind.Apart field.kind) :
    op'.bitsOf field = op.bitsOf field ∧ op'.bytesOf field.kind = op.bytesOf field.kind := by
  induction fields generalizing op left held bytes with
  | nil =>
    cases taken
    exact ⟨rfl, rfl⟩
  | cons f fields ih =>
    obtain ⟨_, _, _, op₁, _, _, filled, walked⟩ := of_walk_cons taken
    obtain ⟨bits, whole⟩ := fill_kept filled (apart f List.mem_cons_self)
    obtain ⟨bits', whole'⟩ := ih walked fun g member => apart g (List.mem_cons_of_mem f member)
    exact ⟨bits'.trans bits, whole'.trans whole⟩

/-! ### Writing fields out -/

/-- The current byte as it is written when `left` bits of it are to come, with which it spells
`value`. -/
def finished (left value : Nat) : List UInt8 := if left = 0 then [] else [value.toUInt8]

/-- Written out, the fields are the last `left` bits of the current byte, which spell `held`, and
the bytes `used`. -/
def Restores (op : Decoding) (fields : List Field) (left held : Nat) (used : List UInt8) : Prop :=
  ∀ upper, op.emit fields left upper = finished left (upper * 2 ^ left + held) ++ used

theorem restores_enter {byte : UInt8} (takes : field.takesBits) (narrow : field.width.toNat ≤ 8)
    (restored : Restores op (field :: fields) 8 byte.toNat used) :
    Restores op (field :: fields) 0 0 (byte :: used) := by
  intro upper
  have positive := width_bounds takes
  have entered : op.emit (field :: fields) 0 upper = op.emit (field :: fields) 8 0 := by
    simp only [emit, takes, if_true, if_pos narrow, if_neg (show ¬field.width.toNat ≤ 0 by omega)]
  rw [entered, restored 0, Nat.zero_mul, Nat.zero_add, finished, if_neg (by decide), Nat.toUInt8_eq,
    UInt8.ofNat_toNat]
  rfl

theorem restores_within (takes : field.takesBits) (within : field.width.toNat ≤ left)
    (small : left ≤ 8) (below : held < 2 ^ left)
    (border : field.kind.takesBytes → left = field.width.toNat)
    (filled : op.bitsOf field = (held / 2 ^ (left - field.width.toNat)).toUInt8)
    (restored : Restores op fields (left - field.width.toNat)
      (held % 2 ^ (left - field.width.toNat)) used) :
    Restores op (field :: fields) left held (op.bytesOf field.kind ++ used) := by
  intro upper
  have positive := width_bounds takes
  have byte : held / 2 ^ (left - field.width.toNat) < 256 := by
    have bound : 2 ^ left ≤ 2 ^ 8 := Nat.pow_le_pow_right (by decide) small
    exact Nat.lt_of_le_of_lt (Nat.div_le_self _ _) (Nat.lt_of_lt_of_le below bound)
  have bits : (op.bitsOf field).toNat = held / 2 ^ (left - field.width.toNat) := by
    rw [filled, Nat.toUInt8_eq, UInt8.toNat_ofNat', Nat.mod_eq_of_lt byte]
  simp only [emit, takes, if_true, if_pos within, bits, restored _]
  by_cases last : left = field.width.toNat
  · rw [if_pos last, ← last, Nat.sub_self, Nat.pow_zero, Nat.div_one, finished, if_pos rfl,
      finished, if_neg (by omega), List.nil_append, List.append_assoc]
  · have none : op.bytesOf field.kind = [] :=
      bytesOf_eq_nil op (Bool.eq_false_iff.mpr fun bytes => last (border bytes))
    -- the bits of the field and those after it make up what was in hand
    have value : (upper * 2 ^ field.width.toNat + held / 2 ^ (left - field.width.toNat)) *
          2 ^ (left - field.width.toNat) + held % 2 ^ (left - field.width.toNat) =
        upper * 2 ^ left + held := by
      rw [Nat.add_mul, Nat.mul_assoc, ← Nat.pow_add, Nat.add_sub_cancel' within, Nat.add_assoc,
        Nat.mul_comm (held / _), Nat.div_add_mod]
    rw [if_neg last, none, value, finished, if_neg (by omega), finished, if_neg (by omega)]
    rfl

/-- What fields that follow `field` do, when it has filled its slots. -/
theorem emit_after {op₁ : Decoding} {value : UInt8} {further : List UInt8} {left' held' : Nat}
    (distinct : Field.Distinct (field :: fields))
    (bare : ∀ f ∈ field :: fields, op.bytesOf f.kind = [])
    (filled : (op.fill field value).run bytes = .taken op₁ further)
    (walked : (walk fields op₁ left' held').run further = .taken op' rest) :
    (∀ f ∈ fields, op₁.bytesOf f.kind = []) ∧ (field.takesBits → op'.bitsOf field = value) ∧
      bytes = op'.bytesOf field.kind ++ further := by
  obtain ⟨apart, _⟩ := List.pairwise_cons.mp distinct
  obtain ⟨bits, split⟩ := fill_written filled (bare field List.mem_cons_self)
  have symmetric : ∀ f ∈ fields, f.kind.Apart field.kind := by
    intro f member
    rcases apart f member with first | second | areas
    · exact .inr (.inl first)
    · exact .inl second
    · exact .inr (.inr areas.symm)
  obtain ⟨bitsKept, bytesKept⟩ := walk_kept walked symmetric
  refine ⟨fun f member => ?_, fun takes => bitsKept.trans (bits takes), by rw [bytesKept, split]⟩
  rw [(fill_kept filled (apart f member)).2]
  exact bare f (List.mem_cons_of_mem field member)

/-- What these fields take of the bytes ahead, they give back when they are written out. -/
def Rewrites (fields : List Field) : Prop :=
  ∀ ⦃op op' : Decoding⦄ ⦃left held : Nat⦄ ⦃bytes rest : List UInt8⦄, packed left fields →
    left ≤ 8 → held < 2 ^ left → (∀ f ∈ fields, op.bytesOf f.kind = []) →
    (walk fields op left held).run bytes = .taken op' rest →
      ∃ used, bytes = used ++ rest ∧ Restores op' fields left held used

/-- A field whose bits are in hand. -/
theorem rewrites_within (distinct : Field.Distinct (field :: fields)) (others : Rewrites fields)
    (takes : field.takesBits) (within : field.width.toNat ≤ left)
    (fit : packed left (field :: fields)) (small : left ≤ 8) (below : held < 2 ^ left)
    (bare : ∀ f ∈ field :: fields, op.bytesOf f.kind = [])
    (taken : (walk (field :: fields) op left held).run bytes = .taken op' rest) :
    ∃ used, bytes = used ++ rest ∧ Restores op' (field :: fields) left held used := by
  simp only [packed, takes, if_pos within, if_true, Bool.and_eq_true, Bool.or_eq_true,
    Bool.not_eq_true', beq_iff_eq] at fit
  obtain ⟨⟨_, border⟩, fit⟩ := fit
  simp only [walk, takes, if_true, if_pos within] at taken
  obtain ⟨op₁, further, filled, walked⟩ := of_run_bind taken
  obtain ⟨bare', bits, split⟩ := emit_after distinct bare filled walked
  obtain ⟨used, rfl, restored⟩ :=
    others fit (by omega) (Nat.mod_lt _ (Nat.two_pow_pos _)) bare' walked
  refine ⟨op'.bytesOf field.kind ++ used, by rw [split, List.append_assoc], ?_⟩
  refine restores_within takes within small below (fun bytes => ?_) (bits takes) restored
  have none : left - field.width.toNat = 0 := by simpa [bytes] using border
  omega

/-- A field without bits. -/
theorem rewrites_free (distinct : Field.Distinct (field :: fields)) (others : Rewrites fields)
    (free : field.takesBits = false) (fit : packed left (field :: fields)) (small : left ≤ 8)
    (below : held < 2 ^ left) (bare : ∀ f ∈ field :: fields, op.bytesOf f.kind = [])
    (taken : (walk (field :: fields) op left held).run bytes = .taken op' rest) :
    ∃ used, bytes = used ++ rest ∧ Restores op' (field :: fields) left held used := by
  simp only [packed, free, Bool.false_eq_true, if_false, Bool.and_eq_true, Bool.or_eq_true,
    Bool.not_eq_true', beq_iff_eq] at fit
  obtain ⟨⟨_, border⟩, fit⟩ := fit
  simp only [walk, free, Bool.false_eq_true, if_false] at taken
  obtain ⟨op₁, further, filled, walked⟩ := of_run_bind taken
  obtain ⟨bare', _, split⟩ := emit_after distinct bare filled walked
  obtain ⟨used, rfl, restored⟩ := others fit small below bare' walked
  refine ⟨op'.bytesOf field.kind ++ used, by rw [split, List.append_assoc], fun upper => ?_⟩
  simp only [emit, free, Bool.false_eq_true, if_false, restored upper]
  -- whole bytes belong to the field only at the start of a byte
  by_cases whole : field.kind.takesBytes
  · obtain rfl : left = 0 := by simpa [whole] using border
    rfl
  · rw [bytesOf_eq_nil op' (Bool.eq_false_iff.mpr whole)]
    rfl

/-- **The fields of a format, written out, are the bytes that they were read from.** -/
theorem emit_of_walk (distinct : Field.Distinct fields) : Rewrites fields := by
  induction fields with
  | nil =>
    intro op op' left held bytes rest fit _ _ _ taken
    cases taken
    refine ⟨[], rfl, fun upper => ?_⟩
    simp only [packed, beq_iff_eq] at fit
    rw [finished, if_pos fit]
    rfl
  | cons field fields ih =>
    intro op op' left held bytes rest fit small below bare taken
    have others := ih (List.pairwise_cons.mp distinct).2
    by_cases takes : field.takesBits
    · by_cases within : field.width.toNat ≤ left
      · exact rewrites_within distinct others takes within fit small below bare taken
      · -- a new byte is needed
        obtain ⟨rfl, narrow, fit'⟩ := packed_enter takes within fit
        obtain rfl : held = 0 := Nat.lt_one_iff.mp below
        rw [walk_enter takes narrow] at taken
        cases bytes with
        | nil => cases taken
        | cons byte bytes =>
          obtain ⟨used, rfl, restored⟩ := rewrites_within distinct others takes narrow fit'
            (Nat.le_refl 8) byte.toNat_lt bare taken
          exact ⟨byte :: used, rfl, restores_enter takes narrow restored⟩
    · exact rewrites_free distinct others (Bool.eq_false_iff.mpr takes) fit small below bare taken

end Walk

/-! ### Encoding what was decoded -/

/-- Neither the kinds of the operands nor the length play a part in what is written. -/
theorem emit_finish (op : Decoding) (count : Nat) (fields : List Field) (left upper : Nat) :
    (finish count op).emit fields left upper = op.emit fields left upper := by
  induction fields generalizing left upper with
  | nil => rfl
  | cons field fields ih =>
    simp only [emit, ih]
    rfl

/-- What a reading took is what its value is encoded as. -/
theorem encode_of_reading {opcode : UInt8} {op : Decoding} {bytes rest : List UInt8}
    (taken : (reading opcode).run bytes = .taken op rest) :
    bytes = op.encode ++ rest ∧ op.length = op.encode.length := by
  obtain ⟨row, _, op', found, _, walked, rfl⟩ := of_reading_taken taken
  have empty : ∀ f ∈ row.format.fields,
      bytesOf { opcode, mnemonic := row.format.mnemonic } f.kind = [] := by
    intro f _
    cases f.kind <;> rfl
  obtain ⟨used, rfl, restored⟩ := emit_of_walk (Format.ofOpcode?_distinct found)
    (ofOpcode?_packed found) (by decide) (by decide) empty walked
  have same : Format.ofOpcode? (finish ((used ++ rest).length - rest.length) op').opcode =
      some row.format := by
    show Format.ofOpcode? op'.opcode = _
    rw [opcode_of_walk walked]
    exact found
  have whole : (finish ((used ++ rest).length - rest.length) op').encode = used := by
    rw [encode, same]
    dsimp only
    rw [emit_finish, restored 0]
    rfl
  rw [whole]
  refine ⟨rfl, ?_⟩
  show (used ++ rest).length - rest.length = used.length
  rw [List.length_append, Nat.add_sub_cancel]

/-- An instruction is encoded as the bytes that were decoded. -/
theorem encode_of_decode {r r' : BitReader} {op : Decoding} (aligned : r.pos % 8 = 0)
    (result : decode r = .ok op r') : op.encode = r.front op.length := by
  have agrees := agrees_decode_aligned aligned
  rw [result] at agrees
  obtain ⟨rest, came, _⟩ := taken_of_agrees agrees
  cases ahead : r.bytes.toList.drop r.offset with
  | nil =>
    rw [ahead] at came
    cases came
  | cons opcode tail =>
    rw [ahead] at came
    obtain ⟨split, whole⟩ := encode_of_reading came
    rw [BitReader.front, ahead, split, whole, List.take_left]

/-- **Decoding loses nothing**: encoding gives back the bytes of an instruction, these give it again
whatever follows them, and equal decodings come from the same bytes. -/
theorem encode_decode {r r' : BitReader} {op : Decoding} (aligned : r.pos % 8 = 0)
    (result : decode r = .ok op r') :
    op.encode = r.front op.length ∧ op.encode.length = op.length ∧
      (∀ tail : List UInt8, ∃ s', decode (.ofBytes (op.encode ++ tail).toArray) = .ok op s') ∧
      ∀ s s' : BitReader, s.pos % 8 = 0 → decode s = .ok op s' →
        s.front op.length = r.front op.length := by
  obtain ⟨spells, whole⟩ := spells_of_decode aligned result
  have restored := encode_of_decode aligned result
  refine ⟨restored, by rw [restored, whole], fun tail => ?_, fun s s' there found => ?_⟩
  · rw [restored]
    exact decode_of_spells rfl spells (ahead_ofBytes _)
  · exact (encode_of_decode there found).symm.trans restored

theorem encode_decode_addWord :
    addWord.pos % 8 = 0 ∧ ∃ op r', decode addWord = .ok op r' ∧
      op.encode = [0x81, 0x47, 0xFE, 0x34, 0x12] ∧ op.encode = addWord.front op.length ∧
      ∃ s', decode (.ofBytes (op.encode ++ [0x90]).toArray) = .ok op s' := by
  have again := encode_decode (r := addWord) (by decide) rfl
  exact ⟨by decide, _, _, rfl, by rfl, again.1, again.2.2.1 [0x90]⟩

end Decoding

end RealMode
