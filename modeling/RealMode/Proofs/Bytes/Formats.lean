/-
**Formats byte by byte.** The fields of every format fill whole bytes, and none of them crosses the
border between two. Decoding therefore is a reading of whole bytes: `reading` walks the fields of a
format with the bits of the current byte in hand and asks for a byte when they are used up.

* `readField_eq`: a field is its bits, then what it does with them, byte by byte.
* `agrees_walk`: the walk over whole bytes agrees with the walk over bits.
* `agrees_decode`: the same for decoding, from any bit of a stream.
* `agrees_decode_aligned`: at the start of a byte, what is decoded is told by the bytes ahead.
-/

import RealMode.Decoding
import RealMode.Proofs.Bytes.Upcoming

namespace RealMode

/-- The field has bits of its own in the current byte. -/
def Field.takesBits (field : Field) : Bool :=
  field.width ≠ 0 ∧ field.kind ≠ .dataHigh ∧ field.kind ≠ .addr

/-- The field may be followed by whole bytes that belong to it. -/
def FieldKind.takesBytes : FieldKind → Bool
  | rm | dataHigh | addr => true
  | literal | d | s | w | mode | reg | ext | sr | disp | dataLow => false

/-- The bits of a field. -/
def Field.taken (field : Field) : Reading UInt8 :=
  if field.takesBits then field.read else pure field.value

namespace Decoding

open BitReader

/-! ### What a field does with its value -/

def fillAddress (op : Decoding) : ByteReading Decoding :=
  .next fun low => .next fun high => .done { op with addrLow := some low, addrHigh := some high }

def fillAfterCode (op : Decoding) (code : UInt8) : ByteReading Decoding :=
  match op.mode with
  | none => .refuse (.addressing .modeAfterMemory)
  | some mode =>
    if mode = 0 ∧ code = directCode then op.fillAddress
    else if mode = 1 then .next fun low => .done { op with dispLow := some low }
    else if mode = 2 then
      .next fun low => .next fun high =>
        .done { op with dispLow := some low, dispHigh := some high }
    else .done op

/-- The effect of a field with its value, and the whole bytes that it takes. -/
def fill (op : Decoding) (field : Field) (value : UInt8) : ByteReading Decoding :=
  match field.kind with
  | .literal =>
    if value = field.value then .done { op with literals := op.literals ++ [field] }
    else .refuse (.opcode op.opcode)
  | .d => .done { op with d := some value }
  | .s => .done { op with s := some value }
  | .w => .done { op with w := some value }
  | .mode => .done { op with mode := some value }
  | .reg => .done { op with reg := some value }
  | .sr => .done { op with sr := some value }
  | .ext =>
    if value = 0 then .done { op with ext := some value, mnemonic := .add }
    else if value = 5 then .done { op with ext := some value, mnemonic := .sub }
    else if value = 7 then .done { op with ext := some value, mnemonic := .cmp }
    else .refuse (.operation op.opcode (groupNames.getD (value.toNat % 8) ""))
  | .rm => fillAfterCode { op with rm := some value } value
  | .disp => .done { op with dispLow := some value }
  | .dataLow => .done { op with dataLow := some value }
  | .dataHigh =>
    if op.wide ∧ op.s ≠ some 1 then .next fun high => .done { op with dataHigh := some high }
    else .done op
  | .addr => op.fillAddress

theorem fill_at_once (op : Decoding) {field : Field} (value : UInt8)
    (none : field.kind.takesBytes = false) :
    (∃ op', op.fill field value = .done op') ∨
      ∃ refusal, op.fill field value = .refuse refusal := by
  obtain ⟨kind, width, expected⟩ := field
  cases kind
  case rm => cases none
  case dataHigh => cases none
  case addr => cases none
  case literal =>
    by_cases same : value = expected
    · exact .inl ⟨_, if_pos same⟩
    · exact .inr ⟨_, if_neg same⟩
  case ext =>
    unfold fill
    dsimp only
    split
    · exact .inl ⟨_, rfl⟩
    · split
      · exact .inl ⟨_, rfl⟩
      · split
        · exact .inl ⟨_, rfl⟩
        · exact .inr ⟨_, rfl⟩
  all_goals exact .inl ⟨_, rfl⟩

section Filled

variable {op op' : Decoding} {bytes rest : List UInt8} {f : Field} {value : UInt8}

theorem of_fillAddress (taken : op.fillAddress.run bytes = .taken op' rest) :
    ∃ low high, bytes = low :: high :: rest ∧
      op' = { op with addrLow := some low, addrHigh := some high } := by
  match bytes, taken with
  | low :: high :: rest, rfl => exact ⟨low, high, rfl, rfl⟩

theorem of_fill_literal (kind : f.kind = .literal)
    (taken : (op.fill f value).run bytes = .taken op' rest) :
    value = f.value ∧ bytes = rest ∧ op' = { op with literals := op.literals ++ [f] } := by
  simp only [fill, kind] at taken
  split at taken
  · rename_i same
    cases taken
    exact ⟨same, rfl, rfl⟩
  · cases taken

theorem of_fill_ext (kind : f.kind = .ext)
    (taken : (op.fill f value).run bytes = .taken op' rest) :
    bytes = rest ∧ ∃ mnemonic, op' = { op with ext := some value, mnemonic } := by
  simp only [fill, kind] at taken
  split at taken
  · cases taken
    exact ⟨rfl, _, rfl⟩
  split at taken
  · cases taken
    exact ⟨rfl, _, rfl⟩
  split at taken
  · cases taken
    exact ⟨rfl, _, rfl⟩
  · cases taken

theorem of_fill_dataHigh (kind : f.kind = .dataHigh)
    (taken : (op.fill f value).run bytes = .taken op' rest) :
    ∃ dataHigh, op' = { op with dataHigh } ∧
      (op.dataHigh = none → bytes = dataHigh.toList ++ rest) := by
  simp only [fill, kind] at taken
  split at taken
  · match bytes, taken with
    | high :: rest, rfl => exact ⟨some high, rfl, fun _ => rfl⟩
  · cases taken
    refine ⟨op.dataHigh, rfl, fun bare => ?_⟩
    rw [bare]
    rfl

end Filled

theorem taken_eq_read {kind : FieldKind} (width value : UInt8) (data : kind ≠ .dataHigh)
    (addr : kind ≠ .addr) : Field.taken ⟨kind, width, value⟩ = Field.read ⟨kind, width, value⟩ := by
  by_cases zero : width = 0
  · simp [Field.taken, Field.takesBits, Field.read, zero]
  · simp [Field.taken, Field.takesBits, zero, data, addr]

theorem taken_eq_pure {field : Field} (free : field.takesBits = false) :
    field.taken = pure field.value := by
  rw [Field.taken, free]
  rfl

theorem perform_fillAddress (op : Decoding) : op.fillAddress.perform = op.readAddress := rfl

theorem perform_fillAfterCode (op : Decoding) (code : UInt8) :
    (op.fillAfterCode code).perform = op.readAfterCode code := by
  unfold fillAfterCode readAfterCode
  cases op.mode with
  | none => rfl
  | some mode =>
    dsimp only
    by_cases direct : mode = 0 ∧ code = directCode
    · rw [if_pos direct, if_pos direct, perform_fillAddress]
    · rw [if_neg direct, if_neg direct]
      by_cases one : mode = 1
      · rw [if_pos one, if_pos one]
        rfl
      · rw [if_neg one, if_neg one]
        by_cases two : mode = 2
        · rw [if_pos two, if_pos two]
          rfl
        · rw [if_neg two, if_neg two]
          rfl

/-- **A field is its bits, then what it does with them.** -/
theorem readField_eq (op : Decoding) (field : Field) :
    op.readField field = field.taken >>= fun value => (op.fill field value).perform := by
  obtain ⟨kind, width, value⟩ := field
  cases kind
  case addr =>
    rw [taken_eq_pure (by simp [Field.takesBits])]
    rfl
  case dataHigh =>
    rw [taken_eq_pure (by simp [Field.takesBits])]
    show _ = (op.fill ⟨.dataHigh, width, value⟩ value).perform
    unfold readField fill
    by_cases wider : op.wide ∧ op.s ≠ some 1
    · rw [if_pos wider, if_pos wider]
      rfl
    · rw [if_neg wider, if_neg wider]
      rfl
  case rm =>
    rw [taken_eq_read _ _ (by decide) (by decide)]
    show _ = Field.read ⟨.rm, width, value⟩ >>= fun value =>
      (fillAfterCode { op with rm := some value } value).perform
    simp only [perform_fillAfterCode]
    rfl
  case literal =>
    rw [taken_eq_read _ _ (by decide) (by decide)]
    show (Field.read ⟨.literal, width, value⟩ >>= fun found => _) = _
    refine congrArg (Field.read ⟨.literal, width, value⟩ >>= ·) (funext fun found => ?_)
    unfold fill
    dsimp only
    by_cases same : found = value
    · rw [if_pos same, if_pos same]
      rfl
    · rw [if_neg same, if_neg same]
      rfl
  case ext =>
    rw [taken_eq_read _ _ (by decide) (by decide)]
    show (Field.read ⟨.ext, width, value⟩ >>= fun found => _) = _
    refine congrArg (Field.read ⟨.ext, width, value⟩ >>= ·) (funext fun found => ?_)
    unfold fill groupMember
    dsimp only
    by_cases add : found = 0
    · rw [if_pos add, if_pos add]
      rfl
    · rw [if_neg add, if_neg add]
      by_cases sub : found = 5
      · rw [if_pos sub, if_pos sub]
        rfl
      · rw [if_neg sub, if_neg sub]
        by_cases cmp : found = 7
        · rw [if_pos cmp, if_pos cmp]
          rfl
        · rw [if_neg cmp, if_neg cmp]
          rfl
  all_goals
    rw [taken_eq_read _ _ (by decide) (by decide)]
    rfl

/-! ### Walking the fields of a format -/

/-- Walks fields with `left` bits of the current byte in hand, which spell `held`. -/
def walk : List Field → Decoding → Nat → Nat → ByteReading Decoding
  | [], op, _, _ => .done op
  | field :: fields, op, left, held =>
    let width := field.width.toNat
    let within (left held : Nat) : ByteReading Decoding :=
      (op.fill field (held / 2 ^ (left - width)).toUInt8).bind fun op =>
        walk fields op (left - width) (held % 2 ^ (left - width))
    if field.takesBits then
      if width ≤ left then within left held else .next fun byte => within 8 byte.toNat
    else (op.fill field field.value).bind fun op => walk fields op left held

/-- Fields that fill whole bytes, the first of them up to its last `left` bits: none crosses the
border of a byte, and those that whole bytes follow stand at one. -/
def packed : Nat → List Field → Bool
  | left, [] => left == 0
  | left, field :: fields =>
    let width := field.width.toNat
    let after := if field.takesBits then if width ≤ left then left - width else 8 - width else left
    (!field.takesBits || width ≤ left || left == 0 && width ≤ 8) &&
      (!field.kind.takesBytes || after == 0) && packed after fields

theorem table_packed : ∀ row ∈ Format.table, packed 0 row.format.fields := by decide

section Walk

variable {stream : Array UInt8} {spare left held : Nat} {ahead : List UInt8} {r r' : BitReader}
  {op op' : Decoding} {field : Field} {fields : List Field}

theorem width_bounds (takes : field.takesBits) : 1 ≤ field.width.toNat := by
  simp only [Field.takesBits, decide_eq_true_eq] at takes
  exact Nat.pos_of_ne_zero fun zero => takes.1 (UInt8.toNat_inj.mp zero)

/-- Without bits in hand, a field that has bits starts a new byte. -/
theorem walk_enter (takes : field.takesBits) (narrow : field.width.toNat ≤ 8) :
    walk (field :: fields) op 0 0 = .next fun byte => walk (field :: fields) op 8 byte.toNat := by
  have positive := width_bounds takes
  simp only [walk, takes, if_true, if_pos narrow, if_neg (show ¬field.width.toNat ≤ 0 by omega)]

/-- Packed fields start a new byte only when none is in hand. -/
theorem packed_enter (takes : field.takesBits) (beyond : ¬field.width.toNat ≤ left)
    (fit : packed left (field :: fields)) :
    left = 0 ∧ field.width.toNat ≤ 8 ∧ packed 8 (field :: fields) := by
  simp only [packed, takes, if_true, Bool.and_eq_true, Bool.or_eq_true, Bool.not_true, beq_iff_eq,
    decide_eq_true_eq, beyond, Bool.false_eq_true, false_or] at fit
  obtain ⟨⟨⟨none, narrow⟩, border⟩, fit⟩ := fit
  refine ⟨none, narrow, ?_⟩
  simp only [packed, takes, if_true, Bool.and_eq_true, Bool.or_eq_true, Bool.not_true, beq_iff_eq,
    decide_eq_true_eq, narrow, or_true, true_or, true_and]
  exact ⟨border, fit⟩

theorem taken_inside (takes : field.takesBits) (narrow : field.width.toNat ≤ left)
    (byte : left ≤ 8) (inside : r.Inside left held stream spare ahead) :
    field.taken r = .ok (held / 2 ^ (left - field.width.toNat)).toUInt8
        (r.forward field.width.toNat) ∧
      (r.forward field.width.toNat).Inside (left - field.width.toNat)
        (held % 2 ^ (left - field.width.toNat)) stream spare ahead := by
  have positive := width_bounds takes
  obtain ⟨read, moved⟩ := inside.read positive (by omega) narrow
  refine ⟨?_, moved⟩
  have some : field.width ≠ 0 := by
    simp only [Field.takesBits, decide_eq_true_eq] at takes
    exact takes.1
  rw [Field.taken, if_pos takes, Field.read, if_neg some, bind_ok read]
  rfl

theorem bind_assoc_ok {α β γ : Type} {reading : Reading α} {next : α → Reading β}
    {after : β → Reading γ} {value : α} (result : reading r = .ok value r') :
    ((reading >>= next) >>= after) r = (next value >>= after) r' := by
  simp [bind, EStateM.bind, result]

/-- After the bits of a field, what it does and the fields that follow agree if these do. -/
theorem agrees_fill (value : UInt8) (border : field.kind.takesBytes → left = 0)
    (inside : r.Inside left held stream spare ahead)
    (rest : ∀ {op : Decoding} {held : Nat} {r : BitReader} {ahead : List UInt8},
      r.Inside left held stream spare ahead →
        Agrees stream spare ((walk fields op left held).run ahead) (fields.foldlM readField op r)) :
    Agrees stream spare
      (((op.fill field value).bind fun op => walk fields op left held).run ahead)
      (((op.fill field value).perform >>= fun op => fields.foldlM readField op) r) := by
  by_cases bytes : field.kind.takesBytes
  · obtain rfl := border bytes
    obtain rfl : 0 = held := inside.held
    exact agrees_bind (agrees_perform _ inside.leave) fun op left r' here => rest here.border
  · rcases fill_at_once op value (Bool.eq_false_iff.mpr bytes) with ⟨op', done⟩ | ⟨refusal, refused⟩
    · rw [done]
      exact rest inside
    · rw [refused]
      exact fun _ => rfl

theorem advances_perform {α : Type} (tree : ByteReading α) : Advances tree.perform := by
  induction tree with
  | done value => exact advances_pure value
  | refuse refusal => exact advances_throw refusal.cause
  | next further ih => exact advances_bind advances_readByte ih

/-- A field that has bits moves the reader by these bits at least. -/
theorem pos_le_of_readField (takes : field.takesBits)
    (result : op.readField field r = .ok op' r') : r.pos + field.width.toNat ≤ r'.pos := by
  rw [readField_eq] at result
  obtain ⟨value, middle, taken, rest⟩ := of_bind_ok result
  rw [Field.taken, if_pos takes] at taken
  have moved := advances_perform (op.fill field value) middle
  rw [rest] at moved
  rw [← (moves_of_fieldRead taken).2]
  exact moved.2

/-- Packed fields take the whole of the byte that they start in. -/
theorem pos_le_of_packed (fit : packed left fields)
    (result : fields.foldlM readField op r = .ok op' r') : r.pos + left ≤ r'.pos := by
  induction fields generalizing left op r with
  | nil =>
    cases result
    simp only [packed, beq_iff_eq] at fit
    omega
  | cons field fields ih =>
    rw [List.foldlM_cons] at result
    obtain ⟨middleOp, middle, first, rest⟩ := of_bind_ok result
    simp only [packed, Bool.and_eq_true] at fit
    have later := ih fit.2 rest
    by_cases takes : field.takesBits
    · have moved := pos_le_of_readField takes first
      rw [if_pos takes] at later
      split at later <;> omega
    · have moved := advances_readField op field r
      rw [first] at moved
      have moved : r.pos ≤ middle.pos := moved.2
      rw [if_neg takes] at later
      omega

/-- Without a whole byte ahead, fields that start a byte are not read. -/
theorem agrees_ended (takes : field.takesBits) (narrow : field.width.toNat ≤ 8)
    (fit : packed (8 - field.width.toNat) fields) (here : r.At stream spare []) :
    Agrees stream spare .ended ((field :: fields).foldlM readField op r) := by
  have count := here.remaining_eq
  have small := here.spare
  rw [List.length_nil] at count
  cases result : (field :: fields).foldlM readField op r with
  | ok op' r' =>
    have kept := advances_foldlM advances_readField (field :: fields) op r
    rw [result] at kept
    have same : r'.bytes = r.bytes := kept.1
    rw [List.foldlM_cons] at result
    obtain ⟨middleOp, middle, first, rest⟩ := of_bind_ok result
    have moved := pos_le_of_readField takes first
    have movedOn := pos_le_of_packed fit rest
    have bound := r'.pos_le
    rw [same] at bound
    simp only [remaining] at count small
    omega
  | error cause r' =>
    rintro rfl
    have positive := width_bounds takes
    have some : field.width ≠ 0 := by
      simp only [Field.takesBits, decide_eq_true_eq] at takes
      exact takes.1
    have short := read_short positive (by omega) (show r.remaining < field.width.toNat by omega)
    have failed : field.taken r = .error (.truncated stream.size) r := by
      rw [Field.taken, if_pos takes, Field.read, if_neg some, bind_error short, here.bytes]
    rw [List.foldlM_cons, readField_eq, bind_error (bind_error failed)] at result
    cases result
    rfl

/-- **The walk over whole bytes agrees with the walk over bits.** -/
theorem agrees_walk (op : Decoding) (fit : packed left fields) (byte : left ≤ 8)
    (inside : r.Inside left held stream spare ahead) :
    Agrees stream spare ((walk fields op left held).run ahead) (fields.foldlM readField op r) := by
  induction fields generalizing left held op r ahead with
  | nil =>
    simp only [packed, beq_iff_eq] at fit
    subst fit
    exact ⟨rfl, inside.leave⟩
  | cons field fields ih =>
    simp only [packed, Bool.and_eq_true, Bool.or_eq_true, Bool.not_eq_true', beq_iff_eq,
      decide_eq_true_eq] at fit
    obtain ⟨⟨narrow, border⟩, fit⟩ := fit
    rw [walk]
    by_cases takes : field.takesBits
    · simp only [takes, if_true] at narrow border fit ⊢
      by_cases within : field.width.toNat ≤ left
      · -- the bits of the field are in hand
        rw [if_pos within] at border fit ⊢
        obtain ⟨taken, moved⟩ := taken_inside takes within byte inside
        rw [List.foldlM_cons, readField_eq, bind_assoc_ok taken]
        exact agrees_fill _ (fun bytes => by simpa [bytes] using border) moved
          fun inside => ih _ fit (by omega) inside
      · -- a new byte is needed
        rw [if_neg within] at border fit ⊢
        obtain ⟨rfl, small⟩ : left = 0 ∧ field.width.toNat ≤ 8 := by simpa [within] using narrow
        cases ahead with
        | nil => exact agrees_ended takes small fit inside.leave
        | cons first rest =>
          obtain ⟨taken, moved⟩ := taken_inside takes small (by decide) inside.leave.enter
          rw [List.foldlM_cons, readField_eq, bind_assoc_ok taken]
          exact agrees_fill _ (fun bytes => by simpa [bytes] using border) moved
            fun inside => ih _ fit (by omega) inside
    · simp only [takes, Bool.false_eq_true, if_false] at border fit ⊢
      rw [List.foldlM_cons, readField_eq, taken_eq_pure (Bool.eq_false_iff.mpr takes)]
      exact agrees_fill _ (fun bytes => by simpa [bytes] using border) inside
        fun inside => ih _ fit byte inside

/-! ### Decoding -/

/-- Completes a decoding of `count` bytes. -/
def finish (count : Nat) (op : Decoding) : Decoding :=
  { op with kinds := op.operandKinds, length := count }

/-- Decoding as a reading of whole bytes, when `opcode` is the byte under the reader. -/
def reading (opcode : UInt8) : ByteReading Decoding :=
  match Format.ofOpcode? opcode with
  | none => .refuse (.opcode opcode)
  | some format =>
    if format.isStub then .refuse (.operation opcode format.mnemonic.name)
    else (walk format.fields { opcode, mnemonic := format.mnemonic } 0 0).measured finish

/-- What decoding comes to on the bytes ahead, the opcode being the first of them. -/
def ofBytes : List UInt8 → ByteReading.Outcome Decoding
  | [] => .ended
  | opcode :: rest => (reading opcode).run (opcode :: rest)

theorem ofOpcode?_packed {opcode : UInt8} {format : Format}
    (found : Format.ofOpcode? opcode = some format) : packed 0 format.fields := by
  obtain ⟨row, member, rfl⟩ := Option.map_eq_some_iff.mp found
  exact table_packed row (List.mem_of_find?_eq_some member)

theorem offset_sub_of_at {rest : List UInt8} (here : r.At stream spare ahead)
    (there : r'.At stream spare rest) : r'.offset - r.offset = ahead.length - rest.length := by
  have count := here.remaining_eq
  have count' := there.remaining_eq
  have bound := r.pos_le
  have bound' := r'.pos_le
  simp only [remaining, here.bytes, there.bytes] at count count' bound bound'
  simp only [offset]
  omega

/-- **Decoding is a reading of whole bytes**, from any bit of a stream. -/
theorem agrees_decode {opcode : UInt8} (here : r.At stream spare ahead)
    (peeked : r.peek? = some opcode) :
    Agrees stream spare ((reading opcode).run ahead) (decode r) := by
  unfold reading decode
  rw [peeked]
  cases found : Format.ofOpcode? opcode with
  | none =>
    simp only [found]
    exact fun _ => rfl
  | some format =>
    by_cases stub : format.isStub
    · simp only [found, stub, if_true]
      exact fun _ => rfl
    · simp only [found, stub, Bool.false_eq_true, if_false]
      have walked := agrees_walk { opcode, mnemonic := format.mnemonic } (ofOpcode?_packed found)
        (by decide) here.border
      rw [ByteReading.run_measured]
      generalize (walk format.fields { opcode, mnemonic := format.mnemonic } 0 0).run ahead =
        outcome at walked
      generalize format.fields.foldlM readField { opcode, mnemonic := format.mnemonic } r = result
        at walked
      cases result with
      | ok op r' =>
        cases outcome with
        | taken op' rest =>
          obtain ⟨rfl, there⟩ := walked
          exact ⟨by rw [offset_sub_of_at here there]; rfl, there⟩
        | refused refusal => exact walked
        | ended => exact walked
      | error cause r' =>
        cases outcome with
        | taken op rest => exact walked
        | refused refusal => exact walked
        | ended => exact walked

/-- **At the start of a byte, decoding is told by the bytes ahead.** -/
theorem agrees_decode_aligned (aligned : r.pos % 8 = 0) :
    Agrees r.bytes 0 (ofBytes (r.bytes.toList.drop r.offset)) (decode r) := by
  have here := at_of_aligned aligned
  have bound := r.pos_le
  have peek : r.peek? = (r.bytes.toList.drop r.offset).head? := by
    rw [peek?, List.head?_drop, Array.getElem?_toList]
  cases ahead : r.bytes.toList.drop r.offset with
  | nil =>
    rw [ahead, List.head?_nil] at peek
    have finished : r.bytes.size ≤ r.offset := by
      rw [← Array.length_toList]
      exact List.drop_eq_nil_iff.mp ahead
    have stands : r.offset = r.bytes.size := by
      simp only [offset] at finished ⊢
      omega
    unfold decode
    rw [peek]
    intro _
    rw [stands]
  | cons opcode rest =>
    rw [ahead, List.head?_cons] at peek
    rw [ahead] at here
    exact agrees_decode here peek

end Walk

end Decoding

end RealMode
