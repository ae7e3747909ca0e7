/-
**The extent of an instruction.** The first byte and, where it announces one, the ModRM byte decide
what a decoding comes to: a refusal, or the number of bytes that the instruction needs. What stands
after these bytes plays no part, and a refusal goes before any want of bytes.

* `spelled_cons`: a decoding is refused, or takes the bytes it needs, or wants more of them.
* `decode_extent`: the same, of a reader at the start of a byte.
-/

import RealMode.Proofs.Encoding.Layout

namespace RealMode.Encoding

open ByteReading Decoding

/-! ### The bytes of an address and of data -/

/-- The number of bytes of address or displacement after the ModRM byte `m`. -/
def addressLength (m : UInt8) : Nat :=
  if mode m = 3 ∨ mode m = 0 ∧ rm m ≠ 6 then 0 else if mode m = 1 then 1 else 2

/-- The slots of these bytes. -/
def withAddress (op : Decoding) (m : UInt8) : List UInt8 → Decoding :=
  if mode m = 0 ∧ rm m = 6 then fun used =>
    { op with addrLow := some (used.getD 0 0), addrHigh := some (used.getD 1 0) }
  else if mode m = 1 then fun used => { op with dispLow := some (used.getD 0 0) }
  else if mode m = 2 then fun used =>
    { op with dispLow := some (used.getD 0 0), dispHigh := some (used.getD 1 0) }
  else fun _ => op

def dataLength (op : Decoding) : Nat := if twoData op then 2 else 1

/-- The slots of the data bytes. -/
def withData (op : Decoding) : List UInt8 → Decoding :=
  if twoData op then fun used =>
    { op with dataLow := some (used.getD 0 0), dataHigh := some (used.getD 1 0) }
  else fun used => { op with dataLow := some (used.getD 0 0) }

theorem takes_fillAfterCode (op : Decoding) {m : UInt8} (known : op.mode = some (mode m)) :
    Takes (op.fillAfterCode (rm m)) (addressLength m) (withAddress op m) := by
  unfold fillAfterCode addressLength withAddress directCode
  split
  · rename_i missing
    rw [known] at missing
    cases missing
  rename_i found
  obtain rfl := Option.some.inj (known.symm.trans found)
  by_cases direct : mode m = 0 ∧ rm m = 6
  · rw [if_pos direct, if_pos direct, if_neg (by simp [direct]), if_neg (by simp [direct])]
    exact takes_two fun low high => { op with addrLow := some low, addrHigh := some high }
  rw [if_neg direct, if_neg direct]
  by_cases one : mode m = 1
  · rw [if_pos one, if_pos one, if_neg (by simp [one]), if_pos one]
    exact takes_one fun low => { op with dispLow := some low }
  rw [if_neg one, if_neg one, if_neg one]
  by_cases two : mode m = 2
  · rw [if_pos two, if_pos two, if_neg (by simp [two])]
    exact takes_two fun low high => { op with dispLow := some low, dispHigh := some high }
  have none : mode m = 3 ∨ mode m = 0 ∧ rm m ≠ 6 := by
    rcases mode_cases m with zero | first | second | three
    · exact .inr ⟨zero, fun six => direct ⟨zero, six⟩⟩
    · exact absurd first one
    · exact absurd second two
    · exact .inl three
  rw [if_neg two, if_neg two, if_pos none]
  exact takes_done op

theorem takes_fillData (op : Decoding) : Takes (fillData op) (dataLength op) (withData op) := by
  unfold fillData dataLength withData
  by_cases two : twoData op
  · simp only [two, if_true]
    exact takes_two fun low high => { op with dataLow := some low, dataHigh := some high }
  · simp only [two]
    exact takes_one fun low => { op with dataLow := some low }

/-- The address slots are all that an address fills. -/
theorem withAddress_eq (op : Decoding) (m : UInt8) (used : List UInt8) :
    ∃ addrLow addrHigh dispLow dispHigh,
      withAddress op m used = { op with addrLow, addrHigh, dispLow, dispHigh } := by
  unfold withAddress
  split
  · exact ⟨_, _, _, _, rfl⟩
  · split
    · exact ⟨_, _, _, _, rfl⟩
    · split
      · exact ⟨_, _, _, _, rfl⟩
      · exact ⟨_, _, _, _, rfl⟩

theorem dataLength_withAddress (op : Decoding) (m : UInt8) (used : List UInt8) :
    dataLength (withAddress op m used) = dataLength op := by
  obtain ⟨addrLow, addrHigh, dispLow, dispHigh, filled⟩ := withAddress_eq op m used
  rw [filled]
  rfl

/-! ### What is refused and what is needed -/

/-- Why an instruction is refused that starts with `b` and, if there is a second byte, goes on with
`second?`. -/
def refusal? (b : UInt8) (second? : Option UInt8) : Option Refusal :=
  match opening b, second? with
  | .unknown, _ => some (.opcode b)
  | .unread operation, _ => some (.operation b operation.name)
  | .arithmetic, some m =>
    if reg m = 0 ∨ reg m = 5 ∨ reg m = 7 then none
    else some (.operation b (groupNames.getD (reg m).toNat ""))
  | .moveImmediate, some m => if reg m = 0 then none else some (.opcode b)
  | .moveSegment, some m => if aboveSr m = 0 then none else some (.opcode b)
  | _, _ => none

/-- The number of bytes after the first two of an instruction that starts with `b` and `m`. -/
def beyond (b m : UInt8) : Nat :=
  match opening b with
  | .unknown | .unread _ | .jump _ => 0
  | .moveRegister | .moveSegment => addressLength m
  | .moveImmediate => addressLength m + 1 + (wBit b).toNat
  | .arithmetic => addressLength m + if b = 0x81 then 2 else 1
  | .moveAccumulator => 1
  | .moveRegisterImmediate => (upperWBit b).toNat
  | .accumulator _ => (wBit b).toNat

/-- The number of bytes of an instruction that starts with `b` and `m`. -/
def need (b m : UInt8) : Nat := 2 + beyond b m

/-- No instruction has more than six bytes. -/
theorem need_le (b m : UInt8) : need b m ≤ 6 := by
  have address : addressLength m ≤ 2 := by
    unfold addressLength
    split
    · omega
    · split <;> omega
  have low : (wBit b).toNat ≤ 1 := by
    rw [wBit, toNat_and_one]
    omega
  have upper : (upperWBit b).toNat ≤ 1 := by
    rw [upperWBit, toNat_and_one]
    omega
  have data : (if b = 0x81 then 2 else 1) ≤ 2 := by split <;> omega
  unfold need beyond
  cases opening b <;> dsimp only <;> omega

/-- The slots of an instruction that starts with `b`, whose other bytes are `used`. -/
def slots (b : UInt8) (used : List UInt8) : Decoding :=
  let op := lead b (opening b)
  let m := used.headD 0
  let address := used.tail.take (addressLength m)
  let data := used.tail.drop (addressLength m)
  match opening b with
  | .unknown | .unread _ => op
  | .moveRegister => withAddress (withModRM op m .moveRegister) m address
  | .moveSegment => { withAddress (withModRM op m .moveSegment) m address with w := some 1 }
  | .moveImmediate =>
    { withData (withAddress (withModRM op m .moveImmediate) m address) data with d := some 0 }
  | .arithmetic => withData (withAddress (withModRM op m .arithmetic) m address) data
  | .moveAccumulator =>
    { op with
      addrLow := some (used.getD 0 0), addrHigh := some (used.getD 1 0)
      d := some (if b ≤ 0xA1 then 1 else 0), reg := some 0 }
  | .moveRegisterImmediate => { withData op used with d := some 1 }
  | .accumulator _ => { withData op used with d := some 1, reg := some 0 }
  | .jump _ => { op with dispLow := some (used.getD 0 0) }

/-! ### What a layout comes to -/

theorem run_layout_nil (b : UInt8) :
    (layout b (lead b (opening b)) (opening b)).run [] =
      match refusal? b none with
      | some refusal => .refused refusal
      | none => .ended := by
  unfold refusal?
  cases opening b <;> rfl

theorem dataLength_withModRM (op : Decoding) (m : UInt8) (opening : Opening) :
    dataLength (withModRM op m opening) = dataLength op := by
  cases opening <;> rfl

theorem dataLength_eq (op : Decoding) {w : UInt8} (wide : op.w = some w) (unsigned : op.s = none)
    (bit : w = 0 ∨ w = 1) : dataLength op = 1 + w.toNat := by
  unfold dataLength twoData Decoding.wide
  rw [wide, unsigned]
  rcases bit with rfl | rfl <;> rfl

theorem dataLength_arithmetic {b : UInt8} (kind : opening b = .arithmetic) :
    dataLength (lead b .arithmetic) = if b = 0x81 then 2 else 1 := by
  revert kind
  exact forall_byte b (by decide +kernel)

theorem bit_cases (b : UInt8) : b &&& 1 = 0 ∨ b &&& 1 = 1 := by
  have value := toNat_and_one b
  simp only [← UInt8.toNat_inj, value]
  show b.toNat % 2 = 0 ∨ b.toNat % 2 = 1
  omega

theorem isSome_groupOperation? (code : UInt8) :
    (groupOperation? code).isSome ↔ code = 0 ∨ code = 5 ∨ code = 7 := by
  unfold groupOperation?
  split
  · simp [*]
  · split
    · simp [*]
    · split <;> simp [*]

theorem takes_address_data (op : Decoding) {m : UInt8} {count : Nat}
    (known : op.mode = some (mode m)) (data : dataLength op = count) :
    Takes ((op.fillAfterCode (rm m)).bind fun op => fillData op) (addressLength m + count)
      fun used => withData (withAddress op m (used.take (addressLength m)))
        (used.drop (addressLength m)) := by
  have each : ∀ used, Takes (fillData (withAddress op m used)) count
      (withData (withAddress op m used)) := by
    intro used
    rw [← data, ← dataLength_withAddress op m used]
    exact takes_fillData _
  exact (takes_fillAfterCode op known).bind each

/-- **A layout takes a fixed number of bytes** once the first two are known. -/
theorem run_layout_cons (b m : UInt8) (tail : List UInt8) :
    (layout b (lead b (opening b)) (opening b)).run (m :: tail) =
      match refusal? b (some m) with
      | some refusal => .refused refusal
      | none =>
        if beyond b m ≤ tail.length then
          .taken (slots b (m :: tail.take (beyond b m))) (tail.drop (beyond b m))
        else .ended := by
  unfold refusal? beyond slots
  cases kind : opening b with
  | unknown => rfl
  | unread operation => rfl
  | moveRegister =>
    have takes := takes_fillAfterCode (withModRM (lead b .moveRegister) m .moveRegister) rfl
    rw [layout, run, takes tail]
    simp only [List.headD_cons, List.tail_cons, List.take_take, Nat.min_self]
  | moveSegment =>
    have takes := (takes_fillAfterCode (withModRM (lead b .moveSegment) m .moveSegment) rfl).map
      fun op => { op with w := some 1 }
    rw [layout, run]
    by_cases clear : aboveSr m = 0
    · rw [if_pos clear, takes tail]
      simp only [clear, if_true, List.headD_cons, List.tail_cons, List.take_take, Nat.min_self]
    · simp only [clear, if_false]
      rfl
  | moveImmediate =>
    have data := dataLength_eq (lead b .moveImmediate) rfl rfl (bit_cases b)
    have takes := (takes_address_data (withModRM (lead b .moveImmediate) m .moveImmediate) rfl
      ((dataLength_withModRM _ m _).trans data)).map fun op => { op with d := some 0 }
    rw [layout, run]
    by_cases zero : reg m = 0
    · rw [if_pos zero, takes tail]
      simp only [zero, if_true, List.headD_cons, List.tail_cons, Nat.add_assoc]
    · simp only [zero, if_false]
      rfl
  | moveAccumulator =>
    have takes := (takes_two fun low high => { lead b .moveAccumulator with
      addrLow := some low, addrHigh := some high }).map fun op =>
        { op with d := some (if b ≤ 0xA1 then 1 else 0), reg := some 0 }
    exact takes.run_cons m tail
  | moveRegisterImmediate =>
    have data := dataLength_eq (lead b .moveRegisterImmediate) rfl rfl (bit_cases (b >>> 3))
    have takes := (takes_fillData (lead b .moveRegisterImmediate)).map fun op =>
      { op with d := some 1 }
    rw [data, Nat.add_comm] at takes
    exact takes.run_cons m tail
  | arithmetic =>
    have takes := takes_address_data (withModRM (lead b .arithmetic) m .arithmetic) rfl
      ((dataLength_withModRM _ m _).trans (dataLength_arithmetic kind))
    rw [layout, run]
    by_cases read : (groupOperation? (reg m)).isSome
    · have known := (isSome_groupOperation? (reg m)).mp read
      rw [if_pos read, takes tail]
      simp only [known, if_true, List.headD_cons, List.tail_cons]
    · have unknown := mt (isSome_groupOperation? (reg m)).mpr read
      rw [if_neg read]
      simp only [unknown, if_false]
      rfl
  | accumulator operation =>
    have data := dataLength_eq (lead b (.accumulator operation)) rfl rfl (bit_cases b)
    have takes := (takes_fillData (lead b (.accumulator operation))).map fun op =>
      { op with d := some 1, reg := some 0 }
    rw [data, Nat.add_comm] at takes
    exact takes.run_cons m tail
  | jump operation =>
    have takes := takes_one fun increment => { lead b (.jump operation) with
      dispLow := some increment }
    exact takes.run_cons m tail

/-- **A decoding is refused, or takes the bytes it needs, or wants more of them.** -/
theorem spelled_cons (b : UInt8) (rest : List UInt8) :
    spelled (b :: rest) =
      match refusal? b rest.head? with
      | some refusal => .refused refusal
      | none =>
        if need b (rest.headD 0) ≤ rest.length + 1 then
          .taken (finish (need b (rest.headD 0)) (slots b (rest.take (need b (rest.headD 0) - 1))))
            (rest.drop (need b (rest.headD 0) - 1))
        else .ended := by
  rw [spelled, run_measured]
  cases rest with
  | nil =>
    rw [run_layout_nil]
    show _ = match refusal? b none with | some refusal => _ | none => _
    cases refusal? b none with
    | some refusal => rfl
    | none => exact (if_neg (by unfold need; simp; omega)).symm
  | cons m tail =>
    have two : need b m = beyond b m + 1 + 1 := by unfold need; omega
    rw [run_layout_cons]
    show _ = match refusal? b (some m) with | some refusal => _ | none => _
    cases refusal? b (some m) with
    | some refusal => rfl
    | none =>
      simp only [List.headD_cons, two, List.length_cons, Nat.add_le_add_iff_right,
        Nat.add_sub_cancel, List.take_succ_cons, List.drop_succ_cons]
      by_cases enough : beyond b m ≤ tail.length
      · rw [if_pos enough, if_pos enough]
        dsimp only
        rw [List.length_drop,
          show tail.length + 1 - (tail.length - beyond b m) = beyond b m + 1 by omega]
      · rw [if_neg enough, if_neg enough]

/-- Where more bytes are wanted, no more than five are there. -/
theorem length_of_ended {bytes : List UInt8} (ended : spelled bytes = .ended) :
    bytes.length ≤ 5 := by
  cases bytes with
  | nil => exact Nat.zero_le 5
  | cons b rest =>
    rw [spelled_cons] at ended
    split at ended
    · cases ended
    · split at ended
      · cases ended
      · have bound := need_le b (rest.headD 0)
        rw [List.length_cons]
        omega

/-- What the grammar says of the bytes from the start of an instruction to the end of a stream of
`size` bytes: the length of the instruction, or why there is none. -/
def verdict (size : Nat) : List UInt8 → Except DecodeError Nat
  | [] => .error (.truncated size)
  | b :: rest =>
    match refusal? b rest.head? with
    | some refusal => .error refusal.cause
    | none =>
      if need b (rest.headD 0) ≤ rest.length + 1 then .ok (need b (rest.headD 0))
      else .error (.truncated size)

theorem verdict_eq (size : Nat) (bytes : List UInt8) :
    verdict size bytes =
      match spelled bytes with
      | .taken op _ => .ok op.length
      | .refused refusal => .error refusal.cause
      | .ended => .error (.truncated size) := by
  cases bytes with
  | nil => rfl
  | cons b rest =>
    rw [verdict, spelled_cons]
    cases refusal? b rest.head? with
    | some refusal => rfl
    | none =>
      dsimp only
      by_cases enough : need b (rest.headD 0) ≤ rest.length + 1
      · rw [if_pos enough, if_pos enough]
        rfl
      · rw [if_neg enough, if_neg enough]

/-- A decoding has the bytes it needs, and leaves those after them. -/
theorem of_spelled_taken {bytes rest : List UInt8} {op : Decoding}
    (taken : spelled bytes = .taken op rest) :
    ∃ b m tail, bytes = (b :: m :: tail) ++ rest ∧ refusal? b (some m) = none ∧
      tail.length = beyond b m ∧ op = finish (need b m) (slots b (m :: tail)) ∧
      op.length = (b :: m :: tail).length := by
  match bytes with
  | [] => cases taken
  | [b] =>
    rw [spelled_cons] at taken
    split at taken
    · cases taken
    · split at taken
      · rename_i enough
        simp only [need, List.length_nil] at enough
        omega
      · cases taken
  | b :: m :: tail =>
    have two : need b m = beyond b m + 1 + 1 := by unfold need; omega
    rw [spelled_cons, List.headD_cons, two] at taken
    split at taken
    · cases taken
    · rename_i read
      split at taken
      · rename_i enough
        cases taken
        simp only [List.length_cons, Nat.add_le_add_iff_right] at enough
        have whole : (tail.take (beyond b m)).length = beyond b m := by
          rw [List.length_take, Nat.min_eq_left enough]
        refine ⟨b, m, tail.take (beyond b m), ?_, read, whole, ?_, ?_⟩
        · simp only [Nat.add_sub_cancel, List.drop_succ_cons, List.cons_append,
            List.take_append_drop]
        · rw [two, Nat.add_sub_cancel, List.take_succ_cons]
        · rw [List.length_cons, List.length_cons, whole]
          rfl
      · cases taken

theorem rest_of_spelled {bytes rest : List UInt8} {op : Decoding}
    (taken : spelled bytes = .taken op rest) :
    op.length ≤ bytes.length ∧ rest = bytes.drop op.length := by
  obtain ⟨b, m, tail, rfl, _, _, _, count⟩ := of_spelled_taken taken
  rw [count, List.length_append]
  exact ⟨Nat.le_add_right _ _, List.drop_left.symm⟩

section Aligned

variable {r r' : BitReader}

theorem spelled_of_decode_ok {op : Decoding} (aligned : r.pos % 8 = 0)
    (result : decode r = .ok op r') :
    spelled (r.bytes.toList.drop r.offset) =
        .taken op ((r.bytes.toList.drop r.offset).drop op.length) ∧
      r'.bytes = r.bytes ∧ r'.pos = r.pos + 8 * op.length := by
  have agrees := agrees_decode_aligned aligned
  have here := (BitReader.at_of_aligned aligned).remaining_eq
  rw [ofBytes_eq_spelled, result] at agrees
  obtain ⟨rest, came, there⟩ := BitReader.taken_of_agrees agrees
  obtain ⟨enough, rfl⟩ := rest_of_spelled came
  have left := there.remaining_eq
  have bound := r.pos_le
  have bound' := r'.pos_le
  rw [List.length_drop] at left
  simp only [BitReader.remaining, there.bytes] at here left
  rw [there.bytes] at bound'
  exact ⟨came, there.bytes, by omega⟩

theorem verdict_of_decode_error {cause : DecodeError} (aligned : r.pos % 8 = 0)
    (result : decode r = .error cause r') :
    verdict r.bytes.size (r.bytes.toList.drop r.offset) = .error cause := by
  have agrees := agrees_decode_aligned aligned
  rw [ofBytes_eq_spelled, result] at agrees
  rw [verdict_eq]
  cases came : spelled (r.bytes.toList.drop r.offset) with
  | taken op rest =>
    rw [came] at agrees
    exact agrees.elim
  | refused refusal =>
    rw [came] at agrees
    rw [agrees rfl]
  | ended =>
    rw [came] at agrees
    rw [agrees rfl]

/-- The bytes ahead tell whether a decoding succeeds, and what it gives. -/
theorem exists_decode_ok {op : Decoding} {rest : List UInt8} (aligned : r.pos % 8 = 0)
    (came : spelled (r.bytes.toList.drop r.offset) = .taken op rest) :
    ∃ r', decode r = .ok op r' := by
  cases result : decode r with
  | ok op' r' =>
    have same := (spelled_of_decode_ok aligned result).1
    rw [came] at same
    cases same
    exact ⟨r', rfl⟩
  | error cause r' =>
    have failed := verdict_of_decode_error aligned result
    rw [verdict_eq, came] at failed
    cases failed

theorem exists_decode_error {cause : DecodeError} (aligned : r.pos % 8 = 0)
    (failed : verdict r.bytes.size (r.bytes.toList.drop r.offset) = .error cause) :
    ∃ r', decode r = .error cause r' := by
  cases result : decode r with
  | ok op r' =>
    rw [verdict_eq, (spelled_of_decode_ok aligned result).1] at failed
    cases failed
  | error cause' r' =>
    rw [verdict_of_decode_error aligned result] at failed
    cases failed
    exact ⟨r', rfl⟩

end Aligned

/-- **Decoding accepts exactly the grammar**, with its lengths and its errors. -/
theorem decode_extent (r : BitReader) (aligned : r.pos % 8 = 0) :
    match decode r with
    | .ok op r' =>
      verdict r.bytes.size (r.bytes.toList.drop r.offset) = .ok op.length ∧
        r'.bytes = r.bytes ∧ r'.pos = r.pos + 8 * op.length
    | .error cause _ =>
      verdict r.bytes.size (r.bytes.toList.drop r.offset) = .error cause := by
  cases result : decode r with
  | error cause r' => exact verdict_of_decode_error aligned result
  | ok op r' =>
    obtain ⟨came, moved⟩ := spelled_of_decode_ok aligned result
    refine ⟨?_, moved⟩
    rw [verdict_eq, came]

/-- A word form of the arithmetic group with a displacement and two data bytes, after a byte of
another instruction. -/
def addWord : BitReader := (BitReader.ofBytes #[0x90, 0x81, 0x47, 0xFE, 0x34, 0x12, 0x90]).seek 1

theorem decode_extent_addWord :
    addWord.pos % 8 = 0 ∧
      verdict addWord.bytes.size (addWord.bytes.toList.drop addWord.offset) = .ok 5 ∧
      match decode addWord with
      | .ok op r' =>
        verdict addWord.bytes.size (addWord.bytes.toList.drop addWord.offset) = .ok op.length ∧
          r'.bytes = addWord.bytes ∧ r'.pos = addWord.pos + 8 * op.length
      | .error cause _ =>
        verdict addWord.bytes.size (addWord.bytes.toList.drop addWord.offset) = .error cause :=
  ⟨by decide, by rfl, decode_extent addWord (by decide)⟩

end RealMode.Encoding
