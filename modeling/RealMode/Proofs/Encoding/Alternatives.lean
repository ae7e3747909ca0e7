/-
**Instructions with more than one encoding.** A byte that stands for a word may be written out with
its sign, a displacement of zero may be left out, and some operations have a shorter form for the
accumulator or for a register. Such encodings are refused alike, or they name the same operation and
the same operands, and the machine comes to the same registers.

* `Alternative`: the pairs of encodings.
* `agree_of_alternative`: two encodings of a pair are refused alike and have the same meaning.
* `step_alternative`: a step over one of them does what a step over the other one does.
-/

import RealMode.Proofs.Run.Locality

namespace RealMode

namespace Encoding

open Decoding

/-- The high byte of the word that a byte stands for as a signed number. -/
def signFill (b : UInt8) : UInt8 := if b < 128 then 0x00 else 0xFF

/-- The first bytes that announce a ModRM byte. -/
def modRMOpcodes : List UInt8 :=
  [0x00, 0x01, 0x02, 0x03, 0x28, 0x29, 0x2A, 0x2B, 0x38, 0x39, 0x3A, 0x3B,
    0x80, 0x81, 0x82, 0x83, 0x88, 0x89, 0x8A, 0x8B, 0x8C, 0x8E, 0xC6, 0xC7]

/-- The number of data bytes after a ModRM byte and its address. -/
def dataBytes (f : UInt8) : Nat :=
  if f = 0x81 ∨ f = 0xC7 then 2
  else if f = 0x80 ∨ f = 0x82 ∨ f = 0x83 ∨ f = 0xC6 then 1
  else 0

/-- The first bytes of the operations on the accumulator, with the first byte and the code of the
same operation in the arithmetic group. -/
def accumulatorForms : List (UInt8 × UInt8 × UInt8) :=
  [(0x04, 0x80, 0), (0x05, 0x81, 0), (0x2C, 0x80, 5), (0x2D, 0x81, 5), (0x3C, 0x80, 7),
    (0x3D, 0x81, 7)]

/-- The first bytes of the moves between the accumulator and an address, with the first byte of the
same move with a ModRM byte. -/
def addressForms : List (UInt8 × UInt8) :=
  [(0xA0, 0x8A), (0xA1, 0x8B), (0xA2, 0x88), (0xA3, 0x89)]

/-- Pairs of encodings of one instruction. -/
inductive Alternative : List UInt8 → List UInt8 → Prop
  /-- A data byte that stands for a word, and the word. -/
  | widenedData (m b : UInt8) (address : List UInt8) (whole : address.length = addressLength m) :
    Alternative (0x83 :: m :: (address ++ [b])) (0x81 :: m :: (address ++ [b, signFill b]))
  /-- Where a byte is wanted, it makes no difference that it might be widened. -/
  | idleSign (m b : UInt8) (address : List UInt8) (whole : address.length = addressLength m) :
    Alternative (0x82 :: m :: (address ++ [b])) (0x80 :: m :: (address ++ [b]))
  /-- A displacement of a byte, and the same of a word. -/
  | widenedDisplacement (f m m' b : UInt8) (data : List UInt8) (announces : f ∈ modRMOpcodes)
    (one : mode m = 1) (two : mode m' = 2) (sameReg : reg m = reg m') (sameRm : rm m = rm m')
    (whole : data.length = dataBytes f) :
    Alternative (f :: m :: ([b] ++ data)) (f :: m' :: ([b, signFill b] ++ data))
  /-- No displacement, and one of zero. -/
  | zeroDisplacement (f m m' : UInt8) (data : List UInt8) (announces : f ∈ modRMOpcodes)
    (zero : mode m = 0) (indirect : rm m ≠ 6) (one : mode m' = 1) (sameReg : reg m = reg m')
    (sameRm : rm m = rm m') (whole : data.length = dataBytes f) :
    Alternative (f :: m :: ([] ++ data)) (f :: m' :: ([0] ++ data))
  /-- An operation on the accumulator, and the same in the arithmetic group. -/
  | accumulator (f f' m : UInt8) (data : List UInt8)
    (form : (f, f', reg m) ∈ accumulatorForms) (three : mode m = 3) (first : rm m = 0)
    (whole : data.length = dataBytes f') :
    Alternative (f :: data) (f' :: m :: data)
  /-- A constant moved into a register named by the first byte, and by a ModRM byte. -/
  | registerImmediate (w m : UInt8) (data : List UInt8) (bit : w = 0 ∨ w = 1)
    (three : mode m = 3) (clear : reg m = 0) (whole : data.length = 1 + w.toNat) :
    Alternative ((0xB0 + 8 * w + rm m) :: data) ((0xC6 + w) :: m :: data)
  /-- A move between the accumulator and an address, and the same with a ModRM byte. -/
  | directAddress (f f' low high : UInt8) (form : (f, f') ∈ addressForms) :
    Alternative [f, low, high] [f', 0x06, low, high]
  /-- A move between registers, and the same told from the other register. -/
  | swappedRegisters (w m m' : UInt8) (bit : w = 0 ∨ w = 1) (three : mode m = 3)
    (three' : mode m' = 3) (source : reg m = rm m') (destination : rm m = reg m') :
    Alternative [0x88 + w, m] [0x8A + w, m']

/-! ### Whole encodings -/

/-- Nothing is missing and nothing is left over, unless the bytes are refused. -/
def Whole : List UInt8 → Prop
  | b :: m :: tail => refusal? b (some m) = none → tail.length = beyond b m
  | _ => False

/-- The first two bytes are refused. -/
def refused : List UInt8 → Bool
  | b :: m :: _ => (refusal? b (some m)).isSome
  | _ => false

section Stream

variable {r : BitReader} {used rest : List UInt8}

theorem decode_of_refused (aligned : r.pos % 8 = 0)
    (ahead : r.bytes.toList.drop r.offset = used ++ rest) (bad : refused used = true) :
    ∃ cause r', decode r = .error cause r' ∧ cause.isTruncated = false := by
  match used, bad with
  | b :: m :: tail, bad =>
    obtain ⟨refusal, found⟩ := Option.isSome_iff_exists.mp bad
    have failed : verdict r.bytes.size (r.bytes.toList.drop r.offset) = .error refusal.cause := by
      rw [ahead, List.cons_append, List.cons_append, verdict, List.head?_cons, found]
    obtain ⟨r', result⟩ := exists_decode_error aligned failed
    exact ⟨refusal.cause, r', result, isTruncated_cause refusal⟩

theorem verdict_of_whole (size : Nat) (whole : Whole used) (good : refused used = false) :
    verdict size (used ++ rest) = .ok used.length := by
  match used, whole, good with
  | b :: m :: tail, whole, good =>
    have read : refusal? b (some m) = none := by simpa [refused] using good
    have length : need b m = (b :: m :: tail).length := by
      rw [need, ← whole read, List.length_cons, List.length_cons]
      omega
    rw [List.cons_append, List.cons_append, verdict, List.head?_cons, read]
    dsimp only
    rw [List.headD_cons, length, if_pos (by simp)]

/-- Whole bytes that are not refused are decoded, all of them, as what they mean. -/
theorem decode_of_whole (aligned : r.pos % 8 = 0)
    (ahead : r.bytes.toList.drop r.offset = used ++ rest) (whole : Whole used)
    (good : refused used = false) :
    ∃ op r' items, decode r = .ok op r' ∧ op.length = used.length ∧ op.operands = .ok items ∧
      meaning used = some (op.mnemonic, items) := by
  have accepted : verdict r.bytes.size (r.bytes.toList.drop r.offset) = .ok used.length := by
    rw [ahead]
    exact verdict_of_whole _ whole good
  have extent := decode_extent r aligned
  cases result : decode r with
  | error cause r' =>
    rw [result, accepted] at extent
    cases extent
  | ok op r' =>
    rw [result, accepted] at extent
    have length : op.length = used.length := (Except.ok.inj extent.1).symm
    obtain ⟨items, resolved, meant⟩ := decode_meaning aligned result
    rw [length, ahead, List.take_left] at meant
    exact ⟨op, r', items, rfl, length, resolved, meant⟩

end Stream

/-! ### Encodings that agree -/

/-- Two byte strings are refused alike or are instructions of the same meaning. -/
structure Agree (used used' : List UInt8) : Prop where
  whole : Whole used
  whole' : Whole used'
  refused : refused used = refused used'
  meaning : meaning used = meaning used'

/-- The addresses after two ModRM bytes name the same place, and the rest of the bytes is the
same. -/
structure SamePlace (m m' : UInt8) (address address' : List UInt8) : Prop where
  whole : address.length = addressLength m
  whole' : address'.length = addressLength m'
  reg : reg m = reg m'
  place : ∀ w, place w m address = place w m' address'

theorem sr_eq (m : UInt8) : sr m = reg m &&& 3 := by
  rw [sr, reg, UInt8.and_assoc]
  rfl

theorem aboveSr_eq (m : UInt8) : aboveSr m = (reg m >>> 2) &&& 1 := by
  apply UInt8.toNat_inj.mp
  have two : (2 : UInt8).toNat = 2 := rfl
  have five : (5 : UInt8).toNat = 5 := rfl
  rw [aboveSr, toNat_and_one, toNat_and_one, toNat_shift m 5 (by decide),
    toNat_shift _ 2 (by decide), toNat_reg, two, five]
  omega

/-- After a ModRM byte come its address and the data bytes, or nothing is read at all. -/
theorem opening_modRM (f : UInt8) (announces : f ∈ modRMOpcodes) :
    (match opening f with
      | .unread _ => true
      | .moveRegister | .moveSegment => dataBytes f = 0
      | .moveImmediate => dataBytes f = 1 + (wBit f).toNat
      | .arithmetic => dataBytes f = if f = 0x81 then 2 else 1
      | _ => false : Bool) = true := by
  revert f
  exact List.all_eq_true.mp (by decide)

section Agree

variable {f m m' b w : UInt8} {address address' data : List UInt8}

theorem signedNumber_signFill (b : UInt8) : signedNumber b (signFill b) = signedByte b := by
  unfold signFill signedByte signedNumber number
  split
  · simp
  · simp
    omega

theorem place_widened (one : mode m = 1) (two : mode m' = 2) (same : rm m = rm m') :
    place w m [b] = place w m' [b, signFill b] := by
  rw [place_byte one, place_word two, same, signedNumber_signFill]

theorem place_zero (zero : mode m = 0) (indirect : rm m ≠ 6) (one : mode m' = 1)
    (same : rm m = rm m') : place w m [] = place w m' [0] := by
  rw [place_bare zero indirect, place_byte one, same]
  rfl

theorem constant_widened : constant w [b] = constant w [b, signFill b] := by
  simp only [constant, signedNumber_signFill]

theorem beyond_modRM (announces : f ∈ modRMOpcodes) (read : refusal? f (some m) = none) :
    beyond f m = addressLength m + dataBytes f := by
  have shape := opening_modRM f announces
  unfold refusal? at read
  unfold beyond
  cases kind : opening f <;> rw [kind] at shape read <;> simp_all [Nat.add_assoc]

/-- A ModRM byte with its address and the data bytes is a whole encoding. -/
theorem whole_modRM (announces : f ∈ modRMOpcodes) (whole : address.length = addressLength m)
    (enough : data.length = dataBytes f) : Whole (f :: m :: (address ++ data)) := by
  intro read
  rw [List.length_append, whole, enough, beyond_modRM announces read]

theorem refusal?_congr (f : UInt8) (same : reg m = reg m') :
    refusal? f (some m) = refusal? f (some m') := by
  have above : aboveSr m = aboveSr m' := by rw [aboveSr_eq, aboveSr_eq, same]
  cases kind : opening f <;> simp only [refusal?, kind, same, above]

theorem meaning_moveImmediate (kind : opening f = .moveImmediate)
    (whole : address.length = addressLength m) :
    meaning (f :: m :: (address ++ data)) = do
      let placed ← place (wBit f) m address
      let source ← constant (wBit f) data
      return (.mov, [placed, source]) := by
  simp only [meaning, kind]
  rw [← whole, List.take_left, List.drop_left]

theorem meaning_arithmetic (kind : opening f = .arithmetic)
    (whole : address.length = addressLength m) :
    meaning (f :: m :: (address ++ data)) = do
      let operation ← groupOperation? (reg m)
      let placed ← place (wBit f) m address
      let source ← constant (wBit f) data
      return (operation, [placed, source]) := by
  simp only [meaning, kind]
  rw [← whole, List.take_left, List.drop_left]

theorem meaning_samePlace (announces : f ∈ modRMOpcodes) (same : SamePlace m m' address address')
    (whole : data.length = dataBytes f) :
    meaning (f :: m :: (address ++ data)) = meaning (f :: m' :: (address' ++ data)) := by
  have shape := opening_modRM f announces
  have code : sr m = sr m' := by rw [sr_eq, sr_eq, same.reg]
  cases kind : opening f <;> rw [kind] at shape
  case unread => simp only [meaning, kind]
  case moveRegister =>
    have none : data = [] := List.eq_nil_of_length_eq_zero (whole.trans (by simpa using shape))
    simp only [meaning, kind, none, List.append_nil, same.reg, same.place]
  case moveSegment =>
    have none : data = [] := List.eq_nil_of_length_eq_zero (whole.trans (by simpa using shape))
    simp only [meaning, kind, none, List.append_nil, code, same.place]
  case moveImmediate =>
    rw [meaning_moveImmediate kind same.whole, meaning_moveImmediate kind same.whole', same.place]
  case arithmetic =>
    rw [meaning_arithmetic kind same.whole, meaning_arithmetic kind same.whole', same.reg,
      same.place]
  all_goals cases shape

theorem agree_of_samePlace (announces : f ∈ modRMOpcodes) (same : SamePlace m m' address address')
    (whole : data.length = dataBytes f) :
    Agree (f :: m :: (address ++ data)) (f :: m' :: (address' ++ data)) where
  whole := whole_modRM announces same.whole whole
  whole' := whole_modRM announces same.whole' whole
  refused := by rw [refused, refused, refusal?_congr f same.reg]
  meaning := meaning_samePlace announces same whole

theorem refused_arithmetic (kind : opening f = .arithmetic) (tail : List UInt8) :
    refused (f :: m :: tail) = !(groupOperation? (reg m)).isSome := by
  simp only [refused, refusal?, kind, ← isSome_groupOperation?]
  cases groupOperation? (reg m) <;> rfl

/-- In the arithmetic group the first byte plays no part but for the data. -/
theorem agree_arithmetic {f' : UInt8} {data' : List UInt8} (kind : opening f = .arithmetic)
    (kind' : opening f' = .arithmetic) (announces : f ∈ modRMOpcodes)
    (announces' : f' ∈ modRMOpcodes) (width : wBit f = wBit f')
    (held : constant (wBit f') data = constant (wBit f') data')
    (whole : address.length = addressLength m) (enough : data.length = dataBytes f)
    (enough' : data'.length = dataBytes f') :
    Agree (f :: m :: (address ++ data)) (f' :: m :: (address ++ data')) where
  whole := whole_modRM announces whole enough
  whole' := whole_modRM announces' whole enough'
  refused := by rw [refused_arithmetic kind, refused_arithmetic kind']
  meaning := by
    rw [meaning_arithmetic kind whole, meaning_arithmetic kind' whole, width, held]

theorem exists_cons_of_length {data : List UInt8} {n : Nat} (length : data.length = 1 + n) :
    ∃ low tail, data = low :: tail ∧ tail.length = n := by
  obtain ⟨low, tail, rfl⟩ := List.exists_cons_of_length_pos (l := data) (by omega)
  rw [List.length_cons] at length
  exact ⟨low, tail, rfl, by omega⟩

theorem addressLength_register (three : mode m = 3) :
    ([] : List UInt8).length = addressLength m :=
  (if_pos (.inl three)).symm

theorem meaning_accumulator {operation : Mnemonic} (kind : opening f = .accumulator operation) :
    meaning (f :: data) = do
      let source ← constant (wBit f) data
      return (operation, [.register (register (wBit f) 0), source]) := by
  simp only [meaning, kind]

theorem of_accumulatorForms : ∀ form ∈ accumulatorForms,
    (groupOperation? form.2.2).map .accumulator = some (opening form.1) ∧
      opening form.2.1 = .arithmetic ∧ form.2.1 ∈ modRMOpcodes ∧ wBit form.1 = wBit form.2.1 ∧
      dataBytes form.2.1 = 1 + (wBit form.1).toNat := by
  intro form among
  simp only [accumulatorForms, List.mem_cons, List.not_mem_nil, or_false] at among
  rcases among with rfl | rfl | rfl | rfl | rfl | rfl <;>
    exact ⟨rfl, rfl, by decide, rfl, rfl⟩

theorem agree_accumulator {f' : UInt8} (form : (f, f', reg m) ∈ accumulatorForms)
    (three : mode m = 3) (first : rm m = 0) (whole : data.length = dataBytes f') :
    Agree (f :: data) (f' :: m :: data) := by
  obtain ⟨same, kind', announces, width, bytes⟩ := of_accumulatorForms _ form
  obtain ⟨operation, chosen, named⟩ := Option.map_eq_some_iff.mp same
  have kind : opening f = .accumulator operation := named.symm
  have bare := addressLength_register three
  obtain ⟨low, tail, rfl, count⟩ := exists_cons_of_length (whole.trans bytes)
  refine ⟨fun _ => ?_, whole_modRM announces bare whole, ?_, ?_⟩
  · simp only [beyond, kind, count]
  · rw [refused_arithmetic kind', chosen]
    simp only [refused, refusal?, kind]
    rfl
  · rw [meaning_accumulator kind, ← List.nil_append (low :: tail),
      meaning_arithmetic kind' bare, chosen, place_register three, first, width]
    rfl

theorem meaning_registerImmediate (kind : opening f = .moveRegisterImmediate) :
    meaning (f :: data) = do
      let source ← constant (upperWBit f) data
      return (.mov, [.register (register (upperWBit f) (rm f)), source]) := by
  simp only [meaning, kind]

theorem of_registerForm (m : UInt8) (bit : w = 0 ∨ w = 1) :
    opening (0xB0 + 8 * w + rm m) = .moveRegisterImmediate ∧
      upperWBit (0xB0 + 8 * w + rm m) = w ∧ rm (0xB0 + 8 * w + rm m) = rm m ∧
      opening (0xC6 + w) = .moveImmediate ∧ 0xC6 + w ∈ modRMOpcodes ∧ wBit (0xC6 + w) = w ∧
      dataBytes (0xC6 + w) = 1 + w.toNat := by
  rcases bit with rfl | rfl
  · exact forall_code (rm_lt m) (by decide)
  · exact forall_code (rm_lt m) (by decide)

theorem agree_registerImmediate (bit : w = 0 ∨ w = 1) (three : mode m = 3) (clear : reg m = 0)
    (whole : data.length = 1 + w.toNat) :
    Agree ((0xB0 + 8 * w + rm m) :: data) ((0xC6 + w) :: m :: data) := by
  obtain ⟨kind, upper, code, kind', announces, lower, bytes⟩ := of_registerForm m bit
  have bare := addressLength_register three
  obtain ⟨low, tail, rfl, count⟩ := exists_cons_of_length whole
  refine ⟨fun _ => ?_, whole_modRM announces bare (whole.trans bytes.symm), ?_, ?_⟩
  · simp only [beyond, kind, upper, count]
  · simp only [refused, refusal?, kind, kind', clear, if_true]
  · rw [meaning_registerImmediate kind, ← List.nil_append (low :: tail),
      meaning_moveImmediate kind' bare, lower, place_register three, upper, code]
    rfl

theorem agree_directAddress {f' low high : UInt8} (form : (f, f') ∈ addressForms) :
    Agree [f, low, high] [f', 0x06, low, high] := by
  simp only [addressForms, List.mem_cons, Prod.mk.injEq, List.not_mem_nil, or_false] at form
  rcases form with ⟨rfl, rfl⟩ | ⟨rfl, rfl⟩ | ⟨rfl, rfl⟩ | ⟨rfl, rfl⟩ <;>
    exact ⟨fun _ => rfl, fun _ => rfl, rfl, rfl⟩

theorem opening_moves (bit : w = 0 ∨ w = 1) :
    opening (0x88 + w) = .moveRegister ∧ opening (0x8A + w) = .moveRegister ∧
      0x88 + w ∈ modRMOpcodes ∧ 0x8A + w ∈ modRMOpcodes ∧ dBit (0x88 + w) = 0 ∧
      dBit (0x8A + w) = 1 ∧ wBit (0x88 + w) = wBit (0x8A + w) := by
  rcases bit with rfl | rfl
  · decide
  · decide

theorem agree_swappedRegisters (bit : w = 0 ∨ w = 1) (three : mode m = 3) (three' : mode m' = 3)
    (source : reg m = rm m') (destination : rm m = reg m') :
    Agree [0x88 + w, m] [0x8A + w, m'] := by
  obtain ⟨kind, kind', _, _, from', to', width⟩ := opening_moves bit
  refine ⟨fun _ => ?_, fun _ => ?_, ?_, ?_⟩
  · simp only [beyond, kind, ← addressLength_register three, List.length_nil]
  · simp only [beyond, kind', ← addressLength_register three', List.length_nil]
  · simp only [refused, refusal?, kind, kind']
  · simp only [meaning, kind, kind', from', to', width, place_register three,
      place_register three', source, destination]
    rfl

end Agree

theorem agree_of_alternative {used used' : List UInt8} (same : Alternative used used') :
    Agree used used' := by
  cases same with
  | widenedData m b address whole =>
    exact agree_arithmetic rfl rfl (by decide) (by decide) rfl constant_widened whole rfl rfl
  | idleSign m b address whole =>
    exact agree_arithmetic rfl rfl (by decide) (by decide) rfl rfl whole rfl rfl
  | widenedDisplacement f m m' b data announces one two sameReg sameRm whole =>
    refine agree_of_samePlace announces ⟨?_, ?_, sameReg, fun w => ?_⟩ whole
    · simp [addressLength, one]
    · simp [addressLength, two]
    · exact place_widened one two sameRm
  | zeroDisplacement f m m' data announces zero indirect one sameReg sameRm whole =>
    refine agree_of_samePlace announces ⟨?_, ?_, sameReg, fun w => ?_⟩ whole
    · simp [addressLength, zero, indirect]
    · simp [addressLength, one]
    · exact place_zero zero indirect one sameRm
  | accumulator f f' m data form three first whole =>
    exact agree_accumulator form three first whole
  | registerImmediate w m data bit three clear whole =>
    exact agree_registerImmediate bit three clear whole
  | directAddress f f' low high form => exact agree_directAddress form
  | swappedRegisters w m m' bit three three' source destination =>
    exact agree_swappedRegisters bit three three' source destination

/-! ### Steps over them -/

/-- Two steps emit the same instruction, but for its place and its bytes, and come to the same
registers. -/
def SameStep : Step → Step → Prop
  | .emitted i m _, .emitted j m' _ =>
    i.mnemonic = j.mnemonic ∧ i.operands = j.operands ∧ i.text = j.text ∧
      m.registers = m'.registers
  | _, _ => False

section Step

variable {r r' s s' : BitReader} {op op' : Decoding} {used used' rest rest' : List UInt8}

theorem execute_congr {m m' : Machine} {i j : Instruction} (registers : m.registers = m'.registers)
    (executes : m.config.execute = m'.config.execute) (mnemonic : i.mnemonic = j.mnemonic)
    (operands : i.operands = j.operands) :
    (m.execute i).registers = (m'.execute j).registers := by
  unfold Machine.execute
  rw [executes]
  split
  · rw [registers, mnemonic, operands]
  · exact registers

/-- What two decodings resolve to is all that their steps depend on. -/
theorem sameStep_of_decode {items : List Operand} (aligned : r.pos % 8 = 0)
    (there : s.pos % 8 = 0) (result : decode r = .ok op r') (result' : decode s = .ok op' s')
    (resolved : op.operands = .ok items) (resolved' : op'.operands = .ok items)
    (mnemonic : op.mnemonic = op'.mnemonic) {m m' : Machine}
    (registers : m.registers = m'.registers)
    (executes : m.config.execute = m'.config.execute) : SameStep (m.step r) (m'.step s) := by
  rw [step_of_decode aligned result resolved, step_of_decode there result' resolved']
  refine ⟨mnemonic, rfl, ?_, execute_congr registers executes mnemonic rfl⟩
  show assemblyLine op.mnemonic items = assemblyLine op'.mnemonic items
  rw [mnemonic]

/-- **Alternative encodings agree**: both are refused, or both are decoded and steps over them do
the same. -/
theorem step_alternative (same : Alternative used used') (aligned : r.pos % 8 = 0)
    (there : s.pos % 8 = 0) (ahead : r.bytes.toList.drop r.offset = used ++ rest)
    (ahead' : s.bytes.toList.drop s.offset = used' ++ rest') :
    match decode r, decode s with
    | .ok op _, .ok op' _ =>
      op.length = used.length ∧ op'.length = used'.length ∧
        ∀ m m' : Machine, m.registers = m'.registers → m.config.execute = m'.config.execute →
          SameStep (m.step r) (m'.step s)
    | .error cause _, .error cause' _ => cause.isTruncated = false ∧ cause'.isTruncated = false
    | _, _ => False := by
  have agree := agree_of_alternative same
  cases bad : refused used with
  | true =>
    obtain ⟨cause, r', result, stands⟩ := decode_of_refused aligned ahead bad
    obtain ⟨cause', s', result', stands'⟩ :=
      decode_of_refused there ahead' (agree.refused.symm.trans bad)
    rw [result, result']
    exact ⟨stands, stands'⟩
  | false =>
    obtain ⟨op, r', items, result, length, resolved, meant⟩ :=
      decode_of_whole aligned ahead agree.whole bad
    obtain ⟨op', s', items', result', length', resolved', meant'⟩ :=
      decode_of_whole there ahead' agree.whole' (agree.refused.symm.trans bad)
    -- slots are filled otherwise in the two decodings, but both come to one meaning
    rw [agree.meaning, meant'] at meant
    obtain ⟨mnemonic, rfl⟩ := Prod.mk.inj (Option.some.inj meant)
    rw [result, result']
    exact ⟨length, length', fun m m' registers executes =>
      sameStep_of_decode aligned there result result' resolved resolved' mnemonic.symm registers
        executes⟩

end Step

/-- The addition of -128 to a word register with a data byte, after another byte. -/
def addShort : BitReader := (BitReader.ofBytes #[0x90, 0x83, 0xC0, 0x80]).seek 1

/-- The same with two data bytes, before another byte. -/
def addLong : BitReader := .ofBytes #[0x81, 0xC0, 0x80, 0xFF, 0x90]

theorem step_alternative_addWord :
    Alternative [0x83, 0xC0, 0x80] [0x81, 0xC0, 0x80, 0xFF] ∧
      addShort.pos % 8 = 0 ∧ addLong.pos % 8 = 0 ∧
      addShort.bytes.toList.drop addShort.offset = [0x83, 0xC0, 0x80] ++ [] ∧
      addLong.bytes.toList.drop addLong.offset = [0x81, 0xC0, 0x80, 0xFF] ++ [0x90] ∧
      (∃ i m r, Machine.step {} addShort = .emitted i m r ∧ i.text = "add ax, -128") ∧
      SameStep (Machine.step {} addShort) (Machine.step {} addLong) := by
  have same : Alternative [0x83, 0xC0, 0x80] [0x81, 0xC0, 0x80, 0xFF] :=
    .widenedData 0xC0 0x80 [] rfl
  have ahead : addShort.bytes.toList.drop addShort.offset = [0x83, 0xC0, 0x80] ++ [] := by
    decide +kernel
  have ahead' : addLong.bytes.toList.drop addLong.offset =
      [0x81, 0xC0, 0x80, 0xFF] ++ [0x90] := by
    decide +kernel
  have agree := step_alternative same (by decide) (by decide) ahead ahead'
  obtain ⟨op, r, result⟩ : ∃ op r, decode addShort = .ok op r := ⟨_, _, rfl⟩
  obtain ⟨op', s, result'⟩ : ∃ op s, decode addLong = .ok op s := ⟨_, _, rfl⟩
  rw [result, result'] at agree
  refine ⟨same, by decide, by decide, ahead, ahead', ⟨_, _, _, rfl, ?_⟩, agree.2.2 {} {} rfl rfl⟩
  decide +kernel

end Encoding

end RealMode
