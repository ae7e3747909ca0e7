/-
**Readings of whole bytes.** Such a reading gives a value, refuses, or asks for one more byte and
goes on as that byte says. It knows nothing of bits, of positions or of how long a stream is, so
what it comes to depends on the bytes ahead alone.

* `run_bind`: a reading followed by another one.
* `run_measured`: a reading told how many bytes it took.
* `spells_of_run`: a reading takes the bytes it uses off the front, leaves the others and looks at
  none of them.
* `Takes`: a reading that takes a fixed number of bytes; it is closed under sequencing.
-/

import RealMode.BitReader

namespace RealMode

/-- Why a reading refuses bytes that are there. -/
inductive Refusal
  | opcode (opcode : UInt8)
  | operation (opcode : UInt8) (operation : String)
  | addressing (fault : AddressingFault)
  deriving DecidableEq

/-- The decode error of a refusal; none of them speaks of where the stream ends. -/
def Refusal.cause : Refusal → DecodeError
  | opcode b => .unknownOpcode b
  | operation b name => .unimplemented b name
  | addressing fault => .addressing fault

/-- A reading of whole bytes. -/
inductive ByteReading (α : Type)
  | done (value : α)
  | refuse (refusal : Refusal)
  | next (rest : UInt8 → ByteReading α)

namespace ByteReading

variable {α β : Type}

/-- What a reading comes to: a value and the bytes it left, a refusal, or a want of bytes. -/
inductive Outcome (α : Type)
  | taken (value : α) (rest : List UInt8)
  | refused (refusal : Refusal)
  | ended

def run : ByteReading α → List UInt8 → Outcome α
  | done value, bytes => .taken value bytes
  | refuse refusal, _ => .refused refusal
  | next _, [] => .ended
  | next rest, byte :: bytes => (rest byte).run bytes

def bind : ByteReading α → (α → ByteReading β) → ByteReading β
  | done value, after => after value
  | refuse refusal, _ => .refuse refusal
  | next rest, after => .next fun byte => (rest byte).bind after

/-- The reading whose value is told how many bytes were taken for it. -/
def measured : ByteReading α → (Nat → α → β) → ByteReading β
  | done value, tell => .done (tell 0 value)
  | refuse refusal, _ => .refuse refusal
  | next rest, tell => .next fun byte => (rest byte).measured fun count => tell (count + 1)

/-- The reading on a reader of bits, eight bits at a time. -/
def perform : ByteReading α → Reading α
  | done value => pure value
  | refuse refusal => throw refusal.cause
  | next rest => do
    let byte ← BitReader.readByte
    (rest byte).perform

theorem bind_done (reading : ByteReading α) : reading.bind .done = reading := by
  induction reading with
  | done value => rfl
  | refuse refusal => rfl
  | next further ih => exact congrArg next (funext ih)

theorem bind_ite (condition : Prop) [Decidable condition] (yes no : ByteReading α)
    (after : α → ByteReading β) :
    (if condition then yes else no).bind after =
      if condition then yes.bind after else no.bind after := by
  split <;> rfl

theorem bind_assoc {γ : Type} (reading : ByteReading α) (after : α → ByteReading β)
    (last : β → ByteReading γ) :
    (reading.bind after).bind last = reading.bind fun value => (after value).bind last := by
  induction reading with
  | done value => rfl
  | refuse refusal => rfl
  | next further ih => exact congrArg next (funext ih)

theorem run_bind (reading : ByteReading α) (after : α → ByteReading β) (bytes : List UInt8) :
    (reading.bind after).run bytes =
      match reading.run bytes with
      | .taken value rest => (after value).run rest
      | .refused refusal => .refused refusal
      | .ended => .ended := by
  induction reading generalizing bytes with
  | done value => rfl
  | refuse refusal => rfl
  | next rest ih =>
    cases bytes with
    | nil => rfl
    | cons byte bytes => exact ih byte bytes

theorem of_run_bind {reading : ByteReading α} {after : α → ByteReading β}
    {bytes rest : List UInt8} {value : β}
    (result : (reading.bind after).run bytes = .taken value rest) :
    ∃ a middle, reading.run bytes = .taken a middle ∧ (after a).run middle = .taken value rest := by
  rw [run_bind] at result
  split at result
  · rename_i a middle first
    exact ⟨a, middle, first, result⟩
  · cases result
  · cases result

/-- The reading takes the bytes `used` for `value`, whatever stands after them, and as long as one
of them is missing it wants more. -/
structure Spells (reading : ByteReading α) (used : List UInt8) (value : α) : Prop where
  taken : ∀ rest, reading.run (used ++ rest) = .taken value rest
  wanted : ∀ k < used.length, reading.run (used.take k) = .ended

/-- **What a reading takes is the front of the bytes**, and it looks at no byte after them. -/
theorem spells_of_run {reading : ByteReading α} {bytes rest : List UInt8} {value : α}
    (result : reading.run bytes = .taken value rest) :
    ∃ used, bytes = used ++ rest ∧ reading.Spells used value := by
  induction reading generalizing bytes with
  | done value' =>
    cases result
    refine ⟨[], rfl, fun rest => rfl, fun k short => ?_⟩
    exact absurd short (Nat.not_lt_zero k)
  | refuse refusal => cases result
  | next further ih =>
    cases bytes with
    | nil => cases result
    | cons byte bytes =>
      obtain ⟨used, rfl, spells⟩ := ih byte result
      refine ⟨byte :: used, rfl, spells.taken, fun k short => ?_⟩
      cases k with
      | zero => rfl
      | succ k => exact spells.wanted k (Nat.lt_of_succ_lt_succ short)

theorem split_of_run {reading : ByteReading α} {bytes rest : List UInt8} {value : α}
    (result : reading.run bytes = .taken value rest) : ∃ used, bytes = used ++ rest := by
  obtain ⟨used, split, _⟩ := spells_of_run result
  exact ⟨used, split⟩

/-- Bytes that a reading takes do not go on as others that it takes. -/
theorem Spells.eq_of_prefix {reading : ByteReading α} {used used' : List UInt8} {value value' : α}
    (spells : reading.Spells used value) (spells' : reading.Spells used' value')
    (front : used <+: used') : used = used' := by
  obtain ⟨rest, rfl⟩ := front
  have whole := spells'.taken []
  rw [List.append_nil, spells.taken rest] at whole
  obtain ⟨_, rfl⟩ := Outcome.taken.inj whole
  exact (List.append_nil used).symm

/-- A refusal stands, whatever follows the bytes that led to it. -/
theorem run_append_of_refused {reading : ByteReading α} {bytes : List UInt8} {refusal : Refusal}
    (result : reading.run bytes = .refused refusal) (more : List UInt8) :
    reading.run (bytes ++ more) = .refused refusal := by
  induction reading generalizing bytes with
  | done value => cases result
  | refuse refusal' =>
    cases result
    rfl
  | next further ih =>
    cases bytes with
    | nil => cases result
    | cons byte bytes => exact ih byte result

theorem run_measured (reading : ByteReading α) (tell : Nat → α → β) (bytes : List UInt8) :
    (reading.measured tell).run bytes =
      match reading.run bytes with
      | .taken value rest => .taken (tell (bytes.length - rest.length) value) rest
      | .refused refusal => .refused refusal
      | .ended => .ended := by
  induction reading generalizing tell bytes with
  | done value => simp [measured, run]
  | refuse refusal => rfl
  | next further ih =>
    cases bytes with
    | nil => rfl
    | cons byte bytes =>
      show ((further byte).measured fun count => tell (count + 1)).run bytes = _
      rw [ih, run]
      cases result : (further byte).run bytes with
      | refused refusal => rfl
      | ended => rfl
      | taken value rest =>
        obtain ⟨used, rfl⟩ := split_of_run result
        simp only [List.length_cons, List.length_append]
        rw [show used.length + rest.length + 1 - rest.length =
          used.length + rest.length - rest.length + 1 by omega]

/-! ### Readings of a known length -/

/-- The reading takes the next `count` bytes, if they are there, and makes `value` of them. -/
def Takes (reading : ByteReading α) (count : Nat) (value : List UInt8 → α) : Prop :=
  ∀ bytes, reading.run bytes =
    if count ≤ bytes.length then .taken (value (bytes.take count)) (bytes.drop count) else .ended

theorem takes_done (value : α) : Takes (.done value) 0 fun _ => value :=
  fun _ => (if_pos (Nat.zero_le _)).symm

theorem takes_one (value : UInt8 → α) :
    Takes (.next fun byte => .done (value byte)) 1 fun used => value (used.getD 0 0)
  | [] => rfl
  | byte :: bytes => by simp [run]

theorem takes_two (value : UInt8 → UInt8 → α) :
    Takes (.next fun low => .next fun high => .done (value low high)) 2
      fun used => value (used.getD 0 0) (used.getD 1 0)
  | [] => rfl
  | [_] => rfl
  | low :: high :: bytes => by simp [run]

theorem Takes.bind {reading : ByteReading α} {after : α → ByteReading β} {first second : Nat}
    {value : List UInt8 → α} {value' : α → List UInt8 → β} (takes : Takes reading first value)
    (rest : ∀ used, Takes (after (value used)) second (value' (value used))) :
    Takes (reading.bind after) (first + second)
      fun used => value' (value (used.take first)) (used.drop first) := by
  intro bytes
  rw [run_bind, takes bytes]
  by_cases enough : first ≤ bytes.length
  · rw [if_pos enough]
    dsimp only
    rw [rest (bytes.take first) (bytes.drop first), List.length_drop, List.drop_drop,
      List.take_take, Nat.min_eq_left (Nat.le_add_right first second), List.drop_take,
      Nat.add_sub_cancel_left]
    by_cases more : first + second ≤ bytes.length
    · rw [if_pos more, if_pos (by omega)]
    · rw [if_neg more, if_neg (by omega)]
  · rw [if_neg enough, if_neg (by omega)]

theorem Takes.map {reading : ByteReading α} {count : Nat} {value : List UInt8 → α}
    (takes : Takes reading count value) (f : α → β) :
    Takes (reading.bind fun a => .done (f a)) count fun used => f (value used) := by
  intro bytes
  rw [run_bind, takes bytes]
  by_cases enough : count ≤ bytes.length
  · rw [if_pos enough, if_pos enough]
    rfl
  · rw [if_neg enough, if_neg enough]

theorem Takes.run_cons {reading : ByteReading α} {count : Nat} {value : List UInt8 → α}
    (takes : Takes reading (count + 1) value) (byte : UInt8) (bytes : List UInt8) :
    reading.run (byte :: bytes) =
      if count ≤ bytes.length then .taken (value (byte :: bytes.take count)) (bytes.drop count)
      else .ended := by
  rw [takes (byte :: bytes)]
  simp only [List.length_cons, Nat.add_le_add_iff_right, List.take_succ_cons, List.drop_succ_cons]

end ByteReading

end RealMode
