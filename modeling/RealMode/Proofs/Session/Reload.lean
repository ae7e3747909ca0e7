/-
**Saved state reloads without loss.** A machine is saved as a compact JSON text, which is read back
as the same machine; so is everything that a machine or a format is made of. Whatever happens in a
session after a machine was saved, loading the text brings that machine back, and it runs as it
would have run at the time.

* `save_machine`: the text of a machine.
* `named_all`: the texts of names.
* `run_reloaded`: a run after loading is the run at the time of saving.
* `saved_reloads`: all of this.
-/

import RealMode.Proofs.Json.Compact
import RealMode.Session

namespace RealMode

open Json

/-! ### Saved texts -/

/-- The saved text of a register file: the two bytes of each word, the low one first. -/
def RegisterFile.saved (f : RegisterFile) : String :=
  let word := fun s : Storage =>
    arrayText [Numeral.decimal s.low.toNat, Numeral.decimal s.high.toNat]
  objectText [("slots", arrayText (f.slots.toList.map word))]

/-- The saved text of a configuration. -/
def Config.saved (c : Config) : String :=
  objectText [
    ("on_error", quoted (match c.onError with | .abort => "abort" | .skip => "skip")),
    ("execute", if c.execute then "true" else "false")]

/-- The saved text of a machine. -/
def Machine.saved (m : Machine) : String :=
  objectText [("regs", m.registers.saved), ("cfg", m.config.saved)]

/-- The saved text of a bit field. -/
def Field.saved (f : Field) : String :=
  objectText [("kind", Stored.save f.kind), ("width", Numeral.decimal f.width.toNat),
    ("value", Numeral.decimal f.value.toNat)]

namespace Stored

theorem save_byte (b : UInt8) : save b = Numeral.decimal b.toNat := Value.compact_nat b.toNat

theorem save_storage (s : Storage) :
    save s = arrayText [Numeral.decimal s.low.toNat, Numeral.decimal s.high.toNat] := by
  rw [← save_byte, ← save_byte]
  exact Value.compact_array _

theorem save_registers (f : RegisterFile) : save f = f.saved := by
  have words : (Value.array (f.slots.toList.map toValue)).compact =
      arrayText (f.slots.toList.map fun s =>
        arrayText [Numeral.decimal s.low.toNat, Numeral.decimal s.high.toNat]) := by
    rw [Value.compact_array, List.map_map]
    exact congrArg arrayText (List.map_congr_left fun s _ => save_storage s)
  refine (Value.compact_record _ (by simp; decide)).trans ?_
  rw [List.map_singleton, words]
  rfl

theorem save_policy (policy : ErrorPolicy) :
    save policy = quoted (match policy with | .abort => "abort" | .skip => "skip") := by
  cases policy <;> exact Value.compact_text (by decide)

theorem save_config (c : Config) : save c = c.saved := by
  refine (Value.compact_record _ (by simp; decide)).trans ?_
  show objectText [("on_error", save c.onError), ("execute", (Value.bool c.execute).compact)] = _
  rw [save_policy, Value.compact_bool]
  rfl

/-- **The text of a machine.** -/
theorem save_machine (m : Machine) : save m = m.saved := by
  refine (Value.compact_record _ (by simp; decide)).trans ?_
  show objectText [("regs", save m.registers), ("cfg", save m.config)] = _
  rw [save_registers, save_config]
  rfl

theorem save_field (f : Field) : save f = f.saved := by
  refine (Value.compact_record _ (by simp; decide)).trans ?_
  show objectText [("kind", save f.kind), ("width", save f.width), ("value", save f.value)] = _
  rw [save_byte, save_byte]
  rfl

/-! ### Names -/

/-- Every value is saved as a name between quotes, and read back from it. -/
def Named (α : Type) [Stored α] : Prop :=
  ∀ a : α, ∃ name, save a = quoted name ∧ load? α (quoted name) = some a

theorem named_byName {α : Type} [DecidableEq α] {all : List α} {name : α → String}
    (complete : ∀ a, a ∈ all) (different : all.Pairwise fun a b => name a ≠ name b)
    (plain : ∀ a ∈ all, Plain (name a)) : @Named α (byName all name complete different) := by
  intro a
  let _ := byName all name complete different
  have saved : save a = quoted (name a) := Value.compact_text (plain a (complete a))
  exact ⟨name a, saved, by rw [← saved, load?_save]⟩

/-- **The names of a machine and of a format** are saved as they are. -/
theorem named_all :
    Named ErrorPolicy ∧ Named Register ∧ Named RegisterPart ∧ Named Mnemonic ∧ Named FieldKind ∧
      Named AddressBase ∧ Named SegmentRegister := by
  refine ⟨?_, ?_, ?_, ?_, ?_, ?_, ?_⟩ <;>
    exact named_byName (fun a => by cases a <;> decide) (by decide) (by decide)

end Stored

/-! ### Loading in a session -/

namespace Session

/-- **Loading a saved machine brings it back**, whatever the session came to in between. -/
theorem machine_reloaded (m : Machine) (s : Session) :
    (s.after (.load (Stored.save m))).machine = m := by
  rw [after, Stored.load?_save, Option.getD_some]

/-- **A run after loading is the run at the time of saving**, from any reader. -/
theorem run_reloaded (s : Session) (operations : List Operation) (r : BitReader) :
    ((s.afterAll operations).after (.load (Stored.save s.machine))).machine.run r =
      s.machine.run r := by
  rw [machine_reloaded]

end Session

/-- **Saved state reloads without loss.** The text of a machine is the compact JSON of its registers
and its configuration, and gives the machine back; so do the texts of all that can be stored. In a
session, whatever is done after saving, a loaded machine runs as it would have run at the time. -/
theorem saved_reloads :
    (∀ m : Machine, Stored.save m = m.saved ∧ Stored.load? Machine m.saved = some m) ∧
    (∀ f : RegisterFile, Stored.save f = f.saved ∧ Stored.load? RegisterFile f.saved = some f) ∧
    (∀ c : Config, Stored.save c = c.saved ∧ Stored.load? Config c.saved = some c) ∧
    (∀ f : Field, Stored.save f = f.saved ∧ Stored.load? Field f.saved = some f) ∧
    (Stored.Named ErrorPolicy ∧ Stored.Named Register ∧ Stored.Named RegisterPart ∧
      Stored.Named Mnemonic ∧ Stored.Named FieldKind ∧ Stored.Named AddressBase ∧
      Stored.Named SegmentRegister) ∧
    ∀ (s : Session) (operations : List Operation) (r : BitReader),
      let loaded := (s.afterAll operations).after (.load (Stored.save s.machine))
      loaded.machine = s.machine ∧ loaded.machine.run r = s.machine.run r := by
  refine ⟨fun m => ⟨Stored.save_machine m, ?_⟩, fun f => ⟨Stored.save_registers f, ?_⟩,
    fun c => ⟨Stored.save_config c, ?_⟩, fun f => ⟨Stored.save_field f, ?_⟩, Stored.named_all,
    fun s operations r => ⟨?_, ?_⟩⟩
  · rw [← Stored.save_machine, Stored.load?_save]
  · rw [← Stored.save_registers, Stored.load?_save]
  · rw [← Stored.save_config, Stored.load?_save]
  · rw [← Stored.save_field, Stored.load?_save]
  · exact Session.machine_reloaded _ _
  · exact Session.run_reloaded s operations r

end RealMode
