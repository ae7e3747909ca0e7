/-
**A stored configuration means what its known keys say.** The keys of an object may stand in any
order and among others, whatever those hold; the two known keys may each stand once, with the name
of a policy and with a truth value, and a key that is missing has its default. This holds of a text
of a configuration and of the configuration inside a text of a machine.

* `Stored.tells_iff`, `Stored.name?_iff`: how a field with a default and a name are read.
* `Config.ofValue?_iff`: a configuration is read exactly as its keys tell.
* `Config.toldBy_congr`: neither the order of keys nor other keys matter.
* `Machine.ofValue?_of_holds`: how a configuration is read inside a machine.
* `settings_told`: all of this, for texts.
-/

import RealMode.Proofs.Json.Refusal
import RealMode.Stored

namespace RealMode

open Json

/-! ### Keys -/

/-- The members of an object. -/
abbrev Json.Members := List (Option String × Value)

variable {members members' : Members}

/-- The values under a key, in their order. -/
def Json.valuesAt (key : String) (members : Members) : List Value :=
  (members.filter fun member => member.1 == some key).map Prod.snd

/-- No key has half of a surrogate pair alone. -/
def Json.Readable (members : Members) : Prop := ∀ member ∈ members, member.1.isSome

/-- The key stands once, with a value that means `a`, or it is missing and `a` is the default. -/
def Json.Tells {α : Type} (members : Members) (key : String) (otherwise : α)
    (means : Value → α → Prop) (a : α) : Prop :=
  valuesAt key members = [] ∧ a = otherwise ∨ ∃ v, valuesAt key members = [v] ∧ means v a

namespace Stored

theorem member?_eq (members : Members) (key : String) :
    member? members key =
      match valuesAt key members with
      | [] => some none
      | [v] => some (some v)
      | _ => none := by
  unfold member? valuesAt
  generalize members.filter (fun member => member.1 == some key) = found
  rcases found with _ | ⟨_, _ | _⟩ <;> rfl

/-- **How a field with a default is read.** -/
theorem tells_iff {α : Type} [Stored α] {key : String} {otherwise a : α} :
    (member? members key).bind (optional otherwise) = some a ↔
      Tells members key otherwise (fun v a => ofValue? v = some a) a := by
  rw [member?_eq, Tells]
  rcases valuesAt key members with _ | ⟨v, _ | ⟨w, rest⟩⟩
  · simp [optional, eq_comm]
  · simp [optional]
  · simp

end Stored

/-- What a field says does not depend on the order of the values under its key. -/
theorem Json.tells_perm {α : Type} {key : String} {otherwise a : α} {means : Value → α → Prop}
    (perm : (valuesAt key members).Perm (valuesAt key members')) :
    Tells members key otherwise means a ↔ Tells members' key otherwise means a := by
  have none : valuesAt key members = [] ↔ valuesAt key members' = [] :=
    ⟨fun none => (none ▸ perm).symm.eq_nil, fun none => (none ▸ perm).eq_nil⟩
  have one : ∀ v, valuesAt key members = [v] ↔ valuesAt key members' = [v] := fun v =>
    ⟨fun one => (one ▸ perm).symm.eq_singleton, fun one => (one ▸ perm).eq_singleton⟩
  simp only [Tells, none, one]

/-- When a field can be read. -/
theorem Json.exists_tells {α : Type} {key : String} {otherwise : α} {means : Value → α → Prop} :
    (∃ a, Tells members key otherwise means a) ↔
      (valuesAt key members).length ≤ 1 ∧ ∀ v ∈ valuesAt key members, ∃ a, means v a := by
  unfold Tells
  rcases valuesAt key members with _ | ⟨v, _ | ⟨w, rest⟩⟩ <;> simp

/-! ### Names -/

/-- The value is the name: a string, or the one key of an object, with null. -/
inductive Json.IsName (name : String) : Value → Prop
  | string : IsName name (.text name)
  | object : IsName name (.object [(some name, .null)])

namespace Stored

section

variable {α : Type} [DecidableEq α] {all : List α} {name : α → String}
  (different : all.Pairwise fun a b => name a ≠ name b) {a : α} (member : a ∈ all)

include different member

theorem named?_iff {key : String} : named? all name key = some a ↔ key = name a := by
  constructor
  · intro found
    have same := List.find?_some found
    exact (beq_iff_eq.mp same).symm
  · rintro rfl
    exact named?_name different member

/-- **How a name is read.** -/
theorem name?_iff {v : Value} : name? all name v = some a ↔ IsName (name a) v := by
  constructor
  · intro read
    unfold name? at read
    split at read
    · obtain rfl := (named?_iff different member).mp read
      exact .string
    · obtain rfl := (named?_iff different member).mp read
      exact .object
    · cases read
  · rintro (_ | _) <;> exact named?_name different member

end

end Stored

/-! ### Configurations -/

/-- The name of a policy. -/
def ErrorPolicy.name : ErrorPolicy → String
  | abort => "abort"
  | skip => "skip"

/-- What the keys may hold: each at most once, the name of a policy and a truth value. -/
structure Config.Tellable (members : Members) : Prop where
  onErrorOnce : (valuesAt "on_error" members).length ≤ 1
  named : ∀ v ∈ valuesAt "on_error" members, ∃ policy : ErrorPolicy, IsName policy.name v
  executeOnce : (valuesAt "execute" members).length ≤ 1
  boolean : ∀ v ∈ valuesAt "execute" members, ∃ b, v = .bool b

/-- The configuration says what the keys hold; a missing key means abort or true. -/
structure Config.ToldBy (c : Config) (members : Members) : Prop where
  onError : Tells members "on_error" .abort (fun v policy => IsName policy.name v) c.onError
  execute : Tells members "execute" true (fun v b => v = .bool b) c.execute

theorem ErrorPolicy.ofValue?_iff {v : Value} {policy : ErrorPolicy} :
    Stored.ofValue? v = some policy ↔ IsName policy.name v := by
  have different : [abort, skip].Pairwise fun a b => name a ≠ name b := by decide
  exact Stored.name?_iff different (by cases policy <;> decide)

theorem Stored.ofValue?_bool {v : Value} {b : Bool} :
    ofValue? v = some b ↔ v = .bool b := by
  cases v <;> simp [ofValue?]

namespace Config

theorem exists_toldBy : (∃ c : Config, c.ToldBy members) ↔ Tellable members := by
  constructor
  · rintro ⟨c, onError, execute⟩
    obtain ⟨once, named⟩ := exists_tells.mp ⟨_, onError⟩
    obtain ⟨once', boolean⟩ := exists_tells.mp ⟨_, execute⟩
    exact ⟨once, named, once', boolean⟩
  · rintro ⟨once, named, once', boolean⟩
    obtain ⟨onError, told⟩ := exists_tells.mpr ⟨once, named⟩
    obtain ⟨execute, told'⟩ := exists_tells.mpr ⟨once', boolean⟩
    exact ⟨⟨onError, execute⟩, told, told'⟩

/-- **How a configuration is read.** -/
theorem ofValue?_iff (readable : Readable members) {c : Config} :
    Stored.ofValue? (.object members) = some c ↔ c.ToldBy members := by
  -- Both keys are looked up before a value is read, but each can only fail.
  have parts : Stored.ofValue? (.object members) = some c ↔
      (Stored.member? members "on_error").bind (Stored.optional .abort) = some c.onError ∧
      (Stored.member? members "execute").bind (Stored.optional true) = some c.execute := by
    obtain ⟨onError, execute⟩ := c
    cases first : Stored.member? members "on_error" <;>
      cases second : Stored.member? members "execute" <;>
        simp [Stored.ofValue?, Stored.fields?, List.all_eq_true.mpr readable, first, second,
          Option.bind_eq_some_iff]
  rw [parts, Stored.tells_iff, Stored.tells_iff]
  simp only [ErrorPolicy.ofValue?_iff, Stored.ofValue?_bool]
  exact ⟨fun told => ⟨told.1, told.2⟩, fun told => ⟨told.onError, told.execute⟩⟩

/-- A member that stands under a key of a configuration. -/
def isSetting (member : Option String × Value) : Bool :=
  member.1 == some "on_error" || member.1 == some "execute"

/-- The same settings in some order, among any other members. -/
def SameSettings (members members' : Members) : Prop :=
  (members.filter isSetting).Perm (members'.filter isSetting)

theorem valuesAt_perm (same : SameSettings members members') {key : String}
    (known : key = "on_error" ∨ key = "execute") :
    (valuesAt key members).Perm (valuesAt key members') := by
  have within : ∀ members : Members,
      (members.filter isSetting).filter (fun member => member.1 == some key) =
        members.filter fun member => member.1 == some key := by
    intro members
    rw [List.filter_filter]
    refine List.filter_congr fun member _ => ?_
    rcases known with rfl | rfl <;> simp [isSetting] <;> grind
  unfold valuesAt
  rw [← within members, ← within members']
  exact (same.filter _).map _

/-- **Neither the order of keys nor other keys matter.** -/
theorem toldBy_congr (same : SameSettings members members') (c : Config) :
    c.ToldBy members ↔ c.ToldBy members' := by
  have onError := valuesAt_perm same (.inl rfl)
  have execute := valuesAt_perm same (.inr rfl)
  exact ⟨fun told => ⟨(tells_perm onError).mp told.onError, (tells_perm execute).mp told.execute⟩,
    fun told => ⟨(tells_perm onError).mpr told.onError, (tells_perm execute).mpr told.execute⟩⟩

/-- **No known key may hold null.** -/
theorem not_tellable_of_null {key : String} (known : key = "on_error" ∨ key = "execute")
    (null : (some key, .null) ∈ members) : ¬ Tellable members := by
  have value : .null ∈ valuesAt key members :=
    List.mem_map.mpr ⟨_, List.mem_filter.mpr ⟨null, beq_self_eq_true _⟩, rfl⟩
  rintro ⟨_, named, _, boolean⟩
  rcases known with rfl | rfl
  · obtain ⟨policy, name⟩ := named _ value
    cases name
  · obtain ⟨b, same⟩ := boolean _ value
    cases same

/-- What reading an object with some settings gives. -/
structure Told (settings : Members) (result : Option Config) : Prop where
  /-- A configuration is read exactly if the known keys hold what they may hold. -/
  isSome_iff : result.isSome ↔ Tellable settings
  /-- It says what they hold. -/
  told_iff : ∀ c, result = some c ↔ c.ToldBy settings
  /-- None of them holds null. -/
  noNull : ∀ key, key = "on_error" ∨ key = "execute" → (some key, .null) ∈ settings → result = none

theorem told_ofValue? (readable : Readable members) :
    Told members (Stored.ofValue? (.object members)) := by
  have success : (Stored.ofValue? (α := Config) (.object members)).isSome ↔ Tellable members := by
    rw [Option.isSome_iff_exists, ← exists_toldBy]
    exact exists_congr fun c => ofValue?_iff readable
  refine ⟨success, fun c => ofValue?_iff readable, fun key known null => ?_⟩
  rw [← Option.not_isSome_iff_eq_none, success]
  exact not_tellable_of_null known null

theorem ofValue?_congr (readable : Readable members) (readable' : Readable members')
    (same : SameSettings members members') :
    Stored.ofValue? (α := Config) (.object members') = Stored.ofValue? (.object members) := by
  ext c
  rw [ofValue?_iff readable, ofValue?_iff readable', toldBy_congr same]

end Config

/-! ### Machines -/

/-- The value of a machine with these registers and this configuration: they stand once each under
their keys, in an object that may have others, or in this order in an array. -/
inductive Machine.Holds : Value → Value → Value → Prop
  | keyed {members : Members} {registers config : Value} (readable : Readable members)
    (registersOnce : valuesAt "regs" members = [registers])
    (configOnce : valuesAt "cfg" members = [config]) : Holds (.object members) registers config
  | listed {registers config : Value} : Holds (.array [registers, config]) registers config

/-- **How a machine is read.** -/
theorem Machine.ofValue?_of_holds {v registers config : Value} (holds : Holds v registers config)
    {f : RegisterFile} (read : Stored.ofValue? registers = some f) :
    Stored.ofValue? v = (Stored.ofValue? config).map (Machine.mk f) := by
  have fields : Stored.fields? ["regs", "cfg"] v = some [some registers, some config] := by
    cases holds with
    | keyed readable registersOnce configOnce =>
      simp [Stored.fields?, List.all_eq_true.mpr readable, Stored.member?_eq, registersOnce,
        configOnce]
    | listed => rfl
  have parts : Stored.ofValue? v = (Stored.required (some registers)).bind fun registers =>
      (Stored.required (some config)).bind fun config => some (Machine.mk registers config) := by
    simp [Stored.ofValue?, fields]
  have readRegisters : Stored.required (some registers) = some f := read
  rw [parts, readRegisters, Option.map_eq_bind]
  rfl

namespace Stored

theorem load?_of_isText {α : Type} [Stored α] {v : Value} {text : String}
    (written : v.IsText text) : load? α text = ofValue? v := by
  rw [load?, Value.ofText?_of_isText written, Option.bind_some]

theorem load?_of_unread {α : Type} [Stored α] {text : String} (unread : Value.ofText? text = none) :
    load? α text = none := by
  rw [load?, unread, Option.bind_none]

end Stored

theorem Json.object_ne_number (members : Members) (value : Option Nat) :
    Value.object members ≠ .number value := nofun

namespace Config

variable {text text' : String} (written : (Value.object members).IsText text)

include written

theorem told_load? (readable : Readable members) : Told members (Stored.load? Config text) := by
  rw [Stored.load?_of_isText written]
  exact told_ofValue? readable

theorem load?_congr (readable : Readable members) (written' : (Value.object members').IsText text')
    (readable' : Readable members') (same : SameSettings members members') :
    Stored.load? Config text' = Stored.load? Config text := by
  rw [Stored.load?_of_isText written, Stored.load?_of_isText written']
  exact ofValue?_congr readable readable' same

theorem load?_behind {rest : String} (more : ∃ c ∈ rest.toList, ¬ isBlank c) :
    Stored.load? Config (text ++ rest) = none :=
  Stored.load?_of_unread (Value.ofText?_behind (object_ne_number members) written more)

end Config

namespace Machine

section

variable {v registers : Value} {settings : Members} {f : RegisterFile} {text : String}
  (written : v.IsText text) (holds : Holds v registers (.object settings))

include written holds

theorem load?_eq (read : Stored.ofValue? registers = some f) :
    Stored.load? Machine text = (Stored.ofValue? (.object settings)).map (Machine.mk f) := by
  rw [Stored.load?_of_isText written, ofValue?_of_holds holds read]

theorem told_load? (read : Stored.ofValue? registers = some f) (readable : Readable settings) :
    Config.Told settings ((Stored.load? Machine text).map Machine.config) := by
  rw [load?_eq written holds read, Option.map_map]
  have kept : Machine.config ∘ Machine.mk f = id := rfl
  rw [kept, Option.map_id_apply]
  exact Config.told_ofValue? readable

theorem registers_load? (read : Stored.ofValue? registers = some f) {m : Machine}
    (loaded : Stored.load? Machine text = some m) : m.registers = f := by
  rw [load?_eq written holds read] at loaded
  obtain ⟨c, _, rfl⟩ := Option.map_eq_some_iff.mp loaded
  rfl

theorem load?_behind {rest : String} (more : ∃ c ∈ rest.toList, ¬ isBlank c) :
    Stored.load? Machine (text ++ rest) = none := by
  refine Stored.load?_of_unread (Value.ofText?_behind (fun value => ?_) written more)
  cases holds <;> exact nofun

end

theorem load?_member {before settings : Members} {text rest : List Char} {c : Char}
    (layout : Layout (Value.openMembers (before ++ [(some "cfg", .object settings)])) text)
    (solid : ¬ isBlank c) (noComma : c ≠ ',') (noEnd : c ≠ '}') :
    Stored.load? Machine (String.ofList (text ++ c :: rest)) = none :=
  Stored.load?_of_unread
    (Value.ofText?_member (object_ne_number settings) layout solid noComma noEnd rest)

theorem load?_item {registers : Value} {settings : Members} {text rest : List Char} {c : Char}
    (layout : Layout (Value.openItems [registers, .object settings]) text) (solid : ¬ isBlank c)
    (noComma : c ≠ ',') (noEnd : c ≠ ']') :
    Stored.load? Machine (String.ofList (text ++ c :: rest)) = none :=
  Stored.load?_of_unread
    (@Value.ofText?_item [registers] _ (object_ne_number settings) _ layout _ solid noComma noEnd _)

end Machine

/-- **A stored configuration means what its known keys say**, wherever they stand: with other keys,
in any order, with any blanks, alone or inside a machine. A configuration is read exactly if each
known key stands at most once with a value of its own; it has the values given and the default of
each key that is missing. Nothing but blanks may follow it, and inside a machine nothing but a comma
or the end of the machine. -/
theorem settings_told :
    (∀ (settings : Members) (text : String), (Value.object settings).IsText text →
      Readable settings →
      Config.Told settings (Stored.load? Config text) ∧
      (∀ (settings' : Members) (text' : String), (Value.object settings').IsText text' →
        Readable settings' → Config.SameSettings settings settings' →
        Stored.load? Config text' = Stored.load? Config text) ∧
      ∀ rest : String, (∃ c ∈ rest.toList, ¬ isBlank c) →
        Stored.load? Config (text ++ rest) = none) ∧
    (∀ (v registers : Value) (settings : Members) (f : RegisterFile) (text : String),
      v.IsText text → Machine.Holds v registers (.object settings) → Readable settings →
      Stored.ofValue? registers = some f →
      Config.Told settings ((Stored.load? Machine text).map Machine.config) ∧
      (∀ m, Stored.load? Machine text = some m → m.registers = f) ∧
      (∀ (v' registers' : Value) (settings' : Members) (text' : String), v'.IsText text' →
        Machine.Holds v' registers' (.object settings') → Readable settings' →
        Stored.ofValue? registers' = some f → Config.SameSettings settings settings' →
        Stored.load? Machine text' = Stored.load? Machine text) ∧
      ∀ rest : String, (∃ c ∈ rest.toList, ¬ isBlank c) →
        Stored.load? Machine (text ++ rest) = none) ∧
    (∀ (before settings : Members) (text : List Char) (c : Char) (rest : List Char),
      Layout (Value.openMembers (before ++ [(some "cfg", .object settings)])) text →
      ¬ isBlank c → c ≠ ',' → c ≠ '}' →
      Stored.load? Machine (String.ofList (text ++ c :: rest)) = none) ∧
    (∀ (registers : Value) (settings : Members) (text : List Char) (c : Char) (rest : List Char),
      Layout (Value.openItems [registers, .object settings]) text →
      ¬ isBlank c → c ≠ ',' → c ≠ ']' →
      Stored.load? Machine (String.ofList (text ++ c :: rest)) = none) := by
  refine ⟨fun settings text written readable => ⟨?_, ?_, ?_⟩,
    fun v registers settings f text written holds readable read => ⟨?_, ?_, ?_, ?_⟩, ?_, ?_⟩
  · exact Config.told_load? written readable
  · exact fun settings' text' written' readable' same =>
      Config.load?_congr written readable written' readable' same
  · exact fun rest more => Config.load?_behind written more
  · exact Machine.told_load? written holds read readable
  · exact fun m loaded => Machine.registers_load? written holds read loaded
  · intro v' registers' settings' text' written' holds' readable' read' same
    rw [Machine.load?_eq written holds read, Machine.load?_eq written' holds' read',
      Config.ofValue?_congr readable readable' same]
  · exact fun rest more => Machine.load?_behind written holds more
  · exact fun before settings text c rest layout solid noComma noEnd =>
      Machine.load?_member layout solid noComma noEnd
  · exact fun registers settings text c rest layout solid noComma noEnd =>
      Machine.load?_item layout solid noComma noEnd

/-- Two settings among other members. -/
def amongOthers : Members :=
  [(some "execute", .bool false), (some "a", .array [.number none, .object [(some "b", .null)]]),
    (some "on_error", .object [(some "skip", .null)]), (some "a", .string none)]

/-- A text of them. -/
def amongOthersText : String :=
  "\x7b\"execute\":false, \"a\": [1e5, \x7b\"b\": null\x7d],\n" ++
    "\"on_\\u0065rror\" :\x7b\"skip\": null\x7d, \"a\": \"\\ud800\"\x7d"

/-- The same settings alone, in another order. -/
def settingsAlone : Members :=
  [(some "on_error", .object [(some "skip", .null)]), (some "execute", .bool false)]

/-- A machine whose settings stand before its registers. -/
def machineAmongOthers : Members :=
  [(some "cfg", .object settingsAlone), (some "on_error", .null),
    (some "regs", Stored.toValue RegisterFile.zero)]

/-- The text of a machine up to the end of its settings. -/
def machineStart : String := "\x7b\"cfg\" : \x7b\"execute\": 0\x7d"

/-- The text of an array with settings, up to their end. -/
def listStart : String := "[null, \x7b\"execute\": 0\x7d"

theorem settings_told_among_others :
    let told : Config := { onError := .skip, execute := false }
    let machine := (Value.object machineAmongOthers).compact
    let list := (Value.array [Stored.toValue RegisterFile.zero, .object settingsAlone]).compact
    told.ToldBy amongOthers ∧ Config.SameSettings amongOthers settingsAlone ∧
      Stored.load? Config amongOthersText = some told ∧
      Stored.load? Config (Value.object settingsAlone).compact = some told ∧
      Stored.load? Config (amongOthersText ++ "\n,") = none ∧
      Stored.load? Machine machine = some ⟨.zero, told⟩ ∧
      Stored.load? Machine list = some ⟨.zero, told⟩ ∧
      Stored.load? Machine (machine ++ " ]") = none ∧
      Stored.load? Machine (String.ofList (machineStart.toList ++ ':' :: ['0'])) = none ∧
      Stored.load? Machine (String.ofList (listStart.toList ++ '0' :: [']'])) = none := by
  intro told machine list
  have others : told.ToldBy amongOthers := ⟨.inr ⟨_, rfl, .object⟩, .inr ⟨_, rfl, rfl⟩⟩
  have same : Config.SameSettings amongOthers settingsAlone := .swap _ _ _
  have alone : told.ToldBy settingsAlone := (Config.toldBy_congr same told).mp others
  have readable : Readable amongOthers ∧ Readable settingsAlone ∧ Readable machineAmongOthers := by
    unfold Readable
    decide
  obtain ⟨settings, machines, members, items⟩ := settings_told
  obtain ⟨loaded, again, behind⟩ := settings amongOthers amongOthersText (by decide +kernel)
    readable.1
  have found := (loaded.told_iff told).mpr others
  obtain ⟨nested, registers, again', behind'⟩ := machines (.object machineAmongOthers) _ _ .zero
    machine (Value.ofText?_iff.mp (Value.ofText?_compact rfl)) (.keyed readable.2.2 rfl rfl)
    readable.2.1 (Stored.ofValue?_toValue _)
  obtain ⟨m, inside, config⟩ := Option.map_eq_some_iff.mp ((nested.told_iff told).mpr alone)
  obtain rfl : m = ⟨.zero, told⟩ := Machine.ext (registers m inside) config
  refine ⟨others, same, found, ?_, behind _ ⟨',', by decide, by decide⟩, inside, ?_,
    behind' _ ⟨']', by decide, by decide⟩, ?_, ?_⟩
  · rw [again settingsAlone _ (Value.ofText?_iff.mp (Value.ofText?_compact rfl)) readable.2.1 same]
    exact found
  · rw [again' _ _ settingsAlone _ (Value.ofText?_iff.mp (Value.ofText?_compact rfl)) .listed
      readable.2.1 (Stored.ofValue?_toValue _) (.refl _)]
    exact inside
  · refine members [] [(some "execute", .number (some 0))] _ ':' _ ?_ (by decide) (by decide)
      (by decide)
    exact (Token.ofText?_iff (Value.apart_openMembers _)).mp (by decide +kernel)
  · refine items .null [(some "execute", .number (some 0))] _ '0' _ ?_ (by decide) (by decide)
      (by decide)
    exact (Token.ofText?_iff (Value.apart_openItems _)).mp (by decide +kernel)

end RealMode
