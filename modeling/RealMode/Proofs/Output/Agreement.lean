/-
**Two commands and three formats tell of one run.** The simulating command lists the instructions
that the disassembling one lists, whether or not it executes them and wherever it writes the
listing, and both meet the same failures. The formats of the disassembling command agree line by
line: what a listing leaves out, the place and the bytes of an instruction, is the same in the other
two, and is what stands in the file.

* `gives_simulate`, `gives_disassemble`: what the commands give, to a file or in print.
* `listings_agree`: both commands give one listing of a file, and tell the same failures.
* `formats_agree`: the three formats tell the same instructions and the same failures.
* `outputs_agree`: all of this, for every file.
-/

import RealMode.Command.Directory
import RealMode.Proofs.Assembly.Listing
import RealMode.Proofs.Json.Pretty
import RealMode.Proofs.Output.Positions
import RealMode.Proofs.Run.Independence

namespace RealMode

open Command

/-! ### Lines -/

/-- The lines of a text. -/
structure HasLines (text : String) (lines : List String) : Prop where
  text : text = String.join (lines.map Listing.line)
  unbroken : ∀ line ∈ lines, Unbroken line

/-- **A text has its lines in one way.** -/
theorem HasLines.unique {text : String} {lines lines' : List String} (has : HasLines text lines)
    (has' : HasLines text lines') : lines = lines' := by
  have same := congrArg String.toList (has.text.symm.trans has'.text)
  have written : ∀ lines : List String, (String.join (lines.map Listing.line)).toList =
      (lines.map String.toList).flatMap fun line => line ++ ['\n'] := by
    intro lines
    simp [String.toList_join, List.flatMap_map, Listing.line]
  rw [written, written] at same
  have unbroken : ∀ {lines : List String}, (∀ line ∈ lines, Unbroken line) →
      ∀ line ∈ lines.map String.toList, '\n' ∉ line := by
    intro lines whole line member
    obtain ⟨text, listed, rfl⟩ := List.mem_map.mp member
    exact whole text listed
  have lists := lines_unique (unbroken has.unbroken) (unbroken has'.unbroken) same
  exact (List.map_inj_right fun _ _ => String.toList_inj.mp).mp lists

theorem hasLines_listing {instructions : List Instruction} (typed : AllTyped instructions) :
    HasLines (Listing.text instructions) (Listing.header :: instructions.map (·.text)) := by
  refine ⟨?_, fun line member => ?_⟩
  · rw [Listing.text, List.map_cons, String.join_cons, List.map_map]
    rfl
  · rcases List.mem_cons.mp member with rfl | member
    · decide
    · obtain ⟨i, listed, rfl⟩ := List.mem_map.mp member
      exact newline_not_mem_line (typed i listed)

/-- A line of assembly has a name in it. -/
theorem assemblyLine_ne_empty (operation : Mnemonic) (items : List Operand) :
    assemblyLine operation items ≠ "" := by
  have named : operation.name.toList ≠ [] := by cases operation <;> decide
  intro empty
  have lists := congrArg String.toList empty
  unfold assemblyLine at lists
  split at lists
  · exact named lists
  all_goals
    simp only [String.toList_append, List.append_assoc] at lists
    exact named (List.append_eq_nil_iff.mp lists).1

/-- The lines that tell the failures of a run. -/
def Run.failureTexts (run : Run) : List String :=
  run.skipped.map (fun t => "SKIPPED: " ++ t.message) ++
    run.trap.toList.map fun t => "TRAP: " ++ t.message

theorem hasLines_failures {bytes : Array UInt8} {start : Nat} {run : Run}
    (tiles : run.Tiles bytes start) : HasLines (failureLines run) run.failureTexts := by
  have clear := unbroken_failure tiles
  refine ⟨?_, fun line member => ?_⟩
  · rw [failureLines, Run.failureTexts, List.map_append, String.join_append, List.map_map]
    congr 1
    cases run.trap with
    | none => rfl
    | some t => simp [Listing.line]
  · rcases List.mem_append.mp member with skipped | trap
    · obtain ⟨t, met, rfl⟩ := List.mem_map.mp skipped
      exact unbroken_append.mpr ⟨by decide, clear t (List.mem_append_left _ met)⟩
    · obtain ⟨t, met, rfl⟩ := List.mem_map.mp trap
      exact unbroken_append.mpr ⟨by decide, clear t (List.mem_append_right _ met)⟩

/-! ### What a command gives -/

/-- The action of giving `result` to a file or printing it, and then printing `rest`. -/
def Command.giving (out : Option String) (result rest errors : String) : Action :=
  match out with
  | none => { file := none, stdout := result ++ rest, stderr := errors }
  | some path => { file := some (path, result), stdout := rest, stderr := errors }

/-- The command gives `result` to the file that it is asked to write, if that can be written, or
prints it; then it prints `rest`, and beside it `errors`. -/
def Directory.Gives (dir : Directory) (command : Command) (texts : List String)
    (out : Option String) (result rest errors : String) : Prop :=
  match out with
  | none => dir.invoke command texts = (⟨0, result ++ rest, errors⟩, dir)
  | some path => ∀ dir', dir.write? path result.toUTF8.data = some dir' →
      dir.invoke command texts = (⟨0, rest, errors⟩, dir') ∧
        dir'.read? path = some result.toUTF8.data

section Gives

variable {dir : Directory} {texts : List String} {file : Array UInt8}

theorem gives_of_plan {command : Command} {out : Option String} {result rest errors : String}
    (planned : command.plan texts dir.read? = .ok (giving out result rest errors)) :
    dir.Gives command texts out result rest errors := by
  unfold Directory.Gives
  cases out with
  | none =>
    rw [Directory.invoke, planned]
    rfl
  | some path =>
    intro dir' written
    refine ⟨?_, Directory.read?_write? written⟩
    rw [Directory.invoke, planned]
    simp only [giving, Directory.perform?, written]
    rfl

/-- **What the simulating command gives**: a listing, and then the registers. -/
theorem gives_simulate {s : Simulate} {config : Config}
    (parsed : Simulate.ofArguments? texts = some s)
    (start : s.startConfig dir.read? = .ok config) (program : dir.read? s.input = some file) :
    let run := Simulate.run (s.adjust config) file
    dir.Gives .run texts s.out (Listing.text run.instructions)
      ("\n" ++ Simulate.registers s.format run.machine.registers) (failureLines run) := by
  intro run
  refine gives_of_plan ?_
  have acts : s.action run = giving s.out (Listing.text run.instructions)
      ("\n" ++ Simulate.registers s.format run.machine.registers) (failureLines run) := by
    unfold Simulate.action giving
    cases s.out <;> rfl
  rw [Command.plan, parsed, ← acts]
  simp only [Simulate.plan, start, Files.read, program]
  rfl

/-- **What the disassembling command gives**: its result, and nothing after it. -/
theorem gives_disassemble {d : Disassemble} {image : Image}
    (parsed : Disassemble.ofArguments? texts = some d) (found : dir.read? d.input = some file)
    (accepted : Image.ofFile file d.skip d.length = .ok image) :
    dir.Gives .disasm texts d.out (d.result (.ofImage image d.onError)) ""
      (d.failures (.ofImage image d.onError)) := by
  refine gives_of_plan ?_
  have acts : d.action (.ofImage image d.onError) = giving d.out
      (d.result (.ofImage image d.onError)) "" (d.failures (.ofImage image d.onError)) := by
    unfold Disassemble.action giving
    cases d.out with
    | none => exact congrArg (Command.Action.mk none · _) String.append_empty.symm
    | some path => rfl
  rw [Command.plan, parsed, ← acts]
  simp only [Disassemble.plan, Files.read, found, bind, Except.bind, accepted]
  rfl

end Gives

/-! ### One listing from two commands -/

theorem ofFile_whole (file : Array UInt8) : Image.ofFile file 0 none = .ok ⟨0, file⟩ := by
  simp [Image.ofFile]

/-- Arguments of the two commands that name one file and one policy, and of the disassembling one
that ask for a plain listing of all of it. -/
structure Paired (dir : Directory) (file : Array UInt8) (texts texts' : List String)
    (s : Simulate) (config : Config) (d : Disassemble) : Prop where
  simulate : Simulate.ofArguments? texts = some s
  start : s.startConfig dir.read? = .ok config
  program : dir.read? s.input = some file
  disassemble : Disassemble.ofArguments? texts' = some d
  image : dir.read? d.input = some file
  whole : d.skip = 0 ∧ d.length = none
  plain : d.format = .text ∧ d.showBytes = false
  policy : (s.adjust config).onError = d.onError

/-- Without a configuration file the policy is that of the flags. -/
theorem policy_of_flags {s : Simulate} {d : Disassemble} (same : s.skipErrors = d.skipErrors) :
    (s.adjust {}).onError = d.onError := by
  rw [Disassemble.onError, ← same]
  rfl

/-- Both commands give one listing, whose lines are not blank, and tell the same failures; behind a
blank line the simulating one prints the registers. -/
def OneListing (dir : Directory) (file : Array UInt8) (texts texts' : List String) (s : Simulate)
    (config : Config) (d : Disassemble) : Prop :=
  ∃ listing errors lines, HasLines listing lines ∧ "" ∉ lines ∧
    dir.Gives .disasm texts' d.out listing "" errors ∧
    dir.Gives .run texts s.out listing
      ("\n" ++ Simulate.registers s.format
        (Simulate.run (s.adjust config) file).machine.registers) errors

/-- **Both commands give one listing**, whether or not the instructions are executed. -/
theorem listings_agree {dir : Directory} {file : Array UInt8} {texts texts' : List String}
    {s : Simulate} {config : Config} {d : Disassemble}
    (paired : Paired dir file texts texts' s config d) :
    OneListing dir file texts texts' s config d := by
  obtain ⟨whole, all⟩ := paired.whole
  obtain ⟨text, bare⟩ := paired.plain
  have accepted : Image.ofFile file d.skip d.length = .ok ⟨0, file⟩ := by
    rw [whole, all, ofFile_whole]
  have simulated := gives_simulate paired.simulate paired.start paired.program
  have disassembled := gives_disassemble paired.disassemble paired.image accepted
  let run := Simulate.run (s.adjust config) file
  -- the runs may differ in their registers, which neither a listing nor a failure tells
  have alike : run.Alike (Disassembly.ofImage ⟨0, file⟩ d.onError).run :=
    Machine.alike_run _ _ _ paired.policy.symm
  have listing : d.result (.ofImage ⟨0, file⟩ d.onError) = Listing.text run.instructions := by
    rw [Disassemble.result, text, alike.instructions, bare]
    rfl
  have errors : d.failures (.ofImage ⟨0, file⟩ d.onError) = failureLines run := by
    rw [Disassemble.failures, text]
    show failureLines (Disassembly.ofImage ⟨0, file⟩ d.onError).run = failureLines run
    rw [failureLines, failureLines, alike.skipped, alike.trap]
  rw [listing, errors] at disassembled
  refine ⟨_, _, _, hasLines_listing (run_typed _ _), ?_, disassembled, simulated⟩
  intro blank
  rcases List.mem_cons.mp blank with header | blank
  · exact absurd header (by decide)
  · obtain ⟨i, _, empty⟩ := List.mem_map.mp blank
    exact assemblyLine_ne_empty _ _ empty

/-! ### Three formats of one report -/

/-- The line of an instruction, counted from the start of the file, with its place and bytes. -/
def Instruction.annotation (i : Instruction) : String :=
  Numeral.marked 6 i.offset ++ ": " ++ padRight 20 (hexBytes i.bytes) ++ " " ++ i.text

/-- The entry of an instruction, counted from the start of the file, in a JSON report. -/
def Instruction.entry (i : Instruction) : Json.Value :=
  .record [
    ("offset", .nat i.offset),
    ("bytes", .text (hexBytes i.bytes)),
    ("mnemonic", .text i.mnemonic.name),
    ("text", .text i.text)]

/-- What three formats tell of a part of `file`: the same instructions, at the same places and with
the same bytes, and the same failures. -/
structure SameReport (file : Array UInt8) (listing annotated report errors : String)
    (found : List Instruction) (skipped : List String) (error : Option String) : Prop where
  listing : HasLines listing (Listing.header :: found.map (·.text))
  annotated : HasLines annotated (found.map Instruction.annotation)
  report : Json.Value.ofText? report = some (.record [
    ("instructions", .array (found.map Instruction.entry)),
    ("skipped", .array (skipped.map .text)),
    ("error", (error.map Json.Value.text).getD .null)])
  /-- The bytes of an instruction are those at its place. -/
  bytes : ∀ i ∈ found, i.offset + i.decoding.length ≤ file.size ∧
    i.bytes = file.extract i.offset (i.offset + i.decoding.length)
  /-- The failures are printed beside the first two formats. -/
  errors : HasLines errors
    (skipped.map ("SKIPPED: " ++ ·) ++ error.toList.map ("TRAP: " ++ ·))

theorem unbroken_intercalate {separator : String} {parts : List String}
    (clear : Unbroken separator) (each : ∀ part ∈ parts, Unbroken part) :
    Unbroken (separator.intercalate parts) := by
  induction parts with
  | nil =>
    rw [String.intercalate_nil]
    decide
  | cons part parts ih =>
    have rest := ih fun other member => each other (List.mem_cons_of_mem _ member)
    have first := each part List.mem_cons_self
    cases parts with
    | nil =>
      rw [String.intercalate_singleton]
      exact first
    | cons other others =>
      rw [String.intercalate_cons_cons]
      exact unbroken_append.mpr ⟨unbroken_append.mpr ⟨first, clear⟩, rest⟩

theorem unbroken_annotation {i : Instruction} (whole : Unbroken i.text) :
    Unbroken i.annotation := by
  have bytes : Unbroken (hexBytes i.bytes) := by
    refine unbroken_intercalate (by decide) fun digits member => ?_
    obtain ⟨b, _, rfl⟩ := List.mem_map.mp member
    exact unbroken_padded (by decide) (Nat.le_refl 16) 2 _
  have filled : Unbroken (padRight 20 (hexBytes i.bytes)) := by
    refine unbroken_append.mpr ⟨bytes, fun member => ?_⟩
    rw [String.toList_ofList] at member
    exact absurd (List.eq_of_mem_replicate member) (by decide)
  simp only [Instruction.annotation, unbroken_append]
  exact ⟨⟨⟨⟨unbroken_marked 6 _, by decide⟩, filled⟩, by decide⟩, whole⟩

section Report

variable (d : Disassembly)

theorem hasLines_annotated (typed : AllTyped d.run.instructions) :
    HasLines d.annotated
      ((d.run.instructions.map (.later d.origin)).map Instruction.annotation) := by
  refine ⟨?_, fun line member => ?_⟩
  · rw [Disassembly.annotated, List.map_map, List.map_map]
    rfl
  · obtain ⟨j, listed, rfl⟩ := List.mem_map.mp member
    obtain ⟨i, met, rfl⟩ := List.mem_map.mp listed
    exact unbroken_annotation (newline_not_mem_line (typed i met))

theorem isKnown_report : d.report.isKnown := by
  have entries : ∀ i : Instruction, (d.instructionReport i).isKnown := by
    intro i
    rw [Disassembly.instructionReport, Json.Value.isKnown_record]
    rfl
  rw [Disassembly.report, Json.Value.isKnown_record]
  simp only [List.all_cons, List.all_nil, Json.Value.isKnown_array, List.all_map, Bool.and_true,
    Bool.and_eq_true, List.all_eq_true, Function.comp_apply]
  refine ⟨fun i _ => entries i, fun t _ => rfl, ?_⟩
  cases d.run.trap <;> rfl

/-- The JSON report read back. -/
theorem ofText?_report :
    Json.Value.ofText? (d.report.pretty ++ "\n") = some (.record [
      ("instructions", .array ((d.run.instructions.map (.later d.origin)).map Instruction.entry)),
      ("skipped", .array ((d.run.skipped.map Trap.message).map .text)),
      ("error", ((d.run.trap.map Trap.message).map Json.Value.text).getD .null)]) := by
  rw [Json.Value.ofText?_pretty (isKnown_report d), Disassembly.report, List.map_map, List.map_map]
  cases d.run.trap <;> rfl

end Report

/-- **The three formats of one disassembly tell the same.** -/
theorem sameReport_of_part {file : Array UInt8} {image : Image} (part : image.PartOf file)
    (onError : ErrorPolicy) :
    let d := Disassembly.ofImage image onError
    SameReport file d.listing d.annotated (d.report.pretty ++ "\n") (failureLines d.run)
      (d.run.instructions.map (.later d.origin)) (d.run.skipped.map Trap.message)
      (d.run.trap.map Trap.message) := by
  intro d
  have typed : AllTyped d.run.instructions := run_typed _ _
  have tiles := run_tiled { config := { onError, execute := false } } (.ofBytes image.bytes) rfl
  have located := Disassembly.located_from_origin part onError
  refine ⟨?_, hasLines_annotated d typed, ofText?_report d, ?_, ?_⟩
  · rw [List.map_map]
    exact hasLines_listing typed
  · intro j member
    obtain ⟨i, met, rfl⟩ := List.mem_map.mp member
    obtain ⟨inside, bytes⟩ := located.instructions i met
    exact ⟨Nat.le_trans inside part.inside, bytes⟩
  · rw [List.map_map, ← Option.toList_map, Option.map_map, Option.toList_map]
    exact hasLines_failures tiles

/-- Arguments of the disassembling command that ask for each of the three formats of one part of a
file under one policy. -/
structure Threefold (dir : Directory) (file : Array UInt8) (image : Image)
    (texts texts' texts'' : List String) (d d' d'' : Disassemble) : Prop where
  plain : Disassemble.ofArguments? texts = some d ∧ d.format = .text ∧ d.showBytes = false
  annotated : Disassemble.ofArguments? texts' = some d' ∧ d'.format = .text ∧ d'.showBytes = true
  json : Disassemble.ofArguments? texts'' = some d'' ∧ d''.format = .json
  same : ∀ e ∈ [d', d''], e.skip = d.skip ∧ e.length = d.length ∧ e.skipErrors = d.skipErrors
  input : ∀ e ∈ [d, d', d''], dir.read? e.input = some file
  accepted : Image.ofFile file d.skip d.length = .ok image

/-- The three formats tell the same instructions and the same failures. -/
def OneReport (dir : Directory) (file : Array UInt8) (texts texts' texts'' : List String)
    (d d' d'' : Disassemble) : Prop :=
  ∃ listing annotated report errors found skipped error,
    dir.Gives .disasm texts d.out listing "" errors ∧
    dir.Gives .disasm texts' d'.out annotated "" errors ∧
    dir.Gives .disasm texts'' d''.out report "" "" ∧
    SameReport file listing annotated report errors found skipped error

/-- **The three formats tell the same**, whatever part of the file is asked for. -/
theorem formats_agree {dir : Directory} {file : Array UInt8} {image : Image}
    {texts texts' texts'' : List String} {d d' d'' : Disassemble}
    (threefold : Threefold dir file image texts texts' texts'' d d' d'') :
    OneReport dir file texts texts' texts'' d d' d'' := by
  obtain ⟨⟨parsed, text, bare⟩, ⟨parsed', text', shown⟩, ⟨parsed'', json⟩, same, input, accepted⟩ :=
    threefold
  obtain ⟨skip', length', policy'⟩ := same d' (by simp)
  obtain ⟨skip'', length'', policy''⟩ := same d'' (by simp)
  have one := gives_disassemble parsed (input d (by simp)) accepted
  have two := gives_disassemble parsed' (input d' (by simp)) (by rw [skip', length', accepted])
  have three := gives_disassemble parsed'' (input d'' (by simp))
    (by rw [skip'', length'', accepted])
  rw [Disassemble.onError, policy', ← Disassemble.onError] at two
  rw [Disassemble.onError, policy'', ← Disassemble.onError] at three
  have part := (Image.partOf_of_accepted accepted).2.2
  have listing (r : Disassembly) : d.result r = r.listing := by
    rw [Disassemble.result, text, bare]
    rfl
  have annotated (r : Disassembly) : d'.result r = r.annotated := by
    rw [Disassemble.result, text', shown]
    rfl
  have report (r : Disassembly) : d''.result r = r.report.pretty ++ "\n" := by
    rw [Disassemble.result, json]
  have errors (r : Disassembly) : d.failures r = failureLines r.run := by
    rw [Disassemble.failures, text]
  have errors' (r : Disassembly) : d'.failures r = failureLines r.run := by
    rw [Disassemble.failures, text']
  have silent (r : Disassembly) : d''.failures r = "" := by
    rw [Disassemble.failures, json]
  rw [listing, errors] at one
  rw [annotated, errors'] at two
  rw [report, silent] at three
  exact ⟨_, _, _, _, _, _, _, one, two, three, sameReport_of_part part d.onError⟩

/-- **Two commands and three formats tell of one run**, of every file. -/
theorem outputs_agree (dir : Directory) (file : Array UInt8) :
    (∀ texts texts' s config d, Paired dir file texts texts' s config d →
      OneListing dir file texts texts' s config d) ∧
    ∀ image texts texts' texts'' d d' d'', Threefold dir file image texts texts' texts'' d d' d'' →
      OneReport dir file texts texts' texts'' d d' d'' :=
  ⟨fun _ _ _ _ _ paired => listings_agree paired,
    fun _ _ _ _ _ _ _ threefold => formats_agree threefold⟩

/-- A directory with one file. -/
def oneFile : Directory := ⟨[("in.bin", Disassembly.interrupted)]⟩

theorem outputs_agree_interrupted :
    let words := ["--skip-errors", "--no-exec", "--out", "out.asm", "in.bin"]
    let words' := ["--skip-errors", "in.bin"]
    let part := ["--skip", "1", "in.bin"]
    ∃ s config d e e' e'',
      Paired oneFile Disassembly.interrupted words words' s config d ∧
        OneListing oneFile Disassembly.interrupted words words' s config d ∧
        (oneFile.invoke .disasm words').1.stdout = "bits 16\nmov cx, bx\nmov bx, ax\n" ∧
        Threefold oneFile Disassembly.interrupted Disassembly.afterFirst part
          ("--show-bytes" :: part) ("--format=json" :: part) e e' e'' ∧
        OneReport oneFile Disassembly.interrupted part ("--show-bytes" :: part)
          ("--format=json" :: part) e e' e'' := by
  intro words words' part
  have paired : Paired oneFile Disassembly.interrupted words words'
      ⟨none, true, true, some "out.asm", .text, "in.bin"⟩ {}
      ⟨0, none, false, true, .text, none, "in.bin"⟩ := by
    constructor
    case start => rfl
    case policy => exact policy_of_flags rfl
    all_goals decide +kernel
  have threefold : Threefold oneFile Disassembly.interrupted Disassembly.afterFirst part
      ("--show-bytes" :: part) ("--format=json" :: part)
      ⟨1, none, false, false, .text, none, "in.bin"⟩ ⟨1, none, true, false, .text, none, "in.bin"⟩
      ⟨1, none, false, false, .json, none, "in.bin"⟩ := by
    constructor
    case accepted => rfl
    all_goals decide +kernel
  obtain ⟨listings, formats⟩ := outputs_agree oneFile Disassembly.interrupted
  exact ⟨_, _, _, _, _, _, paired, listings _ _ _ _ _ paired, by decide +kernel, threefold,
    formats _ _ _ _ _ _ _ threefold⟩

end RealMode
