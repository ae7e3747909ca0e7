/-
**Places in the file.** The run over an image is the run over the file that it was cut out of, read
in its place, with every offset counted from the start of the image. What is reported of an
instruction is counted from the start of the file again; what is reported of a failure is not, so it
names a place in the file only where nothing was cut off in front.

* `partOf_of_accepted`: an accepted image is a part of its file.
* `run_inPlace`: the run over an image is the run over the file in its place.
* `located_from_origin`: counted from the start of the file, all that is reported is at its place,
  and under the skipping policy it tiles the image.
* `located_iff`: the offsets named in the failures are places in the file just if nothing was cut
  off in front, or nothing failed.
-/

import RealMode.Disassembly
import RealMode.Proofs.Output.Messages

namespace RealMode

open BitReader Machine

/-! ### A part of a file -/

namespace Image

/-- The byte of the file before which the image ends. -/
def stop (image : Image) : Nat := image.origin + image.bytes.size

/-- The image is the part of the file from its origin on. -/
structure PartOf (image : Image) (file : Array UInt8) : Prop where
  inside : image.stop ≤ file.size
  bytes : image.bytes = file.extract image.origin image.stop

variable {file : Array UInt8} {skip : Nat} {length : Option Nat} {image : Image}

/-- **An accepted image is a part of its file**, of the length asked for or to the end. -/
theorem partOf_of_accepted (accepted : ofFile file skip length = .ok image) :
    image.origin = skip ∧ image.stop = (length.map (skip + ·)).getD file.size ∧
      image.PartOf file := by
  unfold ofFile at accepted
  split at accepted
  · rename_i inside
    cases length with
    | none =>
      cases accepted
      have size : skip + (file.extract skip file.size).size = file.size := by
        rw [Array.size_extract]
        omega
      refine ⟨rfl, size, Nat.le_of_eq size, ?_⟩
      rw [stop, size]
    | some length =>
      dsimp only at accepted
      split at accepted
      · rename_i fits
        cases accepted
        have size : skip + (file.extract skip (skip + length)).size = skip + length := by
          rw [Array.size_extract]
          omega
        refine ⟨rfl, size, ?_, ?_⟩
        · exact Nat.le_trans (Nat.le_of_eq size) (by omega)
        · rw [stop, size]
      · cases accepted
  · cases accepted

end Image

/-- A reader of a file from byte `start` on, which ends before byte `stop`. -/
def BitReader.within (file : Array UInt8) (start stop : Nat) : BitReader :=
  (BitReader.ofBytes (file.extract 0 stop)).seek start

/-- The run over the part of the file that an image is, in its place. -/
def Image.inPlace (image : Image) (file : Array UInt8) (onError : ErrorPolicy) : Run :=
  ({ config := { onError, execute := false } } : Machine).run
    (.within file image.origin image.stop)

section InPlace

variable {image : Image} {file : Array UInt8} (onError : ErrorPolicy)

theorem length_before (part : image.PartOf file) :
    (file.toList.take image.origin).length = image.origin := by
  have inside := part.inside
  rw [Image.stop] at inside
  rw [List.length_take, Array.length_toList]
  omega

theorem pos_within (part : image.PartOf file) :
    (within file image.origin image.stop).pos = 8 * image.origin := by
  have inside := part.inside
  have bound : image.origin ≤ image.stop := Nat.le_add_right _ _
  show min (8 * image.origin) (8 * (file.extract 0 image.stop).size) = _
  rw [Array.size_extract]
  omega

theorem placed_within (part : image.PartOf file) :
    Placed (file.toList.take image.origin) [] (.ofBytes image.bytes)
      (.within file image.origin image.stop) := by
  have bound : image.origin ≤ image.stop := Nat.le_add_right _ _
  refine ⟨?_, ?_, rfl⟩
  · show (file.extract 0 image.stop).toList =
      file.toList.take image.origin ++ image.bytes.toList ++ []
    obtain ⟨count, split⟩ := Nat.exists_eq_add_of_le bound
    rw [part.bytes, split]
    simp only [Array.toList_extract, List.extract_eq_take_drop, List.drop_zero, Nat.sub_zero,
      List.append_nil, Nat.add_sub_cancel_left]
    exact List.take_add
  · rw [length_before part]
    exact pos_within part

/-- **The run over an image is the run over the file in its place**, with other offsets. -/
theorem run_inPlace (part : image.PartOf file) :
    let run := (Disassembly.ofImage image onError).run
    (image.inPlace file onError).events = run.events.map (.later image.origin) ∧
      (image.inPlace file onError).trap = run.trap.map (.later image.origin) := by
  have shifted := run_shifted { config := { onError, execute := false } } (placed_within part)
  rw [length_before part] at shifted
  exact ⟨shifted.1, shifted.2.1⟩

theorem instructions_inPlace (part : image.PartOf file) :
    (image.inPlace file onError).instructions =
      (Disassembly.ofImage image onError).run.instructions.map (.later image.origin) := by
  rw [Run.instructions, (run_inPlace onError part).1, instructions_later, Run.instructions]

theorem skipped_inPlace (part : image.PartOf file) :
    (image.inPlace file onError).skipped =
      (Disassembly.ofImage image onError).run.skipped.map (.later image.origin) := by
  rw [Run.skipped, (run_inPlace onError part).1, skipped_later, Run.skipped]

theorem failures_inPlace (part : image.PartOf file) :
    (image.inPlace file onError).failures =
      (Disassembly.ofImage image onError).run.failures.map (.later image.origin) := by
  rw [Run.failures, skipped_inPlace onError part, (run_inPlace onError part).2, Run.failures,
    List.map_append, Option.toList_map]

/-- The run over the file in its place tiles the image. -/
theorem tiled_inPlace (part : image.PartOf file) :
    (image.inPlace file onError).Tiles (file.extract 0 image.stop) image.origin := by
  have pos := pos_within part
  have start : (within file image.origin image.stop).offset = image.origin := by
    rw [BitReader.offset, pos, Nat.mul_div_cancel_left _ (by decide)]
  have tiles := run_tiled { config := { onError, execute := false } }
    (within file image.origin image.stop) (by rw [pos, Nat.mul_mod_right])
  rw [start] at tiles
  exact tiles

end InPlace

/-! ### What tiles a part of a stream -/

theorem Span.Contiguous.stop_le {start stop : Nat} {spans : List Span}
    (tiles : Contiguous stop start spans) : ∀ s ∈ spans, s.stop ≤ stop := by
  induction spans generalizing start with
  | nil =>
    intro s member
    cases member
  | cons s rest ih =>
    obtain ⟨_, _, tiles⟩ := tiles
    intro s' member
    rcases List.mem_cons.mp member with rfl | member
    · exact tiles.start_le
    · exact ih tiles s' member

section Tiles

variable {bytes : Array UInt8} {start : Nat} {run : Run}

/-- The instructions of a run lie in its stream. -/
theorem inside_of_tiles (tiles : run.Tiles bytes start) :
    ∀ i ∈ run.instructions, i.offset + i.decoding.length ≤ bytes.size := by
  intro i member
  obtain ⟨e, listed, kept⟩ := List.mem_filterMap.mp member
  have within := tiles.contiguous.stop_le e.span (List.mem_map_of_mem listed)
  rw [← span_of_instruction? e i kept] at within
  refine Nat.le_trans within ?_
  unfold Run.stop
  split
  · exact Nat.le_refl _
  · rename_i trap
    exact Nat.le_of_lt (tiles.trapped _ trap).1

/-- What a run met, in whatever order, tiles the bytes from its start to the end of the stream. -/
theorem cover_of_tiles (tiles : run.Tiles bytes start) (trap : run.trap = none) :
    run.spans.Pairwise Span.Apart ∧
      ∀ p, (∃ s ∈ run.spans, s.Holds p) ↔ start ≤ p ∧ p < bytes.size := by
  have contiguous := tiles.contiguous
  rw [Run.stop, trap] at contiguous
  have parts : (run.events.map Event.span).Perm run.spans := spans_perm run.events
  refine ⟨(parts.pairwise_iff Span.Apart.symm).mp ?_, fun p => ?_⟩
  · exact contiguous.ordered.imp fun {s s'} before p held =>
      Nat.not_lt.mpr (Nat.le_trans before.2 held.2.1) held.1.2
  · have held := contiguous.holds_iff p
    simp only [parts.mem_iff] at held
    exact held

end Tiles

/-! ### What is reported -/

namespace Disassembly

/-- The bytes that a report accounts for, where `named` tells the places of its failures. -/
def spans (d : Disassembly) (named : Trap → Nat) : List Span :=
  d.run.instructions.map (fun i => ⟨d.place i, d.place i + i.decoding.length⟩) ++
    d.run.skipped.map fun t => ⟨named t, named t + 1⟩

/-- What is reported of an image, with `named` for the places of failures, is at its place in the
file. -/
structure Located (file : Array UInt8) (image : Image) (onError : ErrorPolicy)
    (named : Trap → Nat) : Prop where
  /-- The bytes of an instruction stand at its place. -/
  instructions : ∀ i ∈ (ofImage image onError).run.instructions,
    (ofImage image onError).place i + i.decoding.length ≤ image.stop ∧
      i.bytes = file.extract ((ofImage image onError).place i)
        ((ofImage image onError).place i + i.decoding.length)
  /-- A failure is where the file itself could not be decoded. -/
  failures : (ofImage image onError).run.failures.map named =
    (image.inPlace file onError).failures.map Trap.offset
  /-- Under the skipping policy all that is reported tiles the image. -/
  tiles : onError = .skip →
    ((ofImage image onError).spans named).Pairwise Span.Apart ∧
      ∀ p, (∃ s ∈ (ofImage image onError).spans named, s.Holds p) ↔
        image.origin ≤ p ∧ p < image.stop

section Located

variable {file : Array UInt8} {skip : Nat} {length : Option Nat} {image : Image}
  {onError : ErrorPolicy} {named named' : Trap → Nat}

/-- **Counted from the start of the file, all that is reported is at its place.** -/
theorem located_from_origin (part : image.PartOf file) (onError : ErrorPolicy) :
    Located file image onError fun t => image.origin + t.offset := by
  have tiles := tiled_inPlace onError part
  have size : (file.extract 0 image.stop).size = image.stop := by
    have inside := part.inside
    rw [Array.size_extract]
    omega
  refine ⟨?_, ?_, ?_⟩
  · intro i member
    have there : i.later image.origin ∈ (image.inPlace file onError).instructions := by
      rw [instructions_inPlace onError part]
      exact List.mem_map_of_mem member
    have within := inside_of_tiles tiles _ there
    obtain ⟨bytes, _⟩ := instructions_fresh tiles _ there
    rw [size] at within
    rw [Array.extract_extract, Nat.zero_add, Nat.zero_add, Nat.min_eq_left within] at bytes
    exact ⟨within, bytes⟩
  · rw [failures_inPlace onError part, List.map_map]
    rfl
  · intro skipping
    have trap : (image.inPlace file onError).trap = none := trap_of_skip _ _ skipping
    have cover := cover_of_tiles tiles trap
    rw [size] at cover
    have same : (image.inPlace file onError).spans =
        (ofImage image onError).spans fun t => image.origin + t.offset := by
      rw [Run.spans, instructions_inPlace onError part, skipped_inPlace onError part,
        List.map_map, List.map_map]
      rfl
    rw [← same]
    exact cover

theorem Located.congr (located : Located file image onError named)
    (same : ∀ t ∈ (ofImage image onError).run.failures, named t = named' t) :
    Located file image onError named' := by
  have spans : (ofImage image onError).spans named = (ofImage image onError).spans named' := by
    have each : ∀ t ∈ (ofImage image onError).run.skipped,
        (⟨named t, named t + 1⟩ : Span) = ⟨named' t, named' t + 1⟩ := by
      intro t member
      rw [same t (List.mem_append_left _ member)]
    rw [Disassembly.spans, List.map_congr_left each]
    rfl
  refine ⟨located.instructions, ?_, ?_⟩
  · rw [← located.failures, List.map_congr_left same]
  · rw [← spans]
    exact located.tiles

/-- **The offsets named in the failures are places in the file** just if nothing was cut off in
front, or nothing failed; counted from the start of the file they always are. -/
theorem located_iff (accepted : Image.ofFile file skip length = .ok image)
    (onError : ErrorPolicy) :
    Located file image onError (fun t => skip + t.offset) ∧
      ∀ named : Trap → Nat,
        (∀ t ∈ (ofImage image onError).run.failures, Names t.message (named t)) →
          (Located file image onError named ↔
            skip = 0 ∨ (ofImage image onError).run.failures = []) := by
  obtain ⟨origin, _, part⟩ := Image.partOf_of_accepted accepted
  have located := located_from_origin part onError
  rw [origin] at located
  refine ⟨located, fun named names => ⟨fun claimed => ?_, fun either => ?_⟩⟩
  · have places := claimed.failures.trans located.failures.symm
    cases failed : (ofImage image onError).run.failures with
    | nil => exact .inr rfl
    | cons t rest =>
      -- any one failure tells the two counts apart
      rw [failed] at places names
      have first : named t = skip + t.offset := (List.cons.inj places).1
      have read := names_unique (names t List.mem_cons_self) (names_message t)
      exact .inl (by omega)
  · refine located.congr fun t member => ?_
    have read := names_unique (names t member) (names_message t)
    rcases either with zero | none
    · omega
    · rw [none] at member
      cases member

end Located

/-- Two moves with a byte between them that starts no instruction, after another such byte. -/
def interrupted : Array UInt8 := #[0x0F, 0x89, 0xD9, 0x0F, 0x89, 0xC3]

/-- The same without the first byte. -/
def afterFirst : Image := ⟨1, #[0x89, 0xD9, 0x0F, 0x89, 0xC3]⟩

theorem located_iff_interrupted :
    Image.ofFile interrupted 1 none = .ok afterFirst ∧
      (∀ t ∈ (ofImage afterFirst .skip).run.failures, Names t.message t.offset) ∧
      (ofImage afterFirst .skip).run.failures = [⟨2, .unknownOpcode 0x0F⟩] ∧
      Located interrupted afterFirst .skip (fun t => 1 + t.offset) ∧
      ¬Located interrupted afterFirst .skip Trap.offset := by
  have accepted : Image.ofFile interrupted 1 none = .ok afterFirst := rfl
  have failed : (ofImage afterFirst .skip).run.failures = [⟨2, .unknownOpcode 0x0F⟩] := by
    decide +kernel
  have names : ∀ t ∈ (ofImage afterFirst .skip).run.failures, Names t.message t.offset :=
    fun t _ => names_message t
  obtain ⟨located, exact⟩ := located_iff accepted .skip
  refine ⟨accepted, names, failed, located, fun claimed => ?_⟩
  rcases (exact Trap.offset names).mp claimed with zero | none
  · cases zero
  · rw [failed] at none
    cases none

/-- The failure of the byte at 3 is said to be at 2, inside the first move. -/
theorem not_located_interrupted :
    ¬∀ (file : Array UInt8) (skip : Nat) (length : Option Nat) (image : Image)
      (onError : ErrorPolicy) (named : Trap → Nat),
      Image.ofFile file skip length = .ok image →
        (∀ t ∈ (ofImage image onError).run.failures, Names t.message (named t)) →
          Located file image onError named := by
  intro always
  have claimed := always interrupted 1 none afterFirst .skip Trap.offset rfl
    fun t _ => names_message t
  have places := claimed.failures
  have here : (ofImage afterFirst .skip).run.failures.map Trap.offset = [2] := by decide +kernel
  have there : (afterFirst.inPlace interrupted .skip).failures.map Trap.offset = [3] := by
    decide +kernel
  rw [here, there] at places
  cases places

end Disassembly

end RealMode
