/-
**Runs over joined streams.** A run over two streams one after the other is the run over the first
and then, on the machine that it left, the run over the second, unless the first stream ends inside
an instruction. Where it does, the two part at a failure among the last five bytes of the first
stream, and not before.

* `near_end_of_truncated`: a stream that ends inside an instruction ends within its next five bytes.
* `filter_of_contiguous`: events that tile a stream up to a place are those that start before it.
* `run_append`: how a run over two streams goes, told by the runs over each of them.
-/

import RealMode.Proofs.Run.Placement

namespace RealMode

open BitReader Encoding Machine

/-! ### The end of a stream -/

theorem isTruncated_later (before : Nat) (cause : DecodeError) :
    (cause.later before).isTruncated = cause.isTruncated := by
  cases cause <;> rfl

/-- **A stream that ends inside an instruction** has at most five bytes from its start on. -/
theorem near_end_of_truncated {bytes : Array UInt8} {t : Trap} (fresh : t.Fresh bytes)
    (truncated : t.cause.isTruncated) : bytes.size ≤ t.offset + 5 := by
  obtain ⟨cause, r', failed, same⟩ := fresh
  rw [same, isTruncated_later] at truncated
  rcases spelled_of_decode_error rfl failed with ⟨refusal, _, rfl⟩ | ⟨ended, _⟩
  · rw [isTruncated_cause] at truncated
    cases truncated
  · rw [ahead_freshAt] at ended
    have short := length_of_ended ended
    rw [List.length_drop, Array.length_toList] at short
    omega

/-! ### Tilings cut at a place -/

namespace Span

variable {start stop place : Nat} {spans rest : List Span}

/-- Contiguous spans are cut in two between any of them. -/
theorem Contiguous.cut (tiles : Contiguous stop start (spans ++ rest)) :
    ∃ place, Contiguous place start spans ∧ Contiguous stop place rest := by
  induction spans generalizing start with
  | nil => exact ⟨start, rfl, tiles⟩
  | cons s spans ih =>
    obtain ⟨first, further, tiles⟩ := tiles
    obtain ⟨place, front, back⟩ := ih tiles
    exact ⟨place, ⟨first, further, front⟩, back⟩

/-- Contiguous spans go on where those in front of them stop. -/
theorem Contiguous.back (tiles : Contiguous stop start (spans ++ rest))
    (front : Contiguous place start spans) : Contiguous stop place rest := by
  induction spans generalizing start with
  | nil =>
    obtain rfl : start = place := front
    exact tiles
  | cons s spans ih => exact ih tiles.2.2 front.2.2

theorem Contiguous.lt_stop (tiles : Contiguous stop start spans) : ∀ s ∈ spans, s.start < stop := by
  induction spans generalizing start with
  | nil =>
    intro s member
    cases member
  | cons s rest ih =>
    obtain ⟨rfl, further, tiles⟩ := tiles
    intro s' member
    rcases List.mem_cons.mp member with rfl | member
    · exact Nat.lt_of_lt_of_le further tiles.start_le
    · exact ih tiles s' member

end Span

section Filter

variable {start stop place : Nat} {met rest : List Event}

/-- **Events that tile a stream up to a place** are those that start before it. -/
theorem filter_of_contiguous
    (tiles : Span.Contiguous stop start ((met ++ rest).map Event.span))
    (front : Span.Contiguous place start (met.map Event.span)) :
    (met ++ rest).filter (fun e => e.span.start < place) = met := by
  rw [List.map_append] at tiles
  have back := tiles.back front
  have before : met.filter (fun e => e.span.start < place) = met := by
    refine List.filter_eq_self.mpr fun e member => ?_
    exact decide_eq_true (front.lt_stop e.span (List.mem_map_of_mem member))
  have none : rest.filter (fun e => e.span.start < place) = [] := by
    refine List.filter_eq_nil_iff.mpr fun e member early => ?_
    have late := back.le_start e.span (List.mem_map_of_mem member)
    exact absurd (of_decide_eq_true early) (Nat.not_lt.mpr late)
  rw [List.filter_append, before, none, List.append_nil]

/-- The events of one kind that start before a place. -/
theorem filter_filterMap {α : Type} {kept? : Event → Option α} {offset : α → Nat}
    (same : ∀ e a, kept? e = some a → offset a = e.span.start) (events : List Event) (place : Nat) :
    (events.filterMap kept?).filter (fun a => offset a < place) =
      (events.filter fun e => e.span.start < place).filterMap kept? := by
  induction events with
  | nil => rfl
  | cons e rest ih =>
    cases kept : kept? e with
    | none =>
      rw [List.filterMap_cons_none kept, ih, List.filter_cons]
      split
      · rw [List.filterMap_cons_none kept]
      · rfl
    | some a =>
      rw [List.filterMap_cons_some kept, List.filter_cons, List.filter_cons, same e a kept, ih]
      split
      · rw [List.filterMap_cons_some kept]
      · rfl

theorem filter_instructions (run : Run) (place : Nat) :
    run.instructions.filter (fun i => i.offset < place) =
      (run.events.filter fun e => e.span.start < place).filterMap Event.instruction? :=
  filter_filterMap (fun e i kept => congrArg Span.start (span_of_instruction? e i kept)) _ _

theorem filter_skipped (run : Run) (place : Nat) :
    run.skipped.filter (fun t => t.offset < place) =
      (run.events.filter fun e => e.span.start < place).filterMap Event.skipped? :=
  filter_filterMap (fun e t kept => congrArg Span.start (span_of_skipped? e t kept)) _ _

end Filter

/-! ### Runs over joined streams -/

/-- How the run `whole` goes over a stream that is made of two, told by the run `first` over the
first of them, `size` bytes long, and the run `second` over the other one. -/
structure Run.Joins (policy : ErrorPolicy) (size : Nat) (first second whole : Run) : Prop where
  /-- With no end inside an instruction, the second run goes on where the first one came to. -/
  joined : (∀ t ∈ first.failures, t.cause.isTruncated = false) →
    (policy = .abort → first.trap = none) →
      whole.instructions = first.instructions ++ second.instructions.map (.later size) ∧
      whole.skipped = first.skipped ++ second.skipped.map (.later size) ∧
      whole.trap = second.trap.map (.later size) ∧
      whole.machine = second.machine
  /-- A run that stops at failures begins as the first one does. -/
  begins : policy = .abort → first.instructions <+: whole.instructions
  /-- Where the first run stopped at a refusal, nothing more is met. -/
  stopped : policy = .abort → ∀ t, first.trap = some t → t.cause.isTruncated = false →
    whole.instructions = first.instructions ∧ whole.trap = some t ∧
      whole.machine.registers = first.machine.registers
  /-- A run that passes over failures is the same up to the first end inside an instruction, which
  is among the last bytes of the first stream. -/
  parted : policy = .skip → ∀ earlier t others, first.skipped = earlier ++ t :: others →
    (∀ t' ∈ earlier, t'.cause.isTruncated = false) → t.cause.isTruncated →
      size ≤ t.offset + 5 ∧
      whole.instructions.filter (fun i => i.offset < t.offset) =
        first.instructions.filter (fun i => i.offset < t.offset) ∧
      first.skipped.filter (fun t' => t'.offset < t.offset) = earlier ∧
      whole.skipped.filter (fun t' => t'.offset < t.offset) = earlier

section Append

variable (m : Machine) (front back : Array UInt8)

theorem map_later_zero (events : List Event) : events.map (.later 0) = events := by
  refine (List.map_congr_left fun e _ => ?_).trans (List.map_id events)
  exact e.later_zero

theorem placed_front : Placed [] back.toList (.ofBytes front) (.ofBytes (front ++ back)) :=
  ⟨Array.toList_append, rfl, rfl⟩

/-- Where the first run came to the end of its stream, the second stream is ahead. -/
theorem placed_back {r s : BitReader} (placed : Placed [] back.toList r s) (same : r.bytes = front)
    (finished : r.atEnd) : Placed front.toList [] (.ofBytes back) s := by
  have bound := r.pos_le
  have pos := placed.pos
  simp only [atEnd, decide_eq_true_eq] at finished
  refine ⟨?_, ?_, rfl⟩
  · rw [placed.bytes, same, List.append_nil]
    rfl
  · show s.pos = 8 * front.toList.length + 0
    rw [List.length_nil] at pos
    rw [Array.length_toList, ← same]
    omega

theorem run_joined (told : ∀ t ∈ (m.run (.ofBytes front)).failures, t.cause.isTruncated = false)
    (passed : (m.run (.ofBytes front)).trap = none) :
    let first := m.run (.ofBytes front)
    let second := first.machine.run (.ofBytes back)
    let whole := m.run (.ofBytes (front ++ back))
    whole.events = first.events ++ second.events.map (.later front.size) ∧
      whole.trap = second.trap.map (.later front.size) ∧ whole.machine = second.machine := by
  have resumes := run_placed m (placed_front front back) (.inr told)
  unfold Run.Resumes at resumes
  rw [passed] at resumes
  obtain ⟨s', placed, finished, whole⟩ := resumes
  have tiles := run_tiled m (.ofBytes front) rfl
  have seam := placed_back front back placed tiles.stream finished
  obtain ⟨events, trap, machine⟩ := run_shifted (m.run (.ofBytes front)).machine seam
  rw [Array.length_toList] at events trap
  rw [List.length_nil, map_later_zero] at whole
  intro first second joined
  refine ⟨?_, ?_, ?_⟩
  · rw [show joined = _ from whole]
    exact congrArg (first.events ++ ·) events
  · rw [show joined = _ from whole]
    exact trap
  · rw [show joined = _ from whole]
    exact machine

theorem run_stopped {t : Trap} (trapped : (m.run (.ofBytes front)).trap = some t)
    (told : ∀ t ∈ (m.run (.ofBytes front)).failures, t.cause.isTruncated = false) :
    (m.run (.ofBytes (front ++ back))).events = (m.run (.ofBytes front)).events ∧
      (m.run (.ofBytes (front ++ back))).trap = some t ∧
      (m.run (.ofBytes (front ++ back))).machine = (m.run (.ofBytes front)).machine := by
  have resumes := run_placed m (placed_front front back) (.inr told)
  unfold Run.Resumes at resumes
  rw [trapped] at resumes
  obtain ⟨s', whole⟩ := resumes
  rw [List.length_nil, map_later_zero, Trap.later_zero] at whole
  rw [whole]
  exact ⟨rfl, rfl, rfl⟩

theorem run_begins {met rest : List Event} (split : (m.run (.ofBytes front)).events = met ++ rest)
    (told : ∀ e ∈ met, e.isTruncated = false) :
    met <+: (m.run (.ofBytes (front ++ back))).events := by
  have begins := prefix_placed m (placed_front front back) split told
  rw [List.length_nil, map_later_zero] at begins
  exact begins

theorem instruction_of_skipped_nil {run : Run} (none : run.skipped = []) :
    ∀ e ∈ run.events, e.isTruncated = false := by
  intro e member
  cases e with
  | instruction i => rfl
  | skipped t =>
    have passed : t ∈ run.skipped := List.mem_filterMap.mpr ⟨_, member, rfl⟩
    rw [none] at passed
    cases passed

/-- The events before a failure that was passed over. -/
theorem events_of_skipped {run : Run} {earlier others : List Trap} {t : Trap}
    (split : run.skipped = earlier ++ t :: others) :
    ∃ met rest, run.events = met ++ .skipped t :: rest ∧
      met.filterMap Event.skipped? = earlier := by
  obtain ⟨front, back, events, rfl, found⟩ := List.filterMap_eq_append_iff.mp split
  obtain ⟨between, e, rest, rfl, none, kept, _⟩ := List.filterMap_eq_cons_iff.mp found
  have passed : e = .skipped t := by
    cases e with
    | instruction i => cases kept
    | skipped t' =>
      cases kept
      rfl
  subst passed
  refine ⟨front ++ between, rest, ?_, ?_⟩
  · rw [events, List.append_assoc]
  · rw [List.filterMap_append, List.filterMap_eq_nil_iff.mpr none, List.append_nil]

theorem run_parted {earlier others : List Trap} {t : Trap}
    (split : (m.run (.ofBytes front)).skipped = earlier ++ t :: others)
    (told : ∀ t' ∈ earlier, t'.cause.isTruncated = false) :
    let first := m.run (.ofBytes front)
    let whole := m.run (.ofBytes (front ++ back))
    first.skipped.filter (fun t' => t'.offset < t.offset) = earlier ∧
      ∃ met, first.events.filter (fun e => e.span.start < t.offset) = met ∧
        whole.events.filter (fun e => e.span.start < t.offset) = met := by
  intro first whole
  obtain ⟨met, rest, events, skips⟩ := events_of_skipped split
  have refused : ∀ e ∈ met, e.isTruncated = false := by
    intro e member
    cases e with
    | instruction i => rfl
    | skipped t' => exact told t' (skips ▸ List.mem_filterMap.mpr ⟨_, member, rfl⟩)
  obtain ⟨rest', events'⟩ := run_begins m front back events refused
  have tiles := (run_tiled m (.ofBytes front) rfl).contiguous
  have tiles' := (run_tiled m (.ofBytes (front ++ back)) rfl).contiguous
  -- the events before the failure tile the stream up to it, in both runs
  rw [events] at tiles
  rw [← events'] at tiles'
  obtain ⟨place, before, ⟨here, _⟩⟩ := (List.map_append ▸ tiles).cut
  obtain rfl : t.offset = place := here
  have cut : first.events.filter (fun e => e.span.start < t.offset) = met := by
    rw [show first.events = _ from events]
    exact filter_of_contiguous tiles before
  refine ⟨?_, met, cut, ?_⟩
  · rw [filter_skipped, cut, skips]
  · rw [show whole.events = _ from events'.symm]
    exact filter_of_contiguous tiles' before

end Append

/-- **A run over two streams, one after the other**, told by the runs over each of them. -/
theorem run_append (m : Machine) (front back : Array UInt8) :
    Run.Joins m.config.onError front.size (m.run (.ofBytes front))
      ((m.run (.ofBytes front)).machine.run (.ofBytes back))
      (m.run (.ofBytes (front ++ back))) := by
  refine ⟨?_, ?_, ?_, ?_⟩
  · intro told passed
    have passed : (m.run (.ofBytes front)).trap = none := by
      cases policy : m.config.onError with
      | abort => exact passed policy
      | skip => exact trap_of_skip m _ policy
    obtain ⟨events, trap, machine⟩ := run_joined m front back told passed
    refine ⟨?_, ?_, trap, machine⟩
    · rw [Run.instructions, events, List.filterMap_append, instructions_later]
      rfl
    · rw [Run.skipped, events, List.filterMap_append, skipped_later]
      rfl
  · intro policy
    have none := skipped_of_abort m (.ofBytes front) policy
    have begins :=
      run_begins m front back (List.append_nil _).symm (instruction_of_skipped_nil none)
    exact begins.filterMap Event.instruction?
  · intro policy t trapped refused
    have none := skipped_of_abort m (.ofBytes front) policy
    have told : ∀ t' ∈ (m.run (.ofBytes front)).failures, t'.cause.isTruncated = false := by
      intro t' member
      rw [Run.failures, none, trapped] at member
      rw [List.mem_singleton.mp member]
      exact refused
    obtain ⟨events, trap, machine⟩ := run_stopped m front back trapped told
    rw [Run.instructions, events]
    exact ⟨rfl, trap, congrArg Machine.registers machine⟩
  · intro policy earlier t others split told truncated
    obtain ⟨skips, met, cut, cut'⟩ := run_parted m front back split told
    have fresh := skipped_fresh (run_tiled m (.ofBytes front) rfl) t (by
      rw [split]
      exact List.mem_append_right _ List.mem_cons_self)
    refine ⟨near_end_of_truncated fresh truncated, ?_, skips, ?_⟩
    · rw [filter_instructions, filter_instructions, cut, cut']
    · rw [filter_skipped, cut', ← cut, ← filter_skipped]
      exact skips

/-- Adds five to a register, and ends inside the addition that follows. -/
def cutShort : Array UInt8 := #[0x83, 0xC0, 0x05, 0x05, 0x01]

/-- Adds five to a register, and goes on with a byte that starts nothing. -/
def refused : Array UInt8 := #[0x83, 0xC0, 0x05, 0x60]

theorem run_append_cutShort :
    let stopping : Machine := {}
    let skipping : Machine := { config := { onError := .skip } }
    ((∀ t ∈ (skipping.run (.ofBytes refused)).failures, t.cause.isTruncated = false) ∧
        (skipping.run (.ofBytes (refused ++ cutShort))).skipped =
          (skipping.run (.ofBytes refused)).skipped ++
            ((skipping.run (.ofBytes refused)).machine.run (.ofBytes cutShort)).skipped.map
              (.later 4)) ∧
      (stopping.run (.ofBytes cutShort)).instructions <+:
        (stopping.run (.ofBytes (cutShort ++ refused))).instructions ∧
      ((stopping.run (.ofBytes refused)).trap = some ⟨3, .unknownOpcode 0x60⟩ ∧
        (DecodeError.unknownOpcode 0x60).isTruncated = false ∧
        (stopping.run (.ofBytes (refused ++ cutShort))).trap = some ⟨3, .unknownOpcode 0x60⟩) ∧
      (skipping.run (.ofBytes cutShort)).skipped =
        [] ++ ⟨3, .truncated 5⟩ :: [⟨4, .unimplemented 0x01 "add"⟩] ∧
        (DecodeError.truncated 5).isTruncated ∧ cutShort.size ≤ 3 + 5 ∧
        (skipping.run (.ofBytes (cutShort ++ refused))).skipped.filter (fun t => t.offset < 3) =
          [] := by
  intro stopping skipping
  have told : ∀ t ∈ (skipping.run (.ofBytes refused)).failures, t.cause.isTruncated = false := by
    decide +kernel
  have trapped : (stopping.run (.ofBytes refused)).trap = some ⟨3, .unknownOpcode 0x60⟩ := by
    decide +kernel
  have split : (skipping.run (.ofBytes cutShort)).skipped =
      [] ++ ⟨3, .truncated 5⟩ :: [⟨4, .unimplemented 0x01 "add"⟩] := by
    decide +kernel
  have joined := (run_append skipping refused cutShort).joined told nofun
  have stopped := (run_append stopping refused cutShort).stopped rfl _ trapped rfl
  have parted := (run_append skipping cutShort refused).parted rfl _ _ _ split nofun rfl
  exact ⟨⟨told, joined.2.1⟩, (run_append stopping cutShort refused).begins rfl,
    ⟨trapped, rfl, stopped.2.1⟩, split, rfl, parted.1, parted.2.2.2⟩

end RealMode
