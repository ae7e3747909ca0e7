/-
**Runs tile their streams.** The instructions of a run and the single bytes that it passes over
stand one after the other from the first byte of the stream on, with no byte between them and none
in two of them, up to the end of the stream or to the failure that ends the run.

* `run_tiled`: the events of a run from the start of a byte tile the bytes from there on.
* `events_unique`: events that tile the same bytes, each read afresh at its place, are the same.
* `run_tiling`: the tiling of a whole stream, told of its instructions and of the bytes passed over.
-/

import RealMode.Proofs.Run.Fresh
import RealMode.Proofs.Run.Policies

namespace RealMode

open BitReader Machine

/-! ### Spans -/

/-- Consecutive bytes of a stream, from `start` on and before `stop`. -/
structure Span where
  start : Nat
  stop : Nat

namespace Span

/-- Byte `p` is in the span. -/
def Holds (s : Span) (p : Nat) : Prop := s.start ≤ p ∧ p < s.stop

/-- No byte is in both spans. -/
def Apart (s s' : Span) : Prop := ∀ p, ¬(s.Holds p ∧ s'.Holds p)

/-- The spans stand one after the other, from `start` up to `stop`. -/
def Contiguous (stop : Nat) : Nat → List Span → Prop
  | start, [] => start = stop
  | start, s :: rest => s.start = start ∧ start < s.stop ∧ Contiguous stop s.stop rest

theorem Apart.symm {s s' : Span} (apart : s.Apart s') : s'.Apart s :=
  fun p held => apart p ⟨held.2, held.1⟩

section Contiguous

variable {start stop : Nat} {spans : List Span}

theorem Contiguous.start_le (tiles : Contiguous stop start spans) : start ≤ stop := by
  induction spans generalizing start with
  | nil => exact Nat.le_of_eq tiles
  | cons s rest ih => exact Nat.le_trans (Nat.le_of_lt tiles.2.1) (ih tiles.2.2)

theorem Contiguous.le_start (tiles : Contiguous stop start spans) :
    ∀ s ∈ spans, start ≤ s.start := by
  induction spans generalizing start with
  | nil =>
    intro s member
    cases member
  | cons s rest ih =>
    obtain ⟨rfl, further, tiles⟩ := tiles
    intro s' member
    rcases List.mem_cons.mp member with rfl | member
    · exact Nat.le_refl _
    · exact Nat.le_trans (Nat.le_of_lt further) (ih tiles s' member)

/-- A later span starts after the end of an earlier one. -/
theorem Contiguous.ordered (tiles : Contiguous stop start spans) :
    spans.Pairwise fun s s' => s.start < s.stop ∧ s.stop ≤ s'.start := by
  induction spans generalizing start with
  | nil => exact .nil
  | cons s rest ih =>
    obtain ⟨rfl, further, tiles⟩ := tiles
    exact .cons (fun s' member => ⟨further, tiles.le_start s' member⟩) (ih tiles)

/-- Contiguous spans hold the bytes between their ends, and no other. -/
theorem Contiguous.holds_iff (tiles : Contiguous stop start spans) (p : Nat) :
    (∃ s ∈ spans, s.Holds p) ↔ start ≤ p ∧ p < stop := by
  induction spans generalizing start with
  | nil =>
    obtain rfl : start = stop := tiles
    constructor
    · rintro ⟨s, member, _⟩
      cases member
    · intro bounds
      omega
  | cons s rest ih =>
    obtain ⟨rfl, further, tiles⟩ := tiles
    have bound := tiles.start_le
    constructor
    · rintro ⟨s', member, held⟩
      rcases List.mem_cons.mp member with rfl | member
      · exact ⟨held.1, Nat.lt_of_lt_of_le held.2 bound⟩
      · have bounds := (ih tiles).mp ⟨s', member, held⟩
        exact ⟨by omega, bounds.2⟩
    · intro bounds
      by_cases here : p < s.stop
      · exact ⟨s, List.mem_cons_self, bounds.1, here⟩
      · obtain ⟨s', member, held⟩ := (ih tiles).mpr ⟨by omega, bounds.2⟩
        exact ⟨s', List.mem_cons_of_mem _ member, held⟩

end Contiguous

end Span

/-! ### The spans of a run -/

/-- The bytes of an instruction. -/
def Instruction.span (i : Instruction) : Span := ⟨i.offset, i.offset + i.decoding.length⟩

/-- The byte that is passed over at a failure. -/
def Trap.span (t : Trap) : Span := ⟨t.offset, t.offset + 1⟩

def Event.span : Event → Span
  | .instruction i => i.span
  | .skipped t => t.span

/-- The event is what comes of a fresh start at its place. -/
def Event.Fresh (bytes : Array UInt8) : Event → Prop
  | .instruction i => i.Fresh bytes
  | .skipped t => t.Fresh bytes

/-- The spans of the instructions, then those of the failures passed over. -/
def Run.spans (run : Run) : List Span :=
  run.instructions.map Instruction.span ++ run.skipped.map Trap.span

/-- The byte before which a run stopped. -/
def Run.stop (bytes : Array UInt8) (run : Run) : Nat :=
  match run.trap with
  | none => bytes.size
  | some t => t.offset

theorem spans_perm (events : List Event) :
    (events.map Event.span).Perm ((events.filterMap Event.instruction?).map Instruction.span ++
      (events.filterMap Event.skipped?).map Trap.span) := by
  induction events with
  | nil => exact .nil
  | cons e rest ih =>
    cases e with
    | instruction i => exact ih.cons _
    | skipped t => exact (ih.cons _).trans List.perm_middle.symm

/-- The spans of some of the events, in their order. -/
theorem spans_sublist {α : Type} {kept? : Event → Option α} {span : α → Span}
    (same : ∀ e a, kept? e = some a → span a = e.span) (events : List Event) :
    ((events.filterMap kept?).map span).Sublist (events.map Event.span) := by
  induction events with
  | nil => exact .slnil
  | cons e rest ih =>
    cases kept : kept? e with
    | none =>
      rw [List.filterMap_cons_none kept]
      exact ih.cons _
    | some a =>
      rw [List.filterMap_cons_some kept, List.map_cons, List.map_cons, same e a kept]
      exact ih.cons_cons _

theorem span_of_instruction? (e : Event) (i : Instruction) (kept : e.instruction? = some i) :
    i.span = e.span := by
  cases e with
  | instruction i' => cases kept; rfl
  | skipped t => cases kept

theorem span_of_skipped? (e : Event) (t : Trap) (kept : e.skipped? = some t) :
    t.span = e.span := by
  cases e with
  | instruction i => cases kept
  | skipped t' => cases kept; rfl

/-! ### Runs tile -/

/-- The events of the run tile the stream from byte `start` to where the run stopped, each of them
read afresh at its place. -/
structure Run.Tiles (bytes : Array UInt8) (start : Nat) (run : Run) : Prop where
  stream : run.reader.bytes = bytes
  contiguous : Span.Contiguous (run.stop bytes) start (run.events.map Event.span)
  fresh : ∀ e ∈ run.events, e.Fresh bytes
  ended : run.trap = none → run.reader.atEnd
  trapped : ∀ t, run.trap = some t → t.offset < bytes.size ∧ t.Fresh bytes

theorem tiles_after {bytes : Array UInt8} {start : Nat} {e : Event} {run : Run}
    (place : e.span.start = start) (further : start < e.span.stop) (fresh : e.Fresh bytes)
    (tiles : run.Tiles bytes e.span.stop) : (Run.after [e] run).Tiles bytes start where
  stream := tiles.stream
  contiguous := ⟨place, further, tiles.contiguous⟩
  fresh := by
    intro e' member
    rcases List.mem_cons.mp member with rfl | member
    · exact fresh
    · exact tiles.fresh e' member
  ended := tiles.ended
  trapped := tiles.trapped

theorem bytes_of_trapped {m : Machine} {r r' : BitReader} {t : Trap}
    (result : m.step r = .trapped t r') : r'.bytes = r.bytes := by
  have kept := Instruction.advances_read r
  rw [(step_trapped result).2.1] at kept
  exact kept.1

/-- **The events of a run tile the bytes from its start on.** -/
theorem run_tiled (m : Machine) (r : BitReader) (aligned : r.pos % 8 = 0) :
    (m.run r).Tiles r.bytes r.offset := by
  refine run_induction (P := fun _ r run => r.pos % 8 = 0 → run.Tiles r.bytes r.offset)
    ?_ ?_ ?_ ?_ m r aligned
  · intro m r finished aligned
    have stands : r.offset = r.bytes.size := by
      have bound := r.pos_le
      simp only [atEnd, decide_eq_true_eq] at finished
      simp only [BitReader.offset]
      omega
    refine ⟨rfl, stands, ?_, fun _ => finished, ?_⟩
    · intro e member
      cases member
    · intro t trapped
      cases trapped
  · intro m r i m' r' result ih aligned
    obtain ⟨place, same, moved, further⟩ := moved_of_emitted aligned result
    have next : r'.offset = (Event.instruction i).span.stop := by
      show r'.pos / 8 = i.offset + i.decoding.length
      rw [place, BitReader.offset, moved]
      omega
    rw [same, next] at ih
    refine tiles_after place ?_ (fresh_of_emitted aligned result) (ih (by omega))
    show r.offset < i.offset + i.decoding.length
    omega
  · intro m r t r' result abort aligned
    obtain ⟨more, _, place⟩ := step_trapped result
    refine ⟨bytes_of_trapped result, place.symm, ?_, ?_, ?_⟩
    · intro e member
      cases member
    · intro stopped
      cases stopped
    · intro t' trapped
      cases trapped
      rw [place]
      exact ⟨offset_le_of_step more, fresh_of_trapped aligned result⟩
  · intro m r t r' result skip ih aligned
    obtain ⟨more, _, place⟩ := step_trapped result
    have before := offset_le_of_step more
    have same := bytes_of_trapped result
    have pos : (r'.seek (r.offset + 1)).pos = 8 * (r.offset + 1) := by
      show min (8 * (r.offset + 1)) (8 * r'.bytes.size) = _
      rw [same]
      omega
    -- wherever inside a byte the failing reading stopped, the run goes on at the start of one
    have next : (r'.seek (r.offset + 1)).offset = (Event.skipped t).span.stop := by
      show (r'.seek (r.offset + 1)).pos / 8 = t.offset + 1
      omega
    rw [next, show (r'.seek (r.offset + 1)).bytes = r.bytes from same] at ih
    refine tiles_after place ?_ (fresh_of_trapped aligned result) (ih (by omega))
    show r.offset < t.offset + 1
    omega

/-! ### There is one tiling -/

/-- What comes of a fresh start at a place is determined by the place. -/
theorem fresh_unique {bytes : Array UInt8} {e e' : Event} (fresh : e.Fresh bytes)
    (fresh' : e'.Fresh bytes) (place : e.span.start = e'.span.start) : e = e' := by
  have apart : ∀ {i : Instruction} {t : Trap}, i.Fresh bytes → t.Fresh bytes →
      i.offset ≠ t.offset := by
    rintro i t ⟨_, fresh⟩ ⟨cause, r', failed, _⟩ place
    obtain ⟨r'', emitted⟩ := fresh {}
    have decoded := (of_read_ok (step_emitted emitted).2.1).1
    rw [place, failed] at decoded
    cases decoded
  cases e with
  | instruction i =>
    cases e' with
    | instruction i' =>
      obtain ⟨r', emitted⟩ := fresh.2 {}
      obtain ⟨r'', emitted'⟩ := fresh'.2 {}
      have place : i.offset = i'.offset := place
      rw [place, emitted'] at emitted
      obtain ⟨offset, _, _, _⟩ := i
      obtain ⟨offset', _, _, _⟩ := i'
      cases place
      cases emitted
      rfl
    | skipped t => exact absurd place (apart fresh fresh')
  | skipped t =>
    cases e' with
    | instruction i => exact absurd place.symm (apart fresh' fresh)
    | skipped t' =>
      obtain ⟨cause, r', failed, same⟩ := fresh
      obtain ⟨cause', r'', failed', same'⟩ := fresh'
      have place : t.offset = t'.offset := place
      rw [place, failed'] at failed
      cases failed
      rw [Trap.ext place (same.trans (by rw [same', place]))]

/-- **Events that tile the same bytes, each read afresh at its place, are the same.** -/
theorem events_unique {bytes : Array UInt8} {start stop : Nat} {events events' : List Event}
    (tiles : Span.Contiguous stop start (events.map Event.span))
    (tiles' : Span.Contiguous stop start (events'.map Event.span))
    (fresh : ∀ e ∈ events, e.Fresh bytes) (fresh' : ∀ e ∈ events', e.Fresh bytes) :
    events = events' := by
  induction events generalizing start events' with
  | nil =>
    obtain rfl : start = stop := tiles
    cases events' with
    | nil => rfl
    | cons e' rest' =>
      have bound := tiles'.2.2.start_le
      exact absurd tiles'.2.1 (Nat.not_lt.mpr bound)
  | cons e rest ih =>
    cases events' with
    | nil =>
      obtain rfl : start = stop := tiles'
      have bound := tiles.2.2.start_le
      exact absurd tiles.2.1 (Nat.not_lt.mpr bound)
    | cons e' rest' =>
      obtain ⟨place, _, tiles⟩ := tiles
      obtain ⟨place', _, tiles'⟩ := tiles'
      obtain rfl := fresh_unique (fresh e List.mem_cons_self) (fresh' e' List.mem_cons_self)
        (place.trans place'.symm)
      rw [ih tiles tiles' (fun e member => fresh e (List.mem_cons_of_mem _ member))
        fun e member => fresh' e (List.mem_cons_of_mem _ member)]

/-! ### Whole streams -/

/-- A run that passes over failures takes the whole stream apart into instructions and single
bytes, and nothing else that fresh starts yield does so. -/
structure Run.TilesSkipping (bytes : Array UInt8) (run : Run) : Prop where
  trap : run.trap = none
  exhausted : run.reader.bytes = bytes ∧ run.reader.atEnd
  instructionsIncrease : run.instructions.Pairwise fun i i' => i.offset < i'.offset
  skippedIncrease : run.skipped.Pairwise fun t t' => t.offset < t'.offset
  disjoint : run.spans.Pairwise Span.Apart
  cover : ∀ p, (∃ s ∈ run.spans, s.Holds p) ↔ p < bytes.size
  instructions : ∀ i ∈ run.instructions, i.Fresh bytes
  skipped : ∀ t ∈ run.skipped, t.Fresh bytes
  only : ∀ events, Span.Contiguous bytes.size 0 (events.map Event.span) →
    (∀ e ∈ events, e.Fresh bytes) → run.events = events

/-- A run that stops at a failure takes the stream apart into instructions up to there, and nothing
else that fresh starts yield does so. -/
structure Run.TilesStopping (bytes : Array UInt8) (run : Run) : Prop where
  skipped : run.skipped = []
  contiguous : Span.Contiguous (run.stop bytes) 0 (run.instructions.map Instruction.span)
  instructions : ∀ i ∈ run.instructions, i.Fresh bytes
  trap : ∀ t, run.trap = some t → t.offset < bytes.size ∧ t.Fresh bytes
  only : ∀ events, Span.Contiguous (run.stop bytes) 0 (events.map Event.span) →
    (∀ e ∈ events, e.Fresh bytes) → run.events = events

theorem instructions_fresh {bytes : Array UInt8} {start : Nat} {run : Run}
    (tiles : run.Tiles bytes start) : ∀ i ∈ run.instructions, i.Fresh bytes := by
  intro i member
  obtain ⟨e, member, kept⟩ := List.mem_filterMap.mp member
  cases e with
  | instruction i' => cases kept; exact tiles.fresh _ member
  | skipped t => cases kept

theorem skipped_fresh {bytes : Array UInt8} {start : Nat} {run : Run}
    (tiles : run.Tiles bytes start) : ∀ t ∈ run.skipped, t.Fresh bytes := by
  intro t member
  obtain ⟨e, member, kept⟩ := List.mem_filterMap.mp member
  cases e with
  | instruction i => cases kept
  | skipped t' => cases kept; exact tiles.fresh _ member

theorem tilesSkipping_of_tiles {bytes : Array UInt8} {run : Run} (tiles : run.Tiles bytes 0)
    (trap : run.trap = none) : run.TilesSkipping bytes := by
  have contiguous := tiles.contiguous
  rw [Run.stop, trap] at contiguous
  have ordered := contiguous.ordered
  have inOrder := ordered.sublist (spans_sublist span_of_instruction? run.events)
  have inOrder' := ordered.sublist (spans_sublist span_of_skipped? run.events)
  have parts : (run.events.map Event.span).Perm run.spans := spans_perm run.events
  refine ⟨trap, ⟨tiles.stream, tiles.ended trap⟩, ?_, ?_, ?_, ?_, instructions_fresh tiles,
    skipped_fresh tiles, ?_⟩
  · refine (List.pairwise_map.mp inOrder).imp fun {i i'} before => ?_
    exact Nat.lt_of_lt_of_le before.1 before.2
  · refine (List.pairwise_map.mp inOrder').imp fun {t t'} before => ?_
    exact Nat.lt_of_lt_of_le before.1 before.2
  · -- being apart does not depend on the order, so it passes from the events to their two kinds
    refine (parts.pairwise_iff Span.Apart.symm).mp (ordered.imp fun {s s'} before p held => ?_)
    exact Nat.not_lt.mpr (Nat.le_trans before.2 held.2.1) held.1.2
  · intro p
    have held := contiguous.holds_iff p
    simp only [parts.mem_iff] at held
    rw [held]
    exact and_iff_right (Nat.zero_le p)
  · exact fun events tiles' fresh' => events_unique contiguous tiles' tiles.fresh fresh'

theorem tilesStopping_of_tiles {bytes : Array UInt8} {run : Run} (tiles : run.Tiles bytes 0)
    (skipped : run.skipped = []) : run.TilesStopping bytes := by
  have parts : (run.events.map Event.span).Perm run.spans := spans_perm run.events
  rw [Run.spans, skipped, List.map_nil, List.append_nil] at parts
  have all : run.instructions.map Instruction.span = run.events.map Event.span :=
    (spans_sublist span_of_instruction? run.events).eq_of_length parts.length_eq.symm
  refine ⟨skipped, ?_, instructions_fresh tiles, tiles.trapped, ?_⟩
  · rw [all]
    exact tiles.contiguous
  · exact fun events tiles' fresh' => events_unique tiles.contiguous tiles' tiles.fresh fresh'

/-- **A run takes its stream apart in one way**, whatever the policy and the machine. -/
theorem run_tiling (m : Machine) (bytes : Array UInt8) :
    match m.config.onError with
    | .skip => (m.run (.ofBytes bytes)).TilesSkipping bytes
    | .abort => (m.run (.ofBytes bytes)).TilesStopping bytes := by
  have start : (BitReader.ofBytes bytes).offset = 0 := Nat.zero_div 8
  have tiles := run_tiled m (.ofBytes bytes) rfl
  rw [start] at tiles
  cases policy : m.config.onError with
  | skip => exact tilesSkipping_of_tiles tiles (trap_of_skip m _ policy)
  | abort => exact tilesStopping_of_tiles tiles (skipped_of_abort m _ policy)

end RealMode
