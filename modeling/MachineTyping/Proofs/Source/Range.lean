/-
# The part of a source that a span marks

The bounds of a span may be inverted, equal or past the end of the source.  `Span.clamp`
(`Source/Span.lean`) makes a range of them in three steps on numbers: cut, put in order, widen.  Here
the range is told by the offsets that are in it (`Span.Marks`): those of the source that the span
covers and no others, except that a span that covers none of them marks the one at which it starts,
if the source has it.

* `Span.marks_iff`: the clamped range is described by that, and it is the only one, because a range is
  known by its start and its offsets (`ByteRange.eq_of_mem_iff`).
* `Span.Marks.again`: what a span marks is marked by its own bounds, so clamping twice is
  clamping once.
* `Span.clampWords_eq`: on 64-bit words the widening does not wrap.

Read as they stand the three steps split into cases, one of which widens.  Widening first and
cutting last comes to the same without any (`Span.clamp_eq`), and the offsets are read off that.
-/
import Mathlib.Data.UInt
import MachineTyping.Source.Span

namespace MachineTyping

variable {span : Span} {size offset : Nat} {range range' : ByteRange}

/-! ## 1. Offsets in a range -/

/-- An offset is in a range from the start on and before the stop. -/
instance : Membership Nat ByteRange :=
  ⟨fun range offset => range.start ≤ offset ∧ offset < range.stop⟩

theorem ByteRange.mem_iff : offset ∈ range ↔ range.start ≤ offset ∧ offset < range.stop :=
  Iff.rfl

/-- A range with nothing to underline. -/
def ByteRange.IsEmpty (range : ByteRange) : Prop := ∀ offset, offset ∉ range

theorem ByteRange.isEmpty_iff : range.IsEmpty ↔ range.stop ≤ range.start := by
  constructor
  · intro h
    have hstart := h range.start
    rw [mem_iff] at hstart
    omega
  · intro h offset hmem
    rw [mem_iff] at hmem
    omega

/-- The offset at which a range stops tells it from every longer one. -/
theorem ByteRange.stop_le_of_mem_imp (hrange : range.start ≤ range.stop)
    (hstart : range'.start = range.start) (h : ∀ offset, offset ∈ range' → offset ∈ range) :
    range'.stop ≤ range.stop := by
  by_contra hlt
  have hmem : range.stop ∈ range' := ⟨by omega, by omega⟩
  exact absurd (h _ hmem).2 (Nat.lt_irrefl _)

/-- **A range in order is known by its start and its offsets.**  The start is needed for the empty
ones only. -/
theorem ByteRange.eq_of_mem_iff (hrange : range.start ≤ range.stop)
    (hrange' : range'.start ≤ range'.stop) (hstart : range.start = range'.start)
    (h : ∀ offset, offset ∈ range ↔ offset ∈ range') : range = range' := by
  have hle : range.stop ≤ range'.stop :=
    stop_le_of_mem_imp hrange' hstart fun offset => (h offset).mp
  have hge : range'.stop ≤ range.stop :=
    stop_le_of_mem_imp hrange hstart.symm fun offset => (h offset).mpr
  obtain ⟨start, stop⟩ := range
  obtain ⟨start', stop'⟩ := range'
  exact congr (congrArg ByteRange.mk hstart) (Nat.le_antisymm hle hge)

/-! ## 2. Offsets that a span marks -/

/-- The span covers an offset of a source of `size` bytes.  An inverted span covers none. -/
def Span.Covers (span : Span) (size offset : Nat) : Prop :=
  span.start.toNat ≤ offset ∧ offset < span.stop.toNat ∧ offset < size

theorem Span.covers_none_iff :
    (∀ offset, ¬ span.Covers size offset) ↔
      span.stop.toNat ≤ span.start.toNat ∨ size ≤ span.start.toNat := by
  constructor
  · intro h
    have hstart := h span.start.toNat
    rw [Covers] at hstart
    omega
  · rintro h offset ⟨hstart, hstop, hsize⟩
    omega

/-- **The range is what the span marks in a source of `size` bytes.** -/
structure Span.Marks (span : Span) (size : Nat) (range : ByteRange) : Prop where
  /-- It starts where the span does, or at the end of the source if that comes first. -/
  start_eq : range.start = min span.start.toNat size
  /-- It is in order... -/
  start_le_stop : range.start ≤ range.stop
  /-- ...and in the source. -/
  stop_le : range.stop ≤ size
  /-- There is something to underline, unless the span starts at the end of the source or past it. -/
  isEmpty_iff : range.IsEmpty ↔ size ≤ span.start.toNat
  /-- It holds what the span covers, and one offset if that is nothing and the source goes on. -/
  mem_iff : ∀ offset, offset ∈ range ↔
    span.Covers size offset ∨
      (∀ other, ¬ span.Covers size other) ∧ offset = range.start ∧ range.start < size

/-- **A span is cut after it is widened.**  Widening a range that was cut before takes more care,
and comes to the same. -/
theorem Span.clamp_eq (span : Span) (size : Nat) :
    span.clamp size =
      ⟨min span.start.toNat size, min (max span.stop.toNat (span.start.toNat + 1)) size⟩ := by
  rw [clamp]
  split
  · rw [ByteRange.mk.injEq]
    omega
  · rw [ByteRange.mk.injEq]
    omega

theorem Span.mem_clamp_iff :
    offset ∈ span.clamp size ↔
      span.start.toNat ≤ offset ∧
        offset < max span.stop.toNat (span.start.toNat + 1) ∧ offset < size := by
  rw [clamp_eq, ByteRange.mem_iff]
  dsimp only
  omega

theorem Span.isEmpty_clamp_iff : (span.clamp size).IsEmpty ↔ size ≤ span.start.toNat := by
  rw [ByteRange.isEmpty_iff, clamp_eq]
  dsimp only
  omega

/-- The clamped range is what the span marks. -/
theorem Span.marks_clamp (span : Span) (size : Nat) : span.Marks size (span.clamp size) where
  start_eq := span.clamp_start size
  start_le_stop := span.clamp_start_le_stop size
  stop_le := span.clamp_stop_le size
  isEmpty_iff := isEmpty_clamp_iff
  mem_iff := fun offset => by
    rw [mem_clamp_iff, covers_none_iff, Covers, clamp_start]
    constructor
    · rintro ⟨hstart, hstop, hsize⟩
      by_cases hcovers : offset < span.stop.toNat
      · exact Or.inl ⟨hstart, hcovers, hsize⟩
      · exact Or.inr (by omega)
    · rintro (⟨hstart, hstop, hsize⟩ | ⟨hnone, hoffset, hstart⟩)
      · omega
      · omega

/-- **What a span marks is one range, the clamped one.** -/
theorem Span.marks_iff : span.Marks size range ↔ range = span.clamp size := by
  constructor
  · intro h
    have hclamp := span.marks_clamp size
    have hstart : range.start = (span.clamp size).start := h.start_eq.trans hclamp.start_eq.symm
    refine ByteRange.eq_of_mem_iff h.start_le_stop hclamp.start_le_stop hstart fun offset => ?_
    rw [h.mem_iff, hclamp.mem_iff, hstart]
  · rintro rfl
    exact span.marks_clamp size

/-! ## 3. Clamping again -/

/-- The bounds of a span as numbers. -/
def Span.bounds (span : Span) : ByteRange := ⟨span.start.toNat, span.stop.toNat⟩

/-- A span whose bounds are in a source covers what is between them. -/
theorem Span.covers_iff_mem_bounds (h : span.bounds.stop ≤ size) :
    span.Covers size offset ↔ offset ∈ span.bounds :=
  ⟨fun hcovers => ⟨hcovers.1, hcovers.2.1⟩, fun hmem => ⟨hmem.1, hmem.2, hmem.2.trans_le h⟩⟩

/-- **What a span marks is marked by its own bounds.** -/
theorem Span.Marks.again {again : Span} (h : span.Marks size again.bounds) :
    again.Marks size again.bounds where
  start_eq := (Nat.min_eq_left (h.start_le_stop.trans h.stop_le)).symm
  start_le_stop := h.start_le_stop
  stop_le := h.stop_le
  isEmpty_iff := by
    rw [h.isEmpty_iff]
    have hstart := h.start_eq
    change again.start.toNat = _ at hstart
    omega
  mem_iff := fun offset => by
    rw [covers_iff_mem_bounds h.stop_le]
    constructor
    · exact Or.inl
    · rintro (hmem | ⟨hnone, -, hlt⟩)
      · exact hmem
      · -- With nothing covered the range is empty, and then it starts at the end of the source.
        have hempty : again.bounds.IsEmpty := fun other hother =>
          hnone other ((covers_iff_mem_bounds h.stop_le).mpr hother)
        have hsize := h.isEmpty_iff.mp hempty
        have hstart := h.start_eq
        omega

/-- A range in order whose bounds are words is that of a span. -/
theorem ByteRange.exists_bounds_eq (hrange : range.start ≤ range.stop)
    (hstop : range.stop < UInt32.size) :
    ∃ again, Span.between (UInt32.ofNat range.start) (UInt32.ofNat range.stop) = .ok again ∧
      again.bounds = range := by
  have hstart := UInt32.toNat_ofNat_of_lt' (hrange.trans_lt hstop)
  have hstop' := UInt32.toNat_ofNat_of_lt' hstop
  refine ⟨⟨UInt32.ofNat range.start, UInt32.ofNat range.stop⟩, ?_, ?_⟩
  · rw [Span.between, if_pos]
    rw [UInt32.le_iff_toNat_le, hstart, hstop']
    exact hrange
  · rw [Span.bounds, hstart, hstop']

/-! ## 4. On words -/

/-- The three steps on 64-bit words. -/
def Span.clampWords (span : Span) (size : UInt64) : UInt64 × UInt64 :=
  let start := min span.start.toUInt64 size
  let stop := max (min span.stop.toUInt64 size) start
  if start = stop then (start, min (stop + 1) size) else (start, stop)

/-- One more than a 32-bit word is no trouble for a 64-bit one. -/
theorem toNat_add_one {word : UInt64} (h : word.toNat < 2 ^ 32) :
    (word + 1).toNat = word.toNat + 1 := by
  rw [UInt64.toNat_add, UInt64.toNat_one, Nat.mod_eq_of_lt (by omega)]

/-- **They come to the same as on numbers**: the only sum is one more than a 32-bit word. -/
theorem Span.clampWords_eq (span : Span) (size : UInt64) :
    (⟨(span.clampWords size).1.toNat, (span.clampWords size).2.toNat⟩ : ByteRange) =
      span.clamp size.toNat := by
  have hstart : (min span.start.toUInt64 size).toNat = min span.start.toNat size.toNat := by
    rw [UInt64.toNat_min, UInt32.toNat_toUInt64]
  rw [clampWords, clamp, ← hstart]
  generalize min span.start.toUInt64 size = start at hstart ⊢
  have hstop : (max (min span.stop.toUInt64 size) start).toNat =
      max (min span.stop.toNat size.toNat) start.toNat := by
    rw [UInt64.toNat_max, UInt64.toNat_min, UInt32.toNat_toUInt64]
  rw [← hstop]
  generalize max (min span.stop.toUInt64 size) start = stop at hstop ⊢
  by_cases h : start = stop
  · -- The word that is widened is the start of the span or less.
    have hword : stop.toNat < 2 ^ 32 := by
      have hlt := span.start.toNat_lt
      rw [← h, hstart]
      omega
    rw [if_pos h, if_pos (congrArg UInt64.toNat h), UInt64.toNat_min, toNat_add_one hword]
  · rw [if_neg h, if_neg (fun heq => h (UInt64.toNat_inj.mp heq))]

/-! ## 5. Clamped ranges -/

/-- **Clamped ranges are valid**, whatever the bounds of the span and the size of the source.

1. The clamped range is the one that the span marks, and no other range is.  So it starts where the
   span does or at the end of the source, is in order and in the source, is empty exactly if the span
   starts at the end or past it, and has the offsets that the span covers and no others, except the
   one at which it starts if the span covers none.
2. If the size is a 32-bit word, the range has the bounds of a span again, and clamping that one
   changes nothing.
3. If the size is a 64-bit word, the steps on words come to the same range. -/
theorem Span.clamped_ranges_valid (span : Span) (size : Nat) :
    (∀ range, span.Marks size range ↔ range = span.clamp size) ∧
    (size < 2 ^ 32 → ∃ again,
      Span.between (UInt32.ofNat (span.clamp size).start) (UInt32.ofNat (span.clamp size).stop) =
        .ok again ∧
      again.bounds = span.clamp size ∧ again.clamp size = span.clamp size) ∧
    ∀ word : UInt64,
      (⟨(span.clampWords word).1.toNat, (span.clampWords word).2.toNat⟩ : ByteRange) =
        span.clamp word.toNat := by
  refine ⟨fun range => marks_iff, fun hsize => ?_, span.clampWords_eq⟩
  have hmarks := span.marks_clamp size
  obtain ⟨again, hagain, hbounds⟩ :=
    ByteRange.exists_bounds_eq hmarks.start_le_stop (hmarks.stop_le.trans_lt hsize)
  rw [← hbounds] at hmarks
  refine ⟨again, hagain, hbounds, ?_⟩
  rw [← hbounds]
  exact (marks_iff.mp hmarks.again).symm

/-- An inverted span marks the byte at which it starts, and so does the span of that byte. -/
theorem Span.clamped_ranges_valid_inverted :
    10 < 2 ^ 32 ∧ (Span.mk 5 2).Marks 10 ⟨5, 6⟩ ∧
      ∃ again, Span.between 5 6 = .ok again ∧
        again.bounds = ⟨5, 6⟩ ∧ again.clamp 10 = ⟨5, 6⟩ := by
  have hsize : 10 < 2 ^ 32 := by decide
  obtain ⟨hmarks, hagain, -⟩ := Span.clamped_ranges_valid ⟨5, 2⟩ 10
  exact ⟨hsize, (hmarks _).mpr (by decide), hagain hsize⟩

end MachineTyping
