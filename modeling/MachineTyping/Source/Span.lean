/-
# Spans: where in a source a phrase stands

A span is a half-open range of byte offsets.  Offsets are 32-bit words, and a tree carries
whatever two words it was given, `stop` before `start` included.  Two operations look at the
bounds:

* `Span.between` builds a span from bounds that are in order, and refuses the others;
* `Span.clamp` cuts a span down to a source of a known size, so that what comes out can
  always be used to slice that source (`clamp_start_le_stop`, `clamp_stop_le`).
-/
namespace MachineTyping

/-! ## 1. Spans -/

/-- A half-open range of byte offsets in a source, in any order. -/
structure Span where
  /-- Offset of the first byte. -/
  start : UInt32
  /-- Offset just past the last byte. -/
  stop : UInt32
deriving DecidableEq, Repr

/-- The span of a phrase that stands nowhere: the empty range at the beginning. -/
instance : Inhabited Span := ⟨⟨0, 0⟩⟩

/-- Bounds that were given in the wrong order. -/
structure Span.Inverted where
  /-- The start that was asked for. -/
  start : UInt32
  /-- The stop that was asked for, before the start. -/
  stop : UInt32
deriving DecidableEq, Repr

/-- How inverted bounds are reported. -/
def Span.Inverted.message (bounds : Span.Inverted) : String :=
  s!"span start ({bounds.start}) must be <= end ({bounds.stop})"

/-- The span from `start` up to, but not including, `stop`; the bounds must be in order. -/
def Span.between (start stop : UInt32) : Except Span.Inverted Span :=
  if start ≤ stop then .ok ⟨start, stop⟩ else .error ⟨start, stop⟩

/-! ## 2. Clamping to a source -/

/-- A half-open range of positions in a source that is at hand. -/
structure ByteRange where
  /-- Offset of the first byte. -/
  start : Nat
  /-- Offset just past the last byte. -/
  stop : Nat
deriving DecidableEq, Repr

/-- **The part of a source of `size` bytes that a span marks.**  Both bounds are cut to the
source and a stop before the start is moved up to it; a range that is then empty is widened to
one byte, so that there is something to underline, unless the source has no byte left. -/
def Span.clamp (span : Span) (size : Nat) : ByteRange :=
  let start := min span.start.toNat size
  let stop := max (min span.stop.toNat size) start
  if start = stop then ⟨start, min (stop + 1) size⟩ else ⟨start, stop⟩

@[simp] theorem Span.clamp_start (span : Span) (size : Nat) :
    (span.clamp size).start = min span.start.toNat size := by
  unfold Span.clamp
  simp only []
  split <;> rfl

/-- A clamped range is in order... -/
theorem Span.clamp_start_le_stop (span : Span) (size : Nat) :
    (span.clamp size).start ≤ (span.clamp size).stop := by
  unfold Span.clamp
  simp only []
  split <;> simp only [] <;> omega

/-- ...and ends inside the source. -/
theorem Span.clamp_stop_le (span : Span) (size : Nat) : (span.clamp size).stop ≤ size := by
  unfold Span.clamp
  simp only []
  split <;> simp only [] <;> omega

/-! ## 3. Examples -/

/-- An empty span still marks one byte... -/
example : (Span.mk 3 3).clamp 10 = ⟨3, 4⟩ := by decide

/-- ...unless the source ends there. -/
example : (Span.mk 10 10).clamp 10 = ⟨10, 10⟩ := by decide

/-- A span may be inverted, and reach past the end. -/
example : (Span.mk 5 2).clamp 10 = ⟨5, 6⟩ ∧ (Span.mk 2 40).clamp 10 = ⟨2, 10⟩ := by decide

end MachineTyping
