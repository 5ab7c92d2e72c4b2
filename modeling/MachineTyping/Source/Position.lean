/-
# Positions: lines and columns of a source

Two kinds of reader ask for the line and column of an offset, and they count differently.

* A tool wants **bytes**.  `LineIndex` holds the offset at which each line starts, and
  `LineIndex.locate` answers with the last line that starts at or before the offset.  Every
  newline starts a line, the last one of a source too.
* A person wants **characters**.  `Position.ofOffset` walks the text itself.  A newline
  that nothing follows starts no line: there would be nothing on it to point at.

Both count from one.
-/
import MachineTyping.Source.Span

namespace MachineTyping

/-- A line and a column, both counted from one. -/
structure Position where
  /-- The line. -/
  line : Nat
  /-- The column on that line. -/
  column : Nat
deriving DecidableEq, Repr

/-! ## 1. Byte positions -/

/-- The offsets just past each newline of `text`, its first character standing at `offset`. -/
def newlineStops (offset : Nat) : List Char → List Nat
  | [] => []
  | c :: rest =>
    if c = '\n' then (offset + 1) :: newlineStops (offset + 1) rest
    else newlineStops (offset + c.utf8Size) rest

/-- The offsets at which the lines of a source start, in increasing order. -/
structure LineIndex where
  /-- One offset for each line; the first is zero. -/
  starts : List Nat
deriving DecidableEq, Repr

/-- The lines of a source: the first starts at zero, and each newline starts another. -/
def LineIndex.ofSource (source : String) : LineIndex :=
  ⟨0 :: newlineStops 0 source.toList⟩

/-- **The byte position of an offset.**  Its line is the last one that starts at or before it,
and its column counts bytes from there.  An offset past the end is on the last line. -/
def LineIndex.locate (lines : LineIndex) (offset : Nat) : Position :=
  let reached := lines.starts.takeWhile (· ≤ offset)
  ⟨reached.length, offset - reached.getLastD 0 + 1⟩

/-- A position with a line or a column that no 32-bit word holds. -/
structure PositionOverflow where
  /-- The offset whose position was asked for. -/
  offset : UInt32
deriving DecidableEq, Repr

/-- How a position that is out of range is reported. -/
def PositionOverflow.message (_ : PositionOverflow) : String :=
  "attempt to add with overflow"

/-- The byte position of a 32-bit offset, whose line and column must be 32-bit words again.  In a
source only the greatest offset of all has none, and only where no newline comes before it, so that
the column is out of range, or nothing else does, so that the line is. -/
def LineIndex.position (lines : LineIndex) (offset : UInt32) : Except PositionOverflow Position :=
  let place := lines.locate offset.toNat
  if place.line < UInt32.size ∧ place.column < UInt32.size then .ok place else .error ⟨offset⟩

/-! ## 2. Character positions -/

/-- The position reached from `here` by reading characters of `text` until `offset` bytes are
behind.  A newline moves to the next line only if some text follows it. -/
def Position.walk (here : Position) : List Char → Nat → Position
  | [], _ => here
  | c :: rest, offset =>
    if offset = 0 then here
    else if c = '\n' ∧ rest ≠ [] then
      Position.walk ⟨here.line + 1, 1⟩ rest (offset - c.utf8Size)
    else
      Position.walk ⟨here.line, here.column + 1⟩ rest (offset - c.utf8Size)

/-- The character position of a byte offset in a source. -/
def Position.ofOffset (source : String) (offset : Nat) : Position :=
  Position.walk ⟨1, 1⟩ source.toList offset

/-! ## 3. Examples -/

/-- A newline is the last byte of its own line. -/
example : (LineIndex.ofSource "x + 1\nfoo(y)").locate 5 = ⟨1, 6⟩ ∧
    (LineIndex.ofSource "x + 1\nfoo(y)").locate 6 = ⟨2, 1⟩ := by decide

/-- At the end of a source that ends in a newline the two ways part: by bytes a new line has
started, by characters it has not. -/
example : (LineIndex.ofSource "ab\n").locate 3 = ⟨2, 1⟩ ∧
    Position.ofOffset "ab\n" 3 = ⟨1, 4⟩ := by decide

/-- A character of two bytes is two columns for a tool and one for a person. -/
example : (LineIndex.ofSource "é = x").locate 5 = ⟨1, 6⟩ ∧
    Position.ofOffset "é = x" 5 = ⟨1, 5⟩ := by decide

/-- On a single line the greatest offset has no position: its column would be no word. -/
example : (LineIndex.ofSource "x + 1").position 4294967294 = .ok ⟨1, 4294967295⟩ ∧
    (LineIndex.ofSource "x + 1").position 4294967295 = .error ⟨4294967295⟩ := ⟨rfl, rfl⟩

end MachineTyping
