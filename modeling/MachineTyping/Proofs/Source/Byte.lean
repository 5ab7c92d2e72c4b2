/-
# Positions told from the bytes

A tool gives an offset as a 32-bit number of bytes, and it need not be that of a character, nor be in
the source.  Here the position of ANY offset is told from the bytes of the source
(`LineIndex.locate_eq`): one line more than there are newlines before it, and one column more than
there are bytes since the last of them (`IsLineStart`).

The scan for newlines goes through the bytes (`newlineStops_eq_byteStops`), because the bytes of no
other character are a newline's.  The lines that an offset has reached are those of the bytes before
it (`LineIndex.takeWhile_starts`), and going one byte further either starts a line or leaves all as
it was (`isLineStart_lineStart`, by induction on the offset).

From that come the facts about 32-bit words: in a source whose size is one, no line start leaves the
range, no line or column does but for the greatest offset (`LineIndex.position_eq_error_iff`), and no
two offsets have the same position (`LineIndex.positions_exact_and_invertible`).
-/
import Mathlib.Data.String.Basic
import MachineTyping.Source.Position

namespace MachineTyping

/-! ## 1. Bytes and newlines -/

/-- The bytes of a source. -/
def sourceBytes (source : String) : List UInt8 := source.toUTF8.data.toList

/-- The byte that ends a line. -/
def newlineByte : UInt8 := 10

/-- The bytes of a text, character by character. -/
def textBytes (text : List Char) : List UInt8 := text.flatMap String.utf8EncodeChar

theorem textBytes_append (before after : List Char) :
    textBytes (before ++ after) = textBytes before ++ textBytes after :=
  List.flatMap_append

theorem textBytes_cons (c : Char) (text : List Char) :
    textBytes (c :: text) = String.utf8EncodeChar c ++ textBytes text :=
  List.flatMap_cons

theorem sourceBytes_eq (source : String) : sourceBytes source = textBytes source.toList := by
  rw [sourceBytes, String.toUTF8, ← String.utf8Encode_toList, List.utf8Encode,
    List.toList_data_toByteArray]
  rfl

theorem length_sourceBytes (source : String) :
    (sourceBytes source).length = source.utf8ByteSize :=
  String.size_toByteArray

theorem newlineByte_ne_ofNat {n : Nat} (h : 128 ≤ n) (h' : n < 256) :
    newlineByte ≠ UInt8.ofNat n := by
  intro heq
  have htoNat := congrArg UInt8.toNat heq
  rw [UInt8.toNat_ofNat', Nat.mod_eq_of_lt h'] at htoNat
  rw [← htoNat] at h
  exact absurd h (by decide)

/-- Of all characters only the newline has that byte: the bytes of the longer ones are greater. -/
theorem newlineByte_notMem_utf8EncodeChar {c : Char} (hc : c ≠ '\n') :
    newlineByte ∉ String.utf8EncodeChar c := by
  rw [String.utf8EncodeChar]
  split
  · rename_i hv
    rw [List.mem_singleton]
    intro heq
    have htoNat := congrArg UInt8.toNat heq
    rw [UInt8.toNat_ofNat', Nat.mod_eq_of_lt (by omega)] at htoNat
    exact hc (Char.ext (UInt32.toNat_inj.mp htoNat.symm))
  · have hb := @newlineByte_ne_ofNat
    split
    · simp only [List.mem_cons, List.not_mem_nil, or_false, not_or]
      exact ⟨hb (by omega) (by omega), hb (by omega) (by omega)⟩
    · split
      · simp only [List.mem_cons, List.not_mem_nil, or_false, not_or]
        exact ⟨hb (by omega) (by omega), hb (by omega) (by omega), hb (by omega) (by omega)⟩
      · simp only [List.mem_cons, List.not_mem_nil, or_false, not_or]
        exact ⟨hb (by omega) (by omega), hb (by omega) (by omega), hb (by omega) (by omega),
          hb (by omega) (by omega)⟩

/-! ## 2. The scan -/

/-- The offsets just past each newline of `bytes`, the first of them standing at `offset`. -/
def byteStops (offset : Nat) : List UInt8 → List Nat
  | [] => []
  | b :: rest =>
    if b = newlineByte then (offset + 1) :: byteStops (offset + 1) rest
    else byteStops (offset + 1) rest

section Scan

variable {offset stop : Nat} {bytes before after : List UInt8}

theorem byteStops_append (offset : Nat) (before after : List UInt8) :
    byteStops offset (before ++ after) =
      byteStops offset before ++ byteStops (offset + before.length) after := by
  induction before generalizing offset with
  | nil => rfl
  | cons b before ih =>
    have hlen : offset + 1 + before.length = offset + (b :: before).length := by
      rw [List.length_cons]
      omega
    rw [List.cons_append, byteStops, byteStops, ih, hlen]
    split
    · rw [List.cons_append]
    · rfl

theorem byteStops_eq_nil (h : newlineByte ∉ bytes) : byteStops offset bytes = [] := by
  induction bytes generalizing offset with
  | nil => rfl
  | cons b bytes ih =>
    rw [List.mem_cons, not_or] at h
    rw [byteStops, if_neg (Ne.symm h.1), ih h.2]

theorem byteStops_bounds (h : stop ∈ byteStops offset bytes) :
    offset < stop ∧ stop ≤ offset + bytes.length := by
  induction bytes generalizing offset with
  | nil => cases h
  | cons b bytes ih =>
    rw [byteStops] at h
    rw [List.length_cons]
    split at h
    · obtain rfl | h := List.mem_cons.mp h
      · omega
      · have := ih h
        omega
    · have := ih h
      omega

theorem length_byteStops (offset : Nat) (bytes : List UInt8) :
    (byteStops offset bytes).length = bytes.count newlineByte := by
  induction bytes generalizing offset with
  | nil => rfl
  | cons b bytes ih =>
    by_cases hb : b = newlineByte
    · simp [byteStops, hb, ih]
    · simp [byteStops, hb, ih]

theorem pairwise_byteStops (offset : Nat) (bytes : List UInt8) :
    (byteStops offset bytes).Pairwise (· < ·) := by
  induction bytes generalizing offset with
  | nil => exact .nil
  | cons b bytes ih =>
    rw [byteStops]
    split
    · exact .cons (fun stop h => (byteStops_bounds h).1) (ih _)
    · exact ih _

/-- Scanning characters for newlines is scanning their bytes. -/
theorem newlineStops_eq_byteStops (offset : Nat) (text : List Char) :
    newlineStops offset text = byteStops offset (textBytes text) := by
  induction text generalizing offset with
  | nil => rfl
  | cons c text ih =>
    rw [textBytes_cons, byteStops_append, String.length_utf8EncodeChar, newlineStops, ih, ih]
    split
    · rename_i hc
      subst hc
      rfl
    · rename_i hc
      rw [byteStops_eq_nil (newlineByte_notMem_utf8EncodeChar hc), List.nil_append]

theorem starts_ofSource (source : String) :
    (LineIndex.ofSource source).starts = 0 :: byteStops 0 (sourceBytes source) := by
  rw [LineIndex.ofSource, newlineStops_eq_byteStops, sourceBytes_eq]

/-- The lines start in increasing order... -/
theorem pairwise_starts (source : String) :
    (LineIndex.ofSource source).starts.Pairwise (· < ·) := by
  rw [starts_ofSource]
  exact .cons (fun _ h => (byteStops_bounds h).1) (pairwise_byteStops _ _)

/-- ...and at the end of the source at the latest. -/
theorem le_of_mem_starts {source : String} (h : stop ∈ (LineIndex.ofSource source).starts) :
    stop ≤ source.utf8ByteSize := by
  rw [starts_ofSource] at h
  obtain rfl | h := List.mem_cons.mp h
  · exact Nat.zero_le _
  · have := (byteStops_bounds h).2
    rw [length_sourceBytes] at this
    omega

end Scan

/-! ## 3. Where the line of an offset starts -/

/-- **The line of an offset starts there**: at the byte after a newline, or at the first byte, with no
newline from there up to the offset.  The offset may be beyond the bytes. -/
structure IsLineStart (bytes : List UInt8) (offset start : Nat) : Prop where
  /-- The line does not start after the offset. -/
  le : start ≤ offset
  /-- It starts where the text does, or a line before it ends. -/
  boundary : start = 0 ∨ ∃ i, start = i + 1 ∧ bytes[i]? = some newlineByte
  /-- No other line starts up to the offset. -/
  last : ∀ i, start ≤ i → i < offset → bytes[i]? ≠ some newlineByte

section LineStart

variable {offset start : Nat} {bytes : List UInt8}

/-- A line starts after a newline. -/
theorem isLineStart_succ (h : bytes[offset]? = some newlineByte) :
    IsLineStart bytes (offset + 1) (offset + 1) where
  le := Nat.le_refl _
  boundary := Or.inr ⟨offset, rfl, h⟩
  last := fun i hi hi' => by omega

/-- Past any other byte, or past the end, the line goes on. -/
theorem IsLineStart.succ (h : IsLineStart bytes offset start)
    (hb : bytes[offset]? ≠ some newlineByte) : IsLineStart bytes (offset + 1) start where
  le := Nat.le_succ_of_le h.le
  boundary := h.boundary
  last := fun i hi hi' => by
    by_cases heq : i = offset
    · rw [heq]
      exact hb
    · exact h.last i hi (by omega)

/-- Among one byte more there is one stop more, if that byte is a newline. -/
theorem byteStops_take_succ (bytes : List UInt8) (offset : Nat) :
    byteStops 0 (bytes.take (offset + 1)) =
      byteStops 0 (bytes.take offset) ++
        if bytes[offset]? = some newlineByte then [offset + 1] else [] := by
  rw [List.take_add_one, byteStops_append]
  congr 1
  cases hb : bytes[offset]? with
  | none => rfl
  | some b =>
    have hlt := (List.getElem?_eq_some_iff.mp hb).1
    rw [Option.toList_some, byteStops, List.length_take, Nat.min_eq_left hlt.le, Nat.zero_add]
    by_cases h : b = newlineByte
    · rw [if_pos h, if_pos (congrArg some h)]
      rfl
    · rw [if_neg h, if_neg (fun heq => h (Option.some.inj heq))]
      rfl

/-- The start of the last line that starts among the bytes before an offset. -/
def lineStart (bytes : List UInt8) (offset : Nat) : Nat :=
  (0 :: byteStops 0 (bytes.take offset)).getLastD 0

/-- **It is the start of the offset's line.** -/
theorem isLineStart_lineStart (bytes : List UInt8) (offset : Nat) :
    IsLineStart bytes offset (lineStart bytes offset) := by
  induction offset with
  | zero => exact ⟨Nat.le_refl _, Or.inl rfl, fun i _ hi => absurd hi (Nat.not_lt_zero i)⟩
  | succ offset ih =>
    rw [lineStart, byteStops_take_succ, ← List.cons_append]
    by_cases hb : bytes[offset]? = some newlineByte
    · rw [if_pos hb, List.getLastD_concat]
      exact isLineStart_succ hb
    · rw [if_neg hb, List.append_nil]
      exact ih.succ hb

/-- Offsets between which no line starts are on the same line. -/
theorem lineStart_eq_of_count {offset' : Nat} (h : offset ≤ offset')
    (hcount : (bytes.take offset).count newlineByte = (bytes.take offset').count newlineByte) :
    lineStart bytes offset = lineStart bytes offset' := by
  obtain ⟨between, hbetween⟩ := List.take_prefix_take_left (l := bytes) h
  have hnone : newlineByte ∉ between := by
    rw [← hbetween, List.count_append] at hcount
    exact List.count_eq_zero.mp (by omega)
  rw [lineStart, lineStart, ← hbetween, byteStops_append, byteStops_eq_nil hnone, List.append_nil]

/-- The first line is that of the offsets with no newline before them. -/
theorem lineStart_eq_zero_iff :
    lineStart bytes offset = 0 ↔ (bytes.take offset).count newlineByte = 0 := by
  constructor
  · intro h
    have hlast := (isLineStart_lineStart bytes offset).last
    refine List.count_eq_zero.mpr fun hmem => ?_
    obtain ⟨i, hi⟩ := List.mem_iff_getElem?.mp hmem
    rw [List.getElem?_take] at hi
    split at hi
    · rename_i hlt
      exact hlast i (h ▸ Nat.zero_le i) hlt hi
    · cases hi
  · intro h
    rw [lineStart, byteStops_eq_nil (List.count_eq_zero.mp h)]
    rfl

end LineStart

/-! ## 4. Looking an offset up -/

namespace LineIndex

/-- The point at which a table is divided by an offset: all entries before the point are at most the
offset, and all others greater. -/
structure IsPartitionPoint (lines : LineIndex) (offset point : Nat) : Prop where
  /-- The point is in the table, or at its end. -/
  le : point ≤ lines.starts.length
  /-- What is before it is at most the offset. -/
  before : ∀ start ∈ lines.starts.take point, start ≤ offset
  /-- What is not is greater. -/
  after : ∀ start ∈ lines.starts.drop point, offset < start

/-- The entries before the point are those that the offset has reached. -/
theorem IsPartitionPoint.takeWhile_starts {lines : LineIndex} {offset point : Nat}
    (h : lines.IsPartitionPoint offset point) :
    lines.starts.takeWhile (· ≤ offset) = lines.starts.take point := by
  have hnone : (lines.starts.drop point).takeWhile (· ≤ offset) = [] := by
    cases hdrop : lines.starts.drop point with
    | nil => rfl
    | cons start starts =>
      have hlt := h.after start (hdrop ▸ List.mem_cons_self)
      exact List.takeWhile_cons_of_neg (by simpa using hlt)
  conv_lhs => rw [← List.take_append_drop point lines.starts]
  rw [List.takeWhile_append_of_pos fun start hs => by simpa using h.before start hs, hnone,
    List.append_nil]

/-- **The line of an offset is where it divides the table**, however that point is looked for. -/
theorem IsPartitionPoint.eq_line {lines : LineIndex} {offset point : Nat}
    (h : lines.IsPartitionPoint offset point) : point = (lines.locate offset).line := by
  rw [locate, h.takeWhile_starts, List.length_take, Nat.min_eq_left h.le]

variable {source : String} {offset : Nat}

/-- The table at an offset: the lines that start among the bytes before it, and the others. -/
theorem starts_split (source : String) (offset : Nat) :
    (ofSource source).starts =
      (0 :: byteStops 0 ((sourceBytes source).take offset)) ++
        byteStops ((sourceBytes source).take offset).length ((sourceBytes source).drop offset) := by
  rw [starts_ofSource, List.cons_append]
  conv_lhs => rw [← List.take_append_drop offset (sourceBytes source)]
  rw [byteStops_append, Nat.zero_add]

/-- An increasing table is divided by every offset, after the lines that start before it. -/
theorem isPartitionPoint_ofSource (source : String) (offset : Nat) :
    (ofSource source).IsPartitionPoint offset
      (((sourceBytes source).take offset).count newlineByte + 1) := by
  have hpoint : ((sourceBytes source).take offset).count newlineByte + 1 =
      (0 :: byteStops 0 ((sourceBytes source).take offset)).length := by
    rw [List.length_cons, length_byteStops]
  rw [hpoint]
  constructor
  · rw [starts_split source offset, List.length_append]
    exact Nat.le_add_right ..
  · rw [starts_split source offset, List.take_left]
    intro start hs
    obtain rfl | hs := List.mem_cons.mp hs
    · exact Nat.zero_le _
    · have hle := (byteStops_bounds hs).2
      rw [List.length_take] at hle
      omega
  · rw [starts_split source offset, List.drop_left]
    intro start hs
    have hbounds := byteStops_bounds hs
    rw [List.length_take, List.length_drop] at hbounds
    omega

theorem takeWhile_starts (source : String) (offset : Nat) :
    (ofSource source).starts.takeWhile (· ≤ offset) =
      0 :: byteStops 0 ((sourceBytes source).take offset) := by
  rw [(isPartitionPoint_ofSource source offset).takeWhile_starts, starts_split source offset,
    ← length_byteStops 0]
  exact List.take_left' rfl

/-- **The byte position of an offset**, told from the bytes before it. -/
theorem locate_eq (source : String) (offset : Nat) :
    (ofSource source).locate offset =
      ⟨((sourceBytes source).take offset).count newlineByte + 1,
        offset - lineStart (sourceBytes source) offset + 1⟩ := by
  rw [locate, takeWhile_starts, List.length_cons, length_byteStops]
  rfl

/-- An offset has no more lines before it than bytes... -/
theorem locate_line_le (source : String) (offset : Nat) :
    ((ofSource source).locate offset).line ≤ offset + 1 := by
  rw [locate_eq]
  exact Nat.succ_le_succ (List.count_le_length.trans (List.length_take_le ..))

/-- ...and no more columns. -/
theorem locate_column_le (lines : LineIndex) (offset : Nat) :
    (lines.locate offset).column ≤ offset + 1 :=
  Nat.succ_le_succ (Nat.sub_le ..)

/-- The entry of the table for the line of an offset is the start of that line. -/
theorem getElem?_starts (source : String) (offset : Nat) :
    (ofSource source).starts[((sourceBytes source).take offset).count newlineByte]? =
      some (lineStart (sourceBytes source) offset) := by
  have hlt : (byteStops 0 ((sourceBytes source).take offset)).length <
      (0 :: byteStops 0 ((sourceBytes source).take offset)).length := Nat.lt_succ_self _
  rw [starts_split source offset, ← length_byteStops 0, List.getElem?_append_left hlt, lineStart,
    List.getLastD_eq_getLast?, List.getLast?_eq_getElem?, List.length_cons, Nat.add_sub_cancel,
    List.getElem?_eq_getElem hlt, Option.getD_some]

end LineIndex

/-! ## 5. Positions in order -/

/-- A position comes before another one: on an earlier line, or on the same line at an earlier
column. -/
def Position.Before (here there : Position) : Prop :=
  here.line < there.line ∨ here.line = there.line ∧ here.column < there.column

theorem Position.Before.ne {here there : Position} (h : here.Before there) : here ≠ there := by
  rintro rfl
  rcases h with h | ⟨-, h⟩
  · exact Nat.lt_irrefl _ h
  · exact Nat.lt_irrefl _ h

namespace LineIndex

variable {source : String}

/-- **A greater offset has a later position.** -/
theorem locate_before {offset offset' : Nat} (h : offset < offset') :
    ((ofSource source).locate offset).Before ((ofSource source).locate offset') := by
  have hcount : ((sourceBytes source).take offset).count newlineByte ≤
      ((sourceBytes source).take offset').count newlineByte :=
    (List.take_prefix_take_left h.le).count_le newlineByte
  rw [locate_eq, locate_eq]
  rcases hcount.lt_or_eq with hlt | heq
  · exact Or.inl (Nat.succ_lt_succ hlt)
  · have hstart := lineStart_eq_of_count h.le heq
    have hle := (isLineStart_lineStart (sourceBytes source) offset).le
    refine Or.inr ⟨congrArg (· + 1) heq, ?_⟩
    rw [← hstart]
    change offset - _ + 1 < offset' - _ + 1
    omega

/-- So no two offsets have the same. -/
theorem locate_inj {offset offset' : Nat} :
    (ofSource source).locate offset = (ofSource source).locate offset' ↔ offset = offset' := by
  refine ⟨fun heq => ?_, fun heq => heq ▸ rfl⟩
  rcases Nat.lt_trichotomy offset offset' with hlt | rfl | hlt
  · exact absurd heq (locate_before hlt).ne
  · rfl
  · exact absurd heq.symm (locate_before hlt).ne

/-- The position of a word, as long as its line and column are words. -/
theorem position_eq_ok_iff {lines : LineIndex} {offset : UInt32} {place : Position} :
    lines.position offset = .ok place ↔
      place = lines.locate offset.toNat ∧ place.line < 2 ^ 32 ∧ place.column < 2 ^ 32 := by
  rw [position]
  split
  · rename_i hc
    rw [Except.ok.injEq, eq_comm]
    exact ⟨fun h => ⟨h, h ▸ hc⟩, And.left⟩
  · rename_i hc
    refine ⟨fun h => (nomatch h), ?_⟩
    rintro ⟨rfl, h⟩
    exact absurd h hc

/-- Every word but the greatest has a position. -/
theorem position_eq_locate (source : String) {offset : UInt32} (h : offset.toNat < 2 ^ 32 - 1) :
    (ofSource source).position offset = .ok ((ofSource source).locate offset.toNat) := by
  have hline := locate_line_le source offset.toNat
  have hcolumn := locate_column_le (ofSource source) offset.toNat
  exact position_eq_ok_iff.mpr ⟨rfl, by omega, by omega⟩

/-- The greatest word has none if the line is the first, so that the column is out of range, or if
nothing but newlines comes before it, so that the line is. -/
theorem position_eq_error_iff {offset : UInt32} {overflow : PositionOverflow} :
    (ofSource source).position offset = .error overflow ↔
      overflow = ⟨offset⟩ ∧ offset.toNat = 2 ^ 32 - 1 ∧
        (((sourceBytes source).take offset.toNat).count newlineByte = 0 ∨
          ((sourceBytes source).take offset.toNat).count newlineByte = 2 ^ 32 - 1) := by
  have hlt := offset.toNat_lt
  have hcount : ((sourceBytes source).take offset.toNat).count newlineByte ≤ offset.toNat :=
    List.count_le_length.trans (List.length_take_le ..)
  have hzero := @lineStart_eq_zero_iff offset.toNat (sourceBytes source)
  have hsize : UInt32.size = 2 ^ 32 := rfl
  rw [position, locate_eq]
  simp only [hsize]
  split
  · rename_i h
    refine ⟨fun he => (nomatch he), ?_⟩
    rintro ⟨-, hoffset, hnewlines⟩
    omega
  · rename_i h
    rw [Except.error.injEq, eq_comm, and_iff_left]
    omega

/-- **Lines and columns are exact and invertible**, in a source whose size is a 32-bit word.

1. The table of line starts is increasing, and its entries are words.
2. An offset that is less than the greatest word has a position, in the source or beyond.  Its line
   is one more than the number of newlines before it, and its column one more than the distance from
   the start of that line, from which no newline comes before the offset.  Both are words.  The line
   is found where the offset divides the table, and nowhere else, so that its entry is in the table.
   From there the column leads back to the offset.
3. Only the greatest word may have none, and then it is on the first line, where its column is out
   of range, or after nothing but newlines, so that its line is.
4. Of two offsets the greater one has the later position, and no two have the same. -/
theorem positions_exact_and_invertible (source : String) (hsource : source.utf8ByteSize < 2 ^ 32) :
    ((ofSource source).starts.Pairwise (· < ·) ∧
      ∀ start ∈ (ofSource source).starts, start < 2 ^ 32) ∧
    (∀ offset : UInt32, offset.toNat < 2 ^ 32 - 1 → ∃ place start,
      (ofSource source).position offset = .ok place ∧
      place.line = 1 + ((sourceBytes source).take offset.toNat).count newlineByte ∧
      IsLineStart (sourceBytes source) offset.toNat start ∧
      place.column = 1 + (offset.toNat - start) ∧
      place.line < 2 ^ 32 ∧ place.column < 2 ^ 32 ∧
      (∀ point, (ofSource source).IsPartitionPoint offset.toNat point ↔ point = place.line) ∧
      (ofSource source).starts[place.line - 1]? = some start ∧
      start + place.column - 1 = offset.toNat) ∧
    (∀ (offset : UInt32) (overflow : PositionOverflow),
      (ofSource source).position offset = .error overflow ↔
        overflow = ⟨offset⟩ ∧ offset.toNat = 2 ^ 32 - 1 ∧
          (((sourceBytes source).take offset.toNat).count newlineByte = 0 ∨
            ((sourceBytes source).take offset.toNat).count newlineByte = 2 ^ 32 - 1)) ∧
    ∀ (offset offset' : UInt32) (place place' : Position),
      (ofSource source).position offset = .ok place →
      (ofSource source).position offset' = .ok place' →
      (offset < offset' → place.Before place') ∧ (place = place' → offset = offset') := by
  refine ⟨⟨pairwise_starts source, fun start hs => (le_of_mem_starts hs).trans_lt hsource⟩,
    fun offset hoffset => ?_, fun offset overflow => position_eq_error_iff,
    fun offset offset' place place' h h' => ?_⟩
  · have hpoint := isPartitionPoint_ofSource source offset.toNat
    have hstart := isLineStart_lineStart (sourceBytes source) offset.toNat
    have hplace := locate_eq source offset.toNat
    have hposition := position_eq_locate source hoffset
    rw [hplace] at hposition
    obtain ⟨-, hline, hcolumn⟩ := position_eq_ok_iff.mp hposition
    have hle := hstart.le
    refine ⟨_, lineStart (sourceBytes source) offset.toNat, hposition, Nat.add_comm .., hstart,
      Nat.add_comm .., hline, hcolumn, fun point => ?_, getElem?_starts source offset.toNat, ?_⟩
    · constructor
      · intro h
        rw [h.eq_line, hplace]
      · rintro rfl
        exact hpoint
    · change _ + (offset.toNat - _ + 1) - 1 = _
      omega
  · obtain ⟨rfl, -⟩ := position_eq_ok_iff.mp h
    obtain ⟨rfl, -⟩ := position_eq_ok_iff.mp h'
    exact ⟨fun hlt => locate_before (UInt32.lt_iff_toNat_lt.mp hlt),
      fun heq => UInt32.toNat_inj.mp (locate_inj.mp heq)⟩

/-- After a character of two bytes and an empty line. -/
theorem position_exact_after_empty_line :
    "é\n\n$".utf8ByteSize < 2 ^ 32 ∧ (5 : UInt32).toNat < 2 ^ 32 - 1 ∧
      (ofSource "é\n\n$").position 5 = .ok ⟨3, 2⟩ ∧
      IsLineStart (sourceBytes "é\n\n$") 5 4 ∧
      ∀ point, (ofSource "é\n\n$").IsPartitionPoint 5 point ↔ point = 3 := by
  have hsource : "é\n\n$".utf8ByteSize < 2 ^ 32 := by decide
  have hoffset : (5 : UInt32).toNat < 2 ^ 32 - 1 := by decide
  have hposition : (ofSource "é\n\n$").position 5 = .ok ⟨3, 2⟩ := by decide
  obtain ⟨place, start, hp, -, hstart, -, -, -, hpoint, hentry, -⟩ :=
    (positions_exact_and_invertible "é\n\n$" hsource).2.1 5 hoffset
  obtain rfl : place = ⟨3, 2⟩ := Except.ok.inj (hp.symm.trans hposition)
  obtain rfl : start = 4 := Option.some.inj (hentry.symm.trans (by decide))
  exact ⟨hsource, hoffset, hposition, hstart, hpoint⟩

end LineIndex

end MachineTyping
