/-
# Positions told from the text

Both ways of counting (`Source/Position.lean`) are algorithms: a table of line starts that is
searched, and a walk through the text.  Here both are told from the characters before the place:

* by bytes, `LineIndex.locate_append`: one line more than there are newlines before it, and one
  column more than there are bytes since the last of them, as of any offset (`LineIndex.locate_eq`);
* by characters, `Position.ofOffset_append`: the same with characters in place of bytes, as long
  as something follows or the last character is no newline.

At the end of a text that ends in a newline the second fails, and the place is told from the lines
(`Position.ofOffset_of_newline`): pieces that end in their newline, and a last one that need not.
-/
import Mathlib.Data.List.DropRight
import Mathlib.Data.List.SplitBy
import MachineTyping.Proofs.Source.Byte

namespace MachineTyping

open String (utf8Len)

variable {source : String} {before after text : List Char} {c : Char}

/-! ## 1. Characters and lines -/

/-- A character of one byte. -/
def IsAscii (c : Char) : Prop := c.toNat < 0x80

theorem utf8Size_newline : '\n'.utf8Size = 1 := rfl

theorem utf8Size_eq_one_iff : c.utf8Size = 1 ↔ IsAscii c := by
  rw [Char.utf8Size_eq_one_iff, UInt32.le_iff_toNat_le]
  exact Nat.lt_succ_iff.symm

/-- There are no fewer bytes than characters... -/
theorem length_le_utf8Len (text : List Char) : text.length ≤ utf8Len text := by
  induction text with
  | nil => exact Nat.le_refl 0
  | cons c text ih =>
    have := c.utf8Size_pos
    rw [List.length_cons, String.utf8Len_cons]
    omega

/-- ...and as many only where each character is one byte. -/
theorem length_eq_utf8Len_iff : text.length = utf8Len text ↔ ∀ c ∈ text, IsAscii c := by
  induction text with
  | nil => simp
  | cons c text ih =>
    have hpos := c.utf8Size_pos
    have hle := length_le_utf8Len text
    rw [List.forall_mem_cons, ← ih, ← utf8Size_eq_one_iff, List.length_cons, String.utf8Len_cons]
    omega

/-- What stands on the last line of a text: the characters after its last newline. -/
def lineHead (text : List Char) : List Char := text.rtakeWhile (· != '\n')

@[simp] theorem lineHead_newline : lineHead (text ++ ['\n']) = [] :=
  List.rtakeWhile_concat_neg _ _ _ (by simp)

theorem lineHead_concat (h : c ≠ '\n') : lineHead (text ++ [c]) = lineHead text ++ [c] :=
  List.rtakeWhile_concat_pos _ _ _ (by simpa using h)

/-- The lines of a text: pieces that end in their newline, and a last one that need not.  A newline
at the very end starts none. -/
def sourceLines (text : List Char) : List (List Char) := text.splitBy fun c _ => c != '\n'

/-! ## 2. By bytes -/

theorem length_textBytes (text : List Char) : (textBytes text).length = utf8Len text := by
  induction text with
  | nil => rfl
  | cons c text ih =>
    rw [textBytes_cons, List.length_append, String.length_utf8EncodeChar, ih, Nat.add_comm,
      String.utf8Len_cons]

/-- There are as many newlines among the bytes as among the characters. -/
theorem count_textBytes (text : List Char) :
    (textBytes text).count newlineByte = text.count '\n' := by
  induction text with
  | nil => rfl
  | cons c text ih =>
    rw [textBytes_cons, List.count_append, ih]
    by_cases hc : c = '\n'
    · subst hc
      rw [List.count_cons_self, Nat.add_comm]
      rfl
    · rw [List.count_cons_of_ne hc, List.count_eq_zero.mpr (newlineByte_notMem_utf8EncodeChar hc),
        Nat.zero_add]

theorem newlineStops_append (offset : Nat) (before after : List Char) :
    newlineStops offset (before ++ after) =
      newlineStops offset before ++ newlineStops (offset + utf8Len before) after := by
  simp only [newlineStops_eq_byteStops, textBytes_append, byteStops_append, length_textBytes]

/-- The last line starts where the characters on it do. -/
theorem getLastD_newlineStops (text : List Char) :
    (0 :: newlineStops 0 text).getLastD 0 + utf8Len (lineHead text) = utf8Len text := by
  induction text using List.reverseRecOn with
  | nil => rfl
  | append_singleton text c ih =>
    rw [newlineStops_append, ← List.cons_append]
    by_cases hc : c = '\n'
    · subst hc
      rw [newlineStops, if_pos rfl, newlineStops, List.getLastD_concat, lineHead_newline]
      simp [utf8Size_newline]
    · rw [lineHead_concat hc]
      simp only [newlineStops, if_neg hc, List.append_nil, String.utf8Len_append]
      omega

/-- The bytes before a character are those of the characters before it. -/
theorem take_sourceBytes (h : source.toList = before ++ after) :
    (sourceBytes source).take (utf8Len before) = textBytes before := by
  rw [sourceBytes_eq, h, textBytes_append, ← length_textBytes]
  exact List.take_left

/-- **The byte position of a character, told from the text before it.** -/
theorem LineIndex.locate_append (h : source.toList = before ++ after) :
    (LineIndex.ofSource source).locate (utf8Len before) =
      ⟨before.count '\n' + 1, utf8Len (lineHead before) + 1⟩ := by
  have hlast := getLastD_newlineStops before
  rw [newlineStops_eq_byteStops, ← take_sourceBytes h, ← lineStart] at hlast
  rw [locate_eq, take_sourceBytes h, count_textBytes]
  congr 2
  omega

/-! ## 3. By characters -/

/-- The position after one more character that something follows. -/
def Position.advance (here : Position) (c : Char) : Position :=
  if c = '\n' then ⟨here.line + 1, 1⟩ else ⟨here.line, here.column + 1⟩

/-- A walk goes past any text that something follows, character by character. -/
theorem Position.walk_append (h : after ≠ []) (here : Position) (before : List Char) (k : Nat) :
    here.walk (before ++ after) (utf8Len before + k) =
      (before.foldl advance here).walk after k := by
  induction before generalizing here with
  | nil => simp
  | cons c before ih =>
    have hpos := c.utf8Size_pos
    have hrest : before ++ after ≠ [] := by simp [h]
    have hback : utf8Len before + c.utf8Size + k - c.utf8Size = utf8Len before + k := by omega
    rw [List.cons_append, String.utf8Len_cons, walk, if_neg (by omega), hback, List.foldl_cons,
      ← ih, advance]
    by_cases hc : c = '\n' <;> simp [hc, hrest]

theorem Position.foldl_advance (text : List Char) :
    text.foldl advance ⟨1, 1⟩ = ⟨text.count '\n' + 1, (lineHead text).length + 1⟩ := by
  induction text using List.reverseRecOn with
  | nil => rfl
  | append_singleton text c ih =>
    rw [List.foldl_concat, ih, advance]
    by_cases hc : c = '\n'
    · simp [hc]
    · simp [hc, lineHead_concat hc]

/-- The last character of a source is a column of its line, a newline too. -/
theorem Position.ofOffset_concat (h : source.toList = before ++ [c]) :
    Position.ofOffset source (utf8Len (before ++ [c])) =
      ⟨before.count '\n' + 1, (lineHead before).length + 2⟩ := by
  have hpos := c.utf8Size_pos
  have hlen : utf8Len (before ++ [c]) = utf8Len before + c.utf8Size := by simp
  rw [ofOffset, h, hlen, walk_append (List.cons_ne_nil _ _), foldl_advance, walk, if_neg (by omega),
    if_neg (by simp)]
  rfl

/-- **A character position, told from the text before it**, unless that is all of the text and ends
in a newline. -/
theorem Position.ofOffset_append (h : source.toList = before ++ after)
    (hend : after = [] → before.getLast? ≠ some '\n') :
    Position.ofOffset source (utf8Len before) =
      ⟨before.count '\n' + 1, (lineHead before).length + 1⟩ := by
  by_cases hafter : after = []
  · subst hafter
    rw [List.append_nil] at h
    cases before using List.reverseRecOn with
    | nil => rw [ofOffset, h]; rfl
    | append_singleton before c =>
      have hc : c ≠ '\n' := by simpa using hend rfl
      rw [ofOffset_concat h, lineHead_concat hc]
      simp [hc]
  · have hwalk := walk_append hafter ⟨1, 1⟩ before 0
    rw [Nat.add_zero, foldl_advance] at hwalk
    rw [ofOffset, h, hwalk]
    cases after with
    | nil => exact absurd rfl hafter
    | cons c after => rw [walk, if_pos rfl]

/-! ## 4. At the end of the last line -/

/-- A text and one more character: the lines before the last one are as they were. -/
theorem sourceLines_concat (text : List Char) (c : Char) :
    sourceLines (text ++ [c]) =
      sourceLines (text.rdropWhile (· != '\n')) ++ [lineHead text ++ [c]] := by
  have hsplit : text ++ [c] = text.rdropWhile (· != '\n') ++ (lineHead text ++ [c]) := by
    rw [← List.append_assoc, lineHead, List.rdropWhile_append_rtakeWhile]
  have hline : ∀ a ∈ lineHead text, a != '\n' :=
    fun a ha => List.mem_rtakeWhile_imp (p := (· != '\n')) ha
  have hchain : (lineHead text ++ [c]).IsChain fun a _ => a != '\n' :=
    (List.pairwise_append.mpr ⟨List.pairwise_of_forall_mem_list fun a ha _ _ => hline a ha,
      List.pairwise_singleton _ _, fun a ha _ _ => hline a ha⟩).isChain
  have hends : ∀ a ∈ (text.rdropWhile (· != '\n')).getLast?, (a != '\n') = false := by
    intro a ha
    obtain ⟨hne, rfl⟩ := List.mem_getLast?_eq_getLast ha
    exact Bool.eq_false_iff.mpr (List.rdropWhile_last_not _ _ hne)
  rw [hsplit, sourceLines, sourceLines, List.splitBy_append fun a ha _ _ => hends a ha,
    List.splitBy_of_isChain (by simp) hchain]

/-- There are as many whole lines as newlines. -/
theorem length_sourceLines_rdropWhile (text : List Char) :
    (sourceLines (text.rdropWhile (· != '\n'))).length = text.count '\n' := by
  induction text using List.reverseRecOn with
  | nil => rfl
  | append_singleton text c ih =>
    by_cases hc : c = '\n'
    · subst hc
      rw [List.rdropWhile_concat_neg _ _ _ (by simp), sourceLines_concat]
      simp [ih]
    · rw [List.rdropWhile_concat_pos _ _ _ (by simpa using hc), ih]
      simp [hc]

theorem length_sourceLines_newline (text : List Char) :
    (sourceLines (text ++ ['\n'])).length = (text ++ ['\n']).count '\n' := by
  rw [← length_sourceLines_rdropWhile, List.rdropWhile_concat_neg _ _ _ (by simp)]

/-- **The end of a source that ends in a newline** is just past the end of the last line. -/
theorem Position.ofOffset_of_newline (h : source.toList = before ++ ['\n']) :
    ∃ last, (sourceLines source.toList).getLast? = some last ∧
      Position.ofOffset source source.utf8ByteSize =
        ⟨(sourceLines source.toList).length, last.length + 1⟩ := by
  refine ⟨lineHead before ++ ['\n'], ?_, ?_⟩
  · rw [h, sourceLines_concat, List.getLast?_concat]
  · rw [← String.utf8Len_toList, h, ofOffset_concat h, sourceLines_concat]
    simp [length_sourceLines_rdropWhile]

end MachineTyping
