/-
# Rendered errors

An error is rendered for a tool and for a person, and the two are told the same.

* What a tool gets is one line of JSON, from which everything that is said of the error is read back
  as it was, whatever the names in it (`TypeError.line_reads_back`).
* What a person is pointed at is the place that the tool is told, counted in characters
  (`TypeError.renderings_agree`).  The two only part at the end of a source that ends in a newline.

The position is computed on 32-bit words.  A source whose size is one less than such a word can hold
is short enough for every offset in it to have a position (`TypeError.position_eq`).
-/
import MachineTyping.Diagnostic
import MachineTyping.Proofs.Json.Reader
import MachineTyping.Proofs.Source.Line

namespace MachineTyping

open String (utf8Len)

variable {source : String}

/-! ## 1. Positions as words -/

theorem toNat_min_ofNat {size : Nat} (h : size < UInt32.size) (w : UInt32) :
    (min w (UInt32.ofNat size)).toNat = min w.toNat size := by
  rw [UInt32.toNat_min, UInt32.toNat_ofNat_of_lt' h]

/-- The position that a tool is told is the one computed on words. -/
theorem TypeError.position_eq (h : source.utf8ByteSize < UInt32.size - 1) (e : TypeError)
    (file : String) :
    (LineIndex.ofSource source).position (min e.span.start (UInt32.ofNat source.utf8ByteSize)) =
      .ok (e.diagnostic source file).position := by
  have hoffset := toNat_min_ofNat (by omega : source.utf8ByteSize < UInt32.size) e.span.start
  have hlt : (min e.span.start (UInt32.ofNat source.utf8ByteSize)).toNat < UInt32.size - 1 := by
    omega
  rw [LineIndex.position_eq_locate source hlt, hoffset]
  rfl

/-! ## 2. For a tool -/

/-- **What a tool gets is one line, and all of it is read back.**  The text has no control
character.  It is an object with these members in this order, the advice only if there is some; the
span is as it is, and the position, two words, is that of its start or of the end of the source. -/
theorem TypeError.line_reads_back (e : TypeError) (source file : String)
    (h : source.utf8ByteSize < UInt32.size - 1) :
    ∃ text place,
      e.render source file .line = .line text ∧
      Json.Printable text.toList ∧
      (LineIndex.ofSource source).position (min e.span.start (UInt32.ofNat source.utf8ByteSize)) =
        .ok place ∧
      place.line < UInt32.size ∧ place.column < UInt32.size ∧
      Json.read? text = some (.obj ([
        ("code", .str e.fault.code),
        ("severity", .str "error"),
        ("message", .str e.message),
        ("file", .str file),
        ("spans", .arr [.obj [
          ("start", .num e.span.start.toNat),
          ("end", .num e.span.stop.toNat),
          ("line", .num place.line),
          ("col", .num place.column),
          ("label", .str e.fault.label)]])] ++
        e.fault.advice?.elim [] fun help => [("help", .str help)])) := by
  obtain ⟨-, hline, hcolumn⟩ := LineIndex.position_eq_ok_iff.mp (e.position_eq h file)
  refine ⟨(e.diagnostic source file).line, (e.diagnostic source file).position, rfl, ?_,
    e.position_eq h file, hline, hcolumn, ?_⟩
  · exact (Json.reads_text _).printable (List.forall_mem_nil _)
  · have hhelp : (e.fault.advice?.map fun help => ("help", Json.str help)).toList =
        e.fault.advice?.elim [] fun help => [("help", .str help)] := by
      cases e.fault.advice? <;> rfl
    rw [Diagnostic.line, Json.read?_text, ← hhelp]
    rfl

/-- Quotes and newlines in a name and in the name of a file come back. -/
theorem TypeError.line_reads_back_quoted : ∃ text,
    TypeError.render ⟨.relinquished "a\"b\n", ⟨4, 90⟩⟩ "é\nf(move x)" "c:\\\"p\"" .line =
      .line text ∧
    Json.Printable text.toList ∧
    Json.read? text = some (.obj [
      ("code", .str "E0007"),
      ("severity", .str "error"),
      ("message", .str "`a\"b\n` is relinquished more than once in the same call"),
      ("file", .str "c:\\\"p\""),
      ("spans", .arr [.obj [
        ("start", .num 4), ("end", .num 90), ("line", .num 2), ("col", .num 2),
        ("label", .str "`a\"b\n` was already moved or swapped in this call")]]),
      ("help", .str "a variable can be moved or swapped at most once per call")]) := by
  obtain ⟨text, place, hrender, hprintable, hplace, -, -, hread⟩ :=
    TypeError.line_reads_back ⟨.relinquished "a\"b\n", ⟨4, 90⟩⟩ "é\nf(move x)" "c:\\\"p\""
      (by decide)
  obtain rfl : (⟨2, 2⟩ : Position) = place := Except.ok.inj (Eq.trans (by decide) hplace)
  exact ⟨text, hrender, hprintable, hread⟩

/-! ## 3. For a person -/

/-- **Both are pointed at the same place.**  The start that is reported, the span's or the end of
the source, is between `before` and `after`.  A person is told the line that a tool is told, and a
column of characters where a tool is told one of bytes: one more than stand before it on its line,
which is no more than the tool's, and as much exactly if all of them are ASCII.

It is different where nothing is after and `before` ends in a newline.  A tool is told the start of
a further line, past the last one, and a person the end of the last one, past its newline. -/
theorem TypeError.renderings_agree (e : TypeError) (source file : String) (coloured : Bool)
    (before after : List Char) (hsize : source.utf8ByteSize < UInt32.size - 1)
    (hsource : source.toList = before ++ after)
    (hstart : utf8Len before = min e.span.start.toNat source.utf8ByteSize) :
    ∃ person tool : Position,
      (e.report source file coloured).location = s!"{file}:{person.line}:{person.column}" ∧
      (e.diagnostic source file).position = tool ∧
      (LineIndex.ofSource source).position (min e.span.start (UInt32.ofNat source.utf8ByteSize)) =
        .ok tool ∧
      ((after = [] → before.getLast? ≠ some '\n') →
        person.line = tool.line ∧
        person.column = (lineHead before).length + 1 ∧
        person.column ≤ tool.column ∧
        (person.column = tool.column ↔ ∀ c ∈ lineHead before, IsAscii c)) ∧
      (after = [] → before.getLast? = some '\n' →
        tool = ⟨(sourceLines source.toList).length + 1, 1⟩ ∧
        ∃ last, (sourceLines source.toList).getLast? = some last ∧
          person = ⟨(sourceLines source.toList).length, last.length + 1⟩) := by
  have htool : (e.diagnostic source file).position =
      ⟨before.count '\n' + 1, utf8Len (lineHead before) + 1⟩ := by
    rw [← LineIndex.locate_append hsource, hstart]
    rfl
  have hposition := e.position_eq hsize file
  rw [htool] at hposition
  refine ⟨Position.ofOffset source (utf8Len before), _, ?_, htool, hposition, ?_, ?_⟩
  · rw [TypeError.report, Span.clamp_start, ← hstart]
  · intro hend
    have hle := length_le_utf8Len (lineHead before)
    rw [Position.ofOffset_append hsource hend, ← length_eq_utf8Len_iff]
    refine ⟨rfl, rfl, ?_, ?_⟩
    · exact Nat.succ_le_succ hle
    · exact Nat.succ_inj
  · rintro rfl hnewline
    obtain ⟨front, rfl⟩ : ∃ front, before = front ++ ['\n'] := List.getLast?_eq_some_iff.mp hnewline
    rw [List.append_nil] at hsource
    obtain ⟨last, hlast, hperson⟩ := Position.ofOffset_of_newline hsource
    refine ⟨?_, last, hlast, ?_⟩
    · rw [hsource, length_sourceLines_newline, lineHead_newline]
      rfl
    · rw [← hsource, String.utf8Len_toList, hperson]

/-- After a character of two bytes a tool is a column ahead. -/
theorem TypeError.renderings_agree_two_bytes :
    ∃ person tool : Position,
      (TypeError.report ⟨.misplacedSelf, ⟨5, 9⟩⟩ "é = this" "a.p" true).location =
        s!"a.p:{person.line}:{person.column}" ∧
      (TypeError.diagnostic ⟨.misplacedSelf, ⟨5, 9⟩⟩ "é = this" "a.p").position = tool ∧
      person = ⟨1, 5⟩ ∧ tool = ⟨1, 6⟩ := by
  obtain ⟨person, tool, hreport, hdiagnostic, -, hagree, -⟩ :=
    TypeError.renderings_agree ⟨.misplacedSelf, ⟨5, 9⟩⟩ "é = this" "a.p" true ['é', ' ', '=', ' ']
      ['t', 'h', 'i', 's'] (by decide) (by decide) (by decide)
  obtain ⟨hline, hcolumn, -, -⟩ := hagree (by decide)
  have htool : tool = ⟨1, 6⟩ := hdiagnostic.symm.trans (by decide)
  rw [htool] at hline
  have hhead : (lineHead ['é', ' ', '=', ' ']).length + 1 = 5 := by decide
  have hperson : person = ⟨1, 5⟩ := by
    obtain ⟨line, column⟩ := person
    simp only at hline hcolumn
    rw [hline, hcolumn, hhead]
  exact ⟨person, tool, hreport, hdiagnostic, hperson, htool⟩

end MachineTyping
