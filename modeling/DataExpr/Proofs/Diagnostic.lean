import DataExpr.Diagnostic

/-!
# The characters that a diagnostic points at

A span counts bytes and a range counts characters.  Between two positions of a text, which never are in
the middle of a character, the range of a span has exactly the characters that the bytes of the span
spell (`CharRange.chars_ofSpan`).  Any other span, whatever its offsets are, still gives a range that
is not empty and stays inside the text.

The end of a range is what comes of bringing an offset between two bounds, and bringing a number
between bounds that are the wrong way round has no outcome (`Text.clamp?`).  The bounds of the end
never are (`CharRange.clamp?_ofSpan`).
-/

namespace DataExpr

namespace Text

/-! ### Bytes and characters -/

/-- The bytes of a text are those of its characters. -/
theorem utf8Length_toList (s : String) : utf8Length s.toList = s.utf8ByteSize := by
  suffices h : ∀ cs : List Char, utf8Length cs = (String.ofList cs).utf8ByteSize by
    rw [h, String.ofList_toList]
  intro cs
  induction cs with
  | nil => rfl
  | cons c cs ih =>
    rw [utf8Length_cons, ih, String.ofList_cons, String.utf8ByteSize_append,
      String.utf8ByteSize_singleton]

/-- Two positions of a text have what is between them after what is before the first. -/
theorem exists_between {source : String} {start stop : source.Pos} (h : start < stop) :
    ∃ before after : List Char,
      source.toList = before ++ (source.extract start stop).toList ++ after ∧
      (source.extract start stop).toList ≠ [] ∧
      start.offset.byteIdx = utf8Length before ∧
      stop.offset.byteIdx = utf8Length (before ++ (source.extract start stop).toList) := by
  have hle : start ≤ stop := String.Pos.le_of_lt h
  obtain ⟨before, after, hstart, hstop⟩ := String.copy_slice_eq_iff_splits.1
    ⟨hle, (String.extract_eq_copy_slice start stop hle).symm⟩
  refine ⟨before.toList, after.toList, ?_, ?_, ?_, ?_⟩
  · rw [← String.toList_append, ← String.toList_append, ← hstop.eq_append]
  · intro hempty
    rw [String.toList_eq_nil_iff] at hempty
    rw [hempty, String.append_empty] at hstop
    rw [hempty, String.empty_append] at hstart
    exact String.Pos.ne_of_lt h (hstart.pos_eq hstop)
  · rw [hstart.offset_eq_rawEndPos, utf8Length_toList]
    rfl
  · rw [hstop.offset_eq_rawEndPos, ← String.toList_append, utf8Length_toList]
    rfl

/-- The number nearest to `n` between two bounds.  There is none if the lower bound is above the other. -/
def clamp? (n lo hi : Nat) : Option Nat :=
  if lo ≤ hi then some (if n < lo then lo else if hi < n then hi else n) else none

end Text

namespace CharRange

open Text (charsBefore utf8Length clamp?)

/-- The characters of a text that the range holds. -/
def chars (range : CharRange) (cs : List Char) : List Char := (cs.take range.stop).drop range.start

/-- The span of a piece of a text gives the range of its characters. -/
theorem chars_ofSpan {before piece after : List Char} (h : piece ≠ []) :
    (ofSpan (before ++ piece ++ after)
      ⟨utf8Length before, utf8Length (before ++ piece)⟩).chars (before ++ piece ++ after) = piece := by
  have hstart : charsBefore (before ++ piece ++ after) (utf8Length before) = before.length := by
    rw [List.append_assoc]
    exact Text.charsBefore_utf8Length before (piece ++ after)
  have hstop := Text.charsBefore_utf8Length (before ++ piece) after
  have hpiece := List.length_pos_iff.2 h
  have hlength : (before ++ piece ++ after).length = before.length + piece.length + after.length := by
    rw [List.length_append, List.length_append]
  rw [List.length_append] at hstop
  -- Neither offset has to be brought into the text.
  have hrangeStart : min before.length (before.length + piece.length + after.length - 1) =
      before.length := by omega
  have hrangeStop : max (before.length + 1) (min (before.length + piece.length)
      (max (before.length + piece.length + after.length) (before.length + 1))) =
        before.length + piece.length := by omega
  simp only [chars, ofSpan, hstart, hstop, hlength, hrangeStart, hrangeStop]
  rw [← List.length_append, List.take_left' rfl, List.drop_left' rfl]

/-- The end of a range is an offset brought between two bounds that are the right way round. -/
theorem clamp?_ofSpan (cs : List Char) (span : Span) :
    clamp? (charsBefore cs span.stop) ((ofSpan cs span).start + 1)
      (max cs.length ((ofSpan cs span).start + 1)) = some (ofSpan cs span).stop := by
  rw [clamp?, if_pos (Nat.le_max_right _ _)]
  simp only [ofSpan, Option.some.injEq]
  grind

/-- The range of the bytes between two positions of a text has the characters between them.  For every
span whatever, the end of its range is found between bounds that are the right way round, and the range
is not empty and stays inside a text that has characters. -/
theorem ofSpan_exact (source : String) :
    (∀ start stop : source.Pos, start < stop →
      let range := ofSpan source.toList ⟨start.offset.byteIdx, stop.offset.byteIdx⟩
      String.ofList (range.chars source.toList) = source.extract start stop) ∧
    ∀ span : Span,
      let range := ofSpan source.toList span
      clamp? (charsBefore source.toList span.stop) (range.start + 1)
        (max source.toList.length (range.start + 1)) = some range.stop ∧
      range.start < range.stop ∧ (source ≠ "" → range.stop ≤ source.toList.length) := by
  refine ⟨fun start stop h => ?_, fun span => ⟨clamp?_ofSpan _ _, start_lt_stop _, fun h => ?_⟩⟩
  · obtain ⟨before, after, hsource, hpiece, hstart, hstop⟩ := Text.exists_between h
    simp only [hstart, hstop, hsource, chars_ofSpan hpiece, String.ofList_toList]
  · exact stop_le_length (fun hempty => h (String.toList_eq_nil_iff.1 hempty)) span

/-- A placeholder after a character of two bytes, and a span of which both ends are past the text. -/
theorem ofSpan_exact_accented :
    let source := "é <0>"
    let start : source.Pos := source.pos ⟨3⟩ (by decide)
    let stop : source.Pos := source.pos ⟨6⟩ (by decide)
    start < stop ∧ source.extract start stop = "<0>" ∧
      String.ofList ((ofSpan source.toList ⟨3, 6⟩).chars source.toList) = source.extract start stop ∧
      source ≠ "" ∧ (ofSpan source.toList ⟨9, 7⟩).stop ≤ source.toList.length := by
  intro source start stop
  have hlt : start < stop := by decide
  have hsource : source ≠ "" := by decide
  obtain ⟨hpiece, hrange⟩ := ofSpan_exact source
  exact ⟨hlt, by decide, hpiece start stop hlt, hsource, (hrange ⟨9, 7⟩).2.2 hsource⟩

end CharRange

end DataExpr
