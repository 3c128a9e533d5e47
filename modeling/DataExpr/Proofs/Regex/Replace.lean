import DataExpr.Proofs.Regex.Width

/-!
# Replacing all matches in a text

`Regex.replaceSpans` replaces the spans of a text by new text at once.  `Regex.replaceJointly` replaces
the matches of a regex one after the other, the last of them first, and looks for the matches anew
after every replacement.  Both give the same if every match is found again after those behind it have
been replaced (`Regex.Stable`, `replaceJointly_of_stable`).  That is so for every text and every
replacement if the regex has a width (`stable_of_width`); in general new text can make the match before
it longer.
-/

namespace DataExpr.Regex

variable {r : Regex} {new rest text : List Char} {spans : List (Nat × Nat)}

/-! ### The two ways to replace -/

/-- The text with new characters in the place of every span, where `rest` is the text from the index
on. -/
def replaceSpans (new : List Char) (index : Nat) (rest : List Char) :
    List (Nat × Nat) → List Char
  | [] => rest
  | span :: spans =>
    rest.take (span.1 - index) ++ new ++
      replaceSpans new span.2 (rest.drop (span.2 - index)) spans

/-- The text after its first `count` matches have been replaced, the last of them first, where the
matches are those of the text as it is by then. -/
def replaceJointly (r : Regex) (new : List Char) : (count : Nat) → List Char → List Char
  | 0, text => text
  | n + 1, text =>
    match (r.spans text)[n]? with
    | none => replaceJointly r new n text
    | some span => replaceJointly r new n (text.take span.1 ++ new ++ text.drop span.2)

/-- Whether every match of the text is found again in its place when all matches behind it have been
replaced. -/
def Stable (r : Regex) (text new : List Char) : Prop :=
  ∀ k < (r.spans text).length,
    (r.spans (replaceSpans new 0 text ((r.spans text).drop (k + 1))))[k]? = (r.spans text)[k]?

/-! ### Spans in order -/

theorem InOrder.of_getElem? {lo k : Nat} {span : Nat × Nat} (h : InOrder lo spans)
    (hk : spans[k]? = some span) : span.1 ≤ span.2 ∧ InOrder span.2 (spans.drop (k + 1)) := by
  induction spans generalizing lo k with
  | nil => cases hk
  | cons first spans ih =>
    cases k with
    | zero =>
      obtain rfl := Option.some.inj hk
      exact h.2
    | succ k => exact ih h.2.2 hk

/-- The text before the first span is kept. -/
theorem replaceSpans_eq_append {index lo : Nat} (h : InOrder lo spans) (hlo : index ≤ lo) :
    replaceSpans new index rest spans =
      rest.take (lo - index) ++ replaceSpans new lo (rest.drop (lo - index)) spans := by
  cases spans with
  | nil => exact (List.take_append_drop _ _).symm
  | cons span spans =>
    obtain ⟨hfirst, hlast, -⟩ := h
    have hgap : span.1 - index = (lo - index) + (span.1 - lo) := by omega
    have hend : (lo - index) + (span.2 - lo) = span.2 - index := by omega
    rw [replaceSpans, replaceSpans, List.drop_drop, hend, hgap, List.take_add]
    simp only [List.append_assoc]

/-! ### Stable matches -/

section

variable {k : Nat} {span : Nat × Nat} (hk : (r.spans text)[k]? = some span)

include hk

/-- The text up to the end of a match is kept when the matches behind it are replaced. -/
theorem replaceSpans_drop :
    replaceSpans new 0 text ((r.spans text).drop (k + 1)) =
      text.take span.2 ++
        replaceSpans new span.2 (text.drop span.2) ((r.spans text).drop (k + 1)) :=
  replaceSpans_eq_append ((r.spans_inOrder text).of_getElem? hk).2 (Nat.zero_le _)

/-- The replacement of a match after those behind it. -/
theorem replace_replaceSpans {later : List Char}
    (hlater : later = replaceSpans new 0 text ((r.spans text).drop (k + 1))) :
    later.take span.1 ++ new ++ later.drop span.2 =
      replaceSpans new 0 text ((r.spans text).drop k) := by
  have hstop : span.2 ≤ text.length := stop_le_of_mem_spans (List.mem_of_getElem? hk)
  have hspan := ((r.spans_inOrder text).of_getElem? hk).1
  rw [replaceSpans_drop hk] at hlater
  have htake : later.take span.1 = text.take span.1 := by
    rw [hlater, List.take_append_of_le_length (by rw [List.length_take]; omega), List.take_take,
      Nat.min_eq_left hspan]
  have hdrop : later.drop span.2 =
      replaceSpans new span.2 (text.drop span.2) ((r.spans text).drop (k + 1)) := by
    rw [hlater, List.drop_left' (by rw [List.length_take]; omega)]
  obtain ⟨hlt, rfl⟩ := List.getElem?_eq_some_iff.1 hk
  rw [htake, hdrop, List.drop_eq_getElem_cons hlt]
  rfl

end

theorem replaceJointly_of_stable (h : r.Stable text new) {n : Nat}
    (hn : n ≤ (r.spans text).length) :
    r.replaceJointly new n (replaceSpans new 0 text ((r.spans text).drop n)) =
      replaceSpans new 0 text (r.spans text) := by
  induction n with
  | zero => rfl
  | succ n ih =>
    have hspan : (r.spans text)[n]? = some (r.spans text)[n] := List.getElem?_eq_getElem hn
    rw [replaceJointly, h n hn, hspan]
    simp only []
    rw [replace_replaceSpans hspan rfl]
    exact ih (Nat.le_of_succ_le hn)

/-- The matches of a regex that has a width are found again whatever those behind them are replaced
by. -/
theorem stable_of_width {width : Nat} (h : r.width? = some width) (text new : List Char) :
    r.Stable text new := by
  intro k hk
  obtain ⟨span, hfound⟩ : ∃ span, (r.spans text)[k]? = some span :=
    ⟨_, List.getElem?_eq_getElem hk⟩
  have hstop : span.2 ≤ text.length := stop_le_of_mem_spans (List.mem_of_getElem? hfound)
  have hsplit : (r.spans (text.take span.2 ++ text.drop span.2))[k]? = some span := by
    rw [List.take_append_drop, hfound]
  rw [replaceSpans_drop hfound, hfound]
  refine spans_append h hsplit ?_ _
  rw [List.length_take, Nat.min_eq_left hstop]

end DataExpr.Regex
