import Mathlib.Data.List.Permutation
import DataExpr.Proofs.Evaluation
import DataExpr.Proofs.Findings.Items
import DataExpr.Proofs.Regex.Replace
import DataExpr.Regex.Reader

/-!
# Texts with all matches of a regex replaced

The edit of all matches of a global regex, each by the same text, always succeeds on a text and gives a
text (`Pattern.editAll_matches`).  It is the text with new text in the place of every match that the
regex has in it, and all else kept, if the matches are stable: each of them is found again when those
behind it have been replaced.  So it is for a regex that has a width, whatever the texts are.

In general it is not so.  The new text in the place of a match may make the match before it longer, and
then it is replaced together with that match (`Pattern.editAll_matches_joined`).
-/

namespace DataExpr

variable {cells : Cells} {s : Session} {r : RegexPattern}

namespace Matcher

theorem regex_apply (hglobal : r.isGlobal = true) (text : String) :
    regex r (.str text) cells s =
      (.ofList (pieces text.toList 0 text.toList (r.regex.spans text.toList)), s) := by
  show (Findings.ofList (pieces text.toList 0 text.toList (if r.isGlobal then _ else _)), s) = _
  rw [hglobal, if_pos rfl]

theorem length_pieces (chars : List Char) (index : Nat) (rest : List Char)
    (spans : List (Nat × Nat)) : (pieces chars index rest spans).length = spans.length := by
  induction spans generalizing index rest with
  | nil => rfl
  | cons span spans ih => rw [pieces, List.length_cons, List.length_cons, ih]

/-- Each piece is replaced where its span is, whatever its characters are. -/
theorem getElem?_pieces {chars : List Char} {n : Nat} {span : Nat × Nat} {spans : List (Nat × Nat)}
    (h : spans[n]? = some span) (index : Nat) (rest : List Char) :
    ∃ found, (pieces chars index rest spans)[n]? = some (piece chars span found) := by
  induction spans generalizing n index rest with
  | nil => cases h
  | cons first spans ih =>
    cases n with
    | zero =>
      obtain rfl := Option.some.inj h
      exact ⟨_, rfl⟩
    | succ n => exact ih h _ _

/-- The joint edit of the matches of a global regex is a matter of the characters alone. -/
theorem editJointly_regex (hglobal : r.isGlobal = true) (new : String) (n : Nat)
    (text : List Char) :
    editJointly (regex r) (fun _ _ => return .str new) n (.str (String.ofList text)) cells s =
      (.ok (.str (String.ofList (r.regex.replaceJointly new.toList n text))), s) := by
  induction n generalizing text with
  | zero => rfl
  | succ n ih =>
    have hnth : ((regex r (.str (String.ofList text)) cells s).1.nth n cells
        (regex r (.str (String.ofList text)) cells s).2) =
          (.ok (pieces text 0 text (r.regex.spans text))[n]?, s) := by
      rw [regex_apply hglobal, String.toList_ofList, Findings.nth_ofList]
    rw [Regex.replaceJointly]
    cases hspan : (r.regex.spans text)[n]? with
    | none =>
      have hnone : (pieces text 0 text (r.regex.spans text))[n]? = none := by
        rw [List.getElem?_eq_none_iff] at hspan ⊢
        rwa [length_pieces]
      rw [hnone] at hnth
      rw [editJointly_succ_apply_none hnth]
      exact ih text
    | some span =>
      obtain ⟨found, hfound⟩ : ∃ found, (pieces text 0 text _)[n]? = some (piece text span found) :=
        getElem?_pieces hspan 0 text
      rw [hfound] at hnth
      rw [editJointly_succ_apply hnth]
      exact ih _

end Matcher

namespace Pattern

/-- The edit of all matches of a global regex makes as many replacements as there are matches. -/
theorem editAll_regex (hglobal : r.isGlobal = true) (text new : String) :
    (regex r).editAll (.str text) (fun _ => return .str new) cells s =
      (.ok (.str (String.ofList (r.regex.replaceJointly new.toList
        (r.regex.spans text.toList).length text.toList))), s) := by
  have hcollect : ((regex r).matcher (.str text) cells s).1.collect cells
      ((regex r).matcher (.str text) cells s).2 =
        (.ok (Matcher.pieces text.toList 0 text.toList (r.regex.spans text.toList)), s) := by
    show (Matcher.regex r (.str text) cells s).1.collect cells
      (Matcher.regex r (.str text) cells s).2 = _
    rw [Matcher.regex_apply hglobal, Findings.collect_ofList]
  rw [editAll_apply hcollect, Matcher.length_pieces]
  have hedit : Matcher.editJointly (Matcher.regex r) (fun _ _ => return .str new)
      (r.regex.spans text.toList).length (.str (String.ofList text.toList)) cells s = _ :=
    Matcher.editJointly_regex hglobal new _ _
  rw [String.ofList_toList] at hedit
  exact hedit

/-- Editing all matches of a global regex in a text, each by the same new text, gives a text.  If the
matches are stable, it is the text with the new text in the place of every match and all else as it
was.  The matches of a regex that has a width are stable in all texts for all new ones. -/
theorem editAll_matches (r : RegexPattern) (hglobal : r.isGlobal = true) (text new : String) :
    ∃ result : String,
      (∀ cells s, (regex r).editAll (.str text) (fun _ => return .str new) cells s =
        (.ok (.str result), s)) ∧
      (r.regex.Stable text.toList new.toList →
        result = String.ofList
          (Regex.replaceSpans new.toList 0 text.toList (r.regex.spans text.toList))) ∧
      (r.regex.width?.isSome → r.regex.Stable text.toList new.toList) := by
  refine ⟨_, fun cells s => editAll_regex hglobal text new, fun hstable => ?_, fun hwidth => ?_⟩
  · have hall := Regex.replaceJointly_of_stable hstable (Nat.le_refl _)
    rw [List.drop_length] at hall
    exact congrArg String.ofList hall
  · obtain ⟨width, hwidth⟩ := Option.isSome_iff_exists.1 hwidth
    exact Regex.stable_of_width hwidth _ _

/-- Numbers in a text, hidden: a regex without a width whose matches are stable there. -/
theorem editAll_matches_numbers :
    let r : RegexPattern := ⟨"[0-9]+", .repeated 1 none true (.one (.ofRanges [('0', '9')])), true⟩
    Regex.read? r.source = some r.regex ∧ r.isGlobal = true ∧
      ∀ cells s, (regex r).editAll (.str "12-3") (fun _ => return .str "N") cells s =
        (.ok (.str "N-N"), s) := by
  intro r
  obtain ⟨result, hresult, hstable, -⟩ := editAll_matches r rfl "12-3" "N"
  have hspans : r.regex.spans "12-3".toList = [(0, 2), (3, 4)] := by cbv
  have hall : r.regex.Stable "12-3".toList "N".toList := by
    intro k hk
    rw [hspans] at hk ⊢
    obtain rfl | rfl : k = 0 ∨ k = 1 := by
      simp only [List.length_cons, List.length_nil] at hk
      omega
    · cbv
    · cbv
  have hvalue : result = "N-N" := (hstable hall).trans (by cbv)
  exact ⟨by decide +kernel, rfl, fun cells s => hvalue ▸ hresult cells s⟩

/-- A match that is joined by the new text behind it is replaced together with that: each of the two
letters is a match, and only one new text is left of both. -/
theorem editAll_matches_joined :
    let r : RegexPattern :=
      ⟨"ab*", .seq (.one (.single 'a')) (.repeated 0 none true (.one (.single 'b'))), true⟩
    Regex.read? r.source = some r.regex ∧ r.isGlobal = true ∧
      String.ofList (Regex.replaceSpans "b".toList 0 "aa".toList (r.regex.spans "aa".toList)) =
        "bb" ∧
      ∀ cells s, (regex r).editAll (.str "aa") (fun _ => return .str "b") cells s =
        (.ok (.str "b"), s) := by
  intro r
  have hvalue : String.ofList (r.regex.replaceJointly "b".toList
      (r.regex.spans "aa".toList).length "aa".toList) = "b" := by cbv
  refine ⟨by decide +kernel, rfl, by cbv, fun cells s => ?_⟩
  rw [editAll_regex rfl "aa" "b", hvalue]

end Pattern

end DataExpr
