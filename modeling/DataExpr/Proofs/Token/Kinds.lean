import DataExpr.Proofs.Lists
import DataExpr.Token.Lexer

/-!
# The kinds of the tokens of a text

`Token.kinds` is what a scan finds when the spans are left out, so that it no longer depends on where
the text begins.  It is read off the front of a text one lexeme at a time: a blank adds nothing
(`kinds_blank`), a punctuation mark is a token by itself (`kinds_mark`), and a run of dots or stars is
one token together with all that follows it of its sort (`kinds_dots`, `kinds_stars`).

Every token of a scan is well formed: a name that it carries is an identifier
(`wellFormed_of_mem_scan`).
-/

namespace DataExpr

/-! ### Names are identifiers -/

/-- Whether the name that the kind carries, if any, is an identifier. -/
def TokenKind.wellFormed : TokenKind → Bool
  | .ident name => Text.isIdentifier name
  | _ => true

namespace Lexeme

theorem wellFormed_integer (n : Int) : (integer n).wellFormed = true := by
  unfold integer
  split <;> rfl

theorem wellFormed_reference (n : Nat) : (reference n).wellFormed = true := by
  unfold reference
  split <;> rfl

theorem wellFormed_word {c : Char} {cs : List Char} (hc : Text.isIdentStart c = true)
    (hcs : cs.all Text.isIdentPart = true) : (word (c :: cs)).wellFormed = true := by
  unfold word
  split
  · rfl
  · show Text.isIdentifier (String.ofList (c :: cs)) = true
    rw [Text.isIdentifier, String.toList_ofList]
    exact Bool.and_eq_true_iff.2 ⟨hc, hcs⟩

theorem wellFormed_mark {c : Char} {kind : TokenKind} (h : mark c = some kind) :
    kind.wellFormed = true := by
  unfold mark at h
  split at h <;> cases h <;> rfl

theorem wellFormed_string (cs : List Char) : (string cs).kind.wellFormed = true := by
  unfold string
  split <;> rfl

theorem wellFormed_angled (cs : List Char) : (angled cs).kind.wellFormed = true := by
  unfold angled
  split
  · exact wellFormed_reference _
  · rfl

theorem wellFormed_negative (cs : List Char) : (negative cs).kind.wellFormed = true := by
  unfold negative
  split
  · rfl
  · exact wellFormed_integer _

/-- The longest token at the front of a text is well formed. -/
theorem wellFormed_longest (c : Char) (cs : List Char) : (longest c cs).kind.wellFormed = true := by
  unfold longest
  split
  · exact wellFormed_mark ‹_›
  · split
    · rfl
    split
    · rfl
    split
    · exact wellFormed_negative cs
    split
    · exact wellFormed_angled cs
    split
    · exact wellFormed_string cs
    split
    · exact wellFormed_integer _
    split
    · exact wellFormed_word ‹_› List.all_takeWhile
    · rfl

end Lexeme

namespace Token

/-- The names that a scan finds are identifiers. -/
theorem wellFormed_of_mem_scanFrom (offset : Nat) (cs : List Char) {t : Token}
    (ht : t ∈ scanFrom offset cs) : t.kind.wellFormed = true := by
  induction offset, cs using scanFrom.induct with
  | case1 offset =>
    rw [scanFrom, List.mem_singleton] at ht
    rw [ht]
    rfl
  | case2 offset c cs hblank ih =>
    rw [scanFrom, if_pos hblank] at ht
    exact ih ht
  | case3 offset c cs hblank lexeme stop ih =>
    rw [scanFrom, if_neg hblank] at ht
    rcases List.mem_cons.1 ht with rfl | hrest
    · exact Lexeme.wellFormed_longest c cs
    · exact ih hrest

/-- The names in the tokens of a text are identifiers. -/
theorem wellFormed_of_mem_scan (source : String) {t : Token} (ht : t ∈ scan source) :
    t.kind.wellFormed = true :=
  wellFormed_of_mem_scanFrom 0 source.toList ht

/-! ### Kinds -/

/-- The kinds of the tokens of a text. -/
def kinds (cs : List Char) : List TokenKind := (scanFrom 0 cs).map kind

/-- The kinds do not depend on where the text begins. -/
theorem map_kind_scanFrom (offset : Nat) (cs : List Char) :
    (scanFrom offset cs).map kind = kinds cs := by
  -- The induction is on the scan; the offset after a lexeme differs, so both offsets are general.
  suffices h : ∀ other, (scanFrom offset cs).map kind = (scanFrom other cs).map kind from h 0
  induction offset, cs using scanFrom.induct with
  | case1 offset =>
    intro other
    rw [scanFrom, scanFrom]
    rfl
  | case2 offset c cs hblank ih =>
    intro other
    rw [scanFrom, scanFrom, if_pos hblank, if_pos hblank]
    exact ih _
  | case3 offset c cs hblank lexeme stop ih =>
    intro other
    rw [scanFrom, scanFrom, if_neg hblank, if_neg hblank]
    exact congrArg (lexeme.kind :: ·) (ih _)

theorem map_kind_scan (source : String) : (scan source).map kind = kinds source.toList := rfl

@[simp] theorem kinds_nil : kinds [] = [.eof] := by
  rw [kinds, scanFrom]
  rfl

theorem kinds_blank {c : Char} (h : Lexeme.isBlank c = true) (cs : List Char) :
    kinds (c :: cs) = kinds cs := by
  rw [kinds, scanFrom, if_pos h]
  exact map_kind_scanFrom _ cs

theorem kinds_longest {c : Char} (h : Lexeme.isBlank c = false) (cs : List Char) :
    kinds (c :: cs) = (Lexeme.longest c cs).kind :: kinds (Lexeme.longest c cs).rest := by
  -- What is left begins at another offset, which does not matter.
  rw [kinds, scanFrom, if_neg (by rw [h]; exact Bool.false_ne_true), List.map_cons]
  exact congrArg _ (map_kind_scanFrom _ _)

@[simp] theorem kinds_space (cs : List Char) : kinds (' ' :: cs) = kinds cs := kinds_blank rfl cs

theorem kinds_mark {c : Char} {k : TokenKind} (h : Lexeme.mark c = some k) (cs : List Char) :
    kinds (c :: cs) = k :: kinds cs := by
  have hblank : Lexeme.isBlank c = false := by
    unfold Lexeme.mark at h
    split at h <;> first | rfl | cases h
  have hlongest : Lexeme.longest c cs = ⟨k, [c], cs⟩ := by
    rw [Lexeme.longest, h]
  rw [kinds_longest hblank, hlongest]

/-! ### Runs -/

theorem run_append {p : Char → Bool} {cs rest : List Char} (kind : List Char → TokenKind) (c : Char)
    (hcs : ∀ d ∈ cs, p d = true) (hrest : ∀ d ∈ rest.head?, p d = false) :
    Lexeme.run p kind c (cs ++ rest) = ⟨kind (c :: cs), c :: cs, rest⟩ := by
  rw [Lexeme.run, Lists.takeWhile_append hcs hrest, Lists.dropWhile_append hcs hrest]

/-- A run of one character whose runs are tokens is one token if the character does not follow. -/
theorem kinds_replicate {c : Char} {kind : Nat → TokenKind} (hblank : Lexeme.isBlank c = false)
    (hlongest : ∀ cs, Lexeme.longest c cs =
      Lexeme.run (· == c) (fun text => kind text.length) c cs)
    (n : Nat) {rest : List Char} (h : rest.head? ≠ some c) :
    kinds (c :: (List.replicate n c ++ rest)) = kind (n + 1) :: kinds rest := by
  have hcs : ∀ d ∈ List.replicate n c, (d == c) = true := by
    intro d hd
    rw [List.eq_of_mem_replicate hd]
    exact beq_self_eq_true c
  have hrest : ∀ d ∈ rest.head?, (d == c) = false := by
    intro d hd
    exact beq_false_of_ne fun he => h (he ▸ hd)
  rw [kinds_longest hblank, hlongest, run_append _ c hcs hrest, List.length_cons,
    List.length_replicate]

/-- A run of dots is one token if no other dot follows. -/
theorem kinds_dots (n : Nat) {rest : List Char} (h : rest.head? ≠ some '.') :
    kinds ('.' :: (List.replicate n '.' ++ rest)) = .dots (n + 1) :: kinds rest :=
  kinds_replicate rfl (fun _ => rfl) n h

/-- A run of stars is one token if no other star follows. -/
theorem kinds_stars (n : Nat) {rest : List Char} (h : rest.head? ≠ some '*') :
    kinds ('*' :: (List.replicate n '*' ++ rest)) = .stars (n + 1) :: kinds rest :=
  kinds_replicate rfl (fun _ => rfl) n h

end Token

end DataExpr
