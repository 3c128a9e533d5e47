import DataExpr.Proofs.Token.Spells

/-!
# Quoted texts as string literals

`Text.quoted` shows a text to people, and it knows escapes that a string literal does not.  For a
plain text (`Text.isPlain`), which has printable ASCII characters, tabs and line breaks only, it uses
none of them, so the quoted text is a string literal of the text (`Token.spells_quoted`).  Identifiers
are plain, and so is an integer with its sign.
-/

namespace DataExpr

namespace Text

/-! ### Plain texts -/

/-- Whether the character is printable ASCII, a tab or a line break. -/
def isPlainChar (c : Char) : Bool :=
  (decide (0x20 ≤ c.toNat) && decide (c.toNat ≤ 0x7e)) || c == '\t' || c == '\n'

/-- Whether the text has printable ASCII characters, tabs and line breaks only. -/
def isPlain (s : String) : Bool := s.toList.all isPlainChar

theorem isPlainChar_iff {c : Char} :
    isPlainChar c = true ↔ 0x20 ≤ c.toNat ∧ c.toNat ≤ 0x7e ∨ c = '\t' ∨ c = '\n' := by
  simp only [isPlainChar, Bool.or_eq_true, Bool.and_eq_true, decide_eq_true_eq, beq_iff_eq, or_assoc]

theorem isPlainChar_of_range {low high : Nat} {c : Char} (h : low ≤ c.toNat ∧ c.toNat ≤ high)
    (hlow : 0x20 ≤ low) (hhigh : high ≤ 0x7e) : isPlainChar c = true :=
  isPlainChar_iff.2 (.inl ⟨Nat.le_trans hlow h.1, Nat.le_trans h.2 hhigh⟩)

theorem isPlainChar_of_isIdentPart {c : Char} (h : isIdentPart c = true) :
    isPlainChar c = true := by
  change ((c.isUpper || c.isLower || c.isDigit) || c == '_' || c == '$') = true at h
  simp only [Bool.or_eq_true, beq_iff_eq] at h
  rcases h with (((hupper | hlower) | hdigit) | rfl) | rfl
  · have hrange : 'A'.toNat ≤ c.toNat ∧ c.toNat ≤ 'Z'.toNat := of_decide_eq_true hupper
    exact isPlainChar_of_range hrange (by decide) (by decide)
  · have hboth := Bool.and_eq_true_iff.1 hlower
    have hrange : 'a'.toNat ≤ c.toNat ∧ c.toNat ≤ 'z'.toNat :=
      ⟨of_decide_eq_true hboth.1, of_decide_eq_true hboth.2⟩
    exact isPlainChar_of_range hrange (by decide) (by decide)
  · exact isPlainChar_of_range (Char.isDigit_iff_toNat.1 hdigit) (by decide) (by decide)
  · decide
  · decide

theorem isIdentPart_of_isIdentStart {c : Char} (h : isIdentStart c = true) :
    isIdentPart c = true := by
  simp only [isIdentStart, isIdentPart, Char.isAlphanum, Bool.or_eq_true] at h ⊢
  tauto

theorem isPlain_of_isIdentifier {name : String} (h : isIdentifier name = true) :
    isPlain name = true := by
  rw [isIdentifier] at h
  split at h
  · exact absurd h Bool.false_ne_true
  · rename_i c cs hname
    rw [Bool.and_eq_true, List.all_eq_true] at h
    rw [isPlain, hname, List.all_cons, Bool.and_eq_true, List.all_eq_true]
    exact ⟨isPlainChar_of_isIdentPart (isIdentPart_of_isIdentStart h.1),
      fun d hd => isPlainChar_of_isIdentPart (h.2 d hd)⟩

theorem isPlainChar_of_mem_digits {n : Nat} {c : Char} (hc : c ∈ Nat.toDigits 10 n) :
    isPlainChar c = true := by
  have hdigit : c.isDigit = true := Token.isDigit_of_mem_digits c hc
  refine isPlainChar_of_isIdentPart ?_
  simp only [isIdentPart, Char.isAlphanum, hdigit, Bool.or_true, Bool.true_or]

theorem isPlain_int (n : Int) : isPlain (toString n) = true := by
  rw [isPlain, Int.toString_eq_repr, Int.repr_eq_if, List.all_eq_true]
  split
  · rw [Nat.toList_repr]
    exact fun c hc => isPlainChar_of_mem_digits hc
  · rw [String.toList_append, Nat.toList_repr]
    exact List.forall_mem_cons.2 ⟨by decide, fun c hc => isPlainChar_of_mem_digits hc⟩

end Text

/-! ### Quoted texts -/

namespace Token

/-- A plain character is quoted as a string literal has it. -/
theorem writes_quotedChar {c : Char} (h : Text.isPlainChar c = true) :
    Writes c (Text.quotedChar c) := by
  rw [Text.isPlainChar_iff] at h
  by_cases htab : c = '\t'
  · subst htab
    exact .escaped (d := 't') (by decide) rfl
  by_cases hbreak : c = '\n'
  · subst hbreak
    exact .escaped (d := 'n') (by decide) rfl
  by_cases hback : c = '\\'
  · subst hback
    exact .escaped (d := '\\') (by decide) rfl
  by_cases hquote : c = '"'
  · subst hquote
    exact .escaped (d := '"') (by decide) rfl
  -- No other plain character has an escape.
  obtain ⟨hlow, hhigh⟩ : 0x20 ≤ c.toNat ∧ c.toNat ≤ 0x7e := by
    rcases h with h | h | h
    · exact h
    · exact absurd h htab
    · exact absurd h hbreak
  have hnull : c ≠ '\x00' := by
    rintro rfl
    exact absurd hlow (by decide)
  have hreturn : c ≠ '\r' := by
    rintro rfl
    exact absurd hlow (by decide)
  have hshape : Text.isShapeless c = false :=
    Text.isShapeless_of_printable_ascii hlow (Nat.lt_succ_of_le hhigh)
  have hitem : Text.quotedChar c = [c] := by
    simp [Text.quotedChar, hnull, htab, hreturn, hbreak, hback, hquote, hshape]
  rw [hitem]
  exact .plain hquote hback

/-- A plain text in quotes is read as a string. -/
theorem spells_quoted {s : String} (h : Text.isPlain s = true) :
    Spells (Text.quoted s) [.str s] :=
  spells_quotes fun c hc => writes_quotedChar (List.all_eq_true.1 h c hc)

end Token

end DataExpr
