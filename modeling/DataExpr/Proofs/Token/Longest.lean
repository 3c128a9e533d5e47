import DataExpr.Proofs.Token.Order

/-!
# The scan loses nothing and takes the longest tokens

The tokens of a text account for all of it (`Token.scan_account`).  Each token covers a piece of the
text that begins with no blank, and outside the pieces there are blanks only (`Token.exists_covering`).
A piece whose token is no error is read by itself as that token (`Token.Alone`), and no longer piece
that begins at the same place is a single token: if it were, the scan would have read on at least to
its end (`Lexeme.longest_prefix`).
-/

namespace DataExpr

namespace Text

variable {cs : List Char}

/-- Only a text without characters takes no bytes. -/
theorem eq_nil_of_utf8Length (h : utf8Length cs = 0) : cs = [] := by
  have hlength := length_le_utf8Length cs
  exact List.length_eq_zero_iff.1 (by omega)

theorem utf8Length_pos (h : cs ≠ []) : 0 < utf8Length cs :=
  Nat.pos_of_ne_zero fun hzero => h (eq_nil_of_utf8Length hzero)

end Text

/-! ### Longer pieces -/

namespace Lexeme

variable {c : Char} {cs rest : List Char} {k : TokenKind}

theorem negative_prefix (h : negative cs = ⟨k, '-' :: cs, []⟩) (hk : k ≠ .error)
    (rest : List Char) : '-' :: cs <+: (negative (cs ++ rest)).text := by
  have hcs : cs.takeWhile Char.isDigit = cs ∧ cs ≠ [] := by
    unfold negative at h
    split at h
    · cases h
      exact absurd rfl hk
    · rename_i d ds hdigits
      have htext : d :: ds = cs := List.tail_eq_of_cons_eq (congrArg Lexeme.text h)
      rw [hdigits, ← htext]
      exact ⟨rfl, List.cons_ne_nil d ds⟩
  have hprefix := Lists.prefix_takeWhile_append hcs.1 rest
  unfold negative
  split
  · rename_i hnone
    rw [hnone, List.prefix_nil] at hprefix
    exact absurd hprefix hcs.2
  · rename_i d ds hdigits
    rw [hdigits] at hprefix
    exact List.prefix_cons_inj '-' |>.2 hprefix

/-- If a whole text is one token, then a token at least as long is read when more follows. -/
theorem longest_prefix (h : longest c cs = ⟨k, c :: cs, []⟩) (hk : k ≠ .error)
    (rest : List Char) : c :: cs <+: (longest c (cs ++ rest)).text := by
  have hreader := reader_longest c
  generalize longest c = read at hreader h ⊢
  cases hreader with
  | mark _ =>
    cases h
    exact List.prefix_refl _
  | @run p kind _ =>
    have htext : cs.takeWhile p = cs := List.tail_eq_of_cons_eq (congrArg Lexeme.text h)
    exact List.prefix_cons_inj c |>.2 (Lists.prefix_takeWhile_append htext rest)
  | negative hc =>
    subst hc
    exact negative_prefix h hk rest
  | angled hc =>
    subst hc
    have htext : (angled (cs ++ rest)).text = '<' :: cs := congrArg Lexeme.text (angled_local h hk)
    exact htext.symm ▸ List.prefix_refl _
  | string hc =>
    subst hc
    have htext : (string (cs ++ rest)).text = '"' :: cs := congrArg Lexeme.text (string_local h hk)
    exact htext.symm ▸ List.prefix_refl _
  | error =>
    cases h
    exact absurd rfl hk

end Lexeme

namespace Token

/-! ### Pieces by themselves -/

/-- Whether the text is one token of the kind and nothing else. -/
def Alone (k : TokenKind) (text : List Char) : Prop :=
  scan (String.ofList text) = [⟨k, ⟨0, Text.utf8Length text⟩⟩,
    ⟨.eof, ⟨Text.utf8Length text, Text.utf8Length text⟩⟩]

variable {c : Char} {cs tail rest : List Char} {k : TokenKind} {offset : Nat}

/-- A text that is one lexeme is one token. -/
theorem alone_of_longest (hblank : Lexeme.isBlank c = false)
    (h : Lexeme.longest c cs = ⟨k, c :: cs, []⟩)
    (hlimit : Text.utf8Length (c :: cs) ≤ Span.limit) : Alone k (c :: cs) := by
  have hlongest : Lexeme.longest c (cs ++ []) = ⟨k, c :: cs, []⟩ := by rwa [List.append_nil]
  have hscan := scanFrom_token hblank hlongest 0
  rw [List.append_nil, Nat.zero_add, scanFrom, Span.ofRange_of_le (Nat.zero_le _) hlimit,
    Span.ofRange_of_le hlimit hlimit] at hscan
  rw [Alone, scan, String.toList_ofList, hscan]

/-- A text that is one token is one lexeme. -/
theorem longest_of_alone (hblank : Lexeme.isBlank c = false) (h : Alone k (c :: cs))
    (hlimit : Text.utf8Length (c :: cs) ≤ Span.limit) :
    Lexeme.longest c cs = ⟨k, c :: cs, []⟩ := by
  obtain ⟨k', tail, rest, hlongest, rfl⟩ := Lexeme.exists_longest c cs
  rw [Alone, scan, String.toList_ofList, scanFrom_token hblank hlongest] at h
  have hfirst := (List.cons.inj h).1
  have hkind : k' = k := congrArg kind hfirst
  have hstop : min (0 + Text.utf8Length (c :: tail)) Span.limit =
      Text.utf8Length (c :: (tail ++ rest)) := congrArg (fun t => t.span.stop) hfirst
  -- The token ends where the text does, so nothing is left.
  have hlength : Text.utf8Length (c :: (tail ++ rest)) =
      Text.utf8Length (c :: tail) + Text.utf8Length rest := Text.utf8Length_append (c :: tail) rest
  have hrest : rest = [] := Text.eq_nil_of_utf8Length (by omega)
  rw [hlongest, hkind, hrest, List.append_nil]

/-! ### What a token says about the text -/

/-- What a token says about the text that it was found in: which piece it covers, that the piece by
itself is that token, and that no longer piece from the same place is a single token. -/
structure Taken (source : String) (t : Token) : Prop where
  piece : ∃ before text after : List Char, source.toList = before ++ (text ++ after) ∧
    t.span = ⟨Text.utf8Length before, Text.utf8Length (before ++ text)⟩ ∧
    (t.kind ≠ .error → Alone t.kind text) ∧
    ∀ more rest, after = more ++ rest → more ≠ [] → ∀ k, Alone k (text ++ more) → k = .error
  nonempty : t.span.start < t.span.stop

/-- A longer piece than the token is no single token. -/
theorem eq_error_of_alone (hblank : Lexeme.isBlank c = false) {more : List Char}
    (h : Lexeme.longest c (tail ++ (more ++ rest)) = ⟨k, c :: tail, more ++ rest⟩)
    (hmore : more ≠ []) {k' : TokenKind} (hlimit : Text.utf8Length (c :: tail ++ more) ≤ Span.limit)
    (halone : Alone k' (c :: tail ++ more)) : k' = .error := by
  by_contra hk'
  have hwhole : Lexeme.longest c (tail ++ more) = ⟨k', c :: (tail ++ more), []⟩ :=
    longest_of_alone hblank halone hlimit
  have hprefix := Lexeme.longest_prefix hwhole hk' rest
  rw [List.append_assoc, h] at hprefix
  have hlength := hprefix.length_le
  have hpos := List.length_pos_iff.2 hmore
  simp only [List.length_cons, List.length_append] at hlength
  omega

/-- Every token but the end mark is taken from the text. -/
theorem taken_of_mem_scan {source : String} {t : Token}
    (hlimit : Text.utf8Length source.toList ≤ Span.limit) (ht : t ∈ scan source)
    (heof : t.kind ≠ .eof) : Taken source t := by
  obtain ⟨pre, post, hscan⟩ := List.append_of_mem ht
  obtain ⟨before, c, after', hsource, hblank, hsuffix⟩ := exists_suffix hscan heof
  obtain ⟨k, tail, after, hlongest, rfl⟩ := Lexeme.exists_longest c after'
  rw [scanFrom_token hblank hlongest, Nat.zero_add] at hsuffix
  have hfirst := (List.cons.inj hsuffix).1
  have hsplit : source.toList = before ++ (c :: tail ++ after) := hsource
  have hsum : Text.utf8Length source.toList = Text.utf8Length before +
      (Text.utf8Length (c :: tail) + Text.utf8Length after) := by
    rw [hsplit, Text.utf8Length_append, Text.utf8Length_append]
  have hpos : 0 < Text.utf8Length (c :: tail) := Text.utf8Length_pos (List.cons_ne_nil c tail)
  have hspan : t.span = ⟨Text.utf8Length before, Text.utf8Length (before ++ c :: tail)⟩ := by
    rw [← hfirst, Text.utf8Length_append]
    exact Span.ofRange_of_le (by omega) (by omega)
  have hkind : t.kind = k := congrArg kind hfirst.symm
  refine ⟨⟨before, c :: tail, after, hsplit, hspan, ?_, ?_⟩, ?_⟩
  · intro herror
    rw [hkind] at herror ⊢
    have hlocal := Lexeme.longest_local hlongest herror TokenKind.endsBefore_nil
    rw [List.append_nil] at hlocal
    exact alone_of_longest hblank hlocal (by omega)
  · rintro more rest rfl hmore k' halone
    rw [Text.utf8Length_append more] at hsum
    refine eq_error_of_alone hblank hlongest hmore ?_ halone
    rw [Text.utf8Length_append]
    omega
  · rw [hspan, Text.utf8Length_append]
    exact Nat.lt_add_of_pos_right hpos

/-! ### All of the text -/

/-- The end mark of a text stands at its end. -/
theorem exists_scanFrom (offset : Nat) (cs : List Char) :
    ∃ ts, scanFrom offset cs = ts ++
        [⟨.eof, .ofRange (offset + Text.utf8Length cs) (offset + Text.utf8Length cs)⟩] ∧
      ∀ t ∈ ts, t.kind ≠ .eof := by
  induction cs using tokens_induction generalizing offset with
  | nil =>
    rw [scanFrom]
    exact ⟨[], rfl, fun t ht => absurd ht List.not_mem_nil⟩
  | blank c cs hblank ih =>
    rw [scanFrom_blank hblank, Text.utf8Length_cons, ← Nat.add_assoc]
    exact ih (offset + c.utf8Size)
  | token c tail rest k hblank hlongest ih =>
    obtain ⟨ts, hts, heof⟩ := ih (offset + Text.utf8Length (c :: tail))
    have hkind : k ≠ .eof := by
      have hlexeme := Lexeme.kind_ne_eof c (tail ++ rest)
      rwa [hlongest] at hlexeme
    have hlength : Text.utf8Length (c :: (tail ++ rest)) =
        Text.utf8Length (c :: tail) + Text.utf8Length rest :=
      Text.utf8Length_append (c :: tail) rest
    rw [scanFrom_token hblank hlongest, hts, hlength, ← Nat.add_assoc]
    exact ⟨_ :: ts, rfl, List.forall_mem_cons.2 ⟨hkind, heof⟩⟩

/-- Every character that is no blank stands inside a token. -/
theorem exists_covering {before after : List Char}
    (hlimit : offset + Text.utf8Length cs ≤ Span.limit) (hcs : cs = before ++ c :: after)
    (hblank : Lexeme.isBlank c = false) :
    ∃ t ∈ scanFrom offset cs, t.kind ≠ .eof ∧ t.span.start ≤ offset + Text.utf8Length before ∧
      offset + Text.utf8Length (before ++ [c]) ≤ t.span.stop := by
  induction cs using tokens_induction generalizing offset before with
  | nil => exact absurd hcs.symm (List.append_ne_nil_of_right_ne_nil _ (List.cons_ne_nil _ _))
  | blank d cs hd ih =>
    rw [scanFrom_blank hd]
    rw [Text.utf8Length_cons, ← Nat.add_assoc] at hlimit
    cases before with
    | nil =>
      obtain ⟨rfl, _⟩ := List.cons.inj hcs
      rw [hblank] at hd
      exact absurd hd Bool.false_ne_true
    | cons d' before =>
      obtain ⟨rfl, hrest⟩ := List.cons.inj hcs
      have hcovering := ih hlimit hrest
      rwa [List.cons_append, Text.utf8Length_cons, Text.utf8Length_cons, ← Nat.add_assoc,
        ← Nat.add_assoc]
  | token d tail rest k hd hlongest ih =>
    have hlength : Text.utf8Length (d :: (tail ++ rest)) =
        Text.utf8Length (d :: tail) + Text.utf8Length rest :=
      Text.utf8Length_append (d :: tail) rest
    have hpieces : d :: tail ++ rest = before ++ c :: after := hcs
    rw [scanFrom_token hd hlongest]
    rcases Lists.mem_pieces hpieces with ⟨after', htoken⟩ | ⟨before', hbefore, hrest⟩
    · have hkind : k ≠ .eof := by
        have hlexeme := Lexeme.kind_ne_eof d (tail ++ rest)
        rwa [hlongest] at hlexeme
      have hstop : Text.utf8Length (d :: tail) =
          Text.utf8Length (before ++ [c]) + Text.utf8Length after' := by
        rw [← Text.utf8Length_append, List.append_assoc, List.singleton_append, ← htoken]
      have hspan : Span.ofRange offset (offset + Text.utf8Length (d :: tail)) =
          ⟨offset, offset + Text.utf8Length (d :: tail)⟩ := Span.ofRange_of_le (by omega) (by omega)
      refine ⟨_, List.mem_cons_self, hkind, ?_, ?_⟩
      · rw [hspan]
        exact Nat.le_add_right _ _
      · rw [hspan]
        show _ ≤ offset + Text.utf8Length (d :: tail)
        omega
    · have hlimit' : offset + Text.utf8Length (d :: tail) + Text.utf8Length rest ≤ Span.limit := by
        omega
      obtain ⟨t, ht, heof, hstart, hend⟩ := ih hlimit' hrest
      refine ⟨t, List.mem_cons_of_mem _ ht, heof, ?_, ?_⟩
      · rw [hbefore, Text.utf8Length_append, ← Nat.add_assoc]
        exact hstart
      · rw [hbefore, List.append_assoc, Text.utf8Length_append, ← Nat.add_assoc]
        exact hend

/-- What the tokens of a text say about it. -/
structure Account (source : String) (ts : List Token) : Prop where
  /-- None of the tokens is the end mark. -/
  noEnd : ∀ t ∈ ts, t.kind ≠ .eof
  taken : ∀ t ∈ ts, Taken source t
  /-- Each token ends before the next begins. -/
  apart : ts.Pairwise fun t t' => t.span.stop ≤ t'.span.start
  /-- Every character is a blank or stands inside a token. -/
  blanks : ∀ (before : List Char) (c : Char) (after : List Char),
    source.toList = before ++ c :: after → Lexeme.isBlank c = true ∨
      ∃ t ∈ ts, t.span.start ≤ Text.utf8Length before ∧
        Text.utf8Length (before ++ [c]) ≤ t.span.stop

/-- The scan of a text ends with one end mark, which stands at the end of the text, and the tokens
before it account for the whole text. -/
theorem scan_account (source : String) (hlimit : Text.utf8Length source.toList ≤ Span.limit) :
    ∃ ts, scan source = ts ++
        [⟨.eof, ⟨Text.utf8Length source.toList, Text.utf8Length source.toList⟩⟩] ∧
      Account source ts := by
  obtain ⟨ts, hts, heof⟩ := exists_scanFrom 0 source.toList
  rw [Nat.zero_add, Span.ofRange_of_le hlimit hlimit] at hts
  have hscan : scan source = ts ++ _ := hts
  have horder : InOrder (ts ++ _) := hscan ▸ inOrder_scan source
  refine ⟨ts, hscan, heof, fun t ht => ?_, horder.of_append_left.apart, fun before c after h => ?_⟩
  · exact taken_of_mem_scan hlimit (hscan ▸ List.mem_append_left _ ht) (heof t ht)
  · by_cases hblank : Lexeme.isBlank c = true
    · exact .inl hblank
    · right
      have hlimit' : 0 + Text.utf8Length source.toList ≤ Span.limit := by rwa [Nat.zero_add]
      obtain ⟨t, ht, hkind, hstart, hstop⟩ :=
        exists_covering hlimit' h (Bool.eq_false_iff.2 hblank)
      rw [Nat.zero_add] at hstart hstop
      have hmem : t ∈ ts ++ _ := hts ▸ ht
      rcases List.mem_append.1 hmem with hmem | hlast
      · exact ⟨t, hmem, hstart, hstop⟩
      · rw [List.mem_singleton.1 hlast] at hkind
        exact absurd rfl hkind

/-- The tokens of `x<3 "é`: a placeholder and a string that are not closed are errors. -/
def unclosed : List Token :=
  [⟨.ident "x", ⟨0, 1⟩⟩, ⟨.error, ⟨1, 3⟩⟩, ⟨.error, ⟨4, 7⟩⟩]

/-- The two errors cover all that had been read of the placeholder and of the string. -/
theorem scan_account_unclosed :
    Text.utf8Length "x<3 \"é".toList ≤ Span.limit ∧
      scan "x<3 \"é" = unclosed ++ [⟨.eof, ⟨7, 7⟩⟩] ∧ Account "x<3 \"é" unclosed := by
  have hlimit : Text.utf8Length "x<3 \"é".toList ≤ Span.limit := by decide
  have hscan : scan "x<3 \"é" = unclosed ++ [⟨.eof, ⟨7, 7⟩⟩] := by decide +kernel
  obtain ⟨ts, hts, haccount⟩ := scan_account "x<3 \"é" hlimit
  rw [hscan] at hts
  rw [← (List.append_inj' hts rfl).1] at haccount
  exact ⟨hlimit, hscan, haccount⟩

end Token

end DataExpr
