import DataExpr.Proofs.Token.Spells

/-!
# Tokens are read locally

A token that is no error depends on the characters it covers and on one more: the character after it
must not be one that the token would go on with (`TokenKind.goesOn`).  So the text after a token may
be changed as long as the token still ends before it (`Lexeme.longest_local`).

It follows that text that is read without errors is read as the same tokens in front of every
separator (`Token.spells_of_kinds`).
-/

namespace DataExpr

/-! ### Where a token ends -/

/-- Whether a token of the kind would go on with the character. -/
def TokenKind.goesOn : TokenKind → Char → Bool
  | .dots _, c => c == '.'
  | .stars _, c => c == '*'
  | .int _, c => c.isDigit
  | .ident _, c => Text.isIdentPart c
  | .underscore, c => Text.isIdentPart c
  | _, _ => false

/-- Whether a token of the kind ends before the text. -/
def TokenKind.EndsBefore (k : TokenKind) (cs : List Char) : Prop :=
  ∀ c ∈ cs.head?, k.goesOn c = false

/-- Whether the token can be one of an expression: it is neither an error nor the end mark. -/
def TokenKind.isProper : TokenKind → Bool
  | .error | .eof => false
  | _ => true

namespace TokenKind

variable {k : TokenKind} {cs rest : List Char}

theorem ne_error_of_isProper (h : k.isProper = true) : k ≠ .error := by
  rintro rfl
  cases h

theorem ne_eof_of_isProper (h : k.isProper = true) : k ≠ .eof := by
  rintro rfl
  cases h

theorem endsBefore_nil : k.EndsBefore [] := nofun

/-- What follows the text matters only if there is no text. -/
theorem EndsBefore.append (h : k.EndsBefore cs) (hrest : k.EndsBefore rest) :
    k.EndsBefore (cs ++ rest) := by
  cases cs with
  | nil => exact hrest
  | cons c cs => exact h

theorem EndsBefore.of_append (h : k.EndsBefore (cs ++ rest)) : k.EndsBefore cs := by
  cases cs with
  | nil => exact endsBefore_nil
  | cons c cs => exact h

/-- No token goes on with a separator. -/
theorem endsBefore_of_apart (h : Token.Apart cs) : k.EndsBefore cs := by
  refine h.head ?_
  cases k <;> rfl

end TokenKind

namespace Lexeme

/-! ### Ways to read -/

/-- What the first character of a token decides: how the token is read from the characters after
it. -/
inductive Reader (c : Char) : (List Char → Lexeme) → Prop where
  | mark {k : TokenKind} (hk : mark c = some k) : Reader c fun cs => ⟨k, [c], cs⟩
  | run {p : Char → Bool} {kind : List Char → TokenKind}
      (h : ∀ text, kind text = .error ∨ (kind text).goesOn = p) : Reader c (run p kind c)
  | negative (h : c = '-') : Reader c negative
  | angled (h : c = '<') : Reader c angled
  | string (h : c = '"') : Reader c string
  | error : Reader c fun cs => ⟨.error, [c], cs⟩

theorem integer_cases (n : Int) : integer n = .error ∨ (integer n).goesOn = Char.isDigit := by
  unfold integer
  split
  · exact .inr rfl
  · exact .inl rfl

theorem goesOn_word (text : List Char) : (word text).goesOn = Text.isIdentPart := by
  unfold word
  split <;> rfl

/-- Every token is read in one of the ways. -/
theorem reader_longest (c : Char) : Reader c (longest c) := by
  unfold longest
  split
  · exact .mark ‹_›
  · split
    · exact .run fun text => .inr rfl
    split
    · exact .run fun text => .inr rfl
    split
    · exact .negative ‹_›
    split
    · exact .angled ‹_›
    split
    · exact .string ‹_›
    split
    · exact .run fun text => integer_cases _
    split
    · exact .run fun text => .inr (goesOn_word text)
    · exact .error

/-! ### No token is the end mark -/

theorem integer_ne_eof (n : Int) : integer n ≠ .eof := by
  unfold integer
  split <;> simp

theorem reference_ne_eof (n : Nat) : reference n ≠ .eof := by
  unfold reference
  split <;> simp

theorem word_ne_eof (text : List Char) : word text ≠ .eof := by
  unfold word
  split <;> simp

theorem mark_ne_eof (c : Char) : mark c ≠ some .eof := by
  unfold mark
  split <;> simp

theorem negative_ne_eof (cs : List Char) : (negative cs).kind ≠ .eof := by
  unfold negative
  split
  · simp
  · exact integer_ne_eof _

theorem angled_ne_eof (cs : List Char) : (angled cs).kind ≠ .eof := by
  unfold angled
  split
  · exact reference_ne_eof _
  · simp

theorem string_ne_eof (cs : List Char) : (string cs).kind ≠ .eof := by
  unfold string
  split <;> simp

/-- Only the end of a text is read as the end mark. -/
theorem kind_ne_eof (c : Char) (cs : List Char) : (longest c cs).kind ≠ .eof := by
  unfold longest
  split
  · rename_i k hk
    intro heof
    change k = .eof at heof
    rw [heof] at hk
    exact mark_ne_eof c hk
  · split
    · simp [run]
    split
    · simp [run]
    split
    · exact negative_ne_eof cs
    split
    · exact angled_ne_eof cs
    split
    · exact string_ne_eof cs
    split
    · exact integer_ne_eof _
    split
    · exact word_ne_eof _
    · simp

/-! ### The rest -/

theorem goesOn_mark {c : Char} {k : TokenKind} (h : mark c = some k) (d : Char) :
    k.goesOn d = false := by
  unfold mark at h
  split at h <;> cases h <;> rfl

variable {c : Char} {cs tail rest rest' : List Char} {k : TokenKind}

theorem endsBefore_string (cs : List Char) : (string cs).kind.EndsBefore (string cs).rest := by
  unfold string
  split <;> exact fun _ _ => rfl

theorem endsBefore_angled (cs : List Char) : (angled cs).kind.EndsBefore (angled cs).rest := by
  unfold angled
  split
  · rename_i d ds rest _ _
    have hkind : reference (natOfDigits (d :: ds)) = .error ∨
        ∃ i, reference (natOfDigits (d :: ds)) = .placeholder i := by
      unfold reference
      split
      · exact .inr ⟨_, rfl⟩
      · exact .inl rfl
    rcases hkind with hkind | ⟨i, hkind⟩ <;> rw [hkind] <;> exact fun _ _ => rfl
  · exact fun _ _ => rfl

theorem endsBefore_negative (cs : List Char) :
    (negative cs).kind.EndsBefore (negative cs).rest := by
  unfold negative
  split
  · exact fun _ _ => rfl
  · rename_i d ds _
    rcases integer_cases (-(natOfDigits (d :: ds) : Int)) with hkind | hkind
    · rw [hkind]
      exact fun _ _ => rfl
    · intro e he
      rw [hkind]
      exact Lists.head_dropWhile _ _ e he

/-- A token ends before what is left: the longest token has been taken. -/
theorem endsBefore_rest (c : Char) (cs : List Char) :
    (longest c cs).kind.EndsBefore (longest c cs).rest := by
  have hreader := reader_longest c
  generalize longest c = read at hreader
  cases hreader with
  | mark hk => exact fun d _ => goesOn_mark hk d
  | @run p kind h =>
    intro d hd
    rcases h (c :: cs.takeWhile p) with hkind | hkind
    · show (kind (c :: cs.takeWhile p)).goesOn d = false
      rw [hkind]
      rfl
    · show (kind (c :: cs.takeWhile p)).goesOn d = false
      rw [hkind]
      exact Lists.head_dropWhile p cs d hd
  | negative _ => exact endsBefore_negative cs
  | angled _ => exact endsBefore_angled cs
  | string _ => exact endsBefore_string cs
  | error => exact fun _ _ => rfl

/-! ### Locality -/

/-- The items of a string are the same if it is closed right after them. -/
theorem stringItems_closed (cs rest : List Char) :
    stringItems ((stringItems cs).1 ++ '"' :: rest) = ((stringItems cs).1, '"' :: rest) := by
  fun_induction stringItems cs <;> simp_all [stringItems]

theorem string_local (h : string cs = ⟨k, '"' :: tail, rest⟩) (hk : k ≠ .error) :
    string (tail ++ rest') = ⟨k, '"' :: tail, rest'⟩ := by
  have hclosed := stringItems_closed cs rest'
  rw [string] at h
  split at h
  · rename_i items rest'' hitems
    rw [hitems] at hclosed
    cases h
    have hstring : string (items ++ '"' :: rest') =
        ⟨.str (String.ofList (Text.unescape items)), '"' :: items ++ ['"'], rest'⟩ := by
      rw [string, hclosed]
      rfl
    show string (items ++ ['"'] ++ rest') = _
    rw [List.append_assoc]
    exact hstring
  · cases h
    exact absurd rfl hk

theorem angled_local (h : angled cs = ⟨k, '<' :: tail, rest⟩) (hk : k ≠ .error) :
    angled (tail ++ rest') = ⟨k, '<' :: tail, rest'⟩ := by
  unfold angled at h
  split at h
  · rename_i d ds rest'' hds _
    cases h
    have hdigits : ∀ e ∈ d :: ds, e.isDigit = true := by
      intro e he
      rw [← hds] at he
      exact List.mem_takeWhile_imp he
    have hstop : ∀ e ∈ ('>' :: rest').head?, e.isDigit = false := by
      intro e he
      cases he
      rfl
    have htake := Lists.takeWhile_append hdigits hstop
    have hdrop := Lists.dropWhile_append hdigits hstop
    show angled (d :: ds ++ ['>'] ++ rest') = _
    rw [List.append_assoc, List.singleton_append, angled, htake, hdrop]
    rfl
  · cases h
    exact absurd rfl hk

theorem negative_local (h : negative cs = ⟨k, '-' :: tail, rest⟩) (hk : k ≠ .error)
    (hrest : k.EndsBefore rest') : negative (tail ++ rest') = ⟨k, '-' :: tail, rest'⟩ := by
  unfold negative at h
  split at h
  · cases h
    exact absurd rfl hk
  · rename_i d ds hds
    cases h
    have hdigits : ∀ e ∈ d :: ds, e.isDigit = true := by
      intro e he
      rw [← hds] at he
      exact List.mem_takeWhile_imp he
    have hgoesOn := (integer_cases (-(natOfDigits (d :: ds) : Int))).resolve_left hk
    have hstop : ∀ e ∈ rest'.head?, e.isDigit = false := fun e he => hgoesOn ▸ hrest e he
    have htake := Lists.takeWhile_append hdigits hstop
    have hdrop := Lists.dropWhile_append hdigits hstop
    rw [negative, htake, hdrop]

/-- A token that is no error stays what it is when the text after it changes, as long as it ends
before the new one. -/
theorem longest_local (h : longest c cs = ⟨k, c :: tail, rest⟩) (hk : k ≠ .error)
    (hrest : k.EndsBefore rest') : longest c (tail ++ rest') = ⟨k, c :: tail, rest'⟩ := by
  have hreader := reader_longest c
  generalize longest c = read at hreader h ⊢
  cases hreader with
  | mark _ =>
    cases h
    rfl
  | @run p kind hkind =>
    cases h
    have hgoesOn := (hkind _).resolve_left hk
    have hcs : ∀ d ∈ cs.takeWhile p, p d = true := fun d hd => List.mem_takeWhile_imp hd
    exact Token.run_append kind c hcs fun d hd => hgoesOn ▸ hrest d hd
  | negative hc =>
    subst hc
    exact negative_local h hk hrest
  | angled hc =>
    subst hc
    exact angled_local h hk
  | string hc =>
    subst hc
    exact string_local h hk
  | error =>
    cases h
    exact absurd rfl hk

/-- The text of a token begins with the character that it was read at. -/
theorem exists_longest (c : Char) (cs : List Char) :
    ∃ k tail rest, longest c cs = ⟨k, c :: tail, rest⟩ ∧ cs = tail ++ rest := by
  have htext := text_append_rest c cs
  cases hlexeme : longest c cs with
  | mk k text rest =>
    rw [hlexeme] at htext
    cases text with
    | nil => exact absurd (congrArg Lexeme.text hlexeme) (text_ne_nil c cs)
    | cons d tail =>
      obtain ⟨rfl, rfl⟩ := List.cons.inj htext
      exact ⟨k, tail, rest, rfl, rfl⟩

end Lexeme

namespace Token

/-! ### Texts without errors -/

/-- Induction along the tokens of a text. -/
theorem tokens_induction {motive : List Char → Prop} (nil : motive [])
    (blank : ∀ c cs, Lexeme.isBlank c = true → motive cs → motive (c :: cs))
    (token : ∀ c tail rest k, Lexeme.isBlank c = false →
      Lexeme.longest c (tail ++ rest) = ⟨k, c :: tail, rest⟩ → motive rest →
      motive (c :: (tail ++ rest)))
    (cs : List Char) : motive cs := by
  suffices h : ∀ offset : Nat, motive cs from h 0
  intro offset
  induction offset, cs using scanFrom.induct with
  | case1 _ => exact nil
  | case2 _ c cs hblank ih => exact blank c cs hblank ih
  | case3 _ c cs hblank lexeme stop ih =>
    obtain ⟨k, tail, rest, hlongest, rfl⟩ := Lexeme.exists_longest c cs
    refine token c tail rest k (Bool.eq_false_iff.2 hblank) hlongest ?_
    have hrest : lexeme.rest = rest := congrArg Lexeme.rest hlongest
    rwa [hrest] at ih

theorem kinds_token {c : Char} {tail rest : List Char} {k : TokenKind}
    (hblank : Lexeme.isBlank c = false)
    (h : Lexeme.longest c (tail ++ rest) = ⟨k, c :: tail, rest⟩) :
    kinds (c :: (tail ++ rest)) = k :: kinds rest := by
  rw [kinds_longest hblank, h]

/-- The end mark of a text comes after all other tokens. -/
theorem exists_kinds (cs : List Char) : ∃ ks, kinds cs = ks ++ [.eof] ∧ .eof ∉ ks := by
  induction cs using tokens_induction with
  | nil => exact ⟨[], kinds_nil, List.not_mem_nil⟩
  | blank c cs hblank ih => rwa [kinds_blank hblank]
  | token c tail rest k hblank hlongest ih =>
    obtain ⟨ks, hks, heof⟩ := ih
    have hk : (Lexeme.longest c (tail ++ rest)).kind ≠ .eof := Lexeme.kind_ne_eof c _
    rw [hlongest] at hk
    refine ⟨k :: ks, ?_, List.not_mem_cons_of_ne_of_not_mem hk.symm heof⟩
    rw [kinds_token hblank hlongest, hks, List.cons_append]

/-- The end mark is the last token of a text and the only one of its kind. -/
theorem exists_scan (source : String) :
    ∃ ts stop, scan source = ts ++ [stop] ∧ (∀ t ∈ ts, t.kind ≠ .eof) ∧ stop.kind = .eof := by
  obtain ⟨ks, hks, heof⟩ := exists_kinds source.toList
  obtain ⟨ts, ends, hscan, rfl, hends⟩ := List.map_eq_append_iff.1 hks
  obtain ⟨stop, rfl, hstop⟩ := List.map_eq_singleton_iff.1 hends
  exact ⟨ts, stop, hscan, fun t ht hkind => heof (hkind ▸ List.mem_map_of_mem ht), hstop⟩

theorem kinds_ne_nil (cs : List Char) : kinds cs ≠ [] := by
  obtain ⟨ks, hks, _⟩ := exists_kinds cs
  rw [hks]
  exact List.append_ne_nil_of_right_ne_nil _ (List.cons_ne_nil _ _)

/-- A text that is read without errors is read as the same tokens before every separator. -/
theorem spells_of_kinds {text : String} {ks : List TokenKind}
    (h : kinds text.toList = ks ++ [.eof]) (hks : .error ∉ ks) : Spells text ks := by
  intro more hmore
  generalize text.toList = cs at h
  induction cs using tokens_induction generalizing ks with
  | nil =>
    rw [kinds_nil] at h
    rw [List.self_eq_append_left.1 h]
    rfl
  | blank c cs hblank ih =>
    rw [kinds_blank hblank] at h
    rw [List.cons_append, kinds_blank hblank]
    exact ih hks h
  | token c tail rest k hblank hlongest ih =>
    rw [kinds_token hblank hlongest] at h
    cases ks with
    | nil => exact absurd (List.cons.inj h).2 (kinds_ne_nil rest)
    | cons k' ks =>
      obtain ⟨rfl, hrest⟩ := List.cons.inj h
      rw [List.mem_cons, not_or] at hks
      obtain ⟨hk, hks⟩ := hks
      -- What is left after the token still is when more comes after the text.
      have hends : k.EndsBefore (rest ++ more) := by
        refine TokenKind.EndsBefore.append ?_ (TokenKind.endsBefore_of_apart hmore)
        have hends := Lexeme.endsBefore_rest c (tail ++ rest)
        rwa [hlongest] at hends
      have hlocal := Lexeme.longest_local hlongest (Ne.symm hk) hends
      rw [List.cons_append, List.append_assoc, kinds_token hblank hlocal, ih hks hrest]
      rfl

end Token

end DataExpr
