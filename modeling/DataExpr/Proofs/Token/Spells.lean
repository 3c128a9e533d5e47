import DataExpr.Expr.Printer
import DataExpr.Proofs.Token.Kinds

/-!
# Texts that spell tokens

A text spells a list of kinds (`Token.Spells`) if a scan finds these kinds in it whenever it is
followed by nothing or by a character that ends every token (`Token.Apart`).  A text opens with a list
of kinds (`Token.Opens`) if the scan finds them whatever follows.  What is printed is put together
from the two: `Spells.after` and `Spells.then` say how, and every literal spells its token
(`Literal.spells_print`).
-/

namespace DataExpr

namespace Token

/-! ### Separation -/

/-- The characters that the printer puts after a token.  No token goes on with one of them. -/
def separators : List Char := [' ', '?', '!', '&', '|', ')', '\x7d', ']', ',', ':']

/-- Whether the text is empty or begins with a separator. -/
def Apart (cs : List Char) : Prop := ∀ c ∈ cs.head?, c ∈ separators

theorem apart_nil : Apart [] := nofun

theorem apart_cons {c : Char} (h : c ∈ separators) (cs : List Char) : Apart (c :: cs) := by
  intro d hd
  cases hd
  exact h

/-- A separated text does not begin with a character of which no separator has the property. -/
theorem Apart.head {p : Char → Bool} {cs : List Char} (h : Apart cs)
    (hp : separators.any p = false) : ∀ c ∈ cs.head?, p c = false := by
  intro c hc
  rw [List.any_eq_false] at hp
  exact Bool.eq_false_iff.2 (hp c (h c hc))

theorem Apart.head_ne {cs : List Char} (h : Apart cs) {c : Char} (hc : c ∉ separators) :
    cs.head? ≠ some c :=
  fun he => hc (h c he)

/-! ### Spelling -/

/-- Whether a scan finds the kinds at the front of every text that begins with the given one. -/
def Opens (text : String) (ks : List TokenKind) : Prop :=
  ∀ rest, kinds (text.toList ++ rest) = ks ++ kinds rest

/-- Whether a scan finds the kinds in the text if something apart follows. -/
def Spells (text : String) (ks : List TokenKind) : Prop :=
  ∀ rest, Apart rest → kinds (text.toList ++ rest) = ks ++ kinds rest

/-- A text that opens with the kinds and ends every token before it. -/
structure Separates (text : String) (ks : List TokenKind) : Prop where
  opens : Opens text ks
  head : ∃ c ∈ separators, ∃ cs, text.toList = c :: cs

variable {text a b : String} {ks as bs : List TokenKind}

theorem Separates.apart (h : Separates text ks) (rest : List Char) :
    Apart (text.toList ++ rest) := by
  obtain ⟨c, hc, cs, htext⟩ := h.head
  rw [htext]
  exact apart_cons hc _

theorem Opens.spells (h : Opens text ks) : Spells text ks := fun rest _ => h rest

theorem opens_nil : Opens "" [] := fun _ => rfl

/-- A text after one that may stand before anything. -/
theorem Spells.after (h : Spells a as) (ho : Opens text ks) : Spells (text ++ a) (ks ++ as) := by
  intro rest hrest
  rw [String.toList_append, List.append_assoc, ho, h rest hrest, List.append_assoc]

/-- A text before one that ends every token. -/
theorem Spells.then (h : Spells a as) (hs : Separates text ks) : Spells (a ++ text) (as ++ ks) := by
  intro rest _
  rw [String.toList_append, List.append_assoc, h _ (hs.apart rest), hs.opens, List.append_assoc]

/-- Two texts with one between them that ends every token. -/
theorem Spells.joined (h : Spells a as) (hs : Separates text ks) (h' : Spells b bs) :
    Spells (a ++ text ++ b) (as ++ ks ++ bs) := by
  intro rest hrest
  rw [String.toList_append, String.toList_append, List.append_assoc, List.append_assoc,
    h _ (hs.apart _), hs.opens, h' rest hrest, List.append_assoc, List.append_assoc]

/-- Texts with one between each and the next that ends every token. -/
theorem Spells.intercalate (hs : Separates text ks) {texts : List String}
    {kss : List (List TokenKind)} (h : List.Forall₂ Spells texts kss) :
    Spells (text.intercalate texts) (ks.intercalate kss) := by
  induction h with
  | nil => exact opens_nil.spells
  | @cons first firsts texts kss hfirst htexts ih =>
    -- Nothing stands after the last text.
    cases htexts with
    | nil => simpa using hfirst
    | cons hsecond htexts =>
      rw [String.intercalate_cons_cons, List.intercalate_cons_cons]
      exact hfirst.joined hs ih

/-! ### Punctuation -/

/-- Whether the character is a blank of the printer or a mark. -/
def isPunctuation (c : Char) : Bool := c == ' ' || (Lexeme.mark c).isSome

theorem kinds_punctuation {cs : List Char} (hcs : cs.all isPunctuation = true) (rest : List Char) :
    kinds (cs ++ rest) = cs.filterMap Lexeme.mark ++ kinds rest := by
  induction cs with
  | nil => rfl
  | cons c cs ih =>
    rw [List.all_cons, Bool.and_eq_true, isPunctuation, Bool.or_eq_true, beq_iff_eq,
      Option.isSome_iff_exists] at hcs
    obtain ⟨rfl | ⟨k, hk⟩, hcs⟩ := hcs
    · rw [List.cons_append, kinds_space, ih hcs]
      rfl
    · rw [List.cons_append, kinds_mark hk, ih hcs, List.filterMap_cons_some hk]
      rfl

/-- Blanks and marks are read as the marks among them. -/
theorem opens_punctuation (hks : text.toList.filterMap Lexeme.mark = ks)
    (h : text.toList.all isPunctuation = true) : Opens text ks := by
  intro rest
  rw [kinds_punctuation h, hks]

theorem separates_punctuation (hks : text.toList.filterMap Lexeme.mark = ks)
    (h : text.toList.all isPunctuation = true)
    (hhead : text.toList.head?.any separators.contains = true) : Separates text ks := by
  rw [Option.any_eq_true] at hhead
  obtain ⟨c, hhead, hc⟩ := hhead
  exact ⟨opens_punctuation hks h, c, List.contains_iff_mem.1 hc, List.head?_eq_some_iff.1 hhead⟩

/-! ### Dots and stars -/

/-- What follows a run of dots begins with no other dot. -/
theorem Apart.head_append_ne {rest : List Char} (hrest : Apart rest)
    (ha : a.toList.head? ≠ some '.') : (a.toList ++ rest).head? ≠ some '.' := by
  cases hcs : a.toList with
  | nil => exact hrest.head_ne (by decide)
  | cons c cs => rwa [hcs] at ha

/-- A text whose first token is no run of dots does not begin with a dot. -/
theorem Spells.head_ne {k : TokenKind} (h : Spells a (k :: ks)) (hk : ∀ n, k ≠ .dots n) :
    a.toList.head? ≠ some '.' := by
  intro hhead
  have hspells := h [] apart_nil
  obtain ⟨cs, hcs⟩ := List.head?_eq_some_iff.1 hhead
  rw [hcs, List.append_nil, kinds_longest rfl] at hspells
  exact hk _ (List.cons.inj hspells).1.symm

/-- A dot before a text that does not begin with one. -/
theorem Spells.dot (h : Spells a as) (ha : a.toList.head? ≠ some '.') :
    Spells ("." ++ a) (.dots 1 :: as) := by
  intro rest hrest
  rw [String.toList_append, List.append_assoc]
  show kinds ('.' :: (List.replicate 0 '.' ++ (a.toList ++ rest))) = _
  rw [kinds_dots 0 (hrest.head_append_ne ha), h rest hrest]
  rfl

/-- Three dots before a text; the printer keeps a dot away from them. -/
theorem Spells.afterDots (h : Spells a as) : Spells (Expr.afterDots a) (.dots 3 :: as) := by
  intro rest hrest
  unfold Expr.afterDots
  split
  · -- The space after the dots ends their run.
    rw [String.toList_append, List.append_assoc]
    show kinds ('.' :: (List.replicate 2 '.' ++ ' ' :: (a.toList ++ rest))) = _
    rw [kinds_dots 2 (by simp), kinds_space, h rest hrest]
    rfl
  · rename_i ha
    rw [String.toList_append, List.append_assoc]
    show kinds ('.' :: (List.replicate 2 '.' ++ (a.toList ++ rest))) = _
    rw [kinds_dots 2 (hrest.head_append_ne ha), h rest hrest]
    rfl

theorem spells_star : Spells "*" [.stars 1] :=
  fun _ hrest => kinds_stars 0 (hrest.head_ne (by decide))

theorem spells_stars : Spells "**" [.stars 2] :=
  fun _ hrest => kinds_stars 1 (hrest.head_ne (by decide))

/-! ### Strings, numbers and names -/

/-- The characters at which no number and no name begins. -/
def signs : List Char :=
  [' ', '\t', '\r', '\n', '?', '!', '&', '|', '(', ')', '\x7b', '\x7d', '[', ']', ',', ':', '.', '*',
    '-', '<', '"']

/-- A character with a property that no sign has is no sign. -/
theorem not_mem_signs {p : Char → Bool} (hp : signs.any p = false) {c : Char} (hc : p c = true) :
    c ∉ signs := by
  rw [List.any_eq_false] at hp
  exact fun hmem => hp c hmem hc

theorem isBlank_of_not_mem_signs {c : Char} (h : c ∉ signs) : Lexeme.isBlank c = false := by
  simp only [signs, List.mem_cons, not_or] at h
  simp [Lexeme.isBlank, h]

/-- What does not begin with a sign is a number, a name or a single character. -/
theorem longest_of_not_mem_signs {c : Char} (h : c ∉ signs) (cs : List Char) :
    Lexeme.longest c cs =
      if c.isDigit then
        Lexeme.run Char.isDigit (fun text => Lexeme.integer (Lexeme.natOfDigits text)) c cs
      else if Text.isIdentStart c then Lexeme.run Text.isIdentPart Lexeme.word c cs
      else ⟨.error, [c], cs⟩ := by
  have hmark : Lexeme.mark c = none := by
    unfold Lexeme.mark
    split
    all_goals first | rfl | exact absurd (by decide) h
  simp only [signs, List.mem_cons, not_or] at h
  rw [Lexeme.longest, hmark]
  simp [h]

/-- Whether the characters are one item of a string literal and stand for the character. -/
inductive Writes : Char → List Char → Prop where
  | plain {c : Char} (hquote : c ≠ '"') (hback : c ≠ '\\') : Writes c [c]
  | escaped {c d : Char} (hd : d ≠ '\n') (hresolve : Text.resolveEscape d = [c]) :
      Writes c ['\\', d]

variable {item : Char → List Char}

/-- Items of a string are read up to the quote that closes it. -/
theorem stringItems_flatMap {cs : List Char} (hitem : ∀ c ∈ cs, Writes c (item c))
    (rest : List Char) :
    Lexeme.stringItems (cs.flatMap item ++ '"' :: rest) = (cs.flatMap item, '"' :: rest) := by
  induction cs with
  | nil =>
    rw [List.flatMap_nil, List.nil_append, Lexeme.stringItems]
    · simp
    · intro _ _ hc
      exact absurd hc (by decide)
  | cons c cs ih =>
    obtain ⟨hc, hcs⟩ := List.forall_mem_cons.1 hitem
    rw [List.flatMap_cons, List.append_assoc]
    generalize item c = text at hc ⊢
    cases hc with
    | plain hquote hback =>
      show Lexeme.stringItems (c :: (cs.flatMap item ++ '"' :: rest)) = _
      rw [Lexeme.stringItems, ih hcs]
      · simp [hquote, hback]
      · exact fun _ _ hc => absurd hc hback
    | @escaped d hd =>
      show Lexeme.stringItems ('\\' :: d :: (cs.flatMap item ++ '"' :: rest)) = _
      rw [Lexeme.stringItems, ih hcs]
      simp [hd]

/-- Items of a string stand for the characters that they were written for. -/
theorem unescape_flatMap {cs : List Char} (hitem : ∀ c ∈ cs, Writes c (item c)) :
    Text.unescape (cs.flatMap item) = cs := by
  induction cs with
  | nil => rfl
  | cons c cs ih =>
    obtain ⟨hc, hcs⟩ := List.forall_mem_cons.1 hitem
    rw [List.flatMap_cons]
    generalize item c = text at hc ⊢
    cases hc with
    | plain _ hback =>
      show Text.unescape (c :: cs.flatMap item) = _
      rw [Text.unescape_cons_of_ne hback, ih hcs]
    | @escaped d _ hresolve =>
      show Text.unescape ('\\' :: d :: cs.flatMap item) = _
      rw [Text.unescape, hresolve, ih hcs]
      rfl

/-- Items between quotes are read as the text that they were written for. -/
theorem spells_quotes {s : String} (hitem : ∀ c ∈ s.toList, Writes c (item c)) :
    Spells (String.ofList ('"' :: s.toList.flatMap item ++ ['"'])) [.str s] := by
  intro rest _
  have hstring : Lexeme.string (s.toList.flatMap item ++ '"' :: rest) =
      ⟨.str s, '"' :: s.toList.flatMap item ++ ['"'], rest⟩ := by
    rw [Lexeme.string, stringItems_flatMap hitem]
    show Lexeme.mk (.str (String.ofList (Text.unescape (s.toList.flatMap item)))) _ _ = _
    rw [unescape_flatMap hitem, String.ofList_toList]
  rw [String.toList_ofList, List.append_assoc]
  show kinds ('"' :: (s.toList.flatMap item ++ '"' :: rest)) = _
  rw [kinds_longest rfl]
  show (Lexeme.string (s.toList.flatMap item ++ '"' :: rest)).kind ::
    kinds (Lexeme.string (s.toList.flatMap item ++ '"' :: rest)).rest = _
  rw [hstring]
  rfl

theorem writes_escapeChar (c : Char) : Writes c (Text.escapeChar c) := by
  unfold Text.escapeChar
  by_cases hquote : c = '"'
  · rw [if_pos hquote, hquote]
    exact .escaped (by decide) rfl
  · rw [if_neg hquote]
    by_cases hback : c = '\\'
    · rw [if_pos hback, hback]
      exact .escaped (by decide) rfl
    · rw [if_neg hback]
      exact .plain hquote hback

/-- A string literal is read as the text that it was written for. -/
theorem spells_literal (s : String) : Spells (Text.literal s) [.str s] :=
  spells_quotes fun c _ => writes_escapeChar c

/-! ### Numbers -/

theorem separators_not_digits : separators.any Char.isDigit = false := by decide

theorem isDigit_of_mem_digits {n : Nat} : ∀ c ∈ Nat.toDigits 10 n, c.isDigit = true :=
  fun _ hc => Nat.isDigit_of_mem_toDigits (by decide) (by decide) hc

/-- The digits of a number stand for it. -/
theorem natOfDigits_toDigits (n : Nat) : Lexeme.natOfDigits (Nat.toDigits 10 n) = n := by
  rw [Lexeme.natOfDigits, ← Nat.ofDigitChars_eq_foldl, Nat.ofDigitChars_ten_toDigits]

theorem integer_toInt (n : Int64) : Lexeme.integer n.toInt = .int n := by
  rw [Lexeme.integer, if_pos ⟨n.minValue_le_toInt, n.toInt_le⟩, Int64.ofInt_toInt]

theorem reference_toNat (i : UInt64) : Lexeme.reference i.toNat = .placeholder i := by
  rw [Lexeme.reference, if_pos i.toNat_lt, UInt64.ofNat_toNat]

/-- The digits of a number are read as one integer. -/
theorem kinds_digits (n : Nat) {rest : List Char} (hrest : Apart rest) :
    kinds (Nat.toDigits 10 n ++ rest) = Lexeme.integer n :: kinds rest := by
  have hdigits : ∀ c ∈ Nat.toDigits 10 n, c.isDigit = true := isDigit_of_mem_digits
  have hvalue := natOfDigits_toDigits n
  -- A number has a first digit, at which the lexeme begins.
  obtain ⟨d, ds, hds⟩ := List.exists_cons_of_ne_nil (Nat.toDigits_ne_nil (n := n) (b := 10))
  rw [hds] at hdigits hvalue ⊢
  have hd : d.isDigit = true := hdigits d List.mem_cons_self
  have hsign : d ∉ signs := not_mem_signs (by decide) hd
  have hrun := run_append (fun text => Lexeme.integer (Lexeme.natOfDigits text)) d
    (fun c hc => hdigits c (List.mem_cons_of_mem _ hc)) (hrest.head separators_not_digits)
  rw [List.cons_append, kinds_longest (isBlank_of_not_mem_signs hsign),
    longest_of_not_mem_signs hsign, if_pos hd, hrun, hvalue]

/-- A minus sign and the digits of a number are read as one integer. -/
theorem kinds_minus (n : Nat) {rest : List Char} (hrest : Apart rest) :
    kinds ('-' :: (Nat.toDigits 10 n ++ rest)) = Lexeme.integer (-(n : Int)) :: kinds rest := by
  have htake := Lists.takeWhile_append (isDigit_of_mem_digits (n := n)) (hrest.head separators_not_digits)
  have hdrop := Lists.dropWhile_append (isDigit_of_mem_digits (n := n)) (hrest.head separators_not_digits)
  have hvalue := natOfDigits_toDigits n
  obtain ⟨d, ds, hds⟩ := List.exists_cons_of_ne_nil (Nat.toDigits_ne_nil (n := n) (b := 10))
  rw [hds] at htake hdrop hvalue ⊢
  have hnegative : Lexeme.negative (d :: ds ++ rest) =
      ⟨Lexeme.integer (-(n : Int)), '-' :: d :: ds, rest⟩ := by
    rw [Lexeme.negative, htake, hdrop]
    show Lexeme.mk (Lexeme.integer (-(Lexeme.natOfDigits (d :: ds) : Int))) _ _ = _
    rw [hvalue]
  rw [kinds_longest rfl]
  show (Lexeme.negative (d :: ds ++ rest)).kind :: kinds (Lexeme.negative (d :: ds ++ rest)).rest = _
  rw [hnegative]

/-- An integer is read with its sign. -/
theorem spells_int (n : Int64) : Spells (toString n.toInt) [.int n] := by
  intro rest hrest
  rw [Int.toString_eq_repr, Int.repr_eq_if]
  split
  · rename_i hn
    rw [Nat.toList_repr, kinds_digits _ hrest, Int.toNat_of_nonneg hn, integer_toInt]
    rfl
  · rename_i hn
    -- The least integer has no positive counterpart, but its digits are read with the sign.
    have hneg : -((-n.toInt).toNat : Int) = n.toInt := by omega
    rw [String.toList_append, Nat.toList_repr]
    show kinds ('-' :: (Nat.toDigits 10 (-n.toInt).toNat ++ rest)) = _
    rw [kinds_minus _ hrest, hneg, integer_toInt]
    rfl

/-- A placeholder is read with its number. -/
theorem spells_placeholder (i : UInt64) :
    Spells ("<" ++ toString i.toNat ++ ">") [.placeholder i] := by
  intro rest _
  have hstop : ∀ d ∈ ('>' :: rest).head?, d.isDigit = false := by
    intro d hd
    cases hd
    rfl
  have htake := Lists.takeWhile_append (isDigit_of_mem_digits (n := i.toNat)) hstop
  have hdrop := Lists.dropWhile_append (isDigit_of_mem_digits (n := i.toNat)) hstop
  have hvalue := natOfDigits_toDigits i.toNat
  have htext : ("<" ++ toString i.toNat ++ ">").toList ++ rest =
      '<' :: (Nat.toDigits 10 i.toNat ++ '>' :: rest) := by
    rw [Nat.toString_eq_repr, String.toList_append, String.toList_append, Nat.toList_repr]
    simp
  rw [htext]
  obtain ⟨d, ds, hds⟩ := List.exists_cons_of_ne_nil (Nat.toDigits_ne_nil (n := i.toNat) (b := 10))
  rw [hds] at htake hdrop hvalue ⊢
  have hangled : Lexeme.angled (d :: ds ++ '>' :: rest) =
      ⟨.placeholder i, '<' :: d :: ds ++ ['>'], rest⟩ := by
    rw [Lexeme.angled, htake, hdrop]
    show Lexeme.mk (Lexeme.reference (Lexeme.natOfDigits (d :: ds))) _ _ = _
    rw [hvalue, reference_toNat]
  rw [kinds_longest rfl]
  show (Lexeme.angled (d :: ds ++ '>' :: rest)).kind ::
    kinds (Lexeme.angled (d :: ds ++ '>' :: rest)).rest = _
  rw [hangled]
  rfl

/-! ### Names -/

theorem separators_not_identPart : separators.any Text.isIdentPart = false := by decide

/-- No identifier begins with a digit. -/
theorem isIdentStart_of_isDigit {c : Char} (h : c.isDigit = true) : Text.isIdentStart c = false := by
  have hdigits : ∀ n < 58, 48 ≤ n → Text.isIdentStart (Char.ofNat n) = false := by decide
  obtain ⟨hlow, hhigh⟩ := Char.isDigit_iff_toNat.1 h
  have hc := hdigits c.toNat (Nat.lt_succ_of_le hhigh) hlow
  rwa [Char.ofNat_toNat] at hc

/-- An identifier is read as one word. -/
theorem spells_word {name : String} (h : Text.isIdentifier name = true) :
    Spells name [Lexeme.word name.toList] := by
  intro rest hrest
  rw [Text.isIdentifier] at h
  split at h
  · exact absurd h Bool.false_ne_true
  · rename_i c cs hname
    rw [Bool.and_eq_true, List.all_eq_true] at h
    have hsign : c ∉ signs := not_mem_signs (by decide) h.1
    -- Digits are tried before names.
    have hdigit : ¬ c.isDigit = true := by
      intro hdigit
      rw [isIdentStart_of_isDigit hdigit] at h
      exact Bool.false_ne_true h.1
    have hrun := run_append Lexeme.word c h.2 (hrest.head separators_not_identPart)
    rw [hname, List.cons_append, kinds_longest (isBlank_of_not_mem_signs hsign),
      longest_of_not_mem_signs hsign, if_neg hdigit, if_pos h.1, hrun]
    rfl

end Token

/-! ### Literals -/

/-- The token that a literal is written as. -/
def Literal.token : Literal → TokenKind
  | str s => .str s
  | int n => .int n
  | ident name => if Text.isIdentifier name then Lexeme.word name.toList else .str name
  | placeholder i => .placeholder i

/-- A literal is read as one token. -/
theorem Literal.spells_print (l : Literal) : Token.Spells l.print [l.token] := by
  cases l with
  | str s => exact Token.spells_literal s
  | int n => exact Token.spells_int n
  | placeholder i => exact Token.spells_placeholder i
  | ident name =>
    show Token.Spells (if Text.isIdentifier name then name else Text.literal name)
      [if Text.isIdentifier name then Lexeme.word name.toList else .str name]
    by_cases h : Text.isIdentifier name = true
    · rw [if_pos h, if_pos h]
      exact Token.spells_word h
    · rw [if_neg h, if_neg h]
      exact Token.spells_literal name

theorem Literal.token_ne_dots (l : Literal) (n : Nat) : l.token ≠ .dots n := by
  cases l with
  | ident name =>
    show (if Text.isIdentifier name then Lexeme.word name.toList else .str name) ≠ .dots n
    unfold Lexeme.word
    split
    · split <;> exact nofun
    · exact nofun
  | _ => exact nofun

/-- What is printed for a literal does not begin with a dot, since no literal is read as dots. -/
theorem Literal.head_print_ne (l : Literal) : l.print.toList.head? ≠ some '.' :=
  l.spells_print.head_ne l.token_ne_dots

end DataExpr
