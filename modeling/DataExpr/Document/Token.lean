import DataExpr.Document.Number

/-!
# Tokens of JSON documents

`Document.tokens?` splits the text of a document into scalars and punctuation marks; blanks (space,
tab, carriage return, line feed) may stand between them.  A text with anything else in it has no
tokens.

Every reader here takes its piece off the front of a list of characters and returns it together with
what follows.  That what follows is never longer, and shorter where the piece cannot be empty, is
stated beside each of them; the scan ends because of `token?_length_lt`.
-/

namespace DataExpr.Document

/-- A scalar or a punctuation mark. -/
inductive Token where
  | scalar (d : Document)
  | arrayStart
  | arrayEnd
  | objectStart
  | objectEnd
  | comma
  | colon

/-- What was read off the front of a text, and what follows. -/
abbrev Front (α : Type) := α × List Char

/-! ### Strings -/

/-- The value of a hexadecimal digit. -/
def hexDigit? (c : Char) : Option Nat :=
  if c.isDigit then some (c.toNat - '0'.toNat)
  else if 'a' ≤ c ∧ c ≤ 'f' then some (c.toNat - 'a'.toNat + 10)
  else if 'A' ≤ c ∧ c ≤ 'F' then some (c.toNat - 'A'.toNat + 10)
  else none

/-- The number that four hexadecimal digits stand for. -/
def hexUnit? : List Char → Option (Front Nat)
  | a :: b :: c :: d :: rest => do
    let digits := [← hexDigit? a, ← hexDigit? b, ← hexDigit? c, ← hexDigit? d]
    return (digits.foldl (fun n d => 16 * n + d) 0, rest)
  | _ => none

/-- Whether the number is the first half of a character past the first 65536. -/
def isHighHalf (n : Nat) : Bool := 0xd800 ≤ n && n ≤ 0xdbff

/-- Whether the number is the second half of a character past the first 65536. -/
def isLowHalf (n : Nat) : Bool := 0xdc00 ≤ n && n ≤ 0xdfff

/-- The character that two halves make up. -/
def joinHalves (high low : Nat) : Char :=
  Char.ofNat (0x10000 + (high - 0xd800) * 0x400 + (low - 0xdc00))

/-- The second half of a character, with its backslash and `u`. -/
def lowHalf? : List Char → Option (Front Nat)
  | '\\' :: 'u' :: cs => (hexUnit? cs).filter fun front => isLowHalf front.1
  | _ => none

/-- The character of a numbered escape whose backslash and `u` have been read.  A half of a character
means nothing alone. -/
def numberedChar? (cs : List Char) : Option (Front Char) :=
  match hexUnit? cs with
  | none => none
  | some (n, rest) =>
    if isHighHalf n then (lowHalf? rest).map fun front => (joinHalves n front.1, front.2)
    else if isLowHalf n then none
    else some (Char.ofNat n, rest)

/-- What a backslash and the given character stand for together. -/
def shortEscape? : Char → Option Char
  | '"' => some '"'
  | '\\' => some '\\'
  | '/' => some '/'
  | 'b' => some '\x08'
  | 'f' => some '\x0c'
  | 'n' => some '\n'
  | 'r' => some '\r'
  | 't' => some '\t'
  | _ => none

/-- One character of a string, escaped or not; control characters below the space must be escaped. -/
def stringChar? : List Char → Option (Front Char)
  | '\\' :: 'u' :: rest => numberedChar? rest
  | '\\' :: c :: rest => (shortEscape? c).map (·, rest)
  | c :: rest => if c < ' ' ∨ c = '\\' then none else some (c, rest)
  | [] => none

theorem hexUnit?_length_lt {cs : List Char} {front : Front Nat} (h : hexUnit? cs = some front) :
    front.2.length < cs.length := by
  unfold hexUnit? at h
  split at h
  · simp only [bind, Option.bind_eq_some_iff, pure, Option.some.injEq] at h
    obtain ⟨_, _, _, _, _, _, _, _, rfl⟩ := h
    simp only [List.length_cons]
    omega
  · exact absurd h (by simp)

theorem lowHalf?_length_lt {cs : List Char} {front : Front Nat} (h : lowHalf? cs = some front) :
    front.2.length < cs.length := by
  unfold lowHalf? at h
  split at h
  · have := hexUnit?_length_lt (Option.filter_eq_some_iff.1 h).1
    simp only [List.length_cons]
    omega
  · exact absurd h (by simp)

theorem numberedChar?_length_lt {cs : List Char} {front : Front Char}
    (h : numberedChar? cs = some front) : front.2.length < cs.length := by
  unfold numberedChar? at h
  split at h
  · exact absurd h (by simp)
  · rename_i n rest hn
    have hrest := hexUnit?_length_lt hn
    split at h
    · obtain ⟨low, hlow, rfl⟩ := Option.map_eq_some_iff.1 h
      have := lowHalf?_length_lt hlow
      simp only at hrest ⊢
      omega
    · split at h
      · exact absurd h (by simp)
      · cases h
        exact hrest

theorem stringChar?_length_lt {cs : List Char} {front : Front Char}
    (h : stringChar? cs = some front) : front.2.length < cs.length := by
  unfold stringChar? at h
  split at h
  · have := numberedChar?_length_lt h
    simp only [List.length_cons]
    omega
  · obtain ⟨_, _, rfl⟩ := Option.map_eq_some_iff.1 h
    simp only [List.length_cons]
    omega
  · split at h
    · exact absurd h (by simp)
    · cases h
      simp
  · exact absurd h (by simp)

/-- The characters of a string whose opening quote has been read, up to the closing one. -/
def stringChars? : List Char → Option (Front (List Char))
  | '"' :: rest => some ([], rest)
  | cs =>
    match h : stringChar? cs with
    | none => none
    | some (c, rest) =>
      have := stringChar?_length_lt h
      (stringChars? rest).map fun (more, rest) => (c :: more, rest)
termination_by cs => cs.length

theorem stringChars?_length_lt {cs : List Char} {front : Front (List Char)}
    (h : stringChars? cs = some front) : front.2.length < cs.length := by
  fun_induction stringChars? cs generalizing front with
  | case1 rest =>
    cases h
    simp
  | case2 => exact absurd h (by simp)
  | case3 cs _ c rest hc hlt ih =>
    obtain ⟨more, hmore, rfl⟩ := Option.map_eq_some_iff.1 h
    have := ih hmore
    simp only at hlt ⊢
    omega

/-! ### Numbers -/

/-- The digits at the front. -/
def digits (cs : List Char) : Front (List Nat) :=
  ((cs.takeWhile Char.isDigit).map fun d => d.toNat - '0'.toNat, cs.dropWhile Char.isDigit)

/-- The digits at the front, at least one. -/
def digits? (cs : List Char) : Option (Front (List Nat)) :=
  if (digits cs).1.isEmpty then none else some (digits cs)

/-- The digits before the point; a zero can only be the first when it is the only one. -/
def whole? (cs : List Char) : Option (Front (List Nat)) :=
  (digits? cs).filter fun front => front.1.head? != some 0 || front.1.length == 1

/-- The digits behind the point, if there is one. -/
def fraction? : List Char → Option (Front (Option (List Nat)))
  | '.' :: cs => (digits? cs).map fun front => (some front.1, front.2)
  | cs => some (none, cs)

/-- The sign of an exponent: whether it is negative. -/
def exponentSign : List Char → Front Bool
  | '-' :: cs => (true, cs)
  | '+' :: cs => (false, cs)
  | cs => (false, cs)

/-- The exponent, if there is one. -/
def exponent? : List Char → Option (Front (Option (Bool × List Nat)))
  | c :: cs =>
    if c = 'e' ∨ c = 'E' then
      (digits? (exponentSign cs).2).map fun front =>
        (some ((exponentSign cs).1, front.1), front.2)
    else some (none, c :: cs)
  | [] => some (none, [])

/-- The number at the front, its sign having been read. -/
def numeral? (isNegative : Bool) (cs : List Char) : Option (Front Numeral) := do
  let (whole, cs) ← whole? cs
  let (fraction, cs) ← fraction? cs
  let (exponent, cs) ← exponent? cs
  return (⟨isNegative, whole, fraction, exponent⟩, cs)

theorem digits?_length_lt {cs : List Char} {front : Front (List Nat)}
    (h : digits? cs = some front) : front.2.length < cs.length := by
  unfold digits? at h
  split at h
  · exact absurd h (by simp)
  · rename_i hne
    cases h
    have hlen := congrArg List.length
      (List.takeWhile_append_dropWhile (p := Char.isDigit) (l := cs))
    have hpos : 0 < (cs.takeWhile Char.isDigit).length := by
      cases ht : cs.takeWhile Char.isDigit with
      | nil => simp [digits, ht] at hne
      | cons => simp
    rw [List.length_append] at hlen
    simp only [digits]
    omega

theorem fraction?_length_le {cs : List Char} {front : Front (Option (List Nat))}
    (h : fraction? cs = some front) : front.2.length ≤ cs.length := by
  unfold fraction? at h
  split at h
  · obtain ⟨_, hd, rfl⟩ := Option.map_eq_some_iff.1 h
    have := digits?_length_lt hd
    simp only [List.length_cons]
    omega
  · cases h
    exact Nat.le_refl _

theorem exponentSign_length_le (cs : List Char) : (exponentSign cs).2.length ≤ cs.length := by
  unfold exponentSign
  split <;> simp

theorem exponent?_length_le {cs : List Char} {front : Front (Option (Bool × List Nat))}
    (h : exponent? cs = some front) : front.2.length ≤ cs.length := by
  unfold exponent? at h
  split at h
  · rename_i c cs
    split at h
    · obtain ⟨_, hd, rfl⟩ := Option.map_eq_some_iff.1 h
      have := digits?_length_lt hd
      have := exponentSign_length_le cs
      simp only [List.length_cons]
      omega
    · cases h
      exact Nat.le_refl _
  · cases h
    exact Nat.le_refl _

theorem numeral?_length_lt {isNegative : Bool} {cs : List Char} {front : Front Numeral}
    (h : numeral? isNegative cs = some front) : front.2.length < cs.length := by
  simp only [numeral?, bind, Option.bind_eq_some_iff, pure, Option.some.injEq] at h
  obtain ⟨whole, hw, fraction, hf, exponent, he, rfl⟩ := h
  have := digits?_length_lt (Option.filter_eq_some_iff.1 hw).1
  have := fraction?_length_le hf
  have := exponent?_length_le he
  simp only
  omega

/-! ### All tokens -/

/-- The characters that may stand between tokens. -/
def isBlank (c : Char) : Bool := c == ' ' || c == '\t' || c == '\r' || c == '\n'

/-- What follows the given characters, if the text begins with them. -/
def dropFront? : List Char → List Char → Option (List Char)
  | [], cs => some cs
  | k :: ks, c :: cs => if k = c then dropFront? ks cs else none
  | _ :: _, [] => none

/-- The token that is one punctuation mark, if the character is one. -/
def mark? : Char → Option Token
  | '[' => some .arrayStart
  | ']' => some .arrayEnd
  | '\x7b' => some .objectStart
  | '\x7d' => some .objectEnd
  | ',' => some .comma
  | ':' => some .colon
  | _ => none

/-- The scalar that is a word, if its first letter is the given one, and the other letters. -/
def word? : Char → Option (Document × List Char)
  | 'n' => some (.null, ['u', 'l', 'l'])
  | 't' => some (.bool true, ['r', 'u', 'e'])
  | 'f' => some (.bool false, ['a', 'l', 's', 'e'])
  | _ => none

/-- The scalar at the front of a text that begins with the character. -/
def scalar? (c : Char) (cs : List Char) : Option (Front Document) :=
  match word? c with
  | some (d, letters) => (dropFront? letters cs).map (d, ·)
  | none =>
    if c = '"' then (stringChars? cs).map fun front => (.str (String.ofList front.1), front.2)
    else
      (if c = '-' then numeral? true cs else numeral? false (c :: cs)).bind fun front =>
        front.1.toDocument?.map (·, front.2)

/-- The token at the front of a text that begins with the character, which is no blank. -/
def token? (c : Char) (cs : List Char) : Option (Front Token) :=
  match mark? c with
  | some mark => some (mark, cs)
  | none => (scalar? c cs).map fun front => (.scalar front.1, front.2)

theorem dropFront?_length_le {ks cs rest : List Char} (h : dropFront? ks cs = some rest) :
    rest.length ≤ cs.length := by
  fun_induction dropFront? ks cs with
  | case1 cs =>
    cases h
    exact Nat.le_refl _
  | case2 k ks cs ih =>
    have := ih h
    simp only [List.length_cons]
    omega
  | case3 => exact absurd h (by simp)
  | case4 => exact absurd h (by simp)

theorem scalar?_length_lt {c : Char} {cs : List Char} {front : Front Document}
    (h : scalar? c cs = some front) : front.2.length < (c :: cs).length := by
  unfold scalar? at h
  simp only [List.length_cons]
  split at h
  · obtain ⟨_, hd, rfl⟩ := Option.map_eq_some_iff.1 h
    have := dropFront?_length_le hd
    simp only
    omega
  · split at h
    · obtain ⟨_, hs, rfl⟩ := Option.map_eq_some_iff.1 h
      have := stringChars?_length_lt hs
      simp only
      omega
    · obtain ⟨n, hn, hd⟩ := Option.bind_eq_some_iff.1 h
      obtain ⟨_, _, rfl⟩ := Option.map_eq_some_iff.1 hd
      split at hn
      · have := numeral?_length_lt hn
        simp only
        omega
      · have := numeral?_length_lt hn
        simpa using this

/-- What follows a token is shorter than the text that it was read from. -/
theorem token?_length_lt {c : Char} {cs : List Char} {front : Front Token}
    (h : token? c cs = some front) : front.2.length < (c :: cs).length := by
  unfold token? at h
  split at h
  · cases h
    simp
  · obtain ⟨_, hs, rfl⟩ := Option.map_eq_some_iff.1 h
    exact scalar?_length_lt hs

/-- The tokens of a text. -/
def tokens? : List Char → Option (List Token)
  | [] => some []
  | c :: cs =>
    if isBlank c then tokens? cs
    else
      match h : token? c cs with
      | none => none
      | some (token, rest) =>
        have : rest.length < (c :: cs).length := token?_length_lt h
        (tokens? rest).map (token :: ·)
termination_by cs => cs.length
decreasing_by
  · exact Nat.lt_succ_self _
  · exact this

end DataExpr.Document
