/-!
# Byte offsets of characters

Spans count bytes of UTF-8, while text is read character by character.  `Text.utf8Length` is the
number of bytes that a list of characters takes; it is additive over concatenation
(`utf8Length_append`), so offsets of consecutive pieces add up.

`Text.charsBefore` goes the other way: it counts the characters that begin before a byte offset.
-/

namespace DataExpr.Text

/-- The number of bytes that the characters take in UTF-8. -/
def utf8Length : List Char → Nat
  | [] => 0
  | c :: cs => c.utf8Size + utf8Length cs

@[simp] theorem utf8Length_nil : utf8Length [] = 0 := rfl

@[simp] theorem utf8Length_cons (c : Char) (cs : List Char) :
    utf8Length (c :: cs) = c.utf8Size + utf8Length cs := rfl

@[simp] theorem utf8Length_append (as bs : List Char) :
    utf8Length (as ++ bs) = utf8Length as + utf8Length bs := by
  induction as with
  | nil => simp
  | cons a as ih => simp [ih, Nat.add_assoc]

/-- Every character takes at least one byte, so there are never more characters than bytes. -/
theorem length_le_utf8Length (cs : List Char) : cs.length ≤ utf8Length cs := by
  induction cs with
  | nil => simp
  | cons c cs ih =>
    have := c.utf8Size_pos
    simp only [List.length_cons, utf8Length_cons]
    omega

/-- How many of the characters begin before the byte offset. -/
def charsBefore : List Char → Nat → Nat
  | [], _ => 0
  | _ :: _, 0 => 0
  | c :: cs, offset => 1 + charsBefore cs (offset - c.utf8Size)

/-- The offset at the end of a piece of text has exactly the characters of that piece before it. -/
theorem charsBefore_utf8Length (as bs : List Char) :
    charsBefore (as ++ bs) (utf8Length as) = as.length := by
  induction as with
  | nil => cases bs <;> simp [charsBefore]
  | cons a as ih =>
    have ha := a.utf8Size_pos
    have hne : a.utf8Size + utf8Length as ≠ 0 := by omega
    simp only [List.cons_append, utf8Length_cons, List.length_cons]
    rw [charsBefore]
    · simp only [Nat.add_sub_cancel_left, ih]
      omega
    · exact fun h => hne h

end DataExpr.Text
