import DataExpr.Proofs.Expr.Grammar.Reads
import DataExpr.Proofs.Expr.Printable
import DataExpr.Proofs.Expr.Tokens
import DataExpr.Proofs.Lists

/-!
# Printing and reading are inverse

Reading gives printable trees only, and a printable tree is printed as text that reads back as a
tree of the same shape (`Expr.print_inverse`).  For the second part an induction on the tree derives
its tokens in the grammar (`Expr.Printable.derived`), at each place where the printer writes them
without parentheses, and what the grammar derives is read.
-/

namespace DataExpr

/-! ### Tokens of literals -/

namespace Literal

theorem token_ident {name : String} (h : Text.isIdentifier name = true) :
    (ident name).token = Lexeme.word name.toList := if_pos h

/-- The token of a name is an identifier, or an underscore if that is the name. -/
theorem token_ident_cases {name : String} (h : Text.isIdentifier name = true) :
    (ident name).token = .ident name ∨ name = "_" ∧ (ident name).token = .underscore := by
  rw [token_ident h, Lexeme.word]
  by_cases hname : name.toList = ['_']
  · right
    exact ⟨String.toList_injective hname, if_pos hname⟩
  · left
    rw [if_neg hname, String.ofList_toList]

theorem key_token {l : Literal} (h : l.isKey = true) : Grammar.Key l.token l := by
  cases l with
  | ident name =>
    rcases token_ident_cases h with htoken | ⟨rfl, htoken⟩
    · rw [htoken]
      exact .ident name
    · rw [htoken]
      exact .underscore
  | str s => exact .str s
  | int n => exact absurd h Bool.false_ne_true
  | placeholder i => exact .placeholder i

theorem fieldKey_token {l : Literal} (h : l.isFieldKey = true) : Grammar.FieldKey l.token l := by
  cases l with
  | int n => exact .int n
  | ident name => exact .key (key_token h)
  | str s => exact .key (.str s)
  | placeholder i => exact .key (.placeholder i)

theorem bound_token {bound : Option Literal} (h : ∀ l ∈ bound, l.isBound = true) :
    Grammar.Bound (bound.map token).toList bound := by
  cases bound with
  | none => exact .absent
  | some l =>
    have hl := h l rfl
    cases l with
    | int n => exact .int n
    | placeholder i => exact .placeholder i
    | _ => exact absurd hl Bool.false_ne_true

end Literal

namespace Expr

open Grammar (Operand Sequence Whole Field Fields Element Elements maybe)

/-! ### Parentheses -/

/-- Whether the tokens of a tree derive the tree wherever no parentheses are needed. -/
structure Derived (e : Expr) : Prop where
  operand : 2 ≤ e.strength → Operand e.tokens e
  sequence : 1 ≤ e.strength → Sequence e.tokens e
  whole : Whole e.tokens e

namespace Derived

variable {e : Expr}

theorem of_operand (h : Operand e.tokens e) : Derived e :=
  ⟨fun _ => h, fun _ => .operand h, .sequence (.operand h)⟩

theorem of_sequence (hstrength : e.strength < 2) (h : Sequence e.tokens e) : Derived e :=
  ⟨fun htwo => absurd htwo (Nat.not_le.2 hstrength), fun _ => h, .sequence h⟩

theorem of_whole (hstrength : e.strength < 1) (h : Whole e.tokens e) : Derived e :=
  ⟨fun htwo => absurd htwo (by omega), fun hone => absurd hone (Nat.not_le.2 hstrength), h⟩

/-- The tree in parentheses. -/
theorem parentheses (h : Derived e) : Operand (.leftParen :: (e.tokens ++ [.rightParen])) e := by
  obtain ⟨kind, span⟩ := e
  exact .group h.whole span

theorem grouped_operand (h : Derived e) : Operand (grouped 2 e.strength e.tokens) e := by
  unfold grouped
  split
  · exact h.parentheses
  · exact h.operand (by omega)

theorem grouped_sequence (h : Derived e) : Sequence (grouped 1 e.strength e.tokens) e := by
  unfold grouped
  split
  · exact .operand h.parentheses
  · exact h.sequence (by omega)

theorem grouped_whole (h : Derived e) : Whole (grouped 0 e.strength e.tokens) e := by
  rw [grouped, if_neg (Nat.not_lt_zero _)]
  exact h.whole

end Derived

/-! ### Entries -/

theorem field_tokens {x : ObjectEntry} (hkey : x.isKeyed = true) (hvalue : Derived x.value) :
    Field (objectEntryTokens x) x := by
  cases x with
  | field k optional v => exact .field (Literal.fieldKey_token hkey) optional hvalue.whole
  | rest e => exact .rest hvalue.whole

theorem element_tokens {x : ArrayEntry} (hvalue : Derived x.value) :
    Element (arrayEntryTokens x) x := by
  cases x with
  | item e => exact .item hvalue.whole
  | rest e => exact .rest hvalue.whole

/-- The tokens of entries with commas between them, where the list of entries grows at its end. -/
theorem derives_intercalate {α : Type} {entry : List TokenKind → α → Prop}
    {entries : List TokenKind → List α → Prop} {tokens : α → List TokenKind}
    (hmore : ∀ {ks ks' xs x}, entries ks xs → entry ks' x →
      entries (ks ++ .comma :: ks') (xs ++ [x]))
    {xs : List α} (hxs : ∀ x ∈ xs, entry (tokens x) x) {ks : List TokenKind} {done : List α}
    (hdone : entries ks done) :
    entries ([.comma].intercalate (ks :: xs.map tokens)) (done ++ xs) := by
  -- The first entry that is left joins those that are done.
  induction xs generalizing ks done with
  | nil =>
    rw [List.map_nil, List.intercalate_singleton, List.append_nil]
    exact hdone
  | cons x xs ih =>
    have hx := hxs x List.mem_cons_self
    have hrest := ih (fun y hy => hxs y (List.mem_cons_of_mem _ hy)) (hmore hdone hx)
    rw [List.append_assoc, List.singleton_append, List.append_cons,
      Lists.intercalate_append_cons] at hrest
    rw [List.map_cons, List.intercalate_cons_cons]
    exact hrest

theorem fields_tokens {x : ObjectEntry} {es : List ObjectEntry}
    (hes : ∀ y ∈ x :: es, Field (objectEntryTokens y) y) :
    Fields ([.comma].intercalate ((x :: es).map objectEntryTokens)) (x :: es) :=
  derives_intercalate Fields.more (fun y hy => hes y (List.mem_cons_of_mem _ hy))
    (Fields.one (hes x List.mem_cons_self))

theorem elements_tokens {x : ArrayEntry} {es : List ArrayEntry}
    (hes : ∀ y ∈ x :: es, Element (arrayEntryTokens y) y) :
    Elements ([.comma].intercalate ((x :: es).map arrayEntryTokens)) (x :: es) :=
  derives_intercalate Elements.more (fun y hy => hes y (List.mem_cons_of_mem _ hy))
    (Elements.one (hes x List.mem_cons_self))

/-! ### Trees -/

variable {s : Span}

theorem operand_object {es : List ObjectEntry} (hes : ∀ x ∈ es, Field (objectEntryTokens x) x) :
    Operand (tokens ⟨.object es, s⟩) ⟨.object es, s⟩ := by
  rw [tokens, objectTokens_eq_map]
  cases es with
  | nil => exact .emptyObject s
  | cons x es => exact .object (fields_tokens hes) false s

theorem operand_array {es : List ArrayEntry} (hes : ∀ x ∈ es, Element (arrayEntryTokens x) x) :
    Operand (tokens ⟨.array es, s⟩) ⟨.array es, s⟩ := by
  rw [tokens, arrayTokens_eq_map]
  cases es with
  | nil => exact .emptyArray s
  | cons x es => exact .array (elements_tokens hes) false s

theorem operand_index {i : Literal} (hi : i.isIndex = true) (optional : Bool) :
    Operand (tokens ⟨.index i optional, s⟩) ⟨.index i optional, s⟩ := by
  cases i with
  | int n => exact .index n optional s
  | _ => exact absurd hi Bool.false_ne_true

theorem operand_slice {a b : Option Literal} (ha : ∀ l ∈ a, l.isBound = true)
    (hb : ∀ l ∈ b, l.isBound = true) : Operand (tokens ⟨.slice a b, s⟩) ⟨.slice a b, s⟩ := by
  have hslice := Operand.slice (Literal.bound_token ha) (Literal.bound_token hb) s
  rw [tokens, List.append_assoc, List.append_assoc]
  exact hslice

theorem operand_literal {l : Literal} (hl : l.isAtom = true) :
    Operand (tokens ⟨.literal l, s⟩) ⟨.literal l, s⟩ := by
  cases l with
  | ident name => exact absurd hl Bool.false_ne_true
  | str text => exact .str text s
  | int n => exact .int n s
  | placeholder i => exact .placeholder i s

/-- The tokens of every printable tree derive the tree. -/
theorem Printable.derived {e : Expr} (h : e.Printable) : Derived e := by
  induction h with
  | alt _ _ ihl ihr =>
    refine .of_whole Nat.zero_lt_one ?_
    rw [tokens, List.append_assoc]
    exact .alt ihl.grouped_whole ihr.grouped_sequence _
  | seq _ _ ihl ihr =>
    refine .of_sequence Nat.one_lt_two ?_
    rw [tokens, List.append_nil]
    exact .seq ihl.grouped_sequence ihr.grouped_operand _
  | lookahead _ ih => exact .of_sequence Nat.one_lt_two (.lookahead ih.grouped_sequence _)
  | cut _ ih => exact .of_sequence Nat.one_lt_two (.cut ih.grouped_sequence _)
  | object hkeys _ ih =>
    exact .of_operand (operand_object fun x hx => field_tokens (hkeys x hx) (ih x hx))
  | array _ ih => exact .of_operand (operand_array fun x hx => element_tokens (ih x hx))
  | key hk => exact .of_operand (.key (Literal.key_token hk) _ _)
  | index hi => exact .of_operand (operand_index hi _)
  | slice ha hb => exact .of_operand (operand_slice ha hb)
  | spread => exact .of_operand (.spread _)
  | descent => exact .of_operand (.descent _)
  | self => exact .of_operand (.self _)
  | literal hl => exact .of_operand (operand_literal hl)

/-! ### Whole texts -/

/-- The tokens of a printed tree, up to spans. -/
theorem map_kind_scan_print (e : Expr) :
    (Token.scan e.print).map Token.kind = e.tokens ++ [.eof] := by
  have hspells := e.spells_print [] Token.apart_nil
  rw [List.append_nil, Token.kinds_nil] at hspells
  rw [Token.map_kind_scan, hspells]

/-- What is printed for a printable tree reads back as a tree of the same shape. -/
theorem read_print {e : Expr} (h : e.Printable) :
    ∃ e', read e.print = .ok e' ∧ e.sameShape e' = true :=
  parse_of_whole h.derived.whole (map_kind_scan_print e)

/-- Printing and reading are inverse: only printable trees are read, and every printable tree is
printed as text that reads back as a tree of the same shape. -/
theorem print_inverse :
    (∀ (source : String) (e : Expr), read source = .ok e → e.Printable) ∧
    ∀ e : Expr, e.Printable → ∃ e', read e.print = .ok e' ∧ e.sameShape e' = true :=
  ⟨fun _ _ h => printable_of_read h, fun _ h => read_print h⟩

/-- An alternation inside a sequence, an optional field and a rest entry that begins with a dot. -/
def nested : Expr :=
  ⟨.seq ⟨.alt ⟨.key (.ident "a") true, .dummy⟩ ⟨.index (.int (-1)) false, .dummy⟩, .dummy⟩
    ⟨.object [.field (.ident "_") true ⟨.cut ⟨.literal (.str "\"π\""), .dummy⟩, .dummy⟩,
      .rest ⟨.slice none (some (.placeholder 3)), .dummy⟩], .dummy⟩, .dummy⟩

theorem printable_nested : nested.Printable := by
  refine .seq (.alt (.key (by decide)) (.index rfl)) (.object (by decide) fun x hx => ?_)
  rcases List.mem_cons.1 hx with rfl | hx
  · exact .cut (.literal rfl)
  · rw [List.mem_singleton.1 hx]
    exact .slice nofun fun l hl => by cases hl; rfl

/-- What is printed for `nested` reads back as a tree of its shape, which again is printable. -/
theorem print_inverse_nested :
    nested.print = "(.a? | .-1) \x7b_?: \"\\\"π\\\"\" !, ... .[:<3>]\x7d" ∧
    ∃ e', read nested.print = .ok e' ∧ nested.sameShape e' = true ∧ e'.Printable := by
  obtain ⟨e', hread, hsame⟩ := print_inverse.2 nested printable_nested
  exact ⟨rfl, e', hread, hsame, print_inverse.1 nested.print e' hread⟩

end Expr

end DataExpr
