import DataExpr.Pattern.Printer
import DataExpr.Proofs.Expr.RoundTrip
import DataExpr.Proofs.Pattern.Written

/-!
# Patterns read back

What is printed for a written pattern denotes the pattern (`Pattern.Written.readsBack`).  The
text is that of a tree which is compiled to the pattern (`Pattern.Notates`): a sequence is written as
a chain of juxtapositions and an alternative as a chain of bars, with parentheses where a tree would
have them.  Strings and keys are quoted in their own way, which makes no difference to plain texts.
-/

namespace DataExpr

open Token (Opens Separates Spells)
open DataExpr.Expr (grouped operand)

/-! ### Keys -/

namespace Literal

/-- The literal that a key is written as. -/
def named (name : String) : Literal := if Text.isIdentifier name then .ident name else .str name

variable {name : String}

theorem isKey_named (name : String) : (named name).isKey = true := by
  unfold named
  split
  · assumption
  · rfl

theorem isFieldKey_named (name : String) : (named name).isFieldKey = true := by
  unfold named
  split
  · assumption
  · rfl

theorem keyPattern_named (name : String) (optional : Bool) (s : Span) :
    Expr.keyPattern [] (named name) optional s = .ok (.key name optional) := by
  unfold named
  split <;> rfl

theorem fieldKey_named (name : String) (s : Span) :
    Expr.fieldKey [] (named name) s = .ok name := by
  unfold named
  split <;> rfl

/-- A plain key is read as one token. -/
theorem spells_keyText (h : Text.isPlain name = true) :
    Spells (keyText name) [(named name).token] := by
  unfold keyText named
  split
  · rename_i hname
    rw [token_ident hname]
    exact Token.spells_word hname
  · exact Token.spells_quoted h

end Literal

/-! ### Trees of patterns -/

namespace Pattern

/-- Whether the tree is one for the pattern, and the text of the pattern is that of the tree. -/
structure Notates (p : Pattern) (e : Expr) : Prop where
  printable : e.Printable
  spells : Spells p.print e.tokens
  operand : operand [] e = .ok p.asOperand
  isChoice : p.isChoice = decide (e.strength < 1)
  isCompound : p.isCompound = decide (e.strength < 2)

/-- Whether there is a tree for the pattern with its text. -/
def Readable (p : Pattern) : Prop := ∃ e, Notates p e

variable {p : Pattern} {e : Expr} {text : String} {ks : List TokenKind}

theorem spells_wrapped {needed strength : Nat} (h : Spells text ks) :
    Spells (wrapped (decide (strength < needed)) text) (grouped needed strength ks) := by
  have hgrouped := Expr.spells_grouped h needed strength
  simpa [wrapped, Expr.parenthesized] using hgrouped

/-- Before an operator only an alternative has parentheses. -/
theorem Notates.spells_first (h : Notates p e) :
    Spells (wrapped p.isChoice p.print) (grouped 1 e.strength e.tokens) := by
  rw [h.isChoice]
  exact spells_wrapped h.spells

/-- Behind another step everything that is no single operand has parentheses. -/
theorem Notates.spells_next (h : Notates p e) :
    Spells (wrapped p.isCompound p.print) (grouped 2 e.strength e.tokens) := by
  rw [h.isCompound]
  exact spells_wrapped h.spells

/-! ### Atoms -/

/-- A tree of one operand. -/
theorem Notates.of_operand (hprintable : e.Printable) (hspells : Spells p.print e.tokens)
    (hoperand : Expr.operand [] e = .ok p.asOperand) (hstrength : e.strength = 2)
    (hcompound : p.isCompound = false) : Notates p e where
  printable := hprintable
  spells := hspells
  operand := hoperand
  isChoice := by
    rw [hstrength]
    unfold Pattern.isChoice
    split
    · cases hcompound
    · rfl
  isCompound := by
    rw [hstrength, hcompound]
    rfl

theorem readable_self : Readable self :=
  ⟨⟨.self, .dummy⟩, .of_operand .self (Token.spells_word (by decide)) rfl rfl rfl⟩

theorem readable_str (h : Text.isPlain text = true) : Readable (value (.str text)) :=
  ⟨⟨.literal (.str text), .dummy⟩,
    .of_operand (.literal rfl) (Token.spells_quoted h) rfl rfl rfl⟩

theorem readable_int (n : Int64) : Readable (value (.int n)) :=
  ⟨⟨.literal (.int n), .dummy⟩, .of_operand (.literal rfl) (Token.spells_int n) rfl rfl rfl⟩

theorem readable_key {name : String} (h : Text.isPlain name = true) (optional : Bool) :
    Readable (key name optional) := by
  have hkey := Literal.spells_keyText h
  have hdot := hkey.dot (hkey.head_ne (Literal.token_ne_dots _))
  refine ⟨⟨.key (.named name) optional, .dummy⟩, .of_operand (.key (Literal.isKey_named name))
    (Expr.spells_question hdot optional) ?_ rfl rfl⟩
  rw [Expr.operand, Literal.keyPattern_named]
  rfl

theorem readable_index (i : Int64) (optional : Bool) : Readable (index i optional) :=
  ⟨⟨.index (.int i) optional, .dummy⟩,
    .of_operand (.index rfl) (Expr.spells_access (.int i) optional) rfl rfl rfl⟩

theorem readable_slice (start stop : Option Int64) : Readable (slice start stop) := by
  -- A bound that is absent is written as nothing, so the texts agree case by case.
  have hspells := Expr.spells_slice (start.map .int) (stop.map .int)
  have hbound : ∀ {bound : Option Int64}, ∀ l ∈ bound.map Literal.int, l.isBound = true := by
    rintro (_ | n) l hl <;> cases hl
    rfl
  refine ⟨⟨.slice (start.map .int) (stop.map .int), .dummy⟩,
    .of_operand (.slice hbound hbound) ?_ ?_ rfl rfl⟩
  · cases start <;> cases stop <;> exact hspells
  · cases start <;> cases stop <;> rfl

theorem readable_spread : Readable spread :=
  ⟨⟨.spread, .dummy⟩, .of_operand .spread Token.spells_star rfl rfl rfl⟩

theorem readable_descent : Readable (descend 1) :=
  ⟨⟨.descent, .dummy⟩, .of_operand .descent Token.spells_stars rfl rfl rfl⟩

/-! ### Postfix operators -/

theorem Readable.lookahead (h : Readable p) : Readable (lookahead p) := by
  obtain ⟨e, he⟩ := h
  refine ⟨⟨.lookahead e, .dummy⟩, .lookahead he.printable,
    he.spells_first.then (Token.separates_punctuation rfl rfl rfl), ?_, rfl, rfl⟩
  rw [Expr.operand, he.operand]
  exact congrArg (fun q => Except.ok (Operand.atom (Pattern.lookahead q))) p.pattern_asOperand

theorem Readable.cut (h : Readable p) : Readable p.cut := by
  obtain ⟨e, he⟩ := h
  refine ⟨⟨.cut e, .dummy⟩, .cut he.printable,
    he.spells_first.then (Token.separates_punctuation rfl rfl rfl), ?_, rfl, rfl⟩
  rw [Expr.operand, he.operand]
  exact congrArg (fun q => Except.ok (Operand.atom q.cut)) p.pattern_asOperand

end Pattern

/-! ### Chains -/

/-- An operator between two trees, and how compiling joins the parts on its two sides. -/
structure Infix where
  node : Expr → Expr → Expr.Kind
  /-- How tightly the operator binds. -/
  strength : Nat
  text : String
  tokens : List TokenKind
  /-- The operand that keeps the parts apart. -/
  join : List Pattern → Operand
  /-- The parts of an operand where it stands beside the operator. -/
  parts : Operand → List Pattern
  separates : Separates text tokens
  printable_node : ∀ {l r : Expr}, l.Printable → r.Printable →
    Expr.Printable ⟨node l r, .dummy⟩
  strength_node : ∀ l r : Expr, Expr.strength ⟨node l r, .dummy⟩ = strength
  /-- The operator binds to the left. -/
  tokens_node : ∀ l r : Expr, Expr.tokens ⟨node l r, .dummy⟩ =
    grouped strength l.strength l.tokens ++ tokens ++ grouped (strength + 1) r.strength r.tokens
  operand_node : ∀ {l r : Expr} {ol or : Operand}, operand [] l = .ok ol → operand [] r = .ok or →
    operand [] ⟨node l r, .dummy⟩ = .ok (join (parts ol ++ parts or))
  parts_join : ∀ ps, parts (join ps) = ps

namespace Infix

/-- The alternative. -/
def bar : Infix where
  node := .alt
  strength := 0
  text := " | "
  tokens := [.pipe]
  join := .branches
  parts := Operand.asBranches
  separates := Expr.separates_pipe
  printable_node := .alt
  strength_node _ _ := rfl
  tokens_node _ _ := by rw [Expr.tokens]
  operand_node hl hr := by
    rw [operand, hl, hr]
    rfl
  parts_join _ := rfl

/-- Juxtaposition. -/
def space : Infix where
  node := .seq
  strength := 1
  text := " "
  tokens := []
  join := .steps
  parts := Operand.asSteps
  separates := Expr.separates_space
  printable_node := .seq
  strength_node _ _ := rfl
  tokens_node _ _ := by rw [Expr.tokens]
  operand_node hl hr := by
    rw [operand, hl, hr]
    rfl
  parts_join _ := rfl

variable {op : Infix} {text text' : String} {needed : Nat} {p q : Pattern} {ps : List Pattern}
  {l r : Expr}

/-- Whether the text is that of a tree with the pattern as its single part, where a tree of the
strength is needed. -/
structure Side (op : Infix) (needed : Nat) (text : String) (p : Pattern) (e : Expr) : Prop where
  printable : e.Printable
  spells : Spells text (grouped needed e.strength e.tokens)
  operand : ∃ o, operand [] e = .ok o ∧ op.parts o = [p]

/-- Whether the text is that of a tree with the patterns as its parts. -/
structure Chain (op : Infix) (text : String) (ps : List Pattern) (e : Expr) : Prop where
  printable : e.Printable
  spells : Spells text e.tokens
  strength : e.strength = op.strength
  operand : operand [] e = .ok (op.join ps)

/-- Two sides are a chain. -/
theorem chain_pair (hl : Side op op.strength text p l) (hr : Side op (op.strength + 1) text' q r) :
    Chain op (text ++ op.text ++ text') [p, q] ⟨op.node l r, .dummy⟩ where
  printable := op.printable_node hl.printable hr.printable
  spells := by
    rw [op.tokens_node]
    exact hl.spells.joined op.separates hr.spells
  strength := op.strength_node l r
  operand := by
    obtain ⟨ol, hol, hp⟩ := hl.operand
    obtain ⟨or, hor, hq⟩ := hr.operand
    rw [op.operand_node hol hor, hp, hq]
    rfl

/-- A chain is itself a left side, and its parts stay apart. -/
theorem Chain.push (hl : Chain op text ps l) (hr : Side op (op.strength + 1) text' q r) :
    Chain op (text ++ op.text ++ text') (ps ++ [q]) ⟨op.node l r, .dummy⟩ where
  printable := op.printable_node hl.printable hr.printable
  spells := by
    have hleft : grouped op.strength l.strength l.tokens = l.tokens := by
      rw [grouped, hl.strength, if_neg (Nat.lt_irrefl _)]
    rw [op.tokens_node, hleft]
    exact hl.spells.joined op.separates hr.spells
  strength := op.strength_node l r
  operand := by
    obtain ⟨or, hor, hq⟩ := hr.operand
    rw [op.operand_node hl.operand hor, op.parts_join, hq]

/-- The first two texts may be joined before the others. -/
theorem intercalate_join (sep a b : String) (texts : List String) :
    sep.intercalate ((a ++ sep ++ b) :: texts) = sep.intercalate (a :: b :: texts) := by
  cases texts with
  | nil => simp [String.intercalate_cons_cons]
  | cons c texts => simp [String.intercalate_cons_cons, String.append_assoc]

/-- A chain goes on with the sides to its right. -/
theorem Chain.pushAll {write : Pattern → String} {qs : List Pattern} (h : Chain op text ps l)
    (hqs : ∀ q ∈ qs, ∃ r, Side op (op.strength + 1) (write q) q r) :
    ∃ e, Chain op (op.text.intercalate (text :: qs.map write)) (ps ++ qs) e := by
  induction qs generalizing text ps l with
  | nil =>
    refine ⟨l, ?_⟩
    simpa using h
  | cons q qs ih =>
    obtain ⟨⟨r, hr⟩, hrest⟩ := List.forall_mem_cons.1 hqs
    have hall := ih (h.push hr) hrest
    rw [intercalate_join, List.append_assoc] at hall
    exact hall

/-- Two sides or more are a chain. -/
theorem exists_chain {write : Pattern → String} {qs : List Pattern}
    (hp : ∃ l, Side op op.strength text p l)
    (hqs : ∀ r ∈ q :: qs, ∃ e, Side op (op.strength + 1) (write r) r e) :
    ∃ e, Chain op (op.text.intercalate (text :: (q :: qs).map write)) (p :: q :: qs) e := by
  obtain ⟨l, hl⟩ := hp
  obtain ⟨⟨r, hr⟩, hrest⟩ := List.forall_mem_cons.1 hqs
  have hall := (chain_pair hl hr).pushAll hrest
  rw [intercalate_join] at hall
  exact hall

end Infix

namespace Pattern

open Infix (Side Chain)

variable {p : Pattern} {e : Expr}

/-! ### Sequences and alternatives -/

theorem printOperands_eq_map (ps : List Pattern) :
    printOperands ps = ps.map fun p => wrapped p.isCompound p.print := by
  induction ps with
  | nil => rfl
  | cons p ps ih => rw [printOperands, ih, List.map_cons]

theorem printBranches_eq_map (ps : List Pattern) :
    printBranches ps = ps.map fun p => wrapped p.isChoice p.print := by
  induction ps with
  | nil => rfl
  | cons p ps ih => rw [printBranches, ih, List.map_cons]

theorem asSteps_asOperand (hflat : ∀ qs, p ≠ seq qs) : p.asOperand.asSteps = [p] := by
  cases p with
  | seq qs => exact absurd rfl (hflat qs)
  | _ => rfl

theorem asBranches_asOperand (hflat : ∀ qs, p ≠ alt qs) : p.asOperand.asBranches = [p] := by
  cases p with
  | alt qs => exact absurd rfl (hflat qs)
  | _ => rfl

/-- The first step of a sequence. -/
theorem Notates.side_first (h : Notates p e) (hflat : ∀ qs, p ≠ seq qs) :
    Side .space 1 (wrapped p.isChoice p.print) p e :=
  ⟨h.printable, h.spells_first, _, h.operand, asSteps_asOperand hflat⟩

/-- Any other step of a sequence. -/
theorem Notates.side_next (h : Notates p e) (hflat : ∀ qs, p ≠ seq qs) :
    Side .space 2 (wrapped p.isCompound p.print) p e :=
  ⟨h.printable, h.spells_next, _, h.operand, asSteps_asOperand hflat⟩

/-- A branch of an alternative never has parentheses, so the first one does not need them. -/
theorem Notates.side_branch (h : Notates p e) (hflat : ∀ qs, p ≠ alt qs) {needed : Nat}
    (hneeded : needed ≤ 1) : Side .bar needed (wrapped p.isChoice p.print) p e := by
  have hchoice : p.isChoice = false := by
    cases p with
    | alt qs => exact absurd rfl (hflat qs)
    | _ => rfl
  have hstrength : ¬ e.strength < 1 := by
    have hdecide := h.isChoice
    rw [hchoice] at hdecide
    exact of_decide_eq_false hdecide.symm
  refine ⟨h.printable, ?_, _, h.operand, asBranches_asOperand hflat⟩
  rw [hchoice, grouped, if_neg (fun hlt => hstrength (hlt.trans_le hneeded))]
  exact h.spells

theorem readable_seq {ps : List Pattern} (hlength : 2 ≤ ps.length)
    (hflat : ∀ p ∈ ps, ∀ qs, p ≠ seq qs) (hparts : ∀ p ∈ ps, Readable p) : Readable (seq ps) := by
  match ps, hlength with
  | p :: q :: ps, _ =>
    obtain ⟨⟨l, hl⟩, hrest⟩ := List.forall_mem_cons.1 hparts
    obtain ⟨hp, hflat⟩ := List.forall_mem_cons.1 hflat
    have hsides : ∀ r ∈ q :: ps, ∃ e, Side .space 2 (wrapped r.isCompound r.print) r e := by
      intro r hr
      obtain ⟨e, he⟩ := hrest r hr
      exact ⟨e, he.side_next (hflat r hr)⟩
    obtain ⟨e, he⟩ := Infix.exists_chain ⟨l, hl.side_first hp⟩ hsides
    have hstrength : e.strength = 1 := he.strength
    refine ⟨e, he.printable, ?_, he.operand, ?_, ?_⟩
    · rw [print, printOperands_eq_map]
      exact he.spells
    all_goals rw [hstrength]; rfl

theorem readable_alt {ps : List Pattern} (hlength : 2 ≤ ps.length)
    (hflat : ∀ p ∈ ps, ∀ qs, p ≠ alt qs) (hparts : ∀ p ∈ ps, Readable p) : Readable (alt ps) := by
  match ps, hlength with
  | p :: q :: ps, _ =>
    obtain ⟨⟨l, hl⟩, hrest⟩ := List.forall_mem_cons.1 hparts
    obtain ⟨hp, hflat⟩ := List.forall_mem_cons.1 hflat
    have hsides : ∀ r ∈ q :: ps, ∃ e, Side .bar 1 (wrapped r.isChoice r.print) r e := by
      intro r hr
      obtain ⟨e, he⟩ := hrest r hr
      exact ⟨e, he.side_branch (hflat r hr) (Nat.le_refl 1)⟩
    obtain ⟨e, he⟩ := Infix.exists_chain ⟨l, hl.side_branch hp (Nat.zero_le 1)⟩ hsides
    have hstrength : e.strength = 0 := he.strength
    refine ⟨e, he.printable, ?_, he.operand, ?_, ?_⟩
    · rw [print, printBranches_eq_map]
      exact he.spells
    all_goals rw [hstrength]; rfl

/-! ### Shapes -/

/-- Whether the entries are those of an object pattern with the fields and the rest. -/
structure NotatesObject (fields : List (Field Pattern)) (rest : Option Pattern)
    (es : List Expr.ObjectEntry) : Prop where
  keyed : ∀ x ∈ es, x.isKeyed = true
  printable : ∀ x ∈ es, x.value.Printable
  spells : List.Forall₂ Spells (printFields fields ++ printRest rest) (Expr.objectTokens es)
  parts : Expr.objectParts [] es false = .ok (fields, rest)

theorem exists_object {fields : List (Field Pattern)} {rest : Option Pattern}
    (hkeys : ∀ f ∈ fields, Text.isPlain f.key = true)
    (hfields : ∀ f ∈ fields, Readable f.pattern) (hrest : ∀ p ∈ rest, Readable p) :
    ∃ es, NotatesObject fields rest es := by
  -- The rest is written last, so it is the end of the induction along the fields.
  induction fields with
  | nil =>
    cases rest with
    | none => exact ⟨[], nofun, nofun, .nil, rfl⟩
    | some p =>
      obtain ⟨e, he⟩ := hrest p rfl
      refine ⟨[.rest e], List.forall_mem_singleton.2 rfl, List.forall_mem_singleton.2 he.printable,
        .cons he.spells.afterDots .nil, ?_⟩
      simp only [Expr.objectParts, he.operand]
      exact congrArg (fun q => Except.ok ([], some q)) p.pattern_asOperand
  | cons f fields ih =>
    obtain ⟨name, optional, p⟩ := f
    obtain ⟨hname, hkeys⟩ := List.forall_mem_cons.1 hkeys
    obtain ⟨⟨e, he⟩, hfields⟩ := List.forall_mem_cons.1 hfields
    obtain ⟨es, hes⟩ := ih hkeys hfields
    have hkey : Spells (keyText name ++ optionalMark optional) _ :=
      Expr.spells_question (Literal.spells_keyText hname) optional
    have hfield := hkey.joined Expr.separates_colon he.spells
    refine ⟨.field (.named name) optional e :: es,
      List.forall_mem_cons.2 ⟨Literal.isFieldKey_named name, hes.keyed⟩,
      List.forall_mem_cons.2 ⟨he.printable, hes.printable⟩, .cons ?_ hes.spells, ?_⟩
    · simpa [Expr.objectEntryTokens] using hfield
    · rw [Expr.objectParts, Literal.fieldKey_named, he.operand, hes.parts]
      exact congrArg (fun q => Except.ok (⟨name, optional, q⟩ :: fields, rest)) p.pattern_asOperand

/-- Whether the entries are those of an array pattern with the items and the rest. -/
structure NotatesArray (ps : List Pattern) (rest : Option Pattern) (es : List Expr.ArrayEntry) :
    Prop where
  printable : ∀ x ∈ es, x.value.Printable
  spells : List.Forall₂ Spells (printItems ps ++ printRest rest) (Expr.arrayTokens es)
  parts : Expr.arrayParts [] es = .ok (ps, rest)

theorem exists_array {ps : List Pattern} {rest : Option Pattern} (hitems : ∀ p ∈ ps, Readable p)
    (hrest : ∀ p ∈ rest, Readable p) : ∃ es, NotatesArray ps rest es := by
  induction ps with
  | nil =>
    cases rest with
    | none => exact ⟨[], nofun, .nil, rfl⟩
    | some p =>
      obtain ⟨e, he⟩ := hrest p rfl
      refine ⟨[.rest e], List.forall_mem_singleton.2 he.printable,
        .cons he.spells.afterDots .nil, ?_⟩
      simp only [Expr.arrayParts, he.operand]
      exact congrArg (fun q => Except.ok ([], some q)) p.pattern_asOperand
  | cons p ps ih =>
    obtain ⟨⟨e, he⟩, hitems⟩ := List.forall_mem_cons.1 hitems
    obtain ⟨es, hes⟩ := ih hitems
    refine ⟨.item e :: es, List.forall_mem_cons.2 ⟨he.printable, hes.printable⟩,
      .cons he.spells hes.spells, ?_⟩
    rw [Expr.arrayParts, he.operand, hes.parts]
    exact congrArg (fun q => Except.ok (q :: ps, rest)) p.pattern_asOperand

theorem readable_object {fields : List (Field Pattern)} {rest : Option Pattern}
    (hkeys : ∀ f ∈ fields, Text.isPlain f.key = true)
    (hfields : ∀ f ∈ fields, Readable f.pattern) (hrest : ∀ p ∈ rest, Readable p) :
    Readable (object fields rest) := by
  obtain ⟨es, hes⟩ := exists_object hkeys hfields hrest
  have hinner := Spells.intercalate Expr.separates_comma hes.spells
  have hopening : Opens "\x7b" [.leftBrace] := Token.opens_punctuation rfl rfl
  have hclosing : Separates "\x7d" [.rightBrace] := Token.separates_punctuation rfl rfl rfl
  refine ⟨⟨.object es, .dummy⟩, .of_operand (.object hes.keyed hes.printable)
    ((hinner.after hopening).then hclosing) ?_ rfl rfl⟩
  rw [Expr.operand, hes.parts]
  rfl

theorem readable_array {ps : List Pattern} {rest : Option Pattern} (hitems : ∀ p ∈ ps, Readable p)
    (hrest : ∀ p ∈ rest, Readable p) : Readable (array ps rest) := by
  obtain ⟨es, hes⟩ := exists_array hitems hrest
  have hinner := Spells.intercalate Expr.separates_comma hes.spells
  have hopening : Opens "[" [.leftBracket] := Token.opens_punctuation rfl rfl
  have hclosing : Separates "]" [.rightBracket] := Token.separates_punctuation rfl rfl rfl
  refine ⟨⟨.array es, .dummy⟩, .of_operand (.array hes.printable)
    ((hinner.after hopening).then hclosing) ?_ rfl rfl⟩
  rw [Expr.operand, hes.parts]
  rfl

/-! ### Whole patterns -/

/-- Every written pattern has a tree with its text. -/
theorem Written.readable (h : Written p) : Readable p := by
  induction h with
  | self => exact readable_self
  | str h => exact readable_str h
  | int n => exact readable_int n
  | key h optional => exact readable_key h optional
  | index i optional => exact readable_index i optional
  | slice start stop => exact readable_slice start stop
  | spread => exact readable_spread
  | descent => exact readable_descent
  | seq hlength hflat _ ih => exact readable_seq hlength hflat ih
  | alt hlength hflat _ ih => exact readable_alt hlength hflat ih
  | lookahead _ ih => exact ih.lookahead
  | cut _ ih => exact ih.cut
  | object hkeys _ _ ihfields ihrest => exact readable_object hkeys ihfields ihrest
  | array _ _ ihitems ihrest => exact readable_array ihitems ihrest

/-- What is printed for a written pattern denotes the pattern. -/
theorem Written.readsBack (h : Written p) : ofSource p.print [] = .ok p := by
  obtain ⟨e, he⟩ := h.readable
  refine ofSource_of_spells he.spells he.printable.derived.whole ?_
  rw [Expr.compile, he.operand]
  exact congrArg Except.ok p.pattern_asOperand

/-- The pattern of a text without items, all keys and strings in which are plain, is printed as a
text that denotes the same pattern. -/
theorem ofSource_print (source : String) (e : Expr) (p : Pattern)
    (hread : Expr.read source = .ok e) (hplain : e.Plain) (h : ofSource source [] = .ok p) :
    ofSource p.print [] = .ok p :=
  (written_of_ofSource hread hplain h).readsBack

/-- Nested alternatives, a string with a tab, and a rest that begins with a dot. -/
def tabbedSource : String := "\x7b\"a b\": _ | (.x | \"\\t\"), ... .-1\x7d"

/-- The tree of `tabbedSource`. -/
def tabbedTree : Expr :=
  ⟨.object [.field (.str "a b") false
    ⟨.alt ⟨.self, ⟨8, 9⟩⟩ ⟨.alt ⟨.key (.ident "x") false, ⟨13, 15⟩⟩
      ⟨.literal (.str "\t"), ⟨18, 22⟩⟩, ⟨12, 23⟩⟩, ⟨8, 23⟩⟩,
    .rest ⟨.index (.int (-1)) false, ⟨29, 32⟩⟩], ⟨0, 33⟩⟩

/-- The pattern of `tabbedSource`. -/
def tabbed : Pattern :=
  object [⟨"a b", false, alt [self, key "x" false, value (.str "\t")]⟩] (some (index (-1) false))

/-- The alternatives of `tabbedSource` are printed as one, and the tab with its escape. -/
theorem ofSource_print_tabbed :
    Expr.read tabbedSource = .ok tabbedTree ∧
      tabbedTree.Plain ∧ ofSource tabbedSource [] = .ok tabbed ∧
      tabbed.print = "\x7b\"a b\": _ | .x | \"\\t\", ... .-1\x7d" ∧
      ofSource tabbed.print [] = .ok tabbed := by
  have hscan : Token.scan tabbedSource =
      [⟨.leftBrace, ⟨0, 1⟩⟩, ⟨.str "a b", ⟨1, 6⟩⟩, ⟨.colon, ⟨6, 7⟩⟩, ⟨.underscore, ⟨8, 9⟩⟩,
        ⟨.pipe, ⟨10, 11⟩⟩, ⟨.leftParen, ⟨12, 13⟩⟩, ⟨.dots 1, ⟨13, 14⟩⟩, ⟨.ident "x", ⟨14, 15⟩⟩,
        ⟨.pipe, ⟨16, 17⟩⟩, ⟨.str "\t", ⟨18, 22⟩⟩, ⟨.rightParen, ⟨22, 23⟩⟩, ⟨.comma, ⟨23, 24⟩⟩,
        ⟨.dots 3, ⟨25, 28⟩⟩, ⟨.dots 1, ⟨29, 30⟩⟩, ⟨.int (-1), ⟨30, 32⟩⟩, ⟨.rightBrace, ⟨32, 33⟩⟩,
        ⟨.eof, ⟨33, 33⟩⟩] := by
    decide +kernel
  have hread : Expr.read tabbedSource = .ok tabbedTree := by
    rw [Expr.read, hscan]
    rfl
  have hplain : tabbedTree.Plain := by
    simp [tabbedTree, Expr.plain_mk, Expr.Kind.literals, Expr.Kind.keys, Expr.Kind.bounds,
      Expr.Kind.children, Expr.ObjectEntry.key?, Expr.ObjectEntry.value]
    decide
  have hsource : ofSource tabbedSource [] = .ok tabbed := by
    rw [ofSource, hread]
    rfl
  exact ⟨hread, hplain, hsource, rfl, ofSource_print _ tabbedTree tabbed hread hplain hsource⟩

end Pattern

end DataExpr
