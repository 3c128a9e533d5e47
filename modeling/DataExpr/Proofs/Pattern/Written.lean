import DataExpr.Proofs.Pattern.Acceptance
import DataExpr.Proofs.Pattern.Composition
import DataExpr.Proofs.Token.Quoted

/-!
# Patterns that come from texts

A text without items of the host denotes patterns of a few sorts only, and these are flat: no step of
a sequence is a sequence and no branch of an alternative is an alternative.  `Pattern.Written` says so
of a pattern and of all patterns inside it, and `Pattern.written_of_ofSource` that texts with plain
keys and strings denote no others.
-/

namespace DataExpr

namespace Expr

/-- Whether all texts in the tree, at any depth, are plain. -/
def Plain (e : Expr) : Prop :=
  ∀ n, IsPart n e → ∀ text, Literal.str text ∈ n.kind.literals → Text.isPlain text = true

theorem plain_mk {k : Kind} {s : Span} :
    Plain ⟨k, s⟩ ↔ (∀ text, Literal.str text ∈ k.literals → Text.isPlain text = true) ∧
      ∀ c ∈ k.children, c.Plain :=
  forall_isPart ⟨k, s⟩

theorem Plain.of_mem {e c : Expr} (h : e.Plain) (hc : c ∈ e.children) : c.Plain :=
  fun n hn => h n (.head hc hn)

end Expr

namespace Pattern

/-! ### Written patterns -/

/-- The part of an expression with the pattern: its branches or steps stand apart. -/
def asOperand : Pattern → Operand
  | alt ps => .branches ps
  | seq ps => .steps ps
  | p => .atom p

theorem pattern_asOperand (p : Pattern) : p.asOperand.pattern = p := by
  cases p <;> rfl

/-- Whether the pattern, with all patterns inside it, is of a sort that plain texts denote. -/
inductive Written : Pattern → Prop where
  | self : Written self
  | str {text : String} (h : Text.isPlain text = true) : Written (value (.str text))
  | int (n : Int64) : Written (value (.int n))
  | key {name : String} (h : Text.isPlain name = true) (optional : Bool) :
      Written (key name optional)
  | index (i : Int64) (optional : Bool) : Written (index i optional)
  | slice (start stop : Option Int64) : Written (slice start stop)
  | spread : Written spread
  | descent : Written (descend 1)
  | seq {ps : List Pattern} (hlength : 2 ≤ ps.length) (hflat : ∀ p ∈ ps, ∀ qs, p ≠ seq qs)
      (hparts : ∀ p ∈ ps, Written p) : Written (seq ps)
  | alt {ps : List Pattern} (hlength : 2 ≤ ps.length) (hflat : ∀ p ∈ ps, ∀ qs, p ≠ alt qs)
      (hparts : ∀ p ∈ ps, Written p) : Written (alt ps)
  | lookahead {p : Pattern} (h : Written p) : Written (lookahead p)
  | cut {p : Pattern} (h : Written p) : Written p.cut
  | object {fields : List (Field Pattern)} {rest : Option Pattern}
      (hkeys : ∀ f ∈ fields, Text.isPlain f.key = true) (hfields : ∀ f ∈ fields, Written f.pattern)
      (hrest : ∀ p ∈ rest, Written p) : Written (object fields rest)
  | array {ps : List Pattern} {rest : Option Pattern} (hitems : ∀ p ∈ ps, Written p)
      (hrest : ∀ p ∈ rest, Written p) : Written (array ps rest)

end Pattern

/-! ### Written parts -/

namespace Operand

/-- Whether the part has a written pattern and keeps the branches or steps of it apart. -/
structure Written (o : Operand) : Prop where
  pattern : o.pattern.Written
  apart : o.pattern.asOperand = o

variable {o l r : Operand}

theorem written_atom {p : Pattern} (h : p.Written) (hp : p.asOperand = .atom p) :
    (atom p).Written :=
  ⟨h, hp⟩

/-- The branches of a part are written, and none of them is an alternative. -/
theorem Written.asBranches (h : o.Written) :
    1 ≤ o.asBranches.length ∧ (∀ p ∈ o.asBranches, ∀ qs, p ≠ .alt qs) ∧
      ∀ p ∈ o.asBranches, p.Written := by
  cases o with
  | branches ps =>
    cases h.pattern with
    | alt hlength hflat hparts => exact ⟨Nat.le_of_succ_le hlength, hflat, hparts⟩
  | _ =>
    refine ⟨Nat.le_refl 1, List.forall_mem_singleton.2 ?_, List.forall_mem_singleton.2 h.pattern⟩
    rintro qs hqs
    have hapart := h.apart
    rw [hqs] at hapart
    cases hapart

/-- The steps of a part are written, and none of them is a sequence. -/
theorem Written.asSteps (h : o.Written) :
    1 ≤ o.asSteps.length ∧ (∀ p ∈ o.asSteps, ∀ qs, p ≠ .seq qs) ∧
      ∀ p ∈ o.asSteps, p.Written := by
  cases o with
  | steps ps =>
    cases h.pattern with
    | seq hlength hflat hparts => exact ⟨Nat.le_of_succ_le hlength, hflat, hparts⟩
  | _ =>
    refine ⟨Nat.le_refl 1, List.forall_mem_singleton.2 ?_, List.forall_mem_singleton.2 h.pattern⟩
    rintro qs hqs
    have hapart := h.apart
    rw [hqs] at hapart
    cases hapart

theorem Written.branches (hl : l.Written) (hr : r.Written) :
    (Operand.branches (l.asBranches ++ r.asBranches)).Written := by
  obtain ⟨hlengthl, hflatl, hl⟩ := hl.asBranches
  obtain ⟨hlengthr, hflatr, hr⟩ := hr.asBranches
  refine ⟨.alt ?_ (List.forall_mem_append.2 ⟨hflatl, hflatr⟩)
    (List.forall_mem_append.2 ⟨hl, hr⟩), rfl⟩
  rw [List.length_append]
  omega

theorem Written.steps (hl : l.Written) (hr : r.Written) :
    (Operand.steps (l.asSteps ++ r.asSteps)).Written := by
  obtain ⟨hlengthl, hflatl, hl⟩ := hl.asSteps
  obtain ⟨hlengthr, hflatr, hr⟩ := hr.asSteps
  refine ⟨.seq ?_ (List.forall_mem_append.2 ⟨hflatl, hflatr⟩)
    (List.forall_mem_append.2 ⟨hl, hr⟩), rfl⟩
  rw [List.length_append]
  omega

end Operand

namespace Expr

/-! ### What compilations give -/

namespace Compiled

variable {α β : Type} {x : Compiled α} {P : α → Prop} {Q : β → Prop}

/-- Whether what the compilation gives, if it gives anything, has the property. -/
def Ensures (x : Compiled α) (P : α → Prop) : Prop := ∀ a, x = .ok a → P a

theorem ensures_ok {a : α} (h : P a) : Ensures (.ok a) P := by
  intro a' ha'
  cases ha'
  exact h

theorem ensures_error (err : CompileError) : Ensures (.error err) P := nofun

theorem Ensures.bind {f : α → Compiled β} (hx : Ensures x P) (hf : ∀ a, P a → Ensures (f a) Q) :
    Ensures (x >>= f) Q := by
  cases x with
  | error err => exact ensures_error err
  | ok a => exact hf a (hx a rfl)

end Compiled

open Compiled (Ensures ensures_ok ensures_error)

variable {s : Span} {l : Literal} {e : Expr}

/-- A placeholder has no item. -/
theorem ensures_itemAt {α : Type} (i : UInt64) (f : Item → Compiled α) {P : α → Prop} :
    Ensures (itemAt [] i s >>= f) P := ensures_error _

theorem ensures_keyPattern (hl : l.isKey = true)
    (hplain : ∀ text, l = .str text → Text.isPlain text = true) (optional : Bool) :
    Ensures (keyPattern [] l optional s) fun p => p.Written ∧ p.asOperand = .atom p := by
  cases l with
  | ident name => exact ensures_ok ⟨.key (Text.isPlain_of_isIdentifier hl) optional, rfl⟩
  | str name => exact ensures_ok ⟨.key (hplain name rfl) optional, rfl⟩
  | int n => exact absurd hl Bool.false_ne_true
  | placeholder i => exact ensures_itemAt i _

theorem ensures_fieldKey (hl : l.isFieldKey = true)
    (hplain : ∀ text, l = .str text → Text.isPlain text = true) :
    Ensures (fieldKey [] l s) fun key => Text.isPlain key = true := by
  cases l with
  | ident name => exact ensures_ok (Text.isPlain_of_isIdentifier hl)
  | str name => exact ensures_ok (hplain name rfl)
  | int n => exact ensures_ok (Text.isPlain_int n.toInt)
  | placeholder i => exact ensures_itemAt i _

theorem ensures_literalPattern (hplain : ∀ text, l = .str text → Text.isPlain text = true) :
    Ensures (literalPattern [] l s) fun p => p.Written ∧ p.asOperand = .atom p := by
  cases l with
  | ident name => exact ensures_error _
  | str text => exact ensures_ok ⟨.str (hplain text rfl), rfl⟩
  | int n => exact ensures_ok ⟨.int n, rfl⟩
  | placeholder i => exact ensures_error _

/-! ### Trees -/

/-- Whether every part that is compiled from the tree without items is written. -/
def EnsuresWritten (e : Expr) : Prop := Ensures (operand [] e) Operand.Written

theorem ensures_objectParts {es : List ObjectEntry} (hasRest : Bool)
    (hkeys : ∀ x ∈ es, x.isKeyed = true)
    (hplain : ∀ text, Literal.str text ∈ es.filterMap ObjectEntry.key? → Text.isPlain text = true)
    (hes : ∀ x ∈ es, x.value.EnsuresWritten) :
    Ensures (objectParts [] es hasRest) fun parts =>
      (∀ f ∈ parts.1, Text.isPlain f.key = true) ∧ (∀ f ∈ parts.1, f.pattern.Written) ∧
        ∀ p ∈ parts.2, p.Written := by
  induction es generalizing hasRest with
  | nil => exact ensures_ok ⟨nofun, nofun, nofun⟩
  | cons x es ih =>
    obtain ⟨hkey, hrestKeys⟩ := List.forall_mem_cons.1 hkeys
    obtain ⟨hx, htail⟩ := List.forall_mem_cons.1 hes
    cases x with
    | field k optional e =>
      have hcons : (ObjectEntry.field k optional e :: es).filterMap ObjectEntry.key? =
          k :: es.filterMap ObjectEntry.key? := rfl
      rw [hcons] at hplain
      have hk : ∀ text, k = .str text → Text.isPlain text = true := by
        rintro text rfl
        exact hplain text List.mem_cons_self
      rw [objectParts]
      refine (ensures_fieldKey hkey hk).bind fun key hkey => ?_
      refine Ensures.bind hx fun o ho => ?_
      refine (ih hasRest hrestKeys (fun text h => hplain text (List.mem_cons_of_mem _ h)) htail).bind ?_
      rintro ⟨fields, rest⟩ ⟨hfieldKeys, hfields, hrest⟩
      exact ensures_ok ⟨List.forall_mem_cons.2 ⟨hkey, hfieldKeys⟩,
        List.forall_mem_cons.2 ⟨ho.pattern, hfields⟩, hrest⟩
    | rest e =>
      rw [List.filterMap_cons_none rfl] at hplain
      rw [objectParts]
      cases hasRest with
      | true => exact ensures_error _
      | false =>
        refine Ensures.bind hx fun o ho => ?_
        refine (ih true hrestKeys hplain htail).bind ?_
        rintro ⟨fields, _⟩ ⟨hfieldKeys, hfields, _⟩
        refine ensures_ok ⟨hfieldKeys, hfields, ?_⟩
        rintro p hp
        cases hp
        exact ho.pattern

theorem ensures_arrayParts {es : List ArrayEntry} (hes : ∀ x ∈ es, x.value.EnsuresWritten) :
    Ensures (arrayParts [] es) fun parts =>
      (∀ p ∈ parts.1, p.Written) ∧ ∀ p ∈ parts.2, p.Written := by
  induction es with
  | nil => exact ensures_ok ⟨nofun, nofun⟩
  | cons x es ih =>
    obtain ⟨hx, htail⟩ := List.forall_mem_cons.1 hes
    cases x with
    | item e =>
      rw [arrayParts]
      refine Ensures.bind hx fun o ho => ?_
      refine (ih htail).bind ?_
      rintro ⟨ps, rest⟩ ⟨hps, hrest⟩
      exact ensures_ok ⟨List.forall_mem_cons.2 ⟨ho.pattern, hps⟩, hrest⟩
    | rest e =>
      rw [arrayParts]
      cases es with
      | cons y es => exact ensures_error _
      | nil =>
        refine Ensures.bind hx fun o ho => ?_
        refine ensures_ok ⟨nofun, ?_⟩
        rintro p hp
        cases hp
        exact ho.pattern

/-- A printable tree with plain texts is compiled to a written part. -/
theorem Printable.ensuresWritten (h : e.Printable) (hplain : e.Plain) : e.EnsuresWritten := by
  unfold EnsuresWritten
  induction h with
  | @alt l r _ _ _ ihl ihr =>
    have hl : l.Plain := hplain.of_mem List.mem_cons_self
    have hr : r.Plain := hplain.of_mem (List.mem_cons_of_mem _ (List.mem_singleton_self r))
    rw [operand]
    exact (ihl hl).bind fun left hleft => (ihr hr).bind fun right hright =>
      ensures_ok (hleft.branches hright)
  | @seq l r _ _ _ ihl ihr =>
    have hl : l.Plain := hplain.of_mem List.mem_cons_self
    have hr : r.Plain := hplain.of_mem (List.mem_cons_of_mem _ (List.mem_singleton_self r))
    rw [operand]
    exact (ihl hl).bind fun left hleft => (ihr hr).bind fun right hright =>
      ensures_ok (hleft.steps hright)
  | @lookahead e _ _ ih =>
    have he : e.Plain := hplain.of_mem (List.mem_singleton_self e)
    rw [operand]
    exact (ih he).bind fun o ho => ensures_ok (Operand.written_atom (.lookahead ho.pattern) rfl)
  | @cut e _ _ ih =>
    have he : e.Plain := hplain.of_mem (List.mem_singleton_self e)
    rw [operand]
    exact (ih he).bind fun o ho => ensures_ok (Operand.written_atom (.cut ho.pattern) rfl)
  | @object es _ hkeys _ ih =>
    have hes : ∀ x ∈ es, x.value.EnsuresWritten := fun x hx =>
      ih x hx (hplain.of_mem (List.mem_map_of_mem hx))
    have htexts : ∀ text, Literal.str text ∈ es.filterMap ObjectEntry.key? →
        Text.isPlain text = true := fun text ht =>
      hplain _ .refl text (List.mem_append_left _ ht)
    rw [operand]
    refine (ensures_objectParts false hkeys htexts hes).bind ?_
    rintro ⟨fields, rest⟩ ⟨hfieldKeys, hfields, hrest⟩
    exact ensures_ok (Operand.written_atom (.object hfieldKeys hfields hrest) rfl)
  | @array es _ _ ih =>
    have hes : ∀ x ∈ es, x.value.EnsuresWritten := fun x hx =>
      ih x hx (hplain.of_mem (List.mem_map_of_mem hx))
    rw [operand]
    refine (ensures_arrayParts hes).bind ?_
    rintro ⟨ps, rest⟩ ⟨hps, hrest⟩
    exact ensures_ok (Operand.written_atom (.array hps hrest) rfl)
  | @key l optional _ hl =>
    have htext : ∀ text, l = .str text → Text.isPlain text = true := by
      rintro text rfl
      exact hplain _ .refl text (List.mem_singleton_self _)
    rw [operand]
    exact (ensures_keyPattern hl htext optional).bind fun p hp =>
      ensures_ok (Operand.written_atom hp.1 hp.2)
  | @index l optional _ hl =>
    rw [operand]
    cases l with
    | int n => exact ensures_ok (Operand.written_atom (.index n optional) rfl)
    | _ => exact absurd hl Bool.false_ne_true
  | slice _ _ =>
    rw [operand]
    refine Ensures.bind (fun _ _ => trivial) fun start _ => ?_
    refine Ensures.bind (fun _ _ => trivial) fun stop _ => ?_
    exact ensures_ok (Operand.written_atom (.slice start stop) rfl)
  | @literal l _ _ =>
    have htext : ∀ text, l = .str text → Text.isPlain text = true := by
      rintro text rfl
      exact hplain _ .refl text (List.mem_singleton_self _)
    rw [operand]
    exact (ensures_literalPattern htext).bind fun p hp =>
      ensures_ok (Operand.written_atom hp.1 hp.2)
  | spread => exact ensures_ok (Operand.written_atom .spread rfl)
  | descent => exact ensures_ok (Operand.written_atom .descent rfl)
  | self => exact ensures_ok (Operand.written_atom .self rfl)

end Expr

/-- A text with plain texts in it denotes a written pattern. -/
theorem Pattern.written_of_ofSource {source : String} {e : Expr} {p : Pattern}
    (hread : Expr.read source = .ok e) (hplain : e.Plain) (h : ofSource source [] = .ok p) :
    p.Written := by
  obtain ⟨e', hread', hp⟩ := exists_of_ofSource h
  cases hread.symm.trans hread'
  obtain ⟨o, ho, rfl⟩ := Expr.operand_of_compile hp
  exact ((Expr.printable_of_read hread).ensuresWritten hplain o ho).pattern

end DataExpr
