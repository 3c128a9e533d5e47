import DataExpr.Proofs.Expr.Steps
import DataExpr.Proofs.Token.Kinds

/-!
# What is read can be printed

A tree is printable (`Expr.Printable`) if every literal in it stands where the grammar has a place for
it: no name stands by itself, a key is a name, a string or a placeholder, an index is an integer, and
so on; and every name is an identifier.

Only printable trees are read (`Expr.printable_of_read`).  The invariant of the parser is that all
trees and literals that a state holds on to are such (`Parser.State.Printable`); every step keeps it
(`Parser.printable_step`).
-/

namespace DataExpr

/-! ### Places of literals -/

namespace Literal

/-- Whether the literal can be a key of a map. -/
def isKey : Literal → Bool
  | ident name => Text.isIdentifier name
  | str _ | placeholder _ => true
  | int _ => false

/-- Whether the literal can be a position in a list. -/
def isIndex : Literal → Bool
  | int _ => true
  | _ => false

/-- Whether the literal can be a bound of a slice. -/
def isBound : Literal → Bool
  | int _ | placeholder _ => true
  | _ => false

/-- Whether the literal can be the key of a field of an object pattern. -/
def isFieldKey : Literal → Bool
  | ident name => Text.isIdentifier name
  | _ => true

/-- Whether the literal can stand by itself. -/
def isAtom : Literal → Bool
  | ident _ => false
  | _ => true

end Literal

namespace Expr

/-- The tree inside an entry. -/
def ObjectEntry.value : ObjectEntry → Expr
  | field _ _ v => v
  | rest e => e

/-- Whether the key of an entry, if it has one, can be the key of a field. -/
def ObjectEntry.isKeyed : ObjectEntry → Bool
  | field k _ _ => k.isFieldKey
  | rest _ => true

/-- The tree inside an entry. -/
def ArrayEntry.value : ArrayEntry → Expr
  | item e | rest e => e

/-- Whether every literal of the tree stands where there is a place for it. -/
inductive Printable : Expr → Prop where
  | alt {l r : Expr} {s : Span} : Printable l → Printable r → Printable ⟨.alt l r, s⟩
  | seq {l r : Expr} {s : Span} : Printable l → Printable r → Printable ⟨.seq l r, s⟩
  | lookahead {e : Expr} {s : Span} : Printable e → Printable ⟨.lookahead e, s⟩
  | cut {e : Expr} {s : Span} : Printable e → Printable ⟨.cut e, s⟩
  | object {es : List ObjectEntry} {s : Span} : (∀ x ∈ es, x.isKeyed = true) →
      (∀ x ∈ es, Printable x.value) → Printable ⟨.object es, s⟩
  | array {es : List ArrayEntry} {s : Span} :
      (∀ x ∈ es, Printable x.value) → Printable ⟨.array es, s⟩
  | key {k : Literal} {optional : Bool} {s : Span} : k.isKey = true → Printable ⟨.key k optional, s⟩
  | index {i : Literal} {optional : Bool} {s : Span} :
      i.isIndex = true → Printable ⟨.index i optional, s⟩
  | slice {a b : Option Literal} {s : Span} : (∀ l ∈ a, l.isBound = true) →
      (∀ l ∈ b, l.isBound = true) → Printable ⟨.slice a b, s⟩
  | spread {s : Span} : Printable ⟨.spread, s⟩
  | descent {s : Span} : Printable ⟨.descent, s⟩
  | self {s : Span} : Printable ⟨.self, s⟩
  | literal {l : Literal} {s : Span} : l.isAtom = true → Printable ⟨.literal l, s⟩

/-- Whether an entry can be printed. -/
def ObjectEntry.Printable (x : ObjectEntry) : Prop := x.isKeyed = true ∧ x.value.Printable

/-- Whether an entry can be printed. -/
def ArrayEntry.Printable (x : ArrayEntry) : Prop := x.value.Printable

theorem ObjectEntry.printable_field {k : Literal} {v : Expr} (hk : k.isFieldKey = true)
    (hv : v.Printable) (optional : Bool) : (field k optional v).Printable :=
  ⟨hk, hv⟩

theorem ObjectEntry.printable_rest {e : Expr} (he : e.Printable) : (rest e).Printable := ⟨rfl, he⟩

theorem ArrayEntry.printable_item {e : Expr} (he : e.Printable) : (item e).Printable := he

theorem ArrayEntry.printable_rest {e : Expr} (he : e.Printable) : (rest e).Printable := he

/-- Being printable does not depend on the span. -/
theorem Printable.of_kind {e : Expr} (h : e.Printable) (s : Span) : Printable ⟨e.kind, s⟩ := by
  cases h with
  | alt hl hr => exact .alt hl hr
  | seq hl hr => exact .seq hl hr
  | lookahead he => exact .lookahead he
  | cut he => exact .cut he
  | object hkeys hes => exact .object hkeys hes
  | array hes => exact .array hes
  | key hk => exact .key hk
  | index hi => exact .index hi
  | slice ha hb => exact .slice ha hb
  | spread => exact .spread
  | descent => exact .descent
  | self => exact .self
  | literal hl => exact .literal hl

variable {s : Span}

/-- An object pattern whose entries, latest first, can be printed. -/
theorem Printable.object_reverse {done : List ObjectEntry} (h : ∀ x ∈ done, x.Printable) :
    Printable ⟨.object done.reverse, s⟩ :=
  .object (fun x hx => (h x (List.mem_reverse.1 hx)).1) fun x hx => (h x (List.mem_reverse.1 hx)).2

/-- An array pattern whose entries, latest first, can be printed. -/
theorem Printable.array_reverse {done : List ArrayEntry} (h : ∀ x ∈ done, x.Printable) :
    Printable ⟨.array done.reverse, s⟩ :=
  .array fun x hx => h x (List.mem_reverse.1 hx)

end Expr

namespace Parser

open DataExpr.Expr (Printable)
open Grammar (Key FieldKey Bound)

/-! ### The invariant -/

/-- Whether what stands to the left can be printed. -/
structure Left.Printable (left : Left) : Prop where
  alternatives : ∀ e ∈ left.alternatives, e.Printable
  sequence : ∀ e ∈ left.sequence, e.Printable

/-- Whether what the frame holds on to can be printed. -/
def Frame.Printable : Frame → Prop
  | group _ => True
  | field _ done key _ => (∀ x ∈ done, x.Printable) ∧ key.isFieldKey = true
  | objectRest _ done => ∀ x ∈ done, x.Printable
  | item _ done => ∀ x ∈ done, x.Printable
  | arrayRest _ done => ∀ x ∈ done, x.Printable

/-- Whether what the open constructs hold on to can be printed. -/
def Stack.Printable (stack : Stack) : Prop := ∀ entry ∈ stack, entry.1.Printable ∧ entry.2.Printable

/-- Whether all that has been read can be printed. -/
def State.Printable : State → Prop
  | operand left stack => left.Printable ∧ Stack.Printable stack
  | operator alternatives sequence stack =>
    Left.Printable ⟨alternatives, some sequence⟩ ∧ Stack.Printable stack
  | access _ left stack => left.Printable ∧ Stack.Printable stack
  | accessed _ _ node left stack =>
    (∀ optional s, Expr.Printable ⟨node optional, s⟩) ∧ left.Printable ∧ Stack.Printable stack
  | sliceStart _ left stack => left.Printable ∧ Stack.Printable stack
  | sliceColon _ start left stack =>
    start.isBound = true ∧ left.Printable ∧ Stack.Printable stack
  | sliceStop _ start left stack =>
    (∀ l ∈ start, l.isBound = true) ∧ left.Printable ∧ Stack.Printable stack
  | sliceEnd _ start stop left stack =>
    ((∀ l ∈ start, l.isBound = true) ∧ stop.isBound = true) ∧ left.Printable ∧ Stack.Printable stack
  | entry _ done left stack => (∀ x ∈ done, x.Printable) ∧ left.Printable ∧ Stack.Printable stack
  | fieldMark _ done key left stack | fieldColon _ done key left stack =>
    ((∀ x ∈ done, x.Printable) ∧ key.isFieldKey = true) ∧ left.Printable ∧ Stack.Printable stack
  | element _ done left stack => (∀ x ∈ done, x.Printable) ∧ left.Printable ∧ Stack.Printable stack
  | accepted e => e.Printable

/-! ### What a step keeps -/

variable {left : Left} {stack outer : Stack} {alternatives : Option Expr} {sequence e : Expr}
  {t : Token} {next : State}

theorem printable_empty : Left.empty.Printable := ⟨nofun, nofun⟩

theorem printable_push_frame {frame : Frame} (hf : frame.Printable) (hl : left.Printable)
    (hs : Stack.Printable stack) : Stack.Printable ((frame, left) :: stack) := by
  intro entry hentry
  rcases List.mem_cons.1 hentry with rfl | hmem
  · exact ⟨hf, hl⟩
  · exact hs entry hmem

/-- Inside a construct that has just been opened. -/
theorem printable_inside {frame : Frame} (hf : frame.Printable) (hl : left.Printable)
    (hs : Stack.Printable stack) : (State.operand .empty ((frame, left) :: stack)).Printable :=
  ⟨printable_empty, printable_push_frame hf hl hs⟩

theorem printable_joinAlternatives (h : Left.Printable ⟨alternatives, some sequence⟩) :
    (joinAlternatives alternatives sequence).Printable := by
  cases alternatives with
  | none => exact h.sequence sequence rfl
  | some a => exact .alt (h.alternatives a rfl) (h.sequence sequence rfl)

theorem printable_extend (hl : left.Printable) (he : e.Printable) : (left.extend e).Printable := by
  unfold Left.extend
  split
  · exact he
  · rename_i sequence hsequence
    exact .seq (hl.sequence sequence hsequence) he

/-- What stands to the left after an operand. -/
theorem printable_left (hl : left.Printable) (he : e.Printable) :
    Left.Printable ⟨left.alternatives, some (left.extend e)⟩ := by
  refine ⟨hl.alternatives, fun sequence hsequence => ?_⟩
  cases hsequence
  exact printable_extend hl he

theorem printable_push (hl : left.Printable) (he : e.Printable) (hs : Stack.Printable stack) :
    (left.push e stack).Printable :=
  ⟨printable_left hl he, hs⟩

theorem printable_atom {k : TokenKind} {kind : Expr.Kind} (h : Atom k kind) (span : Span) :
    Expr.Printable ⟨kind, span⟩ := by
  cases h with
  | spread => exact .spread
  | descent => exact .descent
  | self => exact .self
  | str s => exact .literal rfl
  | int n => exact .literal rfl
  | placeholder i => exact .literal rfl

theorem printable_starts (hl : left.Printable) (hs : Stack.Printable stack)
    (h : Starts left stack t next) : next.Printable := by
  cases h with
  | group span => exact printable_inside trivial hl hs
  | object span => exact ⟨nofun, hl, hs⟩
  | array span => exact ⟨nofun, hl, hs⟩
  | access span => exact ⟨hl, hs⟩
  | atom h span => exact printable_push hl (printable_atom h span) hs

theorem Frame.Printable.endsField {frame : Frame} {opening : Span} {done : List Expr.ObjectEntry}
    (hf : frame.Printable) (he : e.Printable) (h : frame.EndsField e opening done) :
    ∀ x ∈ done, x.Printable := by
  cases h with
  | field opening done key optional =>
    exact List.forall_mem_cons.2 ⟨Expr.ObjectEntry.printable_field hf.2 he optional, hf.1⟩
  | rest opening done => exact List.forall_mem_cons.2 ⟨Expr.ObjectEntry.printable_rest he, hf⟩

theorem Frame.Printable.endsElement {frame : Frame} {opening : Span} {done : List Expr.ArrayEntry}
    (hf : frame.Printable) (he : e.Printable) (h : frame.EndsElement e opening done) :
    ∀ x ∈ done, x.Printable := by
  cases h with
  | item opening done => exact List.forall_mem_cons.2 ⟨Expr.ArrayEntry.printable_item he, hf⟩
  | rest opening done => exact List.forall_mem_cons.2 ⟨Expr.ArrayEntry.printable_rest he, hf⟩

theorem printable_ends (he : e.Printable) (hs : Stack.Printable stack) (h : Ends e stack t next) :
    next.Printable := by
  cases h with
  | whole span => exact he
  | group opening span left outer =>
    obtain ⟨⟨_, hl⟩, houter⟩ := List.forall_mem_cons.1 hs
    exact printable_push hl (he.of_kind _) houter
  | entry h span left outer =>
    obtain ⟨⟨hf, hl⟩, houter⟩ := List.forall_mem_cons.1 hs
    exact ⟨hf.endsField he h, hl, houter⟩
  | object h span left outer =>
    obtain ⟨⟨hf, hl⟩, houter⟩ := List.forall_mem_cons.1 hs
    exact printable_push hl (.object_reverse (hf.endsField he h)) houter
  | element h span left outer =>
    obtain ⟨⟨hf, hl⟩, houter⟩ := List.forall_mem_cons.1 hs
    exact ⟨hf.endsElement he h, hl, houter⟩
  | array h span left outer =>
    obtain ⟨⟨hf, hl⟩, houter⟩ := List.forall_mem_cons.1 hs
    exact printable_push hl (.array_reverse (hf.endsElement he h)) houter

theorem printable_continues (h : Left.Printable ⟨alternatives, some sequence⟩)
    (hs : Stack.Printable stack) (hnext : Continues alternatives sequence stack t next) :
    next.Printable := by
  have hsequence : sequence.Printable := h.sequence sequence rfl
  cases hnext with
  | cut span => exact ⟨⟨h.alternatives, fun e he => by cases he; exact .cut hsequence⟩, hs⟩
  | lookahead span =>
    exact ⟨⟨h.alternatives, fun e he => by cases he; exact .lookahead hsequence⟩, hs⟩
  | alternative span =>
    exact ⟨⟨fun e he => by cases he; exact printable_joinAlternatives h, nofun⟩, hs⟩
  | operand hstart => exact printable_starts h hs hstart
  | close hend => exact printable_ends (printable_joinAlternatives h) hs hend

theorem isKey_of_key {k : TokenKind} {l : Literal} (hk : k.wellFormed = true) (h : Key k l) :
    l.isKey = true := by
  cases h with
  | ident name => exact hk
  | underscore => exact (show Text.isIdentifier "_" = true by decide)
  | str s => rfl
  | placeholder i => rfl

theorem isFieldKey_of_fieldKey {k : TokenKind} {l : Literal} (hk : k.wellFormed = true)
    (h : FieldKey k l) : l.isFieldKey = true := by
  cases h with
  | key h =>
    have hkey := isKey_of_key hk h
    cases h with
    | ident name => exact hkey
    | underscore => exact hkey
    | str s => rfl
    | placeholder i => rfl
  | int n => rfl

theorem isBound_of_bound {k : TokenKind} {l : Literal} (h : Bound [k] (some l)) :
    l.isBound = true := by
  cases h <;> rfl

/-- A step keeps the invariant. -/
theorem printable_step {state : State} (hstate : state.Printable) (ht : t.kind.wellFormed = true)
    (h : Step state t next) : next.Printable := by
  cases h with
  | operand h => exact printable_starts hstate.1 hstate.2 h
  | operator h => exact printable_continues hstate.1 hstate.2 h
  | slice dot span left stack => exact hstate
  | key h dot span left stack => exact ⟨fun _ _ => .key (isKey_of_key ht h), hstate⟩
  | index n dot span left stack => exact ⟨fun _ _ => .index rfl, hstate⟩
  | optional dot key span access left stack =>
    exact printable_push hstate.2.1 (hstate.1 _ _) hstate.2.2
  | plain h => exact printable_continues (printable_left hstate.2.1 (hstate.1 _ _)) hstate.2.2 h
  | start h dot span left stack => exact ⟨isBound_of_bound h, hstate⟩
  | noStart dot span left stack => exact ⟨nofun, hstate⟩
  | sliceColon dot span start left stack =>
    exact ⟨fun l hl => by cases hl; exact hstate.1, hstate.2⟩
  | stop h dot span start left stack => exact ⟨⟨hstate.1, isBound_of_bound h⟩, hstate.2⟩
  | noStop dot span start left stack =>
    exact printable_push hstate.2.1 (.slice hstate.1 nofun) hstate.2.2
  | sliceEnd dot span start stop left stack =>
    obtain ⟨⟨hstart, hstop⟩, hl, hs⟩ := hstate
    exact printable_push hl (.slice hstart fun l hl => by cases hl; exact hstop) hs
  | fieldKey h opening span done left stack =>
    exact ⟨⟨hstate.1, isFieldKey_of_fieldKey ht h⟩, hstate.2⟩
  | objectEnd opening span done left stack =>
    exact printable_push hstate.2.1 (.object_reverse hstate.1) hstate.2.2
  | objectRest opening span done left stack =>
    exact printable_inside hstate.1 hstate.2.1 hstate.2.2
  | fieldMark opening span done key left stack => exact hstate
  | field opening span done key left stack =>
    exact printable_inside hstate.1 hstate.2.1 hstate.2.2
  | optionalField opening span done key left stack =>
    exact printable_inside hstate.1 hstate.2.1 hstate.2.2
  | arrayEnd opening span done left stack =>
    exact printable_push hstate.2.1 (.array_reverse hstate.1) hstate.2.2
  | arrayRest opening span done left stack =>
    exact printable_inside hstate.1 hstate.2.1 hstate.2.2
  | @item opening done left stack t next h =>
    have hf : (Frame.item opening done).Printable := hstate.1
    exact printable_starts printable_empty (printable_push_frame hf hstate.2.1 hstate.2.2) h
  | accepted e t => exact hstate

/-- A run keeps the invariant to its end. -/
theorem printable_run {state : State} (hstate : state.Printable) {ts : List Token}
    (hts : ∀ t ∈ ts, t.kind.wellFormed = true) (h : run state ts = .ok e) : e.Printable := by
  fun_induction run state ts with
  | case1 e' ts =>
    cases h
    exact hstate
  | case2 => cases h
  | case3 state t ts _ next hnext ih =>
    have hrest : ∀ u ∈ ts, u.kind.wellFormed = true := fun u hu => hts u (List.mem_cons_of_mem _ hu)
    exact ih (printable_step hstate (hts t List.mem_cons_self) (step_iff.1 hnext)) hrest h
  | case4 => cases h

end Parser

namespace Expr

/-- Every tree that is read can be printed. -/
theorem printable_of_read {source : String} {e : Expr} (h : read source = .ok e) : e.Printable := by
  have hnames : ∀ t ∈ Token.scan source, t.kind.wellFormed = true :=
    fun t ht => Token.wellFormed_of_mem_scan source ht
  unfold read parse at h
  split at h
  · cases h
  · split at h
    · cases h
    · -- There is a first token, so the run is one over all tokens of the scan.
      rename_i t ts hscan _
      rw [hscan] at h hnames
      have hstart : (Parser.State.operand .empty []).Printable := ⟨Parser.printable_empty, nofun⟩
      exact Parser.printable_run hstart hnames h

end Expr

end DataExpr
