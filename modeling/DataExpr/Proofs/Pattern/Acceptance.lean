import DataExpr.Pattern.Compile
import DataExpr.Proofs.Expr.Spans

/-!
# Which expressions have a pattern

Not every tree that is read has a pattern.  `Expr.Accepted` lists what must hold of its parts: an
object pattern has one rest at most, the rest of an array pattern is its last entry, and every
placeholder has an item that fits the place where it stands.  These conditions are all there is
(`Pattern.exists_ofSource_iff_accepted`): errors about literals that stand where they have no place
do not occur, since the grammar has no such trees.

Compiling a part can end in two ways, and both are followed at once.  `Compiled.Decides x P` says that
`x` succeeds if `P` holds and else fails with an error that is not about a literal.
-/

namespace DataExpr

/-- Whether the item is a value that can be a key: a text or an integer. -/
def Item.isKey : Item → Bool
  | value (.str _) | value (.int _) => true
  | _ => false

/-- Whether the item is a value that can be a bound of a slice: an integer. -/
def Item.isBound : Item → Bool
  | value (.int _) => true
  | _ => false

namespace Literal

/-- Whether the literal has an item if it is a placeholder. -/
def Supplied (items : List Item) (l : Literal) : Prop :=
  ∀ i, l = placeholder i → i.toNat < items.length

/-- Whether the literal has an item with the property if it is a placeholder. -/
def Holds (items : List Item) (p : Item → Bool) (l : Literal) : Prop :=
  ∀ i, l = placeholder i → ∃ item, items[i.toNat]? = some item ∧ p item = true

variable {items : List Item} {p : Item → Bool} {l : Literal}

theorem Holds.supplied (h : l.Holds items p) : l.Supplied items := by
  intro i hi
  obtain ⟨item, hitem, _⟩ := h i hi
  exact (List.getElem?_eq_some_iff.1 hitem).1

theorem holds_placeholder {i : UInt64} :
    (placeholder i).Holds items p ↔ ∃ item, items[i.toNat]? = some item ∧ p item = true := by
  constructor
  · intro h
    exact h i rfl
  · rintro h j hj
    cases hj
    exact h

theorem supplied_placeholder {i : UInt64} :
    (placeholder i).Supplied items ↔ i.toNat < items.length := by
  constructor
  · intro h
    exact h i rfl
  · rintro h j hj
    cases hj
    exact h

end Literal

/-- Whether the error is about a literal that stands where it has no place. -/
def CompileError.Kind.isMisplaced : CompileError.Kind → Bool
  | bareIdentifier _ | invalidLiteral .. => true
  | _ => false

namespace Expr

/-! ### Conditions on trees -/

/-- Whether the entry is a rest. -/
def ObjectEntry.isRest : ObjectEntry → Bool
  | rest _ => true
  | field .. => false

/-- The key of an entry that is a field. -/
def ObjectEntry.key? : ObjectEntry → Option Literal
  | field k _ _ => some k
  | rest _ => none

/-- Whether the entry is a rest. -/
def ArrayEntry.isRest : ArrayEntry → Bool
  | rest _ => true
  | item _ => false

/-- The keys of a node: that of an access, or those of the fields of an object pattern. -/
def Kind.keys : Kind → List Literal
  | .key k _ => [k]
  | .object es => es.filterMap ObjectEntry.key?
  | _ => []

/-- The bounds of a slice. -/
def Kind.bounds : Kind → List Literal
  | .slice a b => a.toList ++ b.toList
  | _ => []

/-- All literals of a node, those inside its parts aside. -/
def Kind.literals : Kind → List Literal
  | .index i _ => [i]
  | .literal l => [l]
  | k => k.keys ++ k.bounds

/-- Whether there is nothing in a node that keeps it from having a pattern. -/
structure Kind.Accepted (items : List Item) (k : Kind) : Prop where
  /-- An object pattern has one rest entry at most. -/
  oneRest : ∀ es, k = .object es → es.countP ObjectEntry.isRest ≤ 1
  /-- No entry of an array pattern but the last is a rest. -/
  lastRest : ∀ es, k = .array es → ∀ x ∈ es.dropLast, x.isRest = false
  /-- Every placeholder has an item. -/
  supplied : ∀ l ∈ k.literals, l.Supplied items
  /-- A placeholder for a key has a text or an integer. -/
  keys : ∀ l ∈ k.keys, l.Holds items Item.isKey
  /-- A placeholder for a bound of a slice has an integer. -/
  bounds : ∀ l ∈ k.bounds, l.Holds items Item.isBound

/-- Whether there is nothing in a tree, at any depth, that keeps it from having a pattern. -/
def Accepted (items : List Item) (e : Expr) : Prop := ∀ n, IsPart n e → n.kind.Accepted items

variable {items : List Item}

/-- The parts of a tree are the tree itself and the parts of its direct parts. -/
theorem forall_isPart {P : Expr → Prop} (e : Expr) :
    (∀ n, IsPart n e → P n) ↔ P e ∧ ∀ c ∈ e.children, ∀ n, IsPart n c → P n := by
  constructor
  · intro h
    exact ⟨h e .refl, fun c hc n hn => h n (.head hc hn)⟩
  · rintro ⟨he, hchildren⟩ n hn
    rcases hn.cases_head with rfl | ⟨c, hc, hn⟩
    · exact he
    · exact hchildren c hc n hn

theorem accepted_iff (e : Expr) :
    e.Accepted items ↔ e.kind.Accepted items ∧ ∀ c ∈ e.children, c.Accepted items :=
  forall_isPart e

namespace Kind

theorem accepted_object (es : List ObjectEntry) :
    (object es).Accepted items ↔ (∀ l ∈ es.filterMap ObjectEntry.key?, l.Holds items Item.isKey) ∧
      es.countP ObjectEntry.isRest ≤ 1 := by
  constructor
  · intro h
    exact ⟨h.keys, h.oneRest es rfl⟩
  · rintro ⟨hkeys, hrest⟩
    refine ⟨?_, nofun, ?_, hkeys, nofun⟩
    · rintro es' hes'
      cases hes'
      exact hrest
    · intro l hl
      rw [literals, bounds, List.append_nil] at hl
      · exact (hkeys l hl).supplied
      all_goals nofun

theorem accepted_array (es : List ArrayEntry) :
    (array es).Accepted items ↔ ∀ x ∈ es.dropLast, x.isRest = false := by
  constructor
  · intro h
    exact h.lastRest es rfl
  · intro hrest
    refine ⟨nofun, ?_, nofun, nofun, nofun⟩
    rintro es' hes'
    cases hes'
    exact hrest

theorem accepted_key (l : Literal) (optional : Bool) :
    (key l optional).Accepted items ↔ l.Holds items Item.isKey := by
  constructor
  · intro h
    exact h.keys l (List.mem_singleton_self l)
  · intro hl
    have hkeys : ∀ l' ∈ [l], l'.Holds items Item.isKey := by simpa using hl
    exact ⟨nofun, nofun, fun l' hl' => (hkeys l' hl').supplied, hkeys, nofun⟩

theorem accepted_slice (a b : Option Literal) :
    (slice a b).Accepted items ↔ ∀ l ∈ a.toList ++ b.toList, l.Holds items Item.isBound := by
  constructor
  · intro h
    exact h.bounds
  · intro hbounds
    exact ⟨nofun, nofun, fun l hl => (hbounds l hl).supplied, nofun, hbounds⟩

theorem accepted_literal (l : Literal) : (literal l).Accepted items ↔ l.Supplied items := by
  constructor
  · intro h
    exact h.supplied l (List.mem_singleton_self l)
  · intro hl
    exact ⟨nofun, nofun, by simpa [literals] using hl, nofun, nofun⟩

end Kind

/-! ### Compilations with a known outcome -/

namespace Compiled

variable {α β : Type} {x : Compiled α} {P Q : Prop}

/-- Whether the compilation succeeds if `P` holds, and else fails with an error that is not about a
misplaced literal. -/
def Decides (x : Compiled α) (P : Prop) : Prop :=
  match x with
  | .ok _ => P
  | .error err => ¬ P ∧ err.kind.isMisplaced = false

theorem Decides.congr (h : Decides x P) (hPQ : P ↔ Q) : Decides x Q := by
  rw [← propext hPQ]
  exact h

/-- The compilation succeeds exactly if what decides it holds. -/
theorem Decides.exists_ok_iff (h : Decides x P) : (∃ a, x = .ok a) ↔ P := by
  cases x with
  | ok a => exact ⟨fun _ => h, fun _ => ⟨a, rfl⟩⟩
  | error err =>
    constructor
    · rintro ⟨a, ha⟩
      cases ha
    · intro hP
      exact absurd hP h.1

theorem Decides.isMisplaced_eq {err : CompileError} (h : Decides (.error err : Compiled α) P) :
    err.kind.isMisplaced = false := h.2

theorem decides_ok (a : α) : Decides (.ok a) True := trivial

/-- An error that is always there. -/
theorem decides_error {err : CompileError} (h : err.kind.isMisplaced = false) :
    Decides (.error err : Compiled α) False :=
  ⟨not_false, h⟩

/-- Of two compilations one after the other both must succeed. -/
theorem Decides.bind {f : α → Compiled β} (hx : Decides x P) (hf : ∀ a, Decides (f a) Q) :
    Decides (x >>= f) (P ∧ Q) := by
  cases x with
  | error err => exact ⟨fun h => hx.1 h.1, hx.2⟩
  | ok a => exact (hf a).congr ⟨fun hQ => ⟨hx, hQ⟩, And.right⟩

/-- What is made of the outcome cannot fail. -/
theorem Decides.bind_ok {f : α → Compiled β} (hx : Decides x P) (hf : ∀ a, ∃ b, f a = .ok b) :
    Decides (x >>= f) P := by
  have hboth : Decides (x >>= f) (P ∧ True) := hx.bind fun a => by
    obtain ⟨b, hb⟩ := hf a
    rw [hb]
    exact decides_ok b
  exact hboth.congr (and_iff_left trivial)

end Compiled

open Compiled (Decides decides_ok decides_error)

variable (items) {s : Span} {l : Literal}

/-! ### Literals -/

theorem decides_itemAt (i : UInt64) (s : Span) : Decides (itemAt items i s) (i.toNat < items.length) := by
  unfold itemAt
  split
  · rename_i item hitem
    exact (List.getElem?_eq_some_iff.1 hitem).1
  · rename_i hitem
    exact ⟨Nat.not_lt.2 (List.getElem?_eq_none_iff.1 hitem), rfl⟩

/-- A placeholder whose item must have a property. -/
theorem decides_placeholder {α : Type} {p : Item → Bool} {f : Item → Compiled α} {i : UInt64}
    (hf : ∀ item, Decides (f item) (p item = true)) :
    Decides (itemAt items i s >>= f) ((Literal.placeholder i).Holds items p) := by
  rw [Literal.holds_placeholder]
  unfold itemAt
  split
  · rename_i item hitem
    refine (hf item).congr ?_
    rw [hitem]
    simp
  · rename_i hitem
    rw [hitem]
    exact ⟨by simp, rfl⟩

/-- What a place makes of an item depends on its sort alone. -/
theorem decides_keyPattern (hl : l.isKey = true) (optional : Bool) :
    Decides (keyPattern items l optional s) (l.Holds items Item.isKey) := by
  cases l with
  | placeholder i =>
    refine decides_placeholder items fun item => ?_
    cases item with
    | value v => cases v <;> first | exact rfl | exact ⟨Bool.false_ne_true, rfl⟩
    | _ => exact ⟨Bool.false_ne_true, rfl⟩
  | int n => exact absurd hl Bool.false_ne_true
  | ident name => exact nofun
  | str name => exact nofun

theorem decides_fieldKey : Decides (fieldKey items l s) (l.Holds items Item.isKey) := by
  cases l with
  | placeholder i =>
    refine decides_placeholder items fun item => ?_
    cases item with
    | value v => cases v <;> first | exact rfl | exact ⟨Bool.false_ne_true, rfl⟩
    | _ => exact ⟨Bool.false_ne_true, rfl⟩
  | int n => exact nofun
  | ident name => exact nofun
  | str name => exact nofun

theorem decides_number (hl : l.isBound = true) (position : String) :
    Decides (number items l position s) (l.Holds items Item.isBound) := by
  cases l with
  | placeholder i =>
    refine decides_placeholder items fun item => ?_
    cases item with
    | value v => cases v <;> first | exact rfl | exact ⟨Bool.false_ne_true, rfl⟩
    | _ => exact ⟨Bool.false_ne_true, rfl⟩
  | int n => exact nofun
  | ident name => exact absurd hl Bool.false_ne_true
  | str name => exact absurd hl Bool.false_ne_true

theorem decides_number? {l : Option Literal} (hl : ∀ l' ∈ l, l'.isBound = true)
    (position : String) :
    Decides (number? items l position s) (∀ l' ∈ l.toList, l'.Holds items Item.isBound) := by
  cases l with
  | none => exact nofun
  | some l =>
    have hnumber := decides_number items (s := s) (hl l rfl) position
    exact (hnumber.bind_ok fun n => ⟨some n, rfl⟩).congr (by simp)

theorem decides_literalPattern (hl : l.isAtom = true) :
    Decides (literalPattern items l s) (l.Supplied items) := by
  cases l with
  | placeholder i =>
    have hitem := decides_itemAt items i s
    exact (hitem.bind_ok fun item => ⟨item.toPattern, rfl⟩).congr
      Literal.supplied_placeholder.symm
  | ident name => exact absurd hl Bool.false_ne_true
  | int n => exact nofun
  | str text => exact nofun

/-! ### Trees -/

/-- Whether a tree has a pattern exactly if it is accepted. -/
def Decided (e : Expr) : Prop := Decides (operand items e) (e.Accepted items)

/-- The entries of an object pattern, before which there has been a rest or not. -/
theorem decides_objectParts (es : List ObjectEntry) (hasRest : Bool)
    (hes : ∀ x ∈ es, x.value.Decided items) :
    Decides (objectParts items es hasRest)
      ((∀ l ∈ es.filterMap ObjectEntry.key?, l.Holds items Item.isKey) ∧
        (∀ x ∈ es, x.value.Accepted items) ∧
        es.countP ObjectEntry.isRest + hasRest.toNat ≤ 1) := by
  induction es generalizing hasRest with
  | nil =>
    have hcount : 0 + hasRest.toNat ≤ 1 := by cases hasRest <;> decide
    exact ⟨nofun, nofun, hcount⟩
  | cons x es ih =>
    obtain ⟨hx, htail⟩ := List.forall_mem_cons.1 hes
    rw [List.forall_mem_cons]
    cases x with
    | field k optional e =>
      have hkey : Decides (fieldKey items k e.span) (k.Holds items Item.isKey) :=
        decides_fieldKey items
      have hall := hkey.bind fun name => hx.bind fun o => (ih hasRest htail).bind_ok fun parts =>
        ⟨(⟨name, optional, o.pattern⟩ :: parts.1, parts.2), rfl⟩
      have hkeys : (ObjectEntry.field k optional e :: es).filterMap ObjectEntry.key? =
          k :: es.filterMap ObjectEntry.key? := rfl
      rw [objectParts, hkeys, List.forall_mem_cons,
        List.countP_cons_of_neg (by exact Bool.false_ne_true)]
      refine hall.congr ⟨?_, ?_⟩
      · rintro ⟨hk, he, hkeys, hvalues, hcount⟩
        exact ⟨⟨hk, hkeys⟩, ⟨he, hvalues⟩, hcount⟩
      · rintro ⟨⟨hk, hkeys⟩, ⟨he, hvalues⟩, hcount⟩
        exact ⟨hk, he, hkeys, hvalues, hcount⟩
    | rest e =>
      rw [objectParts, List.filterMap_cons_none rfl, List.countP_cons_of_pos rfl]
      cases hasRest with
      | true =>
        -- This is the second rest.
        refine (decides_error rfl).congr (iff_of_false not_false fun h => ?_)
        have hcount : es.countP ObjectEntry.isRest + 1 + 1 ≤ 1 := h.2.2
        omega
      | false =>
        have hall := hx.bind fun o => (ih true htail).bind_ok fun parts =>
          ⟨(parts.1, some o.pattern), rfl⟩
        refine hall.congr ⟨?_, ?_⟩
        · rintro ⟨he, hkeys, hvalues, hcount⟩
          exact ⟨hkeys, ⟨he, hvalues⟩, hcount⟩
        · rintro ⟨hkeys, ⟨he, hvalues⟩, hcount⟩
          exact ⟨he, hkeys, hvalues, hcount⟩

theorem decides_arrayParts (es : List ArrayEntry) (hes : ∀ x ∈ es, x.value.Decided items) :
    Decides (arrayParts items es)
      ((∀ x ∈ es, x.value.Accepted items) ∧ ∀ x ∈ es.dropLast, x.isRest = false) := by
  induction es with
  | nil => exact ⟨nofun, nofun⟩
  | cons x es ih =>
    obtain ⟨hx, htail⟩ := List.forall_mem_cons.1 hes
    rw [List.forall_mem_cons]
    cases x with
    | item e =>
      have hall := hx.bind fun o => (ih htail).bind_ok fun parts =>
        ⟨(o.pattern :: parts.1, parts.2), rfl⟩
      rw [arrayParts]
      refine hall.congr ?_
      -- An item is no rest, be it the last entry or not.
      have hlast : (∀ x ∈ (ArrayEntry.item e :: es).dropLast, x.isRest = false) ↔
          ∀ x ∈ es.dropLast, x.isRest = false := by
        cases es with
        | nil => exact Iff.rfl
        | cons y es =>
          rw [List.dropLast_cons_cons, List.forall_mem_cons]
          exact and_iff_right rfl
      rw [hlast, and_assoc]
    | rest e =>
      cases es with
      | nil =>
        have hall := hx.bind_ok fun o => ⟨(([] : List Pattern), some o.pattern), rfl⟩
        rw [arrayParts]
        refine hall.congr ⟨?_, ?_⟩
        · intro he
          exact ⟨⟨he, nofun⟩, nofun⟩
        · rintro ⟨⟨he, _⟩, _⟩
          exact he
      | cons y es =>
        rw [arrayParts]
        refine (decides_error rfl).congr (iff_of_false not_false fun h => ?_)
        exact Bool.noConfusion (h.2 (.rest e) List.mem_cons_self)

variable {items}

/-- A tree of one part whose node is accepted. -/
theorem accepted_iff_single {k : Kind} {e : Expr} (hk : k.Accepted items)
    (hchildren : k.children = [e]) : Accepted items ⟨k, s⟩ ↔ e.Accepted items := by
  rw [accepted_iff, children, kind_mk, hchildren, List.forall_mem_singleton]
  exact and_iff_right hk

/-- A tree of two parts whose node is accepted. -/
theorem accepted_iff_pair {k : Kind} {l r : Expr} (hk : k.Accepted items)
    (hchildren : k.children = [l, r]) :
    Accepted items ⟨k, s⟩ ↔ l.Accepted items ∧ r.Accepted items := by
  rw [accepted_iff, children, kind_mk, hchildren, List.forall_mem_cons, List.forall_mem_singleton]
  exact and_iff_right hk

/-- A tree without parts is accepted if its node is. -/
theorem accepted_iff_kind {k : Kind} (hchildren : k.children = []) :
    Accepted items ⟨k, s⟩ ↔ k.Accepted items := by
  rw [accepted_iff, children, kind_mk, hchildren]
  exact and_iff_left nofun

/-- A printable tree has a pattern exactly if it is accepted. -/
theorem Printable.decided {e : Expr} (h : e.Printable) : e.Decided items := by
  unfold Decided
  induction h with
  | alt _ _ ihl ihr | seq _ _ ihl ihr =>
    rw [operand]
    refine (ihl.bind fun left => ihr.bind_ok fun right => ⟨_, rfl⟩).congr
      (Iff.symm (accepted_iff_pair ?_ rfl))
    exact ⟨nofun, nofun, nofun, nofun, nofun⟩
  | lookahead _ ih | cut _ ih =>
    rw [operand]
    refine (ih.bind_ok fun o => ⟨_, rfl⟩).congr (Iff.symm (accepted_iff_single ?_ rfl))
    exact ⟨nofun, nofun, nofun, nofun, nofun⟩
  | @object es s _ _ ih =>
    have hparts := decides_objectParts items es false ih
    have hvalues : (∀ c ∈ children ⟨.object es, s⟩, c.Accepted items) ↔
        ∀ x ∈ es, x.value.Accepted items := List.forall_mem_map
    rw [operand, accepted_iff, hvalues, kind_mk, Kind.accepted_object]
    refine (hparts.bind_ok fun parts => ⟨_, rfl⟩).congr ⟨?_, ?_⟩
    · rintro ⟨hkeys, hvalues, hcount⟩
      exact ⟨⟨hkeys, hcount⟩, hvalues⟩
    · rintro ⟨⟨hkeys, hcount⟩, hvalues⟩
      exact ⟨hkeys, hvalues, hcount⟩
  | @array es s _ ih =>
    have hparts := decides_arrayParts items es ih
    have hvalues : (∀ c ∈ children ⟨.array es, s⟩, c.Accepted items) ↔
        ∀ x ∈ es, x.value.Accepted items := List.forall_mem_map
    rw [operand, accepted_iff, hvalues, kind_mk, Kind.accepted_array]
    exact (hparts.bind_ok fun parts => ⟨_, rfl⟩).congr And.comm
  | key hl =>
    rw [operand, accepted_iff_kind rfl, Kind.accepted_key]
    exact (decides_keyPattern items hl _).bind_ok fun p => ⟨_, rfl⟩
  | @index l optional s hl =>
    cases l with
    | int n =>
      rw [operand, accepted_iff_kind rfl]
      exact ⟨nofun, nofun, by simp [Kind.literals, Literal.Supplied], nofun, nofun⟩
    | _ => exact absurd hl Bool.false_ne_true
  | @slice a b s ha hb =>
    have hstart := decides_number? items (s := s) ha "a slice bound"
    have hstop := decides_number? items (s := s) hb "a slice bound"
    rw [operand, accepted_iff_kind rfl, Kind.accepted_slice, List.forall_mem_append]
    exact hstart.bind fun start => hstop.bind_ok fun stop => ⟨_, rfl⟩
  | literal hl =>
    rw [operand, accepted_iff_kind rfl, Kind.accepted_literal]
    exact (decides_literalPattern items hl).bind_ok fun p => ⟨_, rfl⟩
  | _ =>
    rw [operand, accepted_iff_kind rfl]
    exact ⟨nofun, nofun, nofun, nofun, nofun⟩

end Expr

namespace Pattern

variable {source : String} {e : Expr} {items : List Item}

/-- Errors of a text that is read are those of its tree. -/
theorem exists_compile_of_ofSource {err : SourceError} (h : Expr.read source = .ok e)
    (herr : ofSource source items = .error err) :
    ∃ cause, err = .compile cause ∧ Expr.operand items e = .error cause := by
  simp only [ofSource, h, Expr.compile] at herr
  cases ho : Expr.operand items e with
  | ok o =>
    rw [ho] at herr
    cases herr
  | error cause =>
    rw [ho] at herr
    cases herr
    exact ⟨cause, rfl, rfl⟩

/-- A text that is read has a pattern if its tree is compiled. -/
theorem exists_ofSource_iff_operand (h : Expr.read source = .ok e) :
    (∃ p, ofSource source items = .ok p) ↔ ∃ o, Expr.operand items e = .ok o := by
  simp only [ofSource, h, Expr.compile]
  cases Expr.operand items e with
  | ok o => exact ⟨fun _ => ⟨o, rfl⟩, fun _ => ⟨o.pattern, rfl⟩⟩
  | error cause => exact ⟨nofun, nofun⟩

/-- A text that is read as a tree has a pattern exactly if the tree is accepted.  When it has none,
no literal is to blame for standing where it does. -/
theorem exists_ofSource_iff_accepted (source : String) (e : Expr) (items : List Item)
    (h : Expr.read source = .ok e) :
    (∀ err, ofSource source items = .error err →
      ∃ cause, err = .compile cause ∧ cause.kind.isMisplaced = false) ∧
    ((∃ p, ofSource source items = .ok p) ↔ e.Accepted items) := by
  have hdecided : e.Decided items := (Expr.printable_of_read h).decided
  constructor
  · intro err herr
    obtain ⟨cause, rfl, hcause⟩ := exists_compile_of_ofSource h herr
    rw [Expr.Decided, hcause] at hdecided
    exact ⟨cause, rfl, hdecided.isMisplaced_eq⟩
  · rw [exists_ofSource_iff_operand h]
    exact hdecided.exists_ok_iff

/-- The tree of `[.<0>, ...{<0>?: .[<1>:]}]`. -/
def keyedTree : Expr :=
  ⟨.array [.item ⟨.key (.placeholder 0) false, ⟨1, 5⟩⟩,
    .rest ⟨.object [.field (.placeholder 0) true
      ⟨.slice (some (.placeholder 1)) none, ⟨17, 24⟩⟩], ⟨10, 25⟩⟩], ⟨0, 26⟩⟩

/-- A text and an integer. -/
def keyedItems : List Item := [.value (.str "a"), .value (.int 2)]

/-- A text item is a key in two places and an integer item a bound; without the integer there is no
pattern. -/
theorem exists_ofSource_iff_accepted_keyed :
    Expr.read "[.<0>, ...{<0>?: .[<1>:]}]" = .ok keyedTree ∧ keyedTree.Accepted keyedItems ∧
      ¬ keyedTree.Accepted (keyedItems.take 1) := by
  have hscan : Token.scan "[.<0>, ...{<0>?: .[<1>:]}]" =
      [⟨.leftBracket, ⟨0, 1⟩⟩, ⟨.dots 1, ⟨1, 2⟩⟩, ⟨.placeholder 0, ⟨2, 5⟩⟩, ⟨.comma, ⟨5, 6⟩⟩,
        ⟨.dots 3, ⟨7, 10⟩⟩, ⟨.leftBrace, ⟨10, 11⟩⟩, ⟨.placeholder 0, ⟨11, 14⟩⟩,
        ⟨.question, ⟨14, 15⟩⟩, ⟨.colon, ⟨15, 16⟩⟩, ⟨.dots 1, ⟨17, 18⟩⟩, ⟨.leftBracket, ⟨18, 19⟩⟩,
        ⟨.placeholder 1, ⟨19, 22⟩⟩, ⟨.colon, ⟨22, 23⟩⟩, ⟨.rightBracket, ⟨23, 24⟩⟩,
        ⟨.rightBrace, ⟨24, 25⟩⟩, ⟨.rightBracket, ⟨25, 26⟩⟩, ⟨.eof, ⟨26, 26⟩⟩] := by
    decide +kernel
  have hread : Expr.read "[.<0>, ...{<0>?: .[<1>:]}]" = .ok keyedTree := by
    rw [Expr.read, hscan]
    rfl
  have hboth := exists_ofSource_iff_accepted _ keyedTree keyedItems hread
  have hone := exists_ofSource_iff_accepted _ keyedTree (keyedItems.take 1) hread
  refine ⟨hread, hboth.2.1 ?_, fun haccepted => ?_⟩
  · rw [exists_ofSource_iff_operand hread]
    exact ⟨_, rfl⟩
  · obtain ⟨o, ho⟩ := (exists_ofSource_iff_operand hread).1 (hone.2.2 haccepted)
    cases ho

end Pattern

end DataExpr
