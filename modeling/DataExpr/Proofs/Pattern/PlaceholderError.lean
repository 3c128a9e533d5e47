import DataExpr.Proofs.Pattern.Acceptance

/-!
# Where errors about placeholders point

An error that a placeholder has no item, or an item that does not fit, is about a placeholder of some
node of the tree (`Expr.AtFault`).  It points at that node, whose tokens hold the placeholder, unless the
placeholder is the key of a field: then it points at the value of the field, which stands after the key
and does not hold it (`Pattern.exists_placeholder_of_error`).

Which errors a compilation may fail with is followed through it by `Compiled.Blames`; that a placeholder
of a node is among the tokens of the node is a fact of the grammar
(`Grammar.Whole.placeholder_mem`).
-/

namespace DataExpr

/-- The placeholder that the error is about, if it is about one. -/
def CompileError.Kind.placeholder? : CompileError.Kind → Option UInt64
  | missingInterpolation i _ | invalidInterpolation i _ _ => some i
  | _ => none

/-- Whether a token of the kind stands inside the span. -/
def Token.StandsIn (source : String) (kind : TokenKind) (span : Span) : Prop :=
  ∃ t ∈ scan source, t.kind = kind ∧ span.start ≤ t.span.start ∧ t.span.stop ≤ span.stop

/-! ### Tokens of a node -/

namespace Grammar

variable {i : UInt64}

theorem Key.eq_placeholder {k : TokenKind} (h : Key k (.placeholder i)) : k = .placeholder i := by
  cases h
  rfl

theorem FieldKey.eq_placeholder {k : TokenKind} (h : FieldKey k (.placeholder i)) :
    k = .placeholder i := by
  cases h with
  | key h => exact h.eq_placeholder

theorem Bound.placeholder_mem {ks : List TokenKind} {l : Option Literal} (h : Bound ks l)
    (hl : .placeholder i ∈ l.toList) : .placeholder i ∈ ks := by
  cases h with
  | absent => cases hl
  | int n => cases List.mem_singleton.1 hl
  | placeholder j =>
    cases List.mem_singleton.1 hl
    exact List.mem_singleton_self _

theorem Field.placeholder_mem {ks : List TokenKind} {x : Expr.ObjectEntry} (h : Field ks x)
    (hx : x.key? = some (.placeholder i)) : .placeholder i ∈ ks := by
  cases h with
  | field hk optional h =>
    cases hx
    rw [hk.eq_placeholder]
    exact List.mem_cons_self
  | rest h => cases hx

theorem Fields.placeholder_mem : ∀ {ks : List TokenKind} {es : List Expr.ObjectEntry},
    Fields ks es → .placeholder i ∈ es.filterMap Expr.ObjectEntry.key? → .placeholder i ∈ ks
  | _, _, .one h, hl => by
    obtain ⟨x, hx, hkey⟩ := List.mem_filterMap.1 hl
    cases List.mem_singleton.1 hx
    exact h.placeholder_mem hkey
  | _, _, .more hes h, hl => by
    rw [List.filterMap_append, List.mem_append] at hl
    rcases hl with hl | hl
    · exact List.mem_append_left _ (hes.placeholder_mem hl)
    · obtain ⟨x, hx, hkey⟩ := List.mem_filterMap.1 hl
      cases List.mem_singleton.1 hx
      exact List.mem_append_right _ (List.mem_cons_of_mem _ (h.placeholder_mem hkey))

mutual

/-- A placeholder that is a literal of the node of an expression is one of its tokens. -/
theorem Whole.placeholder_mem : ∀ {ks : List TokenKind} {e : Expr}, Whole ks e →
    .placeholder i ∈ e.kind.literals → .placeholder i ∈ ks
  | _, _, .sequence h, hl => h.placeholder_mem hl
  | _, _, .alt _ _ _, hl => by cases hl

theorem Sequence.placeholder_mem : ∀ {ks : List TokenKind} {e : Expr}, Sequence ks e →
    .placeholder i ∈ e.kind.literals → .placeholder i ∈ ks
  | _, _, .operand h, hl => h.placeholder_mem hl
  | _, _, .seq _ _ _, hl | _, _, .cut _ _, hl | _, _, .lookahead _ _, hl => by cases hl

theorem Operand.placeholder_mem : ∀ {ks : List TokenKind} {e : Expr}, Operand ks e →
    .placeholder i ∈ e.kind.literals → .placeholder i ∈ ks
  | _, _, .group h _, hl =>
    List.mem_cons_of_mem _ (List.mem_append_left _ (h.placeholder_mem hl))
  | _, _, .object h _ _, hl => by
    rw [Expr.kind_mk, Expr.Kind.literals, Expr.Kind.bounds, List.append_nil] at hl
    · exact List.mem_cons_of_mem _ (List.mem_append_left _ (h.placeholder_mem hl))
    all_goals nofun
  | _, _, .key h _ _, hl => by
    cases List.mem_singleton.1 hl
    rw [h.eq_placeholder]
    exact List.mem_cons_of_mem _ List.mem_cons_self
  | _, _, .slice hstart hstop _, hl => by
    have hbounds : Literal.placeholder i ∈ Option.toList _ ++ Option.toList _ := hl
    refine List.mem_cons_of_mem _ (List.mem_cons_of_mem _ ?_)
    rcases List.mem_append.1 hbounds with hl | hl
    · exact List.mem_append_left _ (hstart.placeholder_mem hl)
    · exact List.mem_append_right _ (List.mem_cons_of_mem _
        (List.mem_append_left _ (hstop.placeholder_mem hl)))
  | _, _, .placeholder _ _, hl => by
    cases List.mem_singleton.1 hl
    exact List.mem_singleton_self _
  | _, _, .index _ _ _, hl | _, _, .str _ _, hl | _, _, .int _ _, hl => by
    cases List.mem_singleton.1 hl
  | _, _, .emptyObject _, hl | _, _, .emptyArray _, hl | _, _, .array _ _ _, hl
  | _, _, .spread _, hl | _, _, .descent _, hl | _, _, .self _, hl => by cases hl

end

end Grammar

namespace Expr

variable (items : List Item) (i : UInt64)

/-! ### Nodes at fault -/

/-- Whether an error is about the placeholder where it is a literal of the node.  It points at the node,
unless the placeholder is the key of a field. -/
inductive AtFault (err : CompileError) (n : Expr) : Prop where
  | node (hliteral : .placeholder i ∈ n.kind.literals) (hspan : err.span = n.span)
  | fieldKey {es : List ObjectEntry} {optional : Bool} {value : Expr} (hnode : n.kind = .object es)
      (hfield : .field (.placeholder i) optional value ∈ es)
      (herr : fieldKey items (.placeholder i) value.span = .error err)

/-- Whether a node of the tree is at fault. -/
def Blamed (err : CompileError) (e : Expr) : Prop := ∃ n, IsPart n e ∧ n.AtFault items i err

variable {items i} {err : CompileError} {e c : Expr}

theorem AtFault.literal_mem {n : Expr} (h : n.AtFault items i err) :
    .placeholder i ∈ n.kind.literals := by
  cases h with
  | node hliteral _ => exact hliteral
  | fieldKey hnode hfield _ =>
    rw [hnode]
    exact List.mem_append_left _ (List.mem_filterMap.2 ⟨_, hfield, rfl⟩)

theorem AtFault.blamed (h : e.AtFault items i err) : e.Blamed items i err := ⟨e, .refl, h⟩

theorem Blamed.of_child (h : c.Blamed items i err) (hc : c ∈ e.children) : e.Blamed items i err := by
  obtain ⟨n, hn, hfault⟩ := h
  exact ⟨n, .head hc hn, hfault⟩

/-! ### Errors of compilations -/

namespace Compiled

variable {α β : Type} {x : Compiled α} {P : CompileError → Prop}

/-- Whether every error about the placeholder that the compilation fails with has the property. -/
def Blames (i : UInt64) (x : Compiled α) (P : CompileError → Prop) : Prop :=
  ∀ err, x = .error err → err.kind.placeholder? = some i → P err

theorem blames_ok (a : α) : Blames i (.ok a) P := nofun

/-- An error that is about no placeholder. -/
theorem blames_error {err : CompileError} (h : err.kind.placeholder? = none) :
    Blames i (.error err : Compiled α) P := by
  rintro _ ⟨⟩ hi
  cases h.symm.trans hi

theorem Blames.bind {f : α → Compiled β} (hx : Blames i x P) (hf : ∀ a, Blames i (f a) P) :
    Blames i (x >>= f) P := by
  cases x with
  | error err =>
    rintro err' ⟨⟩ hi
    exact hx err rfl hi
  | ok a => exact hf a

theorem Blames.mono {Q : CompileError → Prop} (hx : Blames i x P) (h : ∀ err, P err → Q err) :
    Blames i x Q :=
  fun err herr hi => h err (hx err herr hi)

end Compiled

open Compiled (Blames blames_ok blames_error)

variable {l : Literal} {s : Span}

/-- Whether the error is that the literal, being the placeholder, cannot stand where it does. -/
def OfLiteral (i : UInt64) (l : Literal) (s : Span) (err : CompileError) : Prop :=
  l = .placeholder i ∧ err.span = s

/-- An error of a place that needs an item is about the placeholder that stands there. -/
theorem blames_itemAt {α : Type} {j : UInt64} {f : Item → Compiled α}
    (hf : ∀ item err, f item = .error err →
      err.kind.placeholder? = some j ∧ err.span = s) :
    Blames i (itemAt items j s >>= f) (OfLiteral i (.placeholder j) s) := by
  rintro err herr hi
  unfold itemAt at herr
  split at herr
  · obtain ⟨hj, hspan⟩ := hf _ err herr
    exact ⟨congrArg _ (Option.some.inj (hj.symm.trans hi)), hspan⟩
  · cases herr
    exact ⟨congrArg _ (Option.some.inj hi), rfl⟩

theorem blames_keyPattern (optional : Bool) :
    Blames i (keyPattern items l optional s) (OfLiteral i l s) := by
  cases l with
  | placeholder j =>
    refine blames_itemAt fun item err herr => ?_
    split at herr <;> cases herr
    exact ⟨rfl, rfl⟩
  | int n => exact blames_error rfl
  | _ => exact blames_ok _

theorem blames_fieldKey : Blames i (fieldKey items l s) (OfLiteral i l s) := by
  cases l with
  | placeholder j =>
    refine blames_itemAt fun item err herr => ?_
    split at herr <;> cases herr
    exact ⟨rfl, rfl⟩
  | _ => exact blames_ok _

theorem blames_number (position : String) :
    Blames i (number items l position s) (OfLiteral i l s) := by
  cases l with
  | placeholder j =>
    refine blames_itemAt fun item err herr => ?_
    split at herr <;> cases herr
    exact ⟨rfl, rfl⟩
  | int n => exact blames_ok _
  | _ => exact blames_error rfl

theorem blames_number? (l : Option Literal) (position : String) :
    Blames i (number? items l position s) fun err => ∃ l' ∈ l, OfLiteral i l' s err := by
  cases l with
  | none => exact blames_ok _
  | some l =>
    have hnumber : Blames i (number items l position s) (OfLiteral i l s) := blames_number position
    refine (hnumber.mono fun err h => ?_).bind fun n => blames_ok _
    exact ⟨l, rfl, h⟩

theorem blames_literalPattern : Blames i (literalPattern items l s) (OfLiteral i l s) := by
  cases l with
  | placeholder j => exact blames_itemAt fun item err herr => nomatch herr
  | ident name => exact blames_error rfl
  | _ => exact blames_ok _

/-! ### Trees -/

/-- Whether every error about the placeholder that a part of the tree is compiled with has a node of the
tree at fault. -/
def Traced (items : List Item) (i : UInt64) (e : Expr) : Prop :=
  Blames i (operand items e) (Blamed items i · e)

/-- What an error about a placeholder in the entries of an object pattern comes from: a node inside an
entry, or the key of one. -/
def EntriesBlamed (items : List Item) (i : UInt64) (es : List ObjectEntry) (err : CompileError) :
    Prop :=
  (∃ x ∈ es, x.value.Blamed items i err) ∨
    ∃ optional value, .field (.placeholder i) optional value ∈ es ∧
      fieldKey items (.placeholder i) value.span = .error err

theorem EntriesBlamed.of_tail {x : ObjectEntry} {es : List ObjectEntry}
    (h : EntriesBlamed items i es err) : EntriesBlamed items i (x :: es) err := by
  rcases h with ⟨y, hy, hblamed⟩ | ⟨optional, value, hfield, herr⟩
  · exact .inl ⟨y, List.mem_cons_of_mem _ hy, hblamed⟩
  · exact .inr ⟨optional, value, List.mem_cons_of_mem _ hfield, herr⟩

theorem EntriesBlamed.of_value {x : ObjectEntry} {es : List ObjectEntry}
    (h : x.value.Blamed items i err) : EntriesBlamed items i (x :: es) err :=
  .inl ⟨x, List.mem_cons_self, h⟩

theorem blames_objectParts {es : List ObjectEntry} (hasRest : Bool)
    (hes : ∀ x ∈ es, x.value.Traced items i) :
    Blames i (objectParts items es hasRest) (EntriesBlamed items i es) := by
  induction es generalizing hasRest with
  | nil => exact blames_ok _
  | cons x es ih =>
    obtain ⟨hx, htail⟩ := List.forall_mem_cons.1 hes
    have hvalue := hx.mono fun err h => (.of_value h : EntriesBlamed items i (x :: es) err)
    have hrest := fun hasRest => (ih hasRest htail).mono fun err => EntriesBlamed.of_tail (x := x)
    cases x with
    | field k optional e =>
      have hkey : Blames i (fieldKey items k e.span)
          (EntriesBlamed items i (.field k optional e :: es)) := by
        rintro err herr hi
        obtain ⟨rfl, -⟩ := blames_fieldKey err herr hi
        exact .inr ⟨optional, e, List.mem_cons_self, herr⟩
      rw [objectParts]
      exact hkey.bind fun name => hvalue.bind fun o => (hrest hasRest).bind fun parts => blames_ok _
    | rest e =>
      rw [objectParts]
      cases hasRest with
      | true => exact blames_error rfl
      | false => exact hvalue.bind fun o => (hrest true).bind fun parts => blames_ok _

theorem blames_arrayParts {es : List ArrayEntry} (hes : ∀ x ∈ es, x.value.Traced items i) :
    Blames i (arrayParts items es) fun err => ∃ x ∈ es, x.value.Blamed items i err := by
  induction es with
  | nil => exact blames_ok _
  | cons x es ih =>
    obtain ⟨hx, htail⟩ := List.forall_mem_cons.1 hes
    have hvalue : Blames i (operand items x.value) fun err =>
        ∃ y ∈ x :: es, y.value.Blamed items i err := hx.mono fun err h => ⟨x, List.mem_cons_self, h⟩
    have hrest := (ih htail).mono fun err ⟨y, hy, h⟩ =>
      (⟨y, List.mem_cons_of_mem x hy, h⟩ : ∃ y ∈ x :: es, y.value.Blamed items i err)
    cases x with
    | item e =>
      rw [arrayParts]
      exact hvalue.bind fun o => hrest.bind fun parts => blames_ok _
    | rest e =>
      rw [arrayParts]
      cases es with
      | nil => exact hvalue.bind fun o => blames_ok _
      | cons y es => exact blames_error rfl

/-- An error about a literal of a node is traced to that node. -/
theorem OfLiteral.blamed (h : OfLiteral i l e.span err) (hl : l ∈ e.kind.literals) :
    e.Blamed items i err :=
  AtFault.blamed (.node (h.1 ▸ hl) h.2)

mutual

/-- Errors about placeholders are traced to nodes at fault. -/
theorem traced (items : List Item) (i : UInt64) : ∀ e : Expr, e.Traced items i
  | ⟨.alt l r, s⟩ | ⟨.seq l r, s⟩ => by
    rw [Traced, operand]
    refine ((traced items i l).mono fun err h => ?_).bind fun left =>
      ((traced items i r).mono fun err h => ?_).bind fun right => blames_ok _
    · exact h.of_child List.mem_cons_self
    · exact h.of_child (List.mem_cons_of_mem _ (List.mem_singleton_self r))
  | ⟨.lookahead e, s⟩ | ⟨.cut e, s⟩ => by
    rw [Traced, operand]
    refine ((traced items i e).mono fun err h => ?_).bind fun o => blames_ok _
    exact h.of_child (List.mem_singleton_self e)
  | ⟨.object es, s⟩ => by
    rw [Traced, operand]
    refine ((blames_objectParts false (traced_fields items i es)).mono fun err h => ?_).bind
      fun parts => blames_ok _
    rcases h with ⟨x, hx, hblamed⟩ | ⟨optional, value, hfield, herr⟩
    · exact hblamed.of_child (List.mem_map_of_mem hx)
    · exact AtFault.blamed (.fieldKey rfl hfield herr)
  | ⟨.array es, s⟩ => by
    rw [Traced, operand]
    refine ((blames_arrayParts (traced_elements items i es)).mono fun err h => ?_).bind
      fun parts => blames_ok _
    obtain ⟨x, hx, hblamed⟩ := h
    exact hblamed.of_child (List.mem_map_of_mem hx)
  | ⟨.key k optional, s⟩ => by
    rw [Traced, operand]
    refine ((blames_keyPattern optional).mono fun err h => ?_).bind fun p => blames_ok _
    exact h.blamed (List.mem_singleton_self k)
  | ⟨.index l optional, s⟩ => by
    rw [Traced, operand]
    refine ((blames_number "an index").mono fun err h => ?_).bind fun n => blames_ok _
    exact h.blamed (List.mem_singleton_self l)
  | ⟨.slice a b, s⟩ => by
    rw [Traced, operand]
    refine ((blames_number? a "a slice bound").mono fun err h => ?_).bind fun start =>
      ((blames_number? b "a slice bound").mono fun err h => ?_).bind fun stop => blames_ok _
    · obtain ⟨l, hl, h⟩ := h
      exact h.blamed (List.mem_append_left b.toList (Option.mem_toList.2 hl))
    · obtain ⟨l, hl, h⟩ := h
      exact h.blamed (List.mem_append_right a.toList (Option.mem_toList.2 hl))
  | ⟨.literal l, s⟩ => by
    rw [Traced, operand]
    refine (blames_literalPattern.mono fun err h => ?_).bind fun p => blames_ok _
    exact h.blamed (List.mem_singleton_self l)
  | ⟨.spread, s⟩ | ⟨.descent, s⟩ | ⟨.self, s⟩ => by
    rw [Traced, operand]
    exact blames_ok _

theorem traced_fields (items : List Item) (i : UInt64) :
    ∀ es : List ObjectEntry, ∀ x ∈ es, x.value.Traced items i
  | [] => nofun
  | .field _ _ e :: es | .rest e :: es =>
    List.forall_mem_cons.2 ⟨traced items i e, traced_fields items i es⟩

theorem traced_elements (items : List Item) (i : UInt64) :
    ∀ es : List ArrayEntry, ∀ x ∈ es, x.value.Traced items i
  | [] => nofun
  | .item e :: es | .rest e :: es =>
    List.forall_mem_cons.2 ⟨traced items i e, traced_elements items i es⟩

end

/-- The tokens of a part of a tree that was read hold the placeholders that are literals of its node. -/
theorem standsIn_of_literal_mem {source : String} {n : Expr} (hread : read source = .ok e)
    (hn : IsPart n e) (hl : .placeholder i ∈ n.kind.literals) :
    Token.StandsIn source (.placeholder i) n.span := by
  obtain ⟨ts, stop, hscan, hplaced⟩ := placed_of_read hread
  obtain ⟨pre, mid, post, rfl, hpart⟩ := hplaced.of_isPart hn
  have horder : Token.InOrder (pre ++ (mid ++ post) ++ [stop]) := hscan ▸ Token.inOrder_scan source
  have hmid : Token.InOrder mid := horder.of_append_left.of_append_right.of_append_left
  obtain ⟨t, ht, hkind⟩ := List.mem_map.1 (hpart.derived.placeholder_mem hl)
  have hmem : t ∈ Token.scan source := by
    rw [hscan]
    exact List.mem_append_left _ (List.mem_append_right _ (List.mem_append_left _ ht))
  rw [hpart.span]
  exact ⟨t, hmem, hkind, hmid.start_le ht, hmid.le_stop ht⟩

end Expr

namespace Pattern

open DataExpr.Expr (IsPart fieldKey)

variable {source : String} {items : List Item} {err : CompileError} {i : UInt64}

/-- Where an error about a placeholder points.  A token of the placeholder stands inside its span, unless
it is the error of the key of a field.  Then it points at the value of the field, and a token of the
placeholder stands inside the object pattern. -/
theorem exists_placeholder_of_error (h : ofSource source items = .error (.compile err))
    (hi : err.kind.placeholder? = some i) :
    Token.StandsIn source (.placeholder i) err.span ∨
      ∃ e n es optional value, Expr.read source = .ok e ∧ IsPart n e ∧ n.kind = .object es ∧
        .field (.placeholder i) optional value ∈ es ∧ err.span = value.span ∧
        fieldKey items (.placeholder i) value.span = .error err ∧
        Token.StandsIn source (.placeholder i) n.span := by
  obtain ⟨e, hread, herr⟩ : ∃ e, Expr.read source = .ok e ∧ Expr.operand items e = .error err := by
    cases hread : Expr.read source with
    | error cause =>
      simp only [ofSource, hread] at h
      cases h
    | ok e =>
      obtain ⟨cause, hcause, herr⟩ := exists_compile_of_ofSource hread h
      cases hcause
      exact ⟨e, rfl, herr⟩
  obtain ⟨n, hn, hfault⟩ := Expr.traced items i e err herr hi
  have hstands := Expr.standsIn_of_literal_mem hread hn hfault.literal_mem
  cases hfault with
  | node _ hspan => exact .inl (hspan ▸ hstands)
  | fieldKey hnode hfield herr =>
    have hspan := (Expr.blames_fieldKey err herr hi).2
    exact .inr ⟨e, n, _, _, _, hread, hn, hnode, hfield, hspan, herr, hstands⟩

/-- The text that is given for the bound of a slice inside a field. -/
theorem exists_placeholder_of_error_bound :
    let source := "\x7ba: .[<1>:2]\x7d"
    let items : List Item := [.value (.int 0), .value (.str "x")]
    let err : CompileError := ⟨.invalidInterpolation 1 "a string" "a slice bound", ⟨4, 12⟩⟩
    ofSource source items = .error (.compile err) ∧ err.kind.placeholder? = some 1 ∧
      (Token.StandsIn source (.placeholder 1) err.span ∨
        ∃ e n es optional value, Expr.read source = .ok e ∧ IsPart n e ∧ n.kind = .object es ∧
          .field (.placeholder 1) optional value ∈ es ∧ err.span = value.span ∧
          fieldKey items (.placeholder 1) value.span = .error err ∧
          Token.StandsIn source (.placeholder 1) n.span) := by
  intro source items err
  have hscan : Token.scan source =
      [⟨.leftBrace, ⟨0, 1⟩⟩, ⟨.ident "a", ⟨1, 2⟩⟩, ⟨.colon, ⟨2, 3⟩⟩, ⟨.dots 1, ⟨4, 5⟩⟩,
        ⟨.leftBracket, ⟨5, 6⟩⟩, ⟨.placeholder 1, ⟨6, 9⟩⟩, ⟨.colon, ⟨9, 10⟩⟩, ⟨.int 2, ⟨10, 11⟩⟩,
        ⟨.rightBracket, ⟨11, 12⟩⟩, ⟨.rightBrace, ⟨12, 13⟩⟩, ⟨.eof, ⟨13, 13⟩⟩] := by
    decide +kernel
  have herr : ofSource source items = .error (.compile err) := by
    rw [ofSource, Expr.read, hscan]
    rfl
  exact ⟨herr, rfl, exists_placeholder_of_error herr rfl⟩

/-- The key of a field that no item is given for: the error points at the value after it. -/
theorem not_standsIn_of_error_key :
    let source := "\x7b<0>: 1\x7d"
    ofSource source [] = .error (.compile ⟨.missingInterpolation 0 0, ⟨6, 7⟩⟩) ∧
      ¬ Token.StandsIn source (.placeholder 0) ⟨6, 7⟩ := by
  intro source
  have hscan : Token.scan source =
      [⟨.leftBrace, ⟨0, 1⟩⟩, ⟨.placeholder 0, ⟨1, 4⟩⟩, ⟨.colon, ⟨4, 5⟩⟩, ⟨.int 1, ⟨6, 7⟩⟩,
        ⟨.rightBrace, ⟨7, 8⟩⟩, ⟨.eof, ⟨8, 8⟩⟩] := by
    decide +kernel
  constructor
  · rw [ofSource, Expr.read, hscan]
    rfl
  · rintro ⟨t, ht, hkind, hstart, -⟩
    rw [hscan] at ht
    revert hkind hstart
    revert t
    decide

end Pattern

end DataExpr
