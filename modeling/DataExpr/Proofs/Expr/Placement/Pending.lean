import DataExpr.Proofs.Expr.Grammar.States
import DataExpr.Proofs.Expr.Placement

/-!
# Operands that have begun

Between the first token of an operand and its last, a state of the parser keeps the span of the first
token and the trees that are done (`Parser.Pending`); what stands around the operand does not matter
until it ends.  `Parser.Advance` lists what one token can do to such an operand: it goes on, it ends,
an expression begins inside it, or an access by a key is complete up to a question mark.  A step of
the parser does one of these (`Parser.Pending.advance`), and so does the end of an expression inside
a construct (`Parser.advance_ends`).

The tokens of an operand are told by `Parser.State.Read` for the state with nothing around it.
-/

namespace DataExpr

namespace Parser

open Grammar (Whole Operand Fields Elements maybe)

/-! ### Constructs and states -/

/-- The span of the token that opened the construct. -/
def Frame.opening : Frame → Span
  | group opening => opening
  | field opening .. => opening
  | objectRest opening _ => opening
  | item opening _ => opening
  | arrayRest opening _ => opening

/-- The trees inside entries that are done, in the order in which they are written. -/
def objectValues (done : List Expr.ObjectEntry) : List Expr :=
  done.reverse.map Expr.ObjectEntry.value

/-- The trees inside entries that are done, in the order in which they are written. -/
def arrayValues (done : List Expr.ArrayEntry) : List Expr :=
  done.reverse.map Expr.ArrayEntry.value

theorem objectValues_cons (x : Expr.ObjectEntry) (done : List Expr.ObjectEntry) :
    objectValues (x :: done) = objectValues done ++ [x.value] := by
  rw [objectValues, List.reverse_cons, List.map_append]
  rfl

theorem arrayValues_cons (x : Expr.ArrayEntry) (done : List Expr.ArrayEntry) :
    arrayValues (x :: done) = arrayValues done ++ [x.value] := by
  rw [arrayValues, List.reverse_cons, List.map_append]
  rfl

/-- The trees inside the construct that are done. -/
def Frame.parts : Frame → List Expr
  | group _ => []
  | field _ done _ _ | objectRest _ done => objectValues done
  | item _ done | arrayRest _ done => arrayValues done

/-- The trees inside the construct when the expression in it is done as well.  Parentheses give their
span to the node inside them. -/
def Frame.partsWith (frame : Frame) (e : Expr) : List Expr :=
  match frame with
  | group _ => e.children
  | _ => frame.parts ++ [e]

/-- The states inside an operand that has begun, without what stands around it: with the span of its
first token and the trees inside it that are done. -/
inductive Pending : (Left → Stack → State) → Span → List Expr → Prop where
  | access (dot : Span) : Pending (.access dot) dot []
  | sliceStart (dot : Span) : Pending (.sliceStart dot) dot []
  | sliceColon (dot : Span) (start : Literal) : Pending (.sliceColon dot start) dot []
  | sliceStop (dot : Span) (start : Option Literal) : Pending (.sliceStop dot start) dot []
  | sliceEnd (dot : Span) (start : Option Literal) (stop : Literal) :
      Pending (.sliceEnd dot start stop) dot []
  | entry (opening : Span) (done : List Expr.ObjectEntry) :
      Pending (.entry opening done) opening (objectValues done)
  | fieldMark (opening : Span) (done : List Expr.ObjectEntry) (key : Literal) :
      Pending (.fieldMark opening done key) opening (objectValues done)
  | fieldColon (opening : Span) (done : List Expr.ObjectEntry) (key : Literal) :
      Pending (.fieldColon opening done key) opening (objectValues done)
  | element (opening : Span) (done : List Expr.ArrayEntry) :
      Pending (.element opening done) opening (arrayValues done)

/-- What the token does to an operand of the tokens `ks`, by the state that it leads to. -/
inductive Advance (opening : Span) (parts : List Expr) (ks : List TokenKind) (t : Token)
    (left : Left) (stack : Stack) : State → Prop where
  /-- The operand goes on. -/
  | more {state : Left → Stack → State} (hpending : Pending state opening parts)
      (hread : (state .empty []).Read (ks ++ [t.kind])) : Advance _ _ _ _ _ _ (state left stack)
  /-- The operand ends. -/
  | done {kind : Expr.Kind} (hparts : kind.children = parts)
      (hoperand : Operand (ks ++ [t.kind]) ⟨kind, opening.merge t.span⟩) :
      Advance _ _ _ _ _ _ (left.push ⟨kind, opening.merge t.span⟩ stack)
  /-- An expression begins after the token. -/
  | inside {frame : Frame} (hopening : frame.opening = opening) (hparts : frame.parts = parts)
      (hread : frame.Read (ks ++ [t.kind])) :
      Advance _ _ _ _ _ _ (.operand .empty ((frame, left) :: stack))
  /-- An expression begins with the token. -/
  | first {frame : Frame} {next : State} (hopening : frame.opening = opening)
      (hparts : frame.parts = parts) (hread : frame.Read ks)
      (hnext : Starts .empty ((frame, left) :: stack) t next) :
      Advance _ _ _ _ _ _ next
  /-- The operand ends, unless a question mark follows. -/
  | accessed {node : Bool → Expr.Kind} (hparts : ∀ optional, (node optional).children = parts)
      (hoperand : ∀ optional s,
        Operand (ks ++ t.kind :: maybe .question optional) ⟨node optional, s⟩) :
      Advance _ _ _ _ _ _ (.accessed opening t.span node left stack)

variable {state : Left → Stack → State} {next : State} {left : Left} {stack : Stack} {t : Token}
variable {opening : Span} {parts : List Expr} {ks ke : List TokenKind} {e : Expr}

/-! ### Tokens with nothing around them -/

theorem eq_nil_of_read_empty (h : Left.empty.Read ks) : ks = [] := by
  obtain ⟨ha, hq⟩ := h
  cases ha
  cases hq
  rfl

theorem eq_nil_of_before (h : Before .empty [] ks) : ks = [] := by
  obtain ⟨hstack, hleft⟩ := h
  cases hstack
  exact eq_nil_of_read_empty hleft

theorem before_empty : Before .empty [] [] := .mk .nil read_empty

/-- Whether the node is made by an operator of sequences. -/
def isSequential : Expr.Kind → Bool
  | .seq .. | .cut _ | .lookahead _ => true
  | _ => false

/-- An operand alone is one, unless its node is that of a longer sequence. -/
theorem operand_of_push {kind : Expr.Kind} {s : Span}
    (h : (Left.empty.push ⟨kind, s⟩ []).Read ks) (hkind : isSequential kind = false) :
    Operand ks ⟨kind, s⟩ := by
  cases h with
  | operator hstack halternatives hsequence =>
    cases hstack
    cases halternatives
    cases hsequence with
    | operand h => exact h
    | _ => cases hkind

theorem frame_of_operand {frame : Frame}
    (h : (State.operand .empty [(frame, .empty)]).Read ks) : frame.Read ks := by
  cases h with
  | operand h =>
    obtain ⟨hstack, hinner⟩ := h
    obtain rfl := eq_nil_of_read_empty hinner
    cases hstack with
    | cons houter hleft hframe =>
      cases houter
      obtain rfl := eq_nil_of_read_empty hleft
      rwa [List.append_nil]

/-! ### Steps -/

/-- More must come in the middle of an operand. -/
theorem Pending.ne_accepted (hpending : Pending state opening parts) (left : Left) (stack : Stack)
    (e : Expr) : state left stack ≠ .accepted e := by
  intro h
  cases hpending <;> cases h

/-- A token goes on with a pending operand. -/
theorem Pending.advance (hpending : Pending state opening parts)
    (hread : (state .empty []).Read ks) (h : Step (state left stack) t next) :
    Advance opening parts ks t left stack next := by
  -- With nothing around the operand the same step is possible, and its tokens are told.
  have hstep : ∀ {next'}, Step (state .empty []) t next' → next'.Read (ks ++ [t.kind]) :=
    read_step hread (hpending.ne_accepted .empty [])
  cases hpending with
  | access dot =>
    cases hread with
    | access _ hbefore =>
      obtain rfl := eq_nil_of_before hbefore
      cases h with
      | slice _ span => exact .more (.sliceStart _) (hstep (.slice _ span .empty []))
      | key hkey _ span => exact .accessed (fun _ => rfl) fun optional s => .key hkey optional s
      | index n _ span => exact .accessed (fun _ => rfl) fun optional s => .index n optional s
  | sliceStart dot =>
    cases h with
    | start hbound _ span => exact .more (.sliceColon _ _) (hstep (.start hbound _ span .empty []))
    | noStart _ span => exact .more (.sliceStop _ none) (hstep (.noStart _ span .empty []))
  | sliceColon dot start =>
    cases h with
    | sliceColon _ span =>
      exact .more (.sliceStop _ (some start)) (hstep (.sliceColon _ span start .empty []))
  | sliceStop dot start =>
    cases h with
    | stop hbound _ span =>
      exact .more (.sliceEnd _ start _) (hstep (.stop hbound _ span start .empty []))
    | noStop _ span =>
      exact .done rfl (operand_of_push (hstep (.noStop _ span start .empty [])) rfl)
  | sliceEnd dot start stop =>
    cases h with
    | sliceEnd _ span =>
      exact .done rfl (operand_of_push (hstep (.sliceEnd _ span start stop .empty [])) rfl)
  | entry opening done =>
    cases h with
    | fieldKey hkey _ span =>
      exact .more (.fieldMark opening done _) (hstep (.fieldKey hkey opening span done .empty []))
    | objectEnd _ span =>
      exact .done rfl (operand_of_push (hstep (.objectEnd opening span done .empty [])) rfl)
    | objectRest _ span =>
      exact .inside rfl rfl (frame_of_operand (hstep (.objectRest opening span done .empty [])))
  | fieldMark opening done key =>
    cases h with
    | fieldMark _ span =>
      exact .more (.fieldColon opening done key)
        (hstep (.fieldMark opening span done key .empty []))
    | field _ span =>
      exact .inside rfl rfl (frame_of_operand (hstep (.field opening span done key .empty [])))
  | fieldColon opening done key =>
    cases h with
    | optionalField _ span =>
      exact .inside rfl rfl
        (frame_of_operand (hstep (.optionalField opening span done key .empty [])))
  | element opening done =>
    cases h with
    | arrayEnd _ span =>
      exact .done rfl (operand_of_push (hstep (.arrayEnd opening span done .empty [])) rfl)
    | arrayRest _ span =>
      exact .inside rfl rfl (frame_of_operand (hstep (.arrayRest opening span done .empty [])))
    | item hstart =>
      cases hread with
      | element _ hbefore hdone =>
        obtain rfl := eq_nil_of_before hbefore
        have hframe : (Frame.item opening done).Read _ := .item opening hdone
        exact .first rfl rfl hframe hstart

/-- An entry of an object pattern is done: the tree inside it is one more part. -/
theorem Frame.EndsField.partsWith {frame : Frame} {done : List Expr.ObjectEntry}
    (h : frame.EndsField e opening done) :
    frame.opening = opening ∧ frame.partsWith e = objectValues done := by
  cases h with
  | field opening done key optional =>
    exact ⟨rfl, (objectValues_cons (.field key optional e) done).symm⟩
  | rest opening done => exact ⟨rfl, (objectValues_cons (.rest e) done).symm⟩

/-- An entry of an array pattern is done: the tree inside it is one more part. -/
theorem Frame.EndsElement.partsWith {frame : Frame} {done : List Expr.ArrayEntry}
    (h : frame.EndsElement e opening done) :
    frame.opening = opening ∧ frame.partsWith e = arrayValues done := by
  cases h with
  | item opening done => exact ⟨rfl, (arrayValues_cons (.item e) done).symm⟩
  | rest opening done => exact ⟨rfl, (arrayValues_cons (.rest e) done).symm⟩

/-- A token after a whole expression inside a construct goes on with the construct or ends it. -/
theorem advance_ends {frame : Frame} (hframe : frame.Read ks) (he : Whole ke e)
    (h : Ends e ((frame, left) :: stack) t next) :
    Advance frame.opening (frame.partsWith e) (ks ++ ke) t left stack next := by
  cases h with
  | group opening span left outer =>
    cases hframe
    exact .done rfl (.group he _)
  | entry h span left outer =>
    obtain ⟨kd, hkd, hfields⟩ := hframe.endsField he h
    rw [h.partsWith.1, h.partsWith.2, hkd]
    exact .more (.entry _ _) (.entry _ before_empty (.some hfields))
  | object h span left outer =>
    obtain ⟨kd, hkd, hfields⟩ := hframe.endsField he h
    rw [h.partsWith.1, h.partsWith.2, hkd]
    exact .done rfl (.object hfields false _)
  | element h span left outer =>
    obtain ⟨kd, hkd, helements⟩ := hframe.endsElement he h
    rw [h.partsWith.1, h.partsWith.2, hkd]
    exact .more (.element _ _) (.element _ before_empty (.some helements))
  | array h span left outer =>
    obtain ⟨kd, hkd, helements⟩ := hframe.endsElement he h
    rw [h.partsWith.1, h.partsWith.2, hkd]
    exact .done rfl (.array helements false _)

end Parser

end DataExpr
