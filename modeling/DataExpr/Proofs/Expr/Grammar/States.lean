import DataExpr.Proofs.Expr.Steps
import Mathlib.Data.List.Infix

/-!
# What is read is in the grammar

A state of the parser stands for the tokens that led to it.  `Parser.State.Read state ks` says that
the tokens of the kinds `ks` are, up to their end, an expression whose parts are those of the state:
each open construct with what stands to its left, and the entries, the sequence and the bounds that
are done.  Every step adds its token (`Parser.read_step`), so a run that ends with a tree has read
tokens that derive it (`Parser.whole_of_run`).
-/

namespace DataExpr

namespace Parser

open Grammar (Key FieldKey Bound Whole Sequence Operand Field Fields Element Elements maybe)

/-! ### Tokens of a state -/

/-- The tokens of alternatives, with the mark after them. -/
inductive AlternativesRead : Option Expr → List TokenKind → Prop where
  | none : AlternativesRead none []
  | some {e : Expr} {ks : List TokenKind} (h : Whole ks e) :
      AlternativesRead (some e) (ks ++ [.pipe])

/-- The tokens of a sequence that may be empty. -/
inductive SequenceRead : Option Expr → List TokenKind → Prop where
  | none : SequenceRead none []
  | some {e : Expr} {ks : List TokenKind} (h : Sequence ks e) : SequenceRead (some e) ks

/-- The tokens of what stands to the left of an operand. -/
inductive Left.Read (left : Left) : List TokenKind → Prop where
  | mk {ks ks' : List TokenKind} (halternatives : AlternativesRead left.alternatives ks)
      (hsequence : SequenceRead left.sequence ks') : Read left (ks ++ ks')

/-- The tokens of entries that are done, latest first, with the comma after them. -/
inductive DoneRead {α : Type} (entries : List TokenKind → List α → Prop) :
    List α → List TokenKind → Prop where
  | none : DoneRead entries [] []
  | some {done : List α} {ks : List TokenKind} (h : entries ks done.reverse) :
      DoneRead entries done (ks ++ [.comma])

/-- The tokens of a construct up to the expression inside it. -/
inductive Frame.Read : Frame → List TokenKind → Prop where
  | group (opening : Span) : Read (.group opening) [.leftParen]
  | field (opening : Span) {done : List Expr.ObjectEntry} {ks : List TokenKind} {k : TokenKind}
      {key : Literal} (hdone : DoneRead Fields done ks) (hkey : FieldKey k key) (optional : Bool) :
      Read (.field opening done key optional)
        (.leftBrace :: (ks ++ k :: (maybe .question optional ++ [.colon])))
  | objectRest (opening : Span) {done : List Expr.ObjectEntry} {ks : List TokenKind}
      (hdone : DoneRead Fields done ks) :
      Read (.objectRest opening done) (.leftBrace :: (ks ++ [.dots 3]))
  | item (opening : Span) {done : List Expr.ArrayEntry} {ks : List TokenKind}
      (hdone : DoneRead Elements done ks) : Read (.item opening done) (.leftBracket :: ks)
  | arrayRest (opening : Span) {done : List Expr.ArrayEntry} {ks : List TokenKind}
      (hdone : DoneRead Elements done ks) :
      Read (.arrayRest opening done) (.leftBracket :: (ks ++ [.dots 3]))

/-- The tokens of the open constructs, each after what stands to its left. -/
inductive Stack.Read : Stack → List TokenKind → Prop where
  | nil : Read [] []
  | cons {stack : Stack} {left : Left} {frame : Frame} {ks kl kf : List TokenKind}
      (hstack : Read stack ks) (hleft : left.Read kl) (hframe : frame.Read kf) :
      Read ((frame, left) :: stack) (ks ++ (kl ++ kf))

/-- The tokens before an operand. -/
inductive Before (left : Left) (stack : Stack) : List TokenKind → Prop where
  | mk {ks kl : List TokenKind} (hstack : Stack.Read stack ks) (hleft : left.Read kl) :
      Before left stack (ks ++ kl)

/-- The tokens that lead to a state. -/
inductive State.Read : State → List TokenKind → Prop where
  | operand {left : Left} {stack : Stack} {ks : List TokenKind} (h : Before left stack ks) :
      Read (.operand left stack) ks
  | operator {alternatives : Option Expr} {sequence : Expr} {stack : Stack}
      {ks ka kq : List TokenKind} (hstack : Stack.Read stack ks)
      (halternatives : AlternativesRead alternatives ka) (hsequence : Sequence kq sequence) :
      Read (.operator alternatives sequence stack) (ks ++ (ka ++ kq))
  | access (dot : Span) {left : Left} {stack : Stack} {ks : List TokenKind}
      (h : Before left stack ks) : Read (.access dot left stack) (ks ++ [.dots 1])
  /-- With or without a question mark the access is an operand. -/
  | accessed (dot key : Span) {node : Bool → Expr.Kind} {left : Left} {stack : Stack}
      {ks : List TokenKind} {k : TokenKind} (h : Before left stack ks)
      (hnode : ∀ optional s,
        Operand (.dots 1 :: k :: maybe .question optional) ⟨node optional, s⟩) :
      Read (.accessed dot key node left stack) (ks ++ [.dots 1, k])
  | sliceStart (dot : Span) {left : Left} {stack : Stack} {ks : List TokenKind}
      (h : Before left stack ks) : Read (.sliceStart dot left stack) (ks ++ [.dots 1, .leftBracket])
  | sliceColon (dot : Span) {start : Literal} {left : Left} {stack : Stack} {ks kb : List TokenKind}
      (h : Before left stack ks) (hstart : Bound kb (some start)) :
      Read (.sliceColon dot start left stack) (ks ++ .dots 1 :: .leftBracket :: kb)
  | sliceStop (dot : Span) {start : Option Literal} {left : Left} {stack : Stack}
      {ks kb : List TokenKind} (h : Before left stack ks) (hstart : Bound kb start) :
      Read (.sliceStop dot start left stack) (ks ++ .dots 1 :: .leftBracket :: (kb ++ [.colon]))
  | sliceEnd (dot : Span) {start : Option Literal} {stop : Literal} {left : Left} {stack : Stack}
      {ks kb kb' : List TokenKind} (h : Before left stack ks) (hstart : Bound kb start)
      (hstop : Bound kb' (some stop)) :
      Read (.sliceEnd dot start stop left stack)
        (ks ++ .dots 1 :: .leftBracket :: (kb ++ .colon :: kb'))
  | entry (opening : Span) {done : List Expr.ObjectEntry} {left : Left} {stack : Stack}
      {ks kd : List TokenKind} (h : Before left stack ks) (hdone : DoneRead Fields done kd) :
      Read (.entry opening done left stack) (ks ++ .leftBrace :: kd)
  | fieldMark (opening : Span) {done : List Expr.ObjectEntry} {key : Literal} {left : Left}
      {stack : Stack} {ks kd : List TokenKind} {k : TokenKind} (h : Before left stack ks)
      (hdone : DoneRead Fields done kd) (hkey : FieldKey k key) :
      Read (.fieldMark opening done key left stack) (ks ++ .leftBrace :: (kd ++ [k]))
  | fieldColon (opening : Span) {done : List Expr.ObjectEntry} {key : Literal} {left : Left}
      {stack : Stack} {ks kd : List TokenKind} {k : TokenKind} (h : Before left stack ks)
      (hdone : DoneRead Fields done kd) (hkey : FieldKey k key) :
      Read (.fieldColon opening done key left stack) (ks ++ .leftBrace :: (kd ++ [k, .question]))
  | element (opening : Span) {done : List Expr.ArrayEntry} {left : Left} {stack : Stack}
      {ks kd : List TokenKind} (h : Before left stack ks) (hdone : DoneRead Elements done kd) :
      Read (.element opening done left stack) (ks ++ .leftBracket :: kd)
  | accepted {e : Expr} {ks : List TokenKind} (h : Whole ks e) : Read (.accepted e) (ks ++ [.eof])

/-! ### Parts of a level -/

variable {left : Left} {stack outer : Stack} {alternatives : Option Expr} {sequence e : Expr}
variable {t : Token} {state next : State} {ks ka kb kd ke kl kq : List TokenKind}

theorem read_empty : Left.empty.Read [] := by
  have h : Left.empty.Read ([] ++ []) := .mk .none .none
  exact h

theorem whole_joinAlternatives (ha : AlternativesRead alternatives ka) (hq : Sequence kq sequence) :
    Whole (ka ++ kq) (joinAlternatives alternatives sequence) := by
  cases ha with
  | none => exact .sequence hq
  | some h =>
    rw [List.append_assoc]
    exact .alt h hq _

theorem sequence_extend (hq : SequenceRead left.sequence kq) (he : Operand ke e) :
    Sequence (kq ++ ke) (left.extend e) := by
  obtain ⟨alternatives, sequence⟩ := left
  cases hq with
  | none => exact .operand he
  | some h => exact .seq h he _

/-- After an operand. -/
theorem Before.push (h : Before left stack ks) (he : Operand ke e) :
    (left.push e stack).Read (ks ++ ke) := by
  obtain ⟨hstack, ⟨ha, hq⟩⟩ := h
  rw [List.append_assoc, List.append_assoc]
  exact .operator hstack ha (sequence_extend hq he)

/-- Inside a construct that has just been opened. -/
theorem Before.inside {frame : Frame} {kf : List TokenKind} (h : Before left stack ks)
    (hframe : frame.Read kf) : (State.operand .empty ((frame, left) :: stack)).Read (ks ++ kf) := by
  obtain ⟨hstack, hleft⟩ := h
  have hinner := Before.mk (.cons hstack hleft hframe) read_empty
  rw [List.append_nil, ← List.append_assoc] at hinner
  exact .operand hinner

/-! ### Entries -/

/-- One more entry, after those that are done. -/
theorem DoneRead.append {α : Type} {entry : List TokenKind → α → Prop}
    {entries : List TokenKind → List α → Prop} {done : List α} {x : α}
    (hdone : DoneRead entries done kd) (hone : ∀ {ks x}, entry ks x → entries ks [x])
    (hmore : ∀ {ks ks' xs x}, entries ks xs → entry ks' x →
      entries (ks ++ .comma :: ks') (xs ++ [x]))
    (hx : entry ks x) : entries (kd ++ ks) (x :: done).reverse := by
  cases hdone with
  | none => exact hone hx
  | some h =>
    rw [List.append_assoc, List.reverse_cons]
    exact hmore h hx

/-- An object pattern that ends right after its opening brace or after a comma. -/
theorem operand_object_done {done : List Expr.ObjectEntry} (h : DoneRead Fields done kd)
    (s : Span) :
    Operand (.leftBrace :: (kd ++ [.rightBrace])) ⟨.object done.reverse, s⟩ := by
  cases h with
  | none => exact .emptyObject s
  | some h =>
    rw [List.append_assoc]
    exact .object h true s

/-- An array pattern that ends right after its opening bracket or after a comma. -/
theorem operand_array_done {done : List Expr.ArrayEntry} (h : DoneRead Elements done kd)
    (s : Span) :
    Operand (.leftBracket :: (kd ++ [.rightBracket])) ⟨.array done.reverse, s⟩ := by
  cases h with
  | none => exact .emptyArray s
  | some h =>
    rw [List.append_assoc]
    exact .array h true s

/-! ### Steps -/

theorem Atom.operand {k : TokenKind} {kind : Expr.Kind} (h : Atom k kind) (s : Span) :
    Operand [k] ⟨kind, s⟩ := by
  cases h with
  | spread => exact .spread s
  | descent => exact .descent s
  | self => exact .self s
  | str text => exact .str text s
  | int n => exact .int n s
  | placeholder i => exact .placeholder i s

theorem read_starts (h : Before left stack ks) (hnext : Starts left stack t next) :
    next.Read (ks ++ [t.kind]) := by
  cases hnext with
  | group span => exact h.inside (.group span)
  | object span => exact .entry span h .none
  | array span => exact .element span h .none
  | access span => exact .access span h
  | atom hatom span => exact h.push (hatom.operand span)

/-- The tokens of an object pattern up to an entry that is done. -/
theorem Frame.Read.endsField {frame : Frame} {opening : Span} {done : List Expr.ObjectEntry}
    (hframe : frame.Read ks) (he : Whole ke e) (h : frame.EndsField e opening done) :
    ∃ kd, ks ++ ke = .leftBrace :: kd ∧ Fields kd done.reverse := by
  cases h with
  | field opening done key optional =>
    cases hframe with
    | field _ hdone hkey _ =>
      refine ⟨_, ?_, hdone.append .one .more (.field hkey optional he)⟩
      simp only [List.cons_append, List.append_assoc, List.nil_append]
  | rest opening done =>
    cases hframe with
    | objectRest _ hdone =>
      refine ⟨_, ?_, hdone.append .one .more (.rest he)⟩
      simp only [List.cons_append, List.append_assoc, List.nil_append]

/-- The tokens of an array pattern up to an entry that is done. -/
theorem Frame.Read.endsElement {frame : Frame} {opening : Span} {done : List Expr.ArrayEntry}
    (hframe : frame.Read ks) (he : Whole ke e) (h : frame.EndsElement e opening done) :
    ∃ kd, ks ++ ke = .leftBracket :: kd ∧ Elements kd done.reverse := by
  cases h with
  | item opening done =>
    cases hframe with
    | item _ hdone => exact ⟨_, rfl, hdone.append .one .more (.item he)⟩
  | rest opening done =>
    cases hframe with
    | arrayRest _ hdone =>
      refine ⟨_, ?_, hdone.append .one .more (.rest he)⟩
      simp only [List.cons_append, List.append_assoc, List.nil_append]

/-- The tokens of the innermost construct come after those before it. -/
theorem Stack.Read.innermost {frame : Frame} (h : Stack.Read ((frame, left) :: outer) ks) :
    ∃ kb kf, ks = kb ++ kf ∧ Before left outer kb ∧ frame.Read kf := by
  cases h with
  | cons hstack hleft hframe =>
    exact ⟨_, _, (List.append_assoc _ _ _).symm, .mk hstack hleft, hframe⟩

theorem read_ends (hs : Stack.Read stack ks) (he : Whole ke e) (hnext : Ends e stack t next) :
    next.Read (ks ++ ke ++ [t.kind]) := by
  cases hnext with
  | whole span =>
    cases hs
    exact .accepted he
  | group opening span left outer =>
    obtain ⟨kb, kf, rfl, hbefore, ⟨⟩⟩ := hs.innermost
    simpa using hbefore.push (.group he _)
  -- The tokens inside the pattern, its opening mark included, are those up to the entry.
  | entry h span left outer =>
    obtain ⟨kb, kf, rfl, hbefore, hframe⟩ := hs.innermost
    obtain ⟨kd, hkd, hfields⟩ := hframe.endsField he h
    rw [List.append_assoc kb, hkd, List.append_assoc]
    exact .entry _ hbefore (.some hfields)
  | object h span left outer =>
    obtain ⟨kb, kf, rfl, hbefore, hframe⟩ := hs.innermost
    obtain ⟨kd, hkd, hfields⟩ := hframe.endsField he h
    rw [List.append_assoc kb, hkd, List.append_assoc]
    exact hbefore.push (.object hfields false _)
  | element h span left outer =>
    obtain ⟨kb, kf, rfl, hbefore, hframe⟩ := hs.innermost
    obtain ⟨kd, hkd, helements⟩ := hframe.endsElement he h
    rw [List.append_assoc kb, hkd, List.append_assoc]
    exact .element _ hbefore (.some helements)
  | array h span left outer =>
    obtain ⟨kb, kf, rfl, hbefore, hframe⟩ := hs.innermost
    obtain ⟨kd, hkd, helements⟩ := hframe.endsElement he h
    rw [List.append_assoc kb, hkd, List.append_assoc]
    exact hbefore.push (.array helements false _)

theorem read_continues (hs : Stack.Read stack ks) (ha : AlternativesRead alternatives ka)
    (hq : Sequence kq sequence) (hnext : Continues alternatives sequence stack t next) :
    next.Read (ks ++ (ka ++ kq) ++ [t.kind]) := by
  have hwhole := whole_joinAlternatives ha hq
  cases hnext with
  | cut span => simpa using State.Read.operator hs ha (hq.cut _)
  | lookahead span => simpa using State.Read.operator hs ha (hq.lookahead _)
  | alternative span =>
    have halternatives : Before ⟨some _, none⟩ stack _ := .mk hs (.mk (.some hwhole) .none)
    exact .operand (by simpa using halternatives)
  | operand hstart =>
    -- The next operand goes on with the sequence.
    have hbefore : Before ⟨alternatives, some sequence⟩ stack (ks ++ (ka ++ kq)) :=
      .mk hs (.mk ha (.some hq))
    exact read_starts hbefore hstart
  | close hend => exact read_ends hs hwhole hend

/-- The token comes after an operand that ends with the one before it. -/
theorem read_afterPush (h : Before left stack ks) (he : Operand ke e)
    (hnext : Continues left.alternatives (left.extend e) stack t next) :
    next.Read (ks ++ ke ++ [t.kind]) := by
  obtain ⟨hstack, ⟨ha, hq⟩⟩ := h
  have hafter := read_continues hstack ha (sequence_extend hq he) hnext
  simpa only [List.append_assoc] using hafter

/-- A step adds its token to those that have been read. -/
theorem read_step (h : state.Read ks) (hopen : ∀ e, state ≠ .accepted e)
    (hnext : Step state t next) : next.Read (ks ++ [t.kind]) := by
  cases h with
  | operand h =>
    cases hnext with
    | operand hstart => exact read_starts h hstart
  | operator hs ha hq =>
    cases hnext with
    | operator hcontinues => exact read_continues hs ha hq hcontinues
  | access dot h =>
    rw [List.append_assoc]
    cases hnext with
    | slice _ span => exact .sliceStart dot h
    | key hkey _ span => exact .accessed dot span h fun optional s => .key hkey optional s
    | index n _ span => exact .accessed dot span h fun optional s => .index n optional s
  | accessed dot key h hnode =>
    cases hnext with
    | optional _ _ span => simpa [maybe] using h.push (hnode true (dot.merge span))
    | plain hcontinues =>
      simpa [maybe] using read_afterPush h (hnode false (dot.merge key)) hcontinues
  | sliceStart dot h =>
    cases hnext with
    | start hbound => simpa using State.Read.sliceColon dot h hbound
    | noStart => simpa using State.Read.sliceStop dot h .absent
  | sliceColon dot h hstart =>
    cases hnext
    simpa using State.Read.sliceStop dot h hstart
  | sliceStop dot h hstart =>
    cases hnext with
    | stop hbound => simpa using State.Read.sliceEnd dot h hstart hbound
    | noStop => simpa using h.push (.slice hstart .absent _)
  | sliceEnd dot h hstart hstop =>
    cases hnext
    simpa using h.push (.slice hstart hstop _)
  | entry opening h hdone =>
    cases hnext with
    | fieldKey hkey => simpa using State.Read.fieldMark opening h hdone hkey
    | objectEnd => simpa using h.push (operand_object_done hdone _)
    | objectRest => simpa using h.inside (.objectRest opening hdone)
  | fieldMark opening h hdone hkey =>
    cases hnext with
    | fieldMark => simpa using State.Read.fieldColon opening h hdone hkey
    | field => simpa [maybe] using h.inside (.field opening hdone hkey false)
  | fieldColon opening h hdone hkey =>
    cases hnext
    simpa [maybe] using h.inside (.field opening hdone hkey true)
  | element opening h hdone =>
    cases hnext with
    | arrayEnd => simpa using h.push (operand_array_done hdone _)
    | arrayRest => simpa using h.inside (.arrayRest opening hdone)
    | item hstart =>
      cases h.inside (.item opening hdone) with
      | operand hinner => exact read_starts hinner hstart
  | accepted h => exact absurd rfl (hopen _)

/-! ### Runs -/

/-- A run that ends with a tree has read tokens that derive it, up to the end mark after them. -/
theorem whole_of_run (h : state.Read ks) {ts : List Token} (hrun : run state ts = .ok e) :
    ∃ ks', Whole ks' e ∧ ks' ++ [.eof] <+: ks ++ ts.map Token.kind := by
  induction ts generalizing state ks with
  | nil =>
    cases h with
    | accepted h =>
      cases hrun
      exact ⟨_, h, List.prefix_append _ _⟩
    | _ => cases hrun
  | cons t ts ih =>
    by_cases haccepted : ∃ e', state = .accepted e'
    · obtain ⟨e', rfl⟩ := haccepted
      cases hrun
      cases h with
      | accepted h => exact ⟨_, h, List.prefix_append _ _⟩
    · have hopen : ∀ e', state ≠ .accepted e' := fun e' he' => haccepted ⟨e', he'⟩
      have hrun : (step state t).bind (run · ts) = .ok e := by
        rw [← hrun, run]
        · cases step state t <;> rfl
        · exact hopen
      cases hstep : step state t with
      | error err =>
        rw [hstep] at hrun
        cases hrun
      | ok next =>
        rw [hstep] at hrun
        obtain ⟨ks', hwhole, hprefix⟩ := ih (read_step h hopen (step_iff.1 hstep)) hrun
        refine ⟨ks', hwhole, ?_⟩
        rw [List.append_assoc, List.singleton_append] at hprefix
        exact hprefix

end Parser

end DataExpr
