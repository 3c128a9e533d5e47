import DataExpr.Proofs.Matcher.Restoring.Combine

/-!
# Edits that change nothing

`Pattern.Elementary` are the patterns that are made without views of the host, gathering and map shapes.
Their matchers are restoring (`Elementary.restoring`), by induction on how the pattern is made.  So a
match of such a pattern in a value without cells rebuilds that value when what was found is put back,
and so does the edit of all matches that leaves every value as it is.
-/

namespace DataExpr

/-- An edit that gives back what it is given keeps the content, however many matches it is for. -/
theorem Matcher.Restoring.content_editJointly {m : Matcher} (hm : m.Restoring) {focus : Value}
    (hf : focus.Plain) {n : Nat} {cells : Cells} {s s' : Session} {v : Value}
    (h : m.editJointly (fun _ old => return old) n focus cells s = (.ok v, s')) :
    v.content = focus.content := by
  induction n generalizing focus s with
  | zero =>
    cases h
    rfl
  | succ n ih =>
    rw [editJointly] at h
    obtain ⟨found, s₁, hfound, h⟩ := Eval.bind_eq_ok h
    cases hfound
    obtain ⟨match?, s₂, hnth, h⟩ := Eval.bind_eq_ok h
    cases match? with
    | none => exact ih hf h
    | some found =>
      -- The edit of one match keeps the content, so the focus of the next edit is plain as well.
      have hrestores := (hm focus hf cells s).nth hnth
      obtain ⟨old, s₃, hold, h⟩ := Eval.bind_eq_ok h
      cases hold
      obtain ⟨edited, s₄, hedited, h⟩ := Eval.bind_eq_ok h
      obtain ⟨w, t, hreplace, hw⟩ := hrestores.replace found.value rfl cells s₂
      cases hreplace.symm.trans hedited
      rw [ih (hf.of_content_eq hw) h, hw]

namespace Pattern

/-- Patterns that are made without views of the host, gathering and map shapes. -/
inductive Elementary : Pattern → Prop where
  | self : Elementary self
  | fail : Elementary fail
  | satisfying (p : Predicate) : Elementary (satisfying p)
  | value (v : Value) : Elementary (value v)
  | key (name : String) (optional : Bool) : Elementary (key name optional)
  | index (i : Int64) (optional : Bool) : Elementary (index i optional)
  | slice (start stop : Option Int64) : Elementary (slice start stop)
  | regex (r : RegexPattern) : Elementary (regex r)
  | spread : Elementary spread
  | descend (maxVisits : Nat) : Elementary (descend maxVisits)
  | seq {parts : List Pattern} (h : ∀ p ∈ parts, Elementary p) : Elementary (seq parts)
  | alt {branches : List Pattern} (h : ∀ p ∈ branches, Elementary p) : Elementary (alt branches)
  | lookahead {p : Pattern} (h : Elementary p) : Elementary (lookahead p)
  | limit {p : Pattern} (h : Elementary p) (n : Nat) : Elementary (limit p n)
  | array {items : List Pattern} {rest : Option Pattern} (hitems : ∀ p ∈ items, Elementary p)
    (hrest : ∀ p ∈ rest, Elementary p) : Elementary (array items rest)
  | arrayOf {p : Pattern} (h : Elementary p) : Elementary (arrayOf p)

theorem Elementary.restoring {p : Pattern} (hp : p.Elementary) : p.matcher.Restoring := by
  induction hp with
  | self => exact fun _ hf _ _ => Matcher.every_whole hf
  | fail => exact fun _ _ _ _ => .empty
  | satisfying p => exact Matcher.restoring_satisfying p
  | value v => exact Matcher.restoring_equalTo v
  | key name optional => exact Matcher.restoring_key name optional
  | index i optional => exact Matcher.restoring_index i optional
  | slice start stop => exact Matcher.restoring_slice start stop
  | regex r => exact Matcher.restoring_regex r
  | spread => exact Matcher.restoring_spread
  | descend maxVisits => exact Matcher.restoring_descend maxVisits
  | seq _ ih =>
    rw [matcher, matchers_eq_map]
    exact .sequence (List.forall_mem_map.2 ih)
  | alt _ ih =>
    rw [matcher, matchers_eq_map]
    exact .choice (List.forall_mem_map.2 ih)
  | lookahead _ _ => exact Matcher.restoring_lookahead _
  | limit _ n ih => exact ih.limit n
  | array _ _ ihitems ihrest =>
    rw [matcher, matchers_eq_map, restMatcher_eq_map]
    refine .array (List.forall_mem_map.2 ihitems) fun m hm => ?_
    obtain ⟨p, hp, rfl⟩ := Option.map_eq_some_iff.1 hm
    exact ihrest p hp
  | arrayOf _ _ => exact Matcher.restoring_arrayOf _

/-- Putting back what an elementary pattern has found in a value without cells gives that value back,
whatever the cells hold meanwhile, and so does editing all its matches by leaving them as they are. -/
theorem Elementary.content_of_noOp {p : Pattern} (hp : p.Elementary) {focus : Value}
    (hf : focus.WellFormed) (hc : focus.holdsCell = false) :
    (∀ cells s, (p.matchesIn focus cells s).1.Every fun m => ∀ cells s, ∃ v s',
      m.replace m.value cells s = (.ok v, s') ∧ v.content = focus.content) ∧
    ∀ cells s v s', p.editAll focus (fun old => return old) cells s = (.ok v, s') →
      v.content = focus.content := by
  constructor
  · intro cells s
    exact (hp.restoring focus ⟨hf, hc⟩ cells s).mono fun m hm => hm.replace m.value rfl
  · intro cells s v s' h
    obtain ⟨stream, s₁, -, h⟩ := Eval.bind_eq_ok h
    obtain ⟨found, s₂, -, h⟩ := Eval.bind_eq_ok h
    exact hp.restoring.content_editJointly ⟨hf, hc⟩ h

/-- Twice the same list in a map: its matches are the last items and the slices before them. -/
theorem content_of_noOp_shared_list :
    let shared : Value := .list 1 [.int 1, .list 2 [.str "x"]]
    let focus : Value := .map 0 [("a", shared), ("b", shared)]
    let p : Pattern := .seq [.spread, .limit (.alt [.index (-1) false, .slice none (some 1)]) 2]
    p.Elementary ∧ focus.WellFormed ∧ focus.holdsCell = false ∧
      (∀ cells s, (p.matchesIn focus cells s).1.Every fun m => ∀ cells s, ∃ v s',
        m.replace m.value cells s = (.ok v, s') ∧ v.content = focus.content) ∧
      ∃ v s', p.editAll focus (fun old => return old) Cells.none ⟨3, #[]⟩ = (.ok v, s') ∧
        v.content = focus.content := by
  intro shared focus p
  have hp : p.Elementary := by
    refine .seq (List.forall_mem_cons.2 ⟨.spread, List.forall_mem_singleton.2 (.limit (.alt ?_) 2)⟩)
    exact List.forall_mem_cons.2 ⟨.index _ _, List.forall_mem_singleton.2 (.slice _ _)⟩
  have hf : focus.Plain := by simp [focus, shared]
  obtain ⟨hmatches, hedit⟩ := hp.content_of_noOp hf.wellFormed hf.cellFree
  refine ⟨hp, hf.wellFormed, hf.cellFree, hmatches, ?_⟩
  have hok : (p.editAll focus (fun old => return old) Cells.none ⟨3, #[]⟩).1.toBool = true := by
    decide +kernel
  rcases h : p.editAll focus (fun old => return old) Cells.none ⟨3, #[]⟩ with ⟨_ | v, s'⟩
  · rw [h] at hok
    cases hok
  · exact ⟨v, s', rfl, hedit _ _ _ _ h⟩

end Pattern

end DataExpr
