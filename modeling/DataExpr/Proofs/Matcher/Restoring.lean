import DataExpr.Proofs.Findings.Every
import DataExpr.Proofs.Matcher.Positions
import DataExpr.Proofs.Matcher.Walk
import DataExpr.Proofs.Regex.Spans

/-!
# Matchers whose matches give the focus back

A match restores its focus (`Match.Restores`) if putting back the value that was found, or another one
of the same content, gives a value of the content of the focus.  A matcher is restoring
(`Matcher.Restoring`) if all its matches in plain values are.  Allowing another value of the same
content is what makes matches compose (`Restores.inside`): the inner match gives back a value of the
content of the outer one, not that value itself.

There is one lemma for each matcher that looks at one place, and for each way of making a matcher from
others but gathering and map shapes.
-/

namespace DataExpr

variable {cells : Cells} {s : Session} {focus : Value}

namespace Match

/-- Putting back what was found gives the focus back, up to the numbers of containers. -/
structure Restores (focus : Value) (m : Match) : Prop where
  plain : m.value.Plain
  replace : ∀ v, v.content = m.value.content → ∀ cells s,
    (m.replace v).Ensures cells s fun w _ => w.content = focus.content

theorem Restores.whole (h : focus.Plain) : (whole focus).Restores focus :=
  ⟨h, fun _ hv _ _ => .pure hv⟩

theorem Restores.inside {outer inner : Match} (ho : outer.Restores focus)
    (hi : inner.Restores outer.value) : (outer.inside inner).Restores focus := by
  refine ⟨hi.plain, fun v hv cells s => ?_⟩
  exact (hi.replace v hv cells s).bind fun w s' hw => ho.replace w hw cells s'

end Match

namespace Matcher

/-- All matches in plain values give the focus back. -/
def Restoring (m : Matcher) : Prop :=
  ∀ focus : Value, focus.Plain → ∀ cells s, (m focus cells s).1.Every (·.Restores focus)

theorem every_whole (h : focus.Plain) : (Matches.whole focus).Every (·.Restores focus) :=
  .single (.whole h)

/-! ### Tests -/

theorem restoring_satisfying (p : Predicate) : (satisfying p).Restoring := by
  intro focus hf cells s
  show (if (p.test focus cells s).1 = true then Matches.whole focus else .empty).Every _
  split
  · exact every_whole hf
  · exact .empty

theorem restoring_equalTo (v : Value) : (equalTo v).Restoring := by
  intro focus hf cells s
  show (if (focus.equal v || (cells.resolve focus).equal v) = true then Matches.whole focus
    else .empty).Every _
  split
  · exact every_whole hf
  · exact .empty

/-! ### Keys and positions -/

/-- Undefined is put where nothing is by leaving the focus as it is. -/
theorem restores_absent (focus : Value) (fill : Value → Eval Value) :
    (absent focus fill).Restores focus := by
  refine ⟨Value.plain_undefined, fun v hv cells s => ?_⟩
  -- Nothing else has the content of undefined.
  have hv : v = .undefined := by
    cases v with
    | undefined => rfl
    | _ => simp [absent, Value.content] at hv
  subst hv
  exact .pure rfl

/-- Making a container anew with a child of the same content at its old place gives it back. -/
theorem restores_newWithChild (hf : focus.Plain) (step : Step) {found : Value}
    (h : focus.child? step = some found) :
    (⟨found, Path.newWithChild focus step⟩ : Match).Restores focus :=
  ⟨hf.child? h, fun _ hv _ s =>
    ⟨_, s.after 1, rfl, Value.content_withChild h hv s.nextNode⟩⟩

theorem restoring_key (name : String) (optional : Bool) : (key name optional).Restoring := by
  intro focus hf cells s
  simp only [key, Run.bind_apply, Run.resolve_apply, hf.resolve]
  split
  · rename_i node entries
    cases hfound : Entries.get? entries name with
    | some found => exact .single (restores_newWithChild hf (.key name) hfound)
    | none =>
      cases optional with
      | true => exact .single (restores_absent _ _)
      | false => exact .empty
  · cases optional with
    | false => exact .empty
    | true =>
      rw [Bool.not_true, if_neg Bool.false_ne_true]
      split
      · exact .single (restores_absent _ _)
      · exact .single (restores_absent _ _)

theorem restoring_index (i : Int64) (optional : Bool) : (index i optional).Restoring := by
  intro focus hf cells s
  simp only [index, Run.bind_apply, Run.resolve_apply, hf.resolve]
  split
  · rename_i node items
    cases hfound : (position? i items.length).bind fun p => items[p]?.map (p, ·) with
    | some found =>
      obtain ⟨p, -, hp⟩ := Option.bind_eq_some_iff.1 hfound
      obtain ⟨v, hv, rfl⟩ := Option.map_eq_some_iff.1 hp
      exact .single (restores_newWithChild hf (.index p) hv)
    | none =>
      cases optional with
      | true => exact .single (restores_absent _ _)
      | false => exact .empty
  · exact restoring_key _ _ _ hf _ _
  · split
    · exact .single (restores_absent _ _)
    · exact .failed

/-! ### Slices -/

theorem content_eq_str {v : Value} {text : String} (h : v.content = (Value.str text).content) :
    v = .str text := by
  cases v with
  | str _ => exact h
  | _ => simp [Value.content] at h

theorem restoring_slice (start stop : Option Int64) : (slice start stop).Restoring := by
  intro focus hf cells s
  simp only [slice, Run.bind_apply, Run.resolve_apply, hf.resolve]
  split
  · rename_i node items
    -- How the range is found does not matter, only that it does not run backwards.
    have hle := first_le_last start stop items.length
    generalize sliceRange start stop items.length = range at hle
    rw [Value.plain_list] at hf
    have hplain : ∀ v ∈ (items.take range.2).drop range.1, v.Plain := fun v hv =>
      hf v (List.mem_of_mem_take (List.mem_of_mem_drop hv))
    refine .single ⟨Value.plain_list.2 hplain, fun v hv cells s => ?_⟩
    obtain ⟨n, middle, rfl, hmiddle⟩ := Value.eq_list_of_content_eq hv
    refine ⟨.list s.nextNode _, s.after 1, rfl, ?_⟩
    show (Value.list _ _).content = _
    rw [Value.content_list, Value.content_list, List.map_append, List.map_append, hmiddle,
      ← List.map_append, ← List.map_append, Lists.take_append_slice_append_drop items hle]
  · rename_i text
    have hle := first_le_last start stop text.toList.length
    generalize sliceRange start stop text.toList.length = range at hle
    refine .single ⟨Value.plain_str _, fun v hv cells s => ?_⟩
    obtain rfl := content_eq_str hv
    refine ⟨.str _, s, rfl, ?_⟩
    rw [String.toList_ofList, Lists.take_append_slice_append_drop _ hle, String.ofList_toList]
  · exact .failed

/-! ### Regular expressions -/

/-- The text between the positions of a match can be put back there. -/
theorem restores_piece {text : String} {span : Nat × Nat} (h : span.1 ≤ span.2) :
    (piece text.toList span ((text.toList.drop span.1).take (span.2 - span.1))).Restores
      (.str text) := by
  refine ⟨Value.plain_str _, fun v hv cells s => ?_⟩
  obtain rfl := content_eq_str hv
  refine ⟨.str _, s, rfl, ?_⟩
  rw [String.toList_ofList, ← List.drop_take, Lists.take_append_slice_append_drop _ h,
    String.ofList_toList]

theorem restores_of_mem_pieces {text : String} {spans : List (Nat × Nat)} {index lo : Nat}
    (hspans : Regex.InOrder lo spans) (hlo : index ≤ lo) :
    ∀ m ∈ pieces text.toList index (text.toList.drop index) spans, m.Restores (.str text) := by
  induction spans generalizing index lo with
  | nil => exact nofun
  | cons span spans ih =>
    obtain ⟨hfirst, hlast, hspans⟩ := hspans
    -- The text is read on from `index`, the end of the match before.
    have hdrop : (text.toList.drop index).drop (span.1 - index) = text.toList.drop span.1 := by
      rw [List.drop_drop, Nat.add_sub_of_le (Nat.le_trans hlo hfirst)]
    rw [pieces, hdrop, List.forall_mem_cons]
    exact ⟨restores_piece hlast, ih hspans hlast⟩

theorem restoring_regex (r : RegexPattern) : (regex r).Restoring := by
  intro focus hf cells s
  simp only [regex, Run.bind_apply, Run.resolve_apply, hf.resolve]
  split
  · rename_i text
    refine .ofList (restores_of_mem_pieces ?_ (Nat.le_refl 0))
    split
    · exact r.regex.spans_inOrder _
    · exact r.regex.find_inOrder _
  · exact .empty

/-! ### Many places -/

theorem restoring_spread : spread.Restoring := by
  intro focus hf cells s
  simp only [spread, Run.bind_apply, Run.resolve_apply, hf.resolve]
  split
  · rename_i node items
    refine .ofList (List.forall_mem_map.2 fun c hc => ?_)
    obtain ⟨v, i⟩ := c
    exact restores_newWithChild hf (.index i) (List.mem_zipIdx_iff_getElem?.1 hc)
  · rename_i node entries
    refine .ofList (List.forall_mem_map.2 fun c hc => ?_)
    obtain ⟨k, v⟩ := c
    exact restores_newWithChild hf (.key k)
      (Entries.get?_of_mem (hf.wellFormed.keys rfl) hc)
  · exact .empty

/-- What is at the end of a path can be put back there. -/
theorem restores_set (hf : focus.Plain) {path : Path} {found : Value}
    (h : Path.get? Cells.none path focus = some found) :
    (⟨found, Path.set path focus⟩ : Match).Restores focus := by
  refine ⟨Path.plain_of_get? hf h, fun v hv cells s => ?_⟩
  rw [Path.get?_of_plain hf Cells.none cells] at h
  exact ⟨_, _, Path.set_apply h v s, Path.content_put hf h _ hv⟩

/-- The walk stays rooted whatever the cells hold: a plain value has none on the way. -/
theorem every_pull (w : Walk) (hroot : w.root.Plain) (hw : w.Rooted Cells.none) (cells : Cells)
    (s : Session) : (w.pull cells s).Every (·.Restores w.root) := by
  rw [Walk.pull]
  split
  · trivial
  · rename_i entry popped hpop
    obtain ⟨hentry, hpopped⟩ := hw.pop hpop
    have hpoppedRoot := Walk.root_of_pop? hpop
    split
    · rw [← hpoppedRoot]
      exact every_pull popped (hpoppedRoot ▸ hroot) hpopped cells s
    · rename_i admitted hgiven
      have hadmittedRoot := (Walk.frame_of_admit? hgiven).1.trans hpoppedRoot
      -- The node is at its path in a plain root, so it is no cell and its children are its own.
      have hplain := Path.plain_of_get? hroot hentry
      have hvisit : (admitted.visit cells entry).Rooted Cells.none := by
        refine (hpopped.given hgiven).visit (by rw [hadmittedRoot, hentry]) fun c hc => ?_
        rw [Walk.childrenOf_of_ne_cell _ _ hplain.ne_cell] at hc
        rw [hplain.resolve]
        exact hplain.child?_of_mem hc
      have hvisitRoot : (admitted.visit cells entry).root = w.root := hadmittedRoot
      refine ⟨fun m hm => ?_, Findings.every_iff.2 fun cells' s' => ?_⟩
      · rw [← Except.ok.inj hm]
        exact restores_set hroot hentry
      · rw [← hvisitRoot]
        exact every_pull (admitted.visit cells entry) (hvisitRoot ▸ hroot) hvisit cells' s'
termination_by (w.cellVisitsLeft, w.queueWeight)
decreasing_by
  · exact Walk.pop_decreases ‹_›
  · exact Walk.step_decreases ‹_› ‹_› cells

theorem restoring_descend (maxVisits : Nat) : (descend maxVisits).Restoring := by
  intro focus hf cells s
  refine Findings.every_iff.2 fun cells' s' => ?_
  exact every_pull (.ofRoot focus maxVisits cells.contents.size) hf
    (Walk.rooted_ofRoot _ _ _ _) cells' s'

end Matcher

end DataExpr
