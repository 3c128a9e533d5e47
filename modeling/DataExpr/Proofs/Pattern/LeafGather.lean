import DataExpr.Proofs.Pattern.LeafEdit

/-!
# Gathering leaves and putting them back

The leaves of a focus that pass a test can be gathered to a list, and a list of as many values can be
spread over them, one for each position.  Spreading what has been gathered gives the focus back
(`Pattern.gather_leaves_noOp`) if no container is at two places of it.

That condition is needed.  A descent gives a container once; an edit below it makes the container
anew at the place where it was given, so that the next descent finds the old one at its other place,
and the positions that were counted before name other leaves (`Pattern.gather_leaves_shared`).
-/

namespace DataExpr

variable {cells : Cells} {s : Session} {focus : Value} {p : Predicate} {maxVisits : Nat}

namespace Matcher

/-- The one match of a gathering matcher that finds no error. -/
theorem toList_gather {m : Matcher} {found : List Match} {t : Session} (how : Spreading)
    (h : (m focus cells s).1.collect cells (m focus cells s).2 = (.ok found, t)) :
    ((gather m how focus cells s).1.toList cells s).1 =
      [.ok ⟨.list t.nextNode (found.map Match.value), fun new => do
        let share ← how.shares found.length new
        editJointly m (fun i _ => return share i) found.length focus⟩] := by
  have hcollect : (do (← m focus).collect : Eval (List Match)) cells s = (.ok found, t) := by
    rw [Eval.bind_apply, Eval.lift_apply]
    exact h
  show ((Findings.delayed _).toList cells s).1 = _
  rw [Findings.toList_delayed, Run.bind_apply]
  simp only [ExceptT.run, hcollect]
  rfl

/-- One step of spreading items over the nodes below a focus that pass a test. -/
theorem editJointly_share (share : Nat → Value) {n : Nat} {e : Value × Path}
    (h : (passed cells maxVisits p focus)[n]? = some e)
    (hheld : Path.get? cells e.2 focus = some e.1) (s : Session) :
    ∃ t, t.nextNode = s.nextNode + e.2.length ∧
      editJointly (Pattern.seq [.descend maxVisits, .satisfying p]).matcher
        (fun i _ => return share i) (n + 1) focus cells s =
      editJointly (Pattern.seq [.descend maxVisits, .satisfying p]).matcher
        (fun i _ => return share i) n (Path.put cells s.nextNode e.2 focus (share n)) cells t := by
  obtain ⟨hyields, hnode⟩ := finds_descend_satisfying cells maxVisits p focus s
  obtain ⟨t, hnth, ht⟩ := hyields.nth n
    ((Pattern.seq [.descend maxVisits, .satisfying p]).matcher focus cells s).2
  rw [hnode] at ht
  refine ⟨t.after e.2.length, ?_, ?_⟩
  · rw [← ht]
    rfl
  · rw [List.getElem?_map, h] at hnth
    rw [editJointly_succ_apply hnth, Eval.bind_apply]
    show (Path.set e.2 focus (share n) >>= editJointly _ _ n) cells t = _
    rw [Eval.bind_apply, Path.set_apply hheld, ht]

/-- A list of the right length is spread item by item. -/
theorem shares_list {count node : Nat} {items : List Value} (h : items.length = count)
    (cells : Cells) (s : Session) :
    Spreading.perPosition.shares count (.list node items) cells s =
      (.ok fun i => items.getD i .undefined, s) := by
  rw [Spreading.shares, Eval.bind_apply, Eval.lift_apply, Run.resolve_apply,
    cells.resolve_of_ne_cell (by simp)]
  simp only [if_pos h]
  rfl

end Matcher

namespace LeafEdit

/-- The list of the leaves that pass a test, spread over them, changes none. -/
theorem edits_share (cells : Cells) (test : Value → Bool) (focus : Value) :
    Edits cells test id focus fun i _ =>
      pure ((((Walk.levelOrder [(focus, [])]).filter (test ·.1)).map Prod.fst).getD i .undefined) := by
  intro before e after horder hpass s
  refine ⟨e.1, s, ?_, Nat.le_refl _, rfl⟩
  have hsplit : ((Walk.levelOrder [(focus, [])]).filter (test ·.1)).map Prod.fst =
      (before.filter (test ·.1)).map Prod.fst ++ e.1 :: (after.filter (test ·.1)).map Prod.fst := by
    rw [horder, List.filter_append, List.filter_cons, if_pos hpass, List.map_append, List.map_cons]
  have hlength : (places test before).length = ((before.filter (test ·.1)).map Prod.fst).length := by
    rw [places, List.length_map, List.length_map]
  have hget : ((before.filter (test ·.1)).map Prod.fst ++ e.1 ::
      (after.filter (test ·.1)).map Prod.fst).getD (places test before).length .undefined = e.1 := by
    rw [hlength, List.getD_eq_getElem?_getD, Lists.getElem?_length, Option.getD_some]
  rw [← hget, ← hsplit]
  rfl

end LeafEdit

namespace Pattern

/-- Gathering the leaves that pass a test gives one match.  Putting back what has been gathered gives
a value of the content of the focus, if the focus holds no cell and no container twice. -/
theorem gather_leaves_noOp (hp : ∀ v : Value, v.isContainer = true → p.holds cells v = false)
    (hf : focus.WellFormed) (hc : focus.holdsCell = false) (hnodes : focus.nodes.Nodup)
    (hmax : 1 ≤ maxVisits) (s : Session) :
    ∃ m : Match,
      (((gather (seq [descend maxVisits, satisfying p]) .perPosition).matchesIn focus cells s).1.toList
        cells s).1 = [.ok m] ∧
      ∀ t, (∀ n ∈ focus.nodes, n < t.nextNode) →
        ∃ w t', m.replace m.value cells t = (.ok w, t') ∧ w.content = focus.content := by
  have hfocus : focus.Plain := ⟨hf, hc⟩
  obtain ⟨t, hcollect, -⟩ := LeafEdit.collect_leaves hfocus hp hnodes hmax s
  refine ⟨_, Matcher.toList_gather .perPosition hcollect, fun t hnew => ?_⟩
  have hstage := LeafEdit.stage_focus cells (p.holds cells) id hfocus hnodes hnew
  have horder : Walk.levelOrder [(focus, [])] = Walk.levelOrder [(focus, [])] ++ [] :=
    (List.append_nil _).symm
  obtain ⟨w, t', hw, hcontent⟩ := hstage.content_editJointly hfocus hp horder hmax
    (LeafEdit.edits_share cells (p.holds cells) focus) (Nat.le_refl _)
  rw [Value.editLeaves_id] at hcontent
  refine ⟨w, t', ?_, hcontent⟩
  show (do
    let share ← Matcher.Spreading.perPosition.shares _ (.list _ _)
    Matcher.editJointly _ (fun i _ => return share i) _ focus : Eval Value) cells t = _
  rw [Eval.bind_apply, Matcher.shares_list (List.length_map _), List.map_map, List.length_map]
  rw [LeafEdit.places, List.length_map] at hw
  exact hw

/-- The numbers of a list that holds a map, put back. -/
theorem gather_leaves_noOp_numbers :
    let focus : Value := .list 0 [.map 1 [("a", .int 1), ("b", .str "x")], .int 2, .list 2 []]
    let p := Predicate.ofType .number
    (∀ v : Value, v.isContainer = true → p.holds Cells.none v = false) ∧ focus.WellFormed ∧
      focus.holdsCell = false ∧ focus.nodes.Nodup ∧ ∃ m : Match,
        (((gather (seq [descend 1, satisfying p]) .perPosition).matchesIn focus Cells.none
          ⟨3, #[]⟩).1.toList Cells.none ⟨3, #[]⟩).1 = [.ok m] ∧
        ∀ t, (∀ n ∈ focus.nodes, n < t.nextNode) →
          ∃ w t', m.replace m.value Cells.none t = (.ok w, t') ∧ w.content = focus.content := by
  intro focus p
  have hp : ∀ v : Value, v.isContainer = true → p.holds Cells.none v = false :=
    fun _ => Predicate.ofType_number_of_isContainer
  have hfocus : focus.Plain := by simp [focus]
  have hnodes : focus.nodes.Nodup := by decide
  exact ⟨hp, hfocus.wellFormed, hfocus.cellFree, hnodes, gather_leaves_noOp hp hfocus.wellFormed
    hfocus.cellFree hnodes (Nat.le_refl 1) ⟨3, #[]⟩⟩

/-- The numbers of a list that holds one list at two places, put back: the number that comes second
takes the place of the first at the other place of that list. -/
theorem gather_leaves_shared :
    let twice : Value := .list 1 [.int 0, .list 2 [.int 2]]
    let focus : Value := .list 0 [twice, twice, .list 3 [.int 1]]
    let p := Predicate.ofType .number
    (∀ v : Value, v.isContainer = true → p.holds Cells.none v = false) ∧ focus.WellFormed ∧
      focus.holdsCell = false ∧ ∃ m w t,
        (((gather (seq [descend 1, satisfying p]) .perPosition).matchesIn focus Cells.none
          ⟨4, #[]⟩).1.toList Cells.none ⟨4, #[]⟩).1 = [.ok m] ∧
        m.replace m.value Cells.none ⟨4, #[]⟩ = (.ok w, t) ∧ w.content ≠ focus.content := by
  intro twice focus p
  have hp : ∀ v : Value, v.isContainer = true → p.holds Cells.none v = false :=
    fun _ => Predicate.ofType_number_of_isContainer
  have hfocus : focus.Plain := by simp [focus, twice]
  let focus₁ : Value := .list 6 [.list 5 [.int 0, .list 4 [.int 2]], twice, .list 3 [.int 1]]
  let focus₂ : Value :=
    .list 8 [.list 5 [.int 0, .list 4 [.int 2]], .list 7 [.int 1, .list 2 [.int 2]],
      .list 3 [.int 1]]
  -- What a descent finds at first, and after the edits of the third and of the second number.
  obtain ⟨h₀, h₁, h₂⟩ : Matcher.passed Cells.none 1 p focus =
        [(.int 0, [.index 0, .index 0]), (.int 1, [.index 2, .index 0]),
          (.int 2, [.index 0, .index 1, .index 0])] ∧
      Matcher.passed Cells.none 1 p focus₁ =
        [(.int 0, [.index 0, .index 0]), (.int 0, [.index 1, .index 0]),
          (.int 1, [.index 2, .index 0]), (.int 2, [.index 0, .index 1, .index 0]),
          (.int 2, [.index 1, .index 1, .index 0])] ∧
      Matcher.passed Cells.none 1 p focus₂ =
        [(.int 0, [.index 0, .index 0]), (.int 1, [.index 1, .index 0]),
          (.int 1, [.index 2, .index 0]), (.int 2, [.index 0, .index 1, .index 0]),
          (.int 2, [.index 1, .index 1, .index 0])] := by
    refine ⟨?_, ?_, ?_⟩
    all_goals
      simp [Matcher.passed, Walk.trace_eq, Walk.ofRoot, Walk.pop?, Walk.admit?, Walk.visitsOf,
        Walk.visit, Walk.enqueue, Walk.childrenOf, Value.children, Value.identity?, focus, focus₁,
        focus₂, twice, Std.HashMap.getD_insert]
      rfl
  obtain ⟨hyields, hnode⟩ := Matcher.finds_descend_satisfying Cells.none 1 p focus ⟨4, #[]⟩
  obtain ⟨t, hcollect, ht⟩ := hyields.collect
    ((Pattern.seq [.descend 1, .satisfying p]).matcher focus Cells.none ⟨4, #[]⟩).2
  rw [h₀] at hcollect
  let share (i : Nat) : Value := [.int 0, .int 1, .int 2].getD i .undefined
  obtain ⟨t₁, ht₁, hstep₁⟩ := Matcher.editJointly_share (p := p) share
    (congrArg (·[2]?) h₀) rfl ⟨4, #[]⟩
  obtain ⟨t₂, ht₂, hstep₂⟩ := Matcher.editJointly_share (p := p) share
    (congrArg (·[1]?) h₁) rfl t₁
  obtain ⟨t₃, ht₃, hstep₃⟩ := Matcher.editJointly_share (p := p) share
    (congrArg (·[0]?) h₂) rfl t₂
  have hput₂ : Path.put Cells.none t₁.nextNode [.index 1, .index 0] focus₁ (share 1) = focus₂ := by
    rw [ht₁]
    rfl
  have hput₃ : Path.put Cells.none t₂.nextNode [.index 0, .index 0] focus₂ (share 0) =
      .list 10 [.list 9 [.int 0, .list 4 [.int 2]], .list 7 [.int 1, .list 2 [.int 2]],
        .list 3 [.int 1]] := by
    rw [ht₂, ht₁]
    rfl
  refine ⟨hp, hfocus.wellFormed, hfocus.cellFree, _, .list 10 [.list 9 [.int 0, .list 4 [.int 2]],
    .list 7 [.int 1, .list 2 [.int 2]], .list 3 [.int 1]], t₃,
    Matcher.toList_gather .perPosition hcollect, ?_, ?_⟩
  · rw [← hput₃]
    show (do
      let share ← Matcher.Spreading.perPosition.shares 3 (.list _ [.int 0, .int 1, .int 2])
      Matcher.editJointly _ (fun i _ => return share i) 3 focus : Eval Value) Cells.none _ = _
    rw [Eval.bind_apply,
      Matcher.shares_list (show [Value.int 0, .int 1, .int 2].length = 3 from rfl)]
    exact hstep₁.trans (hstep₂.trans (hput₂ ▸ hstep₃))
  · simp [focus, twice, Value.content, Value.contentOfItems]

end Pattern

end DataExpr
