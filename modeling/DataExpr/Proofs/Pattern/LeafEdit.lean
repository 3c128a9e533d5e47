import DataExpr.Proofs.Matcher.Lawful
import DataExpr.Proofs.Pattern.LeafEdit.Stage
import Mathlib.Data.Finset.Range
import Mathlib.Data.List.Induction

/-!
# Editing leaves below a focus

A descent with a test after it finds the nodes of the descent that pass the test
(`Matcher.finds_descend_satisfying`).  If no container passes, then the edit of all these matches
changes every leaf that passes, once (`Pattern.editAll_leaves`): the edits go through the stages of
`LeafEdit.Stage`.
-/

namespace DataExpr

variable {cells : Cells} {p : Predicate} {maxVisits : Nat}

/-- No container is a number. -/
theorem Predicate.ofType_number_of_isContainer {v : Value} (h : v.isContainer = true) :
    (Predicate.ofType .number).holds cells v = false := by
  cases v with
  | list node items => rfl
  | map node entries => rfl
  | _ => cases h

/-- What a walk gives while the cells stay as they are. -/
theorem Walk.yields_pull (w : Walk) :
    (⟨w.pull⟩ : Findings Match).Yields cells
      ((w.trace cells).map fun e => .ok ⟨e.1, Path.set e.2 w.root⟩) := by
  induction w using trace.induct cells with
  | case1 w hpop =>
    rw [trace_of_ended hpop]
    refine fun s => ⟨s, ?_, rfl⟩
    show w.pull cells s = _
    rw [pull_eq, hpop]
  | case2 w entry popped hpop hgiven ih =>
    rw [trace_of_passed hpop hgiven, ← root_of_pop? hpop]
    refine .of_pull fun s => ⟨⟨popped.pull⟩, s, ?_, rfl, ih⟩
    show w.pull cells s = popped.pull cells s
    rw [pull_eq, hpop]
    simp only [hgiven]
  | case3 w entry popped hpop admitted hgiven ih =>
    have hroot : (admitted.visit cells entry).root = w.root :=
      (frame_of_admit? hgiven).1.trans (root_of_pop? hpop)
    rw [trace_of_given hpop hgiven]
    refine fun s => ⟨⟨(admitted.visit cells entry).pull⟩, s, ?_, rfl, hroot ▸ ih⟩
    show w.pull cells s = _
    rw [pull_eq, hpop]
    simp only [hgiven]

namespace Matcher

/-- The match at the place of a node that a descent gives. -/
def ofNode (focus : Value) (node : Value × Path) : Match := ⟨node.1, Path.set node.2 focus⟩

theorem finds_descend (maxVisits : Nat) :
    Finds cells (descend maxVisits) fun focus =>
      ((Walk.ofRoot focus maxVisits cells.contents.size).trace cells).map (.ok ∘ ofNode focus) :=
  fun _ _ => ⟨Walk.yields_pull _, rfl⟩

theorem finds_satisfying (p : Predicate) :
    Finds cells (satisfying p) fun focus =>
      if p.holds cells (cells.resolve focus) then [.ok (.whole focus)] else [] := by
  intro focus s
  have htest := Predicate.testLast_apply (some p) cells focus s
  have hnode : (p.test focus cells s).2.nextNode = s.nextNode := by
    rw [show p.test focus cells s = _ from htest, Session.nextNode_noting]
  have hfound : (satisfying p focus cells s).1 =
      if p.holds cells (cells.resolve focus) then Matches.whole focus else .empty := by
    show (if (p.test focus cells s).1 then _ else _) = _
    rw [show p.test focus cells s = _ from htest]
    rfl
  refine ⟨?_, hnode⟩
  rw [hfound]
  show Findings.Yields cells (if _ then _ else _) (if _ then _ else _)
  split
  · exact .single _
  · exact .empty

/-- Items inside the focus itself are just these items. -/
theorem nested_whole (items : Value → Items) (focus : Value) :
    nested (fun focus => [.ok (.whole focus)]) items focus = items focus := by
  have hmap : Except.map (Match.whole focus).inside = (id : Except EvalError Match → _) := by
    funext i
    cases i with
    | error e => rfl
    | ok m => exact congrArg Except.ok (Match.whole_inside focus m)
  rw [nested, List.flatMap_singleton, inner, Findings.expand, hmap, List.map_id]
  rfl

/-- A test inside matches keeps those whose values pass. -/
theorem flatMap_inner_satisfying (holds : Value → Bool) (ms : List Match) :
    (ms.map .ok).flatMap (inner fun v => if holds v then [.ok (.whole v)] else []) =
      (ms.filter (holds ·.value)).map .ok := by
  induction ms with
  | nil => rfl
  | cons m ms ih =>
    rw [List.map_cons, List.flatMap_cons, ih, List.filter_cons, inner, Findings.expand]
    split
    · rw [List.map_singleton, List.map_cons]
      exact congrArg (fun m => [Except.ok m] ++ _) (Match.inside_whole m)
    · rfl

/-- The nodes that a descent gives and that pass the test. -/
def passed (cells : Cells) (maxVisits : Nat) (p : Predicate) (focus : Value) :
    List (Value × Path) :=
  ((Walk.ofRoot focus maxVisits cells.contents.size).trace cells).filter fun e =>
    p.holds cells (cells.resolve e.1)

/-- The matches of a descent with a test are the nodes of the descent that pass the test. -/
theorem finds_descend_satisfying (cells : Cells) (maxVisits : Nat) (p : Predicate) :
    Finds cells (Pattern.seq [.descend maxVisits, .satisfying p]).matcher fun focus =>
      ((passed cells maxVisits p focus).map (ofNode focus)).map .ok := by
  have hdescend : Finds cells _ _ := finds_whole.within (finds_descend maxVisits)
  have hfinds := hdescend.within (finds_satisfying p)
  intro focus s
  refine ⟨?_, rfl⟩
  have hyields := (hfinds focus s).1
  rw [nested, nested_whole, ← List.map_map, flatMap_inner_satisfying] at hyields
  rw [List.filter_map] at hyields
  exact hyields

end Matcher

namespace LeafEdit

open Matcher (ofNode)

variable {f : Value → Value} {focus w : Value} {before after : List (Value × List Step)}
variable {e : Value × List Step} {bound : Nat}

/-- Each leaf of the focus that passes the test is changed as `f` says by the edit of its position
among them, and no number of a container is given twice. -/
def Edits (cells : Cells) (test : Value → Bool) (f : Value → Value) (focus : Value)
    (edit : Nat → Value → Eval Value) : Prop :=
  ∀ before e after, Walk.levelOrder [(focus, [])] = before ++ e :: after → test e.1 = true →
    ∀ s, ∃ x s', edit (places test before).length e.1 cells s = (.ok x, s') ∧
      s.nextNode ≤ s'.nextNode ∧ x.content = (f e.1).content

section

variable (hfocus : focus.Plain)
variable (hp : ∀ v : Value, v.isContainer = true → p.holds cells v = false)

include hfocus hp

/-- The nodes that a descent gives and that pass the test begin with those that have not been gone
through and passed at first. -/
theorem Stage.passed_eq (h : Stage cells (p.holds cells) f focus after w bound)
    (horder : Walk.levelOrder [(focus, [])] = before ++ after) (hmax : 0 < maxVisits) :
    ∃ rest, Matcher.passed cells maxVisits p w =
      (before.filter fun e => p.holds cells e.1).map (Walk.given cells w) ++ rest ∧
        (after = [] → rest = []) := by
  obtain ⟨rest, htrace, hrest⟩ := h.trace_eq hfocus hp horder hmax cells.contents.size
  refine ⟨rest.filter fun e => p.holds cells (cells.resolve e.1), ?_, fun hafter => ?_⟩
  · rw [Matcher.passed, htrace, List.filter_append, List.filter_map]
    refine congrArg (List.map _ · ++ _) (List.filter_congr fun e he => ?_)
    exact h.test_eq hfocus hp horder he
  · rw [hrest hafter, List.filter_nil]

/-- The match that is looked for next is the last leaf that has not been gone through. -/
theorem Stage.nth_matches (h : Stage cells (p.holds cells) f focus after w bound)
    (horder : Walk.levelOrder [(focus, [])] = (before ++ [e]) ++ after) (hmax : 0 < maxVisits)
    (hpass : p.holds cells e.1 = true) (s : Session) :
    ∃ t, ((Pattern.seq [.descend maxVisits, .satisfying p]).matcher w cells s).1.nth
        (places (p.holds cells) before).length cells
        ((Pattern.seq [.descend maxVisits, .satisfying p]).matcher w cells s).2 =
      (.ok (some ⟨e.1, Path.set e.2.reverse w⟩), t) ∧ t.nextNode = s.nextNode := by
  obtain ⟨hyields, hnode⟩ := Matcher.finds_descend_satisfying cells maxVisits p w s
  obtain ⟨rest, hpassed, -⟩ := h.passed_eq hfocus hp horder hmax
  obtain ⟨t, hnth, ht⟩ := hyields.nth (places (p.holds cells) before).length
    ((Pattern.seq [.descend maxVisits, .satisfying p]).matcher w cells s).2
  refine ⟨t, ?_, ht.trans hnode⟩
  have hleaf := isContainer_of_test hp hpass
  have he : e ∈ before ++ [e] := List.mem_append_right _ (List.mem_singleton_self e)
  have hgiven : Walk.given cells w e = (e.1, e.2.reverse) := by
    rw [Walk.given, h.get?_leaf hfocus hp horder he hleaf, Option.getD_some]
  have hsplit : ((before ++ [e]).filter fun e => p.holds cells e.1).map (Walk.given cells w) ++
        rest =
      (before.filter fun e => p.holds cells e.1).map (Walk.given cells w) ++
        (e.1, e.2.reverse) :: rest := by
    rw [List.filter_append, List.filter_cons, if_pos hpass, List.filter_nil, List.map_append,
      List.map_singleton, hgiven, List.append_assoc, List.singleton_append]
  have hlength : (places (p.holds cells) before).length =
      ((before.filter fun e => p.holds cells e.1).map (Walk.given cells w)).length := by
    rw [places, List.length_map, List.length_map]
  rw [hnth, List.getElem?_map, hpassed, hsplit, hlength, Lists.getElem?_length]
  rfl

/-- Going through the nodes that are left edits all leaves that pass the test. -/
theorem Stage.content_editJointly (h : Stage cells (p.holds cells) f focus after w bound)
    (horder : Walk.levelOrder [(focus, [])] = before ++ after) (hmax : 0 < maxVisits)
    {edit : Nat → Value → Eval Value} (hedit : Edits cells (p.holds cells) f focus edit)
    {s : Session} (hs : bound ≤ s.nextNode) :
    ∃ x s', Matcher.editJointly (Pattern.seq [.descend maxVisits, .satisfying p]).matcher
        edit (places (p.holds cells) before).length w cells s = (.ok x, s') ∧
      x.content = (focus.editLeaves (p.holds cells) f).content := by
  induction before using List.reverseRecOn generalizing after w bound s with
  | nil =>
    refine ⟨w, s, rfl, ?_⟩
    rw [h.content_eq]
    refine congrArg Value.content (Value.editAt_eq_editLeaves cells hfocus fun q => ?_)
    rw [decide_eq_true_iff, ← List.nil_append after, ← horder]
    exact mem_places_levelOrder hfocus hp
  | append_singleton before e ih =>
    have horder' : Walk.levelOrder [(focus, [])] = before ++ e :: after := by
      rw [horder, List.append_assoc, List.singleton_append]
    have hplaces : places (p.holds cells) (before ++ [e]) =
        places (p.holds cells) before ++ places (p.holds cells) [e] := by
      rw [places, List.filter_append, List.map_append, places, places]
    rw [hplaces, List.length_append]
    cases hpass : p.holds cells e.1 with
    | false =>
      rw [places_cons_of_neg hpass]
      exact ih (h.skip hpass) horder' hs
    | true =>
      rw [places_cons_of_pos hpass]
      have he : e ∈ before ++ [e] := List.mem_append_right _ (List.mem_singleton_self e)
      have hheld := h.get?_leaf hfocus hp horder he (isContainer_of_test hp hpass)
      obtain ⟨t, hnth, ht⟩ := h.nth_matches hfocus hp horder hmax hpass s
      obtain ⟨new, s₁, hnew, hle, hcontent⟩ := hedit before e after horder' hpass t
      have hfresh : bound ≤ s₁.nextNode := by
        rw [ht] at hle
        exact Nat.le_trans hs hle
      have hnext := h.put hfocus hp horder hpass hcontent hfresh
      obtain ⟨x, s', hx, hxcontent⟩ := ih hnext horder' (s := s₁.after e.2.reverse.length)
        (Nat.le_refl _)
      refine ⟨x, s', ?_, hxcontent⟩
      show Matcher.editJointly _ _ ((places (p.holds cells) before).length + 1) w cells s = _
      rw [Matcher.editJointly_succ_apply hnth, Eval.bind_apply, hnew]
      simp only [Eval.bind_apply, Path.set_apply hheld, hx]

/-- Before any edit the matches are all leaves that pass the test. -/
theorem collect_leaves (hnodes : focus.nodes.Nodup) (hmax : 0 < maxVisits) (s : Session) :
    ∃ t, ((Pattern.seq [.descend maxVisits, .satisfying p]).matcher focus cells s).1.collect cells
        ((Pattern.seq [.descend maxVisits, .satisfying p]).matcher focus cells s).2 =
      (.ok (((Walk.levelOrder [(focus, [])]).filter fun e => p.holds cells e.1).map fun e =>
        ofNode focus (e.1, e.2.reverse)), t) ∧ t.nextNode = s.nextNode := by
  obtain ⟨bound, hbound⟩ := Finset.exists_nat_subset_range focus.nodes.toFinset
  have hnew : ∀ n ∈ focus.nodes, n < bound :=
    fun n hn => Finset.mem_range.1 (hbound (List.mem_toFinset.2 hn))
  have hstage := stage_focus cells (p.holds cells) id hfocus hnodes hnew
  have horder : Walk.levelOrder [(focus, [])] = Walk.levelOrder [(focus, [])] ++ [] :=
    (List.append_nil _).symm
  obtain ⟨hyields, hnode⟩ := Matcher.finds_descend_satisfying cells maxVisits p focus s
  obtain ⟨rest, hpassed, hrest⟩ := hstage.passed_eq hfocus hp horder hmax
  rw [hrest rfl, List.append_nil] at hpassed
  obtain ⟨t, hcollect, ht⟩ := hyields.collect
    ((Pattern.seq [.descend maxVisits, .satisfying p]).matcher focus cells s).2
  refine ⟨t, ?_, ht.trans hnode⟩
  rw [hcollect, hpassed, List.map_map]
  refine congrArg (fun found => (Except.ok found, t)) (List.map_congr_left fun e he => ?_)
  have hget := (Walk.mem_levelOrder_root cells hfocus).1 (List.mem_of_mem_filter he)
  rw [Function.comp_apply, Walk.given, hget, Option.getD_some]

end

end LeafEdit

namespace Pattern

/-- The edit of all nodes below a focus that pass a test, where no container passes: every leaf that
passes is changed, once, whatever it is changed to, and everything else stays as it is.  No cell may
be in the focus, no container at two places of it, and containers to come have other numbers; what
the edit makes may share containers with anything. -/
theorem editAll_leaves (hp : ∀ v : Value, v.isContainer = true → p.holds cells v = false)
    {focus : Value} (hf : focus.WellFormed) (hc : focus.holdsCell = false)
    (hnodes : focus.nodes.Nodup) {s : Session} (hnew : ∀ n ∈ focus.nodes, n < s.nextNode)
    (hmax : 1 ≤ maxVisits) {f : Value → Value} {edit : Value → Eval Value}
    (hedit : ∀ v s, ∃ x s', edit v cells s = (.ok x, s') ∧ s.nextNode ≤ s'.nextNode ∧
      x.content = (f v).content) :
    ∃ w s', (seq [descend maxVisits, satisfying p]).editAll focus edit cells s = (.ok w, s') ∧
      w.content = (focus.editLeaves (p.holds cells) f).content := by
  have hfocus : focus.Plain := ⟨hf, hc⟩
  have hstage := LeafEdit.stage_focus cells (p.holds cells) f hfocus hnodes hnew
  have horder : Walk.levelOrder [(focus, [])] = Walk.levelOrder [(focus, [])] ++ [] :=
    (List.append_nil _).symm
  obtain ⟨t, hcollect, ht⟩ := LeafEdit.collect_leaves hfocus hp hnodes hmax s
  have hedits : LeafEdit.Edits cells (p.holds cells) f focus fun _ => edit :=
    fun _ e _ _ _ => hedit e.1
  obtain ⟨w, s', hw, hcontent⟩ := hstage.content_editJointly hfocus hp horder hmax hedits (s := t)
    (Nat.le_of_eq ht.symm)
  refine ⟨w, s', ?_, hcontent⟩
  rw [editAll_apply hcollect, List.length_map]
  rw [LeafEdit.places, List.length_map] at hw
  exact hw

/-- Numbers that are changed to lists, each of which holds two numbers. -/
theorem editAll_leaves_numbers :
    let focus : Value := .list 0 [.map 1 [("a", .int 1), ("b", .str "x")], .int 2, .list 2 []]
    let p := Predicate.ofType .number
    let edit (v : Value) : Eval Value := Run.newList [v, .int 5]
    (∀ v : Value, v.isContainer = true → p.holds Cells.none v = false) ∧ focus.WellFormed ∧
      focus.holdsCell = false ∧ focus.nodes.Nodup ∧ (∀ n ∈ focus.nodes, n < 3) ∧
      ∃ w s', (seq [descend 1, satisfying p]).editAll focus edit Cells.none ⟨3, #[]⟩ = (.ok w, s') ∧
        w.content = .list 0 [.map 0 [("a", .list 0 [.int 1, .int 5]), ("b", .str "x")],
          .list 0 [.int 2, .int 5], .list 0 []] := by
  intro focus p edit
  have hp : ∀ v : Value, v.isContainer = true → p.holds Cells.none v = false :=
    fun _ => Predicate.ofType_number_of_isContainer
  have hfocus : focus.Plain := by simp [focus]
  have hnodes : focus.nodes.Nodup := by decide
  have hnew : ∀ n ∈ focus.nodes, n < 3 := by decide
  have hedit : ∀ v s, ∃ x s', edit v Cells.none s = (.ok x, s') ∧ s.nextNode ≤ s'.nextNode ∧
      x.content = (Value.list 0 [v, .int 5]).content :=
    fun v s => ⟨.list s.nextNode [v, .int 5], _, rfl, Nat.le_succ _, by simp⟩
  obtain ⟨w, s', hw, hcontent⟩ := editAll_leaves hp hfocus.wellFormed hfocus.cellFree hnodes
    (s := ⟨3, #[]⟩) hnew (Nat.le_refl 1) hedit
  exact ⟨hp, hfocus.wellFormed, hfocus.cellFree, hnodes, hnew, w, s', hw, hcontent⟩

end Pattern

end DataExpr
