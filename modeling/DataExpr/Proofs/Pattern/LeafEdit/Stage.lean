import DataExpr.Proofs.Matcher.LevelOrder

/-!
# The stages of an edit of leaves

The edit of all leaves of a focus that pass a test goes from the last one in level order to the
first.  `LeafEdit.Stage` is what holds when the nodes `after` have been gone through and the nodes
`before` have not: the content is that of the focus with the leaves of `after` edited all at once,
and every container of the focus is still one container, with a number of its own.

What has been put in the place of a leaf may be anything, and holds as many leaves and containers as
it likes: it comes later in level order than all nodes of `before`.  So a descent still sees these
nodes (`Stage.sees`), and editing the last leaf among them leads to the next stage (`Stage.put`).
-/

namespace DataExpr.LeafEdit

/-- The places of the nodes whose values pass the test. -/
def places (test : Value → Bool) (nodes : List (Value × List Step)) : List Path :=
  (nodes.filter (test ·.1)).map (·.2.reverse)

/-- Of the nodes of the focus just those `after` have been edited where they pass the test. -/
structure Stage (cells : Cells) (test : Value → Bool) (f : Value → Value) (focus : Value)
    (after : List (Value × List Step)) (w : Value) (bound : Nat) : Prop where
  content_eq : w.content = (focus.editAt f fun q => q ∈ places test after).content
  node_lt : ∀ {q n}, Path.node? cells q focus = some n →
    ∃ m, m < bound ∧ Path.node? cells q w = some m
  path_eq : ∀ {q q' n n' m}, Path.node? cells q focus = some n →
    Path.node? cells q' focus = some n' → Path.node? cells q w = some m →
    Path.node? cells q' w = some m → q = q'

variable {cells : Cells} {test : Value → Bool} {f : Value → Value} {focus w x : Value}
variable {before after nodes : List (Value × List Step)} {e : Value × List Step} {q : Path}
variable {bound : Nat}

theorem mem_places : q ∈ places test nodes ↔ ∃ e ∈ nodes, test e.1 = true ∧ e.2.reverse = q := by
  rw [places, List.mem_map]
  simp only [List.mem_filter, and_assoc]

theorem places_cons_of_pos (h : test e.1 = true) :
    places test (e :: nodes) = e.2.reverse :: places test nodes := by
  rw [places, List.filter_cons, if_pos h]
  rfl

theorem places_cons_of_neg (h : test e.1 = false) :
    places test (e :: nodes) = places test nodes := by
  rw [places, List.filter_cons, if_neg (by simp [h])]
  rfl

/-- Only leaves pass the test. -/
theorem isContainer_of_test (htest : ∀ v : Value, v.isContainer = true → test v = false)
    (h : test x = true) : x.isContainer = false := by
  rw [← Bool.not_eq_true]
  intro hcontainer
  rw [htest x hcontainer] at h
  cases h

/-- The places of all nodes of the focus are those of its leaves that pass the test. -/
theorem mem_places_levelOrder (hfocus : focus.Plain)
    (htest : ∀ v : Value, v.isContainer = true → test v = false) :
    q ∈ places test (Walk.levelOrder [(focus, [])]) ↔
      ∃ x, Path.get? cells q focus = some x ∧ x.isContainer = false ∧ test x = true := by
  rw [mem_places]
  constructor
  · rintro ⟨e, he, hpass, rfl⟩
    have hget := (Walk.mem_levelOrder_root cells hfocus).1 he
    exact ⟨e.1, hget, isContainer_of_test htest hpass, hpass⟩
  · rintro ⟨x, hget, -, hpass⟩
    refine ⟨(x, q.reverse), ?_, hpass, List.reverse_reverse q⟩
    rw [Walk.mem_levelOrder_root cells hfocus, List.reverse_reverse]
    exact hget

/-! ### Before any edit -/

theorem stage_focus (cells : Cells) (test : Value → Bool) (f : Value → Value) (hfocus : focus.Plain)
    (hnodes : focus.nodes.Nodup) (hbound : ∀ n ∈ focus.nodes, n < bound) :
    Stage cells test f focus [] focus bound := by
  constructor
  · show focus.content = (focus.editAt f fun q => q ∈ ([] : List Path)).content
    simp only [List.not_mem_nil, decide_false, Value.editAt_nowhere]
  · intro q n hn
    obtain ⟨v, hv, hvn⟩ := Path.node?_eq_some.1 hn
    exact ⟨n, hbound n (Value.mem_nodes_of_get? hfocus hv (Value.mem_nodes_of_node? hvn)), hn⟩
  · intro q q' n n' m _ _ hm hm'
    obtain ⟨v, hv, hvm⟩ := Path.node?_eq_some.1 hm
    obtain ⟨v', hv', hvm'⟩ := Path.node?_eq_some.1 hm'
    exact Value.path_eq_of_nodup_nodes hfocus hnodes hv hv' hvm hvm'

/-! ### What is still there -/

section

variable (hfocus : focus.Plain) (htest : ∀ v : Value, v.isContainer = true → test v = false)
variable (horder : Walk.levelOrder [(focus, [])] = before ++ after)

include hfocus horder

theorem get?_of_mem_before (cells : Cells) (he : e ∈ before) :
    Path.get? cells e.2.reverse focus = some e.1 :=
  (Walk.mem_levelOrder_root cells hfocus).1 (horder ▸ List.mem_append_left _ he)

theorem get?_of_mem_after (cells : Cells) (he : e ∈ after) :
    Path.get? cells e.2.reverse focus = some e.1 :=
  (Walk.mem_levelOrder_root cells hfocus).1 (horder ▸ List.mem_append_right _ he)

include htest

/-- No leaf that has been edited is at or above a node that has not been gone through. -/
theorem not_mem_places_after (he : e ∈ before) (hq : q <+: e.2.reverse) :
    q ∉ places test after := by
  intro hmem
  obtain ⟨a, ha, hpass, rfl⟩ := mem_places.1 hmem
  obtain ⟨r, hr⟩ := hq
  have hleaf := get?_of_mem_after hfocus horder Cells.none ha
  have hget := get?_of_mem_before hfocus horder Cells.none he
  rw [← hr, Path.get?_append, hleaf, Option.bind_some] at hget
  have hplain := Path.plain_of_get? hfocus hleaf
  obtain rfl := Value.eq_nil_of_get? (isContainer_of_test htest hpass) hplain.ne_cell hget
  -- So it is at the path of the node, and no path occurs twice.
  rw [List.append_nil, List.reverse_inj] at hr
  have hnodup := Walk.nodup_levelOrder_root hfocus
  rw [horder, List.map_append] at hnodup
  exact List.disjoint_of_nodup_append hnodup (List.mem_map_of_mem he)
    (hr ▸ List.mem_map_of_mem ha)

/-- A node that has not been gone through is in its place, with its children changed. -/
theorem Stage.get? (h : Stage cells test f focus after w bound) (he : e ∈ before) :
    ∃ v g, Path.get? cells e.2.reverse w = some v ∧ v.content = (e.1.mapChildren g).content := by
  have hplaces : ∀ q, q <+: e.2.reverse → decide (q ∈ places test after) = false := fun q hq =>
    decide_eq_false (not_mem_places_after hfocus htest horder he hq)
  obtain ⟨v, hv, hcontent⟩ := Value.get?_of_content_editAt hfocus
    (get?_of_mem_before hfocus horder cells he) hplaces h.content_eq
  have hhere := hplaces e.2.reverse List.prefix_rfl
  rw [Value.editAt_eq, List.append_nil, hhere, if_neg Bool.false_ne_true] at hcontent
  exact ⟨v, _, hv, hcontent⟩

/-- A leaf that has not been gone through is still there. -/
theorem Stage.get?_leaf (h : Stage cells test f focus after w bound) (he : e ∈ before)
    (hleaf : e.1.isContainer = false) : Path.get? cells e.2.reverse w = some e.1 := by
  obtain ⟨v, g, hv, hcontent⟩ := h.get? hfocus htest horder he
  rw [Value.mapChildren_of_leaf hleaf] at hcontent
  rw [hv, Value.eq_of_content_eq hleaf hcontent]

/-- The test says the same of a node that has not been gone through as it said at first. -/
theorem Stage.test_eq (h : Stage cells test f focus after w bound) (he : e ∈ before) :
    test (cells.resolve (Walk.given cells w e).1) = test e.1 := by
  obtain ⟨v, g, hv, hcontent⟩ := h.get? hfocus htest horder he
  have hplain := Path.plain_of_get? hfocus (get?_of_mem_before hfocus horder cells he)
  have halike := Walk.alike_of_content_eq hplain hcontent
  rw [Walk.given, hv, Option.getD_some, cells.resolve_of_ne_cell halike.ne_cell]
  cases hcontainer : e.1.isContainer with
  | false =>
    rw [Value.mapChildren_of_leaf hcontainer] at hcontent
    rw [Value.eq_of_content_eq hcontainer hcontent]
  | true =>
    have hv : v.isContainer = true := by
      rw [← Value.isContainer_content, hcontent, Value.isContainer_content,
        Value.isContainer_mapChildren, hcontainer]
    rw [htest v hv, htest e.1 hcontainer]

/-- Where there is a container now there was one at first, if it is the place of a node that has not
been gone through. -/
theorem Stage.node?_focus (h : Stage cells test f focus after w bound) (he : e ∈ before) {m : Nat}
    (hm : Path.node? cells e.2.reverse w = some m) :
    ∃ n, Path.node? cells e.2.reverse focus = some n := by
  cases hcontainer : e.1.isContainer with
  | false =>
    rw [Path.node?_of_get? (h.get?_leaf hfocus htest horder he hcontainer),
      Value.node?_eq_none hcontainer] at hm
    cases hm
  | true =>
    rw [Path.node?_of_get? (get?_of_mem_before hfocus horder cells he)]
    exact Option.isSome_iff_exists.1 ((Value.isSome_node? _).trans hcontainer)

/-- A descent sees the nodes that have not been gone through. -/
theorem Stage.sees (h : Stage cells test f focus after w bound) (maxVisits cellCount : Nat) :
    (Walk.ofRoot w maxVisits cellCount).Sees cells before := by
  constructor
  · intro e he
    obtain ⟨v, g, hv, hcontent⟩ := h.get? hfocus htest horder he
    have hplain := Path.plain_of_get? hfocus (get?_of_mem_before hfocus horder cells he)
    exact ⟨v, hv, Walk.alike_of_content_eq hplain hcontent⟩
  · intro e he n hn
    exact Std.HashMap.getD_empty
  · have hnodup := Walk.nodup_levelOrder_root hfocus
    rw [horder, List.map_append] at hnodup
    refine (List.pairwise_map.1 (List.Nodup.of_append_left hnodup)).imp_of_mem ?_
    intro a b ha hb hne m hm hm'
    -- One number at two places: by the invariant these places are one.
    obtain ⟨n, hn⟩ := h.node?_focus hfocus htest horder ha hm
    obtain ⟨n', hn'⟩ := h.node?_focus hfocus htest horder hb hm'
    exact hne (List.reverse_inj.1 (h.path_eq hn hn' hm hm'))

/-- In level order a descent gives the nodes that have not been gone through first, and if these are
all nodes, then nothing else. -/
theorem Stage.trace_eq (h : Stage cells test f focus after w bound) {maxVisits : Nat}
    (hmax : 0 < maxVisits) (cellCount : Nat) :
    ∃ rest, (Walk.ofRoot w maxVisits cellCount).trace cells =
      before.map (Walk.given cells w) ++ rest ∧ (after = [] → rest = []) := by
  have hsees := h.sees hfocus htest horder maxVisits cellCount
  exact (Walk.follows_ofRoot hmax cellCount hsees).trace_eq horder

end

/-! ### The next stage -/

/-- A node that does not pass the test is gone through without an edit. -/
theorem Stage.skip (h : Stage cells test f focus after w bound) (hpass : test e.1 = false) :
    Stage cells test f focus (e :: after) w bound := by
  refine ⟨?_, h.node_lt, h.path_eq⟩
  rw [places_cons_of_neg hpass]
  exact h.content_eq

/-- A container of the focus is properly above a leaf, or neither is above the other. -/
theorem above_or_apart (hfocus : focus.Plain) {path : Path} {n : Nat}
    (hget : Path.get? cells path focus = some x) (hleaf : x.isContainer = false)
    (hn : Path.node? cells q focus = some n) :
    (∃ step rest, path = q ++ step :: rest) ∨ ¬ path <+: q ∧ ¬ q <+: path := by
  by_cases habove : q <+: path
  · obtain ⟨r, rfl⟩ := habove
    cases r with
    | nil =>
      rw [List.append_nil] at hget
      rw [Path.node?_of_get? hget, Value.node?_eq_none hleaf] at hn
      cases hn
    | cons step rest => exact .inl ⟨step, rest, rfl⟩
  · refine .inr ⟨?_, habove⟩
    rintro ⟨r, rfl⟩
    obtain ⟨v, hv, -⟩ := Path.node?_eq_some.1 hn
    rw [Path.get?_append, hget, Option.bind_some] at hv
    obtain rfl := Value.eq_nil_of_get? hleaf (Path.plain_of_get? hfocus hget).ne_cell hv
    exact habove ⟨[], by rw [List.append_nil, List.append_nil]⟩

/-- After something has been put in the place of a leaf, a container of the focus is a new one if it
is above the leaf, and the same as before if not. -/
theorem Stage.node?_put (h : Stage cells test f focus after w bound) (hfocus : focus.Plain)
    {path : Path} (hget : Path.get? cells path focus = some x) (hleaf : x.isContainer = false)
    {old : Value} (hheld : Path.get? cells path w = some old) (new : Value) {fresh : Nat}
    (hfresh : bound ≤ fresh) {n : Nat} (hn : Path.node? cells q focus = some n) :
    ∃ m, Path.node? cells q (Path.put cells fresh path w new) = some m ∧
      ((∃ step rest, path = q ++ step :: rest ∧ m = fresh + rest.length) ∨
        m < fresh ∧ Path.node? cells q w = some m) := by
  rcases above_or_apart hfocus hget hleaf hn with ⟨step, rest, rfl⟩ | ⟨hbelow, habove⟩
  · exact ⟨_, Path.node?_put_above hheld fresh new, .inl ⟨step, rest, rfl, rfl⟩⟩
  · obtain ⟨m, hm, hwm⟩ := h.node_lt hn
    refine ⟨m, ?_, .inr ⟨Nat.lt_of_lt_of_le hm hfresh, hwm⟩⟩
    rw [Path.node?_put_of_ne hheld fresh new hbelow habove, hwm]

/-- Putting the edited value in the place of the last leaf leads to the next stage. -/
theorem Stage.put (h : Stage cells test f focus after w bound) (hfocus : focus.Plain)
    (htest : ∀ v : Value, v.isContainer = true → test v = false)
    (horder : Walk.levelOrder [(focus, [])] = (before ++ [e]) ++ after) (hpass : test e.1 = true)
    {new : Value} (hnew : new.content = (f e.1).content) {fresh : Nat} (hfresh : bound ≤ fresh) :
    Stage cells test f focus (e :: after) (Path.put cells fresh e.2.reverse w new)
      (fresh + e.2.reverse.length) := by
  have he : e ∈ before ++ [e] := List.mem_append_right _ (List.mem_singleton_self e)
  have hleaf := isContainer_of_test htest hpass
  have hget := get?_of_mem_before hfocus horder cells he
  have hheld := h.get?_leaf hfocus htest horder he hleaf
  have hput : ∀ {q n}, Path.node? cells q focus = some n → _ := fun hn =>
    h.node?_put hfocus hget hleaf hheld new hfresh hn
  constructor
  · have hplaces : ∀ q, q <+: e.2.reverse → decide (q ∈ places test after) = false := fun q hq =>
      decide_eq_false (not_mem_places_after hfocus htest horder he hq)
    rw [Value.content_put_editAt (hfocus.plainTo _) hget hplaces h.content_eq hnew,
      places_cons_of_pos hpass]
    simp only [List.mem_cons, Bool.decide_or, Bool.or_comm]
  · intro q n hn
    obtain ⟨m, hm, ⟨step, rest, hpath, rfl⟩ | ⟨hlt, -⟩⟩ := hput hn
    · refine ⟨_, ?_, hm⟩
      rw [hpath, List.length_append, List.length_cons]
      omega
    · exact ⟨m, Nat.lt_add_right _ hlt, hm⟩
  · intro q q' n n' m hn hn' hm hm'
    obtain ⟨k, hk, hcase⟩ := hput hn
    obtain ⟨k', hk', hcase'⟩ := hput hn'
    obtain rfl := Option.some.inj (hk.symm.trans hm)
    obtain rfl := Option.some.inj (hk'.symm.trans hm')
    rcases hcase with ⟨step, rest, hpath, hnew⟩ | ⟨hlt, hw⟩ <;>
      rcases hcase' with ⟨step', rest', hpath', hnew'⟩ | ⟨hlt', hw'⟩
    · -- Two containers above the leaf that are made anew as one are equally far above it.
      have hlength : rest.length = rest'.length := Nat.add_left_cancel (hnew.symm.trans hnew')
      exact (List.append_inj' (hpath.symm.trans hpath') (by simp [hlength])).1
    · exact absurd hlt' (by omega)
    · exact absurd hlt (by omega)
    · exact h.path_eq hn hn' hw hw'

end DataExpr.LeafEdit
