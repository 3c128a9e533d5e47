import DataExpr.Proofs.Matcher.Lawful.Access
import DataExpr.Proofs.Matcher.Levels

/-!
# A descent as nested spreads

The children of the children, and so on, of a focus can be had by going inside spreads again and
again, or from a descent, which keeps a queue and rebuilds the focus along a path.  Both give the
same (`Pattern.matchesIn_descend_levels`) where no container or cell is shared: the descent gives the
nodes of one level after the other, and these are the matches of as many spreads in a row.
-/

namespace DataExpr

variable {cells : Cells} {root : Value}

namespace Matcher

/-! ### Spreads in a row -/

/-- The items of a number of spreads in a row. -/
def levelItems (cells : Cells) : Nat → Value → Items
  | 0 => fun focus => [.ok (.whole focus)]
  | n + 1 => nested (levelItems cells n) (spreadItems cells)

theorem finds_levelItems (n : Nat) :
    Finds cells (sequence (List.replicate n spread)) (levelItems cells n) := by
  induction n with
  | zero => exact finds_whole
  | succ n ih =>
    rw [List.replicate_succ', sequence_eq]
    simp only [withinAll_append]
    exact Finds.within ih finds_spread

/-- A spread gives each child with the way to make the container anew around another one. -/
theorem spreadItems_eq (cells : Cells) (v : Value) :
    spreadItems cells v = (cells.resolve v).children.map fun c =>
      .ok ⟨c.1, Path.newWithChild (cells.resolve v) c.2⟩ := by
  rw [spreadItems]
  split
  · rename_i hv
    rw [hv, itemMatches, List.map_map, Value.children, List.map_map]
    rfl
  · rename_i hv
    rw [hv, entryMatches, List.map_map, Value.children, List.map_map]
    rfl
  · rename_i hlist hmap
    cases hv : cells.resolve v with
    | list node vs => exact absurd hv (hlist node vs)
    | map node entries => exact absurd hv (hmap node entries)
    | _ => rfl

/-- The match is that of a node: it has the node's value, and putting another one there sets the
path to the node. -/
structure IsAt (cells : Cells) (root : Value) (e : Value × List Step) (m : Match) : Prop where
  get?_eq : Path.get? cells e.2.reverse root = some e.1
  value_eq : m.value = e.1
  replace_eq : ∀ new s, m.replace new cells s = Path.set e.2.reverse root new cells s

/-- Inside the match of a node the children of the node are the matches of theirs. -/
theorem IsAt.inside {e : Value × List Step} {m : Match} (h : IsAt cells root e m)
    {c : Value × Step} (hc : (cells.resolve e.1).child? c.2 = some c.1) :
    IsAt cells root (c.1, c.2 :: e.2)
      (m.inside ⟨c.1, Path.newWithChild (cells.resolve e.1) c.2⟩) where
  get?_eq := by
    rw [List.reverse_cons, Path.get?_append, h.get?_eq, Option.bind_some, Path.get?_cons, hc]
    rfl
  value_eq := rfl
  replace_eq new s := by
    have hset : Path.set [c.2] e.1 new cells s =
        Path.newWithChild (cells.resolve e.1) c.2 new cells s :=
      Path.set_cons_apply hc [] new s
    rw [List.reverse_cons, Path.set_append h.get?_eq, Eval.bind_apply, hset]
    show (Path.newWithChild (cells.resolve e.1) c.2 new >>= m.replace) cells s = _
    rw [Eval.bind_apply]
    split
    · exact h.replace_eq _ _
    · rfl

/-- The items of spreads in a row are the nodes of a level. -/
theorem forall₂_levelItems (h : cells.Coherent root) (n : Nat) :
    List.Forall₂ (fun i e => ∃ m, i = .ok m ∧ IsAt cells root e m) (levelItems cells n root)
      (Walk.level cells [(root, [])] n) := by
  induction n with
  | zero => exact .cons ⟨.whole root, rfl, rfl, rfl, fun _ _ => rfl⟩ .nil
  | succ n ih =>
    rw [Walk.level, levelItems, nested]
    refine List.rel_flatMap ih ?_
    rintro _ e ⟨m, rfl, hm⟩
    rw [inner, Findings.expand, hm.value_eq, spreadItems_eq, List.map_map, Walk.belowIn,
      List.forall₂_map_left_iff, List.forall₂_map_right_iff, List.forall₂_same]
    intro c hc
    exact ⟨_, rfl, hm.inside (h.child?_of_mem (Cells.reaches_of_get? .refl hm.get?_eq) hc)⟩

end Matcher

/-! ### Descending -/

/-- Both items are matches, with one value and with the same outcome of every replacement. -/
def SameMatch (cells : Cells) (i j : Except EvalError Match) : Prop :=
  ∃ m m' : Match, i = .ok m ∧ j = .ok m' ∧ m.value = m'.value ∧
    ∀ new s, m.replace new cells s = m'.replace new cells s

namespace Pattern

/-- Where no container or cell is at the end of two paths, a descent gives what no spread, one
spread, two spreads in a row and so on give, down to the depth of the focus. -/
theorem matchesIn_descend_levels {focus : Value} (h : cells.Unshared focus) {maxVisits : Nat}
    (hmax : 1 ≤ maxVisits) :
    ∃ depth,
      (∀ path v, Path.get? cells path focus = some v → path.length ≤ depth) ∧
      (∃ path v, Path.get? cells path focus = some v ∧ path.length = depth) ∧
      ∀ s s', List.Forall₂ (SameMatch cells)
        (((descend maxVisits).matchesIn focus cells s).1.toList cells s').1
        ((List.range (depth + 1)).flatMap fun n =>
          (((seq (List.replicate n spread)).matchesIn focus cells s).1.toList cells s').1) := by
  obtain ⟨depth, hlast, hend, htrace⟩ := Walk.exists_depth_trace h hmax
  refine ⟨depth, fun path v hget => ?_, ?_, fun s s' => ?_⟩
  · have hmem := Walk.mem_level_of_get? hget
    refine Nat.le_of_not_lt fun hlt => ?_
    rw [Walk.level_of_eq_nil hend hlt] at hmem
    cases hmem
  · obtain ⟨e, he⟩ := List.exists_mem_of_ne_nil _ hlast
    obtain ⟨hlength, hget⟩ := (Walk.mem_level h.coherent).1 he
    exact ⟨e.2.reverse, e.1, hget, List.length_reverse.trans hlength⟩
  · have hdescend : (((descend maxVisits).matchesIn focus cells s).1.toList cells s').1 =
        ((Walk.ofRoot focus maxVisits cells.contents.size).trace cells).map fun e =>
          .ok ⟨e.1, Path.set e.2 focus⟩ :=
      congrArg Prod.fst (Walk.toList_pull (.ofRoot focus maxVisits cells.contents.size) cells s')
    have hspreads : ∀ n,
        (((seq (List.replicate n spread)).matchesIn focus cells s).1.toList cells s').1 =
          Matcher.levelItems cells n focus := by
      intro n
      have hmatcher : (seq (List.replicate n spread)).matcher =
          Matcher.sequence (List.replicate n Matcher.spread) := by
        rw [matcher, matchers_eq_map, List.map_replicate, matcher]
      rw [matchesIn, hmatcher]
      exact ((Matcher.finds_levelItems n focus s).1.toList s').1
    simp only [hdescend, hspreads, htrace, List.map_map, List.map_flatMap]
    -- Level by level the two sides are made of the same nodes.
    refine List.rel_flatMap (List.forall₂_same.2 fun _ _ => rfl) ?_
    rintro n _ rfl
    rw [List.forall₂_map_left_iff]
    refine List.Forall₂.flip ((Matcher.forall₂_levelItems h.coherent n).imp ?_)
    rintro _ e ⟨m, rfl, hm⟩
    exact ⟨_, m, rfl, rfl, hm.value_eq.symm, fun new t => (hm.replace_eq new t).symm⟩

/-- A map with a cell that holds a list, with another list in it: the descent goes down to the third
level. -/
theorem matchesIn_descend_levels_cell :
    let focus : Value := .map 0 [("a", .cell 0), ("b", .int 7)]
    let cells : Cells := ⟨#[.list 1 [.int 5, .list 2 []]]⟩
    cells.Unshared focus ∧ 1 ≤ 2 ∧
    ∃ depth,
      (∀ path v, Path.get? cells path focus = some v → path.length ≤ depth) ∧
      (∃ path v, Path.get? cells path focus = some v ∧ path.length = depth) ∧
      ∀ s s', List.Forall₂ (SameMatch cells)
        (((descend 2).matchesIn focus cells s).1.toList cells s').1
        ((List.range (depth + 1)).flatMap fun n =>
          (((seq (List.replicate n spread)).matchesIn focus cells s).1.toList cells s').1) := by
  intro focus cells
  have hthird : Walk.level cells [(focus, [])] 3 = [] := rfl
  have hnodes : ∀ {p v}, Path.get? cells p focus = some v → (v, p.reverse) ∈
      [(focus, []), (.cell 0, [.key "a"]), (.int 7, [.key "b"]), (.int 5, [.index 0, .key "a"]),
        (.list 2 [], [.index 1, .key "a"])] := by
    intro p v h
    have hmem := Walk.mem_level_of_get? h
    have hlength : p.length < 3 := by
      refine Nat.lt_of_not_le fun hle => ?_
      rw [Walk.level_of_eq_nil hthird hle] at hmem
      cases hmem
    have hlevels : ∀ n < 3, ∀ e ∈ Walk.level cells [(focus, [])] n,
        e ∈ (List.range 3).flatMap (Walk.level cells [(focus, [])]) :=
      fun n hn e he => List.mem_flatMap.2 ⟨n, List.mem_range.2 hn, he⟩
    exact hlevels _ hlength _ hmem
  have hunshared : cells.Unshared focus := by
    constructor
    · intro p v h entries he
      have hv := hnodes h
      simp only [List.mem_cons, List.not_mem_nil, or_false, Prod.mk.injEq] at hv
      rcases hv with ⟨rfl, -⟩ | ⟨rfl, -⟩ | ⟨rfl, -⟩ | ⟨rfl, -⟩ | ⟨rfl, -⟩ <;> cases he
      decide
    · intro p q v w id hp hq hidv hidw
      have hv := hnodes hp
      have hw := hnodes hq
      simp only [List.mem_cons, List.not_mem_nil, or_false, Prod.mk.injEq] at hv hw
      refine List.reverse_injective ?_
      rcases hv with ⟨rfl, hv⟩ | ⟨rfl, hv⟩ | ⟨rfl, -⟩ | ⟨rfl, -⟩ | ⟨rfl, hv⟩ <;> cases hidv <;>
        rcases hw with ⟨rfl, hw⟩ | ⟨rfl, hw⟩ | ⟨rfl, -⟩ | ⟨rfl, -⟩ | ⟨rfl, hw⟩ <;> cases hidw <;>
        exact hv.trans hw.symm
  exact ⟨hunshared, by decide, matchesIn_descend_levels hunshared (by decide)⟩

end Pattern

end DataExpr
