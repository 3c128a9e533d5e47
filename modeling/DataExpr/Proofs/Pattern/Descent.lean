import DataExpr.Proofs.Matcher.Trace

/-!
# Descending into graphs

The matches of a descent are the nodes of its trace (`matchesIn_descend`).  Data may be cyclic by way of
cells and share containers; only what `Cells.Coherent` says is needed of it.  The witness is a map that
holds a cell that holds the map.
-/

namespace DataExpr.Pattern

/-- While the cells stay as they are, a descent gives finitely many matches and no error, level by
level, each container and cell at most `maxVisits` times.  Unless it gives nothing at all, it gives the
focus first and every container and cell that can be reached.  Each match is what its path leads to, and
replacing it puts the new value there. -/
theorem matchesIn_descend {cells : Cells} {focus : Value} (h : cells.Coherent focus)
    (maxVisits : Nat) (s : Session) :
    ∃ nodes : List (Value × Path),
      (∀ s', ((descend maxVisits).matchesIn focus cells s).1.toList cells s' =
        (nodes.map fun e => .ok ⟨e.1, Path.set e.2 focus⟩, s')) ∧
      nodes.Pairwise (fun a b => a.2.length ≤ b.2.length) ∧
      (∀ id, nodes.countP (·.1.identity? = some id) ≤ maxVisits) ∧
      (1 ≤ maxVisits → nodes.head? = some (focus, []) ∧
        ∀ v id, cells.Reaches focus v → v.identity? = some id →
          ∃ e ∈ nodes, e.1.identity? = some id) ∧
      ∀ e ∈ nodes, Path.get? cells e.2 focus = some e.1 ∧
        ∀ new s', ∃ w s'', Path.set e.2 focus new cells s' = (.ok w, s'') ∧
          Path.get? cells e.2 w = some new := by
  have hfrom := Walk.from_ofRoot cells focus maxVisits
  have hunseen : ∀ id, (Walk.ofRoot focus maxVisits cells.contents.size).visitsOf id = 0 :=
    fun _ => Std.HashMap.getD_empty
  refine ⟨(Walk.ofRoot focus maxVisits cells.contents.size).trace cells, fun s' => ?_,
    (Walk.pairwise_trace (Walk.leveled_ofRoot _ _ _)).1, fun id => ?_, fun hmax => ⟨?_, ?_⟩, ?_⟩
  · exact Walk.toList_pull _ _ _
  · have := Walk.countP_trace_le cells id (.ofRoot focus maxVisits cells.contents.size)
    rwa [hunseen, Nat.sub_zero] at this
  · obtain ⟨rest, hrest⟩ := Walk.trace_ofRoot cells focus hmax
      cells.contents.size
    rw [hrest, List.head?_cons]
  · intro v id hv hid
    rcases Walk.exists_mem_trace h hfrom (Walk.covering_ofRoot _ _ _ _) hmax hv hid with hseen | hmem
    · rw [hunseen] at hseen
      exact absurd hseen (Nat.lt_irrefl 0)
    · exact hmem
  · intro e he
    have hget := Walk.get?_of_mem_trace h hfrom e he
    exact ⟨hget, fun new s' => ⟨_, _, Path.set_apply hget new s', Path.get?_put hget _ _⟩⟩

/-- A map with a shared list and a cell that holds the map is descended into although it is endless. -/
theorem matchesIn_descend_cycle :
    let shared : Value := .list 2 [.int 7]
    let focus : Value := .map 1 [("self", .cell 0), ("xs", shared), ("ys", shared)]
    let cells : Cells := ⟨#[focus]⟩
    cells.Coherent focus ∧
    ∃ nodes : List (Value × Path),
      (∀ s', ((descend 1).matchesIn focus cells ⟨3, #[]⟩).1.toList cells s' =
        (nodes.map fun e => .ok ⟨e.1, Path.set e.2 focus⟩, s')) ∧
      nodes.head? = some (focus, []) ∧ ∃ e ∈ nodes, e.1.identity? = some (.cell 0) := by
  intro shared focus cells
  have hresolve : cells.resolve focus = focus ∧ cells.resolve (.cell 0) = focus := ⟨rfl, rfl⟩
  have hreaches : ∀ {v}, cells.Reaches focus v →
      v = focus ∨ v = .cell 0 ∨ v = shared ∨ v = .int 7 := by
    intro v hv
    induction hv with
    | refl => exact .inl rfl
    | @step v c _ hc ih =>
      have hfocus : c ∈ focus.children → c.1 = .cell 0 ∨ c.1 = shared := by
        simp only [focus, Value.children, List.map_cons, List.map_nil, List.mem_cons,
          List.not_mem_nil, or_false]
        rintro (rfl | rfl | rfl) <;> simp
      rcases ih with rfl | rfl | rfl | rfl
      · rw [hresolve.1] at hc
        exact (hfocus hc).elim (.inr ∘ .inl) (.inr ∘ .inr ∘ .inl)
      · rw [hresolve.2] at hc
        exact (hfocus hc).elim (.inr ∘ .inl) (.inr ∘ .inr ∘ .inl)
      · obtain rfl := List.mem_singleton.1 hc
        exact .inr (.inr (.inr rfl))
      · cases hc
  have hcoherent : cells.Coherent focus := by
    constructor
    · intro v hv entries he
      rcases hreaches hv with rfl | rfl | rfl | rfl <;> cases he <;> decide
    · intro v w id hv hw hidv hidw
      rcases hreaches hv with rfl | rfl | rfl | rfl <;> cases hidv <;>
        rcases hreaches hw with rfl | rfl | rfl | rfl <;> first | rfl | cases hidw
  obtain ⟨nodes, hlist, -, -, hall, -⟩ := matchesIn_descend hcoherent 1 ⟨3, #[]⟩
  obtain ⟨hhead, hreached⟩ := hall (Nat.le_refl 1)
  refine ⟨hcoherent, nodes, hlist, hhead, hreached (.cell 0) (.cell 0) ?_ rfl⟩
  exact Cells.Reaches.refl.step (c := (.cell 0, .key "self")) (List.mem_cons_self)

end DataExpr.Pattern
