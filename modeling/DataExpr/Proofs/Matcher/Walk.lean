import DataExpr.Proofs.Path.Put

/-!
# Where a descent is

A `Walk` keeps for every node that waits the path on which it has been found.  `Walk.Rooted` says that
these paths lead from the root of the walk to the nodes.  Taking a node out of the queue, counting a
visit and giving a node keep the walk rooted (`Rooted.pop`, `Rooted.given`, `Rooted.visit`), so the
paths of all nodes that a descent ever gives are right.
-/

namespace DataExpr.Walk

variable {cells : Cells} {w popped admitted : Walk} {entry : Value × List Step} {node : Value}

theorem root_of_pop? (h : w.pop? = some (entry, popped)) : popped.root = w.root := by
  unfold pop? at h
  split at h
  · cases h
    rfl
  · split at h
    · cases h
      rfl
    · cases h

theorem queue_eq_nil_of_pop? (h : w.pop? = none) : w.queue = [] := by
  unfold pop? at h
  split at h
  · cases h
  · rename_i hfront
    split at h
    · cases h
    · rename_i hback
      rw [queue, hfront, hback, List.append_nil]

/-- Counting a visit changes nothing but the visits. -/
theorem frame_of_admit? (h : w.admit? node = some admitted) :
    admitted.root = w.root ∧ admitted.queue = w.queue ∧ admitted.maxVisits = w.maxVisits ∧
      admitted.cellCount = w.cellCount := by
  obtain ⟨-, rfl⟩ | ⟨id, -, -, rfl⟩ := admit?_eq_some h
  · exact ⟨rfl, rfl, rfl, rfl⟩
  · exact ⟨rfl, rfl, rfl, rfl⟩

theorem queue_visit (w : Walk) (cells : Cells) (entry : Value × List Step) :
    (w.visit cells entry).queue =
      w.queue ++ (w.childrenOf cells entry.1).map fun c => (c.1, c.2 :: entry.2) :=
  queue_enqueue _ _

/-- Every node that waits is at the end of its path from the root. -/
def Rooted (cells : Cells) (w : Walk) : Prop :=
  ∀ entry ∈ w.queue, Path.get? cells entry.2.reverse w.root = some entry.1

theorem rooted_ofRoot (cells : Cells) (root : Value) (maxVisits cellCount : Nat) :
    (ofRoot root maxVisits cellCount).Rooted cells := by
  intro entry hentry
  obtain rfl := List.mem_singleton.1 hentry
  rfl

theorem Rooted.pop (h : w.Rooted cells) (hpop : w.pop? = some (entry, popped)) :
    Path.get? cells entry.2.reverse w.root = some entry.1 ∧ popped.Rooted cells := by
  have hqueue := (queue_of_pop? hpop).1
  refine ⟨h entry (hqueue ▸ List.mem_cons_self), fun e he => ?_⟩
  rw [root_of_pop? hpop]
  exact h e (hqueue ▸ List.mem_cons_of_mem _ he)

theorem Rooted.given (h : w.Rooted cells) (hgiven : w.admit? node = some admitted) :
    admitted.Rooted cells := by
  obtain ⟨hroot, hqueue, -⟩ := frame_of_admit? hgiven
  rw [Rooted, hroot, hqueue]
  exact h

/-- The steps to the children of a node that is at its path make paths to the children. -/
theorem Rooted.visit {cells' : Cells} (h : w.Rooted cells)
    (hentry : Path.get? cells entry.2.reverse w.root = some entry.1)
    (hchildren : ∀ c ∈ w.childrenOf cells' entry.1, (cells.resolve entry.1).child? c.2 = some c.1) :
    (w.visit cells' entry).Rooted cells := by
  intro e he
  rw [queue_visit] at he
  rcases List.mem_append.1 he with he | he
  · exact h e he
  · obtain ⟨c, hc, rfl⟩ := List.mem_map.1 he
    show Path.get? cells (c.2 :: entry.2).reverse w.root = some c.1
    rw [List.reverse_cons, Path.get?_append, hentry, Option.bind_some, Path.get?_cons, hchildren c hc]
    rfl

/-- The cells do not matter for the children of a node that is none. -/
theorem childrenOf_of_ne_cell (w : Walk) (cells : Cells) (h : ∀ id, node ≠ .cell id) :
    w.childrenOf cells node = node.children := by
  cases node with
  | cell id => exact absurd rfl (h id)
  | _ => rfl

end DataExpr.Walk
