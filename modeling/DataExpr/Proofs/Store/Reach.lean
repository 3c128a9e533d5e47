import DataExpr.Proofs.Path.Put

/-!
# What can be reached from a value

`Cells.Reaches cells v w`: the value `w` can be reached from `v` by going to children again and again,
where the children of a cell are those of the value behind it.  Along cells a value may be reached
from itself.  What is at the end of a path is reached (`reaches_of_get?`).

`Cells.Coherent` is what the numbers of containers and the keys of maps are for: of all that can be
reached, one number is always one and the same container, and no key occurs twice.
`Cells.Unshared` is the stronger condition that every container and every cell is at the end of one
path only, so that nothing is shared and nothing goes round in a circle.
-/

namespace DataExpr

namespace Value

/-- Only containers have children, and these have an identity. -/
theorem children_eq_nil_of_identity? {v : Value} (h : v.identity? = none) : v.children = [] := by
  cases v with
  | list node items => cases h
  | map node entries => cases h
  | _ => rfl

end Value

namespace Cells

variable {cells : Cells} {root v : Value}

/-- The value can be reached by going to children, cells being read through. -/
inductive Reaches (cells : Cells) (root : Value) : Value → Prop where
  | refl : Reaches cells root root
  | step {v : Value} {c : Value × Step} (hv : Reaches cells root v)
    (hc : c ∈ (cells.resolve v).children) : Reaches cells root c.1

/-- A node without identity has no children, even if its cells are read through. -/
theorem children_resolve_eq_nil (h : v.identity? = Option.none) : (cells.resolve v).children = [] := by
  -- Cells have an identity, so the value is none and is not read through.
  have hne : ∀ id, v ≠ .cell id := by
    rintro id rfl
    cases h
  rw [cells.resolve_of_ne_cell hne]
  exact Value.children_eq_nil_of_identity? h

/-- A cell that the store does not have is empty. -/
theorem read_of_size_le {id : Nat} (h : cells.contents.size ≤ id) : cells.read id = .null := by
  rw [read, Array.getD_eq_getD_getElem?, Array.getElem?_eq_none h, Option.getD_none]

theorem children_resolve_of_size_le {id : Nat} (h : cells.contents.size ≤ id) :
    (cells.resolve (.cell id)).children = [] := by
  show (cells.follow 64 (cells.read id)).children = []
  rw [read_of_size_le h]
  rfl

theorem reaches_of_get? {w : Value} {path : Path} (hv : cells.Reaches root v)
    (h : Path.get? cells path v = some w) : cells.Reaches root w := by
  induction path generalizing v with
  | nil => exact Option.some.inj h ▸ hv
  | cons step rest ih =>
    obtain ⟨c, hc, h⟩ := Path.get?_cons_eq_some.1 h
    exact ih (hv.step (Value.mem_children_of_child? hc)) h

/-- Among all that can be reached, no key occurs twice in a map, and one identity is one value. -/
structure Coherent (cells : Cells) (root : Value) : Prop where
  keys : ∀ {v}, cells.Reaches root v → ∀ entries, (cells.resolve v).entries? = some entries →
    (Entries.keys entries).Nodup
  eq_of_identity : ∀ {v w id}, cells.Reaches root v → cells.Reaches root w →
    v.identity? = some id → w.identity? = some id → v = w

theorem Coherent.child?_of_mem (h : cells.Coherent root) (hv : cells.Reaches root v)
    {c : Value × Step} (hc : c ∈ (cells.resolve v).children) :
    (cells.resolve v).child? c.2 = some c.1 :=
  Value.child?_of_mem (h.keys hv) hc

/-! ### One path to each node -/

/-- No two paths lead to nodes of one identity, and no key occurs twice in a map that one leads to. -/
structure Unshared (cells : Cells) (root : Value) : Prop where
  keys : ∀ {p v}, Path.get? cells p root = some v → ∀ entries,
    (cells.resolve v).entries? = some entries → (Entries.keys entries).Nodup
  path_eq : ∀ {p q v w id}, Path.get? cells p root = some v → Path.get? cells q root = some w →
    v.identity? = some id → w.identity? = some id → p = q

/-- What can be reached is at the end of a path. -/
theorem Unshared.exists_path (h : cells.Unshared root) (hv : cells.Reaches root v) :
    ∃ path, Path.get? cells path root = some v := by
  induction hv with
  | refl => exact ⟨[], rfl⟩
  | @step v c _ hc ih =>
    obtain ⟨path, hpath⟩ := ih
    refine ⟨path ++ [c.2], ?_⟩
    rw [Path.get?_append, hpath, Option.bind_some, Path.get?_cons,
      Value.child?_of_mem (h.keys hpath) hc]
    rfl

theorem Unshared.coherent (h : cells.Unshared root) : cells.Coherent root where
  keys hv := by
    obtain ⟨p, hp⟩ := h.exists_path hv
    exact h.keys hp
  eq_of_identity {v w id} hv hw hidv hidw := by
    obtain ⟨p, hp⟩ := h.exists_path hv
    obtain ⟨q, hq⟩ := h.exists_path hw
    obtain rfl := h.path_eq hp hq hidv hidw
    exact Option.some.inj (hp.symm.trans hq)

end Cells

end DataExpr
