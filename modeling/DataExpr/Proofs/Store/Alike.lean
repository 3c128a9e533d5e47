import DataExpr.Proofs.Entries.Related
import DataExpr.Proofs.Store.Unfold

/-!
# Values that stand for the same

`Cells.Alike v w`: the value `v` is good and `w` is its unfolding, up to the numbers of containers.
Cells in `v` stand for what `w` has in their place.  Read through cells, two such values have the same
shape (`Alike.cases`), and a container of such values is one (`Alike.list`, `Alike.map`).  These lemmas
are all that is needed to compare evaluations on both.
-/

namespace DataExpr.Cells

variable {cells : Cells} {v w : Value} {items ws : List Value} {es fs : Entries Value} {m n : Nat}

/-- The second value is the unfolding of the first one, up to the numbers of containers. -/
structure Alike (cells : Cells) (v w : Value) : Prop where
  good : cells.Good v
  cellFree : w.holdsCell = false
  content_eq : w.content = (cells.unfold v).content

theorem Good.alike_unfold (h : cells.Good v) : cells.Alike v (cells.unfold v) :=
  ⟨h, holdsCell_unfold h.not_cyclic, rfl⟩

/-! ### Making values that are alike -/

theorem good_of_forall₂ (h : List.Forall₂ cells.Alike items ws) : ∀ v ∈ items, cells.Good v :=
  ((List.forall₂_and_left _ _).1 (h.imp fun _ _ hvw => ⟨hvw.good, hvw⟩)).1

theorem cellFree_of_forall₂ (h : List.Forall₂ cells.Alike items ws) :
    ∀ w ∈ ws, w.holdsCell = false :=
  ((List.forall₂_and_left _ _).1 (h.flip.imp fun _ _ hvw => ⟨hvw.cellFree, hvw⟩)).1

theorem map_content_eq (h : List.Forall₂ cells.Alike items ws) :
    ws.map Value.content = (items.map cells.unfold).map Value.content := by
  induction h with
  | nil => rfl
  | cons hvw _ ih => rw [List.map_cons, List.map_cons, List.map_cons, hvw.content_eq, ih]

theorem Alike.list (h : List.Forall₂ cells.Alike items ws) :
    cells.Alike (.list m items) (.list n ws) := by
  refine ⟨.of_children (by simp) fun c hc => ?_, ?_, ?_⟩
  · obtain ⟨i, hi, -⟩ := Value.mem_children_list.1 hc
    exact good_of_forall₂ h c.1 (List.mem_of_getElem? hi)
  · rw [Value.holdsCell, Value.itemsHoldCell_eq_any, List.any_eq_false]
    exact fun w hw => by simp [cellFree_of_forall₂ h w hw]
  · rw [unfold_list, Value.content_list, Value.content_list, map_content_eq h]

theorem Alike.map (h : Entries.Related cells.Alike es fs) :
    cells.Alike (.map m es) (.map n fs) := by
  obtain ⟨hkeys, hvalues⟩ := Entries.related_iff.1 h
  refine ⟨.of_children (by simp) fun c hc => ?_, ?_, ?_⟩
  · obtain ⟨k, hk, -⟩ := Value.mem_children_map.1 hc
    exact good_of_forall₂ hvalues c.1 (List.mem_map.2 ⟨_, hk, rfl⟩)
  · rw [Value.holdsCell, Value.entriesHoldCell_eq_any, List.any_eq_false]
    exact fun f hf => by simp [cellFree_of_forall₂ hvalues f.2 (List.mem_map_of_mem hf)]
  · rw [unfold_map, Value.content_map, Value.content_map]
    refine congrArg (Value.map 0) (Entries.eq_of_keys_of_values ?_ ?_)
    · rw [Entries.keys_mapValues, Entries.keys_mapValues, Entries.keys_mapValues, hkeys]
    · rw [Entries.values_mapValues, Entries.values_mapValues, Entries.values_mapValues,
        map_content_eq hvalues]

/-- What is neither a container nor a cell stands for itself. -/
theorem Alike.leaf (hv : v.isContainer = false) (hne : ∀ id, v ≠ .cell id) : cells.Alike v v := by
  refine ⟨.leaf hv hne, ?_, ?_⟩
  · exact Value.holdsCell_eq_false_iff.2 ⟨hne, by simp [Value.children_eq_nil hv]⟩
  · cases v with
    | list node items => cases hv
    | map node entries => cases hv
    | cell id => exact absurd rfl (hne id)
    | _ => rfl

/-! ### Taking values that are alike apart -/

theorem Alike.resolve (h : cells.Alike v w) : cells.Alike (cells.resolve v) w :=
  ⟨h.good.resolve, h.cellFree, by rw [h.content_eq, h.good.unfold_resolve]⟩

theorem Alike.ne_cell (h : cells.Alike v w) (id : Nat) : w ≠ .cell id :=
  (Value.holdsCell_eq_false_iff.1 h.cellFree).1 id

theorem Alike.resolve_right (h : cells.Alike v w) : cells.resolve w = w :=
  cells.resolve_of_ne_cell h.ne_cell

theorem forall₂_of_map_content (hgood : ∀ v ∈ items, cells.Good v)
    (hfree : ∀ w ∈ ws, w.holdsCell = false)
    (h : ws.map Value.content = (items.map cells.unfold).map Value.content) :
    List.Forall₂ cells.Alike items ws := by
  induction items generalizing ws with
  | nil =>
    obtain rfl := List.map_eq_nil_iff.1 h
    exact .nil
  | cons v items ih =>
    obtain ⟨w, ws, rfl, hw, hws⟩ := List.map_eq_cons_iff.1 h
    rw [List.forall_mem_cons] at hgood hfree
    exact .cons ⟨hgood.1, hfree.1, hw⟩ (ih hgood.2 hfree.2 hws)

theorem Alike.of_list (h : cells.Alike (.list m items) w) :
    ∃ n ws, w = .list n ws ∧ List.Forall₂ cells.Alike items ws := by
  have hcontent := h.content_eq
  rw [unfold_list] at hcontent
  obtain ⟨n, ws, rfl, hws⟩ := Value.eq_list_of_content_eq hcontent
  have hgood : ∀ v ∈ items, cells.Good v := Value.forall_children_list.1 fun _ hc => h.good.child hc
  have hfree : ∀ w ∈ ws, w.holdsCell = false :=
    Value.forall_children_list.1 (Value.holdsCell_eq_false_iff.1 h.cellFree).2
  exact ⟨n, ws, rfl, forall₂_of_map_content hgood hfree hws⟩

theorem Alike.of_map (h : cells.Alike (.map m es) w) :
    ∃ n fs, w = .map n fs ∧ Entries.Related cells.Alike es fs := by
  have hcontent := h.content_eq
  rw [unfold_map] at hcontent
  obtain ⟨n, fs, rfl, hfs⟩ := Value.eq_map_of_content_eq hcontent
  have hkeys := congrArg Entries.keys hfs
  have hvalues := congrArg Entries.values hfs
  rw [Entries.keys_mapValues, Entries.keys_mapValues, Entries.keys_mapValues] at hkeys
  rw [Entries.values_mapValues, Entries.values_mapValues, Entries.values_mapValues] at hvalues
  have hgood := Value.forall_children_map (P := cells.Good).1 fun _ hc => h.good.child hc
  have hfree := Value.forall_children_map (P := fun w => w.holdsCell = false).1
    (Value.holdsCell_eq_false_iff.1 h.cellFree).2
  exact ⟨n, fs, rfl, Entries.related_iff.2 ⟨hkeys.symm,
    forall₂_of_map_content (List.forall_mem_map.2 hgood) (List.forall_mem_map.2 hfree) hvalues⟩⟩

theorem Alike.of_leaf (h : cells.Alike v w) (hv : v.isContainer = false)
    (hne : ∀ id, v ≠ .cell id) : w = v := by
  have hunfold : cells.unfold v = v := by
    cases v with
    | list node items => cases hv
    | map node entries => cases hv
    | cell id => exact absurd rfl (hne id)
    | _ => rfl
  exact Value.eq_of_content_eq hv (by rw [h.content_eq, hunfold])

/-- Values that are alike have the same shape behind their cells. -/
theorem Alike.cases (h : cells.Alike v w) :
    (∃ m n items ws, cells.resolve v = .list m items ∧ w = .list n ws ∧
      List.Forall₂ cells.Alike items ws) ∨
    (∃ m n es fs, cells.resolve v = .map m es ∧ w = .map n fs ∧
      Entries.Related cells.Alike es fs) ∨
    (cells.resolve v).isContainer = false ∧ w = cells.resolve v := by
  have hresolve := h.resolve
  cases hv : cells.resolve v with
  | list m items =>
    rw [hv] at hresolve
    obtain ⟨n, ws, rfl, hws⟩ := hresolve.of_list
    exact .inl ⟨m, n, items, ws, rfl, rfl, hws⟩
  | map m es =>
    rw [hv] at hresolve
    obtain ⟨n, fs, rfl, hfs⟩ := hresolve.of_map
    exact .inr (.inl ⟨m, n, es, fs, rfl, rfl, hfs⟩)
  | _ =>
    refine .inr (.inr ⟨rfl, ?_⟩)
    rw [← hv]
    exact hresolve.of_leaf (by rw [hv]; rfl) h.good.resolve_ne_cell

theorem Alike.isUndefined_eq (h : cells.Alike v w) : v.isUndefined = w.isUndefined := by
  by_cases hcell : ∃ id, v = .cell id
  · -- What is behind a cell is defined.
    obtain ⟨id, rfl⟩ := hcell
    have hdefined := h.good.defined .refl
    rcases h.cases with ⟨m, n, items, ws, -, rfl, -⟩ | ⟨m, n, es, fs, -, rfl, -⟩ | ⟨-, rfl⟩
    · rfl
    · rfl
    · cases hv : cells.resolve (.cell id) with
      | undefined => exact absurd hv hdefined
      | _ => rfl
  · have hv := cells.resolve_of_ne_cell (v := v) fun id hv => hcell ⟨id, hv⟩
    rcases h.cases with ⟨m, n, items, ws, hlist, rfl, -⟩ | ⟨m, n, es, fs, hmap, rfl, -⟩ | ⟨-, rfl⟩
    · rw [← hv, hlist]
      rfl
    · rw [← hv, hmap]
      rfl
    · rw [hv]

end DataExpr.Cells
