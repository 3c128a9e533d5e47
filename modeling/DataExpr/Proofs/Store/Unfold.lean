import DataExpr.Proofs.Store.Reach
import DataExpr.Proofs.Value.Leaves
import Mathlib.Data.Finset.Range
import Mathlib.Data.Finset.Card

/-!
# Values without their cells

`Cells.unfold v` is `v` with every cell replaced by its contents, at all depths.  That is meant for
values from which following cells never leads into a circle (`Cells.Cyclic`).  The unfolding goes as many
cells deep as there are cells, and one more: the cells on a way down are different, since each of them
holds fewer cells than the one before it (`rank_lt`).  So the unfolding holds no cell
(`holdsCell_unfold`), and a cell has the unfolding of its contents (`unfold_cell`).

A value is good (`Cells.Good`) if besides no chain of cells ends badly.
-/

namespace DataExpr

namespace Value

/-! ### Replacing cells -/

mutual

/-- The value with another value in the place of every cell. -/
def fillCells (g : Nat → Value) : Value → Value
  | list node items => list node (fillCellsOfItems g items)
  | map node entries => map node (fillCellsOfEntries g entries)
  | cell id => g id
  | v => v

/-- The items of a list with another value in the place of every cell. -/
def fillCellsOfItems (g : Nat → Value) : List Value → List Value
  | [] => []
  | v :: vs => fillCells g v :: fillCellsOfItems g vs

/-- The entries of a map with another value in the place of every cell. -/
def fillCellsOfEntries (g : Nat → Value) : List (String × Value) → List (String × Value)
  | [] => []
  | (k, v) :: es => (k, fillCells g v) :: fillCellsOfEntries g es

end

variable {g g' : Nat → Value}

@[simp] theorem fillCells_list (g : Nat → Value) (node : Nat) (items : List Value) :
    (list node items).fillCells g = list node (items.map (fillCells g)) := by
  rw [fillCells]
  congr 1
  induction items with
  | nil => rfl
  | cons v vs ih => rw [fillCellsOfItems, ih, List.map_cons]

@[simp] theorem fillCells_map (g : Nat → Value) (node : Nat) (entries : List (String × Value)) :
    (map node entries).fillCells g = map node (Entries.mapValues (fillCells g) entries) := by
  rw [fillCells]
  congr 1
  induction entries with
  | nil => rfl
  | cons e es ih => rw [fillCellsOfEntries, ih, Entries.mapValues_cons]

@[simp] theorem fillCells_cell (g : Nat → Value) (id : Nat) : (cell id).fillCells g = g id := rfl

end Value

namespace Cells

variable {cells : Cells} {v w x : Value} {id : Nat}

/-! ### What is within a value -/

/-- The second value is in the first one, or in the contents of a cell that is, and so on. -/
inductive Within (cells : Cells) : Value → Value → Prop where
  | refl {v : Value} : Within cells v v
  | child {v x : Value} {c : Value × Step} (hc : c ∈ v.children) (h : Within cells c.1 x) :
    Within cells v x
  | contents {id : Nat} {x : Value} (h : Within cells (cells.read id) x) :
    Within cells (.cell id) x

theorem Within.trans (h : cells.Within v w) (hw : cells.Within w x) : cells.Within v x := by
  induction h with
  | refl => exact hw
  | child hc _ ih => exact .child hc (ih hw)
  | contents _ ih => exact .contents (ih hw)

/-- Whether there is a cell within the value that is within its own contents. -/
def Cyclic (cells : Cells) (v : Value) : Prop :=
  ∃ id, cells.Within v (.cell id) ∧ cells.Within (cells.read id) (.cell id)

theorem not_cyclic_within (h : ¬ cells.Cyclic v) (hw : cells.Within v w) : ¬ cells.Cyclic w :=
  fun ⟨id, hid, hcyclic⟩ => h ⟨id, hw.trans hid, hcyclic⟩

/-- Following cells from the value never leads into a circle, and behind every cell, if at most
`Cells.reach` of them are followed, there is something that is neither a cell nor undefined. -/
structure Good (cells : Cells) (v : Value) : Prop where
  acyclic : ∀ {id}, cells.Within v (.cell id) → ¬ cells.Within (cells.read id) (.cell id)
  shallow : ∀ {id}, cells.Within v (.cell id) → ∀ id', cells.resolve (.cell id) ≠ .cell id'
  defined : ∀ {id}, cells.Within v (.cell id) → cells.resolve (.cell id) ≠ .undefined

theorem Good.not_cyclic (h : cells.Good v) : ¬ cells.Cyclic v :=
  fun ⟨_, hid, hcyclic⟩ => h.acyclic hid hcyclic

theorem Good.within (h : cells.Good v) (hw : cells.Within v w) : cells.Good w :=
  ⟨fun hid => h.acyclic (hw.trans hid), fun hid => h.shallow (hw.trans hid),
    fun hid => h.defined (hw.trans hid)⟩

theorem Good.child (h : cells.Good v) {c : Value × Step} (hc : c ∈ v.children) : cells.Good c.1 :=
  h.within (.child hc .refl)

theorem Good.contents (h : cells.Good (.cell id)) : cells.Good (cells.read id) :=
  h.within (.contents .refl)

/-- A cell within a value that is no cell is within one of its children. -/
theorem Within.exists_child (h : cells.Within v (.cell id)) (hv : ∀ id, v ≠ .cell id) :
    ∃ c ∈ v.children, cells.Within c.1 (.cell id) := by
  cases h with
  | refl => exact absurd rfl (hv id)
  | child hc hid => exact ⟨_, hc, hid⟩
  | contents _ => exact absurd rfl (hv _)

/-- A value that is no cell is good if its children are. -/
theorem Good.of_children (hv : ∀ id, v ≠ .cell id) (h : ∀ c ∈ v.children, cells.Good c.1) :
    cells.Good v := by
  constructor
  · intro id hid
    obtain ⟨c, hc, hid⟩ := hid.exists_child hv
    exact (h c hc).acyclic hid
  · intro id hid
    obtain ⟨c, hc, hid⟩ := hid.exists_child hv
    exact (h c hc).shallow hid
  · intro id hid
    obtain ⟨c, hc, hid⟩ := hid.exists_child hv
    exact (h c hc).defined hid

/-- There is no cell within a value that is neither a container nor a cell. -/
theorem not_within_leaf (hv : v.isContainer = false) (hne : ∀ id, v ≠ .cell id) :
    ¬ cells.Within v (.cell id) := by
  intro h
  obtain ⟨c, hc, -⟩ := h.exists_child hne
  rw [Value.children_eq_nil hv] at hc
  cases hc

theorem Good.leaf (hv : v.isContainer = false) (hne : ∀ id, v ≠ .cell id) : cells.Good v :=
  .of_children hne (by simp [Value.children_eq_nil hv])

/-- A cell is good if its contents are, it is not within them, and it does not end a chain badly. -/
theorem Good.cell (h : cells.Good (cells.read id))
    (hacyclic : ¬ cells.Within (cells.read id) (.cell id))
    (hshallow : ∀ id', cells.resolve (.cell id) ≠ .cell id')
    (hdefined : cells.resolve (.cell id) ≠ .undefined) : cells.Good (.cell id) := by
  constructor
  · intro id' hid
    cases hid with
    | refl => exact hacyclic
    | child hc _ => cases hc
    | contents hid => exact h.acyclic hid
  · intro id' hid
    cases hid with
    | refl => exact hshallow
    | child hc _ => cases hc
    | contents hid => exact h.shallow hid
  · intro id' hid
    cases hid with
    | refl => exact hdefined
    | child hc _ => cases hc
    | contents hid => exact h.defined hid

/-! ### How deep cells are nested -/

open Classical in
/-- How many cells can be on a way down from the contents of a cell, at most; nothing is in a cell that
the store does not have. -/
noncomputable def rank (cells : Cells) (id : Nat) : Nat :=
  if id < cells.contents.size then
    1 + ((Finset.range cells.contents.size).filter fun j =>
      cells.Within (cells.read id) (.cell j)).card
  else 0

/-- The store has a cell in which there is another one. -/
theorem lt_size_of_within {j : Nat} (h : cells.Within (cells.read id) (.cell j)) :
    id < cells.contents.size := by
  by_contra hid
  rw [read_of_size_le (Nat.le_of_not_lt hid)] at h
  cases h with
  | child hc _ => cases hc

open Classical in
theorem rank_le (h : ¬ cells.Cyclic (.cell id)) : cells.rank id ≤ cells.contents.size := by
  unfold rank
  split
  · rename_i hid
    -- The cell itself is not among those in its contents.
    have hlt : ((Finset.range cells.contents.size).filter fun j =>
        cells.Within (cells.read id) (.cell j)) ⊂ Finset.range cells.contents.size :=
      Finset.filter_ssubset.2 ⟨id, Finset.mem_range.2 hid, fun hcyclic => h ⟨id, .refl, hcyclic⟩⟩
    have := Finset.card_lt_card hlt
    rw [Finset.card_range] at this
    omega
  · exact Nat.zero_le _

open Classical in
/-- Cells are nested less deep in a cell that is in the contents of another one. -/
theorem rank_lt (h : ¬ cells.Cyclic (.cell id)) {j : Nat}
    (hj : cells.Within (cells.read id) (.cell j)) : cells.rank j < cells.rank id := by
  rw [rank, rank, if_pos (lt_size_of_within hj)]
  split
  · rename_i hsize
    -- What is in the contents of the inner cell is in those of the outer one, and the inner cell is
    -- in the latter only.
    have hlt : ((Finset.range cells.contents.size).filter fun i =>
        cells.Within (cells.read j) (.cell i)) ⊂
        (Finset.range cells.contents.size).filter fun i =>
          cells.Within (cells.read id) (.cell i) := by
      refine Finset.ssubset_iff_subset_ne.2 ⟨fun i hi => ?_, fun heq => ?_⟩
      · rw [Finset.mem_filter] at hi ⊢
        exact ⟨hi.1, hj.trans (.contents hi.2)⟩
      · have hmem : j ∈ (Finset.range cells.contents.size).filter fun i =>
            cells.Within (cells.read id) (.cell i) :=
          Finset.mem_filter.2 ⟨Finset.mem_range.2 hsize, hj⟩
        rw [← heq, Finset.mem_filter] at hmem
        exact h ⟨j, .contents hj, hmem.2⟩
    have := Finset.card_lt_card hlt
    omega
  · omega

/-! ### Unfolding -/

/-- The contents of a cell, where cells that are nested at most that deep are replaced by theirs. -/
def contentsWithin (cells : Cells) : Nat → Nat → Value
  | 0, id => .cell id
  | n + 1, id => (cells.read id).fillCells (cells.contentsWithin n)

/-- The value with every cell replaced by its contents, at all depths. -/
def unfold (cells : Cells) (v : Value) : Value :=
  v.fillCells (cells.contentsWithin (cells.contents.size + 1))

@[simp] theorem unfold_list (cells : Cells) (node : Nat) (items : List Value) :
    cells.unfold (.list node items) = .list node (items.map cells.unfold) :=
  Value.fillCells_list _ node items

@[simp] theorem unfold_map (cells : Cells) (node : Nat) (entries : List (String × Value)) :
    cells.unfold (.map node entries) = .map node (Entries.mapValues cells.unfold entries) :=
  Value.fillCells_map _ node entries

theorem fillCells_congr (cells : Cells) {g g' : Nat → Value}
    (h : ∀ id, cells.Within v (.cell id) → g id = g' id) : v.fillCells g = v.fillCells g' := by
  induction v using Value.children_induction with
  | _ v ih =>
    have ih' := fun c hc => ih c hc fun id hid => h id (.child hc hid)
    cases v with
    | list node items =>
      have hitems : ∀ v ∈ items, v.fillCells g = v.fillCells g' := Value.forall_children_list.1 ih'
      rw [Value.fillCells_list, Value.fillCells_list, List.map_congr_left hitems]
    | map node entries =>
      have hentries := Value.forall_children_map (P := fun v => v.fillCells g = v.fillCells g').1 ih'
      rw [Value.fillCells_map, Value.fillCells_map]
      refine congrArg (Value.map node) (List.map_congr_left fun e he => ?_)
      exact congrArg (e.1, ·) (hentries e he)
    | cell id => exact h id .refl
    | _ => rfl

theorem holdsCell_fillCells (cells : Cells) {g : Nat → Value}
    (h : ∀ id, cells.Within v (.cell id) → (g id).holdsCell = false) :
    (v.fillCells g).holdsCell = false := by
  induction v using Value.children_induction with
  | _ v ih =>
    have ih' := fun c hc => ih c hc fun id hid => h id (.child hc hid)
    cases v with
    | list node items =>
      have hitems := Value.forall_children_list (P := fun v => (v.fillCells g).holdsCell = false).1 ih'
      rw [Value.fillCells_list, Value.holdsCell_eq_false_iff]
      exact ⟨nofun, Value.forall_children_list (P := fun v => v.holdsCell = false).2
        (List.forall_mem_map.2 hitems)⟩
    | map node entries =>
      have hentries := Value.forall_children_map (P := fun v => (v.fillCells g).holdsCell = false).1 ih'
      rw [Value.fillCells_map, Value.holdsCell_eq_false_iff]
      exact ⟨nofun, Value.forall_children_map (P := fun v => v.holdsCell = false).2
        (List.forall_mem_map.2 hentries)⟩
    | cell id => exact h id .refl
    | _ => rfl

/-- Going deeper than cells are nested changes nothing. -/
theorem contentsWithin_eq (h : ¬ cells.Cyclic (.cell id)) {m n : Nat} (hm : cells.rank id < m)
    (hn : cells.rank id < n) : cells.contentsWithin m id = cells.contentsWithin n id := by
  induction m generalizing id n with
  | zero => exact absurd hm (Nat.not_lt_zero _)
  | succ m ih =>
    cases n with
    | zero => exact absurd hn (Nat.not_lt_zero _)
    | succ n =>
      refine fillCells_congr cells fun j hj => ?_
      have hlt := rank_lt h hj
      exact ih (not_cyclic_within h (.contents hj)) (by omega) (by omega)

theorem holdsCell_contentsWithin (h : ¬ cells.Cyclic (.cell id)) {n : Nat}
    (hn : cells.rank id < n) : (cells.contentsWithin n id).holdsCell = false := by
  induction n generalizing id with
  | zero => exact absurd hn (Nat.not_lt_zero _)
  | succ n ih =>
    refine holdsCell_fillCells cells fun j hj => ?_
    have hlt := rank_lt h hj
    exact ih (not_cyclic_within h (.contents hj)) (by omega)

/-- The unfolding of a value holds no cell. -/
theorem holdsCell_unfold (h : ¬ cells.Cyclic v) : (cells.unfold v).holdsCell = false := by
  refine holdsCell_fillCells cells fun id hid => ?_
  have hid' := not_cyclic_within h hid
  exact holdsCell_contentsWithin hid' (Nat.lt_succ_of_le (rank_le hid'))

/-- A cell has the unfolding of its contents. -/
theorem unfold_cell (h : ¬ cells.Cyclic (.cell id)) :
    cells.unfold (.cell id) = cells.unfold (cells.read id) := by
  show (cells.read id).fillCells _ = (cells.read id).fillCells _
  refine fillCells_congr cells fun j hj => ?_
  have hlt := rank_lt h hj
  have hle := rank_le h
  exact contentsWithin_eq (not_cyclic_within h (.contents hj)) (by omega) (by omega)

theorem Good.follow (h : cells.Good v) (n : Nat) :
    cells.Good (cells.follow n v) ∧ cells.unfold (cells.follow n v) = cells.unfold v := by
  induction n generalizing v with
  | zero => exact ⟨h, rfl⟩
  | succ n ih =>
    cases v with
    | cell id =>
      obtain ⟨hgood, hunfold⟩ := ih h.contents
      exact ⟨hgood, hunfold.trans (unfold_cell h.not_cyclic).symm⟩
    | _ => exact ⟨h, rfl⟩

theorem Good.resolve (h : cells.Good v) : cells.Good (cells.resolve v) := (h.follow reach).1

/-- A value has the unfolding of what is behind its cells. -/
theorem Good.unfold_resolve (h : cells.Good v) :
    cells.unfold (cells.resolve v) = cells.unfold v :=
  (h.follow reach).2

/-- What is behind the cells of a good value is no cell. -/
theorem Good.resolve_ne_cell (h : cells.Good v) (id : Nat) : cells.resolve v ≠ .cell id := by
  cases v with
  | cell id' => exact h.shallow .refl id
  | _ =>
    rw [cells.resolve_of_ne_cell (by simp)]
    simp

end Cells

end DataExpr
