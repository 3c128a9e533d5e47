import DataExpr.Proofs.Value.EditAt
import Mathlib.Data.List.Nodup
import Mathlib.Data.List.Pairwise

/-!
# Leaves and numbers of containers

`Value.editLeaves p f v` is the value `v` with every leaf that passes the test `p` changed by `f`.
It is a recursion over `v`, so what `f` makes of a leaf is not looked into; `editAt_eq_editLeaves`
says that it is the edit at the places of these leaves, all at once.

`Value.nodes` are the numbers of the containers at all positions of a value.  If none occurs twice,
a container is at one position only (`path_eq_of_nodup_nodes`).  `Path.node?` is the number of the
container at a position; putting a value changes the numbers above it and no others.
-/

namespace DataExpr

namespace Value

variable {cells : Cells} {v a b c : Value} {p q : Path} {n : Nat}

/-- Whether the value is a list or a map. -/
def isContainer : Value → Bool
  | list .. | map .. => true
  | _ => false

/-- The number of a container. -/
def node? : Value → Option Nat
  | list node _ | map node _ => some node
  | _ => none

/-- What holds of all values that are no containers, of a list if it holds of its items, and of a map if
it holds of the values of its entries, holds of every value. -/
theorem parts_induction {P : Value → Prop}
    (list : ∀ node items, (∀ v ∈ items, P v) → P (list node items))
    (map : ∀ node entries, (∀ e ∈ entries, P e.2) → P (map node entries))
    (leaf : ∀ v, v.isContainer = false → P v) (v : Value) : P v := by
  induction v using children_induction with
  | _ v ih =>
    cases v with
    | list node items => exact list node items (forall_children_list.1 ih)
    | map node entries => exact map node entries (forall_children_map.1 ih)
    | _ => exact leaf _ rfl

theorem isSome_node? (v : Value) : v.node?.isSome = v.isContainer := by
  cases v <;> rfl

theorem node?_eq_none (h : v.isContainer = false) : v.node? = none := by
  rw [← isSome_node?] at h
  exact Option.not_isSome_iff_eq_none.1 (by simp [h])

theorem children_eq_nil (h : v.isContainer = false) : v.children = [] := by
  cases v with
  | list node items => cases h
  | map node entries => cases h
  | _ => rfl

/-- Below what is neither container nor cell there is nothing. -/
theorem eq_nil_of_get? (h : v.isContainer = false) (hv : ∀ id, v ≠ cell id)
    (hp : Path.get? cells p v = some a) : p = [] := by
  cases p with
  | nil => rfl
  | cons step rest =>
    obtain ⟨c, hc, -⟩ := Path.get?_cons_eq_some.1 hp
    have hmem := mem_children_of_child? (cells.resolve_of_ne_cell hv ▸ hc)
    rw [children_eq_nil h] at hmem
    cases hmem

theorem isContainer_content (v : Value) : v.content.isContainer = v.isContainer := by
  cases v <;> simp [content, isContainer]

/-- What is no container has no numbers, so its content is the value itself. -/
theorem content_eq_self (h : v.isContainer = false) : v.content = v := by
  cases v with
  | list node items => cases h
  | map node entries => cases h
  | _ => rfl

theorem eq_of_content_eq (h : v.isContainer = false) {w : Value} (hw : w.content = v.content) :
    w = v := by
  have hleaf : w.isContainer = false := by rw [← isContainer_content, hw, isContainer_content, h]
  rw [← content_eq_self hleaf, hw, content_eq_self h]

/-! ### Numbers -/

mutual

/-- The numbers of the containers at all positions of a value. -/
def nodes : Value → List Nat
  | list node items => node :: nodesOfItems items
  | map node entries => node :: nodesOfEntries entries
  | _ => []

/-- The numbers of the containers at all positions of the items of a list. -/
def nodesOfItems : List Value → List Nat
  | [] => []
  | v :: vs => nodes v ++ nodesOfItems vs

/-- The numbers of the containers at all positions of the values of a map. -/
def nodesOfEntries : List (String × Value) → List Nat
  | [] => []
  | (_, v) :: es => nodes v ++ nodesOfEntries es

end

theorem nodesOfItems_eq_flatMap (items : List Value) :
    nodesOfItems items = items.flatMap nodes := by
  induction items with
  | nil => rfl
  | cons v vs ih => rw [nodesOfItems, ih, List.flatMap_cons]

theorem nodesOfEntries_eq_flatMap (entries : List (String × Value)) :
    nodesOfEntries entries = entries.flatMap fun e => nodes e.2 := by
  induction entries with
  | nil => rfl
  | cons e es ih => rw [nodesOfEntries, ih, List.flatMap_cons]

/-- The number of a value itself comes before those below it. -/
theorem nodes_eq (v : Value) :
    v.nodes = v.node?.toList ++ v.children.flatMap fun c => c.1.nodes := by
  cases v with
  | list node items =>
    have hitems := List.flatMap_map Prod.fst nodes items.zipIdx
    rw [List.zipIdx_map_fst] at hitems
    rw [nodes, nodesOfItems_eq_flatMap, children, List.flatMap_map, hitems]
    rfl
  | map node entries =>
    rw [nodes, nodesOfEntries_eq_flatMap, children, List.flatMap_map]
    rfl
  | _ => rfl

theorem mem_nodes_of_node? (h : v.node? = some n) : n ∈ v.nodes := by
  rw [nodes_eq, h]
  exact List.mem_append_left _ (List.mem_singleton_self n)

theorem mem_nodes_of_child {c : Value × Step} (hc : c ∈ v.children) (h : n ∈ c.1.nodes) :
    n ∈ v.children.flatMap fun c => c.1.nodes :=
  List.mem_flatMap.2 ⟨c, hc, h⟩

/-- The numbers below a position are among those of the value. -/
theorem mem_nodes_of_get? (hv : v.Plain) (hp : Path.get? cells p v = some a) (h : n ∈ a.nodes) :
    n ∈ v.nodes := by
  induction p generalizing v with
  | nil => exact Option.some.inj hp ▸ h
  | cons step rest ih =>
    obtain ⟨c, hc, hp⟩ := Path.get?_cons_eq_some.1 hp
    rw [hv.resolve] at hc
    rw [nodes_eq]
    exact List.mem_append_right _ (mem_nodes_of_child (mem_children_of_child? hc)
      (ih (hv.child? hc) hp))

/-- A container that is below a position of a value has another number than the value itself. -/
theorem node?_ne_of_get?_cons {step : Step} {rest : Path} (hv : v.Plain) (hd : v.nodes.Nodup)
    (ha : v.node? = some n) (hb : Path.get? cells (step :: rest) v = some b) :
    b.node? ≠ some n := by
  intro hbn
  obtain ⟨c, hc, hb⟩ := Path.get?_cons_eq_some.1 hb
  rw [hv.resolve] at hc
  rw [nodes_eq, ha, Option.toList_some, List.singleton_append, List.nodup_cons] at hd
  exact hd.1 (mem_nodes_of_child (mem_children_of_child? hc)
    (mem_nodes_of_get? (hv.child? hc) hb (mem_nodes_of_node? hbn)))

/-- Where no number occurs twice, a container is at one position only. -/
theorem path_eq_of_nodup_nodes (hv : v.Plain) (hd : v.nodes.Nodup)
    (hp : Path.get? cells p v = some a) (hq : Path.get? cells q v = some b)
    (ha : a.node? = some n) (hb : b.node? = some n) : p = q := by
  induction p generalizing v q with
  | nil =>
    obtain rfl := Option.some.inj hp
    cases q with
    | nil => rfl
    | cons step rest => exact absurd hb (node?_ne_of_get?_cons hv hd ha hq)
  | cons step rest ih =>
    cases q with
    | nil =>
      obtain rfl := Option.some.inj hq
      exact absurd ha (node?_ne_of_get?_cons hv hd hb hp)
    | cons step' rest' =>
      obtain ⟨c, hc, hp⟩ := Path.get?_cons_eq_some.1 hp
      obtain ⟨c', hc', hq⟩ := Path.get?_cons_eq_some.1 hq
      rw [hv.resolve] at hc hc'
      rw [nodes_eq] at hd
      obtain ⟨hbelow, hapart⟩ := List.nodup_flatMap.1 (List.nodup_append.1 hd).2.1
      have hmem := mem_children_of_child? hc
      have hmem' := mem_children_of_child? hc'
      by_cases hstep : step = step'
      · subst hstep
        obtain rfl := Option.some.inj (hc.symm.trans hc')
        rw [ih (hv.child? hc) (hbelow _ hmem) hp hq]
      · -- Two children have no number in common.
        have hne : (c, step) ≠ (c', step') := fun h => hstep (congrArg Prod.snd h)
        have hsymm : Std.Symm (Function.onFun List.Disjoint fun c : Value × Step => c.1.nodes) :=
          ⟨fun _ _ h => List.disjoint_symm h⟩
        have hdisjoint := hapart.forall hmem hmem' hne
        exact absurd (mem_nodes_of_get? (hv.child? hc') hq (mem_nodes_of_node? hb))
          (hdisjoint (mem_nodes_of_get? (hv.child? hc) hp (mem_nodes_of_node? ha)))

theorem node?_withChild {step : Step} (h : v.child? step = some a) (node : Nat) (c : Value) :
    (v.withChild node step c).node? = some node := by
  unfold child? at h
  split at h
  · rfl
  · rfl
  · cases h

/-! ### Leaves -/

mutual

/-- The value with every leaf that passes the test changed by `f`. -/
def editLeaves (p : Value → Bool) (f : Value → Value) : Value → Value
  | list node items => list node (editLeavesOfItems p f items)
  | map node entries => map node (editLeavesOfEntries p f entries)
  | v => if p v then f v else v

/-- The items of a list with every leaf that passes the test changed by `f`. -/
def editLeavesOfItems (p : Value → Bool) (f : Value → Value) : List Value → List Value
  | [] => []
  | v :: vs => editLeaves p f v :: editLeavesOfItems p f vs

/-- The entries of a map with every leaf that passes the test changed by `f`. -/
def editLeavesOfEntries (p : Value → Bool) (f : Value → Value) :
    List (String × Value) → List (String × Value)
  | [] => []
  | (k, v) :: es => (k, editLeaves p f v) :: editLeavesOfEntries p f es

end

theorem editLeavesOfItems_eq_mapIdx (p : Value → Bool) (f : Value → Value) (items : List Value) :
    editLeavesOfItems p f items = items.mapIdx fun _ v => v.editLeaves p f := by
  induction items with
  | nil => rfl
  | cons v vs ih => rw [editLeavesOfItems, ih, List.mapIdx_cons]

theorem editLeavesOfEntries_eq_map (p : Value → Bool) (f : Value → Value)
    (entries : List (String × Value)) :
    editLeavesOfEntries p f entries = entries.map fun e => (e.1, e.2.editLeaves p f) := by
  induction entries with
  | nil => rfl
  | cons e es ih => rw [editLeavesOfEntries, ih, List.map_cons]

theorem editLeaves_eq (p : Value → Bool) (f : Value → Value) (v : Value) :
    v.editLeaves p f = if v.isContainer then v.mapChildren fun _ c => c.editLeaves p f
      else if p v then f v else v := by
  cases v with
  | list node items =>
    rw [editLeaves, editLeavesOfItems_eq_mapIdx, isContainer, if_pos rfl, mapChildren]
  | map node entries =>
    rw [editLeaves, editLeavesOfEntries_eq_map, isContainer, if_pos rfl, mapChildren]
  | _ => rfl

theorem mapChildren_congr {g g' : Step → Value → Value}
    (h : ∀ c ∈ v.children, g c.2 c.1 = g' c.2 c.1) : v.mapChildren g = v.mapChildren g' := by
  cases v with
  | list node items =>
    refine congrArg (list node) (List.ext_getElem? fun i => ?_)
    rw [List.getElem?_mapIdx, List.getElem?_mapIdx]
    cases hi : items[i]? with
    | none => rfl
    | some c => exact congrArg some (h (c, .index i) (mem_children_list.2 ⟨i, hi, rfl⟩))
  | map node entries =>
    refine congrArg (map node) (List.map_congr_left fun e he => ?_)
    exact Prod.ext rfl (h (e.2, .key e.1) (mem_children_map.2 ⟨e.1, he, rfl⟩))
  | _ => rfl

theorem isContainer_mapChildren (g : Step → Value → Value) (v : Value) :
    (v.mapChildren g).isContainer = v.isContainer := by
  cases v <;> rfl

/-- What is no container has no children to change. -/
theorem mapChildren_of_leaf (h : v.isContainer = false) (g : Step → Value → Value) :
    v.mapChildren g = v := by
  cases v with
  | list node items => cases h
  | map node entries => cases h
  | _ => rfl

/-- Changing leaves to themselves changes nothing. -/
theorem editLeaves_id (test : Value → Bool) (v : Value) : v.editLeaves test id = v := by
  induction v using children_induction with
  | _ v ih =>
    rw [editLeaves_eq, mapChildren_eq_self ih]
    split
    · rfl
    · split <;> rfl

/-- The edit at the places of all leaves that pass a test. -/
theorem editAt_eq_editLeaves (cells : Cells) {test : Value → Bool} {f : Value → Value}
    {places : Path → Bool} (hv : v.Plain)
    (hplaces : ∀ q, places q = true ↔
      ∃ x, Path.get? cells q v = some x ∧ x.isContainer = false ∧ test x = true) :
    v.editAt f places = v.editLeaves test f := by
  induction v using children_induction generalizing places with
  | _ v ih =>
    have hhere := hplaces []
    rw [Path.get?_nil] at hhere
    rw [editAt_eq, editLeaves_eq]
    cases hcontainer : v.isContainer with
    | true =>
      have hno : ¬ places [] = true := by
        intro h
        obtain ⟨x, hx, hleaf, -⟩ := hhere.1 h
        rw [← Option.some.inj hx, hcontainer] at hleaf
        cases hleaf
      rw [if_neg hno, if_pos rfl]
      refine mapChildren_congr fun c hc => ih c hc (hv.child hc) fun q => ?_
      rw [hplaces, Path.get?_cons, hv.resolve, hv.child?_of_mem hc, Option.bind_some]
    | false =>
      rw [if_neg Bool.false_ne_true, mapChildren_of_leaf hcontainer]
      have hiff : places [] = true ↔ test v = true := by
        rw [hhere]
        constructor
        · rintro ⟨x, hx, -, htest⟩
          rwa [Option.some.inj hx]
        · intro htest
          exact ⟨v, rfl, hcontainer, htest⟩
      simp only [hiff]

end Value

namespace Path

variable {cells : Cells} {root old : Value} {path : Path}

/-! ### The container at a path -/

/-- The number of the container at the end of a path. -/
def node? (cells : Cells) (path : Path) (root : Value) : Option Nat :=
  (get? cells path root).bind Value.node?

theorem node?_of_get? (h : get? cells path root = some old) :
    node? cells path root = old.node? := by
  rw [node?, h, Option.bind_some]

theorem node?_eq_some {n : Nat} :
    node? cells path root = some n ↔ ∃ v, get? cells path root = some v ∧ v.node? = some n :=
  Option.bind_eq_some_iff

/-- Putting something makes the containers above it anew, the lowest one first. -/
theorem node?_put_above {step : Step} {rest : Path}
    (h : get? cells (path ++ step :: rest) root = some old) (fresh : Nat) (new : Value) :
    node? cells path (put cells fresh (path ++ step :: rest) root new) =
      some (fresh + rest.length) := by
  induction path generalizing root with
  | nil =>
    obtain ⟨c, hc, -⟩ := get?_cons_eq_some.1 h
    rw [List.nil_append, put_cons hc, node?_of_get? (get?_nil _ _), Value.node?_withChild hc]
  | cons step' path ih =>
    obtain ⟨c, hc, h⟩ := get?_cons_eq_some.1 h
    rw [List.cons_append, put_cons hc, node?, get?_cons,
      cells.resolve_of_ne_cell (Value.withChild_ne_cell hc _ _), Value.child?_withChild hc,
      if_pos rfl, Option.bind_some, ← node?]
    exact ih h

/-- All other containers are the same as before. -/
theorem node?_put_of_ne (h : get? cells path root = some old) (fresh : Nat) (new : Value) {q : Path}
    (hp : ¬ path <+: q) (hq : ¬ q <+: path) :
    node? cells q (put cells fresh path root new) = node? cells q root := by
  rw [node?, get?_put_of_ne h fresh new hp hq, node?]

end Path

end DataExpr
