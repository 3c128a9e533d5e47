import DataExpr.Match
import DataExpr.Path
import Std.Data.HashMap

/-!
# Matchers that visit many places

`Matcher.spread` gives the children of the focus.  `Matcher.descend` gives all nodes of the focus, level
by level, the focus first.

The descent counts how often each container and each cell has been given, and a node that has been
given often enough is passed over together with everything below it.  This is what makes it end on
cyclic data: no matter what the cells hold when an item is asked for, either a cell has one visit less
left, or what is waiting in the queue has become smaller (`Walk.step_decreases`).
-/

namespace DataExpr

/-! ### Children -/

/-- The children of a container with the steps that lead to them. -/
def Value.children : Value → List (Value × Step)
  | .list _ items => items.zipIdx.map fun (v, i) => (v, .index i)
  | .map _ entries => entries.map fun (k, v) => (v, .key k)
  | _ => []

namespace Matcher

/-- The children of the focus. -/
def spread : Matcher := fun focus => do
  match ← Run.resolve focus with
  | .list _ items =>
    return .ofList (items.zipIdx.map fun (v, i) => ⟨v, fun new => newListWith items i new⟩)
  | .map _ entries =>
    return .ofList (entries.map fun (k, v) => ⟨v, fun new => newMapWith entries k new⟩)
  | _ => return .empty

end Matcher

/-! ### Descent -/

/-- A descent that is under way. -/
structure Walk where
  root : Value
  /-- How often each container and cell may be given. -/
  maxVisits : Nat
  /-- The number of cells that there are. -/
  cellCount : Nat
  /-- How often each container and cell has been given. -/
  visits : Std.HashMap Identity Nat
  /-- The nodes to come, each with its path, last step first. -/
  front : List (Value × List Step)
  /-- More nodes to come, the last one first. -/
  back : List (Value × List Step)

namespace Walk

/-- The descent from a value, before the first node. -/
def ofRoot (root : Value) (maxVisits cellCount : Nat) : Walk :=
  ⟨root, maxVisits, cellCount, ∅, [(root, [])], []⟩

/-- The nodes to come, in order. -/
def queue (w : Walk) : List (Value × List Step) := w.front ++ w.back.reverse

/-- The visits that a node has had. -/
def visitsOf (w : Walk) (id : Identity) : Nat := w.visits.getD id 0

/-- The next node to come and the descent without it. -/
def pop? (w : Walk) : Option ((Value × List Step) × Walk) :=
  match w.front with
  | entry :: front => some (entry, { w with front })
  | [] =>
    match w.back.reverse with
    | entry :: front => some (entry, { w with front, back := [] })
    | [] => none

/-- The descent after one more visit to the node, unless it has had all its visits. -/
def admit? (w : Walk) (node : Value) : Option Walk :=
  match node.identity? with
  | none => if 0 < w.maxVisits then some w else none
  | some id =>
    if w.visitsOf id < w.maxVisits then
      some { w with visits := w.visits.insert id (w.visitsOf id + 1) }
    else none

/-- The children of a node, read through the cells that there are. -/
def childrenOf (w : Walk) (cells : Cells) (node : Value) : List (Value × Step) :=
  match node with
  | .cell id => if id < w.cellCount then (cells.resolve node).children else []
  | _ => node.children

/-- The descent with more nodes to come. -/
def enqueue (w : Walk) (entries : List (Value × List Step)) : Walk :=
  { w with back := entries.reverseAux w.back }

/-! ### The descent ends -/

mutual

/-- The number of nodes of a value, cells being leaves. -/
def weight : Value → Nat
  | .list _ items => 1 + weightOfItems items
  | .map _ entries => 1 + weightOfEntries entries
  | _ => 1

/-- The number of nodes of all values of a list. -/
def weightOfItems : List Value → Nat
  | [] => 0
  | v :: vs => weight v + weightOfItems vs

/-- The number of nodes of all values of a map. -/
def weightOfEntries : List (String × Value) → Nat
  | [] => 0
  | (_, v) :: es => weight v + weightOfEntries es

end

/-- The sum of what `f` gives for the members of a list. -/
def total {α : Type} (f : α → Nat) : List α → Nat
  | [] => 0
  | a :: as => f a + total f as

/-- The number of nodes that are waiting, each with what is below it. -/
def queueWeight (w : Walk) : Nat := total (weight ·.1) w.queue

/-- The visits that cells have left. -/
def cellVisitsLeft (w : Walk) : Nat :=
  total (fun i => w.maxVisits - w.visitsOf (.cell i)) (List.range w.cellCount)

theorem total_append {α : Type} (f : α → Nat) (as bs : List α) :
    total f (as ++ bs) = total f as + total f bs := by
  induction as with
  | nil => simp [total]
  | cons a as ih => simp only [List.cons_append, total, ih, Nat.add_assoc]

theorem total_map {α β : Type} (f : β → Nat) (g : α → β) (as : List α) :
    total f (as.map g) = total (fun a => f (g a)) as := by
  induction as with
  | nil => rfl
  | cons a as ih => simp only [List.map_cons, total, ih]

/-- A sum of pointwise smaller terms is no larger. -/
theorem total_le {α : Type} {f g : α → Nat} (hle : ∀ a, f a ≤ g a) (as : List α) :
    total f as ≤ total g as := by
  induction as with
  | nil => exact Nat.le_refl _
  | cons a as ih => exact Nat.add_le_add (hle a) ih

/-- A sum of pointwise smaller terms is smaller if one of them is. -/
theorem total_lt {α : Type} {f g : α → Nat} (hle : ∀ a, f a ≤ g a) {as : List α} {b : α}
    (hb : b ∈ as) (hlt : f b < g b) : total f as < total g as := by
  induction as with
  | nil => exact absurd hb List.not_mem_nil
  | cons a as ih =>
    rcases List.mem_cons.1 hb with rfl | hb
    · exact Nat.add_lt_add_of_lt_of_le hlt (total_le hle as)
    · exact Nat.add_lt_add_of_le_of_lt (hle a) (ih hb)

theorem weight_pos (v : Value) : 0 < weight v := by
  unfold weight
  split <;> omega

theorem weightOfItems_eq (items : List Value) : weightOfItems items = total weight items := by
  induction items with
  | nil => rfl
  | cons v vs ih => rw [weightOfItems, ih, total]

theorem weightOfEntries_eq (entries : List (String × Value)) :
    weightOfEntries entries = total (weight ·.2) entries := by
  induction entries with
  | nil => rfl
  | cons e es ih => rw [weightOfEntries, ih, total]

/-- A node that is no cell has more nodes than its children have together. -/
theorem weight_children_lt (v : Value) : total (weight ·.1) v.children < weight v := by
  cases v with
  | list node items =>
    have h : total (fun c : Value × Nat => weight c.1) items.zipIdx = total weight items := by
      rw [← total_map weight Prod.fst, List.zipIdx_map_fst]
    rw [Value.children, total_map, weight, weightOfItems_eq, ← h]
    exact Nat.lt_add_of_pos_left Nat.one_pos
  | map node entries =>
    rw [Value.children, total_map, weight, weightOfEntries_eq]
    exact Nat.lt_add_of_pos_left Nat.one_pos
  | _ => exact weight_pos _

theorem queue_of_pop? {w w' : Walk} {entry : Value × List Step} (h : w.pop? = some (entry, w')) :
    w.queue = entry :: w'.queue ∧ w'.visits = w.visits ∧ w'.maxVisits = w.maxVisits ∧
      w'.cellCount = w.cellCount := by
  unfold pop? at h
  split at h
  · rename_i e front hf
    simp only [Option.some.injEq, Prod.mk.injEq] at h
    obtain ⟨rfl, rfl⟩ := h
    simp [queue, hf]
  · rename_i hf
    split at h
    · rename_i e front hb
      simp only [Option.some.injEq, Prod.mk.injEq] at h
      obtain ⟨rfl, rfl⟩ := h
      simp [queue, hf, hb]
    · simp at h

theorem queue_enqueue (w : Walk) (entries : List (Value × List Step)) :
    (w.enqueue entries).queue = w.queue ++ entries := by
  simp [queue, enqueue]

/-- The descent after a node has been given: its children wait at the end of the queue. -/
def visit (w : Walk) (cells : Cells) (entry : Value × List Step) : Walk :=
  w.enqueue ((w.childrenOf cells entry.1).map fun (v, step) => (v, step :: entry.2))

/-- Taking a node out of the queue changes nothing but the queue. -/
theorem cellVisitsLeft_of_pop? {w popped : Walk} {entry : Value × List Step}
    (hpop : w.pop? = some (entry, popped)) : popped.cellVisitsLeft = w.cellVisitsLeft := by
  obtain ⟨-, hv, hm, hc⟩ := queue_of_pop? hpop
  simp only [cellVisitsLeft, visitsOf, hv, hm, hc]

theorem queueWeight_of_pop? {w popped : Walk} {entry : Value × List Step}
    (hpop : w.pop? = some (entry, popped)) :
    w.queueWeight = weight entry.1 + popped.queueWeight := by
  rw [queueWeight, (queue_of_pop? hpop).1, total, queueWeight]

/-- A node without identity has no visits to be counted; for any other one visit is counted. -/
theorem admit?_eq_some {w admitted : Walk} {node : Value} (h : w.admit? node = some admitted) :
    node.identity? = none ∧ admitted = w ∨
      ∃ id, node.identity? = some id ∧ w.visitsOf id < w.maxVisits ∧
        admitted = { w with visits := w.visits.insert id (w.visitsOf id + 1) } := by
  unfold admit? at h
  split at h
  · rename_i hid
    split at h
    · exact .inl ⟨hid, (Option.some.inj h).symm⟩
    · cases h
  · rename_i id hid
    split at h
    · rename_i hlt
      exact .inr ⟨id, hid, hlt, (Option.some.inj h).symm⟩
    · cases h

theorem queueWeight_admit? {w admitted : Walk} {node : Value} (h : w.admit? node = some admitted) :
    admitted.queueWeight = w.queueWeight := by
  obtain ⟨-, rfl⟩ | ⟨id, -, -, rfl⟩ := admit?_eq_some h <;> rfl

/-- One more visit to `id` leaves no node more visits than it had left before. -/
theorem visitsLeft_insert_le (w : Walk) (id : Identity) (i : Nat) :
    w.maxVisits - (w.visits.insert id (w.visitsOf id + 1)).getD (.cell i) 0 ≤
      w.maxVisits - w.visitsOf (.cell i) := by
  rw [Std.HashMap.getD_insert]
  split
  · rename_i heq
    obtain rfl := eq_of_beq heq
    omega
  · exact Nat.le_refl _

theorem cellVisitsLeft_admit?_le {w admitted : Walk} {node : Value}
    (h : w.admit? node = some admitted) : admitted.cellVisitsLeft ≤ w.cellVisitsLeft := by
  obtain ⟨-, rfl⟩ | ⟨id, -, -, rfl⟩ := admit?_eq_some h
  · exact Nat.le_refl _
  · exact total_le (visitsLeft_insert_le w id) _

/-- A cell that is given has one visit less left. -/
theorem cellVisitsLeft_admit?_lt {w admitted : Walk} {i : Nat}
    (h : w.admit? (.cell i) = some admitted) (hi : i < w.cellCount) :
    admitted.cellVisitsLeft < w.cellVisitsLeft := by
  obtain ⟨hid, -⟩ | ⟨id, hid, hlt, rfl⟩ := admit?_eq_some h
  · cases hid
  · cases hid
    refine total_lt (visitsLeft_insert_le w (.cell i)) (List.mem_range.2 hi) ?_
    rw [Std.HashMap.getD_insert, if_pos (beq_self_eq_true _)]
    omega

/-- Only a cell of the store can have as many nodes below it as it stands for itself. -/
theorem weight_childrenOf_lt (w : Walk) (cells : Cells) {node : Value}
    (h : ∀ i, node = .cell i → w.cellCount ≤ i) :
    total (weight ·.1) (w.childrenOf cells node) < weight node := by
  unfold childrenOf
  split
  · rename_i i
    rw [if_neg (Nat.not_lt.2 (h i rfl))]
    exact weight_pos _
  · exact weight_children_lt _

/-- Either a cell has one visit less left, or what is waiting has become smaller. -/
theorem step_decreases {w popped admitted : Walk} {entry : Value × List Step}
    (hpop : w.pop? = some (entry, popped)) (hgiven : popped.admit? entry.1 = some admitted)
    (cells : Cells) :
    Prod.Lex (· < ·) (· < ·)
      ((admitted.visit cells entry).cellVisitsLeft, (admitted.visit cells entry).queueWeight)
      (w.cellVisitsLeft, w.queueWeight) := by
  have hleft : (admitted.visit cells entry).cellVisitsLeft = admitted.cellVisitsLeft := rfl
  rw [hleft, ← cellVisitsLeft_of_pop? hpop]
  rcases Nat.lt_or_eq_of_le (cellVisitsLeft_admit?_le hgiven) with hlt | heq
  · exact .left _ _ hlt
  · -- No cell has lost a visit, so the node is none of the cells and has less below it than it counts.
    have hcell : ∀ i, entry.1 = .cell i → admitted.cellCount ≤ i := by
      intro i hi
      rw [hi] at hgiven
      have hcount : admitted.cellCount = popped.cellCount := by
        obtain ⟨-, rfl⟩ | ⟨id, -, -, rfl⟩ := admit?_eq_some hgiven <;> rfl
      rw [hcount]
      exact Nat.le_of_not_lt fun hlt => Nat.ne_of_lt (cellVisitsLeft_admit?_lt hgiven hlt) heq
    have hbelow := admitted.weight_childrenOf_lt cells hcell
    have hvisit : (admitted.visit cells entry).queueWeight =
        admitted.queueWeight + total (weight ·.1) (admitted.childrenOf cells entry.1) := by
      rw [queueWeight, visit, queue_enqueue, total_append, total_map, queueWeight]
    rw [heq, hvisit, queueWeight_admit? hgiven, queueWeight_of_pop? hpop]
    exact .right _ (by omega)

/-- Passing over a node makes what is waiting smaller. -/
theorem pop_decreases {w popped : Walk} {entry : Value × List Step}
    (hpop : w.pop? = some (entry, popped)) :
    Prod.Lex (· < ·) (· < ·)
      (popped.cellVisitsLeft, popped.queueWeight) (w.cellVisitsLeft, w.queueWeight) := by
  have hpos := weight_pos entry.1
  rw [cellVisitsLeft_of_pop? hpop, queueWeight_of_pop? hpop]
  exact .right _ (by omega)

/-- The next node that may be given, and what comes after it.  Its children are read at this point. -/
def pull (w : Walk) (cells : Cells) (session : Session) : Findings.Pull Match :=
  match _hpop : w.pop? with
  | none => .done session
  | some (entry, popped) =>
    match _hgiven : popped.admit? entry.1 with
    | none => popped.pull cells session
    | some admitted =>
      .found (.ok ⟨entry.1, Path.set entry.2.reverse w.root⟩)
        ⟨fun cells' session' => (admitted.visit cells entry).pull cells' session'⟩ session
termination_by (w.cellVisitsLeft, w.queueWeight)
decreasing_by
  · exact pop_decreases _hpop
  · exact step_decreases _hpop _hgiven cells

end Walk

namespace Matcher

/-- All nodes of the focus, level by level; each container and cell is given at most `maxVisits`
times. -/
def descend (maxVisits : Nat) : Matcher := fun focus => do
  let walk := Walk.ofRoot focus maxVisits (← read).contents.size
  return ⟨walk.pull⟩

end Matcher

end DataExpr
