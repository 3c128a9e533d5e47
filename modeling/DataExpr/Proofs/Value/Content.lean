import DataExpr.Pattern
import DataExpr.Proofs.Entries

/-!
# Content and well-formedness of values

`Value.content` sets the numbers of all containers of a value to zero.  Two values with one content
have the same constructors, payloads and keys in the same order; what they may differ in is which
container is which.  This is the identity of values that rebuilding a focus can hope for, since every
container on the way to a replaced place is a new one.

`Value.WellFormed` says that no key occurs twice in any map of a value, and `Value.Plain` that there
is no cell in it either.  All of these look at a value through its children (`Value.children`), and
`Value.children_induction` is induction along them.
-/

namespace DataExpr

namespace Value

/-! ### Children -/

/-- The child that a step leads to. -/
def child? : Value → Step → Option Value
  | list _ items, .index i => items[i]?
  | map _ entries, .key k => Entries.get? entries k
  | _, _ => none

@[simp] theorem child?_list (node : Nat) (items : List Value) (i : Nat) :
    (list node items).child? (.index i) = items[i]? := rfl

@[simp] theorem child?_map (node : Nat) (entries : List (String × Value)) (k : String) :
    (map node entries).child? (.key k) = Entries.get? entries k := rfl

theorem mem_children_list {node : Nat} {items : List Value} {c : Value × Step} :
    c ∈ (list node items).children ↔ ∃ i, items[i]? = some c.1 ∧ c.2 = .index i := by
  obtain ⟨v, step⟩ := c
  simp only [children, List.mem_map, Prod.exists, Prod.mk.injEq, List.mem_zipIdx_iff_getElem?]
  constructor
  · rintro ⟨v', i, hi, rfl, rfl⟩
    exact ⟨i, hi, rfl⟩
  · rintro ⟨i, hi, rfl⟩
    exact ⟨v, i, hi, rfl, rfl⟩

theorem mem_children_map {node : Nat} {entries : List (String × Value)} {c : Value × Step} :
    c ∈ (map node entries).children ↔ ∃ k, (k, c.1) ∈ entries ∧ c.2 = .key k := by
  obtain ⟨v, step⟩ := c
  simp only [children, List.mem_map, Prod.exists, Prod.mk.injEq]
  constructor
  · rintro ⟨k, v', h, rfl, rfl⟩
    exact ⟨k, h, rfl⟩
  · rintro ⟨k, h, rfl⟩
    exact ⟨k, v, h, rfl, rfl⟩

/-- The children of a list are its items. -/
theorem forall_children_list {P : Value → Prop} {node : Nat} {items : List Value} :
    (∀ c ∈ (list node items).children, P c.1) ↔ ∀ v ∈ items, P v := by
  constructor
  · intro h v hv
    obtain ⟨i, hi⟩ := List.getElem?_of_mem hv
    exact h (v, .index i) (mem_children_list.2 ⟨i, hi, rfl⟩)
  · intro h c hc
    obtain ⟨i, hi, -⟩ := mem_children_list.1 hc
    exact h c.1 (List.mem_of_getElem? hi)

/-- The children of a map are the values of its entries. -/
theorem forall_children_map {P : Value → Prop} {node : Nat} {entries : List (String × Value)} :
    (∀ c ∈ (map node entries).children, P c.1) ↔ ∀ e ∈ entries, P e.2 := by
  constructor
  · intro h e he
    exact h (e.2, .key e.1) (mem_children_map.2 ⟨e.1, he, rfl⟩)
  · intro h c hc
    obtain ⟨k, hk, -⟩ := mem_children_map.1 hc
    exact h (k, c.1) hk

theorem mem_children_of_child? {v c : Value} {step : Step} (h : v.child? step = some c) :
    (c, step) ∈ v.children := by
  unfold child? at h
  split at h
  · exact mem_children_list.2 ⟨_, h, rfl⟩
  · exact mem_children_map.2 ⟨_, Entries.mem_of_get? h, rfl⟩
  · cases h

/-- No two children are at one step. -/
theorem pairwise_children {v : Value}
    (hv : ∀ entries, v.entries? = some entries → (Entries.keys entries).Nodup) :
    v.children.Pairwise fun a b => a.2 ≠ b.2 := by
  cases v with
  | list node items =>
    have hnodup : (items.zipIdx.map Prod.snd).Nodup := by
      rw [List.zipIdx_map_snd]
      exact List.nodup_range'
    exact List.pairwise_map.2 ((List.pairwise_map.1 hnodup).imp fun hne => by simpa using hne)
  | map node entries =>
    have hnodup : (entries.map Prod.fst).Nodup := hv entries rfl
    exact List.pairwise_map.2 ((List.pairwise_map.1 hnodup).imp fun hne => by simpa using hne)
  | _ => exact .nil

theorem weight_lt_of_mem_children {v : Value} {c : Value × Step} (h : c ∈ v.children) :
    Walk.weight c.1 < Walk.weight v := by
  have hle : ∀ cs : List (Value × Step), c ∈ cs →
      Walk.weight c.1 ≤ Walk.total (Walk.weight ·.1) cs := by
    intro cs hc
    induction cs with
    | nil => cases hc
    | cons d ds ih =>
      rw [Walk.total]
      rcases List.mem_cons.1 hc with rfl | hc
      · exact Nat.le_add_right _ _
      · exact Nat.le_add_left_of_le (ih hc)
  exact Nat.lt_of_le_of_lt (hle _ h) (Walk.weight_children_lt v)

/-- What holds of a value if it holds of all its children holds of every value. -/
theorem children_induction {P : Value → Prop} (h : ∀ v : Value, (∀ c ∈ v.children, P c.1) → P v)
    (v : Value) : P v := by
  induction hn : Walk.weight v using Nat.strongRecOn generalizing v with
  | _ n ih =>
    exact h v fun c hc => ih _ (hn ▸ weight_lt_of_mem_children hc) c.1 rfl

/-! ### Content -/

mutual

/-- The value with the number zero for every container. -/
def content : Value → Value
  | list _ items => list 0 (contentOfItems items)
  | map _ entries => map 0 (contentOfEntries entries)
  | v => v

/-- The items of a list with the number zero for every container. -/
def contentOfItems : List Value → List Value
  | [] => []
  | v :: vs => content v :: contentOfItems vs

/-- The entries of a map with the number zero for every container. -/
def contentOfEntries : List (String × Value) → List (String × Value)
  | [] => []
  | (k, v) :: es => (k, content v) :: contentOfEntries es

end

theorem contentOfItems_eq_map (items : List Value) : contentOfItems items = items.map content := by
  induction items with
  | nil => rfl
  | cons v vs ih => rw [contentOfItems, ih, List.map_cons]

theorem contentOfEntries_eq_mapValues (entries : List (String × Value)) :
    contentOfEntries entries = Entries.mapValues content entries := by
  induction entries with
  | nil => rfl
  | cons e es ih => rw [contentOfEntries, ih, Entries.mapValues_cons]

@[simp] theorem content_list (node : Nat) (items : List Value) :
    (list node items).content = list 0 (items.map content) := by
  rw [content, contentOfItems_eq_map]

@[simp] theorem content_map (node : Nat) (entries : List (String × Value)) :
    (map node entries).content = map 0 (Entries.mapValues content entries) := by
  rw [content, contentOfEntries_eq_mapValues]

@[simp] theorem isUndefined_content (v : Value) : v.content.isUndefined = v.isUndefined := by
  cases v <;> rfl

/-- What is a list up to the numbers of containers is a list. -/
theorem eq_list_of_content_eq {v : Value} {node : Nat} {items : List Value}
    (h : v.content = (list node items).content) :
    ∃ n vs, v = list n vs ∧ vs.map content = items.map content := by
  cases v with
  | list n vs =>
    rw [content_list, content_list, list.injEq] at h
    exact ⟨n, vs, rfl, h.2⟩
  | _ => simp [content] at h

theorem eq_map_of_content_eq {v : Value} {node : Nat} {entries : List (String × Value)}
    (h : v.content = (map node entries).content) :
    ∃ n es, v = map n es ∧ Entries.mapValues content es = Entries.mapValues content entries := by
  cases v with
  | map n es =>
    rw [content_map, content_map, map.injEq] at h
    exact ⟨n, es, rfl, h.2⟩
  | _ => simp [content] at h

/-! ### Cells -/

theorem itemsHoldCell_eq_any (items : List Value) : itemsHoldCell items = items.any holdsCell := by
  induction items with
  | nil => rfl
  | cons v vs ih => rw [itemsHoldCell, ih, List.any_cons]

theorem entriesHoldCell_eq_any (entries : List (String × Value)) :
    entriesHoldCell entries = entries.any (holdsCell ·.2) := by
  induction entries with
  | nil => rfl
  | cons e es ih => rw [entriesHoldCell, ih, List.any_cons]

/-- A value holds no cell if it is none and its children hold none. -/
theorem holdsCell_eq_false_iff {v : Value} :
    v.holdsCell = false ↔ (∀ id, v ≠ cell id) ∧ ∀ c ∈ v.children, c.1.holdsCell = false := by
  cases v with
  | list node items =>
    rw [holdsCell, itemsHoldCell_eq_any, List.any_eq_false,
      forall_children_list (P := fun v => v.holdsCell = false)]
    simp
  | map node entries =>
    rw [holdsCell, entriesHoldCell_eq_any, List.any_eq_false,
      forall_children_map (P := fun v => v.holdsCell = false)]
    simp
  | cell id => simp [holdsCell]
  | _ => simp [holdsCell, children]

/-! ### Well-formed values -/

/-- No key occurs twice in any map of the value. -/
inductive WellFormed : Value → Prop where
  | intro {v : Value} (keys : ∀ entries, v.entries? = some entries → (Entries.keys entries).Nodup)
    (below : ∀ c ∈ v.children, WellFormed c.1) : WellFormed v

theorem WellFormed.keys {v : Value} (h : v.WellFormed) {entries : List (String × Value)}
    (he : v.entries? = some entries) : (Entries.keys entries).Nodup := by
  cases h with
  | intro keys _ => exact keys entries he

theorem WellFormed.child {v : Value} (h : v.WellFormed) {c : Value × Step} (hc : c ∈ v.children) :
    c.1.WellFormed := by
  cases h with
  | intro _ below => exact below c hc

/-- No key occurs twice in any map of the value, and it holds no cell. -/
structure Plain (v : Value) : Prop where
  wellFormed : v.WellFormed
  cellFree : v.holdsCell = false

theorem Plain.ne_cell {v : Value} (h : v.Plain) (id : Nat) : v ≠ cell id :=
  (holdsCell_eq_false_iff.1 h.cellFree).1 id

/-- Reading through cells leaves a value without cells as it is. -/
theorem Plain.resolve {v : Value} (h : v.Plain) (cells : Cells) : cells.resolve v = v :=
  cells.resolve_of_ne_cell h.ne_cell

theorem Plain.child {v : Value} (h : v.Plain) {c : Value × Step} (hc : c ∈ v.children) :
    c.1.Plain :=
  ⟨h.wellFormed.child hc, (holdsCell_eq_false_iff.1 h.cellFree).2 c hc⟩

theorem plain_iff {v : Value} :
    v.Plain ↔ (∀ id, v ≠ cell id) ∧
      (∀ entries, v.entries? = some entries → (Entries.keys entries).Nodup) ∧
      ∀ c ∈ v.children, c.1.Plain := by
  constructor
  · exact fun h => ⟨h.ne_cell, fun _ he => h.wellFormed.keys he, fun _ hc => h.child hc⟩
  · rintro ⟨hne, hkeys, hbelow⟩
    exact ⟨.intro hkeys fun c hc => (hbelow c hc).wellFormed,
      holdsCell_eq_false_iff.2 ⟨hne, fun c hc => (hbelow c hc).cellFree⟩⟩

@[simp] theorem plain_list {node : Nat} {items : List Value} :
    (list node items).Plain ↔ ∀ v ∈ items, v.Plain := by
  rw [plain_iff, forall_children_list]
  simp [entries?]

@[simp] theorem plain_map {node : Nat} {entries : List (String × Value)} :
    (map node entries).Plain ↔ (Entries.keys entries).Nodup ∧ ∀ e ∈ entries, e.2.Plain := by
  rw [plain_iff, forall_children_map]
  simp [entries?]

/-- A value that is neither container nor cell is plain. -/
theorem plain_of_children_eq_nil {v : Value} (hne : ∀ id, v ≠ cell id) (he : v.entries? = none)
    (hc : v.children = []) : v.Plain :=
  plain_iff.2 ⟨hne, by simp [he], by simp [hc]⟩

@[simp] theorem plain_undefined : undefined.Plain := plain_of_children_eq_nil nofun rfl rfl

@[simp] theorem plain_int (n : Int64) : (int n).Plain := plain_of_children_eq_nil nofun rfl rfl

@[simp] theorem plain_str (s : String) : (str s).Plain := plain_of_children_eq_nil nofun rfl rfl

/-- Being plain does not depend on the numbers of containers. -/
theorem plain_content {v : Value} : v.content.Plain ↔ v.Plain := by
  induction v using children_induction with
  | _ v ih =>
    cases v with
    | list node items =>
      rw [content_list, plain_list, plain_list, List.forall_mem_map]
      exact forall₂_congr (forall_children_list.1 ih)
    | map node entries =>
      rw [content_map, plain_map, plain_map, Entries.keys_mapValues, Entries.mapValues,
        List.forall_mem_map]
      have ih := forall_children_map (P := fun v => v.content.Plain ↔ v.Plain).1 ih
      exact and_congr_right fun _ => forall₂_congr ih
    | _ => rfl

theorem Plain.of_content_eq {v w : Value} (h : v.Plain) (hc : w.content = v.content) : w.Plain := by
  rw [← plain_content, hc, plain_content]
  exact h

end Value

end DataExpr
