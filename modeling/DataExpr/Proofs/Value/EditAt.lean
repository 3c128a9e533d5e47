import DataExpr.Proofs.Path.Put

/-!
# Editing several places of a value at once

`Value.editAt f places v` is the value `v` with what stands at each of the places changed by `f`, all at
once: `f` is given what `v` holds there, and everything else stays.  `content_put_editAt` says that
putting an edited value at one more place adds this place to those that have been edited, if it is
neither above nor below any of them.

`Value.PlainTo n v` says that `v` holds no cell and no double key above the depth `n`.  What is put at
that depth may be anything (`PlainTo.put`).
-/

namespace DataExpr

namespace Entries

variable {α β : Type}

theorem get?_map (g : String → α → β) (es : Entries α) (key : String) :
    get? (es.map fun e => (e.1, g e.1 e.2)) key = (get? es key).map (g key) := by
  induction es with
  | nil => rfl
  | cons e es ih =>
    rw [List.map_cons, get?, get?, ih]
    split
    · rename_i hk
      rw [hk, Option.map_some]
    · rfl

/-- Writing to a key that is there changes the entry of that key only. -/
theorem insert_map {es : Entries α} (hd : (keys es).Nodup) {key : String} {v : α}
    (h : get? es key = some v) {f g : String → α → β} (hg : ∀ k a, k ≠ key → g k a = f k a) :
    insert (es.map fun e => (e.1, f e.1 e.2)) key (g key v) =
      es.map fun e => (e.1, g e.1 e.2) := by
  induction es with
  | nil => cases h
  | cons e es ih =>
    rw [keys_cons, List.nodup_cons] at hd
    rw [get?] at h
    rw [List.map_cons, List.map_cons, insert]
    by_cases hk : e.1 = key
    · rw [if_pos hk] at h
      subst hk
      rw [if_pos rfl, Option.some.inj h]
      refine congrArg _ (List.map_congr_left fun a ha => ?_)
      rw [hg a.1 a.2 fun hak => hd.1 (hak ▸ List.mem_map_of_mem ha)]
    · rw [if_neg hk] at h
      rw [if_neg hk, ih hd.2 h, hg e.1 e.2 hk]

end Entries

namespace Value

/-! ### Changing all children -/

/-- The container with every child changed by `g`, which is given the step to the child as well. -/
def mapChildren (g : Step → Value → Value) : Value → Value
  | list node items => list node (items.mapIdx fun i c => g (.index i) c)
  | map node entries => map node (entries.map fun e => (e.1, g (.key e.1) e.2))
  | v => v

variable {g g' : Step → Value → Value} {v w c x : Value} {step : Step}

/-- What has the content of a container with changed children has children of these contents. -/
theorem child?_of_content_eq (hc : v.child? step = some c)
    (hw : w.content = (v.mapChildren g).content) :
    ∃ d, w.child? step = some d ∧ d.content = (g step c).content := by
  unfold child? at hc
  split at hc
  · rename_i node items i
    obtain ⟨n, vs, rfl, hvs⟩ := eq_list_of_content_eq hw
    have hi := congrArg (·[i]?) hvs
    simp only [List.getElem?_map, List.getElem?_mapIdx, hc, Option.map_some] at hi
    exact Option.map_eq_some_iff.1 hi
  · rename_i node entries k
    obtain ⟨n, es, rfl, hes⟩ := eq_map_of_content_eq hw
    have hk := congrArg (Entries.get? · k) hes
    simp only [Entries.get?_mapValues, Entries.get?_map fun k a => g (.key k) a, hc,
      Option.map_some] at hk
    exact Option.map_eq_some_iff.1 hk
  · cases hc

/-- What has a child is no cell. -/
theorem ne_cell_of_child? (h : v.child? step = some c) (id : Nat) : v ≠ cell id := by
  rintro rfl
  cases h

/-- Writing to one child of such a container changes what that child has been changed to. -/
theorem content_withChild_of_mapChildren (hc : v.child? step = some c)
    (hkeys : ∀ entries, v.entries? = some entries → (Entries.keys entries).Nodup)
    (hw : w.content = (v.mapChildren g).content) (hx : x.content = (g' step c).content)
    (hg : ∀ step' d, step' ≠ step → g' step' d = g step' d) (node : Nat) :
    (w.withChild node step x).content = (v.mapChildren g').content := by
  unfold child? at hc
  split at hc
  · rename_i n items i
    obtain ⟨n, vs, rfl, hvs⟩ := eq_list_of_content_eq hw
    have hitems : i < items.length := (List.getElem?_eq_some_iff.1 hc).1
    have hlength : vs.length = items.length := by
      simpa using congrArg List.length hvs
    have hi : i < vs.length := hlength ▸ hitems
    rw [withChild, content_list, setItem, if_pos hi, List.map_set, hvs, hx, mapChildren,
      content_list]
    refine congrArg (list 0) (List.ext_getElem? fun j => ?_)
    rw [List.getElem?_set, List.getElem?_map, List.getElem?_map, List.getElem?_mapIdx,
      List.getElem?_mapIdx]
    by_cases hij : i = j
    · subst hij
      rw [if_pos rfl, if_pos (by simpa using hitems), hc]
      rfl
    · rw [if_neg hij]
      cases items[j]? with
      | none => rfl
      | some d => simp [hg (.index j) d (by simpa using Ne.symm hij)]
  · rename_i n entries k
    obtain ⟨n, es, rfl, hes⟩ := eq_map_of_content_eq hw
    rw [withChild, content_map, Entries.mapValues_insert, hes, hx, mapChildren, content_map]
    rw [Entries.mapValues, Entries.mapValues, List.map_map, List.map_map]
    refine congrArg (map 0) ?_
    -- Keys keep their order, as the key is there already.
    exact Entries.insert_map (f := fun k a => (g (.key k) a).content)
      (g := fun k a => (g' (.key k) a).content) (hkeys entries rfl) hc
      fun k' a hk' => by rw [hg _ _ (by simpa using hk')]
  · cases hc

/-! ### Changing places -/

mutual

/-- The value with what stands at each of the places changed by `f`.  Nothing below a place is a place
of its own. -/
def editAt (f : Value → Value) (places : Path → Bool) : Value → Value
  | list node items =>
    if places [] then f (list node items) else list node (editItemsAt f places 0 items)
  | map node entries =>
    if places [] then f (map node entries) else map node (editEntriesAt f places entries)
  | v => if places [] then f v else v

/-- The items of a list from a position on, edited at the places of the list. -/
def editItemsAt (f : Value → Value) (places : Path → Bool) (i : Nat) : List Value → List Value
  | [] => []
  | v :: vs => editAt f (fun q => places (.index i :: q)) v :: editItemsAt f places (i + 1) vs

/-- The entries of a map, edited at the places of the map. -/
def editEntriesAt (f : Value → Value) (places : Path → Bool) :
    List (String × Value) → List (String × Value)
  | [] => []
  | (k, v) :: es => (k, editAt f (fun q => places (.key k :: q)) v) :: editEntriesAt f places es

end

theorem editItemsAt_eq_mapIdx (f : Value → Value) (places : Path → Bool) (i : Nat)
    (items : List Value) :
    editItemsAt f places i items =
      items.mapIdx fun j v => editAt f (fun q => places (.index (i + j) :: q)) v := by
  induction items generalizing i with
  | nil => rfl
  | cons v vs ih =>
    rw [editItemsAt, ih, List.mapIdx_cons]
    simp only [Nat.add_zero, Nat.add_assoc, Nat.add_comm 1]

theorem editEntriesAt_eq_map (f : Value → Value) (places : Path → Bool)
    (entries : List (String × Value)) :
    editEntriesAt f places entries =
      entries.map fun e => (e.1, editAt f (fun q => places (.key e.1 :: q)) e.2) := by
  induction entries with
  | nil => rfl
  | cons e es ih => rw [editEntriesAt, ih, List.map_cons]

theorem editAt_eq (f : Value → Value) (places : Path → Bool) (v : Value) :
    v.editAt f places = if places [] then f v
      else v.mapChildren fun step c => c.editAt f fun q => places (step :: q) := by
  cases v with
  | list node items =>
    rw [editAt, editItemsAt_eq_mapIdx, mapChildren]
    simp only [Nat.zero_add]
  | map node entries => rw [editAt, editEntriesAt_eq_map, mapChildren]
  | _ => rfl

/-- A container whose children are changed to themselves stays as it is. -/
theorem mapChildren_eq_self (h : ∀ c ∈ v.children, g c.2 c.1 = c.1) : v.mapChildren g = v := by
  cases v with
  | list node items =>
    refine congrArg (list node) (List.ext_getElem? fun i => ?_)
    rw [List.getElem?_mapIdx]
    cases hi : items[i]? with
    | none => rfl
    | some c => exact congrArg some (h (c, .index i) (mem_children_list.2 ⟨i, hi, rfl⟩))
  | map node entries =>
    refine congrArg (map node) ((List.map_congr_left fun e he => ?_).trans (List.map_id _))
    exact Prod.ext rfl (h (e.2, .key e.1) (mem_children_map.2 ⟨e.1, he, rfl⟩))
  | _ => rfl

/-- Where there is no place, nothing is changed. -/
theorem editAt_nowhere (f : Value → Value) (v : Value) : v.editAt f (fun _ => false) = v := by
  induction v using children_induction with
  | _ v ih =>
    rw [editAt_eq, if_neg Bool.false_ne_true]
    exact mapChildren_eq_self ih

/-- Where no place is on the way, an edited value has at the end of a path what was there, edited at the
places below. -/
theorem get?_of_content_editAt {cells : Cells} {f : Value → Value} {places : Path → Bool}
    {path : Path} {v w old : Value} (hv : v.Plain) (hold : Path.get? cells path v = some old)
    (hplaces : ∀ q, q <+: path → places q = false)
    (hw : w.content = (v.editAt f places).content) :
    ∃ d, Path.get? cells path w = some d ∧
      d.content = (old.editAt f fun q => places (path ++ q)).content := by
  induction path generalizing v w places with
  | nil =>
    obtain rfl := Option.some.inj hold
    exact ⟨w, rfl, hw⟩
  | cons step rest ih =>
    obtain ⟨c, hc, hold⟩ := Path.get?_cons_eq_some.1 hold
    rw [hv.resolve] at hc
    have hhere : places [] = false := hplaces [] List.nil_prefix
    rw [editAt_eq, if_neg (by simp [hhere])] at hw
    obtain ⟨d, hd, hdc⟩ := child?_of_content_eq hc hw
    have hresolve : cells.resolve w = w := cells.resolve_of_ne_cell (ne_cell_of_child? hd)
    obtain ⟨x, hx, hxc⟩ := ih (hv.child? hc) hold
      (fun q hq => hplaces _ (List.cons_prefix_cons.2 ⟨rfl, hq⟩)) hdc
    exact ⟨x, Path.get?_cons_eq_some.2 ⟨d, hresolve.symm ▸ hd, hx⟩, hxc⟩

/-! ### Values that are plain down to a depth -/

/-- There is no cell above the depth, and no key occurs twice in a map above it. -/
def PlainTo : Nat → Value → Prop
  | 0, _ => True
  | n + 1, v => (∀ id, v ≠ cell id) ∧
      (∀ entries, v.entries? = some entries → (Entries.keys entries).Nodup) ∧
      ∀ c ∈ v.children, PlainTo n c.1

theorem Plain.plainTo {v : Value} (h : v.Plain) (n : Nat) : v.PlainTo n := by
  induction n generalizing v with
  | zero => trivial
  | succ n ih =>
    exact ⟨h.ne_cell, fun _ he => h.wellFormed.keys he, fun _ hc => ih (h.child hc)⟩

theorem PlainTo.resolve {n : Nat} {v : Value} (h : v.PlainTo (n + 1)) (cells : Cells) :
    cells.resolve v = v :=
  cells.resolve_of_ne_cell h.1

theorem PlainTo.one {n : Nat} {v : Value} (h : v.PlainTo (n + 1)) : v.PlainTo 1 :=
  ⟨h.1, h.2.1, fun _ _ => trivial⟩

theorem PlainTo.child? {n : Nat} {v c : Value} (h : v.PlainTo (n + 1)) {step : Step}
    (hc : v.child? step = some c) : c.PlainTo n :=
  h.2.2 _ (mem_children_of_child? hc)

theorem entries?_withChild {n : Nat} {v c d : Value} {step : Step} (h : v.PlainTo (n + 1))
    (hc : v.child? step = some c) (node : Nat) (entries : List (String × Value))
    (he : (v.withChild node step d).entries? = some entries) : (Entries.keys entries).Nodup := by
  unfold child? at hc
  split at hc
  · cases he
  · obtain rfl := Option.some.inj he
    exact Entries.nodup_keys_insert (h.2.1 _ rfl) _ _
  · cases hc

/-- Putting anything at a depth keeps a value plain down to that depth. -/
theorem PlainTo.put {cells : Cells} {path : Path} {v old : Value} (h : v.PlainTo path.length)
    (hold : Path.get? cells path v = some old) (fresh : Nat) (new : Value) :
    (Path.put cells fresh path v new).PlainTo path.length := by
  induction path generalizing v with
  | nil => trivial
  | cons step rest ih =>
    obtain ⟨c, hc, hold⟩ := Path.get?_cons_eq_some.1 hold
    rw [Path.put_cons hc]
    rw [h.resolve] at hc ⊢
    refine ⟨withChild_ne_cell hc _ _, entries?_withChild h hc _, fun d hd => ?_⟩
    -- Every child but the one at `step` is one of `v`.
    have hd := child?_of_mem (entries?_withChild h hc _) hd
    rw [child?_withChild hc] at hd
    split at hd
    · rw [← Option.some.inj hd]
      exact ih (h.child? hc) hold
    · exact h.child? hd

/-- Putting an edited value at one more place is editing at that place as well. -/
theorem content_put_editAt {cells : Cells} {f : Value → Value} {places : Path → Bool} {path : Path}
    {v w old new : Value} (hv : v.PlainTo path.length)
    (hold : Path.get? cells path v = some old) (hplaces : ∀ q, q <+: path → places q = false)
    (hw : w.content = (v.editAt f places).content) (hnew : new.content = (f old).content)
    (fresh : Nat) :
    (Path.put cells fresh path w new).content =
      (v.editAt f fun q => places q || q = path).content := by
  induction path generalizing v w places with
  | nil =>
    obtain rfl := Option.some.inj hold
    rw [editAt_eq, if_pos (by simp)]
    exact hnew
  | cons step rest ih =>
    obtain ⟨c, hc, hold⟩ := Path.get?_cons_eq_some.1 hold
    rw [hv.resolve] at hc
    -- No place is on the way, so `w` looks like `v` here and differs from it further down only.
    have hhere : places [] = false := hplaces [] List.nil_prefix
    rw [editAt_eq, if_neg (by simp [hhere])] at hw
    rw [editAt_eq, if_neg (by simp [hhere])]
    obtain ⟨d, hd, hdc⟩ := child?_of_content_eq hc hw
    have hresolve : cells.resolve w = w := cells.resolve_of_ne_cell (ne_cell_of_child? hd)
    rw [Path.put_cons (hresolve.symm ▸ hd), hresolve]
    refine content_withChild_of_mapChildren hc hv.2.1 hw ?_ ?_ _
    · simp only [List.cons.injEq, true_and]
      exact ih (hv.child? hc) hold
        (fun q hq => hplaces _ (List.cons_prefix_cons.2 ⟨rfl, hq⟩)) hdc
    · intro step' d' hne
      simp [hne]

end Value

end DataExpr
