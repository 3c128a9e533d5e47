import DataExpr.Entries

/-!
# Entries as a finite map

What is found at a key (`Entries.get?`) and which pairs the entries are made of (`∈`) say the same
where no key occurs twice: `mem_of_get?`, `get?_of_mem`.  `Entries.mapValues` changes all values and
keeps the keys, and commutes with looking up and with writing.
-/

namespace DataExpr

namespace Entries

variable {α β : Type}

/-- The entries with every value changed by `f`. -/
def mapValues (f : α → β) (es : Entries α) : Entries β := es.map fun e => (e.1, f e.2)

@[simp] theorem mapValues_nil (f : α → β) : mapValues f [] = [] := rfl

@[simp] theorem mapValues_cons (f : α → β) (e : String × α) (es : Entries α) :
    mapValues f (e :: es) = (e.1, f e.2) :: mapValues f es := rfl

@[simp] theorem keys_mapValues (f : α → β) (es : Entries α) : keys (mapValues f es) = keys es := by
  simp [keys, mapValues, Function.comp_def]

@[simp] theorem values_mapValues (f : α → β) (es : Entries α) :
    values (mapValues f es) = (values es).map f := by
  simp [values, mapValues, Function.comp_def]

/-- Entries are given by their keys and values. -/
theorem eq_of_keys_of_values {es fs : Entries α} (hkeys : keys es = keys fs)
    (hvalues : values es = values fs) : es = fs := by
  rw [← List.zip_unzip es, ← List.zip_unzip fs, List.unzip_eq_map, List.unzip_eq_map]
  show (keys es).zip (values es) = (keys fs).zip (values fs)
  rw [hkeys, hvalues]

theorem get?_mapValues (f : α → β) (es : Entries α) (key : String) :
    get? (mapValues f es) key = (get? es key).map f := by
  induction es with
  | nil => rfl
  | cons e es ih =>
    rw [mapValues_cons, get?, get?, ih]
    split <;> rfl

theorem mapValues_insert (f : α → β) (es : Entries α) (key : String) (v : α) :
    mapValues f (insert es key v) = insert (mapValues f es) key (f v) := by
  induction es with
  | nil => rfl
  | cons e es ih =>
    rw [mapValues_cons, insert, insert]
    split
    · rfl
    · rw [mapValues_cons, ih]

/-- Writing the value that is there already changes nothing. -/
theorem insert_of_get? {es : Entries α} {key : String} {v : α} (h : get? es key = some v) :
    insert es key v = es := by
  induction es with
  | nil => cases h
  | cons e es ih =>
    rw [get?] at h
    rw [insert]
    split at h
    · rw [if_pos ‹_›, ← Option.some.inj h]
    · rw [if_neg ‹_›, ih h]

theorem mem_of_get? {es : Entries α} {key : String} {v : α} (h : get? es key = some v) :
    (key, v) ∈ es := by
  induction es with
  | nil => cases h
  | cons e es ih =>
    rw [get?] at h
    split at h
    · rename_i hk
      rw [← hk, ← Option.some.inj h]
      exact List.mem_cons_self
    · exact List.mem_cons_of_mem _ (ih h)

/-- Where no key occurs twice, every entry is found at its key. -/
theorem get?_of_mem {es : Entries α} (hd : (keys es).Nodup) {key : String} {v : α}
    (h : (key, v) ∈ es) : get? es key = some v := by
  induction es with
  | nil => cases h
  | cons e es ih =>
    rw [keys_cons, List.nodup_cons] at hd
    rw [get?]
    rcases List.mem_cons.1 h with rfl | h
    · exact if_pos rfl
    · rw [if_neg, ih hd.2 h]
      intro hk
      exact hd.1 (List.mem_map.2 ⟨(key, v), h, hk.symm⟩)

theorem mem_keys_of_mem {es : Entries α} {e : String × α} (h : e ∈ es) : e.1 ∈ keys es :=
  List.mem_map_of_mem h

/-- Pairs whose keys are distinct are found where they have been inserted. -/
theorem get?_insertAll {pairs : Entries α} (hd : (keys pairs).Nodup) (es : Entries α)
    (key : String) : get? (insertAll es pairs) key = (get? pairs key).or (get? es key) := by
  induction pairs generalizing es with
  | nil => rfl
  | cons p ps ih =>
    rw [keys_cons, List.nodup_cons] at hd
    show get? (insertAll (insert es p.1 p.2) ps) key = _
    rw [ih hd.2, get?_insert, get?]
    split
    · rename_i hk
      rw [(get?_eq_none_iff ps key).2 (hk ▸ hd.1), Option.none_or, Option.some_or]
    · rfl

theorem get?_append (es fs : Entries α) (key : String) :
    get? (es ++ fs) key = (get? es key).or (get? fs key) := by
  induction es with
  | nil => rfl
  | cons e es ih =>
    rw [List.cons_append, get?, get?, ih]
    split <;> rfl

theorem insert_of_not_mem {es : Entries α} {key : String} (h : key ∉ keys es) (v : α) :
    insert es key v = es ++ [(key, v)] := by
  induction es with
  | nil => rfl
  | cons e es ih =>
    rw [keys_cons, List.mem_cons, not_or] at h
    rw [insert, if_neg (Ne.symm h.1), ih h.2, List.cons_append]

/-- Pairs with keys that are new and distinct come after the entries. -/
theorem insertAll_of_disjoint {es pairs : Entries α} (hd : (keys pairs).Nodup)
    (h : ∀ k ∈ keys pairs, k ∉ keys es) : insertAll es pairs = es ++ pairs := by
  induction pairs generalizing es with
  | nil => exact (List.append_nil es).symm
  | cons p ps ih =>
    rw [keys_cons, List.nodup_cons] at hd
    rw [keys_cons, List.forall_mem_cons] at h
    show insertAll (insert es p.1 p.2) ps = _
    rw [insert_of_not_mem h.1, ih hd.2, List.append_assoc, List.singleton_append]
    intro k hk
    rw [keys, List.map_append, List.mem_append, not_or]
    refine ⟨h.2 k hk, ?_⟩
    rintro hp
    exact hd.1 (List.mem_singleton.1 hp ▸ hk)

theorem ofPairs_of_nodup {pairs : Entries α} (hd : (keys pairs).Nodup) : ofPairs pairs = pairs :=
  insertAll_of_disjoint hd fun _ _ => List.not_mem_nil

/-- Inserting entries that are there already changes nothing. -/
theorem insertAll_of_get? {es pairs : Entries α} (h : ∀ p ∈ pairs, get? es p.1 = some p.2) :
    insertAll es pairs = es := by
  induction pairs with
  | nil => rfl
  | cons p ps ih =>
    rw [List.forall_mem_cons] at h
    show insertAll (insert es p.1 p.2) ps = es
    rw [insert_of_get? h.1, ih h.2]

/-- Where no key occurs twice, writing to the key of an entry changes that entry. -/
theorem insert_eq_set {es : Entries α} (hd : (keys es).Nodup) {i : Nat} {key : String} {old : α}
    (h : es[i]? = some (key, old)) (v : α) : insert es key v = es.set i (key, v) := by
  induction es generalizing i with
  | nil => cases h
  | cons e es ih =>
    rw [keys_cons, List.nodup_cons] at hd
    cases i with
    | zero =>
      obtain rfl := Option.some.inj h
      simp [insert]
    | succ i =>
      have hne : e.1 ≠ key := by
        intro he
        exact hd.1 (List.mem_map.2 ⟨(key, old), List.mem_of_getElem? h, he.symm⟩)
      rw [insert, if_neg hne, ih hd.2 h, List.set_cons_succ]

/-- Where no key occurs twice, removing the key of an entry takes out that entry. -/
theorem erase_eq_eraseIdx {es : Entries α} (hd : (keys es).Nodup) {i : Nat} {key : String}
    {old : α} (h : es[i]? = some (key, old)) : erase es key = es.eraseIdx i := by
  induction es generalizing i with
  | nil => cases h
  | cons e es ih =>
    rw [keys_cons, List.nodup_cons] at hd
    cases i with
    | zero =>
      obtain rfl := Option.some.inj h
      simp [erase]
    | succ i =>
      have hne : e.1 ≠ key := by
        intro he
        exact hd.1 (List.mem_map.2 ⟨(key, old), List.mem_of_getElem? h, he.symm⟩)
      rw [erase, if_neg hne, ih hd.2 h, List.eraseIdx_cons_succ]

theorem erase_of_not_mem {es : Entries α} {key : String} (h : key ∉ keys es) :
    erase es key = es := by
  induction es with
  | nil => rfl
  | cons e es ih =>
    rw [keys_cons, List.mem_cons, not_or] at h
    rw [erase, if_neg (Ne.symm h.1), ih h.2]

/-! ### Entries without some keys -/

theorem mem_without {es : Entries α} {named : List String} {e : String × α} :
    e ∈ without es named ↔ e ∈ es ∧ e.1 ∉ named := by
  simp [without]

theorem without_append (es fs : Entries α) (named : List String) :
    without (es ++ fs) named = without es named ++ without fs named :=
  List.filter_append es fs

theorem without_eq_self {es : Entries α} {named : List String} (h : ∀ k ∈ keys es, k ∉ named) :
    without es named = es :=
  List.filter_eq_self.2 fun e he => by simpa using h e.1 (mem_keys_of_mem he)

theorem without_eq_nil {es : Entries α} {named : List String} (h : ∀ k ∈ keys es, k ∈ named) :
    without es named = [] :=
  List.filter_eq_nil_iff.2 fun e he => by simpa using h e.1 (mem_keys_of_mem he)

theorem nodup_keys_without {es : Entries α} (h : (keys es).Nodup) (named : List String) :
    (keys (without es named)).Nodup :=
  h.sublist (List.filter_sublist.map Prod.fst)

/-! ### Changed values -/

theorem mapValues_insertAll (f : α → β) (es pairs : Entries α) :
    mapValues f (insertAll es pairs) = insertAll (mapValues f es) (mapValues f pairs) := by
  induction pairs generalizing es with
  | nil => rfl
  | cons p ps ih =>
    show mapValues f (insertAll (insert es p.1 p.2) ps) = _
    rw [ih, mapValues_insert]
    rfl

theorem mapValues_without (f : α → β) (es : Entries α) (named : List String) :
    mapValues f (without es named) = without (mapValues f es) named := by
  rw [mapValues, mapValues, without, without, List.filter_map]
  rfl

end Entries

end DataExpr
