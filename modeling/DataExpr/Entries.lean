/-!
# Entries of a map

The entries of a map are pairs of a key and a value in order of insertion, and no key occurs twice.
Writing to a key that is there keeps its position, a new key goes to the end, and removing a key
closes the gap: `Entries.insert` and `Entries.erase`.  Both keep the keys distinct
(`nodup_keys_insert`, `nodup_keys_erase`), and `get?_insert` says what is found afterwards.

`Entries.sorted` forgets the order of insertion and puts the keys in ascending order instead.
-/

namespace DataExpr

/-- Keys and values in order of insertion. -/
abbrev Entries (α : Type) := List (String × α)

namespace Entries

variable {α : Type}

/-- The keys in order. -/
def keys (es : Entries α) : List String := es.map Prod.fst

/-- The values in order. -/
def values (es : Entries α) : List α := es.map Prod.snd

/-- The value at a key. -/
def get? : Entries α → String → Option α
  | [], _ => none
  | (k, v) :: es, key => if k = key then some v else get? es key

/-- Whether the key occurs. -/
def contains (es : Entries α) (key : String) : Bool := (get? es key).isSome

/-- The entries with a value at a key: in place if the key occurs, else at the end. -/
def insert : Entries α → String → α → Entries α
  | [], key, value => [(key, value)]
  | (k, v) :: es, key, value =>
    if k = key then (k, value) :: es else (k, v) :: insert es key value

/-- The entries without a key. -/
def erase : Entries α → String → Entries α
  | [], _ => []
  | (k, v) :: es, key => if k = key then es else (k, v) :: erase es key

/-- The entries with all the given pairs inserted, one after the other. -/
def insertAll (es : Entries α) (pairs : List (String × α)) : Entries α :=
  pairs.foldl (fun es pair => insert es pair.1 pair.2) es

/-- The entries that the pairs make up when they are inserted one after the other. -/
def ofPairs (pairs : List (String × α)) : Entries α := insertAll [] pairs

/-- Entries in ascending order of keys with a value at a key: in place if the key occurs, else where
the order puts it. -/
def insertSorted (key : String) (value : α) : Entries α → Entries α
  | [] => [(key, value)]
  | (k, v) :: es =>
    if key < k then (key, value) :: (k, v) :: es
    else if k = key then (k, value) :: es
    else (k, v) :: insertSorted key value es

/-- The pairs in ascending order of keys.  Keys are compared character by character, and of pairs with
one key the last is kept. -/
def sorted (pairs : List (String × α)) : Entries α :=
  pairs.foldl (fun es pair => insertSorted pair.1 pair.2 es) []

/-- The entries whose keys are not among the given ones. -/
def without (es : Entries α) (named : List String) : Entries α :=
  es.filter fun e => !named.contains e.1

@[simp] theorem keys_nil : keys ([] : Entries α) = [] := rfl

@[simp] theorem keys_cons (e : String × α) (es : Entries α) : keys (e :: es) = e.1 :: keys es := rfl

theorem get?_eq_none_iff (es : Entries α) (key : String) : get? es key = none ↔ key ∉ keys es := by
  induction es with
  | nil => simp [get?]
  | cons e es ih =>
    obtain ⟨k, v⟩ := e
    by_cases h : k = key
    · simp [get?, h]
    · simp [get?, h, ih, Ne.symm h]

/-- Writing to one key changes what is found at that key only. -/
theorem get?_insert (es : Entries α) (key : String) (value : α) (k : String) :
    get? (insert es key value) k = if key = k then some value else get? es k := by
  induction es with
  | nil => simp [insert, get?]
  | cons e es ih =>
    obtain ⟨k', v'⟩ := e
    simp only [insert]
    split
    · rename_i hk
      subst hk
      simp only [get?]
      split <;> rfl
    · rename_i hk
      simp only [get?, ih]
      by_cases h1 : k' = k
      · have : key ≠ k := fun h => hk (h1.trans h.symm)
        simp [h1, this]
      · simp [h1]

/-- A key that occurs keeps its place and a new one comes last. -/
theorem keys_insert (es : Entries α) (key : String) (value : α) :
    keys (insert es key value) = if key ∈ keys es then keys es else keys es ++ [key] := by
  induction es with
  | nil => simp [insert]
  | cons e es ih =>
    obtain ⟨k, v⟩ := e
    by_cases h : k = key
    · simp [insert, h]
    · simp only [insert, h, if_false, keys_cons, ih, List.mem_cons, Ne.symm h, false_or]
      split <;> simp

/-- Writing keeps the keys distinct. -/
theorem nodup_keys_insert {es : Entries α} (h : (keys es).Nodup) (key : String) (value : α) :
    (keys (insert es key value)).Nodup := by
  rw [keys_insert]
  split
  · exact h
  · rename_i hk
    exact List.nodup_append.2 ⟨h, by simp, by rintro a ha b hb rfl; simp_all⟩

/-- Removing takes out the first occurrence of the key and keeps the order of the others. -/
theorem keys_erase (es : Entries α) (key : String) : keys (erase es key) = (keys es).erase key := by
  induction es with
  | nil => simp [erase]
  | cons e es ih =>
    obtain ⟨k, v⟩ := e
    by_cases h : k = key
    · simp [erase, h]
    · simp [erase, h, ih, List.erase_cons_tail]

/-- Removing keeps the keys distinct. -/
theorem nodup_keys_erase {es : Entries α} (h : (keys es).Nodup) (key : String) :
    (keys (erase es key)).Nodup := by
  rw [keys_erase]
  exact h.erase key

/-- Inserting pairs keeps the keys distinct. -/
theorem nodup_keys_insertAll {es : Entries α} (h : (keys es).Nodup) (pairs : List (String × α)) :
    (keys (insertAll es pairs)).Nodup := by
  induction pairs generalizing es with
  | nil => exact h
  | cons p ps ih => exact ih (nodup_keys_insert h p.1 p.2)

/-- The keys that pairs are read into are distinct. -/
theorem nodup_keys_ofPairs (pairs : List (String × α)) : (keys (ofPairs pairs)).Nodup :=
  nodup_keys_insertAll (by simp) pairs

end Entries

end DataExpr
