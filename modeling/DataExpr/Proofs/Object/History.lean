import DataExpr.Proofs.Object

/-!
# Objects and entries have the same history

An object with an index is changed as its entries are: an overwritten entry keeps its position, a new
one goes to the end, and removing one closes the gap (`Object.toEntries_insert`,
`Object.toEntries_remove`).  So whatever is done to an object from its making on, it gives the answers
that its entries alone give, and at every point of its history everything that can be read from it
agrees with them (`Object.history_agrees`).
-/

namespace DataExpr

namespace Object

variable {α : Type}

/-! ### The index names entries -/

/-- The entry that the index names for a key. -/
theorem exists_entry {o : Object α} {key : String} {i : Nat} (h : o.index[key]? = some i) :
    ∃ v, o.entries[i]? = some (key, v) := by
  obtain ⟨⟨k, v⟩, hentry, rfl⟩ := Option.map_eq_some_iff.1 ((o.indexed key i).1 h)
  exact ⟨v, hentry⟩

/-- A key that the index does not have is the key of no entry. -/
theorem not_mem_keys {o : Object α} {key : String} (h : o.index[key]? = none) : key ∉ o.keys := by
  intro hkey
  obtain ⟨i, hi⟩ := List.getElem?_of_mem hkey
  rw [getElem?_keys] at hi
  rw [(o.indexed key i).2 hi] at h
  cases h

theorem contains_eq (o : Object α) (key : String) : o.contains key = (o.get? key).isSome := by
  rw [contains, Std.HashMap.contains_eq_isSome_getElem?]
  unfold get?
  split
  · rename_i h
    exact congrArg Option.isSome h
  · rename_i i h
    exact congrArg Option.isSome h

/-! ### Changes -/

/-- Inserting answers with the value that was there before. -/
theorem fst_insert (o : Object α) (key : String) (v : α) : (o.insert key v).1 = o.get? key := by
  unfold insert get?
  split <;> rfl

/-- Removing answers with the value that was there. -/
theorem fst_remove (o : Object α) (key : String) : (o.remove key).1 = o.get? key := by
  unfold remove get?
  split <;> rfl

theorem toEntries_insert (o : Object α) (key : String) (v : α) :
    (o.insert key v).2.toEntries = o.toEntries.insert key v := by
  unfold insert
  split
  · rename_i h
    rw [Entries.insert_of_not_mem (not_mem_keys h)]
    exact Array.toList_push
  · rename_i i h
    obtain ⟨old, hentry⟩ := exists_entry h
    rw [← Array.getElem?_toList] at hentry
    rw [Entries.insert_eq_set o.nodup_keys hentry]
    exact Array.toList_set o.entries i (key, v) (o.indexed.lt_size h)

theorem toEntries_remove (o : Object α) (key : String) :
    (o.remove key).2.toEntries = o.toEntries.erase key := by
  unfold remove
  split
  · rename_i h
    rw [Entries.erase_of_not_mem (not_mem_keys h)]
  · rename_i i h
    obtain ⟨old, hentry⟩ := exists_entry h
    rw [← Array.getElem?_toList] at hentry
    rw [Entries.erase_eq_eraseIdx o.nodup_keys hentry]
    exact Array.toList_eraseIdx ..

theorem toEntries_extend (o : Object α) (pairs : List (String × α)) :
    (o.extend pairs).toEntries = o.toEntries.insertAll pairs := by
  induction pairs generalizing o with
  | nil => rfl
  | cons p ps ih =>
    show ((o.insert p.1 p.2).2.extend ps).toEntries = (o.toEntries.insert p.1 p.2).insertAll ps
    rw [ih, toEntries_insert]

/-! ### Histories -/

/-- What can be done to a map. -/
inductive Operation (α : Type) where
  | insert (key : String) (value : α)
  | remove (key : String)
  | extend (pairs : List (String × α))

namespace Operation

/-- The answer of an object to an operation, and the object after it. -/
def onObject (o : Object α) : Operation α → Option α × Object α
  | insert key value => o.insert key value
  | remove key => o.remove key
  | extend pairs => (none, o.extend pairs)

/-- The answer of entries to an operation, and the entries after it. -/
def onEntries (es : Entries α) : Operation α → Option α × Entries α
  | insert key value => (es.get? key, es.insert key value)
  | remove key => (es.get? key, es.erase key)
  | extend pairs => (none, es.insertAll pairs)

/-- The answers to operations one after the other, each with what there is after it. -/
def history {σ : Type} (on : σ → Operation α → Option α × σ) : σ → List (Operation α) →
    List (Option α × σ)
  | _, [] => []
  | s, op :: ops => on s op :: history on (on s op).2 ops

end Operation

/-- Whether everything that can be read from an object is what entries with distinct keys say, and the
index names for a key an entry with that key. -/
structure Agrees (o : Object α) (es : Entries α) : Prop where
  get? : ∀ key, o.get? key = es.get? key
  contains : ∀ key, o.contains key = es.contains key
  size : o.size = es.length
  isEmpty : o.isEmpty = es.isEmpty
  toEntries : o.toEntries = es
  keys : o.keys = es.keys
  values : o.values = es.values
  nodup : es.keys.Nodup
  indexed : ∀ (key : String) (i : Nat), o.index[key]? = some i → ∃ v, o.entries[i]? = some (key, v)

/-- An object agrees with its entries. -/
theorem agrees_toEntries (o : Object α) : o.Agrees o.toEntries where
  get? key := (o.get?_toEntries key).symm
  contains key := by rw [contains_eq, Entries.contains, get?_toEntries]
  size := Array.length_toList.symm
  isEmpty := Array.isEmpty_toList.symm
  toEntries := rfl
  keys := rfl
  values := rfl
  nodup := o.nodup_keys
  indexed _ _ h := exists_entry h

/-- An operation is answered by an object as by its entries, and changes both alike. -/
theorem onObject_eq (o : Object α) (op : Operation α) :
    (op.onObject o).1 = (op.onEntries o.toEntries).1 ∧
      (op.onObject o).2.toEntries = (op.onEntries o.toEntries).2 := by
  cases op with
  | insert key v =>
    exact ⟨(o.fst_insert key v).trans (o.get?_toEntries key).symm, o.toEntries_insert key v⟩
  | remove key =>
    exact ⟨(o.fst_remove key).trans (o.get?_toEntries key).symm, o.toEntries_remove key⟩
  | extend pairs => exact ⟨rfl, o.toEntries_extend pairs⟩

/-- Objects and their entries have the same history. -/
theorem forall₂_history (o : Object α) (ops : List (Operation α)) :
    List.Forall₂ (fun p q => p.1 = q.1 ∧ p.2.Agrees q.2)
      (Operation.history Operation.onObject o ops)
      (Operation.history Operation.onEntries o.toEntries ops) := by
  induction ops generalizing o with
  | nil => exact .nil
  | cons op ops ih =>
    obtain ⟨hanswer, hentries⟩ := onObject_eq o op
    refine .cons ⟨hanswer, hentries ▸ agrees_toEntries _⟩ ?_
    rw [← hentries]
    exact ih _

/-- Made of any pairs, and changed by any operations, an object gives the answers that entries give.
At the beginning and after every operation all that is read from it is read from the entries as well,
and the index names the entries of its keys. -/
theorem history_agrees (pairs : List (String × α)) (ops : List (Operation α)) :
    (ofPairs pairs).Agrees (Entries.ofPairs pairs) ∧
      List.Forall₂ (fun p q => p.1 = q.1 ∧ p.2.Agrees q.2)
        (Operation.history Operation.onObject (ofPairs pairs) ops)
        (Operation.history Operation.onEntries (Entries.ofPairs pairs) ops) := by
  have hpairs : (ofPairs pairs).toEntries = Entries.ofPairs pairs := toEntries_extend empty pairs
  exact ⟨hpairs ▸ agrees_toEntries _, hpairs ▸ forall₂_history _ ops⟩

end Object

end DataExpr
