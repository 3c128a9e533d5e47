import DataExpr.Entries
import Std.Data.HashMap

/-!
# Objects with an index

An `Object` is a map with text keys that remembers the order of insertion and finds a key in constant
time.  The entries stand in an array, and an index from keys to positions is kept beside it.  The
type holds the invariant that ties the two together (`Object.Indexed`): a key is in the index exactly
at the position where its entry stands.  So a look-up never leaves the array, and no key can occur
twice.
-/

namespace DataExpr

/-- The index holds a key exactly at the position of the entry with that key. -/
def Object.Indexed {α : Type} (entries : Array (String × α)) (index : Std.HashMap String Nat) :
    Prop :=
  ∀ (key : String) (i : Nat), index[key]? = some i ↔ entries[i]?.map Prod.fst = some key

/-- A map with text keys in order of insertion. -/
structure Object (α : Type) where
  entries : Array (String × α)
  index : Std.HashMap String Nat
  indexed : Object.Indexed entries index

namespace Object

variable {α : Type}

/-- A position that the index names is a position of the array. -/
theorem Indexed.lt_size {entries : Array (String × α)} {index : Std.HashMap String Nat}
    (h : Indexed entries index) {key : String} {i : Nat} (hi : index[key]? = some i) :
    i < entries.size := by
  have hk := (h key i).1 hi
  rcases Nat.lt_or_ge i entries.size with hlt | hge
  · exact hlt
  · simp [Array.getElem?_eq_none hge] at hk

theorem Indexed.empty : Indexed (#[] : Array (String × α)) ∅ := by
  intro key i
  simp

/-- Changing the value of an entry keeps the index right. -/
theorem Indexed.set {entries : Array (String × α)} {index : Std.HashMap String Nat}
    (h : Indexed entries index) {key : String} {i : Nat} (hi : index[key]? = some i) (value : α) :
    Indexed (entries.set i (key, value) (h.lt_size hi)) index := by
  have hk := (h key i).1 hi
  intro key' j
  rw [h key' j, Array.getElem?_set]
  split
  · rename_i hij
    subst hij
    simp only [hk, Option.map_some]
  · rfl

/-- A new entry at the end is entered with the position after the last. -/
theorem Indexed.push {entries : Array (String × α)} {index : Std.HashMap String Nat}
    (h : Indexed entries index) {key : String} (hi : index[key]? = none) (value : α) :
    Indexed (entries.push (key, value)) (index.insert key entries.size) := by
  intro key' j
  rw [Std.HashMap.getElem?_insert, Array.getElem?_push]
  have hnone : ∀ j : Nat, entries[j]?.map Prod.fst ≠ some key := by
    intro j hj
    rw [← h key j, hi] at hj
    exact absurd hj (by simp)
  have hlast : entries[entries.size]? = none := by simp
  by_cases hkk : key = key'
  · subst hkk
    simp only [beq_self_eq_true, if_true, Option.some.injEq]
    constructor
    · intro hj
      simp [← hj]
    · intro hj
      split at hj
      · rename_i heq
        exact heq.symm
      · exact absurd hj (hnone j)
  · have hbeq : (key == key') = false := by simp [hkk]
    simp only [hbeq, Bool.false_eq_true, if_false, h key' j]
    split
    · rename_i heq
      subst heq
      simp [hkk]
    · rfl

/-- The index after the entry at position `i` is taken out: positions past it move down by one. -/
def shiftDown (index : Std.HashMap String Nat) (i : Nat) : Std.HashMap String Nat :=
  index.map fun _ j => if i < j then j - 1 else j

/-- Taking out an entry and moving the later positions down keeps the index right. -/
theorem Indexed.erase {entries : Array (String × α)} {index : Std.HashMap String Nat}
    (h : Indexed entries index) {key : String} {i : Nat} (hi : index[key]? = some i) :
    Indexed (entries.eraseIdx i (h.lt_size hi)) (shiftDown (index.erase key) i) := by
  have hk := (h key i).1 hi
  intro key' j
  rw [shiftDown, Std.HashMap.getElem?_map, Std.HashMap.getElem?_erase, Array.getElem?_eraseIdx]
  by_cases hkk : key = key'
  · subst hkk
    simp only [beq_self_eq_true, if_true, Option.map_none, reduceCtorEq, false_iff]
    intro hj
    split at hj
    · rename_i hlt
      rw [← h key j, hi] at hj
      simp at hj
      omega
    · rename_i hge
      rw [← h key (j + 1), hi] at hj
      simp at hj
      omega
  · have hbeq : (key == key') = false := by simp [hkk]
    simp only [hbeq, Bool.false_eq_true, if_false, Option.map_eq_some_iff]
    have hne : ∀ l, index[key']? = some l → l ≠ i := by
      intro l hl heq
      subst heq
      have := (h key' l).1 hl
      rw [hk] at this
      exact hkk (Option.some.inj this)
    constructor
    · rintro ⟨l, hl, hlj⟩
      have hli := hne l hl
      have hentry := (h key' l).1 hl
      obtain ⟨e, he, hek⟩ := Option.map_eq_some_iff.1 hentry
      split at hlj
      · have : j + 1 = l := by omega
        rw [if_neg (by omega), this]
        exact ⟨e, he, hek⟩
      · rw [if_pos (by omega), ← hlj]
        exact ⟨e, he, hek⟩
    · rintro ⟨e, he, hek⟩
      split at he
      · rename_i hlt
        exact ⟨j, (h key' j).2 (by simp [he, hek]), by rw [if_neg (by omega)]⟩
      · rename_i hge
        exact ⟨j + 1, (h key' (j + 1)).2 (by simp [he, hek]), by rw [if_pos (by omega)]; omega⟩

/-! ### Operations -/

/-- The object without entries. -/
def empty : Object α := ⟨#[], ∅, .empty⟩

/-- The entries in order. -/
def toEntries (o : Object α) : Entries α := o.entries.toList

/-- The number of entries. -/
def size (o : Object α) : Nat := o.entries.size

/-- Whether there is no entry. -/
def isEmpty (o : Object α) : Bool := o.entries.isEmpty

/-- The keys in order. -/
def keys (o : Object α) : List String := o.toEntries.keys

/-- The values in the order of their keys. -/
def values (o : Object α) : List α := o.toEntries.values

/-- Whether the key occurs. -/
def contains (o : Object α) (key : String) : Bool := o.index.contains key

/-- The value at a key. -/
def get? (o : Object α) (key : String) : Option α :=
  match h : o.index[key]? with
  | none => none
  | some i =>
    have := o.indexed.lt_size h
    some o.entries[i].2

/-- The object with a value at a key, and the value that was there before. -/
def insert (o : Object α) (key : String) (value : α) : Option α × Object α :=
  match h : o.index[key]? with
  | none =>
    (none,
      ⟨o.entries.push (key, value), o.index.insert key o.entries.size, o.indexed.push h value⟩)
  | some i =>
    have := o.indexed.lt_size h
    (some o.entries[i].2,
      ⟨o.entries.set i (key, value) (o.indexed.lt_size h), o.index, o.indexed.set h value⟩)

/-- The object without a key, and the value that was there. -/
def remove (o : Object α) (key : String) : Option α × Object α :=
  match h : o.index[key]? with
  | none => (none, o)
  | some i =>
    have := o.indexed.lt_size h
    (some o.entries[i].2,
      ⟨o.entries.eraseIdx i (o.indexed.lt_size h), shiftDown (o.index.erase key) i,
        o.indexed.erase h⟩)

/-- The object with all the pairs inserted, one after the other. -/
def extend (o : Object α) (pairs : List (String × α)) : Object α :=
  pairs.foldl (fun o pair => (o.insert pair.1 pair.2).2) o

/-- The object that the pairs make up when they are inserted one after the other. -/
def ofPairs (pairs : List (String × α)) : Object α := empty.extend pairs

end Object

end DataExpr
