import DataExpr.Object
import DataExpr.Proofs.Entries
import Mathlib.Data.List.Nodup

/-!
# Objects as entries

An object with an index says the same as its entries alone: no key occurs twice among them
(`Object.nodup_keys`), and the index finds what a search through them finds (`Object.get?_toEntries`).
-/

namespace DataExpr.Object

variable {α : Type}

theorem getElem?_keys (o : Object α) (i : Nat) : o.keys[i]? = o.entries[i]?.map Prod.fst := by
  rw [keys, Entries.keys, List.getElem?_map, toEntries, Array.getElem?_toList]

/-- A key has one position in the index, so it cannot be at two. -/
theorem nodup_keys (o : Object α) : o.keys.Nodup := by
  rw [List.nodup_iff_getElem?_ne_getElem?]
  intro i j hij hj heq
  have hi : o.index[o.keys[j]]? = some i :=
    (o.indexed _ i).2 (by rw [← getElem?_keys, heq, List.getElem?_eq_getElem hj])
  have hj' : o.index[o.keys[j]]? = some j :=
    (o.indexed _ j).2 (by rw [← getElem?_keys, List.getElem?_eq_getElem hj])
  exact Nat.ne_of_lt hij (Option.some.inj (hi.symm.trans hj'))

/-- The index finds the value that a search through the entries finds. -/
theorem get?_toEntries (o : Object α) (key : String) :
    Entries.get? o.toEntries key = o.get? key := by
  unfold get?
  split
  · rename_i hnone
    rw [Entries.get?_eq_none_iff]
    intro hkey
    obtain ⟨i, hi⟩ := List.getElem?_of_mem hkey
    have hindex : o.index[key]? = some i := (o.indexed key i).2 (o.getElem?_keys i ▸ hi)
    rw [hnone] at hindex
    cases hindex
  · rename_i i hi
    have hlt := o.indexed.lt_size hi
    have hkey : o.entries[i].1 = key := by
      have hfst := (o.indexed key i).1 hi
      rwa [Array.getElem?_eq_getElem hlt, Option.map_some, Option.some.injEq] at hfst
    have hmem : (key, o.entries[i].2) ∈ o.toEntries :=
      hkey ▸ Array.mem_toList_iff.2 (Array.getElem_mem hlt)
    exact Entries.get?_of_mem o.nodup_keys hmem

end DataExpr.Object
