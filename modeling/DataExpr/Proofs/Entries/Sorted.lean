import DataExpr.Proofs.Entries.Related
import Mathlib.Data.String.Basic

/-!
# Entries in ascending order

`Entries.sorted` puts pairs into ascending order of keys (`Entries.Ascending`).  What is found at a
key stays the same where no key occurs twice (`get?_sorted`), and so do the keys but for their order
(`keys_sorted_perm`).  Pairs that are in ascending order already stay as they are
(`sorted_of_ascending`).
-/

namespace DataExpr.Entries

variable {α β : Type} {R : α → β → Prop} {es ps : Entries α} {fs qs : Entries β} {key : String}
  {v : α}

/-- Whether each key is smaller than all keys after it. -/
def Ascending (es : Entries α) : Prop := (keys es).Pairwise (· < ·)

instance (es : Entries α) : Decidable (Ascending es) :=
  inferInstanceAs (Decidable ((keys es).Pairwise (· < ·)))

theorem Ascending.nodup (h : Ascending es) : (keys es).Nodup := h.imp fun hlt => hlt.ne

/-! ### Writing to one key -/

theorem mem_keys_insertSorted {k : String} :
    k ∈ keys (insertSorted key v es) ↔ k = key ∨ k ∈ keys es := by
  induction es with
  | nil => simp [insertSorted]
  | cons e es ih =>
    obtain ⟨k', v'⟩ := e
    rw [insertSorted]
    split
    · simp
    split
    · rename_i hk
      simp [hk]
    · rw [keys_cons, List.mem_cons, ih, keys_cons, List.mem_cons]
      exact or_left_comm

theorem Ascending.insertSorted (h : Ascending es) (key : String) (v : α) :
    Ascending (insertSorted key v es) := by
  induction es with
  | nil => exact List.pairwise_singleton _ key
  | cons e es ih =>
    obtain ⟨k, u⟩ := e
    obtain ⟨hk, hes⟩ := List.pairwise_cons.1 h
    rw [Entries.insertSorted]
    split
    · rename_i hlt
      refine List.pairwise_cons.2 ⟨List.forall_mem_cons.2 ⟨hlt, ?_⟩, h⟩
      exact fun k' hk' => hlt.trans (hk k' hk')
    split
    · exact h
    · rename_i hlt hne
      refine List.pairwise_cons.2 ⟨fun k' hk' => ?_, ih hes⟩
      rcases mem_keys_insertSorted.1 hk' with rfl | hk'
      · exact lt_of_le_of_ne (not_lt.1 hlt) hne
      · exact hk k' hk'

theorem get?_insertSorted (es : Entries α) (key : String) (v : α) (k : String) :
    get? (insertSorted key v es) k = if key = k then some v else get? es k := by
  induction es with
  | nil => rfl
  | cons e es ih =>
    obtain ⟨k', u⟩ := e
    rw [insertSorted]
    split
    · rfl
    split
    · rename_i hk
      rw [get?, get?, hk]
      split <;> rfl
    · rename_i hk
      rw [get?, get?, ih]
      by_cases hkey : key = k
      · rw [if_neg (hkey ▸ hk), if_pos hkey, if_pos hkey]
      · rw [if_neg hkey, if_neg hkey]

/-- A key that is larger than all others goes to the end. -/
theorem insertSorted_of_lt (h : ∀ k ∈ keys es, k < key) (v : α) :
    insertSorted key v es = es ++ [(key, v)] := by
  induction es with
  | nil => rfl
  | cons e es ih =>
    obtain ⟨hk, hes⟩ := List.forall_mem_cons.1 h
    rw [insertSorted, if_neg hk.not_gt, if_neg hk.ne, ih hes, List.cons_append]

theorem Related.insertSorted (h : Related R es fs) (key : String) {a : α} {b : β} (hab : R a b) :
    Related R (insertSorted key a es) (insertSorted key b fs) := by
  induction h with
  | nil => exact .cons ⟨rfl, hab⟩ .nil
  | @cons e f es fs hef hrest ih =>
    rw [Entries.insertSorted, Entries.insertSorted, ← hef.1]
    split
    · exact .cons ⟨rfl, hab⟩ (.cons ⟨rfl, hef.2⟩ hrest)
    split
    · exact .cons ⟨rfl, hab⟩ hrest
    · exact .cons ⟨rfl, hef.2⟩ ih

/-! ### Writing to many keys -/

/-- Ascending entries with the pairs put among them one after the other. -/
def insertAllSorted (es pairs : Entries α) : Entries α :=
  pairs.foldl (fun es pair => insertSorted pair.1 pair.2 es) es

theorem sorted_eq (pairs : Entries α) : sorted pairs = insertAllSorted [] pairs := rfl

theorem Ascending.insertAllSorted (h : Ascending es) (pairs : Entries α) :
    Ascending (insertAllSorted es pairs) := by
  induction pairs generalizing es with
  | nil => exact h
  | cons p ps ih => exact ih (h.insertSorted p.1 p.2)

theorem ascending_sorted (pairs : Entries α) : Ascending (sorted pairs) := by
  have hnil : Ascending ([] : Entries α) := .nil
  exact hnil.insertAllSorted pairs

theorem mem_keys_insertAllSorted {k : String} :
    k ∈ keys (insertAllSorted es ps) ↔ k ∈ keys ps ∨ k ∈ keys es := by
  induction ps generalizing es with
  | nil => simp [insertAllSorted]
  | cons p ps ih =>
    show k ∈ keys (insertAllSorted (insertSorted p.1 p.2 es) ps) ↔ _
    rw [ih, mem_keys_insertSorted, keys_cons, List.mem_cons, or_left_comm, or_assoc]

theorem keys_sorted_perm (hd : (keys ps).Nodup) : (keys (sorted ps)).Perm (keys ps) := by
  refine (List.perm_ext_iff_of_nodup (ascending_sorted ps).nodup hd).2 fun k => ?_
  rw [sorted_eq, mem_keys_insertAllSorted]
  simp

theorem get?_insertAllSorted (hd : (keys ps).Nodup) (es : Entries α) (key : String) :
    get? (insertAllSorted es ps) key = (get? ps key).or (get? es key) := by
  induction ps generalizing es with
  | nil => rfl
  | cons p ps ih =>
    rw [keys_cons, List.nodup_cons] at hd
    show get? (insertAllSorted (insertSorted p.1 p.2 es) ps) key = _
    rw [ih hd.2, get?_insertSorted, get?]
    split
    · rename_i hk
      rw [(get?_eq_none_iff ps key).2 (hk ▸ hd.1), Option.none_or, Option.some_or]
    · rfl

theorem get?_sorted (hd : (keys ps).Nodup) (key : String) : get? (sorted ps) key = get? ps key := by
  rw [sorted_eq, get?_insertAllSorted hd, get?, Option.or_none]

/-- Pairs in ascending order whose keys are larger than those of the entries come after them. -/
theorem insertAllSorted_of_lt (hps : Ascending ps) (h : ∀ k ∈ keys es, ∀ k' ∈ keys ps, k < k') :
    insertAllSorted es ps = es ++ ps := by
  induction ps generalizing es with
  | nil => exact (List.append_nil es).symm
  | cons p ps ih =>
    obtain ⟨hp, hps⟩ := List.pairwise_cons.1 hps
    show insertAllSorted (insertSorted p.1 p.2 es) ps = _
    rw [insertSorted_of_lt fun k hk => h k hk p.1 List.mem_cons_self, ih hps, List.append_assoc,
      List.singleton_append]
    intro k hk k' hk'
    rw [keys, List.map_append, List.mem_append] at hk
    rcases hk with hk | hk
    · exact h k hk k' (List.mem_cons_of_mem _ hk')
    · rw [List.mem_singleton.1 hk]
      exact hp k' hk'

theorem sorted_of_ascending (h : Ascending ps) : sorted ps = ps :=
  insertAllSorted_of_lt h nofun

theorem Related.insertAllSorted (h : Related R es fs) (hp : Related R ps qs) :
    Related R (insertAllSorted es ps) (insertAllSorted fs qs) := by
  induction hp generalizing es fs with
  | nil => exact h
  | @cons p q ps qs hpq _ ih =>
    show Related R (Entries.insertAllSorted (Entries.insertSorted p.1 p.2 es) ps)
      (Entries.insertAllSorted (Entries.insertSorted q.1 q.2 fs) qs)
    rw [← hpq.1]
    exact ih (h.insertSorted p.1 hpq.2)

theorem Related.sorted (h : Related R ps qs) : Related R (sorted ps) (sorted qs) :=
  insertAllSorted .nil h

end DataExpr.Entries
