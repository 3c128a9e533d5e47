import DataExpr.Proofs.Entries
import Mathlib.Data.List.Nodup
import Mathlib.Data.List.Perm.Lattice

/-!
# What writing and removing leave in place

Removing keys leaves what is found at the others (`get?_erase`, `get?_foldl_erase`).  Entries that have
come from others by writing and removing have the keys that are left of these in their old order, and
all new keys after them (`Entries.KeepsOrder`).  Writing to a key that is there keeps that, and so does
adding a key that has not been there before; adding one again that has been removed does not.
-/

namespace DataExpr.Entries

variable {α : Type} {es fs pairs : Entries α} {key : String}

/-! ### Looking up -/

theorem get?_erase (h : (keys es).Nodup) (key k : String) :
    get? (erase es key) k = if key = k then none else get? es k := by
  induction es with
  | nil => simp [erase, get?]
  | cons e es ih =>
    obtain ⟨k', v⟩ := e
    rw [keys_cons, List.nodup_cons] at h
    rw [erase, get?]
    split
    · rename_i hk
      subst hk
      split
      · rename_i hk
        rw [get?_eq_none_iff, ← hk]
        exact h.1
      · rfl
    · rename_i hk
      rw [get?, ih h.2]
      by_cases hkk : k' = k
      · rw [if_pos hkk, if_pos hkk, if_neg fun hkey => hk (hkk.trans hkey.symm)]
      · rw [if_neg hkk, if_neg hkk]

theorem nodup_keys_foldl_erase (h : (keys es).Nodup) (ks : List String) :
    (keys (ks.foldl erase es)).Nodup := by
  induction ks generalizing es with
  | nil => exact h
  | cons k ks ih => exact ih (nodup_keys_erase h k)

theorem get?_foldl_erase (h : (keys es).Nodup) (ks : List String) (k : String) :
    get? (ks.foldl erase es) k = if k ∈ ks then none else get? es k := by
  induction ks generalizing es with
  | nil => simp
  | cons k' ks ih =>
    rw [List.foldl_cons, ih (nodup_keys_erase h k'), get?_erase h]
    by_cases hk : k ∈ ks
    · simp [hk]
    · by_cases hkk : k' = k
      · simp [hkk]
      · simp [hk, hkk, Ne.symm hkk]

/-- Picking entries by their keys leaves what is found at the keys that are picked. -/
theorem get?_filter (es : Entries α) (picked : String → Bool) (k : String) :
    get? (es.filter fun e => picked e.1) k = if picked k then get? es k else none := by
  induction es with
  | nil => simp [get?]
  | cons e es ih =>
    obtain ⟨k', v⟩ := e
    rw [List.filter_cons]
    by_cases hkk : k' = k
    · subst hkk
      cases hp : picked k' with
      | true => simp [get?]
      | false => simp [ih, hp]
    · cases hp : picked k' with
      | true => simp [get?, hkk, ih]
      | false => simp [get?, hkk, ih]

theorem get?_without (es : Entries α) (named : List String) (k : String) :
    get? (without es named) k = if k ∈ named then none else get? es k := by
  rw [without, get?_filter es fun k => !named.contains k]
  by_cases hk : k ∈ named
  · simp [hk]
  · simp [hk]

theorem nodup_keys_filter (h : (keys es).Nodup) (picked : String × α → Bool) :
    (keys (es.filter picked)).Nodup :=
  h.sublist (List.filter_sublist.map Prod.fst)

theorem mem_keys_iff_get? {k : String} : k ∈ keys es ↔ get? es k ≠ none := by
  rw [Ne, get?_eq_none_iff, not_not]

/-- Where no key occurs twice, entries with the same at all keys are the same up to their order. -/
theorem perm_of_get?_eq (hes : (keys es).Nodup) (hfs : (keys fs).Nodup)
    (h : ∀ k, get? es k = get? fs k) : es.Perm fs := by
  refine (List.perm_ext_iff_of_nodup hes.of_map hfs.of_map).2 fun e => ?_
  constructor
  · intro he
    exact mem_of_get? ((h e.1).symm.trans (get?_of_mem hes he))
  · intro he
    exact mem_of_get? ((h e.1).trans (get?_of_mem hfs he))

/-! ### The order of keys -/

theorem mem_keys_insert {v : α} {k : String} : k ∈ keys (insert es key v) ↔ k = key ∨ k ∈ keys es := by
  rw [keys_insert]
  split
  · rename_i hkey
    constructor
    · exact .inr
    · rintro (rfl | hk)
      · exact hkey
      · exact hk
  · rw [List.mem_append, List.mem_singleton, or_comm]

/-- The keys that are left of the first entries stand in their old order, before all new ones. -/
def KeepsOrder (es fs : Entries α) : Prop :=
  ∃ kept added, keys fs = kept ++ added ∧ kept.Sublist (keys es) ∧ ∀ k ∈ added, k ∉ keys es

theorem keepsOrder_refl (es : Entries α) : KeepsOrder es es :=
  ⟨keys es, [], (List.append_nil _).symm, .refl _, nofun⟩

/-- A key that is there keeps its place, and one that is new goes to the end. -/
theorem KeepsOrder.insert (h : KeepsOrder es fs) (hkey : key ∈ keys fs ∨ key ∉ keys es) (v : α) :
    KeepsOrder es (insert fs key v) := by
  obtain ⟨kept, added, hkeys, hkept, hadded⟩ := h
  by_cases hmem : key ∈ keys fs
  · refine ⟨kept, added, ?_, hkept, hadded⟩
    rw [keys_insert, if_pos hmem, hkeys]
  · refine ⟨kept, added ++ [key], ?_, hkept, ?_⟩
    · rw [keys_insert, if_neg hmem, hkeys, List.append_assoc]
    · rw [List.forall_mem_append, List.forall_mem_singleton]
      exact ⟨hadded, hkey.resolve_left hmem⟩

theorem KeepsOrder.erase (h : KeepsOrder es fs) (key : String) : KeepsOrder es (erase fs key) := by
  obtain ⟨kept, added, hkeys, hkept, hadded⟩ := h
  rw [KeepsOrder, keys_erase, hkeys, List.erase_append]
  split
  · exact ⟨_, added, rfl, List.erase_sublist.trans hkept, hadded⟩
  · exact ⟨kept, _, rfl, hkept, fun k hk => hadded k (List.mem_of_mem_erase hk)⟩

theorem KeepsOrder.foldl_erase (h : KeepsOrder es fs) (ks : List String) :
    KeepsOrder es (ks.foldl Entries.erase fs) := by
  induction ks generalizing fs with
  | nil => exact h
  | cons k ks ih => exact ih (h.erase k)

theorem KeepsOrder.insertAll (h : KeepsOrder es fs)
    (hpairs : ∀ k ∈ keys pairs, k ∈ keys fs ∨ k ∉ keys es) : KeepsOrder es (insertAll fs pairs) := by
  induction pairs generalizing fs with
  | nil => exact h
  | cons p ps ih =>
    rw [keys_cons, List.forall_mem_cons] at hpairs
    refine ih (h.insert hpairs.1 p.2) fun k hk => (hpairs.2 k hk).imp_left fun hmem => ?_
    exact mem_keys_insert.2 (.inr hmem)

end DataExpr.Entries
