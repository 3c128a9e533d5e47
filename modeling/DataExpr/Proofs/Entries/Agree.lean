import DataExpr.Proofs.Entries
import Mathlib.Data.List.Perm.Subperm

/-!
# Entries that agree

Entries agree (`Entries.Agree`) if they have the same keys, in whatever order, and related values at
them.  It is enough to look from one side: where no key occurs twice, entries agree with as many others
if each of them has a related one among the others (`agree_iff`).
-/

namespace DataExpr.Entries

variable {α β γ : Type} {R : α → β → Prop} {es : Entries α} {fs : Entries β} {gs : Entries γ}

theorem exists_get?_of_mem_keys {key : String} (h : key ∈ keys es) : ∃ v, get? es key = some v :=
  Option.ne_none_iff_exists'.1 fun hnone => (get?_eq_none_iff es key).1 hnone h

/-- Whether the entries have the same keys, in whatever order, and related values at each. -/
structure Agree (R : α → β → Prop) (es : Entries α) (fs : Entries β) : Prop where
  keys : (keys es).Perm (keys fs)
  values : ∀ {key v w}, get? es key = some v → get? fs key = some w → R v w

theorem Agree.flip (h : Agree R es fs) : Agree (fun w v => R v w) fs es :=
  ⟨h.keys.symm, fun hw hv => h.values hv hw⟩

theorem Agree.imp_of_mem {S : α → β → Prop} (h : Agree R es fs)
    (hS : ∀ e ∈ es, ∀ f ∈ fs, R e.2 f.2 → S e.2 f.2) : Agree S es fs :=
  ⟨h.keys, fun hv hw => hS _ (mem_of_get? hv) _ (mem_of_get? hw) (h.values hv hw)⟩

theorem agree_congr_of_mem {S : α → β → Prop}
    (hRS : ∀ e ∈ es, ∀ f ∈ fs, (R e.2 f.2 ↔ S e.2 f.2)) : Agree R es fs ↔ Agree S es fs :=
  ⟨fun h => h.imp_of_mem fun e he f hf => (hRS e he f hf).1,
    fun h => h.imp_of_mem fun e he f hf => (hRS e he f hf).2⟩

theorem Agree.trans {S : β → γ → Prop} {T : α → γ → Prop} (h : Agree R es fs) (h' : Agree S fs gs)
    (hT : ∀ e ∈ es, ∀ w x, R e.2 w → S w x → T e.2 x) : Agree T es gs := by
  refine ⟨h.keys.trans h'.keys, fun {key v x} hv hx => ?_⟩
  have hkey : key ∈ Entries.keys fs := h.keys.mem_iff.1 (mem_keys_of_mem (mem_of_get? hv))
  obtain ⟨w, hw⟩ := exists_get?_of_mem_keys hkey
  exact hT _ (mem_of_get? hv) w x (h.values hv hw) (h'.values hw hx)

theorem agree_mapValues {α' β' : Type} {S : α' → β' → Prop} {f : α → α'} {g : β → β'} :
    Agree S (mapValues f es) (mapValues g fs) ↔ Agree (fun v w => S (f v) (g w)) es fs := by
  constructor
  · rintro ⟨hkeys, hvalues⟩
    rw [keys_mapValues, keys_mapValues] at hkeys
    refine ⟨hkeys, fun {key v w} hv hw => ?_⟩
    have hv' : get? (mapValues f es) key = some (f v) := by rw [get?_mapValues, hv, Option.map_some]
    have hw' : get? (mapValues g fs) key = some (g w) := by rw [get?_mapValues, hw, Option.map_some]
    exact hvalues hv' hw'
  · rintro ⟨hkeys, hvalues⟩
    refine ⟨by rwa [keys_mapValues, keys_mapValues], fun {key x y} hx hy => ?_⟩
    rw [get?_mapValues] at hx hy
    obtain ⟨v, hv, rfl⟩ := Option.map_eq_some_iff.1 hx
    obtain ⟨w, hw, rfl⟩ := Option.map_eq_some_iff.1 hy
    exact hvalues hv hw

/-- Entries agree if there are as many of them and each has a related one among the others. -/
theorem agree_iff (hes : (keys es).Nodup) :
    Agree R es fs ↔
      es.length = fs.length ∧ ∀ e ∈ es, ∃ w, get? fs e.1 = some w ∧ R e.2 w := by
  constructor
  · intro h
    refine ⟨by simpa [Entries.keys] using h.keys.length_eq, fun e he => ?_⟩
    obtain ⟨w, hw⟩ := exists_get?_of_mem_keys (h.keys.mem_iff.1 (mem_keys_of_mem he))
    exact ⟨w, hw, h.values (get?_of_mem hes he) hw⟩
  · rintro ⟨hlength, h⟩
    have hsubset : keys es ⊆ keys fs := by
      refine List.forall_mem_map.2 fun e he => ?_
      obtain ⟨w, hw, -⟩ := h e he
      exact mem_keys_of_mem (mem_of_get? hw)
    -- No key occurs twice, so as many keys among those of the others are all of them.
    refine ⟨(List.subperm_of_subset hes hsubset).perm_of_length_le ?_, fun {key v w} hv hw => ?_⟩
    · exact Nat.le_of_eq (by simp [keys, hlength])
    · obtain ⟨w', hw', hR⟩ := h _ (mem_of_get? hv)
      exact Option.some.inj (hw'.symm.trans hw) ▸ hR

end DataExpr.Entries
