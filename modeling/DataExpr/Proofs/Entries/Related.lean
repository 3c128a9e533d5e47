import DataExpr.Proofs.Entries
import Mathlib.Data.List.Forall2

/-!
# Entries with related values

Entries are related (`Entries.Related`) if they have the same keys in the same order and related values
at them.  Looking up, writing and removing keep that, whatever the relation is.
-/

namespace DataExpr.Entries

variable {α β : Type} {R : α → β → Prop} {es ps : Entries α} {fs qs : Entries β}

/-- The same keys in the same order, with related values. -/
def Related (R : α → β → Prop) (es : Entries α) (fs : Entries β) : Prop :=
  List.Forall₂ (fun e f => e.1 = f.1 ∧ R e.2 f.2) es fs

theorem related_iff :
    Related R es fs ↔ keys es = keys fs ∧ List.Forall₂ R (values es) (values fs) := by
  constructor
  · intro h
    induction h with
    | nil => exact ⟨rfl, .nil⟩
    | cons hef _ ih =>
      rw [keys_cons, keys_cons, hef.1, ih.1]
      exact ⟨rfl, .cons hef.2 ih.2⟩
  · rintro ⟨hkeys, hvalues⟩
    induction es generalizing fs with
    | nil =>
      obtain rfl := List.map_eq_nil_iff.1 hkeys.symm
      exact .nil
    | cons e es ih =>
      obtain ⟨f, fs, rfl, hkey, hkeys⟩ := List.map_eq_cons_iff.1 hkeys.symm
      cases hvalues with
      | cons hef hvalues => exact .cons ⟨hkey.symm, hef⟩ (ih hkeys.symm hvalues)

theorem Related.get? (h : Related R es fs) (key : String) :
    Option.Rel R (get? es key) (get? fs key) := by
  induction h with
  | nil => exact .none
  | @cons e f es fs hef _ ih =>
    rw [Entries.get?, Entries.get?, ← hef.1]
    split
    · exact .some hef.2
    · exact ih

theorem Related.contains_eq (h : Related R es fs) (key : String) :
    contains es key = contains fs key := by
  have hget := h.get? key
  rw [contains, contains]
  generalize Entries.get? es key = a, Entries.get? fs key = b at hget
  cases hget <;> rfl

theorem Related.insert (h : Related R es fs) (key : String) {a : α} {b : β} (hab : R a b) :
    Related R (insert es key a) (insert fs key b) := by
  induction h with
  | nil => exact .cons ⟨rfl, hab⟩ .nil
  | @cons e f es fs hef hrest ih =>
    rw [Entries.insert, Entries.insert, ← hef.1]
    split
    · exact .cons ⟨rfl, hab⟩ hrest
    · exact .cons ⟨rfl, hef.2⟩ ih

theorem Related.erase (h : Related R es fs) (key : String) :
    Related R (erase es key) (erase fs key) := by
  induction h with
  | nil => exact .nil
  | @cons e f es fs hef hrest ih =>
    rw [Entries.erase, Entries.erase, ← hef.1]
    split
    · exact hrest
    · exact .cons ⟨rfl, hef.2⟩ ih

theorem Related.insertAll (h : Related R es fs) (hp : Related R ps qs) :
    Related R (insertAll es ps) (insertAll fs qs) := by
  induction hp generalizing es fs with
  | nil => exact h
  | @cons p q ps qs hpq _ ih =>
    show Related R (Entries.insertAll (Entries.insert es p.1 p.2) ps)
      (Entries.insertAll (Entries.insert fs q.1 q.2) qs)
    rw [← hpq.1]
    exact ih (h.insert p.1 hpq.2)

theorem Related.ofPairs (h : Related R ps qs) : Related R (ofPairs ps) (ofPairs qs) :=
  insertAll .nil h

theorem Related.without (h : Related R es fs) (named : List String) :
    Related R (without es named) (without fs named) := by
  induction h with
  | nil => exact .nil
  | @cons e f es fs hef _ ih =>
    simp only [Entries.without, List.filter_cons, ← hef.1] at ih ⊢
    split
    · exact .cons hef ih
    · exact ih

theorem Related.mapValues {α' β' : Type} {S : α' → β' → Prop} {f : α → α'} {g : β → β'}
    (h : Related R es fs) (hfg : ∀ a b, R a b → S (f a) (g b)) :
    Related S (mapValues f es) (mapValues g fs) := by
  induction h with
  | nil => exact .nil
  | cons hef _ ih => exact .cons ⟨hef.1, hfg _ _ hef.2⟩ ih

/-- Keys paired with related values. -/
theorem Related.zip (keys : List String) {as : List α} {bs : List β} (h : List.Forall₂ R as bs) :
    Related R (keys.zip as) (keys.zip bs) := by
  induction h generalizing keys with
  | nil =>
    rw [List.zip_nil_right, List.zip_nil_right]
    exact .nil
  | cons hab _ ih =>
    cases keys with
    | nil => exact .nil
    | cons k ks => exact .cons ⟨rfl, hab⟩ (ih ks)

end DataExpr.Entries
