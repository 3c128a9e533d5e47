import Mathlib.Data.List.Forall2
import Mathlib.Data.List.TakeWhile

/-!
# Facts about lists

What the theory of the interpreter needs to know about lists in general: the member at a position with
the lists before and after it, fronts with a property, and two lists whose members are related one by
one.
-/

namespace DataExpr.Lists

variable {α β γ : Type}

/-! ### Members at a position -/

section Positions

variable {as : List α} {n : Nat} {a : α}

/-- A list around the member at a position. -/
theorem split_of_getElem? (h : as[n]? = some a) :
    ∃ pre post, as = pre ++ a :: post ∧ pre.length = n := by
  obtain ⟨hn, rfl⟩ := List.getElem?_eq_some_iff.1 h
  refine ⟨as.take n, as.drop (n + 1), ?_, List.length_take_of_le (Nat.le_of_lt hn)⟩
  rw [List.getElem_cons_drop, List.take_append_drop]

theorem getElem?_length (pre : List α) (a : α) (post : List α) :
    (pre ++ a :: post)[pre.length]? = some a := by
  rw [List.getElem?_append_right (Nat.le_refl _), Nat.sub_self]
  rfl

theorem set_length (pre : List α) (a b : α) (post : List α) :
    (pre ++ a :: post).set pre.length b = pre ++ b :: post := by
  rw [List.set_append_right _ _ (Nat.le_refl _), Nat.sub_self]
  rfl

theorem drop_of_getElem? (h : as[n]? = some a) : as.drop n = a :: as.drop (n + 1) := by
  obtain ⟨hn, hget⟩ := List.getElem?_eq_some_iff.1 h
  rw [← hget, ← List.drop_eq_getElem_cons hn]

theorem not_mem_drop_succ (hd : as.Nodup) (h : as[n]? = some a) : a ∉ as.drop (n + 1) := by
  have hdrop := hd.sublist (List.drop_sublist n as)
  rw [drop_of_getElem? h, List.nodup_cons] at hdrop
  exact hdrop.1

/-- The member at an index among those that pass a test is the same for another test that differs only
on later members. -/
theorem getElem?_filter_congr (hd : as.Nodup) {p q : α → Bool} (ha : (as.filter p)[n]? = some a)
    (hq : ∀ b ∈ as, b ∉ (as.filter p).drop (n + 1) → q b = p b) :
    (as.filter q)[n]? = some a := by
  induction as generalizing n with
  | nil => cases ha
  | cons b bs ih =>
    rw [List.nodup_cons] at hd
    -- No member occurs twice, so the first one is none of the later ones.
    have hb : q b = p b := by
      refine hq b List.mem_cons_self fun hmem => hd.1 ?_
      rw [List.filter_cons] at hmem
      split at hmem
      · rw [List.drop_succ_cons] at hmem
        exact (List.mem_filter.1 (List.mem_of_mem_drop hmem)).1
      · exact (List.mem_filter.1 (List.mem_of_mem_drop hmem)).1
    rw [List.filter_cons] at ha hq ⊢
    rw [hb]
    split
    · rename_i hpb
      rw [if_pos hpb] at ha hq
      rw [List.drop_succ_cons] at hq
      cases n with
      | zero => exact ha
      | succ n => exact ih hd.2 ha fun c hc => hq c (List.mem_cons_of_mem _ hc)
    · rename_i hpb
      rw [if_neg hpb] at ha hq
      exact ih hd.2 ha fun c hc => hq c (List.mem_cons_of_mem _ hc)

end Positions

/-! ### Pieces -/

section Pieces

variable {p : α → Bool} {as bs rest : List α} {c : α}

/-- A sequence is made of what comes before a slice of it, the slice and what comes after it. -/
theorem take_append_slice_append_drop (as : List α) {first last : Nat} (h : first ≤ last) :
    as.take first ++ (as.take last).drop first ++ as.drop last = as := by
  have hfirst : as.take first = (as.take last).take first := by
    rw [List.take_take, Nat.min_eq_left h]
  rw [hfirst, List.take_append_drop, List.take_append_drop]

/-- A member of a list in two pieces is in the first or in the second. -/
theorem mem_pieces {before after : List α} (h : as ++ bs = before ++ c :: after) :
    (∃ after', as = before ++ c :: after') ∨ ∃ before', before = as ++ before' ∧
      bs = before' ++ c :: after := by
  rcases List.append_eq_append_iff.1 h with ⟨before', hbefore, hbs⟩ | ⟨text, has, htext⟩
  · exact .inr ⟨before', hbefore, hbs⟩
  · rcases List.cons_eq_append_iff.1 htext with ⟨rfl, hbs⟩ | ⟨after', rfl, _⟩
    · rw [List.append_nil] at has
      exact .inr ⟨[], by rw [has, List.append_nil], hbs⟩
    · exact .inl ⟨after', has⟩

/-- A front with a property ends where the first member without the property stands. -/
theorem takeWhile_append (has : ∀ a ∈ as, p a = true) (hrest : ∀ a ∈ rest.head?, p a = false) :
    (as ++ rest).takeWhile p = as := by
  have htake : rest.takeWhile p = [] := by
    cases rest with
    | nil => rfl
    | cons a as => rw [List.takeWhile_cons, hrest a rfl, if_neg Bool.false_ne_true]
  rw [List.takeWhile_append_of_pos has, htake, List.append_nil]

/-- What follows such a front begins with the first member without the property. -/
theorem dropWhile_append (has : ∀ a ∈ as, p a = true) (hrest : ∀ a ∈ rest.head?, p a = false) :
    (as ++ rest).dropWhile p = rest := by
  rw [List.dropWhile_append_of_pos has]
  cases rest with
  | nil => rfl
  | cons a as => rw [List.dropWhile_cons, hrest a rfl, if_neg Bool.false_ne_true]

/-- A front that is a whole list is taken also when more follows. -/
theorem prefix_takeWhile_append (h : as.takeWhile p = as) (rest : List α) :
    as <+: (as ++ rest).takeWhile p := by
  have has : ∀ a ∈ as, p a = true := by
    intro a ha
    rw [← h] at ha
    exact List.mem_takeWhile_imp ha
  rw [List.takeWhile_append_of_pos has]
  exact List.prefix_append as _

/-- What is left after the longest front with a property does not begin with the property. -/
theorem head_dropWhile (p : α → Bool) (as : List α) :
    ∀ a ∈ (as.dropWhile p).head?, p a = false := by
  intro a ha
  have hhead := List.head?_dropWhile_not p as
  rw [Option.mem_def.1 ha] at hhead
  exact hhead

/-- What stands before the first of the parts stands before them all. -/
theorem intercalate_append_cons (sep as bs : List α) (rest : List (List α)) :
    sep.intercalate ((as ++ bs) :: rest) = as ++ sep.intercalate (bs :: rest) := by
  cases rest with
  | nil => rw [List.intercalate_singleton, List.intercalate_singleton]
  | cons cs rest =>
    rw [List.intercalate_cons_cons, List.intercalate_cons_cons]
    simp only [List.append_assoc]

/-- A list of parts none of which is empty has as many members as parts. -/
theorem le_length_flatMap_range {f : Nat → List α} (h : ∀ n, f n ≠ []) (n : Nat) :
    n ≤ ((List.range n).flatMap f).length := by
  induction n with
  | zero => exact Nat.zero_le _
  | succ n ih =>
    rw [List.range_succ, List.flatMap_append, List.flatMap_singleton, List.length_append]
    exact Nat.add_le_add ih (List.length_pos_iff.2 (h n))

/-- Results of which none is an error. -/
theorem exists_eq_map_ok {ε : Type} {is : List (Except ε α)} (h : ∀ i ∈ is, ∃ a, i = .ok a) :
    ∃ as : List α, is = as.map .ok := by
  induction is with
  | nil => exact ⟨[], rfl⟩
  | cons i is ih =>
    rw [List.forall_mem_cons] at h
    obtain ⟨⟨a, rfl⟩, h⟩ := h
    obtain ⟨as, rfl⟩ := ih h
    exact ⟨a :: as, rfl⟩

end Pieces

/-! ### Pairs of two lists -/

section Zip

variable {as : List α} {bs : List β}

/-- What holds of the first of two in a row of pairs holds of all that are in the first row. -/
theorem forall_mem_of_zip {P : α → Prop} (hlength : as.length = bs.length)
    (h : ∀ {a b}, (a, b) ∈ as.zip bs → P a) : ∀ a ∈ as, P a := by
  intro a ha
  rw [← List.map_fst_zip (Nat.le_of_eq hlength)] at ha
  obtain ⟨p, hp, rfl⟩ := List.mem_map.1 ha
  exact h hp

theorem forall_mem_zip_map {R : β → γ → Prop} {f : α → β} {cs : List γ}
    (h : ∀ {a c}, (a, c) ∈ as.zip cs → R (f a) c) {b : β} {c : γ}
    (hmem : (b, c) ∈ (as.map f).zip cs) : R b c := by
  rw [List.zip_map_left] at hmem
  obtain ⟨⟨a, c'⟩, hac, hpair⟩ := List.mem_map.1 hmem
  cases hpair
  exact h hac

theorem map_snd_zip_eq_take (h : as.length ≤ bs.length) :
    (as.zip bs).map Prod.snd = bs.take as.length := by
  rw [List.zip_eq_zip_take_min, Nat.min_eq_left h, List.map_snd_zip]
  rw [List.length_take, List.length_take]
  omega

end Zip

/-! ### Related lists -/

section Related

variable {R S : α → β → Prop} {as : List α} {bs : List β}

theorem forall₂_getElem? (h : List.Forall₂ R as bs) (i : Nat) : Option.Rel R as[i]? bs[i]? := by
  induction h generalizing i with
  | nil => exact .none
  | cons hab _ ih =>
    cases i with
    | zero => exact .some hab
    | succ i => exact ih i

theorem forall₂_set (h : List.Forall₂ R as bs) (i : Nat) {a : α} {b : β} (hab : R a b) :
    List.Forall₂ R (as.set i a) (bs.set i b) := by
  induction h generalizing i with
  | nil => exact .nil
  | cons hfirst hrest ih =>
    cases i with
    | zero => exact .cons hab hrest
    | succ i => exact .cons hfirst (ih i)

theorem forall₂_zipIdx (h : List.Forall₂ R as bs) (i : Nat) :
    List.Forall₂ (fun a b => R a.1 b.1 ∧ a.2 = b.2) (as.zipIdx i) (bs.zipIdx i) := by
  induction h generalizing i with
  | nil => exact .nil
  | cons hab _ ih => exact .cons ⟨hab, rfl⟩ (ih (i + 1))

/-- What holds of all right sides of a relation holds of all members on the right. -/
theorem forall_mem_of_forall₂ {P : β → Prop} (h : List.Forall₂ R as bs) (hP : ∀ a b, R a b → P b) :
    ∀ b ∈ bs, P b := by
  induction h with
  | nil => nofun
  | cons hab _ ih => exact List.forall_mem_cons.2 ⟨hP _ _ hab, ih⟩

theorem forall₂_imp_of_mem (h : List.Forall₂ R as bs) (hS : ∀ a ∈ as, ∀ b ∈ bs, R a b → S a b) :
    List.Forall₂ S as bs := by
  induction h with
  | nil => exact .nil
  | cons hab _ ih =>
    refine .cons (hS _ List.mem_cons_self _ List.mem_cons_self hab) (ih fun a ha b hb => ?_)
    exact hS a (List.mem_cons_of_mem _ ha) b (List.mem_cons_of_mem _ hb)

theorem forall₂_congr_of_mem (hRS : ∀ a ∈ as, ∀ b ∈ bs, (R a b ↔ S a b)) :
    List.Forall₂ R as bs ↔ List.Forall₂ S as bs :=
  ⟨fun h => forall₂_imp_of_mem h fun a ha b hb => (hRS a ha b hb).1,
    fun h => forall₂_imp_of_mem h fun a ha b hb => (hRS a ha b hb).2⟩

theorem forall₂_trans {cs : List γ} {S : β → γ → Prop} {T : α → γ → Prop}
    (h : List.Forall₂ R as bs) (h' : List.Forall₂ S bs cs)
    (hT : ∀ a ∈ as, ∀ b c, R a b → S b c → T a c) : List.Forall₂ T as cs := by
  induction h generalizing cs with
  | nil =>
    cases h'
    exact .nil
  | cons hab _ ih =>
    cases h' with
    | cons hbc h' =>
      rw [List.forall_mem_cons] at hT
      exact .cons (hT.1 _ _ hab hbc) (ih h' hT.2)

theorem forall₂_unique {cs : List β} (h : List.Forall₂ (fun a b => ∀ c, R a c → b = c) as bs)
    (h' : List.Forall₂ R as cs) : bs = cs := by
  induction h generalizing cs with
  | nil =>
    cases h'
    rfl
  | cons hab _ ih =>
    cases h' with
    | cons hac h' => rw [hab _ hac, ih h']

/-- What is paired with the key of a position is related to the position. -/
theorem mem_zip_of_forall₂ {κ : Type} {cs : List γ} {g : γ → β} {more : List β}
    (h : List.Forall₂ R as (cs.map g ++ more)) {key : γ → κ} {e : κ × α}
    (he : e ∈ (cs.map key).zip as) : ∃ c ∈ cs, key c = e.1 ∧ R e.2 (g c) := by
  induction cs generalizing as with
  | nil => cases he
  | cons c cs ih =>
    cases h with
    | cons hfirst h =>
      rcases List.mem_cons.1 he with rfl | he
      · exact ⟨c, List.mem_cons_self, rfl, hfirst⟩
      · obtain ⟨c', hc', hrest⟩ := ih h he
        exact ⟨c', List.mem_cons_of_mem _ hc', hrest⟩

end Related

end DataExpr.Lists
