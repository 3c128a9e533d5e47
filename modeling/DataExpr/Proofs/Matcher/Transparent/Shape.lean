import DataExpr.Proofs.Matcher.ObjectShape
import DataExpr.Proofs.Matcher.Transparent

/-!
# Transparent shapes

Map shapes and list shapes of transparent matchers are transparent.  The combinations that they are
made of are related match by match (`related_product`).  For a map shape, everything that is needed to
rebuild the focus is related as well (`ObjectMatch.Related`), and each step of rebuilding keeps entries
related.
-/

namespace DataExpr.Matcher

open Cells (Alike)

variable {cells : Cells} {v w : Value} {es fs : Entries Value}

/-! ### Combinations -/

/-- The same matcher, which is transparent, at values that are alike. -/
def SamePosition (cells : Cells) (p q : Matcher × Value) : Prop :=
  p.1 = q.1 ∧ p.1.Transparent cells ∧ cells.Alike p.2 q.2

theorem related_productFrom {ps qs : List (Matcher × Value)}
    (h : List.Forall₂ (SamePosition cells) ps qs) {found found' : Findings (List Match)}
    (hfound : Findings.Related cells (List.Forall₂ (Match.Related cells)) found found') :
    Findings.Related cells (List.Forall₂ (Match.Related cells))
      (ps.foldl (fun found (m, v) => found.bind fun chosen =>
        return (← m v).map fun next => chosen ++ [next]) found)
      (qs.foldl (fun found (m, v) => found.bind fun chosen =>
        return (← m v).map fun next => chosen ++ [next]) found') := by
  induction h generalizing found found' with
  | nil => exact hfound
  | @cons p q ps qs hpq _ ih =>
    obtain ⟨m, v⟩ := p
    obtain ⟨m', w⟩ := q
    obtain ⟨rfl, hm, hvw⟩ := hpq
    refine ih (hfound.bind fun chosen chosen' hchosen => ?_)
    refine .bind (hm v w hvw) fun inner inner' hinner => .pure ?_
    exact hinner.map fun next next' hnext => List.rel_append hchosen (.cons hnext .nil)

theorem related_product {ps qs : List (Matcher × Value)}
    (h : List.Forall₂ (SamePosition cells) ps qs) :
    Findings.Related cells (List.Forall₂ (Match.Related cells)) (product ps) (product qs) :=
  related_productFrom h (.single .nil)

/-! ### Maps -/

/-- The same field, with values that are alike. -/
def SameField {P : Type} (cells : Cells) (p q : Field P × Value) : Prop :=
  p.1 = q.1 ∧ cells.Alike p.2 q.2

/-- Maps that are alike have the same fields, with values that are alike. -/
theorem related_splitFields {P : Type} (h : Entries.Related cells.Alike es fs)
    (fields : List (Field P)) :
    Option.Rel (fun r r' => List.Forall₂ (SameField cells) r.1 r'.1 ∧ (∀ p ∈ r.1, p.1 ∈ fields) ∧
      r.2 = r'.2) (splitFields es fields) (splitFields fs fields) := by
  induction fields with
  | nil => exact .some ⟨.nil, nofun, rfl⟩
  | cons field fields ih =>
    have hget := h.get? field.key
    rw [splitFields, splitFields]
    generalize splitFields es fields = r, splitFields fs fields = r' at ih
    generalize Entries.get? es field.key = a, Entries.get? fs field.key = b at hget
    cases ih with
    | none => exact .none
    | @some r r' hr =>
      obtain ⟨present, skipped⟩ := r
      obtain ⟨present', skipped'⟩ := r'
      obtain ⟨hpresent, hmem, rfl⟩ := hr
      have hmem' : ∀ p ∈ present, p.1 ∈ field :: fields :=
        fun p hp => List.mem_cons_of_mem _ (hmem p hp)
      cases hget with
      | some hab =>
        refine .some ⟨.cons ⟨rfl, hab⟩ hpresent, List.forall_mem_cons.2 ⟨?_, hmem'⟩, rfl⟩
        exact List.mem_cons_self
      | none =>
        show Option.Rel _ (if field.optional then _ else none) (if field.optional then _ else none)
        split
        · exact .some ⟨hpresent, hmem', rfl⟩
        · exact .none

namespace ObjectMatch

/-- The parts of two combinations are related. -/
structure Related (cells : Cells) (m m' : ObjectMatch) : Prop where
  entries : Entries.Related cells.Alike m.entries m'.entries
  named : m.named = m'.named
  fields : Entries.Related (Match.Related cells) m.fields m'.fields
  skipped : m.skipped = m'.skipped
  rest : Option.Rel (Match.Related cells) m.rest m'.rest

variable {m m' : ObjectMatch} {rs qs : Entries Value}

/-- The entries of maps that are alike, and none of anything else. -/
theorem related_entries (h : cells.Alike v w) :
    Option.Rel (Entries.Related cells.Alike) (cells.resolve v).entries? w.entries? := by
  rcases h.cases with ⟨m, n, items, ws, hv, rfl, -⟩ | ⟨m, n, es, fs, hv, rfl, hes⟩ | ⟨hv, hw⟩
  · rw [hv]
    exact .none
  · rw [hv]
    exact .some hes
  · rw [← hw] at hv ⊢
    cases w with
    | map node entries => cases hv
    | _ => exact .none

theorem related_isSome_entries (h : cells.Alike v w) :
    (cells.resolve v).entries?.isSome = w.entries?.isSome := by
  have hentries := related_entries h
  generalize (cells.resolve v).entries? = a, w.entries? = b at hentries
  cases hentries <;> rfl

theorem Related.value (h : m.Related cells m') :
    Run.Related cells cells.Alike m.value m'.value := by
  have hfields : Entries.Related cells.Alike
      (Entries.ofPairs (Entries.mapValues Match.value m.fields))
      (Entries.ofPairs (Entries.mapValues Match.value m'.fields)) :=
    (h.fields.mapValues fun _ _ hm => hm.value).ofPairs
  have hrest := h.rest
  unfold ObjectMatch.value
  generalize m.rest = r, m'.rest = r' at hrest
  cases hrest with
  | none => exact Run.related_newMap hfields
  | @some r r' hr =>
    intro s t
    have hentries := related_entries hr.value
    simp only [Run.bind_apply, Run.resolve_apply, hr.value.resolve_right]
    generalize (cells.resolve r.value).entries? = a, r'.value.entries? = b at hentries
    cases hentries with
    | none => exact .map (hfields.insertAll .nil)
    | some hes => exact .map (hfields.insertAll hes)

/-- What replacements that are alike have at a key, or undefined. -/
theorem alike_getD (hrs : Entries.Related cells.Alike rs qs) (k : String) :
    cells.Alike ((Entries.get? rs k).getD .undefined) ((Entries.get? qs k).getD .undefined) := by
  have hget := hrs.get? k
  generalize Entries.get? rs k = a, Entries.get? qs k = b at hget
  cases hget with
  | none => exact .undefined
  | some hab => exact hab

theorem related_replaceFields (hrs : Entries.Related cells.Alike rs qs)
    {fields fields' : List (String × Match)}
    (hfields : Entries.Related (Match.Related cells) fields fields')
    (h : Entries.Related cells.Alike es fs) :
    Eval.Related cells (Entries.Related cells.Alike) (replaceFields rs fields es)
      (replaceFields qs fields' fs) := by
  induction hfields generalizing es fs with
  | nil => exact .pure h
  | @cons f f' fields fields' hf _ ih =>
    obtain ⟨k, m⟩ := f
    obtain ⟨k', m'⟩ := f'
    obtain ⟨rfl, hm⟩ := hf
    refine .bind (hm.replace _ _ (alike_getD hrs k)) fun new new' hnew => ?_
    rw [hnew.isUndefined_eq]
    split
    · exact ih (h.erase k)
    · exact ih (h.insert k hnew)

theorem related_addSkipped (hrs : Entries.Related cells.Alike rs qs) (skipped : List String)
    (h : Entries.Related cells.Alike es fs) :
    Entries.Related cells.Alike (addSkipped rs skipped es) (addSkipped qs skipped fs) := by
  induction skipped generalizing es fs with
  | nil => exact h
  | cons k ks ih =>
    have hk := alike_getD hrs k
    rw [addSkipped_cons, addSkipped_cons, hk.isUndefined_eq]
    split
    · exact ih h
    · exact ih (h.insert k hk)

theorem related_foldl_erase (keys : List String) (h : Entries.Related cells.Alike es fs) :
    Entries.Related cells.Alike (keys.foldl Entries.erase es) (keys.foldl Entries.erase fs) := by
  induction keys generalizing es fs with
  | nil => exact h
  | cons k ks ih => exact ih (h.erase k)

theorem Related.replaceRest (h : m.Related cells m') (hrs : Entries.Related cells.Alike rs qs)
    (hes : Entries.Related cells.Alike es fs) :
    Eval.Related cells (Entries.Related cells.Alike) (m.replaceRest rs es)
      (m'.replaceRest qs fs) := by
  have hrest := h.rest
  unfold ObjectMatch.replaceRest
  rw [h.named]
  generalize m.rest = r, m'.rest = r' at hrest
  cases hrest with
  | none => exact .pure hes
  | @some r r' hr =>
    refine .bindLift (Run.related_newMap (hrs.without _)) fun a b hab => ?_
    refine .bind (hr.replace a b hab) fun a b hab => ?_
    refine Eval.related_resolve hab ?_
    rcases hab.cases with ⟨k, n, items, ws, ha, rfl, -⟩ | ⟨k, n, others, others', ha, rfl, hothers⟩ |
      ⟨ha, hb⟩
    · rw [ha]
      exact Eval.related_mismatch _ hab
    · rw [ha]
      -- The same keys are gone.
      have hgone := (Entries.related_iff.1 (h.entries.without m'.named)).1
      simp only [hgone, hothers.contains_eq]
      exact .pure ((related_foldl_erase _ hes).insertAll hothers)
    · rw [← hb] at ha ⊢
      cases b with
      | map node entries => cases ha
      | _ => exact Eval.related_mismatch _ hab

theorem Related.replace (h : m.Related cells m') (hvw : cells.Alike v w) :
    Eval.Related cells cells.Alike (m.replace v) (m'.replace w) := by
  refine Eval.related_resolve hvw ?_
  rcases hvw.cases with ⟨k, n, items, ws, hv, rfl, -⟩ | ⟨k, n, rs, qs, hv, rfl, hrs⟩ | ⟨hv, hw⟩
  · rw [hv]
    exact Eval.related_mismatch _ hvw
  · rw [hv]
    refine .bind (related_replaceFields hrs h.fields h.entries) fun es fs hes => ?_
    have hes' := related_addSkipped hrs m.skipped hes
    rw [h.skipped] at hes'
    simp only [h.skipped]
    exact .bind (h.replaceRest hrs hes') fun es fs hes => .lift (Run.related_newMap hes)
  · rw [← hw] at hv ⊢
    cases w with
    | map node entries => cases hv
    | _ => exact Eval.related_mismatch _ hvw

theorem related_restOf {found found' : Option Match}
    (h : Option.Rel (Match.Related cells) found found') :
    Run.Related cells (Option.Rel (Match.Related cells)) (restOf found) (restOf found') := by
  cases h with
  | none => exact .pure .none
  | @some r r' hr =>
    refine Run.related_resolve hr.value (.pure ?_)
    rw [related_isSome_entries hr.value]
    split
    · exact .some hr
    · exact .none

end ObjectMatch

/-- The match that a combination makes up. -/
theorem related_combined (hes : Entries.Related cells.Alike es fs) (named keys skipped : List String)
    (n : Nat) {found found' : List Match} (h : List.Forall₂ (Match.Related cells) found found') :
    Run.Related cells (Match.Related cells)
      (do
        let rest ← ObjectMatch.restOf found[n]?
        let m : ObjectMatch := ⟨es, named, keys.zip found, skipped, rest⟩
        return ⟨← m.value, m.replace⟩)
      (do
        let rest ← ObjectMatch.restOf found'[n]?
        let m : ObjectMatch := ⟨fs, named, keys.zip found', skipped, rest⟩
        return ⟨← m.value, m.replace⟩) := by
  refine .bind (ObjectMatch.related_restOf (Lists.forall₂_getElem? h n)) fun rest rest' hrest => ?_
  have hm : ObjectMatch.Related cells ⟨es, named, keys.zip found, skipped, rest⟩
      ⟨fs, named, keys.zip found', skipped, rest'⟩ := ⟨hes, rfl, .zip keys h, rfl, hrest⟩
  exact .bind hm.value fun _ _ hvalue => .pure ⟨hvalue, fun _ _ hnew => hm.replace hnew⟩

theorem Transparent.object {fields : List (Field Matcher)} {rest : Option Matcher}
    (hfields : ∀ field ∈ fields, field.pattern.Transparent cells)
    (hrest : ∀ m ∈ rest, m.Transparent cells) : (object fields rest).Transparent cells := by
  intro v w hvw
  refine Run.related_resolve hvw ?_
  rcases hvw.cases with ⟨k, n, items, ws, hv, rfl, -⟩ | ⟨k, n, es, fs, hv, rfl, hes⟩ | ⟨hv, hw⟩
  · rw [hv]
    exact .pure .empty
  · rw [hv]
    have hsplit := related_splitFields hes fields
    simp only []
    generalize splitFields es fields = r, splitFields fs fields = r' at hsplit
    cases hsplit with
    | none => exact .pure .empty
    | @some r r' hr =>
      obtain ⟨present, skipped⟩ := r
      obtain ⟨present', skipped'⟩ := r'
      obtain ⟨hpresent, hmem, rfl⟩ := hr
      have hpositions : List.Forall₂ (SamePosition cells)
          (present.map fun p => (p.1.pattern, p.2))
          (present'.map fun p => (p.1.pattern, p.2)) := by
        refine List.forall₂_map_left_iff.2 (List.forall₂_map_right_iff.2 ?_)
        refine ((List.forall₂_and_left _ _).2 ⟨hmem, hpresent⟩).imp fun p q hpq => ?_
        exact ⟨congrArg Field.pattern hpq.2.1, hfields _ hpq.1, hpq.2.2⟩
      have hkeys : present.map (·.1.key) = present'.map (·.1.key) := by
        rw [← List.forall₂_eq_eq_eq]
        refine List.forall₂_map_left_iff.2 (List.forall₂_map_right_iff.2 ?_)
        exact hpresent.imp fun p q hpq => congrArg Field.key hpq.1
      -- The positions are those of the fields, and after them the one of the rest.
      cases rest with
      | none =>
        simp only [hpresent.length_eq, hkeys]
        exact .pure ((related_product (List.rel_append hpositions .nil)).mapRun
          fun _ _ hfound => related_combined hes _ _ _ _ hfound)
      | some m =>
        simp only [hpresent.length_eq, hkeys]
        refine .bind (Run.related_newMap (hes.without _)) fun others others' hothers => ?_
        have hother : SamePosition cells (m, others) (m, others') := ⟨rfl, hrest m rfl, hothers⟩
        exact .pure ((related_product (List.rel_append hpositions (.cons hother .nil))).mapRun
          fun _ _ hfound => related_combined hes _ _ _ _ hfound)
  · rw [← hw] at hv ⊢
    cases w with
    | map node entries => cases hv
    | _ => exact .pure .empty

/-! ### Lists -/

theorem related_replaceItems {ms ms' : List Match} {vs ws : List Value}
    (hms : List.Forall₂ (Match.Related cells) ms ms') (hvs : List.Forall₂ cells.Alike vs ws) :
    Eval.Related cells (List.Forall₂ cells.Alike) (replaceItems ms vs) (replaceItems ms' ws) := by
  induction hms generalizing vs ws with
  | nil => exact .pure hvs
  | cons hm _ ih =>
    cases hvs with
    | nil => exact .pure .nil
    | cons hv hvs =>
      refine .bind (hm.replace _ _ hv) fun new new' hnew => ?_
      exact .bind (ih hvs) fun news news' hnews => .pure (.cons hnew hnews)

theorem samePositions_zip {items : List Matcher} (hitems : ∀ m ∈ items, m.Transparent cells)
    {vs ws : List Value} (hvs : List.Forall₂ cells.Alike vs ws) :
    List.Forall₂ (SamePosition cells) (items.zip vs) (items.zip ws) := by
  induction hvs generalizing items with
  | nil =>
    rw [List.zip_nil_right]
    exact .nil
  | cons hv _ ih =>
    cases items with
    | nil => exact .nil
    | cons m items =>
      rw [List.forall_mem_cons] at hitems
      exact .cons ⟨rfl, hitems.1, hv⟩ (ih hitems.2)

/-- The list of what was found at all positions, and how it is put back. -/
theorem related_list (count : Nat) {ms ms' : List Match}
    (h : List.Forall₂ (Match.Related cells) ms ms') :
    Run.Related cells (Match.Related cells)
      (do
        return ⟨← Run.newList (ms.map Match.value), fun new => do
          match ← Run.resolve new with
          | .list _ replacement =>
            if replacement.length < count then throw (.arityMismatch count replacement.length)
            else Run.newList (← replaceItems ms replacement)
          | _ => Eval.mismatch "array" new⟩)
      (do
        return ⟨← Run.newList (ms'.map Match.value), fun new => do
          match ← Run.resolve new with
          | .list _ replacement =>
            if replacement.length < count then throw (.arityMismatch count replacement.length)
            else Run.newList (← replaceItems ms' replacement)
          | _ => Eval.mismatch "array" new⟩) := by
  have hvalues : List.Forall₂ cells.Alike (ms.map Match.value) (ms'.map Match.value) :=
    List.forall₂_map_left_iff.2 (List.forall₂_map_right_iff.2 (h.imp fun _ _ hm => hm.value))
  refine .bind (Run.related_newList hvalues) fun list list' hlist => .pure ⟨hlist, fun a b hab => ?_⟩
  refine Eval.related_resolve hab ?_
  rcases hab.cases with ⟨k, n, as, bs, ha, rfl, has⟩ | ⟨k, n, es, fs, ha, rfl, -⟩ | ⟨ha, hb⟩
  · rw [ha]
    simp only [has.length_eq]
    split
    · exact .throw _
    · exact .bind (related_replaceItems h has) fun _ _ hs => .lift (Run.related_newList hs)
  · rw [ha]
    exact Eval.related_mismatch _ hab
  · rw [← hb] at ha ⊢
    cases b with
    | list node items => cases ha
    | _ => exact Eval.related_mismatch _ hab

theorem samePositions {items : List Matcher} {rest : Option Matcher}
    (hitems : ∀ m ∈ items, m.Transparent cells) (hrest : ∀ m ∈ rest, m.Transparent cells)
    {vs ws : List Value} (hvs : List.Forall₂ cells.Alike vs ws) :
    List.Forall₂ (SamePosition cells) (positions items rest vs) (positions items rest ws) := by
  refine List.rel_append (samePositions_zip hitems hvs) ?_
  cases rest with
  | none => exact .nil
  | some m =>
    refine List.forall₂_map_left_iff.2 (List.forall₂_map_right_iff.2 ?_)
    exact (List.forall₂_drop _ hvs).imp fun _ _ hv => ⟨rfl, hrest m rfl, hv⟩

theorem Transparent.array {items : List Matcher} {rest : Option Matcher}
    (hitems : ∀ m ∈ items, m.Transparent cells) (hrest : ∀ m ∈ rest, m.Transparent cells) :
    (array items rest).Transparent cells := by
  intro v w hvw
  refine Run.related_resolve hvw ?_
  rcases hvw.cases with ⟨k, n, vs, ws, hv, rfl, hvs⟩ | ⟨k, n, es, fs, hv, rfl, -⟩ | ⟨hv, hw⟩
  · rw [hv]
    have hfound := related_product (samePositions hitems hrest hvs)
    simp only [hvs.length_eq]
    by_cases hfits : if rest.isSome then items.length ≤ ws.length else ws.length = items.length
    · rw [if_pos hfits, if_pos hfits]
      exact .pure (hfound.mapRun fun _ _ hms => related_list items.length hms)
    · rw [if_neg hfits, if_neg hfits]
      exact .pure .empty
  · rw [hv]
    exact .pure .empty
  · rw [← hw] at hv ⊢
    cases w with
    | list node items => cases hv
    | _ => exact .pure .empty

theorem Transparent.matchesAll {m : Matcher} (h : m.Transparent cells) {vs ws : List Value}
    (hvs : List.Forall₂ cells.Alike vs ws) :
    Eval.Related cells Eq (Matcher.matchesAll m vs) (Matcher.matchesAll m ws) := by
  induction hvs with
  | nil => exact .pure rfl
  | cons hv _ ih =>
    refine .bindLift (h _ _ hv) fun found found' hfound => ?_
    refine .bind hfound.first fun item item' hitem => ?_
    cases hitem with
    | none => exact .pure rfl
    | some _ => exact ih

theorem Transparent.arrayOf {m : Matcher} (h : m.Transparent cells) :
    (arrayOf m).Transparent cells := by
  intro v w hvw
  refine Run.related_resolve hvw ?_
  rcases hvw.cases with ⟨k, n, vs, ws, hv, rfl, hvs⟩ | ⟨k, n, es, fs, hv, rfl, -⟩ | ⟨hv, hw⟩
  · rw [hv]
    refine .bind (h.matchesAll hvs).run fun all all' hall => ?_
    cases hall with
    | error e => exact .pure (.failed e)
    | @ok a b hab =>
      subst hab
      cases a with
      | true => exact .pure (related_whole hvw)
      | false => exact .pure .empty
  · rw [hv]
    exact .pure .empty
  · rw [← hw] at hv ⊢
    cases w with
    | list node items => cases hv
    | _ => exact .pure .empty

end DataExpr.Matcher
