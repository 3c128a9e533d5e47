import DataExpr.Proofs.Findings.Related
import DataExpr.Proofs.Lists
import DataExpr.Proofs.Store.Alike

/-!
# Matchers that cannot tell a cell from its contents

A matcher is transparent (`Matcher.Transparent`) if its matches in values that are alike
(`Cells.Alike`) are related one by one: the values found are alike, and so is what comes out when
values that are alike are put in their places (`Match.Related`).  It is so wherever a matcher looks at
a value only after its cells have been read through, and that there is nothing undefined behind a cell
is what lets it ask whether a value is undefined without that.

There is one lemma for each matcher that looks at one place.
-/

namespace DataExpr

variable {cells : Cells} {v w : Value} {items ws : List Value} {es fs : Entries Value}

namespace Cells

theorem Alike.undefined : cells.Alike .undefined .undefined := .leaf rfl (by simp)

theorem Alike.str (s : String) : cells.Alike (.str s) (.str s) := .leaf rfl (by simp)

theorem Alike.ownType_eq (h : cells.Alike v w) : (cells.resolve v).ownType = w.ownType := by
  rcases h.cases with ⟨m, n, items, ws, hv, rfl, -⟩ | ⟨m, n, es, fs, hv, rfl, -⟩ | ⟨-, rfl⟩
  · rw [hv]
    rfl
  · rw [hv]
    rfl
  · rfl

theorem Alike.spliceText_eq (h : cells.Alike v w) :
    (cells.resolve v).spliceText = w.spliceText := by
  rcases h.cases with ⟨m, n, items, ws, hv, rfl, -⟩ | ⟨m, n, es, fs, hv, rfl, -⟩ | ⟨-, rfl⟩
  · rw [hv]
    rfl
  · rw [hv]
    rfl
  · rfl

theorem Alike.typeOf_eq (h : cells.Alike v w) : cells.typeOf v = cells.typeOf w := by
  rw [typeOf, typeOf, h.resolve_right, h.ownType_eq]

theorem Alike.typeName_eq (h : cells.Alike v w) : cells.typeName v = cells.typeName w := by
  rw [typeName, typeName, h.typeOf_eq]

end Cells

open Cells (Alike)

/-! ### Steps of an evaluation -/

theorem Run.related_newList (h : List.Forall₂ cells.Alike items ws) :
    Run.Related cells cells.Alike (Run.newList items) (Run.newList ws) := fun _ _ => .list h

theorem Run.related_newMap (h : Entries.Related cells.Alike es fs) :
    Run.Related cells cells.Alike (Run.newMap es) (Run.newMap fs) := fun _ _ => .map h

theorem forall₂_setItem (h : List.Forall₂ cells.Alike items ws) (i : Nat)
    (hvw : cells.Alike v w) : List.Forall₂ cells.Alike (setItem items i v) (setItem ws i w) := by
  rw [setItem, setItem, h.length_eq]
  split
  · exact Lists.forall₂_set h i hvw
  · refine List.rel_append (List.rel_append h ?_) (.cons hvw .nil)
    exact List.forall₂_same.2 fun x hx => List.eq_of_mem_replicate hx ▸ .undefined

theorem related_newListWith (h : List.Forall₂ cells.Alike items ws) (i : Nat)
    (hvw : cells.Alike v w) :
    Run.Related cells cells.Alike (newListWith items i v) (newListWith ws i w) :=
  Run.related_newList (forall₂_setItem h i hvw)

theorem related_newMapWith (h : Entries.Related cells.Alike es fs) (k : String)
    (hvw : cells.Alike v w) :
    Run.Related cells cells.Alike (newMapWith es k v) (newMapWith fs k w) :=
  Run.related_newMap (h.insert k hvw)

theorem Eval.related_mismatch {α β : Type} {R : α → β → Prop} (expected : String)
    (h : cells.Alike v w) :
    Eval.Related cells R (Eval.mismatch expected v) (Eval.mismatch expected w) := by
  intro s t
  show SameOutcome R (.error (.typeMismatch expected (cells.typeName v)))
    (.error (.typeMismatch expected (cells.typeName w)))
  rw [h.typeName_eq]
  exact .error _

/-- What goes on with the values behind the cells. -/
theorem Run.related_resolve {α β : Type} {R : α → β → Prop} {f : Value → Run α}
    {g : Value → Run β} (h : cells.Alike v w) (hf : Run.Related cells R (f (cells.resolve v)) (g w)) :
    Run.Related cells R (do f (← Run.resolve v)) (do g (← Run.resolve w)) := by
  intro s t
  rw [Run.bind_apply, Run.bind_apply, Run.resolve_apply, Run.resolve_apply, h.resolve_right]
  exact hf s t

theorem Eval.related_resolve {α β : Type} {R : α → β → Prop} {f : Value → Eval α}
    {g : Value → Eval β} (h : cells.Alike v w) (hf : Eval.Related cells R (f (cells.resolve v)) (g w)) :
    Eval.Related cells R (do f (← Run.resolve v)) (do g (← Run.resolve w)) := by
  intro s t
  rw [Eval.bind_apply, Eval.bind_apply, Eval.lift_apply, Eval.lift_apply, Run.resolve_apply,
    Run.resolve_apply, h.resolve_right]
  exact hf s t

/-! ### Matches -/

/-- What was found is alike, and so is what comes of putting values that are alike in its place. -/
structure Match.Related (cells : Cells) (m m' : Match) : Prop where
  value : cells.Alike m.value m'.value
  replace : ∀ v w, cells.Alike v w →
    Eval.Related cells cells.Alike (m.replace v) (m'.replace w)

theorem Match.Related.whole (h : cells.Alike v w) : Related cells (whole v) (whole w) :=
  ⟨h, fun _ _ hnew => .pure hnew⟩

theorem Match.Related.inside {outer outer' inner inner' : Match} (ho : outer.Related cells outer')
    (hi : inner.Related cells inner') :
    (outer.inside inner).Related cells (outer'.inside inner') :=
  ⟨hi.value, fun v w hnew => (hi.replace v w hnew).bind ho.replace⟩

namespace Matcher

/-- The matches in values that are alike are related. -/
def Transparent (cells : Cells) (m : Matcher) : Prop :=
  ∀ v w, cells.Alike v w →
    Run.Related cells (Findings.Related cells (Match.Related cells)) (m v) (m w)

theorem related_whole (h : cells.Alike v w) :
    Findings.Related cells (Match.Related cells) (Matches.whole v) (Matches.whole w) :=
  .single (.whole h)

/-! ### Tests -/

theorem transparent_ofType (type : ValueType) :
    Transparent cells (satisfying (Predicate.ofType type)) := by
  intro v w h s t
  show Findings.Related cells _
    (if cells.typeOf (cells.resolve v) == type then Matches.whole v else .empty)
    (if cells.typeOf (cells.resolve w) == type then Matches.whole w else .empty)
  rw [h.resolve.typeOf_eq, h.resolve_right]
  split
  · exact related_whole h
  · exact .empty

/-- A value that is neither a container nor a cell equals nothing that is one. -/
theorem transparent_equalTo {expected : Value} (hleaf : expected.isContainer = false)
    (hne : ∀ id, expected ≠ .cell id) : Transparent cells (equalTo expected) := by
  intro v w h s t
  have hcontainer : ∀ x : Value, x.isContainer = true → x.equal expected = false := by
    intro x hx
    cases expected with
    | list node items => cases hleaf
    | map node entries => cases hleaf
    | _ =>
      cases x with
      | list node items => rfl
      | map node entries => rfl
      | _ => cases hx
  have hcell : ∀ id, (Value.cell id).equal expected = false := by
    intro id
    cases expected with
    | cell id' => exact absurd rfl (hne id')
    | _ => rfl
  -- Where there is no cell, the value itself is behind its cells.
  have hself : ∀ x : Value, (x.equal expected || (cells.resolve x).equal expected) =
      (cells.resolve x).equal expected := by
    intro x
    cases x with
    | cell id => rw [hcell, Bool.false_or]
    | _ => rw [cells.resolve_of_ne_cell (by simp), Bool.or_self]
  have heq : (cells.resolve v).equal expected = w.equal expected := by
    rcases h.cases with ⟨m, n, items, ws, hv, rfl, -⟩ | ⟨m, n, es, fs, hv, rfl, -⟩ | ⟨-, rfl⟩
    · rw [hv, hcontainer _ rfl, hcontainer _ rfl]
    · rw [hv, hcontainer _ rfl, hcontainer _ rfl]
    · rfl
  show Findings.Related cells _
    (if v.equal expected || (cells.resolve v).equal expected then Matches.whole v else .empty)
    (if w.equal expected || (cells.resolve w).equal expected then Matches.whole w else .empty)
  rw [hself, hself, h.resolve_right, heq]
  split
  · exact related_whole h
  · exact .empty

/-! ### Keys and positions -/

theorem related_absent (h : cells.Alike v w) {fill fill' : Value → Eval Value}
    (hfill : ∀ a b, cells.Alike a b → Eval.Related cells cells.Alike (fill a) (fill' b)) :
    (absent v fill).Related cells (absent w fill') := by
  refine ⟨.undefined, fun a b hab => ?_⟩
  simp only [absent, hab.isUndefined_eq]
  split
  · exact .pure h
  · exact hfill a b hab

theorem transparent_key (name : String) (optional : Bool) :
    Transparent cells (key name optional) := by
  intro v w h s t
  simp only [key, Run.bind_apply, Run.resolve_apply, h.resolve_right]
  rcases h.cases with ⟨m, n, items, ws, hv, rfl, -⟩ | ⟨m, n, es, fs, hv, rfl, hes⟩ | ⟨hv, hw⟩
  · rw [hv]
    cases optional with
    | false => exact .empty
    | true => exact .single (related_absent h fun _ _ _ => .throw _)
  · rw [hv]
    have hget := hes.get? name
    simp only []
    generalize Entries.get? es name = a, Entries.get? fs name = b at hget
    cases hget with
    | some hab => exact .single ⟨hab, fun _ _ hnew => .lift (related_newMapWith hes name hnew)⟩
    | none =>
      cases optional with
      | false => exact .empty
      | true =>
        exact .single (related_absent h fun _ _ hnew => .lift (related_newMapWith hes name hnew))
  · generalize cells.resolve v = x at hv hw
    subst hw
    cases optional with
    | false =>
      cases w with
      | list node items => cases hv
      | map node entries => cases hv
      | _ => exact .empty
    | true =>
      have hfill : ∀ a b, cells.Alike a b → Eval.Related cells cells.Alike
          (Run.newMap [(name, a)]) (Run.newMap [(name, b)]) :=
        fun _ _ hab => .lift (Run.related_newMap (.cons ⟨rfl, hab⟩ .nil))
      cases w with
      | list node items => cases hv
      | map node entries => cases hv
      | undefined => exact .single (related_absent h hfill)
      | null => exact .single (related_absent h hfill)
      | _ => exact .single (related_absent h fun _ _ _ => .throw _)

theorem related_absentItem (h : cells.Alike v w) (hitems : List.Forall₂ cells.Alike items ws)
    (i : Int64) : (absentItem v items i).Related cells (absentItem w ws i) := by
  refine related_absent h fun a b hab => ?_
  rw [hitems.length_eq]
  cases position? i ws.length with
  | none => exact .throw _
  | some position =>
    simp only []
    split
    · exact .lift (related_newListWith hitems position hab)
    · exact .throw _

theorem transparent_index (i : Int64) (optional : Bool) :
    Transparent cells (index i optional) := by
  intro v w h s t
  have hkey : Transparent cells (key (toString i.toInt) optional) := transparent_key _ _
  simp only [index, Run.bind_apply, Run.resolve_apply, h.resolve_right]
  rcases h.cases with ⟨m, n, items, ws, hv, rfl, hitems⟩ | ⟨m, n, es, fs, hv, rfl, -⟩ | ⟨hv, hw⟩
  · rw [hv]
    simp only [hitems.length_eq]
    cases position? i ws.length with
    | none =>
      cases optional with
      | false => exact .empty
      | true => exact .single (related_absentItem h hitems i)
    | some position =>
      have hget := Lists.forall₂_getElem? hitems position
      simp only [Option.bind_some]
      generalize items[position]? = a, ws[position]? = b at hget
      cases hget with
      | some hab =>
        exact .single ⟨hab, fun _ _ hnew => .lift (related_newListWith hitems position hnew)⟩
      | none =>
        cases optional with
        | false => exact .empty
        | true => exact .single (related_absentItem h hitems i)
  · rw [hv]
    exact hkey v _ h s t
  · generalize cells.resolve v = x at hv hw
    subst hw
    cases optional with
    | false =>
      cases w with
      | list node items => cases hv
      | map node entries => cases hv
      | _ => exact .failed _
    | true =>
      cases w with
      | list node items => cases hv
      | map node entries => cases hv
      | undefined => exact .single (related_absentItem h .nil i)
      | null => exact .single (related_absentItem h .nil i)
      | _ => exact .failed _

/-! ### Slices -/

theorem transparent_slice (start stop : Option Int64) :
    Transparent cells (slice start stop) := by
  intro v w h s t
  simp only [slice, Run.bind_apply, Run.resolve_apply, h.resolve_right]
  rcases h.cases with ⟨m, n, items, ws, hv, rfl, hitems⟩ | ⟨m, n, es, fs, hv, rfl, -⟩ | ⟨hv, hw⟩
  · rw [hv]
    simp only [hitems.length_eq]
    generalize sliceRange start stop ws.length = range
    refine .single ⟨.list (List.forall₂_drop _ (List.forall₂_take _ hitems)), fun a b hab => ?_⟩
    refine Eval.related_resolve hab ?_
    rcases hab.cases with ⟨m, n, as, bs, ha, rfl, has⟩ | ⟨m, n, es, fs, ha, rfl, -⟩ | ⟨ha, hb⟩
    · rw [ha]
      exact .lift (Run.related_newList (List.rel_append
        (List.rel_append (List.forall₂_take _ hitems) has) (List.forall₂_drop _ hitems)))
    · rw [ha]
      exact Eval.related_mismatch _ hab
    · rw [← hb] at ha ⊢
      cases b with
      | list node items => cases ha
      | _ => exact Eval.related_mismatch _ hab
  · rw [hv]
    exact .failed _
  · generalize cells.resolve v = x at hv hw
    subst hw
    cases w with
    | list node items => cases hv
    | map node entries => cases hv
    | str text =>
      refine .single ⟨.str _, fun a b hab => ?_⟩
      refine Eval.related_resolve hab ?_
      rcases hab.cases with ⟨m, n, as, bs, ha, rfl, -⟩ | ⟨m, n, es, fs, ha, rfl, -⟩ | ⟨ha, hb⟩
      · rw [ha]
        exact Eval.related_mismatch _ hab
      · rw [ha]
        exact Eval.related_mismatch _ hab
      · rw [← hb]
        cases b with
        | str middle => exact .pure (.str _)
        | _ => exact Eval.related_mismatch _ hab
    | _ => exact .failed _

/-! ### Regular expressions -/

theorem related_piece (chars : List Char) (span : Nat × Nat) (found : List Char) :
    (piece chars span found).Related cells (piece chars span found) := by
  refine ⟨.str _, fun a b hab => ?_⟩
  refine Eval.related_resolve hab ?_
  rw [hab.spliceText_eq]
  cases b.spliceText with
  | none => exact Eval.related_mismatch _ hab
  | some middle => exact .pure (.str _)

theorem related_pieces (chars : List Char) (index : Nat) (rest : List Char)
    (spans : List (Nat × Nat)) :
    List.Forall₂ (Match.Related cells) (pieces chars index rest spans)
      (pieces chars index rest spans) := by
  induction spans generalizing index rest with
  | nil => exact .nil
  | cons span spans ih => exact .cons (related_piece _ _ _) (ih _ _)

theorem transparent_regex (r : RegexPattern) : Transparent cells (regex r) := by
  intro v w h s t
  simp only [regex, Run.bind_apply, Run.resolve_apply, h.resolve_right]
  rcases h.cases with ⟨m, n, items, ws, hv, rfl, -⟩ | ⟨m, n, es, fs, hv, rfl, -⟩ | ⟨hv, hw⟩
  · rw [hv]
    exact .empty
  · rw [hv]
    exact .empty
  · generalize cells.resolve v = x at hv hw
    subst hw
    cases w with
    | str text => exact .ofList (related_pieces _ _ _ _)
    | _ => exact .empty

/-! ### Children -/

theorem transparent_spread : Transparent cells spread := by
  intro v w h s t
  simp only [spread, Run.bind_apply, Run.resolve_apply, h.resolve_right]
  rcases h.cases with ⟨m, n, items, ws, hv, rfl, hitems⟩ | ⟨m, n, es, fs, hv, rfl, hes⟩ | ⟨hv, hw⟩
  · rw [hv]
    refine .ofList (List.forall₂_map_left_iff.2 (List.forall₂_map_right_iff.2 ?_))
    refine (Lists.forall₂_zipIdx hitems 0).imp fun a b hab => ?_
    exact ⟨hab.1, fun _ _ hnew => .lift (hab.2 ▸ related_newListWith hitems a.2 hnew)⟩
  · rw [hv]
    refine .ofList (List.forall₂_map_left_iff.2 (List.forall₂_map_right_iff.2 ?_))
    refine List.Forall₂.imp (fun a b hab => ?_) hes
    exact ⟨hab.2, fun _ _ hnew => .lift (hab.1 ▸ related_newMapWith hes a.1 hnew)⟩
  · generalize cells.resolve v = x at hv hw
    subst hw
    cases w with
    | list node items => cases hv
    | map node entries => cases hv
    | _ => exact .empty

end Matcher

end DataExpr
