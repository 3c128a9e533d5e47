import DataExpr.Matcher.Combine
import DataExpr.Proofs.Matcher.Transparent

/-!
# Transparent matchers from transparent matchers

Sequences, choices, lookaheads and limits of transparent matchers are transparent, and so is gathering
all matches.  For gathering the edits of a joint edit go on with focuses that are alike again
(`Transparent.editJointly`), by induction on how many are left.
-/

namespace DataExpr.Matcher

open Cells (Alike)

variable {cells : Cells} {v w : Value}

theorem Transparent.related_within {ms : List Matcher} (h : ∀ m ∈ ms, m.Transparent cells)
    {found found' : Matches} (hfound : Findings.Related cells (Match.Related cells) found found') :
    Findings.Related cells (Match.Related cells)
      (ms.foldl (fun found m => found.bind fun outer => return (← m outer.value).map outer.inside)
        found)
      (ms.foldl (fun found m => found.bind fun outer => return (← m outer.value).map outer.inside)
        found') := by
  induction ms generalizing found found' with
  | nil => exact hfound
  | cons m ms ih =>
    rw [List.forall_mem_cons] at h
    refine ih h.2 (hfound.bind fun outer outer' ho => ?_)
    refine .bind (h.1 _ _ ho.value) fun inner inner' hi => .pure ?_
    exact hi.map fun _ _ => ho.inside

theorem Transparent.sequence {ms : List Matcher} (h : ∀ m ∈ ms, m.Transparent cells) :
    (sequence ms).Transparent cells :=
  fun _ _ hvw => .pure (related_within h (related_whole hvw))

theorem Transparent.choice {ms : List Matcher} (h : ∀ m ∈ ms, m.Transparent cells) :
    (choice ms).Transparent cells := by
  intro v w hvw
  have hms : List.Forall₂ (fun m m' => m = m' ∧ m.Transparent cells) ms ms :=
    List.forall₂_same.2 fun m hm => ⟨rfl, h m hm⟩
  refine .pure (.bind (.ofList hms) fun m m' hm => ?_)
  obtain ⟨rfl, hm⟩ := hm
  exact hm v w hvw

theorem Transparent.lookahead {m : Matcher} (h : m.Transparent cells) :
    (lookahead m).Transparent cells := by
  intro v w hvw
  refine .pure (.delayed (.bind (h v w hvw) fun found found' hfound => ?_))
  refine .bind hfound.next fun item item' hitem => ?_
  cases hitem with
  | none => exact .pure .none
  | @some p q hpq =>
    obtain ⟨i, rest⟩ := p
    obtain ⟨j, rest'⟩ := q
    cases hpq with
    | ok _ => exact .pure (.some (.ok (.whole hvw)))
    | error e => exact .pure (.some (.error e))

theorem Transparent.limit {m : Matcher} (h : m.Transparent cells) (n : Nat) :
    (limit m n).Transparent cells :=
  fun v w hvw => .bind (h v w hvw) fun _ _ hfound => .pure (hfound.take n)

/-! ### Joint edits -/

/-- Edits that are related position by position make focuses that are alike. -/
theorem Transparent.editJointly {m : Matcher} (h : m.Transparent cells)
    {edit edit' : Nat → Value → Eval Value}
    (hedit : ∀ i a b, cells.Alike a b → Eval.Related cells cells.Alike (edit i a) (edit' i b))
    (n : Nat) (hvw : cells.Alike v w) :
    Eval.Related cells cells.Alike (editJointly m edit n v) (editJointly m edit' n w) := by
  induction n generalizing v w with
  | zero => exact .pure hvw
  | succ n ih =>
    refine .bindLift (h v w hvw) fun found found' hfound => ?_
    refine .bind (hfound.nth n) fun item item' hitem => ?_
    cases hitem with
    | none => exact ih hvw
    | some hmatch =>
      refine .bind (hedit n _ _ hmatch.value) fun new new' hnew => ?_
      exact .bind (hmatch.replace _ _ hnew) fun _ _ hedited => ih hedited

/-- What each match gets of replacements that are alike is alike. -/
theorem related_shares (how : Spreading) (count : Nat) (hvw : cells.Alike v w) :
    Eval.Related cells (fun f g => ∀ i, cells.Alike (f i) (g i)) (how.shares count v)
      (how.shares count w) := by
  cases how with
  | shared => exact .pure fun _ => hvw
  | perPosition =>
    refine Eval.related_resolve hvw ?_
    rcases hvw.cases with ⟨m, n, items, ws, hv, rfl, hitems⟩ | ⟨m, n, es, fs, hv, rfl, -⟩ | ⟨hv, hw⟩
    · rw [hv]
      simp only [hitems.length_eq]
      split
      · refine .pure fun i => ?_
        have hget := Lists.forall₂_getElem? hitems i
        rw [List.getD_eq_getElem?_getD, List.getD_eq_getElem?_getD]
        generalize items[i]? = a, ws[i]? = b at hget
        cases hget with
        | none => exact .undefined
        | some hab => exact hab
      · exact .throw _
    · rw [hv]
      exact Eval.related_mismatch _ hvw
    · rw [← hw] at hv ⊢
      cases w with
      | list node items => cases hv
      | _ => exact Eval.related_mismatch _ hvw

theorem Transparent.gather {m : Matcher} (h : m.Transparent cells) (how : Spreading) :
    (gather m how).Transparent cells := by
  intro v w hvw
  refine .pure (.delayed ?_)
  have hfound : Eval.Related cells (List.Forall₂ (Match.Related cells))
      (do (← m v).collect : Eval (List Match)) (do (← m w).collect) :=
    .bindLift (h v w hvw) fun _ _ hfound => hfound.collect
  refine .bind hfound.run fun found found' hfound => ?_
  cases hfound with
  | error e => exact .pure (.some (.error e))
  | @ok ms ms' hms =>
    have hvalues : List.Forall₂ cells.Alike (ms.map Match.value) (ms'.map Match.value) :=
      List.forall₂_map_left_iff.2 (List.forall₂_map_right_iff.2 (hms.imp fun _ _ hm => hm.value))
    refine .bind (Run.related_newList hvalues) fun list list' hlist => ?_
    refine .pure (.some (.ok ⟨hlist, fun a b hab => ?_⟩))
    simp only [hms.length_eq]
    refine .bind (related_shares how _ hab) fun share share' hshare => ?_
    exact h.editJointly (fun i _ _ _ => .pure (hshare i)) _ hvw

end DataExpr.Matcher
