import DataExpr.Proofs.Matcher.Restoring

/-!
# Restoring matchers from restoring matchers

Sequences, choices, limits, lookaheads and list shapes of restoring matchers are restoring.  For list
shapes this is one fact about every position: `List.Forall₂` relates the matches that were chosen to
the items they were found in.
-/

namespace DataExpr.Matcher

open Match (Restores)

variable {cells : Cells} {s : Session} {focus : Value}

/-! ### Combinations -/

theorem Restoring.every_sequence {ms : List Matcher} (h : ∀ m ∈ ms, m.Restoring) {found : Matches}
    (hfound : found.Every (·.Restores focus)) :
    (ms.foldl (fun found m => found.bind fun outer => return (← m outer.value).map outer.inside)
      found).Every (·.Restores focus) := by
  induction ms generalizing found with
  | nil => exact hfound
  | cons m ms ih =>
    rw [List.forall_mem_cons] at h
    refine ih h.2 (hfound.bind fun outer ho cells s => ?_)
    exact (h.1 outer.value ho.plain cells s).map fun inner hi => ho.inside hi

theorem Restoring.sequence {ms : List Matcher} (h : ∀ m ∈ ms, m.Restoring) :
    (sequence ms).Restoring := fun _ hf _ _ => every_sequence h (every_whole hf)

theorem Restoring.choice {ms : List Matcher} (h : ∀ m ∈ ms, m.Restoring) :
    (choice ms).Restoring := fun focus hf _ _ =>
  (Findings.Every.ofList h).bind fun _ hm cells s => hm focus hf cells s

theorem restoring_lookahead (m : Matcher) : (lookahead m).Restoring := by
  intro focus hf cells s
  refine .delayed fun cells s found hfound => ?_
  -- Whatever the inner matcher finds first, the match is the whole focus.
  rcases hnext : ((m focus cells s).1.next cells (m focus cells s).2).1 with _ | ⟨_ | _, rest⟩
  · simp [hnext] at hfound
  · simp [hnext] at hfound
  · simp only [Run.bind_apply, hnext, Run.pure_apply, Option.some.injEq, Except.ok.injEq] at hfound
    rw [← hfound]
    exact .whole hf

theorem Restoring.limit {m : Matcher} (h : m.Restoring) (n : Nat) : (limit m n).Restoring :=
  fun focus hf cells s => (h focus hf cells s).take n

/-! ### Lists -/

/-- Choosing on for more positions keeps what has been chosen for the ones before them. -/
theorem every_productFrom {positions : List (Matcher × Value)}
    (h : ∀ p ∈ positions, p.1.Restoring ∧ p.2.Plain) (before : List Value)
    {found : Findings (List Match)}
    (hfound : found.Every (List.Forall₂ (fun m v => m.Restores v) · before)) :
    (positions.foldl
      (fun found (m, v) => found.bind fun chosen => return (← m v).map fun next => chosen ++ [next])
      found).Every
        (List.Forall₂ (fun m v => m.Restores v) · (before ++ positions.map Prod.snd)) := by
  induction positions generalizing before found with
  | nil =>
    rw [List.map_nil, List.append_nil]
    exact hfound
  | cons p ps ih =>
    rw [List.forall_mem_cons] at h
    rw [List.map_cons, List.append_cons]
    -- The values of the positions that are done grow at their end, as the choices do.
    refine ih h.2 _ (hfound.bind fun chosen hchosen cells s => ?_)
    refine (h.1.1 p.2 h.1.2 cells s).map fun next hnext => ?_
    exact List.rel_append hchosen (.cons hnext .nil)

/-- The matches of a combination restore what they were found in, position by position. -/
theorem every_product {positions : List (Matcher × Value)}
    (h : ∀ p ∈ positions, p.1.Restoring ∧ p.2.Plain) :
    (product positions).Every fun found =>
      List.Forall₂ (fun m v => m.Restores v) found (positions.map Prod.snd) :=
  every_productFrom h [] (.single .nil)

/-- Items of the contents that were found are put back one by one. -/
theorem replaceItems_ensures {found : List Match} {values : List Value}
    (h : List.Forall₂ (fun m v => m.Restores v) found values) {replacement : List Value}
    (hr : replacement.map Value.content = (found.map Match.value).map Value.content)
    (cells : Cells) (s : Session) :
    (replaceItems found replacement).Ensures cells s fun items _ =>
      items.map Value.content = values.map Value.content := by
  induction h generalizing replacement s with
  | nil =>
    obtain rfl := List.map_eq_nil_iff.1 hr
    exact .pure rfl
  | @cons m v ms vs hm _ ih =>
    obtain ⟨new, news, rfl, hnew, hnews⟩ := List.map_eq_cons_iff.1 hr
    refine (hm.replace new hnew cells s).bind fun w s' hw => ?_
    refine (ih hnews s').bind fun ws s'' hws => .pure ?_
    rw [List.map_cons, List.map_cons, hw, hws]

/-- The positions of a list shape in a list that it fits. -/
def positions (items : List Matcher) (rest : Option Matcher) (values : List Value) :
    List (Matcher × Value) :=
  items.zip values ++ match rest with
    | none => []
    | some m => (values.drop items.length).map (m, ·)

theorem map_snd_positions {items : List Matcher} {rest : Option Matcher} {values : List Value}
    (hfits : if rest.isSome then items.length ≤ values.length else values.length = items.length) :
    (positions items rest values).map Prod.snd = values := by
  unfold positions
  rw [List.map_append]
  cases rest with
  | none =>
    have hlength : values.length = items.length := hfits
    rw [Lists.map_snd_zip_eq_take (Nat.le_of_eq hlength.symm), ← hlength, List.take_length]
    exact List.append_nil _
  | some m =>
    rw [Lists.map_snd_zip_eq_take hfits, List.map_map]
    show _ ++ (values.drop items.length).map id = values
    rw [List.map_id, List.take_append_drop]

theorem restoring_positions {items : List Matcher} {rest : Option Matcher} {values : List Value}
    (hitems : ∀ m ∈ items, m.Restoring) (hrest : ∀ m ∈ rest, m.Restoring)
    (hvalues : ∀ v ∈ values, v.Plain) :
    ∀ p ∈ positions items rest values, p.1.Restoring ∧ p.2.Plain := by
  refine List.forall_mem_append.2 ⟨fun p hp => ?_, fun p hp => ?_⟩
  · have hp := List.of_mem_zip (a := p.1) (b := p.2) hp
    exact ⟨hitems _ hp.1, hvalues _ hp.2⟩
  · cases rest with
    | none => cases hp
    | some m =>
      obtain ⟨v, hv, rfl⟩ := List.mem_map.1 hp
      exact ⟨hrest m rfl, hvalues v (List.mem_of_mem_drop hv)⟩

/-- The list of what was found at all positions can be taken apart and put back. -/
theorem restores_list {items : List Matcher} {rest : Option Matcher} {values : List Value}
    (hfits : if rest.isSome then items.length ≤ values.length else values.length = items.length)
    {found : List Match} (h : List.Forall₂ (fun m v => m.Restores v) found values) (node n : Nat) :
    (⟨.list n (found.map Match.value), fun new => do
      match ← Run.resolve new with
      | .list _ replacement =>
        if replacement.length < items.length then
          throw (.arityMismatch items.length replacement.length)
        else Run.newList (← replaceItems found replacement)
      | _ => Eval.mismatch "array" new⟩ : Match).Restores (.list node values) := by
  have hplain : ∀ m ∈ found, m.value.Plain :=
    ((List.forall₂_and_left _ _).1 (h.imp fun m v hm => ⟨hm.plain, hm⟩)).1
  refine ⟨Value.plain_list.2 (List.forall_mem_map.2 hplain), fun v hv cells s => ?_⟩
  obtain ⟨k, replacement, rfl, hr⟩ := Value.eq_list_of_content_eq hv
  -- A list of the same content is as long, so it is not refused for its length.
  have hlength : ¬ replacement.length < items.length := by
    have := congrArg List.length hr
    rw [List.length_map, List.length_map, List.length_map, h.length_eq] at this
    split at hfits <;> omega
  refine .bind (P := fun w _ => w = .list k replacement) ⟨_, s, rfl, rfl⟩ fun w s' hw => ?_
  subst hw
  simp only [if_neg hlength]
  refine (replaceItems_ensures h hr cells s').bind fun ws s'' hws => ?_
  refine .lift ?_
  rw [Run.newList_apply, Value.content_list, Value.content_list, hws]

theorem Restoring.array {items : List Matcher} {rest : Option Matcher}
    (hitems : ∀ m ∈ items, m.Restoring) (hrest : ∀ m ∈ rest, m.Restoring) :
    (array items rest).Restoring := by
  intro focus hf cells s
  simp only [Matcher.array, Run.bind_apply, Run.resolve_apply, hf.resolve]
  split
  · rename_i node values
    rw [Value.plain_list] at hf
    by_cases hfits : if rest.isSome then items.length ≤ values.length
      else values.length = items.length
    · rw [if_pos hfits]
      have hfound := every_product (restoring_positions hitems hrest hf)
      rw [map_snd_positions hfits] at hfound
      exact hfound.mapRun fun found hfound cells s => restores_list hfits hfound node _
    · rw [if_neg hfits]
      exact .empty
  · exact .empty

/-- Whether all elements are matched decides on the whole list or nothing. -/
theorem restoring_arrayOf (m : Matcher) : (arrayOf m).Restoring := by
  intro focus hf cells s
  simp only [arrayOf, Run.bind_apply, Run.resolve_apply, hf.resolve]
  split
  · rw [Run.bind_apply]
    rcases (matchesAll m _).run cells s with ⟨_ | all, s'⟩
    · exact .failed
    · cases all with
      | true => exact every_whole hf
      | false => exact .empty
  · exact .empty

end DataExpr.Matcher
