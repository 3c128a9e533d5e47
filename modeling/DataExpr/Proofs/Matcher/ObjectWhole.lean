import DataExpr.Proofs.Matcher.ArrayShape
import DataExpr.Proofs.Matcher.ObjectReplace

/-!
# Map shapes that take their parts whole

A map shape whose matchers all take their values as they are has just one match in a map that has the
fields it needs (`object_first`).  That match has the entries that the shape covers
(`wholeMatch_value`), and replacing it by a map succeeds: at the keys that the shape names there is
what the map has, and at all others what it has too, if there is a rest (`wholeMatch_replace`).
-/

namespace DataExpr.Matcher

open ObjectMatch (defined share)

/-- The matcher takes every value as it is. -/
def Whole (m : Matcher) : Prop := ∀ v, m v = return .whole v

variable {cells : Cells} {fields : List (Field Matcher)} {rest : Option Matcher}
variable {entries : Entries Value} {n : Nat}

/-! ### The only match -/

theorem product_whole {positions : List (Matcher × Value)} (h : ∀ p ∈ positions, p.1.Whole) :
    product positions = .single (positions.map fun p => .whole p.2) := by
  rw [product_eq]
  induction positions with
  | nil => rfl
  | cons p ps ih =>
    rw [List.forall_mem_cons] at h
    rw [List.map_cons, Findings.nestedLoop, h.1, Findings.deferred_pure, ih h.2, Matches.whole,
      Findings.single_bind_pure, Findings.map_single, List.map_cons]

/-- The entries that a map has for the fields. -/
def presentEntries {P : Type} (entries : Entries Value) (fields : List (Field P)) : Entries Value :=
  (presentFields entries fields).map fun p => (p.1.key, p.2)

/-- The match of a map shape whose matchers all take their values as they are.  The map of the other
entries has the given number. -/
def wholeMatch (entries : Entries Value) (fields : List (Field Matcher)) (rest : Option Matcher)
    (n : Nat) : ObjectMatch where
  entries := entries
  named := fields.map Field.key
  fields := Entries.mapValues Match.whole (presentEntries entries fields)
  skipped := absentKeys entries fields
  rest := rest.map fun _ => .whole (.map n (Entries.without entries (fields.map Field.key)))

/-- The whole values at all positions of a map shape. -/
def wholeValues (entries : Entries Value) (fields : List (Field Matcher)) (rest : Option Matcher)
    (n : Nat) : List Match :=
  (objectPositions entries fields rest n).map fun p => .whole p.2

theorem zip_whole (present : List (Field Matcher × Value)) (more : List Match) :
    (present.map (·.1.key)).zip (present.map (fun p => .whole p.2) ++ more) =
      Entries.mapValues Match.whole (present.map fun p => (p.1.key, p.2)) := by
  induction present with
  | nil => rfl
  | cons p ps ih =>
    rw [List.map_cons, List.map_cons, List.cons_append, List.zip_cons_cons, ih, List.map_cons,
      Entries.mapValues_cons]

/-- The combination of the whole values is the match that has them. -/
theorem combined_whole (cells : Cells) (entries : Entries Value) (fields : List (Field Matcher))
    (rest : Option Matcher) (n : Nat) :
    combined cells entries fields (wholeValues entries fields rest n) =
      wholeMatch entries fields rest n := by
  have hvalues : wholeValues entries fields rest n =
      (presentFields entries fields).map (fun p => .whole p.2) ++ rest.toList.map fun _ =>
        .whole (.map n (Entries.without entries (fields.map Field.key))) := by
    rw [wholeValues, objectPositions, List.map_append, List.map_map, List.map_map]
    rfl
  have hlength : ((presentFields entries fields).map fun p => Match.whole p.2).length =
      (presentFields entries fields).length := List.length_map _
  rw [combined, hvalues, zip_whole, ← hlength, List.getElem?_append_right (Nat.le_refl _), Nat.sub_self,
    wholeMatch]
  cases rest with
  | none => rfl
  | some p => rfl

section

variable (hfields : ∀ field ∈ fields, field.pattern.Whole) (hrest : ∀ p ∈ rest, p.Whole)
include hfields hrest

theorem whole_of_mem_positions : ∀ p ∈ objectPositions entries fields rest n, p.1.Whole := by
  intro p hp
  rcases List.mem_append.1 hp with hp | hp
  · obtain ⟨q, hq, rfl⟩ := List.mem_map.1 hp
    exact hfields q.1 (mem_presentFields.1 hq).1
  · obtain ⟨q, hq, rfl⟩ := List.mem_map.1 hp
    exact hrest q (Option.mem_toList.1 hq)

/-- The first match of a map shape in a map that has the fields it needs. -/
theorem object_first {focus : Value} {node : Nat} (hfocus : cells.resolve focus = .map node entries)
    (hrequired : ∀ field ∈ fields, field.optional = false →
      Entries.get? entries field.key ≠ none) (s : Session) :
    ∃ t u, (object fields rest focus cells s).1.first cells (object fields rest focus cells s).2 =
      (.ok (some ⟨((wholeMatch entries fields rest s.nextNode).value cells t).1,
        (wholeMatch entries fields rest s.nextNode).replace⟩), u) := by
  rw [object_apply hfocus hrequired, product_whole (whole_of_mem_positions hfields hrest)]
  rw [← combined_whole cells]
  exact ⟨_, _, rfl⟩

/-- The parts of the only match fit. -/
theorem fits_whole (hkeys : (fields.map Field.key).Nodup) (hentries : (Entries.keys entries).Nodup) :
    (wholeMatch entries fields rest n).Fits := by
  have hfound : List.Forall₂ (FoundIn Cells.none) (wholeValues entries fields rest n)
      (objectPositions entries fields rest n) := by
    refine List.forall₂_map_left_iff.2 (List.forall₂_same.2 fun p hp => ⟨⟨0, #[]⟩, ?_⟩)
    rw [whole_of_mem_positions hfields hrest p hp p.2]
    exact Findings.Gives.now (s := ⟨0, #[]⟩) rfl
  rw [← combined_whole Cells.none]
  exact ObjectMatch.fits_combined hkeys hentries hfound

end

/-! ### What the match has -/

theorem get?_presentEntries (entries : Entries Value) (fields : List (Field Matcher)) (k : String) :
    Entries.get? (presentEntries entries fields) k =
      if k ∈ fields.map Field.key then Entries.get? entries k else none := by
  induction fields with
  | nil => rfl
  | cons field fields ih =>
    rw [presentEntries, presentFields] at ih
    by_cases hk : field.key = k
    · subst hk
      cases hv : Entries.get? entries field.key with
      | none => simpa [presentEntries, presentFields, hv] using ih
      | some v => simp [presentEntries, presentFields, Entries.get?, hv]
    · cases hv : Entries.get? entries field.key with
      | none => simpa [presentEntries, presentFields, hv, Ne.symm hk] using ih
      | some v => simpa [presentEntries, presentFields, Entries.get?, hv, hk, Ne.symm hk] using ih

/-- The entries that a map shape covers: all of them if there is a rest, otherwise the fields. -/
def covered {P : Type} (fields : List (Field P)) (rest : Option P) (entries : Entries Value) :
    Entries Value :=
  match rest with
  | some _ => entries
  | none => entries.filter fun e => (fields.map Field.key).contains e.1

theorem get?_covered {P : Type} (fields : List (Field P)) (rest : Option P) (entries : Entries Value)
    (k : String) : Entries.get? (covered fields rest entries) k =
      if rest.isSome ∨ k ∈ fields.map Field.key then Entries.get? entries k else none := by
  cases rest with
  | some p => simp [covered]
  | none =>
    rw [covered, Entries.get?_filter entries (fields.map Field.key).contains]
    simp

theorem nodup_covered {P : Type} (fields : List (Field P)) (rest : Option P)
    (h : (Entries.keys entries).Nodup) : (Entries.keys (covered fields rest entries)).Nodup := by
  cases rest with
  | some p => exact h
  | none => exact Entries.nodup_keys_filter h _

/-- The matched map has the entries that the shape covers. -/
theorem wholeMatch_value (hkeys : (fields.map Field.key).Nodup)
    (hentries : (Entries.keys entries).Nodup) (rest : Option Matcher) (n : Nat) (cells : Cells)
    (s : Session) :
    ∃ node es, ((wholeMatch entries fields rest n).value cells s).1 = .map node es ∧
      es.Perm (covered fields rest entries) := by
  have hpresent : (Entries.keys (presentEntries entries fields)).Nodup := by
    rw [presentEntries, Entries.keys, List.map_map]
    exact hkeys.sublist (keys_presentFields_sublist entries fields)
  have hvalues : Entries.mapValues Match.value (wholeMatch entries fields rest n).fields =
      presentEntries entries fields := by
    rw [wholeMatch, Entries.mapValues, Entries.mapValues, List.map_map]
    exact List.map_id _
  rw [ObjectMatch.value_eq, hvalues, Entries.ofPairs_of_nodup hpresent]
  refine ⟨_, _, rfl, Entries.perm_of_get?_eq (Entries.nodup_keys_insertAll hpresent _)
    (nodup_covered fields rest hentries) fun k => ?_⟩
  cases rest with
  | none => exact (get?_presentEntries entries fields k).trans (by simp [get?_covered])
  | some p =>
    have hothers := Entries.nodup_keys_without hentries (fields.map Field.key)
    have hget := Entries.get?_insertAll hothers (presentEntries entries fields) k
    rw [Entries.get?_without, get?_presentEntries] at hget
    refine hget.trans ?_
    rw [get?_covered]
    by_cases hk : k ∈ fields.map Field.key
    · simp [hk]
    · simp [hk]

/-! ### Replacing it -/

section

variable {replacement parts : Entries Value} {a : Nat} {new : Value}

theorem replaceFields_whole (replacement pairs result : Entries Value) (cells : Cells) (s : Session) :
    ∃ es, ObjectMatch.replaceFields replacement (Entries.mapValues Match.whole pairs) result cells s =
      (.ok es, s) := by
  induction pairs generalizing result with
  | nil => exact ⟨result, rfl⟩
  | cons p ps ih => exact ih _

theorem wholeMatch_replaces (hnew : cells.resolve new = .map a replacement) (s : Session) :
    ∃ v t, (wholeMatch entries fields rest n).replace new cells s = (.ok v, t) := by
  obtain ⟨es, hes⟩ := replaceFields_whole replacement (presentEntries entries fields) entries cells s
  simp only [ObjectMatch.replace, Eval.bind_apply, Eval.lift_apply, Run.resolve_apply, hnew]
  simp only [wholeMatch, hes]
  cases rest with
  | none => exact ⟨_, _, rfl⟩
  | some p => exact ⟨_, _, rfl⟩

/-- At each key that the shape names there is the part of the replacement for it. -/
theorem get?_parts (h : (wholeMatch entries fields rest n).PartsPut cells replacement parts)
    {k : String} (hk : k ∈ fields.map Field.key) :
    Entries.get? parts k = defined (share replacement k) := by
  obtain ⟨field, hfield, rfl⟩ := List.mem_map.1 hk
  cases hv : Entries.get? entries field.key with
  | none => exact h.skipped _ (mem_absentKeys.2 ⟨⟨field, hfield, rfl⟩, hv⟩)
  | some v =>
    have hpresent : (field.key, v) ∈ presentEntries entries fields :=
      List.mem_map.2 ⟨(field, v), mem_presentFields.2 ⟨hfield, hv⟩, rfl⟩
    obtain ⟨s, w, t, hw, hget⟩ := h.field (field.key, .whole v) (List.mem_map.2 ⟨_, hpresent, rfl⟩)
    cases hw
    exact hget

/-- Replacing the match by a map succeeds, and says what is at each key afterwards. -/
theorem wholeMatch_replace (hfields : ∀ field ∈ fields, field.pattern.Whole)
    (hrest : ∀ p ∈ rest, p.Whole) (hkeys : (fields.map Field.key).Nodup)
    (hentries : (Entries.keys entries).Nodup) (hnew : cells.resolve new = .map a replacement)
    (hreplacement : (Entries.keys replacement).Nodup) (s : Session) :
    ∃ node es t, (wholeMatch entries fields rest n).replace new cells s = (.ok (.map node es), t) ∧
      (Entries.keys es).Nodup ∧ ∀ k, Entries.get? es k =
        if k ∈ fields.map Field.key then defined (share replacement k)
        else if rest.isSome then Entries.get? replacement k
        else Entries.get? entries k := by
  obtain ⟨v, t, hreplace⟩ : ∃ v t,
      (wholeMatch entries fields rest n).replace new cells s = (.ok v, t) :=
    wholeMatch_replaces hnew s
  obtain ⟨_, _, parts, node, es, hnew', rfl, hparts, hfinished⟩ :=
    (fits_whole hfields hrest hkeys hentries).of_replace hreplace
  rw [hnew] at hnew'
  cases hnew'
  refine ⟨node, es, t, hreplace, ?_⟩
  cases hfinished with
  | alone hnone =>
    refine ⟨hparts.nodup, fun k => ?_⟩
    have hnone' : rest = none := by simpa [wholeMatch] using hnone
    subst hnone'
    by_cases hk : k ∈ fields.map Field.key
    · rw [if_pos hk, get?_parts hparts hk]
    · rw [if_neg hk, hparts.other k hk]
      rfl
  | @withRest _ b _ _ _ _ _ hsome hrebuilt hresolve =>
    -- The rest returns its part of the replacement as it is.
    obtain ⟨p, rfl, rfl⟩ := Option.map_eq_some_iff.1 hsome
    cases hrebuilt
    have hreturned : cells.resolve (.map b (Entries.without replacement (fields.map Field.key))) =
        .map b (Entries.without replacement (fields.map Field.key)) := cells.resolve_of_ne_cell nofun
    cases hreturned.symm.trans hresolve
    have hothers := Entries.nodup_keys_without hreplacement (fields.map Field.key)
    refine ⟨hparts.nodup_withRest _, fun k => ?_⟩
    have hnamed : (wholeMatch entries fields (some p) n).named = fields.map Field.key := rfl
    rw [hparts.get?_withRest hothers, Entries.get?_without, hnamed]
    by_cases hk : k ∈ fields.map Field.key
    · rw [if_pos hk, if_pos hk, if_pos hk, Option.none_or, get?_parts hparts hk]
    · rw [if_neg hk, if_neg hk, if_neg hk, Option.or_none]
      rfl

end

end DataExpr.Matcher
