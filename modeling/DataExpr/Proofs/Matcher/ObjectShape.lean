import DataExpr.Proofs.Findings.Gives
import DataExpr.Proofs.Matcher.Restoring.Combine
import Mathlib.Data.List.Nodup

/-!
# The combinations of a map shape

A match of a map shape is made of a combination: one match for every field that the focus has, and one
for the map of all other entries (`Matcher.object_gives`).  The matched map is taken apart again by
keys when it is replaced.  That works if the parts do not overlap, and then a combination of
restoring matches gives the focus back (`ObjectMatch.Apart.replace_found`).  The match of the other
entries decides about that: the map it has found need not be the one it was looked for in, so it may
hold keys that the shape names.
-/

namespace DataExpr.Matcher

open Match (Restores)

variable {cells : Cells} {s : Session} {focus : Value}

/-! ### Fields -/

section

variable {P : Type} {entries : Entries Value} {fields : List (Field P)}

/-- The fields that a map has, with their values. -/
def presentFields (entries : Entries Value) (fields : List (Field P)) : List (Field P × Value) :=
  fields.filterMap fun field => (Entries.get? entries field.key).map (field, ·)

/-- The keys of the fields that a map lacks. -/
def absentKeys (entries : Entries Value) (fields : List (Field P)) : List String :=
  (fields.filter fun field => !Entries.contains entries field.key).map Field.key

theorem splitFields_eq {r : List (Field P × Value) × List String}
    (h : splitFields entries fields = some r) :
    r = (presentFields entries fields, absentKeys entries fields) := by
  induction fields generalizing r with
  | nil => exact (Option.some.inj h).symm
  | cons field fields ih =>
    obtain ⟨r', hr', h⟩ := Option.bind_eq_some_iff.1 h
    rw [ih hr'] at h
    cases hv : Entries.get? entries field.key with
    | some v =>
      simp only [hv] at h
      simp [presentFields, absentKeys, Entries.contains, hv, ← Option.some.inj h]
    | none =>
      simp only [hv] at h
      split at h
      · simp [presentFields, absentKeys, Entries.contains, hv, ← Option.some.inj h]
      · cases h

/-- Only the fields that are not optional have to be there. -/
theorem splitFields_of_required
    (h : ∀ field ∈ fields, field.optional = false → Entries.get? entries field.key ≠ none) :
    splitFields entries fields = some (presentFields entries fields, absentKeys entries fields) := by
  suffices hsome : ∃ r, splitFields entries fields = some r by
    obtain ⟨r, hr⟩ := hsome
    rw [hr, splitFields_eq hr]
  induction fields with
  | nil => exact ⟨_, rfl⟩
  | cons field fields ih =>
    rw [List.forall_mem_cons] at h
    obtain ⟨r, hr⟩ := ih h.2
    simp only [splitFields, hr, Option.bind_eq_bind, Option.bind_some]
    cases hv : Entries.get? entries field.key with
    | some v => exact ⟨_, rfl⟩
    | none =>
      have hoptional : field.optional = true := by
        by_contra hrequired
        exact h.1 (Bool.not_eq_true _ ▸ hrequired) hv
      exact ⟨_, if_pos hoptional⟩

theorem required_of_splitFields {r : List (Field P × Value) × List String}
    (h : splitFields entries fields = some r) :
    ∀ field ∈ fields, field.optional = false → Entries.get? entries field.key ≠ none := by
  induction fields generalizing r with
  | nil => exact nofun
  | cons field fields ih =>
    obtain ⟨r', hr', h⟩ := Option.bind_eq_some_iff.1 h
    refine List.forall_mem_cons.2 ⟨fun hrequired hv => ?_, ih hr'⟩
    simp only [hv, hrequired, Bool.false_eq_true, if_false] at h
    cases h

theorem mem_presentFields {p : Field P × Value} :
    p ∈ presentFields entries fields ↔
      p.1 ∈ fields ∧ Entries.get? entries p.1.key = some p.2 := by
  obtain ⟨field, v⟩ := p
  simp [presentFields, List.mem_filterMap]

theorem mem_absentKeys {k : String} :
    k ∈ absentKeys entries fields ↔
      (∃ field ∈ fields, field.key = k) ∧ Entries.get? entries k = none := by
  simp only [absentKeys, List.mem_map, List.mem_filter, Entries.contains]
  constructor
  · rintro ⟨field, ⟨hfield, habsent⟩, rfl⟩
    exact ⟨⟨field, hfield, rfl⟩, by simpa using habsent⟩
  · rintro ⟨⟨field, hfield, rfl⟩, habsent⟩
    exact ⟨field, ⟨hfield, by simpa using habsent⟩, rfl⟩

theorem keys_presentFields_sublist (entries : Entries Value) (fields : List (Field P)) :
    ((presentFields entries fields).map (·.1.key)).Sublist (fields.map Field.key) := by
  induction fields with
  | nil => exact .slnil
  | cons field fields ih =>
    rw [presentFields, List.filterMap_cons]
    cases Entries.get? entries field.key with
    | none => exact ih.cons _
    | some v => exact ih.cons_cons _

end

/-! ### Combinations -/

/-- The match is found in the value by the matcher of the position. -/
def FoundIn (cells : Cells) (m : Match) (position : Matcher × Value) : Prop :=
  ∃ s, (position.1 position.2 cells s).1.Gives cells m

theorem FoundIn.restores {m : Match} {position : Matcher × Value} (h : FoundIn cells m position)
    (hm : position.1.Restoring) (hv : position.2.Plain) : m.Restores position.2 := by
  obtain ⟨s, h⟩ := h
  exact (hm position.2 hv cells s).of_gives h

/-- Choosing on for more positions keeps what has been chosen for the ones before them. -/
theorem gives_productFrom {positions done : List (Matcher × Value)} {found : Findings (List Match)}
    (hfound : ∀ chosen, found.Gives cells chosen → List.Forall₂ (FoundIn cells) chosen done)
    {chosen : List Match}
    (h : (positions.foldl
      (fun found (m, v) => found.bind fun chosen => return (← m v).map fun next => chosen ++ [next])
      found).Gives cells chosen) :
    List.Forall₂ (FoundIn cells) chosen (done ++ positions) := by
  induction positions generalizing done found with
  | nil =>
    rw [List.append_nil]
    exact hfound chosen h
  | cons p ps ih =>
    rw [List.append_cons]
    refine ih (fun chosen hchosen => ?_) h
    obtain ⟨before, hbefore, s, hnext⟩ := hchosen.of_bind
    obtain ⟨next, hgiven, rfl⟩ := Findings.Gives.of_map hnext
    exact List.rel_append (hfound before hbefore) (.cons ⟨s, hgiven⟩ .nil)

/-- The matches of a combination are found position by position. -/
theorem gives_product {positions : List (Matcher × Value)} {chosen : List Match}
    (h : (product positions).Gives cells chosen) :
    List.Forall₂ (FoundIn cells) chosen positions :=
  have hstart : ∀ chosen, (Findings.single []).Gives cells chosen →
      List.Forall₂ (FoundIn cells) chosen [] := fun _ h => h.of_single ▸ .nil
  gives_productFrom hstart h

@[simp] theorem restOf_apply (found : Option Match) (cells : Cells) (s : Session) :
    ObjectMatch.restOf found cells s =
      (found.filter fun r => (cells.resolve r.value).entries?.isSome, s) := by
  cases found with
  | none => rfl
  | some r =>
    rw [ObjectMatch.restOf, Run.bind_apply, Run.resolve_apply, Option.filter_some]
    rfl

/-- What is found for a map shape by the matches of its fields and, after them, of its rest. -/
def combined {P : Type} (cells : Cells) (entries : Entries Value) (fields : List (Field P))
    (found : List Match) : ObjectMatch :=
  let present := presentFields entries fields
  ⟨entries, fields.map Field.key, (present.map (·.1.key)).zip found, absentKeys entries fields,
    found[present.length]?.filter fun r => (cells.resolve r.value).entries?.isSome⟩

/-- The positions of a map shape, where the map of the other entries has the given number. -/
def objectPositions (entries : Entries Value) (fields : List (Field Matcher))
    (rest : Option Matcher) (n : Nat) : List (Matcher × Value) :=
  (presentFields entries fields).map (fun p => (p.1.pattern, p.2)) ++
    rest.toList.map fun p => (p, .map n (Entries.without entries (fields.map Field.key)))

/-- The match of a map shape for a combination. -/
def combineObject {P : Type} (entries : Entries Value) (fields : List (Field P))
    (found : List Match) : Run Match := do
  let m := combined (← read) entries fields found
  return ⟨← m.value, m.replace⟩

/-- A map that has the fields that are not optional is matched by the combinations of its positions. -/
theorem object_apply {fields : List (Field Matcher)} {rest : Option Matcher} {node : Nat}
    {entries : Entries Value} (hfocus : cells.resolve focus = .map node entries)
    (hrequired : ∀ field ∈ fields, field.optional = false →
      Entries.get? entries field.key ≠ none) (s : Session) :
    object fields rest focus cells s =
      ((product (objectPositions entries fields rest s.nextNode)).mapRun
        (combineObject entries fields), s.after rest.toList.length) := by
  have hcombine : (fun found : List Match => do
      let rest ← ObjectMatch.restOf found[(presentFields entries fields).length]?
      let m : ObjectMatch := ⟨entries, fields.map Field.key,
        ((presentFields entries fields).map (·.1.key)).zip found, absentKeys entries fields, rest⟩
      return ⟨← m.value, m.replace⟩ : List Match → Run Match) = combineObject entries fields := by
    funext found cells s
    rw [Run.bind_apply, restOf_apply]
    rfl
  rw [object, Run.bind_apply, Run.resolve_apply, hfocus]
  simp only [splitFields_of_required hrequired]
  rw [← hcombine]
  -- The positions are the fields, and the map of the other entries if there is a rest.
  cases rest with
  | none => rfl
  | some p => rfl

theorem object_eq_empty {fields : List (Field Matcher)} {rest : Option Matcher} {node : Nat}
    {entries : Entries Value} (hfocus : cells.resolve focus = .map node entries)
    (hmissing : ∃ field ∈ fields, field.optional = false ∧ Entries.get? entries field.key = none)
    (s : Session) : object fields rest focus cells s = (.empty, s) := by
  rw [object, Run.bind_apply, Run.resolve_apply, hfocus]
  cases hsplit : splitFields entries fields with
  | none => simp only [hsplit, Run.pure_apply]
  | some r =>
    obtain ⟨field, hfield, hrequired, hv⟩ := hmissing
    exact absurd hv (required_of_splitFields hsplit field hfield hrequired)

/-- A match of a map shape is made of matches of the fields that the focus has and of one match of the
map of all its other entries. -/
theorem object_gives {fields : List (Field Matcher)} {rest : Option Matcher} {m : Match}
    (h : (object fields rest focus cells s).1.Gives cells m) :
    ∃ node entries, cells.resolve focus = .map node entries ∧ ∃ found,
      List.Forall₂ (FoundIn cells) found (objectPositions entries fields rest s.nextNode) ∧
      ∃ t, m = ⟨((combined cells entries fields found).value cells t).1,
        (combined cells entries fields found).replace⟩ := by
  cases hfocus : cells.resolve focus with
  | map node entries =>
    refine ⟨node, entries, rfl, ?_⟩
    by_cases hmissing : ∃ field ∈ fields, field.optional = false ∧
      Entries.get? entries field.key = none
    · rw [object_eq_empty hfocus hmissing] at h
      exact absurd h Findings.not_gives_empty
    · have hrequired : ∀ field ∈ fields, field.optional = false →
          Entries.get? entries field.key ≠ none :=
        fun field hfield hoptional hv => hmissing ⟨field, hfield, hoptional, hv⟩
      rw [object_apply hfocus hrequired] at h
      obtain ⟨found, hfound, t, rfl⟩ := Findings.Gives.of_mapRun h
      exact ⟨found, gives_product hfound, t, rfl⟩
  | _ =>
    rw [object, Run.bind_apply, Run.resolve_apply, hfocus] at h
    exact absurd h Findings.not_gives_empty

/-! ### Taking a matched map apart -/

namespace ObjectMatch

/-- The matches of a combination restore what they were found in, and the rest holds no key that the
shape names. -/
structure Apart (m : ObjectMatch) : Prop where
  keys : (Entries.keys m.entries).Nodup
  fieldKeys : (Entries.keys m.fields).Nodup
  field : ∀ e ∈ m.fields, ∃ v, Entries.get? m.entries e.1 = some v ∧
    v.isUndefined = false ∧ e.2.Restores v
  field_named : ∀ k ∈ Entries.keys m.fields, k ∈ m.named
  skipped_named : ∀ k ∈ m.skipped, k ∈ m.named
  skipped : ∀ k ∈ m.skipped, k ∉ Entries.keys m.fields
  rest : ∀ r ∈ m.rest, ∃ n, r.Restores (.map n (Entries.without m.entries m.named))
  rest_map : ∀ r ∈ m.rest, ∃ n es, r.value = .map n es ∧ ∀ k ∈ m.named, k ∉ Entries.keys es

/-- The entries that the match of the rest has found. -/
def others (m : ObjectMatch) : Entries Value := m.rest.elim [] fun r => r.value.entries?.getD []

/-- The values of the fields, and after them what the rest has found. -/
def found (m : ObjectMatch) : Entries Value := Entries.mapValues Match.value m.fields ++ m.others

variable {m : ObjectMatch}

theorem nodup_others (hrest : ∀ r ∈ m.rest, r.value.Plain) : (Entries.keys m.others).Nodup := by
  cases h : m.rest with
  | none => simp [others, h]
  | some r =>
    have hplain := hrest r h
    cases hvalue : r.value with
    | map n es =>
      rw [hvalue, Value.plain_map] at hplain
      simpa [others, h, hvalue, Value.entries?] using hplain.1
    | _ => simp [others, h, hvalue, Value.entries?]

theorem Apart.plain_rest (h : m.Apart) : ∀ r ∈ m.rest, r.value.Plain := by
  intro r hr
  obtain ⟨n, hr⟩ := h.rest r hr
  exact hr.plain

theorem Apart.not_mem_others (h : m.Apart) {k : String} (hk : k ∈ m.named) :
    k ∉ Entries.keys m.others := by
  cases hrest : m.rest with
  | none => simp [others, hrest]
  | some r =>
    obtain ⟨n, es, hvalue, hes⟩ := h.rest_map r hrest
    simpa [others, hrest, hvalue, Value.entries?] using hes k hk

/-- The matched map has the values of the fields, and over them the entries of what the rest has
found. -/
theorem value_eq (m : ObjectMatch) (cells : Cells) (s : Session) :
    m.value cells s = (.map s.nextNode
      (Entries.insertAll (Entries.ofPairs (Entries.mapValues Match.value m.fields))
        (m.rest.elim [] fun r => (cells.resolve r.value).entries?.getD [])), s.after 1) := by
  unfold ObjectMatch.value
  cases m.rest with
  | none => rfl
  | some r => rfl

/-- The matched map holds the values of the fields, and what the rest has found over them. -/
theorem value_apply (hkeys : (Entries.keys m.fields).Nodup) (hrest : ∀ r ∈ m.rest, r.value.Plain)
    (cells : Cells) (s : Session) :
    m.value cells s = (.map s.nextNode (Entries.insertAll (Entries.mapValues Match.value m.fields)
      m.others), s.after 1) := by
  have hfields : Entries.ofPairs (Entries.mapValues Match.value m.fields) =
      Entries.mapValues Match.value m.fields :=
    Entries.ofPairs_of_nodup (by rwa [Entries.keys_mapValues])
  rw [value_eq, hfields, others]
  cases h : m.rest with
  | none => rfl
  | some r => rw [Option.elim_some, Option.elim_some, (hrest r h).resolve]

/-- Where the parts are apart, the matched map holds them side by side. -/
theorem Apart.value_apply (h : m.Apart) (cells : Cells) (s : Session) :
    m.value cells s = (.map s.nextNode m.found, s.after 1) := by
  have hfound : Entries.insertAll (Entries.mapValues Match.value m.fields) m.others = m.found := by
    refine Entries.insertAll_of_disjoint (nodup_others h.plain_rest) fun k hk hfield => ?_
    rw [Entries.keys_mapValues] at hfield
    exact h.not_mem_others (h.field_named k hfield) hk
  rw [ObjectMatch.value_apply h.fieldKeys h.plain_rest, hfound]

/-- A field has its own value in the matched map. -/
theorem Apart.get?_found (h : m.Apart) {k : String} {f : Match} (hf : (k, f) ∈ m.fields) :
    Entries.get? m.found k = some f.value := by
  rw [found, Entries.get?_append, Entries.get?_mapValues, Entries.get?_of_mem h.fieldKeys hf]
  rfl

/-- A key that is skipped does not occur in the matched map. -/
theorem Apart.get?_found_skipped (h : m.Apart) {k : String} (hk : k ∈ m.skipped) :
    Entries.get? m.found k = none := by
  rw [found, Entries.get?_append, (Entries.get?_eq_none_iff _ _).2, Option.none_or,
    (Entries.get?_eq_none_iff _ _).2 (h.not_mem_others (h.skipped_named k hk))]
  rw [Entries.keys_mapValues]
  exact h.skipped k hk

/-- The matched map without the keys that the shape names is what the rest has found. -/
theorem Apart.without_found (h : m.Apart) : Entries.without m.found m.named = m.others := by
  have hfields : ∀ k ∈ Entries.keys (Entries.mapValues Match.value m.fields), k ∈ m.named := by
    rw [Entries.keys_mapValues]
    exact h.field_named
  rw [found, Entries.without_append, Entries.without_eq_nil hfields, List.nil_append]
  exact Entries.without_eq_self fun k hk hnamed => h.not_mem_others hnamed hk

/-! ### Putting the parts back -/

/-- Fields whose own values are put back keep the content of the entries. -/
theorem Apart.replaceFields_ensures (h : m.Apart) {fields : List (String × Match)}
    (hfields : ∀ e ∈ fields, e ∈ m.fields) {result : Entries Value}
    (hresult : Entries.mapValues Value.content result = Entries.mapValues Value.content m.entries)
    (cells : Cells) (s : Session) :
    (replaceFields m.found fields result).Ensures cells s fun es _ =>
      Entries.mapValues Value.content es = Entries.mapValues Value.content m.entries := by
  induction fields generalizing result s with
  | nil => exact .pure hresult
  | cons e fields ih =>
    rw [List.forall_mem_cons] at hfields
    obtain ⟨v, hv, hdefined, hrestores⟩ := h.field e hfields.1
    rw [replaceFields, h.get?_found hfields.1, Option.getD_some]
    refine (hrestores.replace e.2.value rfl cells s).bind fun w s' hw => ?_
    have hw' : w.isUndefined = false := by
      rw [← Value.isUndefined_content, hw, Value.isUndefined_content, hdefined]
    rw [hw', if_neg Bool.false_ne_true]
    refine ih hfields.2 ?_ s'
    rw [Entries.mapValues_insert, hresult, hw, Entries.insert_of_get?]
    rw [Entries.get?_mapValues, hv, Option.map_some]

/-- A skipped key is added if there is something at it that is not undefined. -/
theorem addSkipped_cons (rs : Entries Value) (k : String) (ks : List String) (es : Entries Value) :
    addSkipped rs (k :: ks) es =
      addSkipped rs ks (if ((Entries.get? rs k).getD .undefined).isUndefined then es
        else Entries.insert es k ((Entries.get? rs k).getD .undefined)) := by
  rw [addSkipped, List.foldl_cons, addSkipped]
  congr 1
  cases Entries.get? rs k with
  | none => rfl
  | some v => cases v <;> rfl

theorem addSkipped_eq_self {replacement : Entries Value} {skipped : List String}
    (h : ∀ k ∈ skipped, Entries.get? replacement k = none) (result : Entries Value) :
    addSkipped replacement skipped result = result := by
  induction skipped generalizing result with
  | nil => rfl
  | cons k ks ih =>
    rw [List.forall_mem_cons] at h
    rw [addSkipped, List.foldl_cons, h.1]
    exact ih h.2 result

/-- Putting back what the rest has found keeps the content of the entries. -/
theorem Apart.replaceRest_ensures (h : m.Apart) {result : Entries Value}
    (hresult : Entries.mapValues Value.content result = Entries.mapValues Value.content m.entries)
    (cells : Cells) (s : Session) :
    (m.replaceRest m.found result).Ensures cells s fun es _ =>
      Entries.mapValues Value.content es = Entries.mapValues Value.content m.entries := by
  cases hrest : m.rest with
  | none =>
    simp only [replaceRest, hrest]
    exact .pure hresult
  | some r =>
    obtain ⟨n, hr⟩ := h.rest r hrest
    obtain ⟨k, es, hvalue, -⟩ := h.rest_map r hrest
    have hothers : m.others = es := by simp [others, hrest, hvalue, Value.entries?]
    simp only [replaceRest, hrest, h.without_found]
    -- The map for the rest has another number than what the rest has found, and the same content.
    refine .bind (P := fun v _ => v.content = r.value.content)
      (.lift (by simp [hvalue, hothers])) fun v s' hv => ?_
    refine (hr.replace v hv cells s').bind fun w s'' hw => ?_
    obtain ⟨k', others, rfl, hcontent⟩ := Value.eq_map_of_content_eq hw
    refine .bind (P := fun v _ => v = .map k' others) ⟨_, s'', rfl, rfl⟩ fun v t hv => ?_
    subst hv
    refine .pure ?_
    have hkeys : Entries.keys others = Entries.keys (Entries.without m.entries m.named) := by
      rw [← Entries.keys_mapValues Value.content, hcontent, Entries.keys_mapValues]
    have hgone : ((Entries.without m.entries m.named).keys.filter fun key =>
        !Entries.contains others key) = [] := by
      refine List.filter_eq_nil_iff.2 fun key hkey => ?_
      rw [← hkeys] at hkey
      simpa [Entries.contains, Entries.get?_eq_none_iff] using hkey
    rw [hgone, List.foldl_nil, Entries.mapValues_insertAll, hresult, hcontent,
      Entries.mapValues_without]
    refine Entries.insertAll_of_get? fun e he => Entries.get?_of_mem ?_ (Entries.mem_without.1 he).1
    rw [Entries.keys_mapValues]
    exact h.keys

/-- Putting back the matched map gives the focus back. -/
theorem Apart.replace_found (h : m.Apart) (node n : Nat) (cells : Cells) (s : Session) :
    (m.replace (.map n m.found)).Ensures cells s fun w _ =>
      w.content = (Value.map node m.entries).content := by
  have hskipped : ∀ k ∈ m.skipped, Entries.get? m.found k = none := fun _ => h.get?_found_skipped
  refine .bind (P := fun v _ => v = .map n m.found) ⟨_, s, rfl, rfl⟩ fun v s' hv => ?_
  subst hv
  refine (h.replaceFields_ensures (fun _ he => he) rfl cells s').bind fun es s'' hes => ?_
  simp only [addSkipped_eq_self hskipped]
  refine (h.replaceRest_ensures hes cells s'').bind fun es' t hes' => ?_
  refine .lift ?_
  rw [Run.newMap_apply, Value.content_map, Value.content_map, hes']

end ObjectMatch

/-! ### Combinations that are apart -/

section

variable {fields : List (Field Matcher)} {rest : Option Matcher} {entries : Entries Value}
variable {found : List Match} {n : Nat}

theorem keys_combined (h : List.Forall₂ (FoundIn cells) found (objectPositions entries fields rest n)) :
    Entries.keys (combined cells entries fields found).fields =
      (presentFields entries fields).map (·.1.key) := by
  refine List.map_fst_zip ?_
  rw [h.length_eq, objectPositions, List.length_append, List.length_map, List.length_map]
  exact Nat.le_add_right _ _

theorem of_mem_keys_combined
    (h : List.Forall₂ (FoundIn cells) found (objectPositions entries fields rest n)) {k : String}
    (hk : k ∈ Entries.keys (combined cells entries fields found).fields) :
    (∃ field ∈ fields, field.key = k) ∧ ∃ v, Entries.get? entries k = some v := by
  rw [keys_combined h] at hk
  obtain ⟨p, hp, rfl⟩ := List.mem_map.1 hk
  obtain ⟨hmem, hv⟩ := mem_presentFields.1 hp
  exact ⟨⟨p.1, hmem, rfl⟩, p.2, hv⟩

theorem nodup_keys_combined (hkeys : (fields.map Field.key).Nodup)
    (h : List.Forall₂ (FoundIn cells) found (objectPositions entries fields rest n)) :
    (Entries.keys (combined cells entries fields found).fields).Nodup := by
  rw [keys_combined h]
  exact hkeys.sublist (keys_presentFields_sublist entries fields)

/-- Each match of a field is found in the value of the field. -/
theorem foundIn_of_mem_combined
    (h : List.Forall₂ (FoundIn cells) found (objectPositions entries fields rest n))
    {e : String × Match} (he : e ∈ (combined cells entries fields found).fields) :
    ∃ field ∈ fields, field.key = e.1 ∧ ∃ v, Entries.get? entries e.1 = some v ∧
      FoundIn cells e.2 (field.pattern, v) := by
  obtain ⟨⟨field, v⟩, hfield, hkey, hfound⟩ := Lists.mem_zip_of_forall₂ h he
  obtain ⟨hmem, hv⟩ := mem_presentFields.1 hfield
  exact ⟨field, hmem, hkey, v, hkey ▸ hv, hfound⟩

/-- Each field that the focus has is matched. -/
theorem mem_combined_of_get? (hkeys : (fields.map Field.key).Nodup)
    (h : List.Forall₂ (FoundIn cells) found (objectPositions entries fields rest n))
    {field : Field Matcher} (hfield : field ∈ fields) {v : Value}
    (hv : Entries.get? entries field.key = some v) :
    ∃ m, (field.key, m) ∈ (combined cells entries fields found).fields ∧
      FoundIn cells m (field.pattern, v) := by
  have hkey : field.key ∈ Entries.keys (combined cells entries fields found).fields := by
    rw [keys_combined h]
    exact List.mem_map.2 ⟨(field, v), mem_presentFields.2 ⟨hfield, hv⟩, rfl⟩
  obtain ⟨e, he, hkey⟩ := List.mem_map.1 hkey
  obtain ⟨field', hfield', hkey', v', hv', hfound⟩ := foundIn_of_mem_combined h he
  obtain rfl := List.inj_on_of_nodup_map hkeys hfield' hfield (hkey'.trans hkey)
  rw [← hkey', hv, Option.some.injEq] at hv'
  exact ⟨e.2, hkey' ▸ he, hv' ▸ hfound⟩

/-- The match of the rest is found in the map of the other entries. -/
theorem foundIn_of_rest
    (h : List.Forall₂ (FoundIn cells) found (objectPositions entries fields rest n)) {r : Match}
    (hr : found[(presentFields entries fields).length]? = some r) :
    ∃ p ∈ rest, FoundIn cells r (p, .map n (Entries.without entries (fields.map Field.key))) := by
  have hdrop := List.forall₂_drop_append found _ _ h
  rw [List.length_map, List.drop_eq_getElem?_toList_append, hr] at hdrop
  cases rest with
  | none => cases hdrop
  | some p =>
    cases hdrop with
    | cons hfound _ => exact ⟨p, rfl, hfound⟩

/-- The match of the rest restores the other entries, and counts only if it has found a map. -/
theorem restores_of_rest {node : Nat} (hfocus : (Value.map node entries).Plain)
    (hrest : ∀ p ∈ rest, p.Restoring)
    (h : List.Forall₂ (FoundIn cells) found (objectPositions entries fields rest n)) {r : Match}
    (hr : found[(presentFields entries fields).length]? = some r) :
    r.Restores (.map n (Entries.without entries (fields.map Field.key))) ∧
      (r ∈ (combined cells entries fields found).rest ↔ ∃ k es, r.value = .map k es) := by
  rw [Value.plain_map] at hfocus
  have hothers : (Value.map n (Entries.without entries (fields.map Field.key))).Plain :=
    Value.plain_map.2 ⟨Entries.nodup_keys_without hfocus.1 _,
      fun e he => hfocus.2 e (Entries.mem_without.1 he).1⟩
  obtain ⟨p, hp, hfound⟩ := foundIn_of_rest h hr
  have hrestores := hfound.restores (hrest p hp) hothers
  refine ⟨hrestores, ?_⟩
  rw [combined, hr, Option.mem_def, Option.filter_eq_some_iff, hrestores.plain.resolve]
  cases r.value with
  | map k es => simp [Value.entries?]
  | _ => simp [Value.entries?]

theorem apart_combined (hkeys : (fields.map Field.key).Nodup) {node : Nat}
    (hfocus : (Value.map node entries).Plain) (hdefined : ∀ e ∈ entries, e.2.isUndefined = false)
    (hfields : ∀ field ∈ fields, field.pattern.Restoring) (hrest : ∀ p ∈ rest, p.Restoring)
    (h : List.Forall₂ (FoundIn cells) found (objectPositions entries fields rest n))
    (hapart : ∀ r, found[(presentFields entries fields).length]? = some r →
      ∀ field ∈ fields, r.value.child? (.key field.key) = none) :
    (combined cells entries fields found).Apart := by
  have hr : ∀ r ∈ (combined cells entries fields found).rest,
      found[(presentFields entries fields).length]? = some r :=
    fun r hr => (Option.filter_eq_some_iff.1 hr).1
  have hentries := Value.plain_map.1 hfocus
  constructor
  case keys => exact hentries.1
  case fieldKeys => exact nodup_keys_combined hkeys h
  case field =>
    intro e he
    obtain ⟨field, hmem, -, v, hv, hfound⟩ := foundIn_of_mem_combined h he
    have hmem' := Entries.mem_of_get? hv
    exact ⟨v, hv, hdefined _ hmem', hfound.restores (hfields field hmem) (hentries.2 _ hmem')⟩
  case field_named =>
    intro k hk
    obtain ⟨⟨field, hmem, rfl⟩, -⟩ := of_mem_keys_combined h hk
    exact List.mem_map_of_mem hmem
  case skipped_named =>
    intro k hk
    obtain ⟨⟨field, hmem, rfl⟩, -⟩ := mem_absentKeys.1 hk
    exact List.mem_map_of_mem hmem
  case skipped =>
    intro k hk hk'
    obtain ⟨-, v, hv⟩ := of_mem_keys_combined h hk'
    rw [(mem_absentKeys.1 hk).2] at hv
    cases hv
  case rest => exact fun r h' => ⟨n, (restores_of_rest hfocus hrest h (hr r h')).1⟩
  case rest_map =>
    intro r h'
    obtain ⟨k, es, hvalue⟩ := (restores_of_rest hfocus hrest h (hr r h')).2.1 h'
    refine ⟨k, es, hvalue, List.forall_mem_map.2 fun field hmem => ?_⟩
    rw [← Entries.get?_eq_none_iff, ← Value.child?_map k, ← hvalue]
    exact hapart r (hr r h') field hmem

/-- The entries that the rest has found are those of the map that its match has found. -/
theorem get?_others_combined {node : Nat} (hfocus : (Value.map node entries).Plain)
    (hrest : ∀ p ∈ rest, p.Restoring)
    (h : List.Forall₂ (FoundIn cells) found (objectPositions entries fields rest n)) (k : String) :
    Entries.get? (combined cells entries fields found).others k =
      found[(presentFields entries fields).length]?.bind (·.value.child? (.key k)) := by
  cases hr : found[(presentFields entries fields).length]? with
  | none => simp [ObjectMatch.others, combined, hr, Entries.get?]
  | some r =>
    obtain ⟨-, hmap⟩ := restores_of_rest hfocus hrest h hr
    rw [Option.bind_some, ObjectMatch.others]
    cases hvalue : r.value with
    | map m es =>
      rw [hmap.2 ⟨m, es, hvalue⟩, Option.elim_some, hvalue]
      rfl
    | _ =>
      have hnone : (combined cells entries fields found).rest = none := by
        refine Option.eq_none_iff_forall_ne_some.2 fun r' hr' => ?_
        obtain rfl : r = r' := Option.some.inj (hr.symm.trans (Option.filter_eq_some_iff.1 hr').1)
        obtain ⟨m, es, hvalue'⟩ := hmap.1 hr'
        cases hvalue.symm.trans hvalue'
      rw [hnone]
      rfl

/-- The fields that the focus has are those with a value in the combination. -/
theorem get?_fields_combined (hkeys : (fields.map Field.key).Nodup)
    (h : List.Forall₂ (FoundIn cells) found (objectPositions entries fields rest n))
    {foundAt : String → Match}
    (hfoundAt : ∀ {k m}, (k, m) ∈ (combined cells entries fields found).fields → foundAt k = m)
    (k : String) :
    (Entries.get? (combined cells entries fields found).fields k).map Match.value =
      if k ∈ fields.map Field.key then
        (Entries.get? entries k).map fun _ => (foundAt k).value
      else none := by
  by_cases hk : k ∈ Entries.keys (combined cells entries fields found).fields
  · obtain ⟨⟨field, hfield, rfl⟩, v, hv⟩ := of_mem_keys_combined h hk
    obtain ⟨m, hm, -⟩ := mem_combined_of_get? hkeys h hfield hv
    rw [if_pos (List.mem_map_of_mem hfield), hv, hfoundAt hm,
      Entries.get?_of_mem (nodup_keys_combined hkeys h) hm]
    rfl
  · rw [(Entries.get?_eq_none_iff _ _).2 hk]
    split
    · rename_i hnamed
      obtain ⟨field, hfield, rfl⟩ := List.mem_map.1 hnamed
      cases hv : Entries.get? entries field.key with
      | none => rfl
      | some v =>
        obtain ⟨m, hm, -⟩ := mem_combined_of_get? hkeys h hfield hv
        exact absurd (Entries.mem_keys_of_mem hm) hk
    · rfl

/-- A map shape of restoring matchers finds the entries of the rest over those of the fields, and
restores its focus where the match of the rest has found none of the keys that the shape names. -/
theorem Restoring.object (hkeys : (fields.map Field.key).Nodup)
    (hfields : ∀ field ∈ fields, field.pattern.Restoring) (hrest : ∀ p ∈ rest, p.Restoring)
    (hfocus : focus.Plain) (hdefined : ∀ c ∈ focus.children, c.1 ≠ .undefined) {m : Match}
    (hm : (object fields rest focus cells s).1.Gives cells m) :
    ∃ (found : String → Match) (others : Option Match),
      (∀ field ∈ fields, ∀ v, focus.child? (.key field.key) = some v →
        FoundIn cells (found field.key) (field.pattern, v)) ∧
      (∀ r ∈ others, ∃ p ∈ rest, ∃ n, FoundIn cells r (p, .map n (Entries.without
        (focus.entries?.getD []) (fields.map Field.key)))) ∧
      (∀ k, m.value.child? (.key k) = (others.bind (·.value.child? (.key k))).or
        (if k ∈ fields.map Field.key then
          (focus.child? (.key k)).map fun _ => (found k).value
        else none)) ∧
      ((∀ r ∈ others, ∀ field ∈ fields, r.value.child? (.key field.key) = none) →
        ∀ s, (m.replace m.value).Ensures cells s fun w _ => w.content = focus.content) := by
  obtain ⟨node, entries, hresolve, found, hfound, t, rfl⟩ := object_gives hm
  rw [hfocus.resolve] at hresolve
  subst hresolve
  have hdefined' : ∀ e ∈ entries, e.2.isUndefined = false := by
    intro e he
    have hne := hdefined (e.2, .key e.1) (Value.mem_children_map.2 ⟨e.1, he, rfl⟩)
    cases hv : e.2 with
    | undefined => exact absurd hv hne
    | _ => rfl
  have hnodup := nodup_keys_combined hkeys hfound
  obtain ⟨foundAt, hfoundAt⟩ : ∃ foundAt : String → Match,
      ∀ {k m}, (k, m) ∈ (combined cells entries fields found).fields → foundAt k = m := by
    refine ⟨fun k => (Entries.get? (combined cells entries fields found).fields k).getD
      (.whole .undefined), fun hmem => ?_⟩
    simp only [Entries.get?_of_mem hnodup hmem, Option.getD_some]
  refine ⟨foundAt, found[(presentFields entries fields).length]?, ?_, ?_, fun k => ?_,
    fun hapart s => ?_⟩
  · intro field hfield v hv
    obtain ⟨m, hmem, hgives⟩ := mem_combined_of_get? hkeys hfound hfield hv
    rw [hfoundAt hmem]
    exact hgives
  · intro r hr
    obtain ⟨p, hp, hgives⟩ := foundIn_of_rest hfound hr
    exact ⟨p, hp, _, hgives⟩
  · have hplain : ∀ r ∈ (combined cells entries fields found).rest, r.value.Plain := fun r hr =>
      (restores_of_rest hfocus hrest hfound (Option.filter_eq_some_iff.1 hr).1).1.plain
    rw [ObjectMatch.value_apply hnodup hplain, Value.child?_map]
    rw [Entries.get?_insertAll (ObjectMatch.nodup_others hplain), Entries.get?_mapValues,
      get?_others_combined hfocus hrest hfound, get?_fields_combined hkeys hfound hfoundAt]
    rfl
  · have h := apart_combined hkeys hfocus hdefined' hfields hrest hfound hapart
    rw [h.value_apply]
    exact h.replace_found node _ cells s

end

end DataExpr.Matcher
