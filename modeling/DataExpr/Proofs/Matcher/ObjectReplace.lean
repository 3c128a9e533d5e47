import DataExpr.Proofs.Entries.Order
import DataExpr.Proofs.Matcher.ObjectShape

/-!
# The map that a replacement leads to

Replacing a match of a map shape goes through the entries of the focus in three stages: the fields that
are there, the keys that were skipped, and the entries of the rest.  The first two touch the keys that
the shape names and no others (`ObjectMatch.Fits.partsPut`).  The last one takes out what the rest has
dropped and writes what it has returned (`ObjectMatch.PartsPut.get?_withRest`).  In all of them the keys
that stay keep their order.
-/

namespace DataExpr.Matcher.ObjectMatch

open Entries (KeepsOrder)

variable {cells : Cells} {s t : Session} {m : ObjectMatch}
variable {replacement result es others : Entries Value} {k : String} {v w : Value}

/-! ### Writing to one key -/

/-- What a key has when a value has been put there: undefined is never put. -/
def defined (v : Value) : Option Value := if v.isUndefined then none else some v

/-- The part of a replacement that is for a key. -/
def share (replacement : Entries Value) (k : String) : Value :=
  (Entries.get? replacement k).getD .undefined

theorem defined_share (h : Entries.get? replacement k ≠ some .undefined) :
    defined (share replacement k) = Entries.get? replacement k := by
  unfold share
  cases hv : Entries.get? replacement k with
  | none => rfl
  | some v =>
    cases v with
    | undefined => exact absurd hv h
    | _ => rfl

/-- The entries with a new value for a field, which is removed if the value is undefined. -/
def putField (result : Entries Value) (k : String) (w : Value) : Entries Value :=
  if w.isUndefined then Entries.erase result k else Entries.insert result k w

theorem get?_putField (h : (Entries.keys result).Nodup) (k : String) (w : Value) (k' : String) :
    Entries.get? (putField result k w) k' = if k = k' then defined w else Entries.get? result k' := by
  unfold putField defined
  by_cases hw : w.isUndefined
  · simp only [hw, if_true, Entries.get?_erase h]
  · simp only [hw, Bool.false_eq_true, if_false, Entries.get?_insert]

theorem nodup_putField (h : (Entries.keys result).Nodup) (k : String) (w : Value) :
    (Entries.keys (putField result k w)).Nodup := by
  unfold putField
  split
  · exact Entries.nodup_keys_erase h k
  · exact Entries.nodup_keys_insert h k w

theorem keepsOrder_putField {base : Entries Value} (h : KeepsOrder base result)
    (hk : k ∈ Entries.keys result ∨ k ∉ Entries.keys base) (w : Value) :
    KeepsOrder base (putField result k w) := by
  unfold putField
  split
  · exact h.erase k
  · exact h.insert hk w

/-! ### The fields that are there -/

/-- Each field has been replaced through its match, and no other key has been touched. -/
structure FieldsReplaced (cells : Cells) (replacement : Entries Value)
    (fields : List (String × Match)) (result es : Entries Value) : Prop where
  nodup : (Entries.keys es).Nodup
  field : ∀ e ∈ fields, ∃ s w t, e.2.replace (share replacement e.1) cells s = (.ok w, t) ∧
    Entries.get? es e.1 = defined w
  other : ∀ k, k ∉ Entries.keys fields → Entries.get? es k = Entries.get? result k
  order : ∀ base : Entries Value, KeepsOrder base result →
    (∀ k ∈ Entries.keys fields, k ∈ Entries.keys result) → KeepsOrder base es

theorem fieldsReplaced {fields : List (String × Match)}
    (h : replaceFields replacement fields result cells s = (.ok es, t))
    (hfields : (Entries.keys fields).Nodup) (hresult : (Entries.keys result).Nodup) :
    FieldsReplaced cells replacement fields result es := by
  induction fields generalizing result s with
  | nil =>
    cases h
    exact ⟨hresult, nofun, fun _ _ => rfl, fun _ h _ => h⟩
  | cons e fields ih =>
    obtain ⟨key, found⟩ := e
    rw [Entries.keys_cons, List.nodup_cons] at hfields
    obtain ⟨w, s', hw, h⟩ := Eval.bind_eq_ok h
    have hput := get?_putField hresult key w
    have hrest : FieldsReplaced cells replacement fields (putField result key w) es :=
      ih h hfields.2 (nodup_putField hresult key w)
    refine ⟨hrest.nodup, List.forall_mem_cons.2 ⟨⟨s, w, s', hw, ?_⟩, hrest.field⟩, ?_, ?_⟩
    · rw [hrest.other key hfields.1, hput, if_pos rfl]
    · intro k hk
      rw [Entries.keys_cons, List.mem_cons, not_or] at hk
      rw [hrest.other k hk.2, hput, if_neg (Ne.symm hk.1)]
    · intro base hbase hmem
      rw [Entries.keys_cons, List.forall_mem_cons] at hmem
      refine hrest.order base (keepsOrder_putField hbase (.inl hmem.1) w) fun k hk => ?_
      -- The other fields are still there, since their keys are others.
      have hne : key ≠ k := fun heq => hfields.1 (heq ▸ hk)
      rw [Entries.mem_keys_iff_get?, hput, if_neg hne, ← Entries.mem_keys_iff_get?]
      exact hmem.2 k hk

/-! ### The keys that were skipped -/

theorem get?_addSkipped (skipped : List String) (k : String) :
    Entries.get? (addSkipped replacement skipped result) k =
      if k ∈ skipped then (defined (share replacement k)).or (Entries.get? result k)
      else Entries.get? result k := by
  induction skipped generalizing result with
  | nil => rfl
  | cons key skipped ih =>
    have hstep : Entries.get? (if (share replacement key).isUndefined then result
        else Entries.insert result key (share replacement key)) k =
          if key = k then (defined (share replacement key)).or (Entries.get? result k)
          else Entries.get? result k := by
      unfold defined
      split
      · rw [Option.none_or, ite_self]
      · rw [Option.some_or, Entries.get?_insert]
    rw [addSkipped_cons, ih, ← share, hstep]
    by_cases hk : key = k
    · subst hk
      by_cases hmem : key ∈ skipped
      · simp [hmem, ← Option.or_assoc]
      · simp [hmem]
    · simp [hk, Ne.symm hk]

theorem nodup_addSkipped (h : (Entries.keys result).Nodup) (skipped : List String) :
    (Entries.keys (addSkipped replacement skipped result)).Nodup := by
  induction skipped generalizing result with
  | nil => exact h
  | cons key skipped ih =>
    rw [addSkipped_cons]
    split
    · exact ih h
    · exact ih (Entries.nodup_keys_insert h _ _)

theorem keepsOrder_addSkipped {base : Entries Value} {skipped : List String}
    (hskipped : ∀ k ∈ skipped, k ∉ Entries.keys base) (h : KeepsOrder base result) :
    KeepsOrder base (addSkipped replacement skipped result) := by
  induction skipped generalizing result with
  | nil => exact h
  | cons key skipped ih =>
    rw [List.forall_mem_cons] at hskipped
    rw [addSkipped_cons]
    split
    · exact ih hskipped.2 h
    · exact ih hskipped.2 (h.insert (.inr hskipped.1) _)

/-! ### All keys that the shape names -/

/-- The keys of the fields and the keys that were skipped are all that the shape names; the focus has
the former and lacks the latter. -/
structure Fits (m : ObjectMatch) : Prop where
  keys : (Entries.keys m.entries).Nodup
  fieldKeys : (Entries.keys m.fields).Nodup
  field : ∀ k ∈ Entries.keys m.fields, k ∈ m.named ∧ k ∈ Entries.keys m.entries
  skipped : ∀ k ∈ m.skipped, k ∈ m.named ∧ k ∉ Entries.keys m.entries

/-- The entries have the parts of the replacement at the keys that the shape names, and are those of the
focus at all others. -/
structure PartsPut (m : ObjectMatch) (cells : Cells) (replacement es : Entries Value) : Prop where
  nodup : (Entries.keys es).Nodup
  field : ∀ e ∈ m.fields, ∃ s w t, e.2.replace (share replacement e.1) cells s = (.ok w, t) ∧
    Entries.get? es e.1 = defined w
  skipped : ∀ k ∈ m.skipped, Entries.get? es k = defined (share replacement k)
  other : ∀ k, k ∉ m.named → Entries.get? es k = Entries.get? m.entries k
  order : KeepsOrder m.entries es

theorem Fits.partsPut (hm : m.Fits)
    (h : replaceFields replacement m.fields m.entries cells s = (.ok es, t)) :
    m.PartsPut cells replacement (addSkipped replacement m.skipped es) := by
  have hfields := fieldsReplaced h hm.fieldKeys hm.keys
  have hfield : ∀ k ∈ Entries.keys m.fields, k ∉ m.skipped :=
    fun k hk hskipped => (hm.skipped k hskipped).2 (hm.field k hk).2
  constructor
  case nodup => exact nodup_addSkipped hfields.nodup m.skipped
  case field =>
    intro e he
    obtain ⟨s, w, t, hw, hget⟩ := hfields.field e he
    refine ⟨s, w, t, hw, ?_⟩
    rw [get?_addSkipped, if_neg (hfield e.1 (Entries.mem_keys_of_mem he)), hget]
  case skipped =>
    intro k hk
    have hother : k ∉ Entries.keys m.fields := fun hmem => hfield k hmem hk
    rw [get?_addSkipped, if_pos hk, hfields.other k hother,
      (Entries.get?_eq_none_iff _ _).2 (hm.skipped k hk).2, Option.or_none]
  case other =>
    intro k hk
    have hskipped : k ∉ m.skipped := fun hmem => hk (hm.skipped k hmem).1
    have hother : k ∉ Entries.keys m.fields := fun hmem => hk (hm.field k hmem).1
    rw [get?_addSkipped, if_neg hskipped, hfields.other k hother]
  case order =>
    refine keepsOrder_addSkipped (fun k hk => (hm.skipped k hk).2) ?_
    exact hfields.order _ (Entries.keepsOrder_refl _) fun k hk => (hm.field k hk).2

/-! ### The entries of the rest -/

/-- The keys of the rest in the focus that the rest has not returned. -/
def dropped (m : ObjectMatch) (others : Entries Value) : List String :=
  (Entries.without m.entries m.named).keys.filter fun k => !Entries.contains others k

/-- The entries with those of the rest replaced by the ones that it has returned. -/
def withRest (m : ObjectMatch) (others es : Entries Value) : Entries Value :=
  Entries.insertAll ((m.dropped others).foldl Entries.erase es) others

theorem mem_dropped {k : String} :
    k ∈ m.dropped others ↔
      (k ∈ Entries.keys m.entries ∧ k ∉ m.named) ∧ k ∉ Entries.keys others := by
  have hothers : k ∈ Entries.keys others ↔ Entries.get? others k ≠ none := Entries.mem_keys_iff_get?
  rw [dropped, List.mem_filter, Entries.mem_keys_iff_get?, Entries.get?_without,
    Entries.mem_keys_iff_get?, hothers, Entries.contains]
  by_cases hk : k ∈ m.named
  · simp [hk]
  · cases hget : Entries.get? others k <;> simp [hk]

theorem PartsPut.nodup_withRest (h : m.PartsPut cells replacement es) (others : Entries Value) :
    (Entries.keys (m.withRest others es)).Nodup :=
  Entries.nodup_keys_insertAll (Entries.nodup_keys_foldl_erase h.nodup _) others

theorem PartsPut.get?_withRest (h : m.PartsPut cells replacement es)
    (hothers : (Entries.keys others).Nodup) (k : String) :
    Entries.get? (m.withRest others es) k =
      (Entries.get? others k).or (if k ∈ m.named then Entries.get? es k else none) := by
  rw [withRest, Entries.get?_insertAll hothers, Entries.get?_foldl_erase h.nodup]
  by_cases hk : k ∈ Entries.keys others
  · obtain ⟨v, hv⟩ := Option.ne_none_iff_exists'.1 (Entries.mem_keys_iff_get?.1 hk)
    rw [hv, Option.some_or, Option.some_or]
  · congr 1
    by_cases hnamed : k ∈ m.named
    · rw [if_pos hnamed, if_neg fun hmem => (mem_dropped.1 hmem).1.2 hnamed]
    · rw [if_neg hnamed]
      split
      · rfl
      · -- What is neither named nor dropped has not been in the focus.
        rename_i hdropped
        rw [h.other k hnamed, Entries.get?_eq_none_iff]
        exact fun hmem => hdropped (mem_dropped.2 ⟨⟨hmem, hnamed⟩, hk⟩)

theorem PartsPut.keepsOrder_withRest (h : m.PartsPut cells replacement es)
    (hothers : ∀ k ∈ m.named, k ∉ Entries.keys others) :
    KeepsOrder m.entries (m.withRest others es) := by
  refine (h.order.foldl_erase _).insertAll fun k hk => ?_
  have hnamed : k ∉ m.named := fun hmem => hothers k hmem hk
  have hdropped : k ∉ m.dropped others := fun hmem => (mem_dropped.1 hmem).2 hk
  rw [Entries.mem_keys_iff_get?, Entries.get?_foldl_erase h.nodup, if_neg hdropped, h.other k hnamed,
    ← Entries.mem_keys_iff_get?]
  exact Classical.em _

/-! ### The whole map -/

/-- What has been put in the end: the parts of the replacement, and over them the entries that the rest
has returned for the other keys of the replacement, if there is a rest. -/
inductive Finished (m : ObjectMatch) (cells : Cells) (replacement es : Entries Value) :
    Entries Value → Prop where
  | alone (hrest : m.rest = none) : Finished m cells replacement es es
  | withRest {r : Match} {a b : Nat} {s t : Session} {rebuilt : Value} {others : Entries Value}
    (hrest : m.rest = some r)
    (hreplace : r.replace (.map a (Entries.without replacement m.named)) cells s = (.ok rebuilt, t))
    (hresolve : cells.resolve rebuilt = .map b others) :
    Finished m cells replacement es (m.withRest others es)

theorem finished_of_replaceRest (h : m.replaceRest replacement result cells s = (.ok es, t)) :
    Finished m cells replacement result es := by
  unfold replaceRest at h
  cases hrest : m.rest with
  | none =>
    simp only [hrest] at h
    cases h
    exact .alone hrest
  | some r =>
    simp only [hrest] at h
    obtain ⟨_, _, hnew, h⟩ := Eval.bind_eq_ok h
    cases hnew
    obtain ⟨rebuilt, s', hreplace, h⟩ := Eval.bind_eq_ok h
    obtain ⟨_, _, hresolve, h⟩ := Eval.bind_eq_ok h
    cases hresolve
    cases hresolve : cells.resolve rebuilt with
    | map b others =>
      simp only [hresolve] at h
      cases h
      exact .withRest hrest hreplace hresolve
    | _ =>
      simp only [hresolve] at h
      cases h

/-- A replacement that succeeds is a map, and so is its outcome: the parts are put one after the other
and the rest is put over them. -/
theorem Fits.of_replace (hm : m.Fits) {new : Value} (h : m.replace new cells s = (.ok v, t)) :
    ∃ n replacement parts node es, cells.resolve new = .map n replacement ∧ v = .map node es ∧
      m.PartsPut cells replacement parts ∧ Finished m cells replacement parts es := by
  obtain ⟨_, _, hresolve, h⟩ := Eval.bind_eq_ok h
  cases hresolve
  cases hnew : cells.resolve new with
  | map n replacement =>
    simp only [hnew] at h
    obtain ⟨first, s₁, hfirst, h⟩ := Eval.bind_eq_ok h
    obtain ⟨es, s₂, hrest, h⟩ := Eval.bind_eq_ok h
    cases h
    exact ⟨n, replacement, _, _, es, rfl, rfl, hm.partsPut hfirst, finished_of_replaceRest hrest⟩
  | _ =>
    simp only [hnew] at h
    cases h

/-! ### Combinations of a map shape -/

section

variable {fields : List (Field Matcher)} {rest : Option Matcher} {entries : Entries Value}
variable {found : List Match} {n : Nat}

theorem fits_combined (hkeys : (fields.map Field.key).Nodup) (hentries : (Entries.keys entries).Nodup)
    (h : List.Forall₂ (FoundIn cells) found (objectPositions entries fields rest n)) :
    (combined cells entries fields found).Fits := by
  constructor
  case keys => exact hentries
  case fieldKeys => exact nodup_keys_combined hkeys h
  case field =>
    intro k hk
    obtain ⟨⟨field, hfield, rfl⟩, v, hv⟩ := of_mem_keys_combined h hk
    exact ⟨List.mem_map_of_mem hfield, Entries.mem_keys_of_mem (Entries.mem_of_get? hv)⟩
  case skipped =>
    intro k hk
    obtain ⟨⟨field, hfield, rfl⟩, hv⟩ := mem_absentKeys.1 hk
    exact ⟨List.mem_map_of_mem hfield, (Entries.get?_eq_none_iff _ _).1 hv⟩

/-- There is a match of the other entries just if there is a matcher for them. -/
theorem isSome_rest (h : List.Forall₂ (FoundIn cells) found (objectPositions entries fields rest n)) :
    found[(presentFields entries fields).length]?.isSome = rest.isSome := by
  have hlength : found.length = (presentFields entries fields).length + rest.toList.length := by
    rw [h.length_eq, objectPositions, List.length_append, List.length_map, List.length_map]
  rw [Bool.eq_iff_iff, isSome_getElem?, hlength]
  cases rest with
  | none => simp
  | some p => simp

/-- The matched map holds what the match of the other entries has found, and else only fields. -/
theorem value_combined (hkeys : (fields.map Field.key).Nodup)
    (h : List.Forall₂ (FoundIn cells) found (objectPositions entries fields rest n)) (s : Session) :
    ∃ node es, (∀ k ∈ Entries.keys es, k ∈ fields.map Field.key) ∧
      ((combined cells entries fields found).value cells s).1 = .map node (Entries.insertAll es
        (found[(presentFields entries fields).length]?.elim [] fun r =>
          (cells.resolve r.value).entries?.getD [])) := by
  refine ⟨s.nextNode, Entries.mapValues Match.value (combined cells entries fields found).fields,
    fun k hk => ?_, ?_⟩
  · rw [Entries.keys_mapValues] at hk
    obtain ⟨⟨field, hfield, rfl⟩, -⟩ := of_mem_keys_combined h hk
    exact List.mem_map_of_mem hfield
  · have hnodup : (Entries.keys (Entries.mapValues Match.value
        (combined cells entries fields found).fields)).Nodup := by
      rw [Entries.keys_mapValues]
      exact nodup_keys_combined hkeys h
    rw [value_eq, Entries.ofPairs_of_nodup hnodup]
    simp only [combined]
    cases found[(presentFields entries fields).length]? with
    | none => rfl
    | some r =>
      rw [Option.filter_some]
      cases hr : (cells.resolve r.value).entries? <;> simp [hr]

end

end DataExpr.Matcher.ObjectMatch
