import DataExpr.Proofs.Matcher.ObjectShape
import DataExpr.Proofs.Pattern.NoOp

/-!
# Map shapes keep their fields apart

A match of a map shape is made of a match for every field that is there and of a match for the map of
all other entries (`Pattern.ObjectParts`).  If what the latter has found shares no key with the
fields, then every field has the value that its pattern has found, no key that was skipped occurs, and
putting the matched map back gives the focus back (`Pattern.object_isolates`).

The condition is needed, since the pattern of the rest may find a map further inside: its entries are
written over those of the fields, and putting them back changes the fields
(`Pattern.object_overwritten`).
-/

namespace DataExpr

namespace Pattern

/-- The matches that make up a match of a map shape: one for each field that the focus has, found in
its value, and one found in the map of all entries that are no fields.  The matched map has what the
latter has found, and at other keys what was found for the field of that key. -/
structure ObjectParts (cells : Cells) (fields : List (Field Pattern)) (rest : Option Pattern)
    (focus : Value) (found : String → Match) (others : Option Match) (m : Match) : Prop where
  field : ∀ f ∈ fields, ∀ v, focus.child? (.key f.key) = some v →
    ∃ s, (f.pattern.matchesIn v cells s).1.Gives cells (found f.key)
  rest : ∀ r ∈ others, ∃ p ∈ rest, ∃ s n, (p.matchesIn (.map n (Entries.without
    (focus.entries?.getD []) (fields.map Field.key))) cells s).1.Gives cells r
  value : ∀ k, m.value.child? (.key k) = (others.bind (·.value.child? (.key k))).or
    (if k ∈ fields.map Field.key then (focus.child? (.key k)).map fun _ => (found k).value else none)

/-- The match has the values that were found for the fields, no key that was skipped, and gives the
focus back when its value is put back. -/
structure Isolates (cells : Cells) (fields : List (Field Pattern)) (focus : Value)
    (found : String → Match) (m : Match) : Prop where
  field : ∀ f ∈ fields, ∀ v, focus.child? (.key f.key) = some v →
    m.value.child? (.key f.key) = some (found f.key).value
  skipped : ∀ f ∈ fields, focus.child? (.key f.key) = none → m.value.child? (.key f.key) = none
  noOp : ∀ s, ∃ w s', m.replace m.value cells s = (.ok w, s') ∧ w.content = focus.content

/-- At the key of a field that the rest has not found, the matched map has what the field has. -/
theorem ObjectParts.child?_field {cells : Cells} {fields : List (Field Pattern)}
    {rest : Option Pattern} {focus : Value} {found : String → Match} {others : Option Match}
    {m : Match} (h : ObjectParts cells fields rest focus found others m) {f : Field Pattern}
    (hf : f ∈ fields) (hothers : ∀ r ∈ others, r.value.child? (.key f.key) = none) :
    m.value.child? (.key f.key) =
      (focus.child? (.key f.key)).map fun _ => (found f.key).value := by
  have hnone : others.bind (·.value.child? (.key f.key)) = none :=
    Option.bind_eq_none_iff.2 hothers
  rw [h.value, hnone, Option.none_or, if_pos (List.mem_map_of_mem hf)]

/-- A match of a map shape of elementary patterns keeps its fields apart and gives back its focus, if
the match of the rest has found none of the keys that the shape names. -/
theorem object_isolates {fields : List (Field Pattern)} {rest : Option Pattern}
    (hkeys : (fields.map Field.key).Nodup) (hfields : ∀ f ∈ fields, f.pattern.Elementary)
    (hrest : ∀ p ∈ rest, p.Elementary) {focus : Value} (hf : focus.WellFormed)
    (hc : focus.holdsCell = false) (hdefined : ∀ c ∈ focus.children, c.1 ≠ .undefined)
    {cells : Cells} {s t : Session} {m : Match}
    (hm : .ok m ∈ (((object fields rest).matchesIn focus cells s).1.toList cells t).1) :
    ∃ found others, ObjectParts cells fields rest focus found others m ∧
      ((∀ r ∈ others, ∀ f ∈ fields, r.value.child? (.key f.key) = none) →
        Isolates cells fields focus found m) := by
  have hgives := Findings.Gives.of_mem_toList hm
  rw [matchesIn, matcher, fieldMatchers_eq_map, restMatcher_eq_map] at hgives
  have hkeys' : ((fields.map fun f => (⟨f.key, f.optional, matcher f.pattern⟩ :
      Field Matcher)).map Field.key) = fields.map Field.key := by
    rw [List.map_map]
    rfl
  have hrest' : ∀ r ∈ rest.map matcher, r.Restoring := by
    intro r hr
    obtain ⟨p, hp, rfl⟩ := Option.map_eq_some_iff.1 hr
    exact (hrest p hp).restoring
  obtain ⟨found, others, hfound, hothers, hvalue, hnoOp⟩ := Matcher.Restoring.object
    (by rwa [hkeys']) (List.forall_mem_map.2 fun f hf => (hfields f hf).restoring) hrest' ⟨hf, hc⟩
    hdefined hgives
  rw [hkeys'] at hvalue
  simp only [List.forall_mem_map] at hfound hnoOp
  have hparts : ObjectParts cells fields rest focus found others m := by
    refine ⟨hfound, fun r hr => ?_, hvalue⟩
    obtain ⟨r', hr', n, s, hgives⟩ := hothers r hr
    obtain ⟨p, hp, rfl⟩ := Option.map_eq_some_iff.1 hr'
    rw [hkeys'] at hgives
    exact ⟨p, hp, s, n, hgives⟩
  refine ⟨found, others, hparts, fun h => ⟨?_, ?_, hnoOp h⟩⟩
  · intro f hf v hv
    rw [hparts.child?_field hf fun r hr => h r hr f hf, hv, Option.map_some]
  · intro f hf hv
    rw [hparts.child?_field hf fun r hr => h r hr f hf, hv, Option.map_none]

/-- A map with a field that is looked into, one that it lacks, and all other entries as they are. -/
theorem object_isolates_index :
    let fields : List (Field Pattern) := [⟨"a", false, index 0 false⟩, ⟨"d", true, self⟩]
    let focus : Value := .map 0 [("a", .list 1 [.int 1]), ("b", .int 2), ("c", .str "x")]
    (fields.map Field.key).Nodup ∧ (∀ f ∈ fields, f.pattern.Elementary) ∧ focus.WellFormed ∧
      focus.holdsCell = false ∧ (∀ c ∈ focus.children, c.1 ≠ .undefined) ∧
      ∃ m, .ok m ∈ (((object fields (some self)).matchesIn focus Cells.none ⟨2, #[]⟩).1.toList
        Cells.none ⟨2, #[]⟩).1 ∧ ∃ found others,
          ObjectParts Cells.none fields (some self) focus found others m ∧
            Isolates Cells.none fields focus found m := by
  intro fields focus
  have hkeys : (fields.map Field.key).Nodup := by decide
  have hfields : ∀ f ∈ fields, f.pattern.Elementary :=
    List.forall_mem_cons.2 ⟨.index _ _, List.forall_mem_singleton.2 .self⟩
  have hrest : ∀ p ∈ some self, p.Elementary := fun _ hp => Option.some.inj hp ▸ .self
  have hfocus : focus.Plain := by simp [focus]
  have hdefined : ∀ c ∈ focus.children, c.1 ≠ .undefined := by simp [focus, Value.children]
  obtain ⟨m, hm⟩ : ∃ m, .ok m ∈ (((object fields (some self)).matchesIn focus Cells.none
      ⟨2, #[]⟩).1.toList Cells.none ⟨2, #[]⟩).1 := ⟨_, .head _⟩
  obtain ⟨found, others, hparts, hisolates⟩ := object_isolates hkeys hfields hrest hfocus.wellFormed
    hfocus.cellFree hdefined hm
  refine ⟨hkeys, hfields, hfocus.wellFormed, hfocus.cellFree, hdefined, m, hm, found, others, hparts,
    hisolates fun r hr => ?_⟩
  -- The rest is found as it is, without the keys of the fields.
  obtain ⟨p, hp, s, n, hgives⟩ := hparts.rest r hr
  obtain rfl := Option.some.inj hp
  obtain rfl := Findings.Gives.of_single hgives
  exact List.forall_mem_cons.2 ⟨rfl, List.forall_mem_singleton.2 rfl⟩

/-- The rest finds a map inside that has the key of the field as well. -/
theorem object_overwritten :
    let fields : List (Field Pattern) := [⟨"a", false, self⟩]
    let focus : Value := .map 0 [("a", .int 1), ("b", .map 1 [("a", .int 2), ("c", .int 3)])]
    (fields.map Field.key).Nodup ∧ (∀ f ∈ fields, f.pattern.Elementary) ∧
      (key "b" false).Elementary ∧ focus.WellFormed ∧ focus.holdsCell = false ∧
      (∀ c ∈ focus.children, c.1 ≠ .undefined) ∧
      ∃ m, .ok m ∈ (((object fields (some (key "b" false))).matchesIn focus Cells.none
          ⟨2, #[]⟩).1.toList Cells.none ⟨2, #[]⟩).1 ∧
        m.value.child? (.key "a") = some (.int 2) ∧
        ∃ w t, m.replace m.value Cells.none ⟨4, #[]⟩ = (.ok w, t) ∧ w.content ≠ focus.content := by
  intro fields focus
  have hfocus : focus.Plain := by simp [focus]
  refine ⟨by decide, List.forall_mem_singleton.2 .self, .key _ _, hfocus.wellFormed,
    hfocus.cellFree, by simp [focus, Value.children], _, .head _, rfl,
    .map 6 [("a", .int 2), ("b", .map 4 [("c", .int 3)])], _, rfl, ?_⟩
  simp [focus, Value.content, Value.contentOfEntries]

end Pattern

end DataExpr
