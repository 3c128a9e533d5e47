import DataExpr.Proofs.Matcher.ObjectWhole
import DataExpr.Proofs.Pattern.ObjectReplace

/-!
# A map that has been put is found again

Where a map shape takes the values of its fields as they are, and all other entries too or not at all,
a map that has been put in the place of what it has matched is what it matches afterwards, up to the
order of the entries (`Pattern.object_put_get`).  Without a rest only the fields are put, and the other
entries of the focus stay.

A field that is optional and that the map lacks is removed.  Undefined is not put but removes as well, so
the map must not have it at a field.
-/

namespace DataExpr.Pattern

open Matcher (covered)
open Matcher.ObjectMatch (defined share)

/-! ### Operations on the first match -/

section

variable {p : Pattern} {focus : Value} {cells : Cells} {s t : Session} {found : Option Match}

theorem test_of_first (h : (p.matchesIn focus cells s).1.first cells (p.matchesIn focus cells s).2 =
    (.ok found, t)) : p.test focus cells s = (.ok found.isSome, t) := by
  simp only [test, Eval.bind_apply, Eval.lift_apply, h, Eval.pure_apply]

theorem first_of_first (h : (p.matchesIn focus cells s).1.first cells (p.matchesIn focus cells s).2 =
    (.ok found, t)) : p.first focus cells s = (.ok (found.map Match.value), t) := by
  simp only [first, Eval.bind_apply, Eval.lift_apply, h, Eval.pure_apply]

theorem replace_of_first {m : Match} (h : (p.matchesIn focus cells s).1.first cells
    (p.matchesIn focus cells s).2 = (.ok (some m), t)) (new : Value) :
    p.replace focus new cells s = m.replace new cells t := by
  simp only [replace, Eval.bind_apply, Eval.lift_apply, h]

end

/-! ### Shapes that take their parts whole -/

theorem whole_self : (matcher self).Whole := fun _ => rfl

theorem covered_fieldMatcher (fields : List (Field Pattern)) (rest : Option Pattern)
    (entries : Entries Value) :
    covered (fields.map fieldMatcher) (rest.map matcher) entries = covered fields rest entries := by
  cases rest with
  | some p => rfl
  | none => rw [Option.map_none, covered, covered, map_key_fieldMatcher]

/-- A map that is matched has the fields that are not optional. -/
theorem required_of_test {fields : List (Field Pattern)} {rest : Option Pattern} {cells : Cells}
    {focus : Value} {node : Nat} {entries : Entries Value} {s : Session}
    (hfocus : cells.resolve focus = .map node entries)
    (htest : ((object fields rest).test focus cells s).1 = .ok true) :
    ∀ f ∈ fields, f.optional = false → Entries.get? entries f.key ≠ none := by
  intro f hf hoptional hget
  have hempty : (object fields rest).matchesIn focus cells s = (.empty, s) := by
    rw [matchesIn_object]
    exact Matcher.object_eq_empty hfocus
      ⟨fieldMatcher f, List.mem_map_of_mem hf, hoptional, hget⟩ s
  have hfirst : ((object fields rest).matchesIn focus cells s).1.first cells
      ((object fields rest).matchesIn focus cells s).2 = (.ok none, s) := by
    rw [hempty]
    rfl
  rw [test_of_first hfirst] at htest
  cases htest

section

variable {fields : List (Field Pattern)} {rest : Option Pattern}
variable (hkeys : (fields.map Field.key).Nodup) (hself : ∀ f ∈ fields, f.pattern = self)
variable (hrest : ∀ p ∈ rest, p = self)
variable {cells : Cells} {focus : Value} {node : Nat} {entries : Entries Value}

include hself in
theorem whole_fieldMatcher : ∀ f ∈ fields.map fieldMatcher, f.pattern.Whole := by
  refine List.forall_mem_map.2 fun f hf => ?_
  rw [fieldMatcher, hself f hf]
  exact whole_self

include hrest in
theorem whole_restMatcher : ∀ m ∈ rest.map matcher, m.Whole := by
  intro m hm
  obtain ⟨p, hp, rfl⟩ := Option.map_eq_some_iff.1 hm
  rw [hrest p hp]
  exact whole_self

include hkeys hself hrest

/-- In a map that has the fields it needs, the shape finds the entries that it covers. -/
theorem object_finds (hfocus : cells.resolve focus = .map node entries)
    (hentries : (Entries.keys entries).Nodup)
    (hrequired : ∀ f ∈ fields, f.optional = false → Entries.get? entries f.key ≠ none)
    (s : Session) :
    ((object fields rest).test focus cells s).1 = .ok true ∧
      ∃ k found, ((object fields rest).first focus cells s).1 = .ok (some (.map k found)) ∧
        found.Perm (covered fields rest entries) := by
  obtain ⟨t, u, hfirst⟩ := Matcher.object_first (whole_fieldMatcher hself) (whole_restMatcher hrest)
    hfocus (List.forall_mem_map.2 hrequired) s
  rw [← matchesIn_object] at hfirst
  have hkeys' : ((fields.map fieldMatcher).map Field.key).Nodup := by rwa [map_key_fieldMatcher]
  obtain ⟨k, found, hvalue, hperm⟩ :=
    Matcher.wholeMatch_value hkeys' hentries (rest.map matcher) s.nextNode cells t
  rw [covered_fieldMatcher] at hperm
  refine ⟨?_, k, found, ?_, hperm⟩
  · rw [test_of_first hfirst]
    rfl
  · rw [first_of_first hfirst, Option.map_some, hvalue]

/-- Replacing the first match writes the map over the fields, and over all other entries if there is a
rest. -/
theorem object_puts (hfocus : cells.resolve focus = .map node entries)
    (hentries : (Entries.keys entries).Nodup)
    (hrequired : ∀ f ∈ fields, f.optional = false → Entries.get? entries f.key ≠ none)
    {new : Value} {n : Nat} {replacement : Entries Value}
    (hnew : cells.resolve new = .map n replacement)
    (hreplacement : (Entries.keys replacement).Nodup) (s : Session) :
    ∃ k es t, (object fields rest).replace focus new cells s = (.ok (.map k es), t) ∧
      (Entries.keys es).Nodup ∧ ∀ key, Entries.get? es key =
        if key ∈ fields.map Field.key then defined (share replacement key)
        else if rest.isSome then Entries.get? replacement key
        else Entries.get? entries key := by
  obtain ⟨t, u, hfirst⟩ := Matcher.object_first (whole_fieldMatcher hself) (whole_restMatcher hrest)
    hfocus (List.forall_mem_map.2 hrequired) s
  rw [← matchesIn_object] at hfirst
  have hkeys' : ((fields.map fieldMatcher).map Field.key).Nodup := by rwa [map_key_fieldMatcher]
  obtain ⟨k, es, t', hreplace, hes⟩ := Matcher.wholeMatch_replace (n := s.nextNode)
    (whole_fieldMatcher hself) (whole_restMatcher hrest) hkeys' hentries hnew hreplacement u
  rw [map_key_fieldMatcher, Option.isSome_map] at hes
  exact ⟨k, es, t', (replace_of_first hfirst new).trans hreplace, hes⟩

end

/-- A map shape of the identity at all fields, and at the rest if there is one, finds the map that has
been put: all of it if there is a rest, otherwise its fields. -/
theorem object_put_get {fields : List (Field Pattern)} {rest : Option Pattern}
    (hkeys : (fields.map Field.key).Nodup) (hself : ∀ f ∈ fields, f.pattern = self)
    (hrest : ∀ p ∈ rest, p = self) {cells : Cells} {focus : Value} {node : Nat}
    {entries : Entries Value} (hfocus : cells.resolve focus = .map node entries)
    (hentries : (Entries.keys entries).Nodup) {s₀ : Session}
    (htest : ((object fields rest).test focus cells s₀).1 = .ok true) {new : Value} {n : Nat}
    {replacement : Entries Value} (hnew : cells.resolve new = .map n replacement)
    (hreplacement : (Entries.keys replacement).Nodup)
    (hrequired : ∀ f ∈ fields, f.optional = false → f.key ∈ Entries.keys replacement)
    (hdefined : ∀ f ∈ fields, Entries.get? replacement f.key ≠ some .undefined) (s : Session) :
    ∃ r t, (object fields rest).replace focus new cells s = (.ok r, t) ∧
      ∀ (later : Cells) (u : Session), ((object fields rest).test r later u).1 = .ok true ∧
        ∃ k found, ((object fields rest).first r later u).1 = .ok (some (.map k found)) ∧
          found.Perm (covered fields rest replacement) := by
  obtain ⟨k, es, t, hreplace, hes, hget⟩ := object_puts hkeys hself hrest hfocus hentries
    (required_of_test hfocus htest) hnew hreplacement s
  have hfield : ∀ f ∈ fields, Entries.get? es f.key = Entries.get? replacement f.key := by
    intro f hf
    rw [hget, if_pos (List.mem_map_of_mem hf), Matcher.ObjectMatch.defined_share (hdefined f hf)]
  have hrequired' : ∀ f ∈ fields, f.optional = false → Entries.get? es f.key ≠ none := by
    intro f hf hoptional
    rw [hfield f hf]
    exact Entries.mem_keys_iff_get?.1 (hrequired f hf hoptional)
  have hcovered : (covered fields rest es).Perm (covered fields rest replacement) := by
    refine Entries.perm_of_get?_eq (Matcher.nodup_covered fields rest hes)
      (Matcher.nodup_covered fields rest hreplacement) fun key => ?_
    rw [Matcher.get?_covered, Matcher.get?_covered]
    by_cases hkey : key ∈ fields.map Field.key
    · obtain ⟨f, hf, rfl⟩ := List.mem_map.1 hkey
      rw [hfield f hf]
    · cases rest with
      | none => simp [hkey]
      | some p => simp [hget, hkey]
  refine ⟨.map k es, t, hreplace, fun later u => ?_⟩
  have hresult : later.resolve (.map k es) = .map k es := later.resolve_of_ne_cell nofun
  obtain ⟨htest', k', found, hfirst, hperm⟩ :=
    object_finds hkeys hself hrest hresult hes hrequired' u
  exact ⟨htest', k', found, hfirst, hperm.trans hcovered⟩

/-- One of two optional fields goes and the other one comes, and so it is with the other entries. -/
theorem object_put_get_rest :
    let fields : List (Field Pattern) := [⟨"a", false, self⟩, ⟨"b", true, self⟩, ⟨"c", true, self⟩]
    let entries : Entries Value := [("x", .int 1), ("a", .int 2), ("y", .int 3), ("b", .int 4)]
    let replacement : Entries Value :=
      [("z", .int 5), ("a", .int 6), ("y", .int 7), ("c", .int 8)]
    let s : Session := ⟨2, #[]⟩
    ((object fields (some self)).test (.map 0 entries) Cells.none s).1 = .ok true ∧
      (∀ f ∈ fields, f.optional = false → f.key ∈ Entries.keys replacement) ∧
      (∀ f ∈ fields, Entries.get? replacement f.key ≠ some .undefined) ∧
      ∃ r t, (object fields (some self)).replace (.map 0 entries) (.map 1 replacement) Cells.none s =
          (.ok r, t) ∧
        ∀ (later : Cells) (u : Session), ((object fields (some self)).test r later u).1 = .ok true ∧
          ∃ k found, ((object fields (some self)).first r later u).1 = .ok (some (.map k found)) ∧
            found.Perm replacement := by
  intro fields entries replacement s
  have hkeys : (fields.map Field.key).Nodup := by decide
  have hself : ∀ f ∈ fields, f.pattern = self := by simp [fields]
  have hrest : ∀ p ∈ some self, p = self := by simp
  have hentries : (Entries.keys entries).Nodup := by decide
  have hreplacement : (Entries.keys replacement).Nodup := by decide
  have hfocus : Cells.none.resolve (.map 0 entries) = .map 0 entries := rfl
  have hnew : Cells.none.resolve (.map 1 replacement) = .map 1 replacement := rfl
  have htest : ((object fields (some self)).test (.map 0 entries) Cells.none s).1 = .ok true := rfl
  have hrequired : ∀ f ∈ fields, f.optional = false → f.key ∈ Entries.keys replacement := by decide
  have hdefined : ∀ f ∈ fields, Entries.get? replacement f.key ≠ some .undefined := by
    simp [fields, replacement, Entries.get?]
  exact ⟨htest, hrequired, hdefined, object_put_get hkeys hself hrest hfocus hentries htest hnew
    hreplacement hrequired hdefined s⟩

end DataExpr.Pattern
