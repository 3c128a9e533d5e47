import DataExpr.Pattern
import DataExpr.Proofs.Matcher.ObjectReplace

/-!
# What a replacement leaves of a map

Replacing a match of a map shape changes the fields.  The other entries belong to the match of the rest:
if that is a map, they become those that it has returned, and if it is none, or there is no rest, they
stay (`Pattern.object_replace_frame`).  Keys that stay keep their order, and new ones come after them,
as long as the rest returns none of the keys that the shape names: a field that has been removed would
be written again, at the end.
-/

namespace DataExpr.Pattern

open Entries (KeepsOrder)
open Matcher (ObjectMatch)

/-- A field with its pattern made a matcher. -/
def fieldMatcher (f : Field Pattern) : Field Matcher := ⟨f.key, f.optional, matcher f.pattern⟩

theorem map_key_fieldMatcher (fields : List (Field Pattern)) :
    (fields.map fieldMatcher).map Field.key = fields.map Field.key := by
  rw [List.map_map]
  rfl

theorem matchesIn_object (fields : List (Field Pattern)) (rest : Option Pattern) :
    (object fields rest).matchesIn =
      Matcher.object (fields.map fieldMatcher) (rest.map matcher) := by
  funext focus
  rw [matchesIn, matcher, fieldMatchers_eq_map, restMatcher_eq_map]
  rfl

/-- The match that has been found for the rest, if there is a rest: one in the map of the entries that
are no fields.  The matched map has what it has found, and besides only fields. -/
structure RestMatch (cells : Cells) (fields : List (Field Pattern)) (rest : Option Pattern)
    (entries : Entries Value) (others : Option Match) (m : Match) : Prop where
  isSome_eq : others.isSome = rest.isSome
  found : ∀ r ∈ others, ∃ p ∈ rest, ∃ s n, (p.matchesIn
    (.map n (Entries.without entries (fields.map Field.key))) cells s).1.Gives cells r
  value : ∃ node es, (∀ k ∈ Entries.keys es, k ∈ fields.map Field.key) ∧
    m.value = .map node (Entries.insertAll es
      (others.elim [] fun r => (cells.resolve r.value).entries?.getD []))

/-- The entries are the same at all keys that are not named. -/
def AgreeOff (named : List String) (es fs : Entries Value) : Prop :=
  ∀ key, key ∉ named → Entries.get? es key = Entries.get? fs key

/-- What has come of the entries of a map when a part of it has been replaced.  The keys that are not
named are left alone if the match of the rest is no map; otherwise they are those of the map that this
match has made of the part of the replacement that is for it (no map has a key twice). -/
structure Framed (cells later : Cells) (named : List String) (others : Option Match)
    (entries replacement es : Entries Value) : Prop where
  nodup : (Entries.keys es).Nodup
  alone : (∀ r ∈ others, (cells.resolve r.value).entries? = none) →
    AgreeOff named es entries ∧ KeepsOrder entries es
  rest : ∀ r ∈ others, (cells.resolve r.value).entries?.isSome →
    ∃ a s t rebuilt b returned,
      r.replace (.map a (Entries.without replacement named)) later s = (.ok rebuilt, t) ∧
      later.resolve rebuilt = .map b returned ∧
      ((Entries.keys returned).Nodup → AgreeOff named es returned) ∧
      ((∀ key ∈ named, key ∉ Entries.keys returned) → KeepsOrder entries es)

/-- The last stage leaves the entries as they are if no match of the rest is left, and otherwise writes
what that match has returned over them. -/
theorem framed_of_finished (cells : Cells) {later : Cells} {m : ObjectMatch} {others : Option Match}
    {replacement parts es : Entries Value}
    (hrest : m.rest = others.filter fun r => (cells.resolve r.value).entries?.isSome)
    (hparts : m.PartsPut later replacement parts) (h : m.Finished later replacement parts es) :
    Framed cells later m.named others m.entries replacement es := by
  cases h with
  | alone hnone =>
    rw [hrest, Option.filter_eq_none_iff] at hnone
    refine ⟨hparts.nodup, fun _ => ⟨hparts.other, hparts.order⟩, fun r hr hmap => ?_⟩
    exact absurd hmap (hnone r hr)
  | @withRest r a b s t rebuilt returned hsome hreplace hresolve =>
    rw [hrest, Option.filter_eq_some_iff] at hsome
    refine ⟨hparts.nodup_withRest returned, fun hnone => ?_, fun r' hr' _ => ?_⟩
    · rw [hnone r hsome.1] at hsome
      exact absurd hsome.2 Bool.false_ne_true
    · obtain rfl : r = r' := Option.some.inj (hsome.1.symm.trans hr')
      refine ⟨a, s, t, rebuilt, b, returned, hreplace, hresolve, fun hnodup key hkey => ?_,
        hparts.keepsOrder_withRest⟩
      rw [hparts.get?_withRest hnodup, if_neg hkey, Option.or_none]

/-- Replacing a match of a map shape through any patterns leaves alone what the shape does not name, or
leaves it to the match of the rest. -/
theorem object_replace_frame {fields : List (Field Pattern)} {rest : Option Pattern}
    (hkeys : (fields.map Field.key).Nodup) {cells : Cells} {focus : Value} {node : Nat}
    {entries : Entries Value} (hfocus : cells.resolve focus = .map node entries)
    (hentries : (Entries.keys entries).Nodup) {s t : Session} {m : Match}
    (hm : .ok m ∈ (((object fields rest).matchesIn focus cells s).1.toList cells t).1) :
    ∃ others, RestMatch cells fields rest entries others m ∧
      ∀ (later : Cells) (new v : Value) (s t : Session), m.replace new later s = (.ok v, t) →
        ∃ n replacement k es, later.resolve new = .map n replacement ∧ v = .map k es ∧
          Framed cells later (fields.map Field.key) others entries replacement es := by
  have hgives := Findings.Gives.of_mem_toList hm
  rw [matchesIn_object] at hgives
  obtain ⟨node', entries', hresolve, found, hfound, t', rfl⟩ := Matcher.object_gives hgives
  rw [hfocus] at hresolve
  cases hresolve
  have hkeys' : ((fields.map fieldMatcher).map Field.key).Nodup := by rwa [map_key_fieldMatcher]
  refine ⟨found[(Matcher.presentFields entries (fields.map fieldMatcher)).length]?,
    ⟨?_, fun r hr => ?_, ?_⟩, fun later new v s t hreplace => ?_⟩
  · rw [ObjectMatch.isSome_rest hfound, Option.isSome_map]
  · obtain ⟨p', hp', s', hr⟩ := Matcher.foundIn_of_rest hfound hr
    obtain ⟨p, hp, rfl⟩ := Option.map_eq_some_iff.1 hp'
    rw [map_key_fieldMatcher] at hr
    exact ⟨p, hp, s', _, hr⟩
  · rw [← map_key_fieldMatcher]
    exact ObjectMatch.value_combined hkeys' hfound t'
  · obtain ⟨n, replacement, parts, k, es, hnew, rfl, hparts, hfinished⟩ :=
      (ObjectMatch.fits_combined hkeys' hentries hfound).of_replace hreplace
    have hframed := framed_of_finished cells rfl hparts hfinished
    rw [Matcher.combined, map_key_fieldMatcher] at hframed
    exact ⟨n, replacement, k, es, hnew, rfl, hframed⟩

/-- A field is removed and another one added, and of the other entries one is dropped, one changed and
one new. -/
theorem object_replace_frame_rest :
    let fields : List (Field Pattern) := [⟨"a", false, self⟩, ⟨"b", true, self⟩]
    let entries : Entries Value := [("x", .int 1), ("a", .int 2), ("y", .int 3)]
    let new : Value := .map 1 [("z", .int 4), ("y", .int 5), ("b", .int 6)]
    let s : Session := ⟨2, #[]⟩
    (fields.map Field.key).Nodup ∧ (Entries.keys entries).Nodup ∧
      ∃ m, .ok m ∈ (((object fields (some self)).matchesIn (.map 0 entries) Cells.none s).1.toList
        Cells.none s).1 ∧ ∃ others, RestMatch Cells.none fields (some self) entries others m ∧
          ∃ k es t, m.replace new Cells.none s = (.ok (.map k es), t) ∧
            es = [("y", .int 5), ("b", .int 6), ("z", .int 4)] ∧
            ∃ n replacement, new = .map n replacement ∧
              Framed Cells.none Cells.none (fields.map Field.key) others entries replacement es := by
  intro fields entries new s
  have hkeys : (fields.map Field.key).Nodup := by decide
  have hentries : (Entries.keys entries).Nodup := by decide
  obtain ⟨m, hm, k, t, hreplace⟩ : ∃ m, .ok m ∈ (((object fields (some self)).matchesIn
      (.map 0 entries) Cells.none s).1.toList Cells.none s).1 ∧ ∃ k t, m.replace new Cells.none s =
        (.ok (.map k [("y", .int 5), ("b", .int 6), ("z", .int 4)]), t) :=
    ⟨_, .head _, _, _, rfl⟩
  have hfocus : Cells.none.resolve (.map 0 entries) = .map 0 entries := rfl
  obtain ⟨others, hrest, hframe⟩ := object_replace_frame hkeys hfocus hentries hm
  obtain ⟨n, replacement, k', es, hnew, hes, hframed⟩ := hframe _ _ _ _ _ hreplace
  cases hes
  exact ⟨hkeys, hentries, m, hm, others, hrest, k, _, t, hreplace, rfl, n, replacement, hnew, hframed⟩

end DataExpr.Pattern
