import DataExpr.Proofs.Pattern.Hop.Stage

/-!
# Editing along a path pattern

`editAll_path` says that the edit of all matches of a path pattern is a simultaneous one
(`Value.editAt`), and that every original value is edited once.  The matches are collected first
(`editAll_path_apply`); the edits that follow go through the stages of `Hop.Stage`.
-/

namespace DataExpr

namespace Pattern

variable {hops : List Hop} {focus : Value} {places : List Path}

/-- Asking a path pattern for all its matches, where none of them is an error. -/
theorem toList_matcher_path (last : Option Predicate) (cells : Cells)
    (hf : focus.PlainTo hops.length)
    (hpositions : Hop.positions hops focus = places.map .ok) :
    ∃ ns, ∀ s, ((path hops last).matcher focus cells s).1.toList cells s =
      (((Hop.matched last cells focus places).map (Match.atPath cells focus)).map .ok,
        s.noting ns) := by
  obtain ⟨ns, hlist⟩ := Findings.toList_sifted cells
    (fun m s => Predicate.testLast_apply last cells (Match.value m) s)
    ((Hop.positions hops focus).map (Except.map (.atPath cells focus)))
  refine ⟨ns, fun s => ?_⟩
  rw [matcher_path_apply hf last cells]
  refine (hlist s).trans (congrArg (·, s.noting ns) ?_)
  rw [hpositions, List.map_map, List.filter_map, List.map_map]
  rfl

/-- After its matches have been collected, the edit of all of them is the joint edit. -/
theorem editAll_path_apply (last : Option Predicate) (cells : Cells)
    (hf : focus.PlainTo hops.length)
    (hpositions : Hop.positions hops focus = places.map .ok) :
    ∃ ns, ∀ (edit : Value → Eval Value) s, (path hops last).editAll focus edit cells s =
      Matcher.editJointly (path hops last).matcher (fun _ => edit)
        (Hop.matched last cells focus places).length focus cells (s.noting ns) := by
  obtain ⟨ns, hlist⟩ := toList_matcher_path last cells hf hpositions
  refine ⟨ns, fun edit s => ?_⟩
  have hs : ((path hops last).matcher focus cells s).2 = s := by
    rw [matcher_path_apply hf last cells]
  have hcollect := Findings.collect_of_toList (hlist s)
  rw [editAll_apply (t := s.noting ns) (by rw [hs, hcollect]), List.length_map]

/-- Editing all matches of a path pattern is a simultaneous edit, if there is no error among them.  The
matches are at those places, all different, to which the steps lead and whose values pass the test.
Whatever the edit makes of a value, each of these places gets what it makes of the value that stood
there at first.  Every one of these values is edited once: an edit that notes what it is given notes
just them, besides what the test notes. -/
theorem editAll_path (hops : List Hop) (last : Option Predicate) {focus : Value}
    (hf : focus.WellFormed) (hc : focus.holdsCell = false) {cells : Cells} {s : Session}
    (hok : ∀ i ∈ (((path hops last).matchesIn focus cells s).1.toList cells s).1, ∃ m, i = .ok m) :
    ∃ positions places : List Path, Hop.positions hops focus = positions.map .ok ∧
      places = Hop.matched last cells focus positions ∧ places.Nodup ∧
      (((path hops last).matchesIn focus cells s).1.toList cells s).1 =
        places.map (fun p => .ok (.atPath cells focus p)) ∧
      (∀ p ∈ places, ∃ old, Path.get? cells p focus = some old) ∧
      (∀ (f : Value → Value) (edit : Value → Eval Value),
        (∀ v s, ∃ w s', edit v cells s = (.ok w, s') ∧ w.content = (f v).content) →
        ∃ w s', (path hops last).editAll focus edit cells s = (.ok w, s') ∧
          w.content = (focus.editAt f fun p => p ∈ places).content) ∧
      ∀ f : Value → Value, ∃ w s₁ s₂,
        (path hops last).editAll focus (fun v => return f v) cells s = (.ok w, s₁) ∧
        (path hops last).editAll focus (fun v => do Run.note v; return f v) cells s = (.ok w, s₂) ∧
        s₂.journal.toList.Perm (s₁.journal.toList ++
          places.map fun p => (Match.atPath cells focus p).value) := by
  have hplain := Value.Plain.plainTo ⟨hf, hc⟩ hops.length
  obtain ⟨positions, hpositions⟩ :
      ∃ positions : List Path, Hop.positions hops focus = positions.map .ok := by
    -- An error among the positions would be an item of the stream: no test drops errors.
    refine Lists.exists_eq_map_ok fun i hi => ?_
    cases i with
    | ok p => exact ⟨p, rfl⟩
    | error e =>
      obtain ⟨ns, hlist⟩ := Findings.toList_sifted cells
        (fun m s => Predicate.testLast_apply last cells (Match.value m) s)
        ((Hop.positions hops focus).map (Except.map (.atPath cells focus)))
      rw [matchesIn, matcher_path_apply hplain last cells, hlist] at hok
      obtain ⟨m, hm⟩ := hok (.error e) (List.mem_filter.2 ⟨List.mem_map.2 ⟨_, hi, rfl⟩, rfl⟩)
      cases hm
  obtain ⟨ns, hlist⟩ := toList_matcher_path last cells hplain hpositions
  obtain ⟨ns', hedit⟩ := editAll_path_apply last cells hplain hpositions
  have hstage := fun f => Hop.stage_focus last cells f hplain hpositions
  refine ⟨positions, Hop.matched last cells focus positions, hpositions, rfl,
    Hop.nodup_matched hplain hpositions, ?_, fun p hp => ?_, fun f edit htotal => ?_, fun f => ?_⟩
  · rw [matchesIn, hlist, List.map_map]
    rfl
  · have hpmem : p ∈ positions := (List.mem_filter.1 hp).1
    exact Hop.get?_of_mem_positions cells hplain (hpositions ▸ List.mem_map_of_mem hpmem)
  · rw [hedit]
    exact (hstage f).content_editJointly hplain hpositions (Nat.le_refl _) htotal _
  · rw [hedit, hedit]
    -- At first nothing has been noted, and nothing is behind the matches that are left.
    refine (hstage f).journal_editJointly hplain hpositions (Nat.le_refl _) rfl ?_
    rw [List.drop_length, List.map_nil, List.append_nil]

/-- Two items that are one map, and one whose price is no number: the prices of the first two are what
is found, and both of them are edited. -/
theorem editAll_path_prices :
    let item : Value := .map 2 [("price", .int 10)]
    let focus : Value := .map 0 [("items", .list 1 [item, item, .map 3 [("price", .str "none")]])]
    let p := path [.key "items", .spread, .key "price"] (some (.ofType .number))
    let prices : List Path :=
      [[.key "items", .index 0, .key "price"], [.key "items", .index 1, .key "price"]]
    let sold : Value := .map 0 [("price", .str "sold")]
    focus.WellFormed ∧ focus.holdsCell = false ∧
      (∀ i ∈ ((p.matchesIn focus Cells.none ⟨4, #[]⟩).1.toList Cells.none ⟨4, #[]⟩).1,
        ∃ m, i = .ok m) ∧
      ((p.matchesIn focus Cells.none ⟨4, #[]⟩).1.toList Cells.none ⟨4, #[]⟩).1 =
        prices.map (fun q => .ok (.atPath Cells.none focus q)) ∧
      ∃ w s',
        p.editAll focus (fun _ => return .str "sold") Cells.none ⟨4, #[]⟩ = (.ok w, s') ∧
        w.content = .map 0 [("items", .list 0 [sold, sold, .map 0 [("price", .str "none")]])] := by
  intro item focus p prices sold
  have hf : focus.Plain := by simp [focus, item]
  have hok : ∀ i ∈ ((p.matchesIn focus Cells.none ⟨4, #[]⟩).1.toList Cells.none ⟨4, #[]⟩).1,
      ∃ m, i = .ok m := by
    have hall : (((p.matchesIn focus Cells.none ⟨4, #[]⟩).1.toList Cells.none ⟨4, #[]⟩).1.all
        (·.toBool)) = true := by decide +kernel
    intro i hi
    have hi := List.all_eq_true.1 hall i hi
    cases i with
    | ok m => exact ⟨m, rfl⟩
    | error e => cases hi
  obtain ⟨positions, places, hpositions, hplaces, -, hmatches, -, hedit, -⟩ :=
    editAll_path [.key "items", .spread, .key "price"] (some (.ofType .number)) hf.wellFormed
      hf.cellFree hok
  -- The steps lead to three prices, of which the test leaves two.
  have hthree : Hop.positions [.key "items", .spread, .key "price"] focus =
      (prices ++ [([.key "items", .index 2, .key "price"] : Path)]).map .ok := rfl
  have hprices : places = prices := by
    have hsame := (List.map_inj_right fun _ _ => Except.ok.inj).1 (hpositions.symm.trans hthree)
    rw [hplaces, hsame]
    rfl
  subst hprices
  refine ⟨hf.wellFormed, hf.cellFree, hok, hmatches, ?_⟩
  obtain ⟨w, s', hresult, hw⟩ := hedit (fun _ => .str "sold") (fun _ => return .str "sold")
    fun _ s => ⟨.str "sold", s, rfl, rfl⟩
  have hedited : (focus.editAt (fun _ => .str "sold") fun q => q ∈ prices).content =
      .map 0 [("items", .list 0 [sold, sold, .map 0 [("price", .str "none")]])] := rfl
  exact ⟨w, s', hresult, hw.trans hedited⟩

end Pattern

end DataExpr
