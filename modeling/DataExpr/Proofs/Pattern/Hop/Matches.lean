import DataExpr.Proofs.Pattern.Hop

/-!
# The matches of a path pattern

`Match.atPath` is the match of what stands at the end of a path.  Where no cell is on the way, the
matches of a hop are those at its steps (`matcher_pattern_apply`), a match at a path inside one at a
step is the match at the longer path (`atPath_inside`), and so the matches of a sequence of hops are
those at its positions (`sequence_hops`).

`Pattern.path` is the pattern of hops with a test at the end; its matches are those at the positions
whose values pass the test (`Pattern.matcher_path_apply`).
-/

namespace DataExpr

variable {cells : Cells} {v c : Value} {step : Step}

namespace Match

/-- The match of what stands at the end of a path. -/
def atPath (cells : Cells) (root : Value) (path : Path) : Match :=
  ⟨(Path.get? cells path root).getD .undefined, Path.set path root⟩

theorem value_atPath {root w : Value} {path : Path} (h : Path.get? cells path root = some w) :
    (atPath cells root path).value = w := by
  rw [atPath, h, Option.getD_some]

@[simp] theorem whole_inside (v : Value) (m : Match) : (whole v).inside m = m := by
  simp [inside, whole]

theorem inside_inside (a b m : Match) : (a.inside b).inside m = a.inside (b.inside m) := by
  simp [inside]

theorem inside_atPath_nil (m : Match) (cells : Cells) : m.inside (atPath cells m.value []) = m := by
  simp [inside, atPath, Path.set]

/-- The match at a single step makes the container anew. -/
theorem atPath_singleton (hv : ∀ id, v ≠ .cell id) (hc : v.child? step = some c) :
    atPath cells v [step] = ⟨c, Path.newWithChild v step⟩ := by
  have hget : Path.get? cells [step] v = some c :=
    Path.get?_cons_eq_some.2 ⟨c, by rw [cells.resolve_of_ne_cell hv, hc], rfl⟩
  rw [atPath, hget, Option.getD_some]
  refine congrArg (Match.mk c) (funext fun new => funext fun cells' => funext fun s => ?_)
  have hc' : (cells'.resolve v).child? step = some c := by rw [cells'.resolve_of_ne_cell hv, hc]
  rw [Path.set_cons_apply hc', cells'.resolve_of_ne_cell hv]
  rfl

/-- A match at a path inside one at a step is at the longer path. -/
theorem atPath_inside (hv : ∀ id, v ≠ .cell id) (hc : v.child? step = some c) (rest : Path) :
    (atPath cells v [step]).inside (atPath cells c rest) = atPath cells v (step :: rest) := by
  rw [atPath_singleton hv hc, inside, atPath, atPath, Path.get?_cons, cells.resolve_of_ne_cell hv, hc,
    Option.bind_some]
  refine congrArg (Match.mk _) (funext fun new => funext fun cells' => funext fun s => ?_)
  have hc' : (cells'.resolve v).child? step = some c := by rw [cells'.resolve_of_ne_cell hv, hc]
  rw [Path.set_cons_apply hc', cells'.resolve_of_ne_cell hv]

end Match

namespace Hop

open Findings (ofItems expand)

variable {hop : Hop} {hops : List Hop}

/-- The matches of a hop in a value, or its error. -/
def items (cells : Cells) (hop : Hop) (v : Value) : List (Except EvalError Match) :=
  match hop.finds v with
  | .error e => [.error e]
  | .ok found => found.map fun d => .ok (.atPath cells v [d.2])

theorem single_childAt (cells : Cells) (hv : ∀ id, v ≠ .cell id) (step : Step)
    (hc : v.child? step = some c) :
    (Findings.single ⟨c, Path.newWithChild v step⟩ : Matches) =
      ofItems ((childAt v step).map fun d => .ok (.atPath cells v [d.2])) := by
  rw [childAt, hc, Option.toList_some, List.map_singleton, List.map_singleton,
    Match.atPath_singleton hv hc]
  rfl

theorem matcher_key_apply (hv : ∀ id, v ≠ .cell id) (name : String) (cells' : Cells) (s : Session) :
    Matcher.key name false v cells' s =
      (ofItems ((childAt v (.key name)).map fun d => .ok (.atPath cells v [d.2])), s) := by
  simp only [Matcher.key, Run.bind_apply, Run.resolve_apply, cells'.resolve_of_ne_cell hv]
  split
  · rename_i node entries
    cases hfound : Entries.get? entries name with
    | some found =>
      rw [← single_childAt cells hv (.key name) hfound]
      rfl
    | none =>
      rw [childAt, Value.child?_map, hfound]
      rfl
  · rename_i hmap
    have hnone : v.child? (.key name) = none := by
      cases v with
      | map node entries => exact absurd rfl (hmap node entries)
      | _ => rfl
    rw [childAt, hnone]
    rfl

/-- All children are the matches at their steps. -/
theorem ofList_children (cells : Cells) (hv : v.PlainTo 1) :
    (Findings.ofList (v.children.map fun d => ⟨d.1, Path.newWithChild v d.2⟩) : Matches) =
      ofItems (v.children.map fun d => .ok (.atPath cells v [d.2])) := by
  rw [← Findings.ofItems_ok, List.map_map]
  refine congrArg ofItems (List.map_congr_left fun d hd => congrArg Except.ok ?_)
  exact (Match.atPath_singleton hv.1 (Value.child?_of_mem hv.2.1 hd)).symm

/-- Where no cell is in its way, a hop gives the matches at its steps. -/
theorem matcher_pattern_apply (cells : Cells) (hv : v.PlainTo 1) (hop : Hop) (cells' : Cells)
    (s : Session) :
    hop.pattern.matcher v cells' s = (ofItems (hop.items cells v), s) := by
  cases hop with
  | key name => exact matcher_key_apply hv.1 name cells' s
  | index i =>
    show Matcher.index i false v cells' s = _
    simp only [Matcher.index, Run.bind_apply, Run.resolve_apply, cells'.resolve_of_ne_cell hv.1]
    cases v with
    | list node vs =>
      simp only [items, finds]
      cases Matcher.position? i vs.length with
      | none => rfl
      | some p =>
        rw [Option.toList_some, List.flatMap_singleton]
        cases hp : vs[p]? with
        | none =>
          rw [childAt, Value.child?_list, hp, Option.bind_some, hp]
          rfl
        | some c =>
          rw [← single_childAt cells hv.1 (.index p) hp, Option.bind_some, hp]
          rfl
    | map node entries => exact matcher_key_apply hv.1 _ cells' s
    | cell id => exact absurd rfl (hv.1 id)
    | _ => rfl
  | spread =>
    show Matcher.spread v cells' s = _
    simp only [Matcher.spread, Run.bind_apply, Run.resolve_apply, cells'.resolve_of_ne_cell hv.1]
    have hchildren := ofList_children cells hv
    cases v with
    | list node items =>
      rw [Value.children, List.map_map] at hchildren
      exact congrArg (·, s) hchildren
    | map node entries =>
      rw [Value.children, List.map_map] at hchildren
      exact congrArg (·, s) hchildren
    | cell id => exact absurd rfl (hv.1 id)
    | _ => rfl

/-! ### Sequences of hops -/

/-- The matches at the positions of more hops are those of the first hop, and in each of these the
matches at the positions of the others. -/
theorem items_flatMap_expand (hv : v.PlainTo (hops.length + 1)) (m : Match) :
    ((hop.items cells v).map (Except.map m.inside)).flatMap
        (expand fun outer => (positions hops outer.value).map
          (Except.map fun p => outer.inside (.atPath cells outer.value p))) =
      (positions (hop :: hops) v).map (Except.map fun p => m.inside (.atPath cells v p)) := by
  cases hfound : hop.finds v with
  | error e =>
    rw [items, hfound, positions_cons_of_error hfound]
    rfl
  | ok found =>
    rw [items, hfound, positions_cons hfound, List.map_map, List.flatMap_map, List.map_flatMap,
      List.flatMap_def, List.flatMap_def]
    refine congrArg List.flatten (List.map_congr_left fun d hd => ?_)
    -- Behind one child both sides are the positions of the other hops, one step further down.
    have hchild := child?_of_mem_finds hv.2.1 hfound d hd
    have hvalue : (m.inside (.atPath cells v [d.2])).value = d.1 := by
      rw [Match.value_inside, Match.atPath_singleton hv.1 hchild]
    show (positions hops (m.inside (.atPath cells v [d.2])).value).map _ = _
    rw [hvalue, List.map_map]
    refine List.map_congr_left fun i _ => ?_
    cases i with
    | error e => rfl
    | ok p =>
      refine congrArg Except.ok ((Match.inside_inside _ _ _).trans (congrArg m.inside ?_))
      exact Match.atPath_inside hv.1 hchild p

/-- What is at the matches of a hop is plain one level less deep. -/
theorem plainTo_of_mem_items {n : Nat} (hv : v.PlainTo (n + 1)) {m : Match}
    (hm : .ok m ∈ hop.items cells v) : m.value.PlainTo n := by
  unfold items at hm
  cases hfound : hop.finds v with
  | error e =>
    rw [hfound] at hm
    cases List.mem_singleton.1 hm
  | ok found =>
    rw [hfound] at hm
    obtain ⟨d, hd, hm⟩ := List.mem_map.1 hm
    have hchild := child?_of_mem_finds hv.2.1 hfound d hd
    rw [← Except.ok.inj hm, Match.atPath_singleton hv.1 hchild]
    exact hv.child? hchild

/-- Looking on with hops from matches gives the matches at the positions of the hops. -/
theorem foldl_hops (cells : Cells) (hops : List Hop) (ms : List (Except EvalError Match))
    (hms : ∀ m, .ok m ∈ ms → m.value.PlainTo hops.length) :
    (hops.map fun hop => hop.pattern.matcher).foldl
        (fun found m => found.bind fun outer => return (← m outer.value).map outer.inside)
        (ofItems ms) =
      ofItems (ms.flatMap (expand fun outer => (positions hops outer.value).map
        (Except.map fun p => outer.inside (.atPath cells outer.value p)))) := by
  induction hops generalizing ms with
  | nil =>
    -- Without hops every match is the one at the empty path in itself.
    refine congrArg ofItems (Eq.symm ?_)
    refine (congrArg (List.flatMap · ms) (funext fun i => ?_)).trans (List.flatMap_singleton' ms)
    cases i with
    | error e => rfl
    | ok m =>
      show [Except.ok (m.inside (.atPath cells m.value []))] = _
      rw [Match.inside_atPath_nil]
  | cons hop hops ih =>
    -- One hop turns items into items, so the induction goes on with those.
    have hbind : (ofItems ms).bind
          (fun outer => return (← hop.pattern.matcher outer.value).map outer.inside) =
        ofItems (ms.flatMap (expand fun outer =>
          (hop.items cells outer.value).map (Except.map outer.inside))) := by
      refine Findings.bind_ofItems fun m hm cells' s => ?_
      have happly := matcher_pattern_apply cells (hms m hm).one hop cells' s
      show (((hop.pattern.matcher m.value cells' s).1).map m.inside, _) = _
      rw [happly]
      exact congrArg (·, s) (Findings.map_ofItems _ _)
    rw [List.map_cons, List.foldl_cons, hbind, ih, List.flatMap_assoc]
    · refine congrArg ofItems ?_
      rw [List.flatMap_def, List.flatMap_def]
      refine congrArg List.flatten (List.map_congr_left fun i hi => ?_)
      cases i with
      | error e => rfl
      | ok m => exact items_flatMap_expand (hms m hi) m
    · intro m hm
      obtain ⟨i, hi, hm⟩ := List.mem_flatMap.1 hm
      cases i with
      | error e => cases List.mem_singleton.1 hm
      | ok outer =>
        obtain ⟨j, hj, hm⟩ := List.mem_map.1 hm
        cases j with
        | error e => cases hm
        | ok inner =>
          rw [← Except.ok.inj hm]
          exact plainTo_of_mem_items (m := inner) (hms outer hi) hj

/-- The matches of a sequence of hops are those at its positions. -/
theorem sequence_hops (cells : Cells) (hops : List Hop) {focus : Value}
    (hf : focus.PlainTo hops.length) (cells' : Cells) (s : Session) :
    Matcher.sequence (hops.map fun hop => hop.pattern.matcher) focus cells' s =
      (ofItems ((positions hops focus).map (Except.map (.atPath cells focus))), s) := by
  have hfoldl := foldl_hops cells hops [.ok (.whole focus)] (by simpa using hf)
  refine congrArg (·, s) (hfoldl.trans (congrArg ofItems ?_))
  rw [List.flatMap_singleton]
  show List.map (Except.map fun p => (Match.whole focus).inside (.atPath cells focus p)) _ = _
  simp only [Match.whole_inside]
  rfl

end Hop

/-! ### The test at the end -/

namespace Predicate

/-- The test of a path pattern; without one every value passes. -/
def testLast (last : Option Predicate) (v : Value) : Run Bool :=
  match last with
  | none => return true
  | some p => p.test v

/-- Whether the value passes the test of a path pattern. -/
def passes (last : Option Predicate) (cells : Cells) (v : Value) : Bool :=
  last.all (·.holds cells (cells.resolve v))

/-- What the test of a path pattern notes. -/
def notes (last : Option Predicate) (cells : Cells) (v : Value) : List Value :=
  match last with
  | none => []
  | some p => if p.noted then [cells.resolve v] else []

theorem testLast_apply (last : Option Predicate) (cells : Cells) (v : Value) (s : Session) :
    testLast last v cells s = (passes last cells v, s.noting (notes last cells v)) := by
  cases last with
  | none =>
    rw [notes, Session.noting_nil]
    rfl
  | some p =>
    simp only [testLast, test, notes]
    cases p.noted with
    | true => rfl
    | false => exact congrArg (Prod.mk _) (Session.noting_nil s).symm

end Predicate

namespace Pattern

/-- The pattern of hops one after the other, and a test of what they lead to. -/
def path (hops : List Hop) (last : Option Predicate) : Pattern :=
  .seq (hops.map Hop.pattern ++ last.toList.map .satisfying)

open Findings (ofItems sifted)

/-- The matches of a path pattern are those at its positions that pass the test. -/
theorem matcher_path_apply {hops : List Hop} {focus : Value} (hf : focus.PlainTo hops.length)
    (last : Option Predicate) (cells cells' : Cells) (s : Session) :
    (path hops last).matcher focus cells' s =
      ((ofItems ((Hop.positions hops focus).map (Except.map (.atPath cells focus)))).sifted
        fun m => Predicate.testLast last m.value, s) := by
  have hsequence := Hop.sequence_hops cells hops hf cells' s
  have hstream := (Prod.mk.inj hsequence).1
  rw [path, matcher, matchers_eq_map, List.map_append, List.map_map]
  cases last with
  | none =>
    show Matcher.sequence (hops.map (matcher ∘ Hop.pattern) ++ []) focus cells' s = _
    rw [List.append_nil]
    exact hsequence.trans (congrArg (·, s) (Findings.sifted_true _).symm)
  | some p =>
    refine congrArg (·, s) ?_
    -- The test is one more step of the sequence, which gives the match back or nothing.
    rw [List.foldl_append]
    refine (congrArg (Findings.bind _) hstream).trans ?_
    refine congrArg (Findings.bind · _) (funext fun outer => funext fun cells => funext fun s => ?_)
    show ((if (p.test outer.value cells s).1 then Matches.whole outer.value else .empty).map _, _) =
      ((if (p.test outer.value cells s).1 then Findings.single outer else .empty), _)
    cases (p.test outer.value cells s).1 with
    | true =>
      rw [if_pos rfl, if_pos rfl]
      exact congrArg (fun m => (Findings.single m, _)) (Match.inside_atPath_nil outer cells)
    | false => rfl

end Pattern

end DataExpr
