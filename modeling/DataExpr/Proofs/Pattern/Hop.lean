import DataExpr.Proofs.Findings.Items
import DataExpr.Proofs.Value.EditAt

/-!
# Where a path pattern matches

A `Hop` is a step of a path pattern: a key or an index that has to be there, or all children.
`Hop.finds` is what a hop finds in a value, and `Hop.positions` where a sequence of hops leads to, with
errors in place.  `sequence_hops` says that the matches of the sequence are at these positions.

All positions are equally long and no two are the same (`length_of_mem_positions`,
`pairwise_positions`).  They depend only on the keys and lengths of the containers above them, so putting
anything at one of them leaves them all as they are (`positions_put`).
-/

namespace DataExpr

/-- A step of a path pattern. -/
inductive Hop where
  | key (name : String)
  | index (i : Int64)
  | spread

namespace Hop

/-- The pattern of the step. -/
def pattern : Hop → Pattern
  | key name => .key name false
  | index i => .index i false
  | spread => .spread

/-- The child at a step, if there is one, with the step. -/
def childAt (v : Value) (step : Step) : List (Value × Step) :=
  (v.child? step).toList.map (·, step)

/-- The children that the hop finds with the steps to them, or its error. -/
def finds : Hop → Value → Except EvalError (List (Value × Step))
  | key name, v => .ok (childAt v (.key name))
  | index i, .list node items =>
    .ok ((Matcher.position? i items.length).toList.flatMap fun p =>
      childAt (.list node items) (.index p))
  | index i, .map node entries => .ok (childAt (.map node entries) (.key (toString i.toInt)))
  | index _, v => .error (.typeMismatch "array" v.ownType.name)
  | spread, v => .ok v.children

/-- Where hops lead to, one after the other; an error stands for what would be found behind it. -/
def positions : List Hop → Value → List (Except EvalError Path)
  | [], _ => [.ok []]
  | hop :: hops, v =>
    match hop.finds v with
    | .error e => [.error e]
    | .ok found => found.flatMap fun c => (positions hops c.1).map (Except.map (c.2 :: ·))

variable {cells : Cells} {hop : Hop} {hops : List Hop} {v c old : Value} {step : Step}

/-! ### What one hop finds -/

theorem mem_childAt {d : Value × Step} :
    d ∈ childAt v step ↔ v.child? step = some d.1 ∧ d.2 = step := by
  obtain ⟨d, st⟩ := d
  simp only [childAt, List.mem_map, Option.mem_toList, Prod.mk.injEq]
  constructor
  · rintro ⟨_, hd, rfl, rfl⟩
    exact ⟨hd, rfl⟩
  · rintro ⟨hd, rfl⟩
    exact ⟨d, hd, rfl, rfl⟩

theorem pairwise_childAt (v : Value) (step : Step) {R : Value × Step → Value × Step → Prop} :
    (childAt v step).Pairwise R := by
  unfold childAt
  cases v.child? step with
  | none => exact .nil
  | some c => exact List.pairwise_singleton _ _

theorem child?_of_mem_finds
    (hkeys : ∀ entries, v.entries? = some entries → (Entries.keys entries).Nodup)
    {found : List (Value × Step)} (h : hop.finds v = .ok found) :
    ∀ d ∈ found, v.child? d.2 = some d.1 := by
  intro d hd
  have hchildAt : ∀ {step}, d ∈ childAt v step → v.child? d.2 = some d.1 := by
    intro step hd
    obtain ⟨hd, hstep⟩ := mem_childAt.1 hd
    rw [hstep, hd]
  unfold finds at h
  split at h
  · cases h
    exact hchildAt hd
  · cases h
    obtain ⟨p, -, hd⟩ := List.mem_flatMap.1 hd
    exact hchildAt hd
  · cases h
    exact hchildAt hd
  · cases h
  · cases h
    exact Value.child?_of_mem hkeys hd

/-- A hop takes no step twice. -/
theorem pairwise_finds
    (hkeys : ∀ entries, v.entries? = some entries → (Entries.keys entries).Nodup)
    {found : List (Value × Step)} (h : hop.finds v = .ok found) :
    found.Pairwise fun a b => a.2 ≠ b.2 := by
  unfold finds at h
  split at h
  · cases h
    exact pairwise_childAt _ _
  · rename_i i node items
    cases h
    cases Matcher.position? i items.length with
    | none => exact .nil
    | some p =>
      rw [Option.toList_some, List.flatMap_singleton]
      exact pairwise_childAt _ _
  · cases h
    exact pairwise_childAt _ _
  · cases h
  · cases h
    exact Value.pairwise_children hkeys

/-- The same children with another one at a step. -/
def changeAt (step : Step) (c : Value) (d : Value × Step) : Value × Step :=
  if d.2 = step then (c, step) else d

theorem childAt_withChild (hold : v.child? step = some old) (node : Nat) (step' : Step) :
    childAt (v.withChild node step c) step' = (childAt v step').map (changeAt step c) := by
  unfold childAt
  rw [Value.child?_withChild hold]
  by_cases hs : step' = step
  · subst hs
    rw [if_pos rfl, hold]
    simp [changeAt]
  · rw [if_neg hs]
    cases v.child? step' with
    | none => rfl
    | some d => simp [changeAt, hs]

theorem children_withChild (hold : v.child? step = some old)
    (hkeys : ∀ entries, v.entries? = some entries → (Entries.keys entries).Nodup) (node : Nat) :
    (v.withChild node step c).children = v.children.map (changeAt step c) := by
  unfold Value.child? at hold
  split at hold
  · rename_i n items i
    have hi : i < items.length := (List.getElem?_eq_some_iff.1 hold).1
    rw [Value.withChild, Value.children, Value.children, List.map_map]
    refine List.ext_getElem? fun j => ?_
    rw [List.getElem?_map, List.getElem?_map, List.getElem?_zipIdx, List.getElem?_zipIdx,
      Value.getElem?_setItem hi]
    by_cases hj : j = i
    · subst hj
      rw [if_pos rfl, hold]
      simp [changeAt]
    · rw [if_neg hj]
      cases items[j]? with
      | none => rfl
      | some d => simp [changeAt, hj]
  · rename_i n entries k
    -- Writing to a key is changing the entry of that key in a map over all entries.
    have hinsert := Entries.insert_map (hkeys entries rfl) hold (f := fun _ a => a)
      (g := fun k' a => if k' = k then c else a) fun k' a hk' => if_neg hk'
    rw [if_pos rfl, List.map_id'] at hinsert
    rw [Value.withChild, Value.children, Value.children, hinsert, List.map_map, List.map_map]
    refine List.map_congr_left fun e _ => ?_
    by_cases hk : e.1 = k <;> simp [changeAt, hk]
  · cases hold

/-- Another child at a step changes what is found there and nothing else. -/
theorem finds_withChild (hop : Hop) (c : Value) (hold : v.child? step = some old)
    (hkeys : ∀ entries, v.entries? = some entries → (Entries.keys entries).Nodup) (node : Nat) :
    hop.finds (v.withChild node step c) = (hop.finds v).map (List.map (changeAt step c)) := by
  have hchildAt := fun step' => childAt_withChild (c := c) hold node step'
  cases hop with
  | key name => exact congrArg Except.ok (hchildAt _)
  | index i =>
    unfold Value.child? at hold
    split at hold
    · rename_i n items j
      have hj : j < items.length := (List.getElem?_eq_some_iff.1 hold).1
      have hlength : (setItem items j c).length = items.length := by
        rw [setItem, if_pos hj, List.length_set]
      refine congrArg Except.ok ?_
      rw [hlength, List.map_flatMap]
      exact congrArg (List.flatMap · _) (funext fun p => hchildAt (.index p))
    · exact congrArg Except.ok (hchildAt _)
    · cases hold
  | spread => exact congrArg Except.ok (children_withChild hold hkeys node)

/-! ### Where hops lead to -/

theorem positions_cons_of_error {e : EvalError} (h : hop.finds v = .error e) (hops : List Hop) :
    positions (hop :: hops) v = [.error e] := by
  rw [positions, h]

theorem positions_cons {found : List (Value × Step)} (h : hop.finds v = .ok found)
    (hops : List Hop) :
    positions (hop :: hops) v =
      found.flatMap fun c => (positions hops c.1).map (Except.map (c.2 :: ·)) := by
  rw [positions, h]

/-- A position of more hops is a step that the first hop takes, and then a position behind it. -/
theorem ok_mem_positions_cons {p : Path} :
    .ok p ∈ positions (hop :: hops) v ↔
      ∃ found, hop.finds v = .ok found ∧ ∃ d ∈ found, ∃ q, .ok q ∈ positions hops d.1 ∧
        p = d.2 :: q := by
  cases hfound : hop.finds v with
  | error e => simp [positions_cons_of_error hfound]
  | ok found =>
    rw [positions_cons hfound]
    simp only [List.mem_flatMap, List.mem_map, Except.ok.injEq, exists_eq_left']
    constructor
    · rintro ⟨d, hd, i, hi, hip⟩
      cases i with
      | error e => cases hip
      | ok q => exact ⟨d, hd, q, hi, (Except.ok.inj hip).symm⟩
    · rintro ⟨d, hd, q, hq, rfl⟩
      exact ⟨d, hd, .ok q, hq, rfl⟩

theorem length_of_mem_positions {p : Path} (h : .ok p ∈ positions hops v) :
    p.length = hops.length := by
  induction hops generalizing v p with
  | nil => cases List.mem_singleton.1 h; rfl
  | cons hop hops ih =>
    obtain ⟨found, -, d, -, q, hq, rfl⟩ := ok_mem_positions_cons.1 h
    rw [List.length_cons, ih hq, List.length_cons]

/-- There is a value at every position. -/
theorem get?_of_mem_positions (cells : Cells) (hv : v.PlainTo hops.length) {p : Path}
    (h : .ok p ∈ positions hops v) : ∃ w, Path.get? cells p v = some w := by
  induction hops generalizing v p with
  | nil => cases List.mem_singleton.1 h; exact ⟨v, rfl⟩
  | cons hop hops ih =>
    obtain ⟨found, hfound, d, hd, q, hq, rfl⟩ := ok_mem_positions_cons.1 h
    have hchild := child?_of_mem_finds hv.2.1 hfound d hd
    obtain ⟨w, hw⟩ := ih (hv.child? hchild) hq
    exact ⟨w, Path.get?_cons_eq_some.2 ⟨d.1, by rw [hv.resolve, hchild], hw⟩⟩

/-- No position occurs twice. -/
theorem pairwise_positions (hv : v.PlainTo hops.length) :
    (positions hops v).Pairwise fun a b => ∀ p, a = .ok p → b ≠ .ok p := by
  induction hops generalizing v with
  | nil => exact List.pairwise_singleton _ _
  | cons hop hops ih =>
    cases hfound : hop.finds v with
    | error e =>
      rw [positions_cons_of_error hfound]
      exact List.pairwise_singleton _ _
    | ok found =>
      rw [positions_cons hfound, List.pairwise_flatMap]
      -- Behind one child the positions differ by induction, behind two children in their first step.
      refine ⟨fun d hd => ?_, (pairwise_finds hv.2.1 hfound).imp ?_⟩
      · have hchild := child?_of_mem_finds hv.2.1 hfound d hd
        refine List.pairwise_map.2 ((ih (hv.child? hchild)).imp ?_)
        rintro (_ | p) (_ | q) hpq _ ⟨⟩ hq
        · cases hq
        · cases hq
          exact hpq p rfl rfl
      · rintro a b hab x hx y hy p rfl rfl
        obtain ⟨i, -, hi⟩ := List.mem_map.1 hx
        obtain ⟨j, -, hj⟩ := List.mem_map.1 hy
        cases i with
        | error e => cases hi
        | ok q =>
          cases j with
          | error e => cases hj
          | ok r => exact hab (List.cons.inj (Except.ok.inj (hi.trans hj.symm))).1

/-- Putting anything at a position leaves all positions as they are. -/
theorem positions_put (hv : v.PlainTo hops.length) {p : Path} (hp : p.length = hops.length)
    (hold : Path.get? cells p v = some old) (fresh : Nat) (new : Value) :
    positions hops (Path.put cells fresh p v new) = positions hops v := by
  induction hops generalizing v p with
  | nil => rfl
  | cons hop hops ih =>
    cases p with
    | nil => cases hp
    | cons step rest =>
      obtain ⟨c, hc, hold⟩ := Path.get?_cons_eq_some.1 hold
      rw [Path.put_cons hc, hv.resolve]
      rw [hv.resolve] at hc
      cases hfound : hop.finds v with
      | error e =>
        have hfinds := finds_withChild hop (Path.put cells fresh rest c new) hc hv.2.1
          (fresh + rest.length)
        rw [hfound] at hfinds
        rw [positions_cons_of_error hfound, positions_cons_of_error hfinds]
      | ok found =>
        have hfinds := finds_withChild hop (Path.put cells fresh rest c new) hc hv.2.1
          (fresh + rest.length)
        rw [hfound] at hfinds
        rw [positions_cons hfound, positions_cons hfinds, List.flatMap_map,
          List.flatMap_def, List.flatMap_def]
        -- Only behind `step` anything has changed, and there the induction applies.
        refine congrArg List.flatten (List.map_congr_left fun d hd => ?_)
        unfold changeAt
        split
        · rename_i hstep
          have hchild := child?_of_mem_finds hv.2.1 hfound d hd
          rw [hstep, hc] at hchild
          rw [ih (hv.child? hc) (Nat.succ.inj hp) hold, Option.some.inj hchild, hstep]
        · rfl

end Hop

end DataExpr
