import DataExpr.Proofs.Matcher.Lawful

/-!
# Keys, positions and children are lenses

A key, a position and the children of a focus are places in a container (`Slot`).  Filling a place
makes a container in which it is filled, also where there was nothing: a key goes to the end of a
map or into a new one, a position to the end of a list after undefined items, or into a new list.
So what has been filled in is found there and may be filled in again.

Where there is nothing, putting undefined is not filling (`Matcher.absent`): it leaves the focus as
it is, and then nothing has changed.
-/

namespace DataExpr

namespace Entries

variable {α : Type}

/-- Writing to a key twice is writing the second value. -/
theorem insert_insert (es : Entries α) (key : String) (v w : α) :
    insert (insert es key v) key w = insert es key w := by
  induction es with
  | nil => simp [insert]
  | cons e es ih =>
    by_cases h : e.1 = key
    · simp [insert, h]
    · simp [insert, h, ih]

end Entries

/-! ### Lists that are filled -/

section

variable (items : List Value) (i : Nat) (v w : Value)

theorem length_setItem : (setItem items i v).length = max items.length (i + 1) := by
  unfold setItem
  split
  · rw [List.length_set]
    omega
  · simp only [List.length_append, List.length_replicate, List.length_singleton]
    omega

theorem getElem?_setItem_self : (setItem items i v)[i]? = some v := by
  unfold setItem
  split
  · rename_i h
    rw [List.getElem?_set_self h]
  · rename_i h
    have hlength : (items ++ List.replicate (i - items.length) Value.undefined).length = i := by
      simp only [List.length_append, List.length_replicate]
      omega
    rw [List.getElem?_append_right (by omega), hlength, Nat.sub_self]
    rfl

/-- A list that is written to has the items that it had at all other positions, and undefined ones where
it had none. -/
theorem getD_setItem (j : Nat) :
    (setItem items i v).getD j .undefined = if j = i then v else items.getD j .undefined := by
  rw [List.getD_eq_getElem?_getD, List.getD_eq_getElem?_getD]
  split
  · rename_i hj
    rw [hj, getElem?_setItem_self, Option.getD_some]
  · rename_i hj
    unfold setItem
    split
    · rw [List.getElem?_set_ne (Ne.symm hj)]
    rw [List.append_assoc]
    rcases Nat.lt_or_ge j items.length with hlt | hge
    · rw [List.getElem?_append_left hlt]
    · rw [List.getElem?_append_right hge, List.getElem?_eq_none hge]
      rcases Nat.lt_or_ge (j - items.length) (i - items.length) with hgap | hgap
      · rw [List.getElem?_append_left (by rwa [List.length_replicate]), List.getElem?_replicate,
          if_pos hgap]
        rfl
      · rw [List.getElem?_eq_none (by
          rw [List.length_append, List.length_replicate, List.length_singleton]
          omega)]

theorem setItem_setItem : setItem (setItem items i v) i w = setItem items i w := by
  have hlt : i < (setItem items i v).length := by
    rw [length_setItem]
    omega
  rw [setItem, if_pos hlt]
  unfold setItem
  split
  · rw [List.set_set]
  · rename_i h
    have hlength : (items ++ List.replicate (i - items.length) Value.undefined).length = i := by
      simp only [List.length_append, List.length_replicate]
      omega
    rw [List.set_append_right _ _ (by omega), hlength, Nat.sub_self]
    rfl

theorem map_content_setItem :
    (setItem items i v).map Value.content = setItem (items.map Value.content) i v.content := by
  unfold setItem
  rw [List.length_map]
  split
  · rw [List.map_set]
  · rw [List.map_append, List.map_append, List.map_replicate]
    rfl

end

namespace Matcher

open Eval (Same)

variable {cells : Cells} {items : Value → Items} {focus : Value} {k : Nat}
variable {fill : Value → Eval Value}

/-! ### Places -/

/-- Whether `fill` puts values in the place of the item at a position. -/
structure Slot (cells : Cells) (items : Value → Items) (focus : Value) (k : Nat)
    (fill : Value → Eval Value) : Prop where
  congr : ∀ {x y}, x.content = y.content → Same cells (fill x) (fill y)
  defined : ∀ {v u s t}, fill v cells s = (.ok u, t) → u ≠ .undefined
  put : focus.WellFormed → ∀ {v u s t}, fill v cells s = (.ok u, t) →
    values (items u) = (values (items focus)).set k (.ok v) ∧
      ∃ m', (items u)[k]? = some (.ok m') ∧ ∀ w, Same cells (m'.replace w) (fill w)

/-- A place that nothing can be put into. -/
theorem Slot.throw (e : EvalError) : Slot cells items focus k fun _ => throw e :=
  ⟨fun _ => .throw e, nofun, fun _ => nofun⟩

theorem same_newMapWith {entries entries' : List (String × Value)} {name : String} {v w : Value}
    (h : Entries.mapValues Value.content (Entries.insert entries name v) =
      Entries.mapValues Value.content (Entries.insert entries' name w)) :
    Same cells (newMapWith entries name v : Run Value)
      (newMapWith entries' name w : Run Value) := by
  intro s t
  show Except.ok (Value.content (.map _ _)) = Except.ok (Value.content (.map _ _))
  rw [Value.content_map, Value.content_map, h]

theorem same_newListWith {vs vs' : List Value} {i : Nat} {v w : Value}
    (h : (setItem vs i v).map Value.content = (setItem vs' i w).map Value.content) :
    Same cells (newListWith vs i v : Run Value) (newListWith vs' i w : Run Value) := by
  intro s t
  show Except.ok (Value.content (.list _ _)) = Except.ok (Value.content (.list _ _))
  rw [Value.content_list, Value.content_list, h]

/-- A key of a map that is there or can be added. -/
theorem Slot.of_map {entries : List (String × Value)} {name : String}
    (hput : focus.WellFormed → ∀ node v,
      values (items (.map node (Entries.insert entries name v))) =
        (values (items focus)).set k (.ok v) ∧
      (items (.map node (Entries.insert entries name v)))[k]? =
        some (.ok ⟨v, fun new => newMapWith (Entries.insert entries name v) name new⟩)) :
    Slot cells items focus k fun new => newMapWith entries name new where
  congr {x y} h := by
    refine same_newMapWith ?_
    rw [Entries.mapValues_insert, Entries.mapValues_insert, h]
  defined {v u s t} h := by
    cases h
    exact nofun
  put hf {v u s t} h := by
    cases h
    obtain ⟨hvalues, hfound⟩ := hput hf s.nextNode v
    refine ⟨hvalues, _, hfound, fun w => ?_⟩
    refine same_newMapWith ?_
    rw [Entries.insert_insert]

/-- A position of a list that is there or can be added. -/
theorem Slot.of_list {vs : List Value} {i : Nat}
    (hput : ∀ node v,
      values (items (.list node (setItem vs i v))) = (values (items focus)).set k (.ok v) ∧
      (items (.list node (setItem vs i v)))[k]? =
        some (.ok ⟨v, fun new => newListWith (setItem vs i v) i new⟩)) :
    Slot cells items focus k fun new => newListWith vs i new where
  congr {x y} h := by
    refine same_newListWith ?_
    rw [map_content_setItem, map_content_setItem, h]
  defined {v u s t} h := by
    cases h
    exact nofun
  put hf {v u s t} h := by
    cases h
    obtain ⟨hvalues, hfound⟩ := hput s.nextNode v
    refine ⟨hvalues, _, hfound, fun w => ?_⟩
    refine same_newListWith ?_
    rw [setItem_setItem]

/-- The only item of a focus, and the only one after a value has been put in its place. -/
theorem put_single {m m' : Match} {v u : Value} (hfocus : items focus = [.ok m])
    (hu : items u = [.ok m']) (hvalue : m'.value = v) :
    values (items u) = (values (items focus)).set 0 (.ok v) ∧ (items u)[0]? = some (.ok m') := by
  rw [hfocus, hu, ← hvalue]
  exact ⟨rfl, rfl⟩

theorem eq_of_getElem?_singleton {m m' : Match}
    (h : ([.ok m] : Items)[k]? = some (.ok m')) : k = 0 ∧ m = m' := by
  cases k with
  | zero => exact ⟨rfl, Except.ok.inj (Option.some.inj h)⟩
  | succ k => cases h

/-! ### Places that are empty -/

theorem replace_absent {w : Value} (hw : w ≠ .undefined) (focus : Value)
    (fill : Value → Eval Value) : (absent focus fill).replace w = fill w := by
  cases w with
  | undefined => exact absurd rfl hw
  | _ => rfl

theorem eq_undefined_of_content_eq {v : Value} (h : v.content = .undefined) : v = .undefined := by
  cases v with
  | undefined => rfl
  | _ => simp [Value.content] at h

/-- Whether the match is a child of the focus whose place is filled, or an empty place, which is
left alone if undefined is put there. -/
inductive Fills (cells : Cells) (focus : Value) (fill : Value → Eval Value) : Match → Prop where
  | present (step : Step) {v : Value} (h : (v, step) ∈ (cells.resolve focus).children) :
      Fills cells focus fill ⟨v, fill⟩
  | absent : Fills cells focus fill (absent focus fill)

variable {m : Match}

theorem Fills.congr (h : Fills cells focus fill m) (hslot : Slot cells items focus k fill)
    {x y : Value} (hxy : x.content = y.content) : Same cells (m.replace x) (m.replace y) := by
  cases h with
  | present step h => exact hslot.congr hxy
  | absent =>
    by_cases hx : x = .undefined
    · subst hx
      obtain rfl := eq_undefined_of_content_eq hxy.symm
      exact .pure rfl
    · have hy : y ≠ .undefined := by
        rintro rfl
        exact hx (eq_undefined_of_content_eq hxy)
      rw [replace_absent hx, replace_absent hy]
      exact hslot.congr hxy

theorem Fills.replace (h : Fills cells focus fill m) {w : Value} (hw : w ≠ .undefined) :
    m.replace w = fill w := by
  cases h with
  | present step h => rfl
  | absent => exact replace_absent hw focus fill

/-- Putting a value in a place fills it, unless it is undefined and the focus stays as it is. -/
theorem Fills.cases (h : Fills cells focus fill m) {v u : Value} {s t : Session}
    (hput : m.replace v cells s = (.ok u, t)) :
    fill v cells s = (.ok u, t) ∨ m.value = .undefined ∧ v = .undefined ∧ u = focus := by
  cases h with
  | present step h => exact .inl hput
  | absent =>
    by_cases hv : v = .undefined
    · subst hv
      cases hput
      exact .inr ⟨rfl, rfl, rfl⟩
    · rw [replace_absent hv] at hput
      exact .inl hput

theorem Fills.wellFormed (h : Fills cells focus fill m) (hf : (cells.resolve focus).WellFormed) :
    m.value.WellFormed := by
  cases h with
  | present step h => exact hf.child h
  | absent => exact Value.plain_undefined.wellFormed

/-- What is read through cells is well-formed if the cells are. -/
theorem wellFormed_resolve (hcells : ∀ id, (cells.read id).WellFormed) (hf : focus.WellFormed) :
    (cells.resolve focus).WellFormed := by
  have hfollow : ∀ n {v : Value}, v.WellFormed → (cells.follow n v).WellFormed := by
    intro n
    induction n with
    | zero => exact fun hv => hv
    | succ n ih =>
      intro v hv
      cases v with
      | cell id => exact ih (hcells id)
      | _ => exact hv
  exact hfollow Cells.reach hf

/-- Items of which each fills a place are lenses. -/
theorem Lawful.of_slots (hcells : ∀ id, (cells.read id).WellFormed)
    (hslots : ∀ {focus k m}, (items focus)[k]? = some (.ok m) →
      ∃ fill, Slot cells items focus k fill ∧ Fills cells focus fill m) : Lawful cells items where
  wellFormed {focus m} hf hm := by
    obtain ⟨k, hk⟩ := List.getElem?_of_mem hm
    obtain ⟨fill, -, hfills⟩ := hslots hk
    exact hfills.wellFormed (wellFormed_resolve hcells hf)
  congr {focus m x y} hm hxy := by
    obtain ⟨k, hk⟩ := List.getElem?_of_mem hm
    obtain ⟨fill, hslot, hfills⟩ := hslots hk
    exact hfills.congr hslot hxy
  defined {focus m w u s t} hm hw h := by
    obtain ⟨k, hk⟩ := List.getElem?_of_mem hm
    obtain ⟨fill, hslot, hfills⟩ := hslots hk
    rw [hfills.replace hw] at h
    exact hslot.defined h
  put {focus k m v u s t} hf hk h := by
    obtain ⟨fill, hslot, hfills⟩ := hslots hk
    rcases hfills.cases h with hfill | ⟨hvalue, rfl, rfl⟩
    · obtain ⟨hvalues, m', hm', hsame⟩ := hslot.put hf hfill
      refine ⟨hvalues, m', hm', fun w hw => ?_⟩
      rw [hfills.replace hw]
      exact hsame w
    · -- Nothing has been put, so nothing has changed.
      refine ⟨?_, m, hk, fun w _ => hfills.congr hslot rfl⟩
      have hold : (values (items u))[k]? = some (.ok .undefined) := by
        rw [values, List.getElem?_map, hk, Option.map_some, Except.map, hvalue]
      obtain ⟨hlt, hget⟩ := List.getElem?_eq_some_iff.1 hold
      rw [← hget, List.set_getElem_self]

/-! ### Keys -/

/-- The items of a key. -/
def keyItems (cells : Cells) (name : String) (optional : Bool) (focus : Value) : Items :=
  match cells.resolve focus with
  | .map _ entries =>
    match Entries.get? entries name with
    | some found => [.ok ⟨found, fun new => newMapWith entries name new⟩]
    | none => if optional then [.ok (absent focus fun new => newMapWith entries name new)] else []
  | other =>
    if !optional then []
    else if other.isNullish then [.ok (absent focus fun new => newMapWith [] name new)]
    else [.ok (absent focus fun _ => throw (.typeMismatch "object" (cells.typeName other)))]

theorem finds_key (name : String) (optional : Bool) :
    Finds cells (key name optional) (keyItems cells name optional) := by
  intro focus s
  simp only [key, keyItems, Run.bind_apply, Run.resolve_apply]
  cases cells.resolve focus with
  | map node entries =>
    cases hget : Entries.get? entries name with
    | some found =>
      simp only [hget]
      exact ⟨.single _, rfl⟩
    | none =>
      simp only [hget]
      cases optional with
      | true => exact ⟨.single _, rfl⟩
      | false => exact ⟨.empty, rfl⟩
  | _ =>
    cases optional with
    | true => exact ⟨.single _, rfl⟩
    | false => exact ⟨.empty, rfl⟩

theorem keyItems_insert (name : String) (optional : Bool) (node : Nat)
    (entries : List (String × Value)) (v : Value) :
    keyItems cells name optional (.map node (Entries.insert entries name v)) =
      [.ok ⟨v, fun new => newMapWith (Entries.insert entries name v) name new⟩] := by
  rw [keyItems, cells.resolve_of_ne_cell (by simp)]
  simp only [Entries.get?_insert, if_true]

/-- Where keys are looked for, whatever is found fills a place. -/
theorem fills_of_keyItems {name : String} {optional : Bool}
    (hk : (keyItems cells name optional focus)[k]? = some (.ok m))
    (hfocus : items focus = keyItems cells name optional focus)
    (hitems : ∀ node entries v, items (.map node (Entries.insert entries name v)) =
      [.ok ⟨v, fun new => newMapWith (Entries.insert entries name v) name new⟩]) :
    ∃ fill, Slot cells items focus k fill ∧ Fills cells focus fill m := by
  -- Any map that the key is written to has it as its only item, so filling in is always the same.
  have hslot : ∀ {m}, items focus = [.ok m] → ∀ entries,
      Slot cells items focus 0 fun new => newMapWith entries name new :=
    fun hfocus entries => .of_map fun _ node v => put_single hfocus (hitems node entries v) rfl
  rw [keyItems] at hk hfocus
  cases hresolve : cells.resolve focus with
  | map node entries =>
    cases hget : Entries.get? entries name with
    | some found =>
      simp only [hresolve, hget] at hk hfocus
      obtain ⟨rfl, rfl⟩ := eq_of_getElem?_singleton hk
      refine ⟨_, hslot hfocus entries, .present (.key name) ?_⟩
      rw [hresolve]
      exact Value.mem_children_of_child? hget
    | none =>
      simp only [hresolve, hget] at hk hfocus
      cases optional with
      | true =>
        obtain ⟨rfl, rfl⟩ := eq_of_getElem?_singleton hk
        exact ⟨_, hslot hfocus entries, .absent⟩
      | false => cases hk
  | undefined | null =>
    simp only [hresolve] at hk hfocus
    cases optional with
    | true =>
      obtain ⟨rfl, rfl⟩ := eq_of_getElem?_singleton hk
      exact ⟨_, hslot hfocus [], .absent⟩
    | false => cases hk
  | _ =>
    simp only [hresolve] at hk
    cases optional with
    | true =>
      obtain ⟨rfl, rfl⟩ := eq_of_getElem?_singleton hk
      exact ⟨_, .throw _, .absent⟩
    | false => cases hk

theorem lawful_key (hcells : ∀ id, (cells.read id).WellFormed) (name : String) (optional : Bool) :
    Lawful cells (keyItems cells name optional) :=
  .of_slots hcells fun hk =>
    fills_of_keyItems hk rfl fun node entries v => keyItems_insert name optional node entries v

/-! ### Positions -/

/-- The items of a position. -/
def indexItems (cells : Cells) (i : Int64) (optional : Bool) (focus : Value) : Items :=
  match cells.resolve focus with
  | .list _ vs =>
    match (position? i vs.length).bind fun p => vs[p]?.map (p, ·) with
    | some (p, found) => [.ok ⟨found, fun new => newListWith vs p new⟩]
    | none => if optional then [.ok (absentItem focus vs i)] else []
  | .map .. => keyItems cells (toString i.toInt) optional focus
  | other =>
    if optional && other.isNullish then [.ok (absentItem focus [] i)]
    else [.error (.typeMismatch "array" (cells.typeName other))]

theorem finds_index (i : Int64) (optional : Bool) :
    Finds cells (index i optional) (indexItems cells i optional) := by
  intro focus s
  simp only [index, indexItems, Run.bind_apply, Run.resolve_apply]
  cases cells.resolve focus with
  | list node vs =>
    cases hfound : (position? i vs.length).bind fun p => vs[p]?.map (p, ·) with
    | some found =>
      simp only [hfound]
      exact ⟨.single _, rfl⟩
    | none =>
      simp only [hfound]
      cases optional with
      | true => exact ⟨.single _, rfl⟩
      | false => exact ⟨.empty, rfl⟩
  | map node entries => exact finds_key _ optional focus s
  | undefined | null =>
    cases optional with
    | true => exact ⟨.single _, rfl⟩
    | false => exact ⟨.failed _, rfl⟩
  | _ =>
    cases optional with
    | true => exact ⟨.failed _, rfl⟩
    | false => exact ⟨.failed _, rfl⟩

/-- A position that has been filled is the same one in the list that is there then. -/
theorem position?_setItem {i : Int64} {vs : List Value} {p : Nat}
    (hp : position? i vs.length = some p) (v : Value) :
    position? i (setItem vs p v).length = some p := by
  rw [length_setItem]
  simp only [position?] at hp ⊢
  split at hp
  · rename_i h
    rw [if_pos h]
    exact hp
  · rename_i hneg
    split at hp
    · -- Counted from the end the position is inside the list, which keeps its length.
      have hmax : max vs.length (p + 1) = vs.length := by
        have := Option.some.inj hp
        omega
      rw [hmax, if_neg hneg, if_pos ‹_›]
      exact hp
    · cases hp

theorem indexItems_setItem {i : Int64} {vs : List Value} {p : Nat}
    (hp : position? i vs.length = some p) (optional : Bool) (node : Nat) (v : Value) :
    indexItems cells i optional (.list node (setItem vs p v)) =
      [.ok ⟨v, fun new => newListWith (setItem vs p v) p new⟩] := by
  rw [indexItems, cells.resolve_of_ne_cell (by simp)]
  simp only [position?_setItem hp, Option.bind_some, getElem?_setItem_self, Option.map_some]

/-- The place of an item that a list does not have: it is filled if it is not too far away. -/
theorem exists_absentItem (focus : Value) (vs : List Value) (i : Int64) :
    (∃ p, position? i vs.length = some p ∧
      absentItem focus vs i = absent focus fun new => newListWith vs p new) ∨
    ∃ e, absentItem focus vs i = absent focus fun _ => throw e := by
  cases hp : position? i vs.length with
  | none =>
    right
    refine ⟨.indexOutOfBounds i.toInt vs.length, ?_⟩
    simp only [absentItem, hp]
  | some p =>
    by_cases hfill : p - vs.length ≤ maxFill
    · left
      refine ⟨p, rfl, ?_⟩
      simp only [absentItem, hp, if_pos hfill]
    · right
      refine ⟨.indexOutOfBounds i.toInt vs.length, ?_⟩
      simp only [absentItem, hp, if_neg hfill]

/-- An item that is the only one of a focus and that a list does not have. -/
theorem fills_absentItem {i : Int64} {optional : Bool} {vs : List Value}
    (hfocus : indexItems cells i optional focus = [.ok (absentItem focus vs i)]) :
    ∃ fill, Slot cells (indexItems cells i optional) focus 0 fill ∧
      Fills cells focus fill (absentItem focus vs i) := by
  rcases exists_absentItem focus vs i with ⟨p, hp, habsent⟩ | ⟨e, habsent⟩
  · rw [habsent] at hfocus ⊢
    refine ⟨_, .of_list fun node v => ?_, .absent⟩
    exact put_single hfocus (indexItems_setItem hp optional node v) rfl
  · rw [habsent]
    exact ⟨_, .throw e, .absent⟩

theorem fills_of_indexItems {i : Int64} {optional : Bool}
    (hk : (indexItems cells i optional focus)[k]? = some (.ok m)) :
    ∃ fill, Slot cells (indexItems cells i optional) focus k fill ∧ Fills cells focus fill m := by
  have hfocus := indexItems.eq_def cells i optional focus
  cases hresolve : cells.resolve focus with
  | list node vs =>
    cases hfound : (position? i vs.length).bind fun p => vs[p]?.map (p, ·) with
    | some found =>
      obtain ⟨p, hp, hitem⟩ := Option.bind_eq_some_iff.1 hfound
      obtain ⟨v, hv, rfl⟩ := Option.map_eq_some_iff.1 hitem
      simp only [hresolve, hfound] at hfocus
      rw [hfocus] at hk
      obtain ⟨rfl, rfl⟩ := eq_of_getElem?_singleton hk
      refine ⟨_, .of_list fun node v => ?_, .present (.index p) ?_⟩
      · exact put_single hfocus (indexItems_setItem hp optional node v) rfl
      · rw [hresolve]
        exact Value.mem_children_of_child? hv
    | none =>
      simp only [hresolve, hfound] at hfocus
      rw [hfocus] at hk
      cases optional with
      | true =>
        obtain ⟨rfl, rfl⟩ := eq_of_getElem?_singleton hk
        exact fills_absentItem hfocus
      | false => cases hk
  | map node entries =>
    simp only [hresolve] at hfocus
    rw [hfocus] at hk
    refine fills_of_keyItems hk hfocus fun node entries v => ?_
    rw [indexItems, cells.resolve_of_ne_cell (by simp)]
    exact keyItems_insert _ optional node entries v
  | undefined | null =>
    simp only [hresolve] at hfocus
    rw [hfocus] at hk
    cases optional with
    | true =>
      obtain ⟨rfl, rfl⟩ := eq_of_getElem?_singleton hk
      exact fills_absentItem hfocus
    | false => cases k <;> cases hk
  | _ =>
    simp only [hresolve] at hfocus
    rw [hfocus] at hk
    cases optional with
    | true => cases k <;> cases hk
    | false => cases k <;> cases hk

theorem lawful_index (hcells : ∀ id, (cells.read id).WellFormed) (i : Int64) (optional : Bool) :
    Lawful cells (indexItems cells i optional) :=
  .of_slots hcells fills_of_indexItems

/-! ### Children -/

/-- The matches of the items of a list. -/
def itemMatches (vs : List Value) : List Match :=
  vs.zipIdx.map fun (v, i) => ⟨v, fun new => newListWith vs i new⟩

/-- The matches of the values of a map. -/
def entryMatches (entries : List (String × Value)) : List Match :=
  entries.map fun (k, v) => ⟨v, fun new => newMapWith entries k new⟩

/-- The children of a focus as items. -/
def spreadItems (cells : Cells) (focus : Value) : Items :=
  match cells.resolve focus with
  | .list _ vs => (itemMatches vs).map .ok
  | .map _ entries => (entryMatches entries).map .ok
  | _ => []

theorem finds_spread : Finds cells spread (spreadItems cells) := by
  intro focus s
  simp only [spread, spreadItems, Run.bind_apply, Run.resolve_apply]
  cases cells.resolve focus with
  | list node vs => exact ⟨.ofList (itemMatches vs), rfl⟩
  | map node entries => exact ⟨.ofList (entryMatches entries), rfl⟩
  | _ => exact ⟨.empty, rfl⟩

theorem getElem?_itemMatches (vs : List Value) (k : Nat) :
    (itemMatches vs)[k]? = vs[k]?.map fun v => ⟨v, fun new => newListWith vs k new⟩ := by
  rw [itemMatches, List.getElem?_map, List.getElem?_zipIdx, Option.map_map, Nat.zero_add]
  rfl

theorem getElem?_entryMatches (entries : List (String × Value)) (k : Nat) :
    (entryMatches entries)[k]? =
      entries[k]?.map fun e => ⟨e.2, fun new => newMapWith entries e.1 new⟩ := by
  rw [entryMatches, List.getElem?_map]

theorem values_map_ok (ms : List Match) : values (ms.map .ok) = (ms.map Match.value).map .ok := by
  rw [values, List.map_map, List.map_map]
  rfl

theorem value_itemMatches (vs : List Value) : (itemMatches vs).map Match.value = vs := by
  refine List.ext_getElem? fun k => ?_
  rw [List.getElem?_map, getElem?_itemMatches, Option.map_map]
  cases vs[k]? <;> rfl

theorem value_entryMatches (entries : List (String × Value)) :
    (entryMatches entries).map Match.value = entries.map Prod.snd := by
  rw [entryMatches, List.map_map]
  rfl

/-- An item of a list keeps its position if it is changed. -/
theorem put_itemMatches {vs : List Value} {k : Nat} {old : Value} (hk : vs[k]? = some old)
    (v : Value) :
    values ((itemMatches (setItem vs k v)).map .ok) =
        (values ((itemMatches vs).map .ok)).set k (.ok v) ∧
      ((itemMatches (setItem vs k v)).map .ok : Items)[k]? =
        some (.ok ⟨v, fun new => newListWith (setItem vs k v) k new⟩) := by
  obtain ⟨hlt, -⟩ := List.getElem?_eq_some_iff.1 hk
  constructor
  · rw [values_map_ok, values_map_ok, value_itemMatches, value_itemMatches, setItem, if_pos hlt,
      List.map_set]
  · rw [List.getElem?_map, getElem?_itemMatches, getElem?_setItem_self]
    rfl

/-- An entry of a map keeps its position if its value is changed. -/
theorem put_entryMatches {entries : List (String × Value)} (hd : (Entries.keys entries).Nodup)
    {k : Nat} {name : String} {old : Value} (hk : entries[k]? = some (name, old)) (v : Value) :
    values ((entryMatches (Entries.insert entries name v)).map .ok) =
        (values ((entryMatches entries).map .ok)).set k (.ok v) ∧
      ((entryMatches (Entries.insert entries name v)).map .ok : Items)[k]? =
        some (.ok ⟨v, fun new => newMapWith (Entries.insert entries name v) name new⟩) := by
  obtain ⟨hlt, -⟩ := List.getElem?_eq_some_iff.1 hk
  have hset := Entries.insert_eq_set hd hk v
  constructor
  · rw [values_map_ok, values_map_ok, value_entryMatches, value_entryMatches, hset, List.map_set,
      List.map_set]
  · have hentry : (Entries.insert entries name v)[k]? = some (name, v) := by
      rw [hset, List.getElem?_set_self hlt]
    rw [List.getElem?_map, getElem?_entryMatches, hentry]
    rfl

theorem spreadItems_list (node : Nat) (vs : List Value) :
    spreadItems cells (.list node vs) = (itemMatches vs).map .ok := by
  rw [spreadItems, cells.resolve_of_ne_cell (by simp)]

theorem spreadItems_map (node : Nat) (entries : List (String × Value)) :
    spreadItems cells (.map node entries) = (entryMatches entries).map .ok := by
  rw [spreadItems, cells.resolve_of_ne_cell (by simp)]

theorem fills_of_spreadItems (hcells : ∀ id, (cells.read id).WellFormed)
    (hk : (spreadItems cells focus)[k]? = some (.ok m)) :
    ∃ fill, Slot cells (spreadItems cells) focus k fill ∧ Fills cells focus fill m := by
  have hfocus := spreadItems.eq_def cells focus
  cases hresolve : cells.resolve focus with
  | list node vs =>
    simp only [hresolve] at hfocus
    rw [hfocus, List.getElem?_map, getElem?_itemMatches, Option.map_map] at hk
    obtain ⟨v, hv, hm⟩ := Option.map_eq_some_iff.1 hk
    obtain rfl := Except.ok.inj hm
    refine ⟨_, .of_list fun node v => ?_, .present (.index k) ?_⟩
    · rw [spreadItems_list, hfocus]
      exact put_itemMatches hv _
    · rw [hresolve]
      exact Value.mem_children_of_child? hv
  | map node entries =>
    simp only [hresolve] at hfocus
    rw [hfocus, List.getElem?_map, getElem?_entryMatches, Option.map_map] at hk
    obtain ⟨⟨name, v⟩, he, hm⟩ := Option.map_eq_some_iff.1 hk
    obtain rfl := Except.ok.inj hm
    refine ⟨_, .of_map fun hf node v => ?_, .present (.key name) ?_⟩
    · have hwellFormed := wellFormed_resolve hcells hf
      rw [hresolve] at hwellFormed
      have hd : (Entries.keys entries).Nodup := hwellFormed.keys rfl
      rw [spreadItems_map, hfocus]
      exact put_entryMatches hd he v
    · rw [hresolve]
      exact Value.mem_children_map.2 ⟨name, List.mem_of_getElem? he, rfl⟩
  | _ =>
    simp only [hresolve] at hfocus
    rw [hfocus] at hk
    cases hk

theorem lawful_spread (hcells : ∀ id, (cells.read id).WellFormed) :
    Lawful cells (spreadItems cells) :=
  .of_slots hcells (fills_of_spreadItems hcells)

end Matcher

end DataExpr
