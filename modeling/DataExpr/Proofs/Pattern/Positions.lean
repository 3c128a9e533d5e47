import DataExpr.Proofs.Matcher.Lawful.Access
import DataExpr.Proofs.Matcher.Positions

/-!
# Positions and slices as patterns

What an index and a slice find in lists and texts, and what is made of a focus when something else is put
there, in terms of the integers that indices and bounds stand for (`Pattern.positions_exact`).
-/

namespace DataExpr.Pattern

open Matcher (place position? hostStart hostStop sliceRange Sliced absentItem replace_absent)

variable {cells : Cells} {focus v w : Value} {node p first last : Nat} {items : List Value} {i : Int64}
variable {start stop : Option Int64} {text : String} {s t : Session}

/-! ### Positions -/

theorem matchesIn_index_of_lt (hfocus : cells.resolve focus = .list node items)
    (hp : place i items.length = p) (hv : items[p]? = some v) (optional : Bool) (s : Session) :
    (index i optional).matchesIn focus cells s =
      (.single ⟨v, fun new => newListWith items p new⟩, s) := by
  have hfound : ((position? i items.length).bind fun p => items[p]?.map (p, ·)) = some (p, v) := by
    rw [Matcher.position?_eq_some_iff.2 hp, Option.bind_some, hv, Option.map_some]
  simp only [matchesIn, matcher, Matcher.index, Run.bind_apply, Run.resolve_apply, hfocus, hfound]
  rfl

theorem matchesIn_index_of_outside (hfocus : cells.resolve focus = .list node items)
    (hplace : place i items.length < 0 ∨ items.length ≤ place i items.length) (optional : Bool)
    (s : Session) :
    (index i optional).matchesIn focus cells s =
      (if optional then .single (absentItem focus items i) else .empty, s) := by
  have hfound : ((position? i items.length).bind fun p => items[p]?.map (p, ·)) = none := by
    rw [Option.bind_eq_none_iff]
    intro p hp
    rw [Matcher.position?_eq_some_iff] at hp
    rw [List.getElem?_eq_none (by omega), Option.map_none]
  simp only [matchesIn, matcher, Matcher.index, Run.bind_apply, Run.resolve_apply, hfocus, hfound]
  rfl

/-- Writing past the end of a list fills the gap, if it is not too large. -/
theorem replace_absentItem (hp : place i items.length = p) (hfill : p ≤ items.length + 65536)
    (hw : w ≠ .undefined) (cells : Cells) (t : Session) :
    (absentItem focus items i).replace w cells t =
      (.ok (.list t.nextNode (setItem items p w)), { t with nextNode := t.nextNode + 1 }) := by
  have hgap : p - items.length ≤ Matcher.maxFill := Nat.sub_le_iff_le_add'.2 hfill
  rw [absentItem, replace_absent hw, Matcher.position?_eq_some_iff.2 hp]
  simp only [if_pos hgap]
  rfl

theorem replace_absentItem_of_outside
    (h : place i items.length < 0 ∨ (items.length + 65536 : Int) < place i items.length)
    (hw : w ≠ .undefined) (cells : Cells) (t : Session) :
    (absentItem focus items i).replace w cells t =
      (.error (.indexOutOfBounds i.toInt items.length), t) := by
  rw [absentItem, replace_absent hw]
  cases hposition : position? i items.length with
  | none => rfl
  | some p =>
    rw [Matcher.position?_eq_some_iff] at hposition
    have hgap : ¬ p - items.length ≤ Matcher.maxFill := by
      show ¬ p - items.length ≤ 65536
      omega
    simp only [if_neg hgap]
    rfl

/-- The match of an optional index in a list, and what comes of writing to it. -/
theorem exists_match_index (hfocus : cells.resolve focus = .list node items) (s : Session) :
    ∃ m, (index i true).matchesIn focus cells s = (.single m, s) ∧
      ∀ w ≠ .undefined, ∀ t,
        (place i items.length < 0 ∨ (items.length + 65536 : Int) < place i items.length →
          m.replace w cells t = (.error (.indexOutOfBounds i.toInt items.length), t)) ∧
        ∀ p : Nat, place i items.length = p → p ≤ items.length + 65536 →
          ∃ new, m.replace w cells t =
              (.ok (.list t.nextNode new), { t with nextNode := t.nextNode + 1 }) ∧
            new.length = max items.length (p + 1) ∧
            ∀ j, new.getD j .undefined = if j = p then w else items.getD j .undefined := by
  by_cases hplace : place i items.length < 0 ∨ items.length ≤ place i items.length
  -- Outside of the list the match is that of an absent item, which looks at the place again.
  · refine ⟨_, matchesIn_index_of_outside hfocus hplace true s, fun w hw t => ⟨?_, ?_⟩⟩
    · exact fun h => replace_absentItem_of_outside h hw cells t
    · intro p hp hfill
      exact ⟨_, replace_absentItem hp hfill hw cells t, length_setItem items p w,
        getD_setItem items p w⟩
  · obtain ⟨p, hp⟩ : ∃ p : Nat, place i items.length = p := ⟨_, (Int.toNat_of_nonneg (by omega)).symm⟩
    have hv : items[p]? = some items[p] := List.getElem?_eq_getElem (by omega)
    refine ⟨_, matchesIn_index_of_lt hfocus hp hv true s, fun w _ t => ⟨by omega, ?_⟩⟩
    intro q hq _
    obtain rfl : p = q := by omega
    exact ⟨setItem items p w, rfl, length_setItem items p w, getD_setItem items p w⟩

/-! ### Slices -/

/-- The match of a slice of a list. -/
def itemsBetween (items : List Value) (first last node : Nat) : Match :=
  ⟨.list node ((items.take last).drop first), fun new => do
    match ← Run.resolve new with
    | .list _ middle => Run.newList (items.take first ++ middle ++ items.drop last)
    | _ => Eval.mismatch "array" new⟩

/-- The match of a slice of a text. -/
def charsBetween (chars : List Char) (first last : Nat) : Match :=
  ⟨.str (String.ofList ((chars.take last).drop first)), fun new => do
    match ← Run.resolve new with
    | .str middle =>
      return .str (String.ofList (chars.take first ++ middle.toList ++ chars.drop last))
    | _ => Eval.mismatch "string" new⟩

theorem matchesIn_slice_list (hfocus : cells.resolve focus = .list node items)
    (hrange : sliceRange start stop items.length = (first, last)) (s : Session) :
    (slice start stop).matchesIn focus cells s =
      (.single (itemsBetween items first last s.nextNode), { s with nextNode := s.nextNode + 1 }) := by
  simp only [matchesIn, matcher, Matcher.slice, Run.bind_apply, Run.resolve_apply, hfocus, hrange]
  rfl

theorem matchesIn_slice_text (hfocus : cells.resolve focus = .str text)
    (hrange : sliceRange start stop text.toList.length = (first, last)) (s : Session) :
    (slice start stop).matchesIn focus cells s = (.single (charsBetween text.toList first last), s) := by
  simp only [matchesIn, matcher, Matcher.slice, Run.bind_apply, Run.resolve_apply, hfocus, hrange]
  rfl

theorem replace_itemsBetween {n : Nat} {new : List Value}
    (hw : cells.resolve w = .list node new) (t : Session) :
    (itemsBetween items first last n).replace w cells t =
      (.ok (.list t.nextNode (items.take first ++ new ++ items.drop last)),
        { t with nextNode := t.nextNode + 1 }) := by
  simp only [itemsBetween, Eval.bind_apply, Eval.lift_apply, Run.resolve_apply, hw]
  rfl

theorem replace_charsBetween {chars : List Char} {new : String}
    (hw : cells.resolve w = .str new) (t : Session) :
    (charsBetween chars first last).replace w cells t =
      (.ok (.str (String.ofList (chars.take first ++ new.toList ++ chars.drop last))), t) := by
  simp only [charsBetween, Eval.bind_apply, Eval.lift_apply, Run.resolve_apply, hw]
  rfl

/-- The match of a slice of a list, and what comes of replacing it by a list. -/
theorem exists_match_slice_list (hfocus : cells.resolve focus = .list node items)
    (start stop : Option Int64) (s : Session) :
    ∃ m pre middle suf, Sliced start stop items pre middle suf ∧
      (slice start stop).matchesIn focus cells s =
        (.single m, { s with nextNode := s.nextNode + 1 }) ∧
      m.value = .list s.nextNode middle ∧
      ∀ w n new t, cells.resolve w = .list n new → m.replace w cells t =
        (.ok (.list t.nextNode (pre ++ new ++ suf)), { t with nextNode := t.nextNode + 1 }) :=
  ⟨_, _, _, _, Matcher.sliced rfl, matchesIn_slice_list hfocus rfl s, rfl,
    fun _ _ _ t hw => replace_itemsBetween hw t⟩

/-- The match of a slice of a text, and what comes of replacing it by a text. -/
theorem exists_match_slice_text (hfocus : cells.resolve focus = .str text)
    (start stop : Option Int64) (s : Session) :
    ∃ m pre middle suf, text = pre ++ middle ++ suf ∧
      Sliced start stop text.toList pre.toList middle.toList suf.toList ∧
      (slice start stop).matchesIn focus cells s = (.single m, s) ∧ m.value = .str middle ∧
      ∀ w new t, cells.resolve w = .str new →
        m.replace w cells t = (.ok (.str (pre ++ new ++ suf)), t) := by
  obtain ⟨first, last, hrange⟩ : ∃ first last,
      sliceRange start stop text.toList.length = (first, last) := ⟨_, _, rfl⟩
  have hsliced := Matcher.sliced hrange
  refine ⟨charsBetween text.toList first last, .ofList (text.toList.take first),
    .ofList ((text.toList.take last).drop first), .ofList (text.toList.drop last), ?_, ?_,
    matchesIn_slice_text hfocus hrange s, rfl, fun w new t hw => ?_⟩
  · rw [← String.ofList_append, ← String.ofList_append, ← hsliced.eq_append, String.ofList_toList]
  · simpa only [String.toList_ofList] using hsliced
  · rw [replace_charsBetween hw t, String.ofList_append, String.ofList_append, String.ofList_toList]

/-- Indices and slices in lists and texts.  With words of 64 bits positions and lengths are computed
without overflow.  An index finds the item at its place and nothing outside of the list; what is written
to its place goes there, and is refused before the beginning of the list and too far past its end.  A
slice is what is between its bounds, and replacing it leaves what is before and after it. -/
theorem positions_exact (cells : Cells) (i : Int64) (start stop : Option Int64) (s : Session) :
    (∀ n m, Words.Signed n → Words.Signed m → Words.Exact i start stop n m) ∧
    (∀ focus node items, cells.resolve focus = .list node items →
      (∀ (p : Nat) v, place i items.length = p → items[p]? = some v → ∀ optional,
        ∃ m, (index i optional).matchesIn focus cells s = (.single m, s) ∧ m.value = v) ∧
      (place i items.length < 0 ∨ items.length ≤ place i items.length →
        (index i false).matchesIn focus cells s = (.empty, s) ∧
        ∃ m, (index i true).matchesIn focus cells s = (.single m, s) ∧ m.value = .undefined) ∧
      (∃ m, (index i true).matchesIn focus cells s = (.single m, s) ∧
        ∀ w ≠ .undefined, ∀ t,
          (place i items.length < 0 ∨ (items.length + 65536 : Int) < place i items.length →
            m.replace w cells t = (.error (.indexOutOfBounds i.toInt items.length), t)) ∧
          ∀ p : Nat, place i items.length = p → p ≤ items.length + 65536 →
            ∃ new, m.replace w cells t =
                (.ok (.list t.nextNode new), { t with nextNode := t.nextNode + 1 }) ∧
              new.length = max items.length (p + 1) ∧
              ∀ j, new.getD j .undefined = if j = p then w else items.getD j .undefined) ∧
      ∃ m pre middle suf, Sliced start stop items pre middle suf ∧
        (slice start stop).matchesIn focus cells s =
          (.single m, { s with nextNode := s.nextNode + 1 }) ∧
        m.value = .list s.nextNode middle ∧
        ∀ w n new t, cells.resolve w = .list n new → m.replace w cells t =
          (.ok (.list t.nextNode (pre ++ new ++ suf)), { t with nextNode := t.nextNode + 1 })) ∧
    ∀ focus text, cells.resolve focus = .str text →
      ∃ m pre middle suf, text = pre ++ middle ++ suf ∧
        Sliced start stop text.toList pre.toList middle.toList suf.toList ∧
        (slice start stop).matchesIn focus cells s = (.single m, s) ∧ m.value = .str middle ∧
        ∀ w new t, cells.resolve w = .str new →
          m.replace w cells t = (.ok (.str (pre ++ new ++ suf)), t) := by
  refine ⟨fun n m hn hm => Words.exact hn hm i start stop, fun focus node items hfocus =>
    ⟨?hits, ?misses, ?writes, ?slices⟩, fun focus text hfocus => ?texts⟩
  case hits =>
    intro p v hp hv optional
    exact ⟨_, matchesIn_index_of_lt hfocus hp hv optional s, rfl⟩
  case misses =>
    intro hplace
    exact ⟨matchesIn_index_of_outside hfocus hplace false s, _,
      matchesIn_index_of_outside hfocus hplace true s, rfl⟩
  case writes => exact exists_match_index hfocus s
  case slices => exact exists_match_slice_list hfocus start stop s
  case texts => exact exists_match_slice_text hfocus start stop s

/-- The last item of a list in a cell, writing far past its end, and the last two characters of a text. -/
theorem positions_exact_from_end :
    let cells : Cells := ⟨#[.list 5 [.int 1, .int 2, .int 3]]⟩
    let s : Session := ⟨6, #[]⟩
    cells.resolve (.cell 0) = .list 5 [.int 1, .int 2, .int 3] ∧
    Words.Signed 3 ∧ Words.Exact (-1) (some (-2)) none 3 3 ∧
    (∃ m, (index (-1) false).matchesIn (.cell 0) cells s = (.single m, s) ∧ m.value = .int 3) ∧
    (∃ m, (index 65540 true).matchesIn (.cell 0) cells s = (.single m, s) ∧
      m.replace .null cells s = (.error (.indexOutOfBounds 65540 3), s)) ∧
    ∃ m pre middle suf, "añb" = pre ++ middle ++ suf ∧
      Sliced (some (-2)) none "añb".toList pre.toList middle.toList suf.toList ∧
      (slice (some (-2)) none).matchesIn (.str "añb") cells s = (.single m, s) ∧
      m.value = .str middle ∧
      m.replace (.str "x") cells s = (.ok (.str (pre ++ "x" ++ suf)), s) := by
  intro cells s
  have hfocus : cells.resolve (.cell 0) = .list 5 [.int 1, .int 2, .int 3] := rfl
  have hsigned : Words.Signed 3 := by decide
  obtain ⟨hwords, hlist, htext⟩ := positions_exact cells (-1) (some (-2)) none s
  obtain ⟨-, hlist', -⟩ := positions_exact cells 65540 none none s
  obtain ⟨hhit, -⟩ := hlist (.cell 0) 5 _ hfocus
  obtain ⟨-, -, ⟨m, hm, hwrite⟩, -⟩ := hlist' (.cell 0) 5 _ hfocus
  obtain ⟨m', pre, middle, suf, happend, hsliced, hm', hvalue, hreplace⟩ := htext (.str "añb") _ rfl
  exact ⟨hfocus, hsigned, hwords 3 3 hsigned hsigned, hhit 2 (.int 3) rfl rfl false,
    ⟨m, hm, (hwrite .null nofun s).1 (by decide)⟩,
    m', pre, middle, suf, happend, hsliced, hm', hvalue, hreplace (.str "x") "x" s rfl⟩

end DataExpr.Pattern
