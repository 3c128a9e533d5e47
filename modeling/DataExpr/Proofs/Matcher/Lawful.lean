import DataExpr.Proofs.Findings.Yields
import DataExpr.Proofs.Lists
import DataExpr.Proofs.Matcher.Nesting

/-!
# Matchers that are lenses at every match

`Matcher.Finds cells m items` says what the matcher `m` finds in each focus while the cells hold
what they hold in `cells`, and `Matcher.Lawful cells items` what makes a lens of each item: a value
that has been put in the place of an item is found in that place, all other items keep their values,
and what is put there next does not depend on what was put there before.  Putting undefined is left
out of the last point, since it means nothing where nothing has been found.

The laws are about the whole list of items so that they carry over to matchers inside matchers
(`Lawful.nested`): an item of the nested list is known by the item around it and by its position
inside of that, and neither moves if the items before it keep their values.
-/

namespace DataExpr

variable {cells : Cells}

namespace Eval

/-- Whether two evaluations have one outcome, up to the numbers of containers, in whatever sessions
they are started. -/
def Same (cells : Cells) (x y : Eval Value) : Prop :=
  ∀ s t, (x cells s).1.map Value.content = (y cells t).1.map Value.content

theorem Same.trans {x y z : Eval Value} (hxy : Same cells x y) (hyz : Same cells y z) :
    Same cells x z :=
  fun s t => (hxy s s).trans (hyz s t)

theorem Same.pure {v w : Value} (h : v.content = w.content) :
    Same cells (Pure.pure v) (Pure.pure w) :=
  fun _ _ => congrArg Except.ok h

theorem Same.throw (e : EvalError) : Same cells (MonadExcept.throw e) (MonadExcept.throw e) :=
  fun _ _ => rfl

/-- What comes after two evaluations with one outcome has one outcome, if it has for all values that
may be in between. -/
theorem Same.bind {x y : Eval Value} {f g : Value → Eval Value} (h : Same cells x y)
    (hfg : ∀ a b s t, x cells s = (.ok a, t) → a.content = b.content → Same cells (f a) (g b)) :
    Same cells (x >>= f) (y >>= g) := by
  intro s t
  have hst := h s t
  rw [bind_apply, bind_apply]
  cases hx : x cells s with
  | mk outcome s' =>
    cases hy : y cells t with
    | mk outcome' t' =>
      rw [hx, hy] at hst
      cases outcome with
      | error e =>
        cases outcome' with
        | error e' => exact hst
        | ok b => cases hst
      | ok a =>
        cases outcome' with
        | error e' => cases hst
        | ok b => exact hfg a b s s' hx (Except.ok.inj hst) s' t'

end Eval

namespace Matcher

open Eval (Same)

/-- Items of a sequence of matches. -/
abbrev Items := List (Except EvalError Match)

/-- The values of the items. -/
def values (is : Items) : List (Except EvalError Value) := is.map (Except.map Match.value)

@[simp] theorem values_append (is js : Items) : values (is ++ js) = values is ++ values js :=
  List.map_append

@[simp] theorem values_cons (i : Except EvalError Match) (is : Items) :
    values (i :: is) = i.map Match.value :: values is := rfl

@[simp] theorem length_values (is : Items) : (values is).length = is.length := List.length_map _

/-- Whether the items are what the matcher finds in each focus, while the cells stay as they are. -/
def Finds (cells : Cells) (m : Matcher) (items : Value → Items) : Prop :=
  ∀ focus s, (m focus cells s).1.Yields cells (items focus) ∧
    (m focus cells s).2.nextNode = s.nextNode

/-- The laws of a lens for all items that are no errors. -/
structure Lawful (cells : Cells) (items : Value → Items) : Prop where
  wellFormed : ∀ {focus m}, focus.WellFormed → .ok m ∈ items focus → m.value.WellFormed
  /-- The outcome of putting a value depends on its content alone. -/
  congr : ∀ {focus m x y}, .ok m ∈ items focus → x.content = y.content →
    Same cells (m.replace x) (m.replace y)
  /-- Only putting undefined can make the focus undefined. -/
  defined : ∀ {focus m w u s t}, .ok m ∈ items focus → w ≠ .undefined →
    m.replace w cells s = (.ok u, t) → u ≠ .undefined
  /-- What has been put is found in its place, and everything else keeps its place and value. -/
  put : ∀ {focus k m v u s t}, focus.WellFormed → (items focus)[k]? = some (.ok m) →
    m.replace v cells s = (.ok u, t) →
    values (items u) = (values (items focus)).set k (.ok v) ∧
      ∃ m', (items u)[k]? = some (.ok m') ∧
        ∀ w, w ≠ .undefined → Same cells (m'.replace w) (m.replace w)

/-! ### The focus itself -/

theorem finds_whole : Finds cells (fun focus => return Matches.whole focus)
    fun focus => [.ok (.whole focus)] :=
  fun _ _ => ⟨.single _, rfl⟩

theorem lawful_whole : Lawful cells fun focus => [.ok (.whole focus)] where
  wellFormed {focus m} hf hm := by
    obtain rfl := Except.ok.inj (List.mem_singleton.1 hm)
    exact hf
  congr {focus m x y} hm h := by
    obtain rfl := Except.ok.inj (List.mem_singleton.1 hm)
    exact .pure h
  defined {focus m w u s t} hm hw h := by
    obtain rfl := Except.ok.inj (List.mem_singleton.1 hm)
    cases h
    exact hw
  put {focus k m v u s t} hf hm h := by
    cases k with
    | zero =>
      obtain rfl := Except.ok.inj (Option.some.inj hm)
      cases h
      exact ⟨rfl, .whole v, rfl, fun w _ => .pure rfl⟩
    | succ k => cases hm

/-! ### Items before and after -/

/-- What putting a value does to the items before and after. -/
theorem Lawful.put_split {items : Value → Items} (h : Lawful cells items) {focus v u : Value}
    {m : Match} {s t : Session} {pre post : Items} (hf : focus.WellFormed)
    (hm : items focus = pre ++ .ok m :: post) (hput : m.replace v cells s = (.ok u, t)) :
    ∃ pre' m' post', items u = pre' ++ .ok m' :: post' ∧ values pre' = values pre ∧
      values post' = values post ∧ m'.value = v ∧
      ∀ w, w ≠ .undefined → Same cells (m'.replace w) (m.replace w) := by
  have hk : (items focus)[pre.length]? = some (.ok m) := by rw [hm, Lists.getElem?_length]
  obtain ⟨hvalues, m', hm', hsame⟩ := h.put hf hk hput
  obtain ⟨pre', post', hsplit, hlength⟩ := Lists.split_of_getElem? hm'
  rw [hsplit, hm, values_append, values_append, values_cons, values_cons,
    ← length_values pre, Lists.set_length] at hvalues
  obtain ⟨hpre, hrest⟩ := List.append_inj hvalues (by simp [hlength])
  obtain ⟨hvalue, hpost⟩ := List.cons.inj hrest
  exact ⟨pre', m', post', hsplit, hpre, hpost, Except.ok.inj hvalue, hsame⟩

/-- Two lists of items around a match that agree in the values before it and after it. -/
theorem put_of_split {is js pre pre' post post' : Items} {m m' : Match}
    (h : is = pre ++ .ok m :: post) (h' : js = pre' ++ .ok m' :: post')
    (hpre : values pre' = values pre) (hpost : values post' = values post) :
    values js = (values is).set pre.length (.ok m'.value) ∧ js[pre.length]? = some (.ok m') := by
  have hlength : pre'.length = pre.length := by
    rw [← length_values pre', hpre, length_values]
  subst h
  subst h'
  constructor
  · rw [values_append, values_append, values_cons, values_cons, hpre, hpost, ← length_values pre,
      Lists.set_length]
    rfl
  · rw [← hlength, Lists.getElem?_length]

/-! ### Matchers inside matchers -/

/-- The items inside an item of another matcher. -/
def inner (items : Value → Items) : Except EvalError Match → Items :=
  Findings.expand fun m => (items m.value).map (Except.map m.inside)

/-- The items of a matcher inside the items of another one. -/
def nested (outer items : Value → Items) (focus : Value) : Items :=
  (outer focus).flatMap (inner items)

variable {outer items : Value → Items} {focus : Value}

theorem Finds.within {found : Value → Matches} {m : Matcher}
    (ho : Finds cells (fun focus => return found focus) outer) (hi : Finds cells m items) :
    Finds cells (fun focus => return m.within (found focus)) (nested outer items) := by
  intro focus s
  refine ⟨.bind (ho focus s).1 fun a _ s => ⟨?_, (hi a.value s).2⟩, rfl⟩
  exact (hi a.value s).1.map a.inside

theorem values_map_inside (m : Match) (is : Items) :
    values (is.map (Except.map m.inside)) = values is := by
  rw [values, List.map_map]
  refine List.map_congr_left fun i _ => ?_
  cases i <;> rfl

/-- The values of nested items depend on the values of the items around them alone. -/
theorem values_flatMap_inner (items : Value → Items) (is : Items) :
    values (is.flatMap (inner items)) =
      (values is).flatMap (Findings.expand fun v => values (items v)) := by
  induction is with
  | nil => rfl
  | cons i is ih =>
    rw [List.flatMap_cons, values_append, values_cons, List.flatMap_cons, ih]
    refine congrArg (· ++ _) ?_
    cases i with
    | error e => rfl
    | ok m => exact values_map_inside m _

theorem values_flatMap_inner_congr (items : Value → Items) {is js : Items}
    (h : values is = values js) :
    values (is.flatMap (inner items)) = values (js.flatMap (inner items)) := by
  rw [values_flatMap_inner, values_flatMap_inner, h]

/-- An item inside the items of a list is inside one of them. -/
theorem flatMap_expand_eq_append_cons {α β : Type} {g : α → List (Except EvalError β)} {b : β}
    {is : List (Except EvalError α)} {pre post : List (Except EvalError β)}
    (h : is.flatMap (Findings.expand g) = pre ++ .ok b :: post) :
    ∃ before a after first last, is = before ++ .ok a :: after ∧ g a = first ++ .ok b :: last ∧
      pre = before.flatMap (Findings.expand g) ++ first ∧
      post = last ++ after.flatMap (Findings.expand g) := by
  induction is generalizing pre with
  | nil => exact absurd h.symm (by simp)
  | cons i is ih =>
    -- Either the item comes after all that is inside the first one, or it is one of these.
    have hcases : (∃ pre', pre = Findings.expand g i ++ pre' ∧
        is.flatMap (Findings.expand g) = pre' ++ .ok b :: post) ∨
        ∃ last, Findings.expand g i = pre ++ .ok b :: last ∧
          post = last ++ is.flatMap (Findings.expand g) := by
      rw [List.flatMap_cons, List.append_eq_append_iff] at h
      rcases h with h | ⟨last, hi, hlast⟩
      · exact .inl h
      · cases last with
        | nil => exact .inl ⟨[], by simpa using hi.symm, hlast.symm⟩
        | cons b' last =>
          obtain ⟨rfl, rfl⟩ := List.cons.inj hlast
          exact .inr ⟨last, hi, rfl⟩
    rcases hcases with ⟨pre', rfl, hrest⟩ | ⟨last, hi, rfl⟩
    · obtain ⟨before, a, after, first, last, rfl, hg, rfl, rfl⟩ := ih hrest
      exact ⟨i :: before, a, after, first, last, rfl, hg, by simp, rfl⟩
    · cases i with
      | error e => simp [Findings.expand, List.cons_eq_append_iff] at hi
      | ok a => exact ⟨[], a, is, pre, last, rfl, hi, rfl, rfl⟩

/-- The items around an item that is inside another one. -/
theorem nested_eq {before after first last : Items} {mo mi : Match}
    (houter : outer focus = before ++ .ok mo :: after)
    (hitems : items mo.value = first ++ .ok mi :: last) :
    nested outer items focus =
      (before.flatMap (inner items) ++ first.map (Except.map mo.inside)) ++
        .ok (mo.inside mi) ::
          (last.map (Except.map mo.inside) ++ after.flatMap (inner items)) := by
  rw [nested, houter, List.flatMap_append, List.flatMap_cons, inner, Findings.expand, hitems,
    List.map_append, List.map_cons]
  simp only [List.append_assoc, List.cons_append]
  rfl

/-- Every item of the nested list is inside another one. -/
theorem nested_eq_append_cons {m : Match} {pre post : Items}
    (h : nested outer items focus = pre ++ .ok m :: post) :
    ∃ before mo after first last mi, outer focus = before ++ .ok mo :: after ∧
      items mo.value = first ++ .ok mi :: last ∧ m = mo.inside mi ∧
      pre = before.flatMap (inner items) ++ first.map (Except.map mo.inside) ∧
      post = last.map (Except.map mo.inside) ++ after.flatMap (inner items) := by
  obtain ⟨before, mo, after, first, last, houter, hinner, rfl, rfl⟩ :=
    flatMap_expand_eq_append_cons h
  obtain ⟨first, rest, hitems, rfl, hrest⟩ := List.map_eq_append_iff.1 hinner
  obtain ⟨i, last, rfl, hmi, rfl⟩ := List.map_eq_cons_iff.1 hrest
  cases i with
  | error e => cases hmi
  | ok mi => exact ⟨before, mo, after, first, last, mi, houter, hitems, (Except.ok.inj hmi).symm,
      rfl, rfl⟩

/-- The values before an item that is inside another one. -/
theorem values_before (items : Value → Items) {before before' first first' : Items} {m m' : Match}
    (hbefore : values before' = values before) (hfirst : values first' = values first) :
    values (before'.flatMap (inner items) ++ first'.map (Except.map m'.inside)) =
      values (before.flatMap (inner items) ++ first.map (Except.map m.inside)) := by
  rw [values_append, values_append, values_map_inside, values_map_inside, hfirst,
    values_flatMap_inner_congr items hbefore]

/-- The values after an item that is inside another one. -/
theorem values_after (items : Value → Items) {last last' after after' : Items} {m m' : Match}
    (hlast : values last' = values last) (hafter : values after' = values after) :
    values (last'.map (Except.map m'.inside) ++ after'.flatMap (inner items)) =
      values (last.map (Except.map m.inside) ++ after.flatMap (inner items)) := by
  rw [values_append, values_append, values_map_inside, values_map_inside, hlast,
    values_flatMap_inner_congr items hafter]

theorem ok_mem_nested {m : Match} (h : .ok m ∈ nested outer items focus) :
    ∃ mo mi, .ok mo ∈ outer focus ∧ .ok mi ∈ items mo.value ∧ m = mo.inside mi := by
  obtain ⟨i, hi, hm⟩ := List.mem_flatMap.1 h
  cases i with
  | error e => cases List.mem_singleton.1 hm
  | ok mo =>
    obtain ⟨j, hj, hjm⟩ := List.mem_map.1 hm
    cases j with
    | error e => cases hjm
    | ok mi => exact ⟨mo, mi, hi, hj, (Except.ok.inj hjm).symm⟩

/-- A lens inside a lens is a lens. -/
theorem Lawful.nested (ho : Lawful cells outer) (hi : Lawful cells items) :
    Lawful cells (nested outer items) where
  wellFormed {focus m} hf hm := by
    obtain ⟨mo, mi, hmo, hmi, rfl⟩ := ok_mem_nested hm
    have hvalue : mi.value.WellFormed := hi.wellFormed (ho.wellFormed hf hmo) hmi
    exact hvalue
  congr {focus m x y} hm h := by
    obtain ⟨mo, mi, hmo, hmi, rfl⟩ := ok_mem_nested hm
    exact (hi.congr hmi h).bind fun a b s t _ hab => ho.congr hmo hab
  defined {focus m w u s t} hm hw h := by
    obtain ⟨mo, mi, hmo, hmi, rfl⟩ := ok_mem_nested hm
    obtain ⟨x, s', hx, hu⟩ := Eval.bind_eq_ok h
    exact ho.defined hmo (hi.defined hmi hw hx) hu
  put {focus k m v u s t} hf hm h := by
    obtain ⟨pre, post, hsplit, rfl⟩ := Lists.split_of_getElem? hm
    obtain ⟨before, mo, after, first, last, mi, houter, hitems, rfl, rfl, rfl⟩ :=
      nested_eq_append_cons hsplit
    have hmo : .ok mo ∈ outer focus := houter ▸ List.mem_append_right _ List.mem_cons_self
    obtain ⟨x, s', hx, hu⟩ := Eval.bind_eq_ok h
    obtain ⟨first', mi', last', hitems', hfirst, hlast, hvalue, hsame⟩ :=
      hi.put_split (ho.wellFormed hf hmo) hitems hx
    obtain ⟨before', mo', after', houter', hbefore, hafter, rfl, hsame'⟩ :=
      ho.put_split hf houter hu
    have hmi' : .ok mi' ∈ items mo'.value := hitems' ▸ List.mem_append_right _ List.mem_cons_self
    have hsplit' := nested_eq houter' hitems'
    obtain ⟨hvalues, hfound⟩ := put_of_split hsplit (nested_eq houter' hitems')
      (values_before items hbefore hfirst) (values_after items hlast hafter)
    have hvalue' : (mo'.inside mi').value = v := by rw [Match.value_inside, hvalue]
    refine ⟨hvalues.trans (by rw [hvalue']), mo'.inside mi', hfound, fun w hw => ?_⟩
    exact (hsame w hw).bind fun a b s t ha hab =>
      (hsame' a (hi.defined hmi' hw ha)).trans (ho.congr hmo hab)

theorem Lawful.withinAll {parts : List Matcher} {found : Value → Matches} {outer : Value → Items}
    (hfinds : Finds cells (fun focus => return found focus) outer) (hlawful : Lawful cells outer)
    (hparts : ∀ m ∈ parts, ∃ items, Finds cells m items ∧ Lawful cells items) :
    ∃ items, Finds cells (fun focus => return withinAll parts (found focus)) items ∧
      Lawful cells items := by
  induction parts generalizing found outer with
  | nil => exact ⟨outer, hfinds, hlawful⟩
  | cons m parts ih =>
    obtain ⟨items, hm, hitems⟩ := hparts m List.mem_cons_self
    exact ih (hfinds.within hm) (hlawful.nested hitems) fun m' hm' =>
      hparts m' (List.mem_cons_of_mem _ hm')

/-- A sequence of lenses is a lens. -/
theorem Lawful.sequence {parts : List Matcher}
    (hparts : ∀ m ∈ parts, ∃ items, Finds cells m items ∧ Lawful cells items) :
    ∃ items, Finds cells (sequence parts) items ∧ Lawful cells items :=
  Lawful.withinAll finds_whole lawful_whole hparts

end Matcher

end DataExpr
