import DataExpr.Pattern
import DataExpr.Proofs.Matcher.Transparent.Combine
import DataExpr.Proofs.Matcher.Transparent.Shape

/-!
# Patterns that cannot tell a cell from its contents

A pattern is structural (`Pattern.Structural`) if it asks only for the types, keys, items and scalars of
a value, in whatever way it is made of such patterns.  A structural pattern has the same matches in a
value with cells as in the value with all cells replaced by their contents
(`Structural.matchesIn_unfold`), and replacing does the same in both.  What was not touched keeps its
cells in the first case and has their contents in the second.

Descents are left out, since they count how often a cell is given, and so are views and predicates of
the host, which can do as they like.
-/

namespace DataExpr

/-- The second match is the first one with all cells unfolded: what was found is, and what comes of
putting another value in its place is, if that value is unfolded as well. -/
structure Match.Unfolds (cells : Cells) (m m₀ : Match) : Prop where
  good : cells.Good m.value
  value : m₀.value.content = (cells.unfold m.value).content
  replace : ∀ w, cells.Good w → ∀ s t,
    SameOutcome (fun x x₀ => cells.Good x ∧ x₀.content = (cells.unfold x).content)
      (m.replace w cells s).1 (m₀.replace (cells.unfold w) cells t).1

theorem Match.Related.unfolds {cells : Cells} {m m₀ : Match} (h : m.Related cells m₀) :
    m.Unfolds cells m₀ := by
  refine ⟨h.value.good, h.value.content_eq, fun w hw s t => ?_⟩
  have hout := h.replace w _ hw.alike_unfold s t
  exact hout.imp fun x x₀ hx => ⟨hx.good, hx.content_eq⟩

namespace Pattern

/-- Patterns that ask for types, keys, items and scalars only. -/
inductive Structural : Pattern → Prop where
  | self : Structural self
  | fail : Structural fail
  | ofType (type : ValueType) : Structural (satisfying (.ofType type))
  | value {v : Value} (hleaf : v.isContainer = false) (hne : ∀ id, v ≠ .cell id) :
    Structural (value v)
  | key (name : String) (optional : Bool) : Structural (key name optional)
  | index (i : Int64) (optional : Bool) : Structural (index i optional)
  | slice (start stop : Option Int64) : Structural (slice start stop)
  | regex (r : RegexPattern) : Structural (regex r)
  | spread : Structural spread
  | seq {parts : List Pattern} (h : ∀ p ∈ parts, Structural p) : Structural (seq parts)
  | alt {branches : List Pattern} (h : ∀ p ∈ branches, Structural p) : Structural (alt branches)
  | lookahead {p : Pattern} (h : Structural p) : Structural (lookahead p)
  | limit {p : Pattern} (h : Structural p) (n : Nat) : Structural (limit p n)
  | gather {p : Pattern} (h : Structural p) (how : Matcher.Spreading) : Structural (gather p how)
  | object {fields : List (Field Pattern)} {rest : Option Pattern}
    (hfields : ∀ f ∈ fields, Structural f.pattern) (hrest : ∀ p ∈ rest, Structural p) :
    Structural (object fields rest)
  | array {items : List Pattern} {rest : Option Pattern} (hitems : ∀ p ∈ items, Structural p)
    (hrest : ∀ p ∈ rest, Structural p) : Structural (array items rest)
  | arrayOf {p : Pattern} (h : Structural p) : Structural (arrayOf p)

theorem Structural.transparent {p : Pattern} (hp : p.Structural) (cells : Cells) :
    p.matcher.Transparent cells := by
  induction hp with
  | self => exact fun _ _ h => .pure (Matcher.related_whole h)
  | fail => exact fun _ _ _ => .pure .empty
  | ofType type => exact Matcher.transparent_ofType type
  | value hleaf hne => exact Matcher.transparent_equalTo hleaf hne
  | key name optional => exact Matcher.transparent_key name optional
  | index i optional => exact Matcher.transparent_index i optional
  | slice start stop => exact Matcher.transparent_slice start stop
  | regex r => exact Matcher.transparent_regex r
  | spread => exact Matcher.transparent_spread
  | seq _ ih =>
    rw [matcher, matchers_eq_map]
    exact .sequence (List.forall_mem_map.2 ih)
  | alt _ ih =>
    rw [matcher, matchers_eq_map]
    exact .choice (List.forall_mem_map.2 ih)
  | lookahead _ ih => exact ih.lookahead
  | limit _ n ih => exact ih.limit n
  | gather _ how ih => exact ih.gather how
  | object _ _ ihfields ihrest =>
    rw [matcher, fieldMatchers_eq_map, restMatcher_eq_map]
    refine .object (List.forall_mem_map.2 ihfields) fun m hm => ?_
    obtain ⟨p, hp, rfl⟩ := Option.map_eq_some_iff.1 hm
    exact ihrest p hp
  | array _ _ ihitems ihrest =>
    rw [matcher, matchers_eq_map, restMatcher_eq_map]
    refine .array (List.forall_mem_map.2 ihitems) fun m hm => ?_
    obtain ⟨p, hp, rfl⟩ := Option.map_eq_some_iff.1 hm
    exact ihrest p hp
  | arrayOf _ ih => exact ih.arrayOf

/-- The matches of a structural pattern in a good value, and in that value with all cells replaced by
their contents, are as many; at each position there is one error, or two matches the second of which
is the first with all cells unfolded. -/
theorem Structural.matchesIn_unfold {p : Pattern} (hp : p.Structural) {cells : Cells} {v : Value}
    (hv : cells.Good v) (s t s₀ t₀ : Session) (k : Nat) :
    Option.Rel (SameOutcome (Match.Unfolds cells))
      ((p.matchesIn v cells s).1.toList cells t).1[k]?
      ((p.matchesIn (cells.unfold v) cells s₀).1.toList cells t₀).1[k]? := by
  have hfound : ((p.matchesIn v cells s).1).Related cells (Match.Related cells)
      (p.matchesIn (cells.unfold v) cells s₀).1 :=
    hp.transparent cells v _ hv.alike_unfold s s₀
  have hitem := Lists.forall₂_getElem? (hfound.toList t t₀) k
  generalize ((p.matchesIn v cells s).1.toList cells t).1[k]? = i,
    ((p.matchesIn (cells.unfold v) cells s₀).1.toList cells t₀).1[k]? = j at hitem ⊢
  cases hitem with
  | none => exact .none
  | some h => exact .some (h.imp fun _ _ hm => hm.unfolds)

/-- A cell that is used at two places, once in the contents of another one; what is gathered is a list
with the cell or with its text. -/
theorem matchesIn_unfold_nested :
    let cells : Cells := ⟨#[.list 1 [.int 1, .cell 1], .str "xy"]⟩
    let v : Value := .map 0 [("a", .cell 0), ("b", .cell 1)]
    let p : Pattern := seq [key "a" false, gather spread .perPosition]
    p.Structural ∧ cells.Good v ∧
      cells.unfold v = .map 0 [("a", .list 1 [.int 1, .str "xy"]), ("b", .str "xy")] ∧
      ∀ (s t s₀ t₀ : Session) (k : Nat), Option.Rel (SameOutcome (Match.Unfolds cells))
        ((p.matchesIn v cells s).1.toList cells t).1[k]?
        ((p.matchesIn (cells.unfold v) cells s₀).1.toList cells t₀).1[k]? := by
  intro cells v p
  have hp : p.Structural := .seq (by simp [Structural.key, Structural.spread.gather])
  have hread₀ : cells.read 0 = .list 1 [.int 1, .cell 1] := rfl
  have hread₁ : cells.read 1 = .str "xy" := rfl
  have hint : cells.Good (.int 1) := .leaf rfl (by simp)
  have htext : cells.Good (.str "xy") := .leaf rfl (by simp)
  have hinner : cells.Good (.cell 1) := by
    refine .cell htext (fun h => ?_) (fun _ h => by cases h) (fun h => by cases h)
    exact Cells.not_within_leaf (hread₁ ▸ rfl) (by simp [hread₁]) h
  have hlist : ∀ c ∈ (Value.list 1 [.int 1, .cell 1]).children, c.1 = .int 1 ∨ c.1 = .cell 1 := by
    simp [Value.children]
  have houter : cells.Good (.cell 0) := by
    refine .cell ?_ (fun h => ?_) (fun _ h => by cases h) (fun h => by cases h)
    · refine hread₀ ▸ .of_children (by simp) fun c hc => ?_
      rcases hlist c hc with hc | hc
      · exact hc ▸ hint
      · exact hc ▸ hinner
    · -- The one cell within the list has the text in it, which has none.
      rw [hread₀] at h
      obtain ⟨c, hc, hcell⟩ := h.exists_child (by simp)
      rcases hlist c hc with hc | hc
      · exact Cells.not_within_leaf rfl (by simp) (hc ▸ hcell)
      · rw [hc] at hcell
        cases hcell with
        | child hc _ => cases hc
        | contents h => exact Cells.not_within_leaf (hread₁ ▸ rfl) (by simp [hread₁]) h
  have hv : cells.Good v := by
    refine .of_children (by simp [v]) ?_
    show ∀ c ∈ [(Value.cell 0, Step.key "a"), (.cell 1, .key "b")], cells.Good c.1
    simp [hinner, houter]
  exact ⟨hp, hv, rfl, hp.matchesIn_unfold hv⟩

end Pattern

end DataExpr
