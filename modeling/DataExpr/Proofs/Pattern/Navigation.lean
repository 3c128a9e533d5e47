import DataExpr.Proofs.Matcher.Lawful.Access

/-!
# Navigation patterns are lenses

A navigation pattern is a sequence of keys, positions and steps to all children.  Each of its
matches is a lens (`Pattern.put_get_put`): a value that has been put in the place of the match is
the value of the match with that number in the outcome, and putting another one there gives the same
whether the first one has been put or not.
-/

namespace DataExpr

open Matcher (Finds Lawful)

namespace Pattern

/-- A single step of navigation. -/
inductive Navigation : Pattern → Prop where
  | key (name : String) (optional : Bool) : Navigation (.key name optional)
  | index (i : Int64) (optional : Bool) : Navigation (.index i optional)
  | spread : Navigation .spread

/-- All matches and errors in the focus, one after the other. -/
def items (p : Pattern) (focus : Value) : Run (List (Except EvalError Match)) := do
  (← p.matchesIn focus).toList

variable {cells : Cells} {p : Pattern}

/-- A session does not change what is found. -/
theorem items_of_finds {items : Value → Matcher.Items} (h : Finds cells p.matcher items)
    (focus : Value) (s : Session) : (p.items focus cells s).1 = items focus :=
  ((h focus s).1.toList (p.matcher focus cells s).2).1

theorem Navigation.lawful (hcells : ∀ id, (cells.read id).WellFormed) (h : p.Navigation) :
    ∃ items, Finds cells p.matcher items ∧ Lawful cells items := by
  cases h with
  | key name optional =>
    exact ⟨_, Matcher.finds_key name optional, Matcher.lawful_key hcells name optional⟩
  | index i optional =>
    exact ⟨_, Matcher.finds_index i optional, Matcher.lawful_index hcells i optional⟩
  | spread => exact ⟨_, Matcher.finds_spread, Matcher.lawful_spread hcells⟩

theorem lawful_seq (hcells : ∀ id, (cells.read id).WellFormed) {parts : List Pattern}
    (hparts : ∀ p ∈ parts, p.Navigation) :
    ∃ items, Finds cells (seq parts).matcher items ∧ Lawful cells items := by
  rw [matcher, matchers_eq_map]
  refine Lawful.sequence fun m hm => ?_
  obtain ⟨p, hp, rfl⟩ := List.mem_map.1 hm
  exact (hparts p hp).lawful hcells

/-- A value that has been put in the place of a match is found there, as the match of that number in
the outcome.  Putting another one there, but for undefined, gives the same as putting it in the
place of the first match: the same error, or the same value up to the numbers of containers. -/
theorem put_get_put (hcells : ∀ id, (cells.read id).WellFormed) {parts : List Pattern}
    (hparts : ∀ p ∈ parts, p.Navigation) {focus : Value} (hf : focus.WellFormed) {s₀ s t : Session}
    {k : Nat} {m : Match} (hm : ((seq parts).items focus cells s₀).1[k]? = some (.ok m))
    {v u : Value} (hput : m.replace v cells s = (.ok u, t)) (s₁ : Session) :
    ∃ m', ((seq parts).items u cells s₁).1[k]? = some (.ok m') ∧ m'.value = v ∧
      ∀ w, w ≠ .undefined → Eval.Same cells (m'.replace w) (m.replace w) := by
  obtain ⟨found, hfinds, hlawful⟩ := lawful_seq hcells hparts
  rw [items_of_finds hfinds] at hm ⊢
  obtain ⟨pre, post, hsplit, rfl⟩ := Lists.split_of_getElem? hm
  obtain ⟨pre', m', post', hsplit', hpre, -, hvalue, hsame⟩ := hlawful.put_split hf hsplit hput
  have hlength : pre'.length = pre.length := by
    rw [← Matcher.length_values pre', hpre, Matcher.length_values]
  refine ⟨m', ?_, hvalue, hsame⟩
  rw [hsplit', ← hlength, Lists.getElem?_length]

/-- A position that is filled behind a key of a map that a cell holds. -/
theorem put_get_put_cell :
    let cells : Cells := ⟨#[.map 0 [("a", .null)]]⟩
    let focus : Value := .list 1 [.cell 0, .int 5]
    let parts : List Pattern := [.spread, .key "a" true, .index 2 true]
    (∀ id, (cells.read id).WellFormed) ∧ (∀ p ∈ parts, p.Navigation) ∧ focus.WellFormed ∧
    ∃ m u t, ((seq parts).items focus cells ⟨2, #[]⟩).1[0]? = some (.ok m) ∧
      m.replace (.int 7) cells ⟨2, #[]⟩ = (.ok u, t) ∧
      u = .list 4 [.map 3 [("a", .list 2 [.undefined, .undefined, .int 7])], .int 5] ∧
      ∃ m', ((seq parts).items u cells t).1[0]? = some (.ok m') ∧ m'.value = .int 7 ∧
        ∀ w, w ≠ .undefined → Eval.Same cells (m'.replace w) (m.replace w) := by
  intro cells focus parts
  have hleaf : ∀ v : Value, v.entries? = none → v.children = [] → v.WellFormed :=
    fun v he hc => .intro (by simp [he]) (by simp [hc])
  have hcells : ∀ id, (cells.read id).WellFormed := by
    intro id
    cases id with
    | zero =>
      refine .intro (fun entries he => ?_) fun c hc => ?_
      · cases he
        decide
      · obtain rfl := List.mem_singleton.1 hc
        exact hleaf .null rfl rfl
    | succ id => exact hleaf .null rfl rfl
  have hparts : ∀ p ∈ parts, p.Navigation := by
    simp only [parts, List.forall_mem_cons]
    exact ⟨.spread, .key _ _, .index _ _, nofun⟩
  have hf : focus.WellFormed := by
    refine .intro nofun fun c hc => ?_
    rcases List.mem_cons.1 hc with rfl | hc
    · exact hleaf (.cell 0) rfl rfl
    · obtain rfl := List.mem_singleton.1 hc
      exact hleaf (.int 5) rfl rfl
  refine ⟨hcells, hparts, hf, _, _, _, rfl, rfl, rfl, ?_⟩
  exact @put_get_put cells hcells parts hparts focus hf ⟨2, #[]⟩ ⟨2, #[]⟩ _ 0 _ rfl (.int 7) _ rfl _

end Pattern

end DataExpr
