import DataExpr.Proofs.Findings.Items

/-!
# What a sequence yields

`Findings.Yields cells fs items`: asked for its items one after the other, while the cells hold what
they hold in `cells`, the sequence gives `items`, whatever has been noted before.  Asking may note
values but makes no containers.  A sequence that computes its items from the cells yields a list for
each store, where it would not be equal to a sequence of given items.

There is one lemma for each way of building a sequence from others (`Yields.bind` is the one for
nested matchers), and one for each way of asking for items.
-/

namespace DataExpr.Findings

variable {α β : Type} {cells : Cells} {fs gs : Findings α} {is js : List (Except EvalError α)}

/-- Whether the items of the sequence are the given ones. -/
def Yields (cells : Cells) : Findings α → List (Except EvalError α) → Prop
  | fs, [] => ∀ s, ∃ t, fs.pull cells s = .done t ∧ t.nextNode = s.nextNode
  | fs, i :: is => ∀ s, ∃ rest t, fs.pull cells s = .found i rest t ∧ t.nextNode = s.nextNode ∧
      Yields cells rest is

/-! ### Building sequences -/

theorem Yields.empty : (empty : Findings α).Yields cells [] :=
  fun s => ⟨s, rfl, rfl⟩

theorem Yields.ofItems (is : List (Except EvalError α)) : (ofItems is).Yields cells is := by
  induction is with
  | nil => exact .empty
  | cons i is ih => exact fun s => ⟨_, s, rfl, rfl, ih⟩

theorem Yields.single (a : α) : (single a).Yields cells [.ok a] :=
  fun s => ⟨_, s, rfl, rfl, .empty⟩

theorem Yields.failed (e : EvalError) : (failed e : Findings α).Yields cells [.error e] :=
  fun s => ⟨_, s, rfl, rfl, .empty⟩

theorem Yields.ofList (as : List α) : (ofList as).Yields cells (as.map .ok) := by
  rw [← ofItems_ok]
  exact .ofItems _

/-- What is pulled from a sequence is pulled from another one, which may depend on the session. -/
theorem Yields.of_pull
    (h : ∀ s, ∃ (gs : Findings α) (t : Session), fs.pull cells s = gs.pull cells t ∧
      t.nextNode = s.nextNode ∧ gs.Yields cells is) : fs.Yields cells is := by
  cases is with
  | nil =>
    intro s
    obtain ⟨gs, t, hpull, ht, hgs⟩ := h s
    obtain ⟨t', hdone, ht'⟩ := hgs t
    exact ⟨t', hpull.trans hdone, ht'.trans ht⟩
  | cons i is =>
    intro s
    obtain ⟨gs, t, hpull, ht, hgs⟩ := h s
    obtain ⟨rest, t', hfound, ht', hrest⟩ := hgs t
    exact ⟨rest, t', hpull.trans hfound, ht'.trans ht, hrest⟩

theorem Yields.append (hf : fs.Yields cells is) (hg : gs.Yields cells js) :
    (fs.append gs).Yields cells (is ++ js) := by
  induction is generalizing fs with
  | nil =>
    refine .of_pull fun s => ?_
    obtain ⟨t, hdone, ht⟩ := hf s
    refine ⟨gs, t, ?_, ht, hg⟩
    rw [pull_append, hdone]
    rfl
  | cons i is ih =>
    intro s
    obtain ⟨rest, t, hfound, ht, hrest⟩ := hf s
    refine ⟨rest.append gs, t, ?_, ht, ih hrest⟩
    rw [pull_append, hfound]
    rfl

/-- For each item the items of its sequence, one after the other. -/
theorem Yields.bind {f : α → Run (Findings β)} {g : α → List (Except EvalError β)}
    (h : fs.Yields cells is)
    (hf : ∀ a, .ok a ∈ is → ∀ s, (f a cells s).1.Yields cells (g a) ∧
      (f a cells s).2.nextNode = s.nextNode) :
    (fs.bind f).Yields cells (is.flatMap (expand g)) := by
  induction is generalizing fs with
  | nil =>
    intro s
    obtain ⟨t, hdone, ht⟩ := h s
    refine ⟨t, ?_, ht⟩
    rw [pull_bind, hdone]
    rfl
  | cons i is ih =>
    have ih : ∀ {rest : Findings α}, rest.Yields cells is → _ :=
      fun hrest => ih hrest fun a ha => hf a (List.mem_cons_of_mem _ ha)
    rw [List.flatMap_cons]
    cases i with
    | error e =>
      intro s
      obtain ⟨rest, t, hfound, ht, hrest⟩ := h s
      refine ⟨rest.bind f, t, ?_, ht, ih hrest⟩
      rw [pull_bind, hfound]
      rfl
    | ok a =>
      -- The item is asked for its sequence in the session after it has been found.
      refine .of_pull fun s => ?_
      obtain ⟨rest, t, hfound, ht, hrest⟩ := h s
      obtain ⟨hinner, ht'⟩ := hf a List.mem_cons_self t
      refine ⟨(f a cells t).1.append (rest.bind f), (f a cells t).2, ?_, ht'.trans ht,
        hinner.append (ih hrest)⟩
      rw [pull_bind, hfound]
      rfl

theorem Yields.map (f : α → β) (h : fs.Yields cells is) :
    (fs.map f).Yields cells (is.map (Except.map f)) := by
  induction is generalizing fs with
  | nil =>
    intro s
    obtain ⟨t, hdone, ht⟩ := h s
    refine ⟨t, ?_, ht⟩
    rw [Findings.map, pull_mapRun, hdone]
    rfl
  | cons i is ih =>
    intro s
    obtain ⟨rest, t, hfound, ht, hrest⟩ := h s
    refine ⟨rest.map f, t, ?_, ht, ih hrest⟩
    rw [Findings.map, pull_mapRun, hfound]
    cases i <;> rfl

/-! ### Asking for items -/

theorem Yields.toList (h : fs.Yields cells is) (s : Session) :
    (fs.toList cells s).1 = is ∧ (fs.toList cells s).2.nextNode = s.nextNode := by
  induction is generalizing fs s with
  | nil =>
    obtain ⟨t, hdone, ht⟩ := h s
    rw [toList_eq, hdone]
    exact ⟨rfl, ht⟩
  | cons i is ih =>
    obtain ⟨rest, t, hfound, ht, hrest⟩ := h s
    obtain ⟨hitems, ht'⟩ := ih hrest t
    rw [toList_eq, hfound]
    exact ⟨congrArg (i :: ·) hitems, ht'.trans ht⟩

/-- Collecting gives all items if none of them is an error. -/
theorem Yields.collect {as : List α} (h : fs.Yields cells (as.map .ok)) (s : Session) :
    ∃ t, fs.collect cells s = (.ok as, t) ∧ t.nextNode = s.nextNode := by
  obtain ⟨hitems, ht⟩ := h.toList s
  exact ⟨_, collect_of_toList (Prod.ext hitems rfl), ht⟩

/-- Asking for one item gives it if there is no error before it. -/
theorem Yields.nth {as : List α} (h : fs.Yields cells (as.map .ok)) (n : Nat) (s : Session) :
    ∃ t, fs.nth n cells s = (.ok as[n]?, t) ∧ t.nextNode = s.nextNode := by
  induction as generalizing fs n s with
  | nil =>
    obtain ⟨t, hdone, ht⟩ := h s
    refine ⟨t, ?_, ht⟩
    cases n <;> simp only [Findings.nth, first, hdone] <;> rfl
  | cons a as ih =>
    obtain ⟨rest, t, hfound, ht, hrest⟩ := h s
    cases n with
    | zero =>
      rw [nth_zero_of_pull hfound]
      exact ⟨t, rfl, ht⟩
    | succ n =>
      rw [nth_succ_of_pull hfound]
      obtain ⟨t', hnth, ht'⟩ := ih hrest n t
      exact ⟨t', hnth, ht'.trans ht⟩

end DataExpr.Findings
