import DataExpr.Proofs.Findings.Laws
import DataExpr.Proofs.Findings.Related

/-!
# Nested loops over sequences

`Findings.nestedLoop` chooses an item from each of several sequences, in a loop over the first one with
the loops over the others inside.  A loop that goes through the sequences from left to right and makes
the choices longer at their end gives the same sequence (`foldl_bind_eq`), asking the cells and the
session the same things.

`Findings.Lists` says what a sequence gives when all its items are asked for, and `Findings.Loops` what
a nested loop gives in these terms: each error stands once for every choice before it, in its place
(`loops_of_lists`).
-/

namespace DataExpr.Findings

variable {α β : Type} {cells : Cells}

/-! ### Sequences that are made when they are asked for -/

/-- The sequence that a run gives, which is run when the first item is asked for. -/
def deferred (x : Run (Findings α)) : Findings α :=
  ⟨fun cells s => (x cells s).1.pull cells (x cells s).2⟩

theorem pull_deferred (x : Run (Findings α)) (cells : Cells) (s : Session) :
    (deferred x).pull cells s = (x cells s).1.pull cells (x cells s).2 := rfl

theorem deferred_pure (fs : Findings α) : deferred (return fs) = fs :=
  ext_pull fun _ _ => rfl

theorem forEach_deferred (f : Except EvalError α → Run β) (x : Run (Findings α)) (s : Session) :
    (deferred x).forEach f cells s = (x cells s).1.forEach f cells (x cells s).2 := by
  rw [forEach_eq, pull_deferred, ← forEach_eq]

/-- What an item is bound to is asked for its first item at once. -/
theorem bind_deferred (f : α → Run (Findings β)) (fs : Findings α) :
    (fs.bind fun a => return deferred (f a)) = fs.bind f := by
  induction fs using pull_induction with
  | _ fs ih =>
    refine ext_pull fun cells s => ?_
    rw [pull_bind, pull_bind]
    cases hp : fs.pull cells s with
    | done t => rfl
    | found i rest t =>
      have hrest := ih cells s i rest t hp
      cases i with
      | error e => rw [Pull.bind, Pull.bind, hrest]
      | ok a =>
        rw [Pull.bind_ok, Pull.bind_ok, hrest, pull_append, pull_append]
        rfl

/-! ### Choosing from several sequences -/

/-- One item of each sequence, the first one varying slowest. -/
def nestedLoop : List (Run (Findings α)) → Findings (List α)
  | [] => single []
  | x :: xs => (deferred x).bind fun a => return (nestedLoop xs).map (a :: ·)

/-- Choices that grow at their end, sequence by sequence, are those of the nested loop. -/
theorem foldl_bind_eq (xs : List (Run (Findings α))) (found : Findings (List α)) :
    xs.foldl (fun found x => found.bind fun chosen => return (← x).map fun next => chosen ++ [next])
      found = found.bind fun chosen => return (nestedLoop xs).map (chosen ++ ·) := by
  induction xs generalizing found with
  | nil =>
    have hchosen : ∀ chosen : List α, (nestedLoop []).map (chosen ++ ·) = single chosen := by
      intro chosen
      rw [nestedLoop, map_single, List.append_nil]
    simp only [List.foldl_nil, hchosen, bind_single]
  | cons x xs ih =>
    have hdeferred : ∀ chosen : List α,
        deferred (do return (← x).map fun next => chosen ++ [next]) =
          (deferred x).map fun next => chosen ++ [next] := by
      intro chosen
      refine ext_pull fun cells s => ?_
      rw [map, pull_mapRun, pull_deferred, pull_deferred, ← pull_mapRun]
      rfl
    have hgrow : (found.bind fun chosen => return (← x).map fun next => chosen ++ [next]) =
        found.bind fun chosen => return (deferred x).map fun next => chosen ++ [next] := by
      rw [← bind_deferred]
      simp only [hdeferred]
    -- What is chosen next comes from the outermost loop of those that are left.
    have hstep : ∀ chosen : List α,
        (((deferred x).map fun next => chosen ++ [next]).bind fun chosen =>
          return (nestedLoop xs).map (chosen ++ ·)) = (nestedLoop (x :: xs)).map (chosen ++ ·) := by
      intro chosen
      rw [bind_map, nestedLoop, map_bind]
      simp only [pure_bind, map_map, List.append_assoc, List.singleton_append]
    rw [List.foldl_cons, ih, hgrow, bind_bind]
    simp only [pure_bind, hstep]

/-! ### All items -/

/-- What the sequence gives when its items are asked for one after the other, each in whatever
session, while the cells stay as they are. -/
inductive Lists (cells : Cells) : Findings α → List (Except EvalError α) → Prop where
  | nil {fs : Findings α} {s t : Session} (h : fs.pull cells s = .done t) : Lists cells fs []
  | cons {fs rest : Findings α} {i : Except EvalError α} {is : List (Except EvalError α)}
    {s t : Session} (h : fs.pull cells s = .found i rest t) (hrest : Lists cells rest is) :
    Lists cells fs (i :: is)

/-- What is given from the next item on. -/
def Pull.Lists (cells : Cells) : Pull α → List (Except EvalError α) → Prop
  | .done _, is => is = []
  | .found i rest _, is => ∃ js, is = i :: js ∧ rest.Lists cells js

theorem lists_iff {fs : Findings α} {is : List (Except EvalError α)} :
    fs.Lists cells is ↔ ∃ s, (fs.pull cells s).Lists cells is := by
  constructor
  · intro h
    cases h with
    | @nil _ s t h => exact ⟨s, h ▸ rfl⟩
    | @cons _ rest i is s t h hrest => exact ⟨s, h ▸ ⟨is, rfl, hrest⟩⟩
  · rintro ⟨s, h⟩
    cases hp : fs.pull cells s with
    | done t =>
      rw [hp] at h
      exact h ▸ .nil hp
    | found i rest t =>
      rw [hp] at h
      obtain ⟨js, rfl, hrest⟩ := h
      exact .cons hp hrest

theorem lists_toList (fs : Findings α) (s : Session) :
    fs.Lists cells (fs.toList cells s).1 := by
  induction fs using pull_induction generalizing s with
  | _ fs ih =>
    rw [toList_eq]
    cases hp : fs.pull cells s with
    | done t => exact .nil hp
    | found i rest t => exact .cons hp (ih cells s i rest t hp t)

theorem Lists.of_deferred {x : Run (Findings α)} {is : List (Except EvalError α)}
    (h : (deferred x).Lists cells is) : ∃ s, (x cells s).1.Lists cells is := by
  obtain ⟨s, h⟩ := lists_iff.1 h
  rw [pull_deferred] at h
  exact ⟨s, lists_iff.2 ⟨_, h⟩⟩

theorem Lists.of_single {a : α} {is : List (Except EvalError α)} (h : (single a).Lists cells is) :
    is = [.ok a] := by
  obtain ⟨s, js, rfl, hrest⟩ := lists_iff.1 h
  obtain ⟨t, rfl⟩ := lists_iff.1 hrest
  rfl

theorem Lists.of_append {fs gs : Findings α} {js : List (Except EvalError α)}
    (h : (fs.append gs).Lists cells js) :
    ∃ is ks, fs.Lists cells is ∧ gs.Lists cells ks ∧ js = is ++ ks := by
  induction fs using pull_induction generalizing js with
  | _ fs ih =>
    obtain ⟨s, h⟩ := lists_iff.1 h
    rw [pull_append] at h
    cases hp : fs.pull cells s with
    | done t =>
      rw [hp] at h
      exact ⟨[], js, .nil hp, lists_iff.2 ⟨t, h⟩, rfl⟩
    | found i rest t =>
      rw [hp] at h
      obtain ⟨ls, rfl, hrest⟩ := h
      obtain ⟨is, ks, his, hks, rfl⟩ := ih cells s i rest t hp hrest
      exact ⟨i :: is, ks, .cons hp his, hks, rfl⟩

/-- What is given in the place of an item: an error stays, and the sequence of anything else is
listed. -/
inductive Expands (cells : Cells) (f : α → Run (Findings β)) :
    Except EvalError α → List (Except EvalError β) → Prop where
  | error (e : EvalError) : Expands cells f (.error e) [.error e]
  | ok {a : α} {s : Session} {js : List (Except EvalError β)} (h : (f a cells s).1.Lists cells js) :
    Expands cells f (.ok a) js

theorem Lists.of_bind {f : α → Run (Findings β)} {fs : Findings α}
    {js : List (Except EvalError β)} (h : (fs.bind f).Lists cells js) :
    ∃ is blocks, fs.Lists cells is ∧ List.Forall₂ (Expands cells f) is blocks ∧
      js = blocks.flatten := by
  induction fs using pull_induction generalizing js with
  | _ fs ih =>
    obtain ⟨s, h⟩ := lists_iff.1 h
    rw [pull_bind] at h
    cases hp : fs.pull cells s with
    | done t =>
      rw [hp] at h
      exact ⟨[], [], .nil hp, .nil, h⟩
    | found i rest t =>
      rw [hp] at h
      cases i with
      | error e =>
        obtain ⟨ls, rfl, hrest⟩ := h
        obtain ⟨is, blocks, his, hblocks, rfl⟩ := ih _ _ _ _ _ hp hrest
        exact ⟨.error e :: is, [.error e] :: blocks, .cons hp his, .cons (.error e) hblocks, rfl⟩
      | ok a =>
        obtain ⟨ks, ls, hks, hls, rfl⟩ := Lists.of_append (lists_iff.2 ⟨_, h⟩)
        obtain ⟨is, blocks, his, hblocks, rfl⟩ := ih _ _ _ _ _ hp hls
        exact ⟨.ok a :: is, ks :: blocks, .cons hp his, .cons (.ok hks) hblocks, rfl⟩

theorem Lists.of_mapRun {f : α → Run β} {fs : Findings α} {js : List (Except EvalError β)}
    (h : (fs.mapRun f).Lists cells js) :
    ∃ is, fs.Lists cells is ∧
      List.Forall₂ (SameOutcome fun a b => ∃ s, (f a cells s).1 = b) is js := by
  induction fs using pull_induction generalizing js with
  | _ fs ih =>
    obtain ⟨s, h⟩ := lists_iff.1 h
    rw [pull_mapRun] at h
    cases hp : fs.pull cells s with
    | done t =>
      rw [hp] at h
      obtain rfl := h
      exact ⟨[], .nil hp, .nil⟩
    | found i rest t =>
      rw [hp] at h
      cases i with
      | error e =>
        obtain ⟨ls, rfl, hrest⟩ := h
        obtain ⟨is, his, hitems⟩ := ih _ _ _ _ _ hp hrest
        exact ⟨.error e :: is, .cons hp his, .cons (.error e) hitems⟩
      | ok a =>
        obtain ⟨ls, rfl, hrest⟩ := h
        obtain ⟨is, his, hitems⟩ := ih _ _ _ _ _ hp hrest
        exact ⟨.ok a :: is, .cons hp his, .cons (.ok ⟨t, rfl⟩) hitems⟩

theorem Lists.of_map {f : α → β} {fs : Findings α} {js : List (Except EvalError β)}
    (h : (fs.map f).Lists cells js) :
    ∃ is, fs.Lists cells is ∧ js = is.map (Except.map f) := by
  obtain ⟨is, his, hitems⟩ := h.of_mapRun
  have hmap : List.Forall₂ (· = ·) (is.map (Except.map f)) js := by
    rw [List.forall₂_map_left_iff]
    refine hitems.imp ?_
    rintro _ _ (⟨_, rfl⟩ | e) <;> rfl
  rw [List.forall₂_eq_eq_eq] at hmap
  exact ⟨is, his, hmap.symm⟩

/-! ### All items of a nested loop -/

/-- What the loops inside make of one item of the loop around them: an error stays as it is, and
anything else comes before all that they give. -/
inductive Chooses (inner : List (Except EvalError (List α)) → Prop) :
    Except EvalError α → List (Except EvalError (List α)) → Prop where
  | error (e : EvalError) : Chooses inner (.error e) [.error e]
  | ok (a : α) {js : List (Except EvalError (List α))} (h : inner js) :
    Chooses inner (.ok a) (js.map (Except.map (a :: ·)))

/-- What loops over sequences give, one inside the other.  The inner loops are run anew for each item
of the loop around them. -/
def Loops (cells : Cells) :
    List (Run (Findings α)) → List (Except EvalError (List α)) → Prop
  | [], js => js = [.ok []]
  | x :: xs, js => ∃ is blocks, (∃ s, (x cells s).1.Lists cells is) ∧
      List.Forall₂ (Chooses (Loops cells xs)) is blocks ∧ js = blocks.flatten

theorem loops_of_lists {xs : List (Run (Findings α))} {js : List (Except EvalError (List α))}
    (h : (nestedLoop xs).Lists cells js) : Loops cells xs js := by
  induction xs generalizing js with
  | nil => exact h.of_single
  | cons x xs ih =>
    obtain ⟨is, blocks, his, hblocks, rfl⟩ := Lists.of_bind h
    refine ⟨is, blocks, his.of_deferred, hblocks.imp ?_, rfl⟩
    rintro i block (e | ⟨hblock⟩)
    · exact .error e
    · obtain ⟨ks, hks, rfl⟩ := Lists.of_map hblock
      exact .ok _ (ih hks)

end DataExpr.Findings
