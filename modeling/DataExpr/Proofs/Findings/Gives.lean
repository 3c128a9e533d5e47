import DataExpr.Proofs.Findings.Items

/-!
# The items that a lazy sequence can give

`Findings.Gives cells fs a`: while the cells stay as they are, `a` is one of the items of `fs`, in
whichever session each item before it has been asked for.  What a sequence made from others gives
comes from what these give: there is one lemma for each way of making one (`Gives.of_bind`,
`Gives.of_mapRun`).
-/

namespace DataExpr.Findings

variable {α β : Type} {cells : Cells} {a : α} {b : β}

/-- The item is among those that the sequence gives. -/
inductive Gives (cells : Cells) : Findings α → α → Prop where
  | now {fs rest : Findings α} {a : α} {s t : Session}
    (h : fs.pull cells s = .found (.ok a) rest t) : Gives cells fs a
  | later {fs rest : Findings α} {i : Except EvalError α} {a : α} {s t : Session}
    (h : fs.pull cells s = .found i rest t) (hrest : Gives cells rest a) : Gives cells fs a

/-- The item is the one that has been given or among those after it. -/
def Pull.Gives (cells : Cells) : Pull α → α → Prop
  | .done _, _ => False
  | .found item rest _, a => item = .ok a ∨ rest.Gives cells a

theorem gives_iff {fs : Findings α} :
    fs.Gives cells a ↔ ∃ s, (fs.pull cells s).Gives cells a := by
  constructor
  · rintro (@⟨_, _, _, s, _, h⟩ | @⟨_, _, _, _, s, _, h, hrest⟩)
    · exact ⟨s, h ▸ .inl rfl⟩
    · exact ⟨s, h ▸ .inr hrest⟩
  · rintro ⟨s, h⟩
    cases hp : fs.pull cells s with
    | done t =>
      rw [hp] at h
      exact h.elim
    | found item rest t =>
      rw [hp] at h
      rcases h with rfl | hrest
      · exact .now hp
      · exact .later hp hrest

theorem Every.of_gives {P : α → Prop} {fs : Findings α} (h : fs.Every P) (ha : fs.Gives cells a) :
    P a := by
  induction ha with
  | @now _ _ _ s _ hp =>
    have hpull := every_iff.1 h cells s
    rw [hp] at hpull
    exact hpull.1 _ rfl
  | @later _ _ _ _ s _ hp _ ih =>
    have hpull := every_iff.1 h cells s
    rw [hp] at hpull
    exact ih hpull.2

theorem Gives.of_mem_toList {fs : Findings α} {s : Session}
    (h : .ok a ∈ (fs.toList cells s).1) : fs.Gives cells a := by
  induction fs using pull_induction generalizing s with
  | _ fs ih =>
    rw [toList_eq] at h
    cases hp : fs.pull cells s with
    | done t =>
      rw [hp] at h
      cases h
    | found i rest t =>
      rw [hp] at h
      rcases List.mem_cons.1 h with rfl | h
      · exact .now hp
      · exact .later hp (ih _ _ _ _ _ hp h)

theorem not_gives_empty : ¬ (empty : Findings α).Gives cells a := by
  rw [gives_iff]
  rintro ⟨s, h⟩
  exact h

theorem Gives.of_single {a' : α} (h : (single a').Gives cells a) : a = a' := by
  obtain ⟨s, h | h⟩ := gives_iff.1 h
  · exact (Except.ok.inj h).symm
  · exact absurd h not_gives_empty

theorem Gives.of_append {fs gs : Findings α} (h : (fs.append gs).Gives cells a) :
    fs.Gives cells a ∨ gs.Gives cells a := by
  induction fs using pull_induction with
  | _ fs ih =>
    obtain ⟨s, h⟩ := gives_iff.1 h
    rw [pull_append] at h
    cases hp : fs.pull cells s with
    | done t =>
      rw [hp] at h
      exact .inr (gives_iff.2 ⟨t, h⟩)
    | found i rest t =>
      rw [hp] at h
      rcases h with rfl | h
      · exact .inl (.now hp)
      · exact (ih _ _ _ _ _ hp h).imp_left (.later hp)

/-- What is given for all items is given for one of them. -/
theorem Gives.of_bind {f : α → Run (Findings β)} {fs : Findings α}
    (h : (fs.bind f).Gives cells b) :
    ∃ a, fs.Gives cells a ∧ ∃ s, (f a cells s).1.Gives cells b := by
  induction fs using pull_induction with
  | _ fs ih =>
    -- What the rest of the items is bound to gives what one of these is bound to gives.
    have hrest : ∀ {s i rest t}, fs.pull cells s = .found i rest t → (rest.bind f).Gives cells b →
        ∃ a, fs.Gives cells a ∧ ∃ s, (f a cells s).1.Gives cells b := by
      intro s i rest t hp h
      obtain ⟨a, ha, hb⟩ := ih _ _ _ _ _ hp h
      exact ⟨a, .later hp ha, hb⟩
    obtain ⟨s, h⟩ := gives_iff.1 h
    rw [pull_bind] at h
    cases hp : fs.pull cells s with
    | done t =>
      rw [hp] at h
      exact h.elim
    | found i rest t =>
      rw [hp] at h
      cases i with
      | error e =>
        rcases h with h | h
        · cases h
        · exact hrest hp h
      | ok a =>
        rcases Gives.of_append (gives_iff.2 ⟨_, h⟩) with h | h
        · exact ⟨a, .now hp, t, h⟩
        · exact hrest hp h

theorem Gives.of_mapRun {f : α → Run β} {fs : Findings α} (h : (fs.mapRun f).Gives cells b) :
    ∃ a, fs.Gives cells a ∧ ∃ s, (f a cells s).1 = b := by
  induction fs using pull_induction with
  | _ fs ih =>
    have hrest : ∀ {s i rest t}, fs.pull cells s = .found i rest t →
        (rest.mapRun f).Gives cells b → ∃ a, fs.Gives cells a ∧ ∃ s, (f a cells s).1 = b := by
      intro s i rest t hp h
      obtain ⟨a, ha, hb⟩ := ih _ _ _ _ _ hp h
      exact ⟨a, .later hp ha, hb⟩
    obtain ⟨s, h⟩ := gives_iff.1 h
    rw [pull_mapRun] at h
    cases hp : fs.pull cells s with
    | done t =>
      rw [hp] at h
      exact h.elim
    | found i rest t =>
      rw [hp] at h
      cases i with
      | error e =>
        rcases h with h | h
        · cases h
        · exact hrest hp h
      | ok a =>
        rcases h with h | h
        · exact ⟨a, .now hp, t, Except.ok.inj h⟩
        · exact hrest hp h

theorem Gives.of_map {f : α → β} {fs : Findings α} (h : (fs.map f).Gives cells b) :
    ∃ a, fs.Gives cells a ∧ f a = b := by
  obtain ⟨a, ha, _, hb⟩ := h.of_mapRun
  exact ⟨a, ha, hb⟩

end DataExpr.Findings
