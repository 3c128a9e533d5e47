import DataExpr.Proofs.Evaluation

/-!
# What all items of a lazy sequence have in common

`Findings.Every P fs`: every item that the sequence `fs` can ever give has the property `P`, whatever
the cells hold and whatever has been noted when it is asked for.  Errors are not restricted.  There is
one lemma for each way of building a sequence from others; `Every.bind` is the one that carries a
property through a matcher made from matchers.
-/

namespace DataExpr.Findings

variable {α β : Type} {P : α → Prop} {Q : β → Prop}

/-- What holds of a sequence if it holds of what comes after its next item holds of every
sequence. -/
theorem pull_induction {P : Findings α → Prop}
    (h : ∀ fs, (∀ cells s i rest t, fs.pull cells s = .found i rest t → P rest) → P fs)
    (fs : Findings α) : P fs := by
  refine @Findings.rec α P (fun pulled => ∀ i rest t, pulled = .found i rest t → P rest)
    (fun pull ih => ?_) ?_ ?_ fs
  · exact h ⟨pull⟩ fun cells s i rest t hp => ih cells s i rest t hp
  · exact nofun
  · intro item rest session ih i rest' t hp
    obtain ⟨-, rfl, -⟩ := Pull.found.inj hp
    exact ih

/-- Every item that can be given has the property. -/
inductive Every (P : α → Prop) : Findings α → Prop where
  | intro {fs : Findings α}
    (item : ∀ cells s a rest s', fs.pull cells s = .found (.ok a) rest s' → P a)
    (rest : ∀ cells s i rest s', fs.pull cells s = .found i rest s' → Every P rest) : Every P fs

/-- The item that has been given has the property, and so has every item after it. -/
def Pull.Every (P : α → Prop) : Pull α → Prop
  | .done _ => True
  | .found item rest _ => (∀ a, item = .ok a → P a) ∧ rest.Every P

theorem every_iff {fs : Findings α} :
    fs.Every P ↔ ∀ cells s, (fs.pull cells s).Every P := by
  constructor
  · rintro ⟨item, rest⟩ cells s
    cases hp : fs.pull cells s with
    | done => trivial
    | found i more t =>
      refine ⟨?_, rest _ _ _ _ _ hp⟩
      rintro a rfl
      exact item _ _ _ _ _ hp
  · intro h
    refine .intro (fun cells s a rest t hp => ?_) fun cells s i rest t hp => ?_
    · have := h cells s
      rw [hp] at this
      exact this.1 a rfl
    · have := h cells s
      rw [hp] at this
      exact this.2

theorem Every.mono {P' : α → Prop} {fs : Findings α} (h : fs.Every P) (hP : ∀ a, P a → P' a) :
    fs.Every P' := by
  induction h with
  | intro item _ ih =>
    exact .intro (fun _ _ _ _ _ hp => hP _ (item _ _ _ _ _ hp)) fun _ _ _ _ _ hp => ih _ _ _ _ _ hp

/-! ### Sequences that are given -/

theorem Every.empty : (empty : Findings α).Every P :=
  every_iff.2 fun _ _ => trivial

theorem Every.one {i : Except EvalError α} (h : ∀ a, i = .ok a → P a) : (one i).Every P :=
  every_iff.2 fun _ _ => ⟨h, .empty⟩

theorem Every.single {a : α} (h : P a) : (single a).Every P :=
  .one fun _ ha => Except.ok.inj ha ▸ h

theorem Every.failed {e : EvalError} : (failed e : Findings α).Every P := .one nofun

theorem Every.ofList {as : List α} (h : ∀ a ∈ as, P a) : (ofList as).Every P := by
  induction as with
  | nil => exact .empty
  | cons a as ih =>
    rw [List.forall_mem_cons] at h
    exact every_iff.2 fun _ _ => ⟨fun _ ha => Except.ok.inj ha ▸ h.1, ih h.2⟩

theorem pull_delayed (step : Run (Option (Except EvalError α))) (cells : Cells) (s : Session) :
    (delayed step).pull cells s = match step cells s with
      | (none, t) => .done t
      | (some i, t) => .found i .empty t := by
  show (match ((step cells s).1.map (·, Findings.empty), (step cells s).2) with
    | (none, t) => Pull.done t
    | (some (i, rest), t) => .found i rest t) = _
  rcases step cells s with ⟨_ | _, _⟩ <;> rfl

theorem Every.delayed {step : Run (Option (Except EvalError α))}
    (h : ∀ cells s a, (step cells s).1 = some (.ok a) → P a) : (delayed step).Every P := by
  refine every_iff.2 fun cells s => ?_
  rw [pull_delayed]
  rcases hstep : step cells s with ⟨_ | i, t⟩
  · trivial
  · exact ⟨fun a ha => h cells s a (by rw [hstep, ha]), .empty⟩

/-! ### Sequences from sequences -/

theorem pull_append (fs gs : Findings α) (cells : Cells) (s : Session) :
    (fs.append gs).pull cells s = (fs.pull cells s).append gs cells := by
  cases fs
  rfl

theorem pull_bind (f : α → Run (Findings β)) (fs : Findings α) (cells : Cells) (s : Session) :
    (fs.bind f).pull cells s = (fs.pull cells s).bind f cells := by
  cases fs
  rfl

theorem pull_mapRun (f : α → Run β) (fs : Findings α) (cells : Cells) (s : Session) :
    (fs.mapRun f).pull cells s = (fs.pull cells s).mapRun f cells := by
  cases fs
  rfl

theorem pull_take_succ (n : Nat) (fs : Findings α) (cells : Cells) (s : Session) :
    (fs.take (n + 1)).pull cells s = match fs.pull cells s with
      | .done t => .done t
      | .found i rest t => .found i (rest.take n) t := rfl

theorem Every.append {fs gs : Findings α} (hf : fs.Every P) (hg : gs.Every P) :
    (fs.append gs).Every P := by
  induction hf with
  | @intro fs item _ ih =>
    refine every_iff.2 fun cells s => ?_
    rw [pull_append]
    cases hp : fs.pull cells s with
    | done t => exact every_iff.1 hg cells t
    | found i rest t =>
      refine ⟨?_, ih _ _ _ _ _ hp⟩
      rintro a rfl
      exact item _ _ _ _ _ hp

/-- A property that the sequence of every item has is one of all sequences together. -/
theorem Every.bind {f : α → Run (Findings β)} {fs : Findings α} (hfs : fs.Every P)
    (hf : ∀ a, P a → ∀ cells s, (f a cells s).1.Every Q) : (fs.bind f).Every Q := by
  induction hfs with
  | @intro fs item _ ih =>
    refine every_iff.2 fun cells s => ?_
    rw [pull_bind]
    cases hp : fs.pull cells s with
    | done => trivial
    | found i rest t =>
      have hrest := ih _ _ _ _ _ hp
      cases i with
      | error e => exact ⟨nofun, hrest⟩
      | ok a =>
        -- What the item is bound to comes first, then what the rest is bound to.
        have hinner := hf a (item _ _ _ _ _ hp) cells t
        exact every_iff.1 (hinner.append hrest) cells _

theorem Every.mapRun {f : α → Run β} {fs : Findings α} (hfs : fs.Every P)
    (hf : ∀ a, P a → ∀ cells s, Q (f a cells s).1) : (fs.mapRun f).Every Q := by
  induction hfs with
  | @intro fs item _ ih =>
    refine every_iff.2 fun cells s => ?_
    rw [pull_mapRun]
    cases hp : fs.pull cells s with
    | done => trivial
    | found i rest t =>
      have hrest := ih _ _ _ _ _ hp
      cases i with
      | error e => exact ⟨nofun, hrest⟩
      | ok a => exact ⟨fun _ hb => Except.ok.inj hb ▸ hf a (item _ _ _ _ _ hp) cells t, hrest⟩

theorem Every.map {f : α → β} {fs : Findings α} (hfs : fs.Every P) (hf : ∀ a, P a → Q (f a)) :
    (fs.map f).Every Q :=
  hfs.mapRun fun a ha _ _ => hf a ha

theorem Every.take {fs : Findings α} (hfs : fs.Every P) (n : Nat) : (fs.take n).Every P := by
  induction hfs generalizing n with
  | @intro fs item _ ih =>
    cases n with
    | zero => exact .empty
    | succ n =>
      refine every_iff.2 fun cells s => ?_
      rw [pull_take_succ]
      cases hp : fs.pull cells s with
      | done => trivial
      | found i rest t =>
        refine ⟨?_, ih _ _ _ _ _ hp n⟩
        rintro a rfl
        exact item _ _ _ _ _ hp

/-! ### Items that are found -/

/-- An item found at a position is one of the items. -/
theorem Every.nth {fs : Findings α} (hfs : fs.Every P) {n : Nat} {cells : Cells} {s s' : Session}
    {a : α} (h : fs.nth n cells s = (.ok (some a), s')) : P a := by
  induction n generalizing fs s with
  | zero =>
    have hpull := every_iff.1 hfs cells s
    simp only [Findings.nth, first] at h
    cases hp : fs.pull cells s with
    | done => rw [hp] at h; cases h
    | found i rest t =>
      rw [hp] at h hpull
      cases i with
      | ok b => cases h; exact hpull.1 a rfl
      | error e => cases h
  | succ n ih =>
    have hpull := every_iff.1 hfs cells s
    simp only [Findings.nth] at h
    cases hp : fs.pull cells s with
    | done => rw [hp] at h; cases h
    | found i rest t =>
      rw [hp] at h hpull
      cases i with
      | ok b => exact ih hpull.2 h
      | error e => cases h

end DataExpr.Findings
