import DataExpr.Regex.Search

/-!
# Where regular expressions match

Matches are pairs of positions in a text.  `Regex.InOrder` says of a list of them that every match
begins before it ends and ends before the next one begins.  The matches that a search finds are in
order (`spans_inOrder`, `find_inOrder`): a thread keeps the position it began at (`settle_start`), so
a match that is complete at some index has begun there or before.
-/

namespace DataExpr.Regex

/-! ### Threads keep their beginning -/

theorem Thread.goOn?_start {program : Program} {here : Place} {t : Thread} {ts : List Thread}
    (h : t.goOn? program here = some ts) : ∀ u ∈ ts, u.start = t.start := by
  unfold goOn? at h
  split at h
  · cases h
  · cases h
  · obtain rfl := Option.some.inj h
    split <;> simp
  · obtain rfl := Option.some.inj h
    simp
  · obtain rfl := Option.some.inj h
    simp
  · obtain rfl := Option.some.inj h
    simp

theorem Thread.take?_start {program : Program} {c : Char} {t u : Thread}
    (h : t.take? program c = some u) : u.start = t.start := by
  unfold take? at h
  split at h
  · split at h
    · exact Option.some.inj h ▸ rfl
    · cases h
  · cases h

section

variable {program : Program} {here : Place} {fresh : Array Bool} {t : Thread} {waiting : List Thread}

theorem settle_of_stay (hfresh : fresh[t.address]? = some true)
    (hstay : t.goOn? program here = none) :
    settle program here fresh (t :: waiting) =
      t :: settle program here (fresh.setIfInBounds t.address false) waiting := by
  rw [settle, dif_pos hfresh]
  simp only [hstay]

theorem settle_of_goOn? {ts : List Thread} (hfresh : fresh[t.address]? = some true)
    (hts : t.goOn? program here = some ts) :
    settle program here fresh (t :: waiting) =
      settle program here (fresh.setIfInBounds t.address false) (ts ++ waiting) := by
  rw [settle, dif_pos hfresh]
  simp only [hts]

theorem settle_of_passed (hfresh : ¬fresh[t.address]? = some true) :
    settle program here fresh (t :: waiting) = settle program here fresh waiting := by
  rw [settle, dif_neg hfresh]

end

/-- What goes over from a thread to those in its place holds of all threads that have gone on. -/
theorem settle_forall {P : Thread → Prop} {program : Program} {here : Place}
    (hgo : ∀ {t ts}, P t → t.goOn? program here = some ts → ∀ u ∈ ts, P u) (fresh : Array Bool)
    (waiting : List Thread) (hP : ∀ t ∈ waiting, P t) :
    ∀ t ∈ settle program here fresh waiting, P t := by
  induction fresh, waiting using settle.induct program here with
  | case1 => simp [settle]
  | case2 fresh t waiting hfresh hstay ih =>
    rw [settle_of_stay hfresh hstay]
    rw [List.forall_mem_cons] at hP ⊢
    exact ⟨hP.1, ih hP.2⟩
  | case3 fresh t waiting hfresh ts hts ih =>
    rw [settle_of_goOn? hfresh hts]
    rw [List.forall_mem_cons] at hP
    exact ih (List.forall_mem_append.2 ⟨hgo hP.1 hts, hP.2⟩)
  | case4 fresh t waiting hfresh ih =>
    rw [settle_of_passed hfresh]
    exact ih fun u hu => hP u (List.mem_cons_of_mem _ hu)

/-- Threads that have gone on began where those before them did. -/
theorem settle_start {P : Nat → Prop} (program : Program) (here : Place) (fresh : Array Bool)
    (waiting : List Thread) (hP : ∀ t ∈ waiting, P t.start) :
    ∀ t ∈ settle program here fresh waiting, P t.start := by
  refine settle_forall (P := fun t => P t.start) (fun {t ts} ht hts u hu => ?_) fresh waiting hP
  rw [Thread.goOn?_start hts u hu]
  exact ht

/-! ### The first match -/

/-- A complete thread gives a match that ends at the present index; else the one before stays. -/
theorem best_bounds {lo index : Nat} {ready : List Thread} {found : Option (Nat × Nat)}
    (complete : Thread → Bool) (hready : ∀ t ∈ ready, lo ≤ t.start ∧ t.start ≤ index)
    (hfound : ∀ span, found = some span → lo ≤ span.1 ∧ span.1 ≤ span.2) :
    ∀ span, (match ready.find? complete with
      | some t => some (t.start, index)
      | none => found) = some span → lo ≤ span.1 ∧ span.1 ≤ span.2 := by
  intro span h
  split at h
  · rename_i t ht
    rw [← Option.some.inj h]
    exact hready t (List.mem_of_find?_eq_some ht)
  · exact hfound span h

/-- The threads that are ready at an index have begun there or before. -/
theorem ready_start (program : Program) {lo index : Nat} {threads : List Thread}
    (hlo : lo ≤ index) (hthreads : ∀ t ∈ threads, lo ≤ t.start ∧ t.start ≤ index) (stop : Bool)
    (here : Place) (fresh : Array Bool) :
    ∀ t ∈ settle program here fresh (if stop then threads else threads ++ [⟨index, 0⟩]),
      lo ≤ t.start ∧ t.start ≤ index := by
  refine settle_start (P := fun start => lo ≤ start ∧ start ≤ index) program here fresh _ ?_
  split
  · exact hthreads
  · exact List.forall_mem_append.2 ⟨hthreads, by simpa using hlo⟩

/-- A match that is found begins no earlier than the search and ends no earlier than it begins. -/
theorem scan_bounds {program : Program} {lo index : Nat} {threads : List Thread}
    {found : Option (Nat × Nat)} {rest : List Char} (hlo : lo ≤ index)
    (hthreads : ∀ t ∈ threads, lo ≤ t.start ∧ t.start ≤ index)
    (hfound : ∀ span, found = some span → lo ≤ span.1 ∧ span.1 ≤ span.2) {span : Nat × Nat}
    (h : scan program index threads found rest = some span) : lo ≤ span.1 ∧ span.1 ≤ span.2 := by
  induction rest generalizing index threads found with
  | nil =>
    rw [scan] at h
    exact best_bounds _ (ready_start program hlo hthreads _ _ _) hfound span h
  | cons c cs ih =>
    rw [scan] at h
    have hready := ready_start program hlo hthreads found.isSome
      ⟨index = 0, (c :: cs).isEmpty⟩ (.replicate program.size true)
    generalize settle program _ _ (if found.isSome then threads else _) = ready at h hready
    -- A thread that takes the character keeps its beginning while the index goes up.
    have hmoved : ∀ t ∈ (ready.takeWhile (!·.isComplete program)).filterMap (·.take? program c),
        lo ≤ t.start ∧ t.start ≤ index + 1 := by
      intro t ht
      obtain ⟨u, hu, hut⟩ := List.mem_filterMap.1 ht
      rw [Thread.take?_start hut]
      have := hready u ((List.takeWhile_sublist _).mem hu)
      exact ⟨this.1, Nat.le_succ_of_le this.2⟩
    -- The best match so far is in bounds whether or not a thread is complete here.
    have hbest := best_bounds (·.isComplete program) hready hfound
    cases hfind : ready.find? (·.isComplete program) with
    | none =>
      simp only [hfind] at h hbest
      split at h
      · exact hbest span h
      · exact ih (Nat.le_succ_of_le hlo) hmoved hbest h
    | some t =>
      simp only [hfind] at h hbest
      split at h
      · exact hbest span h
      · exact ih (Nat.le_succ_of_le hlo) hmoved hbest h

/-- The match of a search at an index is one from before or ends at the index or later, but not
behind the text. -/
theorem scan_stop {program : Program} {index : Nat} {threads : List Thread}
    {found : Option (Nat × Nat)} {rest : List Char} {span : Nat × Nat}
    (h : scan program index threads found rest = some span) :
    found = some span ∨ index ≤ span.2 ∧ span.2 ≤ index + rest.length := by
  induction rest generalizing index threads found with
  | nil =>
    rw [scan] at h
    split at h
    · simp [← Option.some.inj h]
    · exact .inl h
  | cons c cs ih =>
    rw [scan] at h
    generalize settle program _ _ (if found.isSome then threads else _) = ready at h
    cases hfind : ready.find? (·.isComplete program) with
    | none =>
      simp only [hfind] at h
      split at h
      · exact .inl h
      · obtain hfound | ⟨hlo, hhi⟩ := ih h
        · exact .inl hfound
        · exact .inr ⟨by omega, by rw [List.length_cons]; omega⟩
    | some t =>
      simp only [hfind] at h
      right
      split at h
      · simp [← Option.some.inj h]
      · obtain hhere | ⟨hlo, hhi⟩ := ih h
        · simp [← Option.some.inj hhere]
        · exact ⟨by omega, by rw [List.length_cons]; omega⟩

theorem findFrom_bounds {program : Program} {index : Nat} {rest : List Char} {span : Nat × Nat}
    (h : findFrom program index rest = some span) : index ≤ span.1 ∧ span.1 ≤ span.2 :=
  scan_bounds (Nat.le_refl index) (by simp) (by simp) h

theorem findFrom_stop {program : Program} {index : Nat} {rest : List Char} {span : Nat × Nat}
    (h : findFrom program index rest = some span) : span.2 ≤ index + rest.length := by
  obtain hfound | ⟨-, hstop⟩ := scan_stop h
  · cases hfound
  · exact hstop

theorem findAfter_bounds {program : Program} {previous : Option Nat} {index : Nat}
    {rest : List Char} {span : Nat × Nat} (h : findAfter program previous index rest = some span) :
    index ≤ span.1 ∧ span.1 ≤ span.2 := by
  unfold findAfter at h
  split at h
  · cases h
  · rename_i first last hfind
    split at h
    · split at h
      · cases h
      · have := findFrom_bounds h
        exact ⟨Nat.le_of_succ_le this.1, this.2⟩
    · exact Option.some.inj h ▸ findFrom_bounds hfind

/-- A search after a match gives one that ends later. -/
theorem findAfter_stop {program : Program} {previous : Option Nat} {index : Nat} {rest : List Char}
    {span : Nat × Nat} (h : findAfter program previous index rest = some span) :
    span.2 ≤ index + rest.length ∧ (previous = some index → index < span.2) := by
  unfold findAfter at h
  split at h
  · cases h
  · rename_i first last hfind
    have hbounds := findFrom_bounds hfind
    split at h
    · split at h
      · cases h
      · have hnext := findFrom_bounds h
        have hstop := findFrom_stop h
        rw [List.length_cons]
        exact ⟨by omega, fun _ => by omega⟩
    · rename_i hempty
      obtain rfl := Option.some.inj h
      refine ⟨findFrom_stop hfind, fun hprevious => ?_⟩
      -- An empty match at the index would be one directly after the match before.
      refine Nat.lt_of_not_le fun hle => hempty ?_
      simp only at hbounds hle
      obtain rfl : index = last := by omega
      exact ⟨by omega, hprevious⟩

/-! ### All matches -/

/-- No match begins before `lo` or ends before it begins, and none begins before the end of the one
before it. -/
def InOrder : Nat → List (Nat × Nat) → Prop
  | _, [] => True
  | lo, span :: spans => lo ≤ span.1 ∧ span.1 ≤ span.2 ∧ InOrder span.2 spans

theorem spansFrom_inOrder (program : Program) (previous : Option Nat) (index : Nat)
    (rest : List Char) (n : Nat) : InOrder index (spansFrom program previous index rest n) := by
  induction n generalizing previous index rest with
  | zero => trivial
  | succ n ih =>
    rw [spansFrom]
    split
    · trivial
    · rename_i first last hfind
      obtain ⟨hfirst, hlast⟩ := findAfter_bounds hfind
      exact ⟨hfirst, hlast, ih _ _ _⟩

theorem spans_inOrder (r : Regex) (text : List Char) : InOrder 0 (r.spans text) :=
  spansFrom_inOrder _ _ _ _ _

/-- No match ends behind the text. -/
theorem stop_le_of_mem_spansFrom {program : Program} {previous : Option Nat} {index n : Nat}
    {rest : List Char} {span : Nat × Nat} (h : span ∈ spansFrom program previous index rest n) :
    span.2 ≤ index + rest.length := by
  induction n generalizing previous index rest with
  | zero => cases h
  | succ n ih =>
    rw [spansFrom] at h
    split at h
    · cases h
    · rename_i first last hfind
      have hfirst := findAfter_bounds hfind
      have hstop := (findAfter_stop hfind).1
      obtain rfl | h := List.mem_cons.1 h
      · exact hstop
      · have := ih h
        rw [List.length_drop] at this
        simp only at hfirst hstop
        omega

theorem stop_le_of_mem_spans {r : Regex} {text : List Char} {span : Nat × Nat}
    (h : span ∈ r.spans text) : span.2 ≤ text.length := by
  simpa using stop_le_of_mem_spansFrom h

/-- Every match ends later than the one before it. -/
theorem lt_stop_of_getElem?_spansFrom {program : Program} {index n k : Nat} {rest : List Char}
    {span : Nat × Nat} (h : (spansFrom program (some index) index rest n)[k]? = some span) :
    index + k < span.2 := by
  induction n generalizing index k rest with
  | zero => cases h
  | succ n ih =>
    rw [spansFrom] at h
    split at h
    · cases h
    · rename_i first last hfind
      have hlast := (findAfter_stop hfind).2 rfl
      cases k with
      | zero => exact Option.some.inj h ▸ hlast
      | succ k =>
        have := ih h
        simp only at hlast
        omega

/-- So there is no more than one match for each place where one may end. -/
theorem le_stop_of_getElem?_spans {r : Regex} {text : List Char} {k : Nat} {span : Nat × Nat}
    (h : (r.spans text)[k]? = some span) : k ≤ span.2 := by
  rw [spans, spansFrom] at h
  split at h
  · cases h
  · cases k with
    | zero => exact Nat.zero_le _
    | succ k =>
      have := lt_stop_of_getElem?_spansFrom h
      omega

theorem find_inOrder (r : Regex) (text : List Char) : InOrder 0 (r.find text).toList := by
  cases h : r.find text with
  | none => trivial
  | some span =>
    obtain ⟨hfirst, hlast⟩ := findFrom_bounds h
    exact ⟨hfirst, hlast, trivial⟩

end DataExpr.Regex
