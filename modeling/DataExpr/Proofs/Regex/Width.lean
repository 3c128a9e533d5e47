import Mathlib.Data.List.TakeWhile
import DataExpr.Proofs.Regex.Spans

/-!
# Regular expressions of one width

`Regex.width?` is the number of characters of every match of a regex, if that is one number and the
regex does not ask for the end of the text.  The matches of a regex that has a width do not depend on
what comes after them: a match of a text is also one of every other text that agrees with it up to the
end of the match (`spans_append`).

The reason is that threads keep time.  In the program of the regex a match is complete after exactly
as many characters as its width, whichever way it takes (`Program.Needs`).  So threads that began
earlier, which are the preferred ones, are complete no later, and a search ends as soon as one thread
is complete (`scan_eq`).
-/

namespace DataExpr

/-! ### Code in a program -/

/-- Whether the instructions stand in the program, the first of them at the address `base`. -/
def Program.Holds (program : Program) (base : Nat) (code : List Instruction) : Prop :=
  ∀ i instruction, code[i]? = some instruction → program[base + i]? = some instruction

namespace Program.Holds

variable {program : Program} {base : Nat} {i : Instruction} {code before after : List Instruction}

theorem head (h : program.Holds base (i :: code)) : program[base]? = some i := h 0 i rfl

theorem tail (h : program.Holds base (i :: code)) : program.Holds (base + 1) code := by
  intro k instruction hk
  rw [Nat.add_assoc, Nat.add_comm 1]
  exact h (k + 1) instruction hk

theorem left (h : program.Holds base (before ++ after)) : program.Holds base before := by
  intro k instruction hk
  refine h k instruction ?_
  rw [List.getElem?_append_left (List.getElem?_eq_some_iff.1 hk).1, hk]

theorem right (h : program.Holds base (before ++ after)) :
    program.Holds (base + before.length) after := by
  intro k instruction hk
  rw [Nat.add_assoc]
  refine h _ instruction ?_
  rw [List.getElem?_append_right (Nat.le_add_right _ _), Nat.add_sub_cancel_left, hk]

end Program.Holds

/-! ### How many characters a match still takes -/

/-- From the address on a match is complete after exactly that many characters, whichever way is
taken, and it does not matter whether the text ends. -/
inductive Program.Needs (program : Program) : (address characters : Nat) → Prop where
  | accept {a : Nat} (h : program[a]? = some .accept) : Needs program a 0
  | one {a next k : Nat} {set : CharSet} (h : program[a]? = some (.one set next))
      (hnext : Needs program next k) : Needs program a (k + 1)
  | start {a next k : Nat} (h : program[a]? = some (.edge .start next))
      (hnext : Needs program next k) : Needs program a k
  | jump {a next k : Nat} (h : program[a]? = some (.jump next)) (hnext : Needs program next k) :
      Needs program a k
  | fork {a first second k : Nat} (h : program[a]? = some (.fork first second))
      (hfirst : Needs program first k) (hsecond : Needs program second k) : Needs program a k

/-- A piece whose matches have that many characters each: wherever it is put, a match needs as many
characters more at its beginning than it needs at the place to go on at. -/
structure Piece.Takes (p : Piece) (width : Nat) : Prop where
  length_code (base next : Nat) : (p.code base next).length = p.size
  needs {program : Program} {base next k : Nat} (hcode : program.Holds base (p.code base next))
    (hnext : program.Needs next k) : program.Needs base (k + width)

namespace Piece

variable {a b : Piece} {m n : Nat}

theorem takes_skip : skip.Takes 0 where
  length_code _ _ := rfl
  needs hcode hnext := .jump hcode.head hnext

theorem takes_one (set : CharSet) : (one set).Takes 1 where
  length_code _ _ := rfl
  needs hcode hnext := .one hcode.head hnext

theorem takes_start : (edge .start).Takes 0 where
  length_code _ _ := rfl
  needs hcode hnext := .start hcode.head hnext

theorem Takes.andThen (ha : a.Takes m) (hb : b.Takes n) : (a.andThen b).Takes (m + n) where
  length_code base next := by
    show (a.code _ _ ++ b.code _ _).length = a.size + b.size
    rw [List.length_append, ha.length_code, hb.length_code]
  needs {program base next k} hcode hnext := by
    have hright := hcode.right
    rw [ha.length_code] at hright
    rw [Nat.add_comm m, ← Nat.add_assoc]
    exact ha.needs hcode.left (hb.needs hright hnext)

theorem Takes.orElse (ha : a.Takes n) (hb : b.Takes n) : (a.orElse b).Takes n where
  length_code base next := by
    show (_ :: a.code _ _ ++ b.code _ _).length = 1 + a.size + b.size
    rw [List.length_append, List.length_cons, ha.length_code, hb.length_code, Nat.add_comm a.size]
  needs {program base next k} hcode hnext := by
    have hright := hcode.right
    rw [List.length_cons, ha.length_code, Nat.add_comm a.size, ← Nat.add_assoc] at hright
    exact .fork hcode.head (ha.needs hcode.left.tail hnext) (hb.needs hright hnext)

theorem Takes.times (ha : a.Takes n) : ∀ count, (a.times count).Takes (count * n)
  | 0 => by
    rw [Nat.zero_mul]
    exact takes_skip
  | 1 => by
    rw [Nat.one_mul]
    exact ha
  | count + 2 => by
    rw [Nat.succ_mul, Nat.add_comm _ n]
    exact ha.andThen (ha.times (count + 1))

/-- What is repeated a certain number of times takes as many times its characters. -/
theorem Takes.repeated (ha : a.Takes n) (count : Nat) (greedy consuming : Bool) :
    (a.repeated count (some count) greedy consuming).Takes (count * n) := by
  unfold Piece.repeated
  split
  · contradiction
  · contradiction
  · contradiction
  · rename_i hmost
    cases hmost
  · rename_i least most hmost
    obtain rfl := Option.some.inj hmost
    rw [if_pos (Nat.le_refl _)]
    exact ha.times _

end Piece

namespace Regex

/-! ### Widths -/

/-- The number of characters of every match, if that is one number and it does not matter where the
text ends. -/
def width? : Regex → Option Nat
  | empty | edge .start => some 0
  | one _ => some 1
  | edge .stop => none
  | group _ r => r.width?
  | seq a b => do return (← a.width?) + (← b.width?)
  | alt a b => do
    let width ← a.width?
    if b.width? = some width then some width else none
  | repeated least most _ r => if most = some least then r.width?.map (least * ·) else none

theorem takes_piece {r : Regex} {width : Nat} (h : r.width? = some width) :
    r.piece.Takes width := by
  induction r generalizing width with
  | empty =>
    obtain rfl := Option.some.inj h
    exact Piece.takes_skip
  | one set =>
    obtain rfl := Option.some.inj h
    exact Piece.takes_one set
  | edge e =>
    cases e with
    | start =>
      obtain rfl := Option.some.inj h
      exact Piece.takes_start
    | stop => cases h
  | group number r ih => exact ih h
  | seq a b iha ihb =>
    obtain ⟨m, hm, h⟩ := Option.bind_eq_some_iff.1 h
    obtain ⟨n, hn, h⟩ := Option.bind_eq_some_iff.1 h
    obtain rfl := Option.some.inj h
    exact (iha hm).andThen (ihb hn)
  | alt a b iha ihb =>
    obtain ⟨m, hm, h⟩ := Option.bind_eq_some_iff.1 h
    obtain ⟨hn, h⟩ := Option.ite_none_right_eq_some.1 h
    obtain rfl := Option.some.inj h
    exact (iha hm).orElse (ihb hn)
  | repeated least most greedy r ih =>
    obtain ⟨rfl, hwidth⟩ := Option.ite_none_right_eq_some.1 h
    obtain ⟨n, hn, rfl⟩ := Option.map_eq_some_iff.1 hwidth
    exact (ih hn).repeated least greedy _

/-- At the beginning of its program a regex needs its width. -/
theorem needs_program {r : Regex} {width : Nat} (h : r.width? = some width) :
    r.program.Needs 0 width := by
  have htakes := takes_piece h
  have hcode : r.program.Holds 0 (r.piece.code 0 r.piece.size ++ [.accept]) := by
    intro i instruction hi
    rw [Nat.zero_add, program, List.getElem?_toArray]
    exact hi
  have haccept := hcode.right.head
  rw [htakes.length_code, Nat.zero_add] at haccept
  rw [← Nat.zero_add width]
  exact htakes.needs hcode.left (.accept haccept)

/-! ### Threads that keep time -/

variable {program : Program} {width index : Nat}

/-- The thread will be complete when it has taken as many characters as the width has. -/
def Thread.OnTime (program : Program) (width index : Nat) (t : Thread) : Prop :=
  ∃ k, program.Needs t.address k ∧ t.start + width = index + k

namespace Thread

variable {t u : Thread}

theorem OnTime.goOn? {here : Place} {ts : List Thread} (h : t.OnTime program width index)
    (hts : t.goOn? program here = some ts) : ∀ u ∈ ts, u.OnTime program width index := by
  obtain ⟨k, hneeds, hk⟩ := h
  unfold Thread.goOn? at hts
  cases hneeds with
  | accept ha => simp [ha] at hts
  | one ha hnext => simp [ha] at hts
  | start ha hnext =>
    simp only [ha, Option.some.injEq] at hts
    subst hts
    split
    · simpa using ⟨k, hnext, hk⟩
    · simp
  | jump ha hnext =>
    simp only [ha, Option.some.injEq] at hts
    subst hts
    simpa using ⟨k, hnext, hk⟩
  | fork ha hfirst hsecond =>
    simp only [ha, Option.some.injEq] at hts
    subst hts
    simpa using ⟨⟨k, hfirst, hk⟩, ⟨k, hsecond, hk⟩⟩

/-- It does not matter whether the text ends at the index. -/
theorem OnTime.goOn?_congr (h : t.OnTime program width index) (isStart stop stop' : Bool) :
    t.goOn? program ⟨isStart, stop⟩ = t.goOn? program ⟨isStart, stop'⟩ := by
  obtain ⟨k, hneeds, -⟩ := h
  unfold Thread.goOn?
  cases hneeds with
  | start ha => simp only [ha]; rfl
  | _ ha => simp only [ha]

theorem OnTime.take? {c : Char} (h : t.OnTime program width index)
    (hu : t.take? program c = some u) : u.OnTime program width (index + 1) := by
  obtain ⟨k, hneeds, hk⟩ := h
  unfold Thread.take? at hu
  cases hneeds with
  | one ha hnext =>
    simp only [ha] at hu
    obtain ⟨-, hu⟩ := Option.ite_none_right_eq_some.1 hu
    obtain rfl := Option.some.inj hu
    exact ⟨_, hnext, hk.trans (by omega)⟩
  | _ ha => simp [ha] at hu

/-- A thread that has gone on as far as it can is complete when its time has come, and takes another
character before. -/
theorem OnTime.isComplete_iff {here : Place} (h : t.OnTime program width index)
    (hstay : t.goOn? program here = none) :
    t.isComplete program = true ↔ t.start + width = index := by
  obtain ⟨k, hneeds, hk⟩ := h
  unfold Thread.goOn? at hstay
  cases hneeds with
  | accept ha => simp [isComplete, ha, hk]
  | one ha hnext =>
    rw [isComplete, ha]
    simp
    omega
  | _ ha => simp [ha] at hstay

end Thread

/-! ### What waits at a place -/

theorem goOn?_eq_none_of_mem_settle {here : Place} {fresh : Array Bool} {waiting : List Thread} :
    ∀ t ∈ settle program here fresh waiting, t.goOn? program here = none := by
  induction fresh, waiting using settle.induct program here with
  | case1 => simp [settle]
  | case2 fresh t waiting hfresh hstay ih =>
    rw [settle_of_stay hfresh hstay]
    exact List.forall_mem_cons.2 ⟨hstay, ih⟩
  | case3 fresh t waiting hfresh ts hts ih =>
    rw [settle_of_goOn? hfresh hts]
    exact ih
  | case4 fresh t waiting hfresh ih =>
    rw [settle_of_passed hfresh]
    exact ih

/-- Threads in the order of their beginnings stay so when they go on. -/
theorem pairwise_settle {here : Place} {fresh : Array Bool} {waiting : List Thread}
    (h : waiting.Pairwise (·.start ≤ ·.start)) :
    (settle program here fresh waiting).Pairwise (·.start ≤ ·.start) := by
  induction fresh, waiting using settle.induct program here with
  | case1 => simp [settle]
  | case2 fresh t waiting hfresh hstay ih =>
    rw [settle_of_stay hfresh hstay]
    rw [List.pairwise_cons] at h
    exact List.pairwise_cons.2 ⟨settle_start program here _ _ h.1, ih h.2⟩
  | case3 fresh t waiting hfresh ts hts ih =>
    rw [settle_of_goOn? hfresh hts]
    rw [List.pairwise_cons] at h
    -- Those in the place of a thread have all begun where it did.
    have hstart := Thread.goOn?_start hts
    refine ih (List.pairwise_append.2 ⟨?_, h.2, fun u hu v hv => ?_⟩)
    · refine List.pairwise_iff_getElem.2 fun i j hi hj _ => ?_
      rw [hstart _ (List.getElem_mem hi), hstart _ (List.getElem_mem hj)]
    · rw [hstart u hu]
      exact h.1 v hv
  | case4 fresh t waiting hfresh ih =>
    rw [settle_of_passed hfresh]
    exact ih (List.pairwise_cons.1 h).2

theorem settle_congr {isStart stop stop' : Bool} {fresh : Array Bool} {waiting : List Thread}
    (h : ∀ t ∈ waiting, t.OnTime program width index) :
    settle program ⟨isStart, stop⟩ fresh waiting = settle program ⟨isStart, stop'⟩ fresh waiting := by
  induction fresh, waiting using settle.induct program ⟨isStart, stop⟩ with
  | case1 => simp [settle]
  | case2 fresh t waiting hfresh hstay ih =>
    rw [List.forall_mem_cons] at h
    have hstay' := (h.1.goOn?_congr isStart stop' stop).trans hstay
    rw [settle_of_stay hfresh hstay, settle_of_stay hfresh hstay', ih h.2]
  | case3 fresh t waiting hfresh ts hts ih =>
    rw [List.forall_mem_cons] at h
    have hts' := (h.1.goOn?_congr isStart stop' stop).trans hts
    rw [settle_of_goOn? hfresh hts, settle_of_goOn? hfresh hts']
    exact ih (List.forall_mem_append.2 ⟨h.1.goOn? hts, h.2⟩)
  | case4 fresh t waiting hfresh ih =>
    rw [settle_of_passed hfresh, settle_of_passed hfresh]
    exact ih (List.forall_mem_cons.1 h).2

/-- What is true of the threads that come to an index: none has begun behind it, the preferred ones
have begun first, and all keep time. -/
structure Abreast (program : Program) (width index : Nat) (threads : List Thread) : Prop where
  started : ∀ t ∈ threads, t.start ≤ index
  sorted : threads.Pairwise (·.start ≤ ·.start)
  onTime : ∀ t ∈ threads, t.OnTime program width index

/-- The threads that are ready at an index, of those that have come there and a new one. -/
def ready (program : Program) (index : Nat) (threads : List Thread) (isStop : Bool) : List Thread :=
  settle program ⟨index = 0, isStop⟩ (.replicate program.size true) (threads ++ [⟨index, 0⟩])

namespace Abreast

variable {threads : List Thread} {c : Char}

theorem nil : Abreast program width index [] :=
  ⟨by simp, .nil, by simp⟩

theorem begin (h : Abreast program width index threads) (hneeds : program.Needs 0 width) :
    Abreast program width index (threads ++ [⟨index, 0⟩]) where
  started := List.forall_mem_append.2 ⟨h.started, by simp⟩
  sorted := List.pairwise_append.2 ⟨h.sorted, List.pairwise_singleton _ _, by simpa using h.started⟩
  onTime := List.forall_mem_append.2 ⟨h.onTime, by simpa using ⟨width, hneeds, rfl⟩⟩

theorem ready (h : Abreast program width index threads) (hneeds : program.Needs 0 width)
    (isStop : Bool) : Abreast program width index (ready program index threads isStop) where
  started := settle_start (P := (· ≤ index)) program _ _ _ (h.begin hneeds).started
  sorted := pairwise_settle (h.begin hneeds).sorted
  onTime := settle_forall (fun ht hts => ht.goOn? hts) _ _ (h.begin hneeds).onTime

theorem take? (h : Abreast program width index threads) :
    Abreast program width (index + 1) (threads.filterMap (·.take? program c)) where
  started := by
    intro u hu
    obtain ⟨t, ht, htu⟩ := List.mem_filterMap.1 hu
    rw [Thread.take?_start htu]
    exact Nat.le_succ_of_le (h.started t ht)
  sorted := h.sorted.filterMap _ fun t t' htt' u hu u' hu' => by
    rw [Thread.take?_start hu, Thread.take?_start hu']
    exact htt'
  onTime := by
    intro u hu
    obtain ⟨t, ht, htu⟩ := List.mem_filterMap.1 hu
    exact (h.onTime t ht).take? htu

/-- No thread goes on before one that is complete, because it would have begun later. -/
theorem takeWhile_eq_nil {here : Place} (h : Abreast program width index threads)
    (hstay : ∀ t ∈ threads, t.goOn? program here = none) {t : Thread}
    (hfind : threads.find? (·.isComplete program) = some t) :
    threads.takeWhile (!·.isComplete program) = [] := by
  cases threads with
  | nil => rfl
  | cons u us =>
    have hmem : t ∈ u :: us := List.mem_of_find?_eq_some hfind
    have htime : t.start + width = index :=
      ((h.onTime t hmem).isComplete_iff (hstay t hmem)).1 (List.find?_some hfind)
    have hfirst : u.start ≤ t.start := by
      obtain rfl | ht := List.mem_cons.1 hmem
      · exact Nat.le_refl _
      · exact (List.pairwise_cons.1 h.sorted).1 t ht
    have hu := List.mem_cons_self (a := u) (l := us)
    -- So the time of the first thread has come as well.
    obtain ⟨k, -, hk⟩ := h.onTime u hu
    rw [List.takeWhile_cons_of_neg]
    rw [((h.onTime u hu).isComplete_iff (hstay u hu)).2 (by omega)]
    simp

/-- A search ends with the first thread that is complete, and whether the text ends makes no
difference as long as there is none. -/
theorem scan_eq (h : Abreast program width index threads) (hneeds : program.Needs 0 width)
    (rest : List Char) :
    scan program index threads none rest =
      match (Regex.ready program index threads false).find? (·.isComplete program) with
      | some t => some (t.start, index)
      | none =>
        match rest with
        | [] => none
        | c :: cs =>
          scan program (index + 1)
            ((Regex.ready program index threads false).filterMap (·.take? program c)) none cs := by
  have hready := h.ready hneeds false
  have hstay : ∀ t ∈ Regex.ready program index threads false,
      t.goOn? program ⟨index = 0, false⟩ = none := goOn?_eq_none_of_mem_settle
  -- What is left of the text does not matter to the threads that are ready.
  have hany : settle program ⟨index = 0, rest.isEmpty⟩ (.replicate program.size true)
      (threads ++ [⟨index, 0⟩]) = Regex.ready program index threads false :=
    settle_congr (h.begin hneeds).onTime
  conv =>
    lhs
    unfold scan
  simp only [Option.isSome_none, Bool.false_eq_true, if_false, hany]
  generalize Regex.ready program index threads false = ready at hready hstay
  cases hfind : ready.find? (·.isComplete program) with
  | none =>
    have hrunning : ready.takeWhile (!·.isComplete program) = ready := by
      rw [List.takeWhile_eq_self_iff]
      simpa using hfind
    cases rest with
    | nil => rfl
    | cons c cs => simp [hrunning]
  | some t =>
    rw [hready.takeWhile_eq_nil hstay hfind]
    cases rest <;> rfl

end Abreast

/-! ### Matches and what comes after them -/

/-- A search finds the same match if the text is another one after the end of the match. -/
theorem scan_append {threads : List Thread} {before after : List Char} {span : Nat × Nat}
    (hneeds : program.Needs 0 width) (h : Abreast program width index threads)
    (hscan : scan program index threads none (before ++ after) = some span)
    (hspan : span.2 ≤ index + before.length) (after' : List Char) :
    scan program index threads none (before ++ after') = some span := by
  induction before generalizing index threads with
  | nil =>
    rw [h.scan_eq hneeds] at hscan ⊢
    split at hscan
    · exact hscan
    · -- A match that ends at the index is found there.
      split at hscan
      · cases hscan
      · obtain hfound | ⟨hstop, -⟩ := scan_stop hscan
        · cases hfound
        · rw [List.length_nil] at hspan
          omega
  | cons c before ih =>
    rw [h.scan_eq hneeds] at hscan ⊢
    split at hscan
    · exact hscan
    · rw [List.length_cons] at hspan
      exact ih (h.ready hneeds false).take? hscan (by omega)

variable {before after : List Char} {span : Nat × Nat}

theorem findFrom_append (hneeds : program.Needs 0 width)
    (hfind : findFrom program index (before ++ after) = some span)
    (hspan : span.2 ≤ index + before.length) (after' : List Char) :
    findFrom program index (before ++ after') = some span :=
  scan_append hneeds .nil hfind hspan after'

theorem findAfter_append {previous : Option Nat} (hneeds : program.Needs 0 width)
    (hprevious : ∀ last, previous = some last → last ≤ index)
    (hfind : findAfter program previous index (before ++ after) = some span)
    (hspan : span.2 ≤ index + before.length) (after' : List Char) :
    findAfter program previous index (before ++ after') = some span := by
  unfold findAfter at hfind
  split at hfind
  · cases hfind
  · rename_i first last hfirst
    have hbounds := findFrom_bounds hfirst
    simp only at hbounds
    split at hfind
    · -- The first match is an empty one at the index, right after the match before.
      rename_i hempty
      have hlast := hprevious last hempty.2
      have hfirst' := findFrom_append hneeds hfirst (show last ≤ _ by omega) after'
      cases before with
      | nil =>
        cases after with
        | nil => cases hfind
        | cons c cs =>
          have := findFrom_bounds hfind
          rw [List.length_nil] at hspan
          omega
      | cons c cs =>
        rw [List.length_cons] at hspan
        unfold findAfter
        rw [hfirst']
        simp only [List.cons_append, if_pos hempty]
        exact findFrom_append hneeds hfind (by omega) after'
    · rename_i hempty
      obtain rfl := Option.some.inj hfind
      unfold findAfter
      rw [findFrom_append hneeds hfirst hspan after']
      exact if_neg hempty

theorem spansFrom_append {previous : Option Nat} {n n' k : Nat} (hneeds : program.Needs 0 width)
    (hprevious : ∀ last, previous = some last → last ≤ index)
    (hk : (spansFrom program previous index (before ++ after) n)[k]? = some span)
    (hspan : span.2 ≤ index + before.length) (hn : k < n') (after' : List Char) :
    (spansFrom program previous index (before ++ after') n')[k]? = some span := by
  induction n generalizing previous index before n' k with
  | zero => cases hk
  | succ n ih =>
    obtain ⟨n', rfl⟩ := Nat.exists_eq_add_one.2 (Nat.zero_lt_of_lt hn)
    rw [spansFrom] at hk ⊢
    split at hk
    · cases hk
    · rename_i first last hfind
      cases k with
      | zero =>
        obtain rfl := Option.some.inj hk
        rw [findAfter_append hneeds hprevious hfind hspan after']
        rfl
      | succ k =>
        -- The text from the end of the first match on goes on in the same way.
        have hlast : last < span.2 := by
          have := lt_stop_of_getElem?_spansFrom hk
          omega
        have hindex : index ≤ last := by
          have := findAfter_bounds hfind
          simp only at this
          omega
        have hdrop (tail : List Char) : (before ++ tail).drop (last - index) =
            before.drop (last - index) ++ tail := List.drop_append_of_le_length (by omega)
        rw [findAfter_append hneeds hprevious hfind (show last ≤ _ by omega) after']
        rw [hdrop] at hk
        simp only [hdrop]
        refine ih (by simp) hk ?_ (Nat.lt_of_succ_lt_succ hn)
        rw [List.length_drop]
        omega

/-- The matches of a regex that has a width are also matches of every text that agrees with this one
up to their ends. -/
theorem spans_append {r : Regex} (hwidth : r.width? = some width) {k : Nat}
    (hk : (r.spans (before ++ after))[k]? = some span) (hspan : span.2 ≤ before.length)
    (after' : List Char) : (r.spans (before ++ after'))[k]? = some span := by
  refine spansFrom_append (needs_program hwidth) (by simp) hk (by omega) ?_ after'
  have := le_stop_of_getElem?_spans hk
  rw [List.length_append]
  omega

end Regex

end DataExpr
