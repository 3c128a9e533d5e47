import DataExpr.Proofs.Findings.Every

/-!
# Sequences whose items do not depend on anything

`Findings.ofItems` is the sequence of given items and errors.  Binding such a sequence to functions
that give such sequences gives one again (`bind_ofItems`).

`Findings.sifted` keeps the items that pass a test, where the test may note values in the journal.  The
items that are kept, whether all are asked for (`toList_sifted`, `collect_sifted`) or only one of them
(`nth_sifted`), are a matter of `List.filter`.
-/

namespace DataExpr

namespace Session

/-- The session after values have been noted. -/
def noting (vs : List Value) (s : Session) : Session := { s with journal := s.journal ++ vs.toArray }

@[simp] theorem nextNode_noting (vs : List Value) (s : Session) :
    (s.noting vs).nextNode = s.nextNode := rfl

@[simp] theorem journal_noting (vs : List Value) (s : Session) :
    (s.noting vs).journal.toList = s.journal.toList ++ vs := by
  simp [noting]

@[simp] theorem noting_nil (s : Session) : s.noting [] = s := by
  simp [noting]

@[simp] theorem noting_noting (us vs : List Value) (s : Session) :
    (s.noting us).noting vs = s.noting (us ++ vs) := by
  simp only [noting, Array.append_assoc, List.append_toArray]

end Session

namespace Findings

variable {α β : Type} {cells : Cells}

/-- The given items and errors in order. -/
def ofItems : List (Except EvalError α) → Findings α
  | [] => empty
  | i :: is => ⟨fun _ s => .found i (ofItems is) s⟩

theorem mk_pull (fs : Findings α) : (⟨fs.pull⟩ : Findings α) = fs := by
  cases fs
  rfl

theorem ofItems_ok (as : List α) : ofItems (as.map .ok) = ofList as := by
  induction as with
  | nil => rfl
  | cons a as ih => rw [List.map_cons, ofItems, ih, ofList]

@[simp] theorem empty_append (gs : Findings α) : empty.append gs = gs :=
  mk_pull gs

theorem append_ofItems (is js : List (Except EvalError α)) :
    (ofItems is).append (ofItems js) = ofItems (is ++ js) := by
  induction is with
  | nil => exact empty_append _
  | cons i is ih =>
    rw [List.cons_append, ofItems, ofItems, ← ih]
    rfl

theorem map_ofItems (f : α → β) (is : List (Except EvalError α)) :
    (ofItems is).map f = ofItems (is.map (Except.map f)) := by
  induction is with
  | nil => rfl
  | cons i is ih =>
    rw [List.map_cons, ofItems, ofItems, ← ih]
    cases i <;> rfl

/-- The items that take the place of one item; an error stays. -/
def expand (g : α → List (Except EvalError β)) : Except EvalError α → List (Except EvalError β)
  | .ok a => g a
  | .error e => [.error e]

/-- Sequences of given items for given items make up one sequence of given items. -/
theorem bind_ofItems {f : α → Run (Findings β)} {g : α → List (Except EvalError β)}
    {is : List (Except EvalError α)}
    (hf : ∀ a, .ok a ∈ is → ∀ cells s, f a cells s = (ofItems (g a), s)) :
    (ofItems is).bind f = ofItems (is.flatMap (expand g)) := by
  induction is with
  | nil => rfl
  | cons i is ih =>
    have ih := ih fun a ha => hf a (List.mem_cons_of_mem _ ha)
    rw [List.flatMap_cons, ← append_ofItems, ← ih]
    cases i with
    | error e =>
      show _ = (⟨fun _ s => .found (.error e) (empty.append _) s⟩ : Findings β)
      rw [empty_append]
      rfl
    | ok a =>
      -- The function is asked about the item only when that is pulled, so both sides are pulled once.
      rw [expand, ← mk_pull (append _ _), ofItems, bind]
      congr 1
      funext cells s
      rw [Pull.bind, hf a List.mem_cons_self]

/-! ### Asking for all items -/

theorem forEach_eq (f : Except EvalError α → Run β) (fs : Findings α) (s : Session) :
    fs.forEach f cells s = match fs.pull cells s with
      | .done t => ([], t)
      | .found i rest t =>
        ((f i cells t).1 :: (rest.forEach f cells (f i cells t).2).1,
          (rest.forEach f cells (f i cells t).2).2) := by
  cases fs with
  | mk pull =>
    show (pull cells s).forEach f cells = match pull cells s with
      | .done t => ([], t)
      | .found i rest t =>
        ((f i cells t).1 :: (rest.forEach f cells (f i cells t).2).1,
          (rest.forEach f cells (f i cells t).2).2)
    cases pull cells s <;> rfl

theorem toList_eq (fs : Findings α) (s : Session) :
    fs.toList cells s = match fs.pull cells s with
      | .done t => ([], t)
      | .found i rest t => (i :: (rest.toList cells t).1, (rest.toList cells t).2) :=
  forEach_eq pure fs s

theorem toList_delayed (step : Run (Option (Except EvalError α))) (s : Session) :
    (delayed step).toList cells s = ((step cells s).1.toList, (step cells s).2) := by
  rw [toList_eq, pull_delayed]
  rcases step cells s with ⟨_ | i, t⟩ <;> rfl

theorem collect_eq (fs : Findings α) (s : Session) :
    fs.collect cells s = (fs.pull cells s).collect cells := by
  cases fs
  rfl

/-- Where all items are no errors, they are what collecting gives. -/
theorem collect_of_toList {fs : Findings α} {as : List α} {s t : Session}
    (h : fs.toList cells s = (as.map .ok, t)) : fs.collect cells s = (.ok as, t) := by
  induction as generalizing fs s with
  | nil =>
    cases fs with
    | mk pull =>
      rw [toList_eq] at h
      show (pull cells s).collect cells = _
      cases hp : pull cells s with
      | done s' =>
        rw [show (mk pull).pull cells s = _ from hp] at h
        cases h
        rfl
      | found i rest s' =>
        rw [show (mk pull).pull cells s = _ from hp] at h
        cases h
  | cons a as ih =>
    cases fs with
    | mk pull =>
      rw [toList_eq] at h
      show (pull cells s).collect cells = _
      cases hp : pull cells s with
      | done s' =>
        rw [show (mk pull).pull cells s = _ from hp] at h
        cases h
      | found i rest s' =>
        rw [show (mk pull).pull cells s = _ from hp] at h
        obtain ⟨hitems, ht⟩ := Prod.mk.inj h
        obtain ⟨rfl, hrest⟩ := List.cons.inj hitems
        rw [Pull.collect, ih (Prod.ext hrest ht)]

theorem collect_ofList (as : List α) (s : Session) :
    (ofList as).collect cells s = (.ok as, s) := by
  induction as with
  | nil => rfl
  | cons a as ih =>
    rw [collect_eq]
    show Pull.collect (.found (.ok a) (ofList as) s) cells = _
    rw [Pull.collect, ih]

theorem nth_congr {fs gs : Findings α} {s t : Session} (h : fs.pull cells s = gs.pull cells t)
    (n : Nat) : fs.nth n cells s = gs.nth n cells t := by
  cases n with
  | zero => simp only [nth, first, h]
  | succ n => simp only [nth, h]

theorem nth_zero_of_pull {fs rest : Findings α} {a : α} {s t : Session}
    (h : fs.pull cells s = .found (.ok a) rest t) : fs.nth 0 cells s = (.ok (some a), t) := by
  simp only [nth, first, h]

theorem nth_succ_of_pull {fs rest : Findings α} {a : α} {s t : Session}
    (h : fs.pull cells s = .found (.ok a) rest t) (n : Nat) :
    fs.nth (n + 1) cells s = rest.nth n cells t := by
  simp only [nth, h]

theorem nth_ofList (as : List α) (n : Nat) (s : Session) :
    (ofList as).nth n cells s = (.ok as[n]?, s) := by
  induction as generalizing n with
  | nil => cases n <;> rfl
  | cons a as ih =>
    cases n with
    | zero => rfl
    | succ n => exact ih n

/-! ### Tests -/

/-- The items that pass the test. -/
def sifted (test : α → Run Bool) (fs : Findings α) : Findings α :=
  fs.bind fun a => return if ← test a then single a else empty

/-- A test that all items pass without being noticed keeps the sequence as it is. -/
theorem sifted_true (is : List (Except EvalError α)) :
    (ofItems is).sifted (fun _ => return true) = ofItems is := by
  refine (bind_ofItems (g := fun a => [.ok a]) fun _ _ _ _ => rfl).trans (congrArg ofItems ?_)
  induction is with
  | nil => rfl
  | cons i is ih => cases i <;> rw [List.flatMap_cons, ih] <;> rfl

section

variable (cells : Cells) {test : α → Run Bool} {holds : α → Bool} {notes : α → List Value}
variable (htest : ∀ a s, test a cells s = (holds a, s.noting (notes a)))

include htest

theorem pull_sifted_ok (a : α) (is : List (Except EvalError α)) (s : Session) :
    ((ofItems (.ok a :: is)).sifted test).pull cells s =
      if holds a then .found (.ok a) ((ofItems is).sifted test) (s.noting (notes a))
      else ((ofItems is).sifted test).pull cells (s.noting (notes a)) := by
  rw [sifted, pull_bind]
  show (((if (test a cells s).1 then single a else empty).append
    ((ofItems is).sifted test)).pull cells (test a cells s).2) = _
  rw [htest]
  cases holds a with
  | true =>
    rw [if_pos rfl, if_pos rfl]
    show Pull.found (.ok a) (empty.append _) _ = _
    rw [empty_append]
  | false =>
    rw [if_neg Bool.false_ne_true, if_neg Bool.false_ne_true, empty_append]

/-- What asking for all items gives, and that what is noted does not depend on the session. -/
theorem toList_sifted (is : List (Except EvalError α)) :
    ∃ ns, ∀ s, ((ofItems is).sifted test).toList cells s =
      (is.filter (fun i => i.toOption.all holds), s.noting ns) := by
  induction is with
  | nil => exact ⟨[], fun s => by rw [Session.noting_nil]; rfl⟩
  | cons i is ih =>
    obtain ⟨ns, ih⟩ := ih
    cases i with
    | error e =>
      refine ⟨ns, fun s => ?_⟩
      rw [List.filter_cons_of_pos rfl, toList_eq]
      show (.error e :: (((ofItems is).sifted test).toList cells s).1,
        (((ofItems is).sifted test).toList cells s).2) = _
      rw [ih]
    | ok a =>
      refine ⟨notes a ++ ns, fun s => ?_⟩
      rw [toList_eq, pull_sifted_ok cells htest, List.filter_cons]
      show _ = ((if holds a = true then _ else _), _)
      cases holds a with
      | true =>
        simp only [if_true, ih, Session.noting_noting]
      | false =>
        rw [if_neg Bool.false_ne_true, if_neg Bool.false_ne_true, ← toList_eq, ih,
          Session.noting_noting]

/-- What asking for one item gives, and that what is noted does not depend on the session. -/
theorem nth_sifted (as : List α) (n : Nat) :
    ∃ ns, ∀ s, ((ofItems (as.map .ok)).sifted test).nth n cells s =
      (.ok (as.filter holds)[n]?, s.noting ns) := by
  induction as generalizing n with
  | nil =>
    refine ⟨[], fun s => ?_⟩
    rw [Session.noting_nil]
    cases n <;> rfl
  | cons a as ih =>
    have hpull := fun s => pull_sifted_ok cells htest a (as.map .ok) s
    rw [List.filter_cons]
    cases ha : holds a with
    | true =>
      simp only [ha, if_true] at hpull
      cases n with
      | zero =>
        refine ⟨notes a, fun s => ?_⟩
        rw [List.map_cons, nth_zero_of_pull (hpull s)]
        rfl
      | succ n =>
        obtain ⟨ns, ih⟩ := ih n
        refine ⟨notes a ++ ns, fun s => ?_⟩
        rw [List.map_cons, nth_succ_of_pull (hpull s), ih, Session.noting_noting]
        rfl
    | false =>
      simp only [ha] at hpull
      obtain ⟨ns, ih⟩ := ih n
      refine ⟨notes a ++ ns, fun s => ?_⟩
      rw [List.map_cons, nth_congr (hpull s), ih, Session.noting_noting]
      rfl

end

end Findings

end DataExpr
