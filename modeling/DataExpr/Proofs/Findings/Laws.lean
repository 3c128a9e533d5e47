import DataExpr.Proofs.Findings.Items

/-!
# Laws of sequences

Joining sequences is associative with the empty sequence on both sides (`append_assoc`,
`append_empty`), binding is associative and distributes over joining (`bind_bind`, `bind_append`), and
taking the first items twice is taking them once (`take_take`).  These are equations between
sequences, not between their items: the two sides ask the cells and the session the same things in the
same order, so they cannot be told apart by what is noted or by when the cells are overwritten.
-/

namespace DataExpr.Findings

variable {α β γ : Type}

/-- Two sequences are the same if asking them for their next item gives the same. -/
theorem ext_pull {fs gs : Findings α} (h : ∀ cells s, fs.pull cells s = gs.pull cells s) :
    fs = gs := by
  rw [← mk_pull fs, ← mk_pull gs]
  exact congrArg Findings.mk (funext fun cells => funext (h cells))

/-! ### Joining -/

mutual

theorem append_empty : ∀ fs : Findings α, fs.append empty = fs
  | ⟨pull⟩ => by
    rw [append]
    congr 1
    funext cells s
    exact Pull.append_empty (pull cells s) cells

theorem Pull.append_empty : ∀ (p : Pull α) (cells : Cells), p.append empty cells = p
  | .done _, _ => rfl
  | .found i rest s, _ => by rw [Pull.append, append_empty rest]

end

mutual

theorem append_assoc : ∀ fs gs hs : Findings α,
    (fs.append gs).append hs = fs.append (gs.append hs)
  | ⟨pull⟩, gs, hs => by
    rw [append, append, append]
    congr 1
    funext cells s
    exact Pull.append_assoc (pull cells s) gs hs cells

theorem Pull.append_assoc : ∀ (p : Pull α) (gs hs : Findings α) (cells : Cells),
    (p.append gs cells).append hs cells = p.append (gs.append hs) cells
  | .done s, gs, hs, cells => by rw [Pull.append, Pull.append, pull_append]
  | .found i rest s, gs, hs, cells => by
    rw [Pull.append, Pull.append, Pull.append, append_assoc rest gs hs]

end

theorem ofList_append (as bs : List α) : ofList (as ++ bs) = (ofList as).append (ofList bs) := by
  rw [← ofItems_ok, ← ofItems_ok, ← ofItems_ok, append_ofItems, List.map_append]

theorem ofList_cons (a : α) (as : List α) : ofList (a :: as) = (single a).append (ofList as) :=
  ofList_append [a] as

/-! ### Binding -/

/-- An item is asked for its sequence when it is reached, and the rest is bound after it. -/
theorem Pull.bind_ok (f : α → Run (Findings β)) (a : α) (rest : Findings α) (s : Session)
    (cells : Cells) : (Pull.found (.ok a) rest s).bind f cells =
      ((f a cells s).1.append (rest.bind f)).pull cells (f a cells s).2 := rfl

mutual

theorem bind_append (f : α → Run (Findings β)) : ∀ fs gs : Findings α,
    (fs.append gs).bind f = (fs.bind f).append (gs.bind f)
  | ⟨pull⟩, gs => by
    rw [append, bind, bind, append]
    congr 1
    funext cells s
    exact Pull.bind_append f (pull cells s) gs cells

theorem Pull.bind_append (f : α → Run (Findings β)) :
    ∀ (p : Pull α) (gs : Findings α) (cells : Cells),
      (p.append gs cells).bind f cells = (p.bind f cells).append (gs.bind f) cells
  | .done s, gs, cells => by rw [Pull.append, Pull.bind, Pull.append, pull_bind]
  | .found (.error e) rest s, gs, cells => by
    rw [Pull.append, Pull.bind, Pull.bind, Pull.append, bind_append f rest gs]
  | .found (.ok a) rest s, gs, cells => by
    rw [Pull.append, Pull.bind_ok, Pull.bind_ok, bind_append f rest gs, ← append_assoc, pull_append]

end

mutual

/-- What is bound to the items of a bound sequence can be bound to each of its parts. -/
theorem bind_bind (f : α → Run (Findings β)) (g : β → Run (Findings γ)) : ∀ fs : Findings α,
    (fs.bind f).bind g = fs.bind fun a => return (← f a).bind g
  | ⟨pull⟩ => by
    rw [bind, bind, bind]
    congr 1
    funext cells s
    exact Pull.bind_bind f g (pull cells s) cells

theorem Pull.bind_bind (f : α → Run (Findings β)) (g : β → Run (Findings γ)) :
    ∀ (p : Pull α) (cells : Cells),
      (p.bind f cells).bind g cells = p.bind (fun a => return (← f a).bind g) cells
  | .done s, cells => by rw [Pull.bind, Pull.bind, Pull.bind]
  | .found (.error e) rest s, cells => by
    rw [Pull.bind, Pull.bind, Pull.bind, bind_bind f g rest]
  | .found (.ok a) rest s, cells => by
    rw [Pull.bind_ok, Pull.bind_ok, ← pull_bind, bind_append, bind_bind f g rest]
    rfl

end

theorem single_bind (a : α) (f : α → Run (Findings β)) :
    (single a).bind f = ⟨fun cells s => (f a cells s).1.pull cells (f a cells s).2⟩ := by
  refine ext_pull fun cells s => ?_
  show ((f a cells s).1.append empty).pull cells (f a cells s).2 = _
  rw [append_empty]
  rfl

/-- A function that asks for nothing gives its sequence for a single item. -/
theorem single_bind_pure (a : α) (f : α → Findings β) :
    ((single a).bind fun a => return f a) = f a := by
  rw [single_bind]
  exact mk_pull (f a)

mutual

theorem bind_single : ∀ fs : Findings α, (fs.bind fun a => return single a) = fs
  | ⟨pull⟩ => by
    rw [bind]
    congr 1
    funext cells s
    exact Pull.bind_single (pull cells s) cells

theorem Pull.bind_single : ∀ (p : Pull α) (cells : Cells),
    p.bind (fun a => return single a) cells = p
  | .done s, cells => rfl
  | .found (.error e) rest s, cells => by rw [Pull.bind, bind_single rest]
  | .found (.ok a) rest s, cells => by
    rw [Pull.bind_ok, bind_single rest]
    show Pull.found (.ok a) (empty.append rest) s = _
    rw [empty_append]

end

/-! ### Changing items -/

mutual

theorem map_eq_bind (f : α → β) : ∀ fs : Findings α,
    fs.map f = fs.bind fun a => return single (f a)
  | ⟨pull⟩ => by
    rw [map, mapRun, bind]
    congr 1
    funext cells s
    exact Pull.map_eq_bind f (pull cells s) cells

theorem Pull.map_eq_bind (f : α → β) : ∀ (p : Pull α) (cells : Cells),
    p.mapRun (fun a => return f a) cells = p.bind (fun a => return single (f a)) cells
  | .done s, cells => rfl
  | .found (.error e) rest s, cells => by
    rw [Pull.mapRun, Pull.bind, ← map_eq_bind f rest, map]
  | .found (.ok a) rest s, cells => by
    rw [Pull.mapRun, Pull.bind, ← map_eq_bind f rest, map]
    show Pull.found _ _ _ = Pull.found _ (empty.append _) _
    rw [empty_append]

end

theorem map_id (fs : Findings α) : fs.map (fun a => a) = fs := by
  rw [map_eq_bind, bind_single]

theorem map_single (f : α → β) (a : α) : (single a).map f = single (f a) := by
  rw [map_eq_bind, single_bind_pure]

theorem map_map (f : α → β) (g : β → γ) (fs : Findings α) :
    (fs.map f).map g = fs.map fun a => g (f a) := by
  rw [map_eq_bind, map_eq_bind, map_eq_bind, bind_bind]
  simp only [pure_bind, single_bind_pure]

theorem map_bind (f : α → Run (Findings β)) (g : β → γ) (fs : Findings α) :
    (fs.bind f).map g = fs.bind fun a => return (← f a).map g := by
  rw [map_eq_bind, bind_bind]
  simp only [map_eq_bind]

mutual

theorem bind_map (f : α → β) (g : β → Run (Findings γ)) : ∀ fs : Findings α,
    (fs.map f).bind g = fs.bind fun a => g (f a)
  | ⟨pull⟩ => by
    rw [map, mapRun, bind, bind]
    congr 1
    funext cells s
    exact Pull.bind_map f g (pull cells s) cells

theorem Pull.bind_map (f : α → β) (g : β → Run (Findings γ)) : ∀ (p : Pull α) (cells : Cells),
    (p.mapRun (fun a => return f a) cells).bind g cells = p.bind (fun a => g (f a)) cells
  | .done s, cells => rfl
  | .found (.error e) rest s, cells => by
    rw [Pull.mapRun, Pull.bind, Pull.bind, ← bind_map f g rest, map]
  | .found (.ok a) rest s, cells => by
    show (Pull.found (.ok (f a)) (rest.map f) s).bind g cells = _
    rw [Pull.bind_ok, Pull.bind_ok, bind_map f g rest]

end

/-! ### Taking items -/

/-- The first items of the first items are as many as the smaller number says. -/
theorem take_take (m n : Nat) (fs : Findings α) : (fs.take m).take n = fs.take (min m n) := by
  induction m generalizing n fs with
  | zero => cases n <;> rfl
  | succ m ih =>
    cases n with
    | zero => rfl
    | succ n =>
      refine ext_pull fun cells s => ?_
      rw [Nat.succ_min_succ, pull_take_succ, pull_take_succ, pull_take_succ]
      cases fs.pull cells s with
      | done t => rfl
      | found i rest t => exact congrArg (Pull.found i · t) (ih n rest)

end DataExpr.Findings
