import DataExpr.Store

/-!
# Lazy sequences of findings

`Findings α` is a finite sequence of items, each an `α` or an error, that are computed one by one as
they are asked for.  Computing the next item is a `Run`: it may read cells and make containers, and
cells may be overwritten by the host between one item and the next.  What has been asked for is never
computed again, and what is never asked for has no effect.

The sequence is a well-founded tree: `Findings.next` gives an item together with a smaller sequence.
So functions on sequences are written by recursion on them, and every sequence ends whatever the cells
hold when its items are asked for.

`Findings.bind` runs a sequence for every item of another one, the first varying slowest; errors pass
through in place.
-/

namespace DataExpr

mutual

/-- A lazy sequence of items and errors. -/
inductive Findings (α : Type) where
  | mk (pull : Cells → Session → Findings.Pull α)

/-- The outcome of asking a sequence for its next item. -/
inductive Findings.Pull (α : Type) where
  /-- There are no more items. -/
  | done (session : Session)
  /-- The next item and what comes after it. -/
  | found (item : Except EvalError α) (rest : Findings α) (session : Session)

end

namespace Findings

variable {α β : Type}

/-- Ask for the next item. -/
def pull : Findings α → Cells → Session → Pull α
  | ⟨pull⟩ => pull

/-- The next item and what comes after it, if there is one. -/
def next (fs : Findings α) : Run (Option (Except EvalError α × Findings α)) := fun cells session =>
  match fs.pull cells session with
  | .done session => (none, session)
  | .found item rest session => (some (item, rest), session)

/-- The sequence whose next item, if any, is computed by the given run when it is asked for. -/
def ofNext (step : Run (Option (Except EvalError α × Findings α))) : Findings α :=
  ⟨fun cells session =>
    match step cells session with
    | (none, session) => .done session
    | (some (item, rest), session) => .found item rest session⟩

instance : Inhabited (Findings α) := ⟨⟨fun _ session => .done session⟩⟩

/-- No items. -/
def empty : Findings α := ⟨fun _ session => .done session⟩

/-- One item, or one error. -/
def one (item : Except EvalError α) : Findings α := ⟨fun _ session => .found item empty session⟩

/-- One item. -/
def single (a : α) : Findings α := one (.ok a)

/-- One error. -/
def failed (e : EvalError) : Findings α := one (.error e)

/-- The given items in order. -/
def ofList : List α → Findings α
  | [] => empty
  | a :: as => ⟨fun _ session => .found (.ok a) (ofList as) session⟩

/-- One item or error that is computed when it is asked for, or none. -/
def delayed (step : Run (Option (Except EvalError α))) : Findings α :=
  ofNext do return (← step).map (·, empty)

/-! ### Building sequences from sequences -/

mutual

/-- The items of the first sequence and then those of the second. -/
def append : Findings α → Findings α → Findings α
  | ⟨pull⟩, gs => ⟨fun cells session => (pull cells session).append gs cells⟩

/-- The outcome for the items of a sequence followed by those of another. -/
def Pull.append : Pull α → Findings α → Cells → Pull α
  | .done session, gs, cells => gs.pull cells session
  | .found item rest session, gs, _ => .found item (append rest gs) session

end

mutual

/-- For each item the sequence that `f` gives for it, one after the other; errors stay in place. -/
def bind (f : α → Run (Findings β)) : Findings α → Findings β
  | ⟨pull⟩ => ⟨fun cells session => (pull cells session).bind f cells⟩

/-- The outcome for the sequences of the items of a sequence. -/
def Pull.bind (f : α → Run (Findings β)) : Pull α → Cells → Pull β
  | .done session, _ => .done session
  | .found (.error e) rest session, _ => .found (.error e) (bind f rest) session
  | .found (.ok a) rest session, cells =>
    let (inner, session) := f a cells session
    (inner.append (bind f rest)).pull cells session

end

mutual

/-- The items changed by `f`, which runs when an item is asked for; errors stay as they are. -/
def mapRun (f : α → Run β) : Findings α → Findings β
  | ⟨pull⟩ => ⟨fun cells session => (pull cells session).mapRun f cells⟩

/-- The outcome for the changed items of a sequence. -/
def Pull.mapRun (f : α → Run β) : Pull α → Cells → Pull β
  | .done session, _ => .done session
  | .found (.error e) rest session, _ => .found (.error e) (mapRun f rest) session
  | .found (.ok a) rest session, cells =>
    let (b, session) := f a cells session
    .found (.ok b) (mapRun f rest) session

end

/-- The items changed by `f`. -/
def map (f : α → β) (fs : Findings α) : Findings β := fs.mapRun fun a => return f a

/-- The first `n` items and errors; those after them are not asked for. -/
def take : Nat → Findings α → Findings α
  | 0, _ => empty
  | n + 1, fs =>
    ⟨fun cells session =>
      match fs.pull cells session with
      | .done session => .done session
      | .found item rest session => .found item (take n rest) session⟩

/-! ### Consuming sequences -/

/-- The first item, or the error in its place, if there is any. -/
def first (fs : Findings α) : Eval (Option α) := fun cells session =>
  match fs.pull cells session with
  | .done session => (.ok none, session)
  | .found (.ok a) _ session => (.ok (some a), session)
  | .found (.error e) _ session => (.error e, session)

/-- The item at a position, if there is one.  An error at the position or before it is the outcome. -/
def nth : Nat → Findings α → Eval (Option α)
  | 0, fs => fs.first
  | n + 1, fs => fun cells session =>
    match fs.pull cells session with
    | .done session => (.ok none, session)
    | .found (.ok _) rest session => nth n rest cells session
    | .found (.error e) _ session => (.error e, session)

mutual

/-- What a run gives for each item and error, in order. -/
def forEach (f : Except EvalError α → Run β) : Findings α → Run (List β)
  | ⟨pull⟩ => fun cells session => (pull cells session).forEach f cells

/-- What a run gives for the rest of a sequence. -/
def Pull.forEach (f : Except EvalError α → Run β) : Pull α → Cells → List β × Session
  | .done session, _ => ([], session)
  | .found item rest session, cells =>
    let (b, session) := f item cells session
    let (bs, session) := forEach f rest cells session
    (b :: bs, session)

end

mutual

/-- All items in order, or the first error. -/
def collect : Findings α → Eval (List α)
  | ⟨pull⟩ => fun cells session => (pull cells session).collect cells

/-- All items of the rest of a sequence, or the first error. -/
def Pull.collect : Pull α → Cells → Except EvalError (List α) × Session
  | .done session, _ => (.ok [], session)
  | .found (.error e) _ session, _ => (.error e, session)
  | .found (.ok a) rest session, cells =>
    match collect rest cells session with
    | (.ok as, session) => (.ok (a :: as), session)
    | (.error e, session) => (.error e, session)

end

/-- All items and errors in order. -/
def toList (fs : Findings α) : Run (List (Except EvalError α)) := fs.forEach pure

end Findings

end DataExpr
