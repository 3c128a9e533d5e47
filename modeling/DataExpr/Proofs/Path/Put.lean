import DataExpr.Proofs.Evaluation
import DataExpr.Proofs.Value.Content

/-!
# What is at the end of a path, and putting something there

`Path.get?` follows a path from a value, reading through cells on the way, and `Path.Settable` says
that a path can be followed but for a key at its end that may be new.  `Path.put` is the value that
`Path.set` makes, as a function of the number that the next container gets: where the path can be set,
`Settable.set_apply` says that `Path.set` succeeds with it.

What has been put at a path is there afterwards (`Settable.get?_put`), and places on no way to or from
it keep what they had (`Settable.get?_put_of_ne`).  Putting back what is there changes at most which
containers the value is made of (`content_put`).  `set_append` splits a path in two: the inner part is
set first and the outcome is put at the end of the outer one.
-/

namespace DataExpr

namespace Value

/-- The container with another child at a step, as a container of the given number. -/
def withChild (node : Nat) : Value → Step → Value → Value
  | list _ items, .index i, c => list node (setItem items i c)
  | map _ entries, .key k, c => map node (Entries.insert entries k c)
  | v, _, _ => v

theorem getElem?_setItem {items : List Value} {i : Nat} (hi : i < items.length) (c : Value)
    (j : Nat) : (setItem items i c)[j]? = if j = i then some c else items[j]? := by
  rw [setItem, if_pos hi, List.getElem?_set]
  by_cases h : i = j
  · rw [if_pos h, if_pos h.symm, if_pos hi]
  · rw [if_neg h, if_neg (Ne.symm h)]

/-- Whether the value is a container that can be given a child at the step: a list has to have the
position, and a map may have the key or not. -/
def Admits : Value → Step → Prop
  | list _ items, .index i => i < items.length
  | map _ _, .key _ => True
  | _, _ => False

theorem admits_of_child? {v old : Value} {step : Step} (h : v.child? step = some old) :
    v.Admits step := by
  unfold child? at h
  split at h
  · obtain ⟨hi, -⟩ := List.getElem?_eq_some_iff.1 h
    exact hi
  · trivial
  · cases h

/-- Writing to one child changes that child only. -/
theorem Admits.child?_withChild {v : Value} {step : Step} (h : v.Admits step) (node : Nat)
    (c : Value) (step' : Step) :
    (v.withChild node step c).child? step' = if step' = step then some c else v.child? step' := by
  unfold Admits at h
  split at h
  · rename_i items i
    cases step' with
    | index j =>
      rw [withChild, child?_list, getElem?_setItem h, child?_list]
      simp only [Step.index.injEq]
    | key k => rfl
  · rename_i entries k
    cases step' with
    | index j => rfl
    | key k' =>
      rw [withChild, child?_map, Entries.get?_insert, child?_map]
      simp only [Step.key.injEq, eq_comm]
  · cases h

theorem child?_withChild {v old : Value} {step : Step} (h : v.child? step = some old) (node : Nat)
    (c : Value) (step' : Step) :
    (v.withChild node step c).child? step' = if step' = step then some c else v.child? step' :=
  (admits_of_child? h).child?_withChild node c step'

theorem Admits.withChild_ne_cell {v : Value} {step : Step} (h : v.Admits step) (node : Nat)
    (c : Value) (id : Nat) : v.withChild node step c ≠ cell id := by
  unfold Admits at h
  split at h
  · simp [withChild]
  · simp [withChild]
  · cases h

theorem withChild_ne_cell {v old : Value} {step : Step} (h : v.child? step = some old) (node : Nat)
    (c : Value) (id : Nat) : v.withChild node step c ≠ cell id :=
  (admits_of_child? h).withChild_ne_cell node c id

/-- Writing back a child of the same content keeps the content. -/
theorem content_withChild {v old c : Value} {step : Step} (h : v.child? step = some old)
    (hc : c.content = old.content) (node : Nat) :
    (v.withChild node step c).content = v.content := by
  unfold child? at h
  split at h
  · rename_i items i
    obtain ⟨hi, rfl⟩ := List.getElem?_eq_some_iff.1 h
    rw [withChild, content_list, content_list, setItem, if_pos hi, List.map_set, hc]
    congr 1
    rw [← List.getElem_map content (h := by simpa using hi), List.set_getElem_self]
  · rename_i entries k
    rw [withChild, content_map, content_map, Entries.mapValues_insert, hc, Entries.insert_of_get?]
    rw [Entries.get?_mapValues, h]
    rfl
  · cases h

theorem Plain.child? {v c : Value} (hv : v.Plain) {step : Step} (h : v.child? step = some c) :
    c.Plain :=
  hv.child (mem_children_of_child? h)

/-- The steps to the children of a value without double keys lead to these children. -/
theorem child?_of_mem {v : Value}
    (hv : ∀ entries, v.entries? = some entries → (Entries.keys entries).Nodup) {c : Value × Step}
    (hc : c ∈ v.children) : v.child? c.2 = some c.1 := by
  obtain ⟨c, step⟩ := c
  cases v with
  | list node items =>
    obtain ⟨i, hi, rfl⟩ := mem_children_list.1 hc
    exact hi
  | map node entries =>
    obtain ⟨k, hk, rfl⟩ := mem_children_map.1 hc
    exact Entries.get?_of_mem (hv entries rfl) hk
  | _ => cases hc

theorem Plain.child?_of_mem {v : Value} (hv : v.Plain) {c : Value × Step} (hc : c ∈ v.children) :
    v.child? c.2 = some c.1 :=
  Value.child?_of_mem (fun _ he => hv.wellFormed.keys he) hc

end Value

namespace Path

variable {cells : Cells} {root old : Value} {path : Path}

/-! ### Following a path -/

/-- The value at the end of a path, cells on the way being read through. -/
def get? (cells : Cells) : Path → Value → Option Value
  | [], v => some v
  | step :: rest, v => ((cells.resolve v).child? step).bind (get? cells rest)

@[simp] theorem get?_nil (cells : Cells) (v : Value) : get? cells [] v = some v := rfl

theorem get?_cons (cells : Cells) (step : Step) (rest : Path) (v : Value) :
    get? cells (step :: rest) v = ((cells.resolve v).child? step).bind (get? cells rest) := rfl

theorem get?_cons_eq_some {step : Step} {rest : Path} {v : Value} :
    get? cells (step :: rest) root = some v ↔
      ∃ c, (cells.resolve root).child? step = some c ∧ get? cells rest c = some v :=
  Option.bind_eq_some_iff

theorem get?_append (cells : Cells) (p q : Path) (v : Value) :
    get? cells (p ++ q) v = (get? cells p v).bind (get? cells q) := by
  induction p generalizing v with
  | nil => rfl
  | cons step rest ih =>
    rw [List.cons_append, get?_cons, get?_cons, Option.bind_assoc]
    exact congrArg _ (funext ih)

theorem plain_of_get? (hr : root.Plain) (h : get? cells path root = some old) : old.Plain := by
  induction path generalizing root with
  | nil => exact Option.some.inj h ▸ hr
  | cons step rest ih =>
    obtain ⟨c, hc, h⟩ := get?_cons_eq_some.1 h
    rw [hr.resolve] at hc
    exact ih (hr.child? hc) h

/-- In a value without cells the cells do not matter. -/
theorem get?_of_plain (hr : root.Plain) (cells cells' : Cells) (path : Path) :
    get? cells path root = get? cells' path root := by
  induction path generalizing root with
  | nil => rfl
  | cons step rest ih =>
    rw [get?_cons, get?_cons, hr.resolve, hr.resolve]
    cases hc : root.child? step with
    | none => rfl
    | some c => exact ih (hr.child? hc)

/-! ### Paths that can be set -/

/-- The path can be set: cells being read through, each step leads to a child that is there, where the
last step may also be a key that its map does not have. -/
inductive Settable (cells : Cells) : Path → Value → Prop where
  | here (root : Value) : Settable cells [] root
  | step {root c : Value} {step : Step} {rest : Path}
    (hc : (cells.resolve root).child? step = some c) (below : Settable cells rest c) :
    Settable cells (step :: rest) root
  | newKey {root : Value} {node : Nat} {entries : List (String × Value)} {k : String}
    (hmap : cells.resolve root = .map node entries) (hnew : Entries.get? entries k = none) :
    Settable cells [.key k] root

theorem settable_of_get? (h : get? cells path root = some old) : Settable cells path root := by
  induction path generalizing root with
  | nil => exact .here root
  | cons step rest ih =>
    obtain ⟨c, hc, hold⟩ := get?_cons_eq_some.1 h
    exact .step hc (ih hold)

/-! ### Putting a value at the end -/

/-- A new container that has another child at a step. -/
def newWithChild (v : Value) (step : Step) (c : Value) : Eval Value := do
  return v.withChild (← Run.freshNode) step c

/-- The value with a new one at the end of the path, where new containers have the numbers from
`fresh` on, the innermost first. -/
def put (cells : Cells) (fresh : Nat) : Path → Value → Value → Value
  | [], _, new => new
  | step :: rest, root, new =>
    (cells.resolve root).withChild (fresh + rest.length) step
      (put cells fresh rest (((cells.resolve root).child? step).getD .undefined) new)

theorem put_cons {c : Value} {step : Step} (hc : (cells.resolve root).child? step = some c)
    (fresh : Nat) (rest : Path) (new : Value) :
    put cells fresh (step :: rest) root new =
      (cells.resolve root).withChild (fresh + rest.length) step (put cells fresh rest c new) := by
  rw [put, hc, Option.getD_some]

/-- A step of `Path.set` sets the rest of the path in the child and makes one new container. -/
theorem set_cons_apply {c : Value} {step : Step} (hc : (cells.resolve root).child? step = some c)
    (rest : Path) (new : Value) (s : Session) :
    Path.set (step :: rest) root new cells s =
      (Path.set rest c new >>= newWithChild (cells.resolve root) step) cells s := by
  unfold Value.child? at hc
  split at hc
  · rename_i hv
    rw [Path.set, Eval.bind_apply, Eval.lift_apply, Run.resolve_apply, hv]
    simp only [hc]
    rfl
  · rename_i hv
    rw [Path.set, Eval.bind_apply, Eval.lift_apply, Run.resolve_apply, hv]
    simp only [hc, Option.getD_some]
    rfl
  · cases hc

/-- The children of what has been put, one step below the root. -/
theorem child?_resolve_put {step : Step} (h : (cells.resolve root).Admits step) (fresh : Nat)
    (rest : Path) (new : Value) (step' : Step) :
    (cells.resolve (put cells fresh (step :: rest) root new)).child? step' =
      if step' = step then
        some (put cells fresh rest (((cells.resolve root).child? step).getD .undefined) new)
      else (cells.resolve root).child? step' := by
  rw [put, cells.resolve_of_ne_cell (h.withChild_ne_cell _ _)]
  exact h.child?_withChild _ _ _

/-- Where the path can be set, setting it succeeds. -/
theorem Settable.set_apply (h : Settable cells path root) (new : Value) (s : Session) :
    Path.set path root new cells s =
      (.ok (put cells s.nextNode path root new), s.after path.length) := by
  induction h with
  | here root => rfl
  | @step root c step rest hc _ ih =>
    rw [set_cons_apply hc, put_cons hc, Eval.bind_apply, ih, List.length_cons,
      ← Session.after_after]
    rfl
  | @newKey root node entries k hmap hnew =>
    rw [Path.set, Eval.bind_apply, Eval.lift_apply, Run.resolve_apply, put, hmap]
    rfl

/-- What has been put at a path is there. -/
theorem Settable.get?_put (h : Settable cells path root) (fresh : Nat) (new : Value) :
    get? cells path (put cells fresh path root new) = some new := by
  induction h with
  | here root => rfl
  | step hc _ ih =>
    rw [get?_cons, child?_resolve_put (Value.admits_of_child? hc), if_pos rfl, Option.bind_some, hc,
      Option.getD_some, ih]
  | newKey hmap hnew =>
    rw [get?_cons, child?_resolve_put (by rw [hmap]; trivial), if_pos rfl]
    rfl

/-- A place that is neither above nor below the path keeps what it had. -/
theorem Settable.get?_put_of_ne (h : Settable cells path root) (fresh : Nat) (new : Value) {q : Path}
    (hp : ¬ path <+: q) (hq : ¬ q <+: path) :
    get? cells q (put cells fresh path root new) = get? cells q root := by
  induction h generalizing q with
  | here root => exact absurd List.nil_prefix hp
  | @step root c step rest hc _ ih =>
    cases q with
    | nil => exact absurd List.nil_prefix hq
    | cons step' q =>
      rw [get?_cons, child?_resolve_put (Value.admits_of_child? hc), get?_cons]
      -- On one step the paths part further down; on two steps the other child is left alone.
      by_cases hs : step' = step
      · subst hs
        rw [List.cons_prefix_cons, and_iff_right rfl] at hp hq
        rw [if_pos rfl, hc, Option.bind_some, Option.bind_some, Option.getD_some, ih hp hq]
      · rw [if_neg hs]
  | @newKey root node entries k hmap hnew =>
    cases q with
    | nil => exact absurd List.nil_prefix hq
    | cons step' q =>
      rw [get?_cons, child?_resolve_put (by rw [hmap]; trivial), get?_cons, if_neg]
      rintro rfl
      exact hp (by simp)

/-- Where the path leads to a value, setting it succeeds. -/
theorem set_apply (h : get? cells path root = some old) (new : Value) (s : Session) :
    Path.set path root new cells s =
      (.ok (put cells s.nextNode path root new), s.after path.length) :=
  (settable_of_get? h).set_apply new s

theorem get?_put (h : get? cells path root = some old) (fresh : Nat) (new : Value) :
    get? cells path (put cells fresh path root new) = some new :=
  (settable_of_get? h).get?_put fresh new

theorem get?_put_of_ne (h : get? cells path root = some old) (fresh : Nat) (new : Value) {q : Path}
    (hp : ¬ path <+: q) (hq : ¬ q <+: path) :
    get? cells q (put cells fresh path root new) = get? cells q root :=
  (settable_of_get? h).get?_put_of_ne fresh new hp hq

/-- Putting back what is at the end of the path keeps the content of a value without cells. -/
theorem content_put (hr : root.Plain) (h : get? cells path root = some old) (fresh : Nat)
    {new : Value} (hn : new.content = old.content) :
    (put cells fresh path root new).content = root.content := by
  induction path generalizing root with
  | nil => rw [put, hn, Option.some.inj h]
  | cons step rest ih =>
    obtain ⟨c, hc, hold⟩ := get?_cons_eq_some.1 h
    rw [put_cons hc, hr.resolve]
    rw [hr.resolve] at hc
    exact Value.content_withChild hc (ih (hr.child? hc) hold) _

/-- Setting a long path sets its end in the value at the end of its beginning, and then that. -/
theorem set_append {p q : Path} (h : get? cells p root = some old) (new : Value) (s : Session) :
    Path.set (p ++ q) root new cells s = (Path.set q old new >>= Path.set p root) cells s := by
  induction p generalizing root with
  | nil =>
    obtain rfl := Option.some.inj h
    rw [Eval.bind_apply]
    show Path.set q root new cells s = _
    rcases Path.set q root new cells s with ⟨_ | _, _⟩ <;> rfl
  | cons step rest ih =>
    obtain ⟨c, hc, hold⟩ := get?_cons_eq_some.1 h
    rw [List.cons_append, set_cons_apply hc, Eval.bind_apply, ih hold, ← Eval.bind_apply, bind_assoc,
      Eval.bind_apply, Eval.bind_apply]
    split
    · exact (set_cons_apply hc rest _ _).symm
    · rfl

end Path

end DataExpr
