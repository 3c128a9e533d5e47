import DataExpr.Proofs.Path.Put

/-!
# Setting a path is a lawful update

Whether a path can be set is a matter of the path and the root alone (`Path.Settable`), never of the
value that is put there.  `Path.set_lawful` says that, and what the outcome is: it has the new value
at the path and keeps all places that are on no way to or from it, the containers there being the same
ones as before.  A path in two pieces is set by setting the second one in the value at the end of the
first; that holds of failures as well.
-/

namespace DataExpr.Path

variable {cells : Cells} {root new v : Value} {path : Path} {s t : Session}

/-- Nothing can be set below undefined. -/
theorem eq_nil_of_settable_undefined (h : Settable cells path .undefined) : path = [] := by
  have hresolve : cells.resolve .undefined = .undefined := cells.resolve_of_ne_cell nofun
  cases h with
  | here => rfl
  | step hc _ =>
    rw [hresolve] at hc
    cases hc
  | newKey hmap _ =>
    rw [hresolve] at hmap
    cases hmap

/-- A path below a key of a map can be set if it can be set in what the key has, or in undefined if the
map does not have the key. -/
theorem settable_key {node : Nat} {entries : List (String × Value)} {k : String} {rest : Path}
    (hmap : cells.resolve root = .map node entries)
    (h : Settable cells rest ((Entries.get? entries k).getD .undefined)) :
    Settable cells (.key k :: rest) root := by
  cases hk : Entries.get? entries k with
  | some c =>
    rw [hk, Option.getD_some] at h
    refine .step ?_ h
    rw [hmap, Value.child?_map, hk]
  | none =>
    rw [hk, Option.getD_none] at h
    obtain rfl := eq_nil_of_settable_undefined h
    exact .newKey hmap hk

theorem settable_of_set (h : Path.set path root new cells s = (.ok v, t)) :
    Settable cells path root := by
  induction path generalizing root s v t with
  | nil => exact .here root
  | cons step rest ih =>
    cases step with
    | index i =>
      obtain ⟨_, _, hresolve, h⟩ := Eval.bind_eq_ok h
      cases hresolve
      cases hroot : cells.resolve root with
      | list node items =>
        simp only [hroot] at h
        cases hc : items[i]? with
        | none =>
          simp only [hc] at h
          cases h
        | some c =>
          simp only [hc] at h
          obtain ⟨w, s', hw, -⟩ := Eval.bind_eq_ok h
          exact .step (by rw [hroot, Value.child?_list, hc]) (ih hw)
      | _ =>
        simp only [hroot] at h
        cases h
    | key k =>
      obtain ⟨_, _, hresolve, h⟩ := Eval.bind_eq_ok h
      cases hresolve
      cases hroot : cells.resolve root with
      | map node entries =>
        simp only [hroot] at h
        obtain ⟨w, s', hw, -⟩ := Eval.bind_eq_ok h
        exact settable_key hroot (ih hw)
      | _ =>
        simp only [hroot] at h
        cases h

/-- Setting succeeds exactly where the path can be set.  What comes out has the new value at the path
and at all places on no way to or from it what the root has.  To set a path that goes on from a place
of the root is to set what it goes on with in the value there, and then that place to the outcome. -/
theorem set_lawful (cells : Cells) (path : Path) (root new : Value) (s : Session) :
    ((∃ v t, Path.set path root new cells s = (.ok v, t)) ↔ Settable cells path root) ∧
    (∀ v t, Path.set path root new cells s = (.ok v, t) →
      get? cells path v = some new ∧
      ∀ q : Path, ¬ path <+: q → ¬ q <+: path → get? cells q v = get? cells q root) ∧
    ∀ (q r : Path) (old : Value), get? cells q root = some old →
      Path.set (q ++ r) root new cells s = (Path.set r old new >>= Path.set q root) cells s := by
  refine ⟨⟨?_, fun h => ⟨_, _, h.set_apply new s⟩⟩, fun v t h => ?_, fun q r old h => ?_⟩
  · rintro ⟨v, t, h⟩
    exact settable_of_set h
  · have hsettable := settable_of_set h
    rw [hsettable.set_apply, Prod.mk.injEq, Except.ok.injEq] at h
    obtain ⟨rfl, -⟩ := h
    exact ⟨hsettable.get?_put _ new, fun q hp hq => hsettable.get?_put_of_ne _ new hp hq⟩
  · exact set_append h new s

/-- A new key of a map in a list that a cell holds; the list beside it stays the same one, and the cell
is read through when the path is cut in two. -/
theorem set_lawful_newKey :
    let cells : Cells := ⟨#[.list 2 [.int 1, .map 3 []]]⟩
    let root : Value := .map 0 [("xs", .cell 0), ("ys", .list 1 [])]
    let path : Path := [.key "xs", .index 1, .key "k"]
    Settable cells path root ∧ ¬ path <+: [.key "ys"] ∧ ¬ [.key "ys"] <+: path ∧
    get? cells [.key "xs"] root = some (.cell 0) ∧
    (∃ v t, Path.set path root .null cells ⟨4, #[]⟩ = (.ok v, t) ∧ get? cells path v = some .null ∧
      get? cells [.key "ys"] v = some (.list 1 [])) ∧
    Path.set path root .null cells ⟨4, #[]⟩ =
      (Path.set [.index 1, .key "k"] (.cell 0) .null >>= Path.set [.key "xs"] root) cells ⟨4, #[]⟩ := by
  intro cells root path
  have hsettable : Settable cells path root :=
    .step (c := .cell 0) rfl (.step (c := .map 3 []) rfl (.newKey rfl rfl))
  have hp : ¬ path <+: [.key "ys"] := by decide
  have hq : ¬ [.key "ys"] <+: path := by decide
  have hcell : get? cells [.key "xs"] root = some (.cell 0) := rfl
  obtain ⟨hok, hget, happend⟩ := set_lawful cells path root .null ⟨4, #[]⟩
  obtain ⟨v, t, hv⟩ := hok.2 hsettable
  obtain ⟨hnew, hframe⟩ := hget v t hv
  exact ⟨hsettable, hp, hq, hcell, ⟨v, t, hv, hnew, hframe _ hp hq⟩, happend _ _ _ hcell⟩

end DataExpr.Path
