import DataExpr.Proofs.Entries.Sorted
import DataExpr.Proofs.Evaluation
import DataExpr.Proofs.Lists
import DataExpr.Value.Document

/-!
# Documents and values

Documents and values stand for each other (`Value.document_inverse`).  A canonical document, which is
what a text is read as, is written again for the value that is made of it.  A value that has a
document of the same kind at every place is made again of what is written for it, but for the order of
entries in maps, which documents do not keep, and the numbers of containers, which are new.
-/

namespace DataExpr

variable {cells : Cells} {s : Session}

/-- Whether all integers take at most 64 bits with their sign, all other numbers are finite, and the
members of all objects are in ascending order of keys, each key once. -/
inductive Document.Canonical : Document → Prop where
  | null : Canonical .null
  | bool (b : Bool) : Canonical (.bool b)
  | int {n : Int} (hlow : Int64.minValue.toInt ≤ n) (hhigh : n ≤ Int64.maxValue.toInt) :
      Canonical (.int n)
  | float {x : Float} (h : x.isFinite = true) : Canonical (.float x)
  | str (text : String) : Canonical (.str text)
  | array {ds : List Document} (h : ∀ d ∈ ds, Canonical d) : Canonical (.array ds)
  | object {ms : List (String × Document)} (hkeys : Entries.Ascending ms)
      (h : ∀ m ∈ ms, Canonical m.2) : Canonical (.object ms)

namespace Value

/-- Whether the value is made of null, truth values, integers, finite floats, texts, lists, and maps
in which no key occurs twice. -/
inductive Representable : Value → Prop where
  | null : Representable null
  | bool (b : Bool) : Representable (bool b)
  | int (n : Int64) : Representable (int n)
  | float {x : Float} (h : x.isFinite = true) : Representable (float x)
  | str (text : String) : Representable (str text)
  | list {node : Nat} {items : List Value} (h : ∀ v ∈ items, Representable v) :
      Representable (list node items)
  | map {node : Nat} {entries : List (String × Value)} (hkeys : (Entries.keys entries).Nodup)
      (h : ∀ e ∈ entries, Representable e.2) : Representable (map node entries)

/-- Whether two values are the same but for the order of entries in maps and the numbers of
containers. -/
inductive SameData : Value → Value → Prop where
  | scalar {v : Value} (h : v.identity? = none) : SameData v v
  | list {m n : Nat} {vs ws : List Value} (h : List.Forall₂ SameData vs ws) :
      SameData (list m vs) (list n ws)
  | map {m n : Nat} {es fs : List (String × Value)}
      (hkeys : (Entries.keys es).Perm (Entries.keys fs))
      (hvalues : ∀ key v w, Entries.get? es key = some v → Entries.get? fs key = some w →
        SameData v w) :
      SameData (map m es) (map n fs)

/-! ### What is made of documents -/

theorem ofItems_cons (d : Document) (ds : List Document) (cells : Cells) (s : Session) :
    (ofItems (d :: ds) cells s).1 =
      (ofDocument d cells s).1 :: (ofItems ds cells (ofDocument d cells s).2).1 := by
  rw [ofItems]
  rfl

theorem ofMembers_cons (m : String × Document) (ms : List (String × Document)) (cells : Cells)
    (s : Session) :
    (ofMembers (m :: ms) cells s).1 =
      (m.1, (ofDocument m.2 cells s).1) :: (ofMembers ms cells (ofDocument m.2 cells s).2).1 := by
  rw [ofMembers]
  rfl

theorem keys_ofMembers (ms : List (String × Document)) (cells : Cells) (s : Session) :
    Entries.keys (ofMembers ms cells s).1 = Entries.keys ms := by
  induction ms generalizing s with
  | nil => rfl
  | cons m ms ih => rw [ofMembers_cons, Entries.keys_cons, Entries.keys_cons, ih]

/-! ### Documents written again -/

variable {writeCell : Nat → Written Document}

theorem ofInt_eq_int {n : Int} (hlow : Int64.minValue.toInt ≤ n) (hhigh : n ≤ Int64.maxValue.toInt) :
    ofInt n = int (Int64.ofInt n) := if_pos ⟨hlow, hhigh⟩

/-- Whether writing any value that is made of the document gives the document. -/
def Rewritten (writeCell : Nat → Written Document) (d : Document) : Prop :=
  ∀ cells s, write writeCell (ofDocument d cells s).1 = .ok d

theorem writeItems_ofItems {ds : List Document} (h : ∀ d ∈ ds, Rewritten writeCell d)
    (cells : Cells) (s : Session) : writeItems writeCell (ofItems ds cells s).1 = .ok ds := by
  induction ds generalizing s with
  | nil => rfl
  | cons d ds ih =>
    obtain ⟨hd, hds⟩ := List.forall_mem_cons.1 h
    rw [ofItems_cons, writeItems, hd, ih hds]
    rfl

theorem writeEntries_ofMembers {ms : List (String × Document)}
    (h : ∀ m ∈ ms, Rewritten writeCell m.2) (cells : Cells) (s : Session) :
    writeEntries writeCell (ofMembers ms cells s).1 = .ok ms := by
  induction ms generalizing s with
  | nil => rfl
  | cons m ms ih =>
    obtain ⟨hm, hms⟩ := List.forall_mem_cons.1 h
    rw [ofMembers_cons, writeEntries, hm, ih hms]
    rfl

/-- A canonical document is written again. -/
theorem rewritten_of_canonical {d : Document} (h : d.Canonical) : Rewritten writeCell d := by
  induction h with
  | null => exact fun _ _ => rfl
  | bool b => exact fun _ _ => rfl
  | str text => exact fun _ _ => rfl
  | @int n hlow hhigh =>
    intro cells s
    rw [ofDocument, Run.pure_apply, ofInt_eq_int hlow hhigh, write, Int64.toInt_ofInt_of_le hlow]
    exact Int.lt_add_one_of_le hhigh
  | float h =>
    intro cells s
    rw [ofDocument, Run.pure_apply, write, if_pos h]
  | @array ds _ ih =>
    intro cells s
    rw [ofDocument, Run.bind_apply, Run.newList_apply, write, writeItems_ofItems ih]
    rfl
  | @object ms hkeys _ ih =>
    intro cells s
    -- Inserting the members one after the other neither drops nor moves any of them.
    have hnodup : (Entries.keys (ofMembers ms cells s).1).Nodup := by
      rw [keys_ofMembers]
      exact hkeys.nodup
    rw [ofDocument, Run.bind_apply, Run.newMap_apply, Entries.ofPairs_of_nodup hnodup, write,
      writeEntries_ofMembers ih]
    exact congrArg (fun ms => Except.ok (Document.object ms)) (Entries.sorted_of_ascending hkeys)

/-! ### Values made again -/

/-- Whether the document is canonical and every value that is made of it is the same as the given
one. -/
structure Describes (v : Value) (d : Document) : Prop where
  canonical : d.Canonical
  same : ∀ cells s, SameData v (ofDocument d cells s).1

theorem forall₂_ofItems {vs : List Value} {ds : List Document} (h : List.Forall₂ Describes vs ds)
    (cells : Cells) (s : Session) : List.Forall₂ SameData vs (ofItems ds cells s).1 := by
  induction h generalizing s with
  | nil => exact .nil
  | cons hvd _ ih =>
    rw [ofItems_cons]
    exact .cons (hvd.same cells s) (ih _)

theorem related_ofMembers {es : List (String × Value)} {ms : List (String × Document)}
    (h : Entries.Related Describes es ms) (cells : Cells) (s : Session) :
    Entries.Related SameData es (ofMembers ms cells s).1 := by
  induction h generalizing s with
  | nil => exact .nil
  | cons hem _ ih =>
    rw [ofMembers_cons]
    exact .cons ⟨hem.1, hem.2.same cells s⟩ (ih _)

theorem describes_array {node : Nat} {vs : List Value} {ds : List Document}
    (h : List.Forall₂ Describes vs ds) : Describes (list node vs) (.array ds) := by
  refine ⟨.array (Lists.forall_mem_of_forall₂ h fun _ _ hvd => hvd.canonical), fun cells s => ?_⟩
  rw [ofDocument, Run.bind_apply, Run.newList_apply]
  exact .list (forall₂_ofItems h cells s)

/-- The members of an object may be in another order than the entries of the map. -/
theorem describes_object {node : Nat} {es : List (String × Value)} {ms : List (String × Document)}
    (hnodup : (Entries.keys es).Nodup) (h : Entries.Related Describes es ms) :
    Describes (map node es) (.object (Entries.sorted ms)) := by
  refine ⟨.object (Entries.ascending_sorted ms)
    (Lists.forall_mem_of_forall₂ h.sorted fun _ _ hem => hem.2.canonical), fun cells s => ?_⟩
  -- Sorting does not look at the values, so the sorted entries and members correspond.
  have hmade := related_ofMembers h.sorted cells s
  have hkeys := (Entries.related_iff.1 hmade).1
  have hsorted : (Entries.keys (ofMembers (Entries.sorted ms) cells s).1).Nodup := by
    rw [← hkeys]
    exact (Entries.ascending_sorted es).nodup
  rw [ofDocument, Run.bind_apply, Run.newMap_apply, Entries.ofPairs_of_nodup hsorted]
  refine .map ?_ fun key v w hv hw => ?_
  · rw [← hkeys]
    exact (Entries.keys_sorted_perm hnodup).symm
  · have hvw := hmade.get? key
    rw [Entries.get?_sorted hnodup, hv, hw] at hvw
    cases hvw with
    | some h => exact h

theorem exists_writeItems {vs : List Value}
    (h : ∀ v ∈ vs, ∃ d, write writeCell v = .ok d ∧ Describes v d) :
    ∃ ds, writeItems writeCell vs = .ok ds ∧ List.Forall₂ Describes vs ds := by
  induction vs with
  | nil => exact ⟨[], rfl, .nil⟩
  | cons v vs ih =>
    obtain ⟨⟨d, hwrite, hd⟩, hrest⟩ := List.forall_mem_cons.1 h
    obtain ⟨ds, hwrites, hds⟩ := ih hrest
    refine ⟨d :: ds, ?_, .cons hd hds⟩
    rw [writeItems, hwrite, hwrites]
    rfl

theorem exists_writeEntries {es : List (String × Value)}
    (h : ∀ e ∈ es, ∃ d, write writeCell e.2 = .ok d ∧ Describes e.2 d) :
    ∃ ms, writeEntries writeCell es = .ok ms ∧ Entries.Related Describes es ms := by
  induction es with
  | nil => exact ⟨[], rfl, .nil⟩
  | cons e es ih =>
    obtain ⟨⟨d, hwrite, hd⟩, hrest⟩ := List.forall_mem_cons.1 h
    obtain ⟨ms, hwrites, hms⟩ := ih hrest
    refine ⟨(e.1, d) :: ms, ?_, .cons ⟨rfl, hd⟩ hms⟩
    rw [writeEntries, hwrite, hwrites]
    rfl

/-- A representable value has a document that describes it. -/
theorem Representable.exists_write {v : Value} (h : v.Representable) :
    ∃ d, write writeCell v = .ok d ∧ Describes v d := by
  induction h with
  | null => exact ⟨.null, rfl, .null, fun _ _ => .scalar rfl⟩
  | bool b => exact ⟨.bool b, rfl, .bool b, fun _ _ => .scalar rfl⟩
  | str text => exact ⟨.str text, rfl, .str text, fun _ _ => .scalar rfl⟩
  | int n =>
    refine ⟨.int n.toInt, rfl, .int n.minValue_le_toInt n.toInt_le, fun cells s => ?_⟩
    rw [ofDocument, Run.pure_apply, ofInt_eq_int n.minValue_le_toInt n.toInt_le, Int64.ofInt_toInt]
    exact .scalar rfl
  | @float x h => exact ⟨.float x, if_pos h, .float h, fun _ _ => .scalar rfl⟩
  | list _ ih =>
    obtain ⟨ds, hwrite, hds⟩ := exists_writeItems ih
    refine ⟨.array ds, ?_, describes_array hds⟩
    rw [write, hwrite]
    rfl
  | map hkeys _ ih =>
    obtain ⟨ms, hwrite, hms⟩ := exists_writeEntries ih
    refine ⟨.object (Entries.sorted ms), ?_, describes_object hkeys hms⟩
    rw [write, hwrite]
    rfl

/-! ### Both ways -/

/-- How cells are written matters only where there are cells. -/
theorem exists_toDocument_eq (cells : Cells) : ∃ writeCell, toDocument cells = write writeCell := by
  unfold toDocument
  cases cells.contents.size with
  | zero => exact ⟨_, rfl⟩
  | succ n => exact ⟨_, rfl⟩

/-- A canonical document is written again for the value that is made of it.  A representable value is
written as a canonical document, and the value that is made of this is the same as the given one. -/
theorem document_inverse (cells cells' : Cells) (s : Session) :
    (∀ d : Document, d.Canonical → (ofDocument d cells s).1.toDocument cells' = .ok d) ∧
    ∀ v : Value, v.Representable →
      ∃ d, v.toDocument cells' = .ok d ∧ d.Canonical ∧ SameData v (ofDocument d cells s).1 := by
  obtain ⟨writeCell, hwrite⟩ := exists_toDocument_eq cells'
  rw [hwrite]
  constructor
  · intro d hd
    exact rewritten_of_canonical hd cells s
  · intro v hv
    obtain ⟨d, hd, hdescribes⟩ := hv.exists_write
    exact ⟨d, hd, hdescribes.canonical, hdescribes.same cells s⟩

/-- A map with its keys out of order, a float and a nested list. -/
def unordered : Value :=
  map 1 [("b", list 2 [float 0.5, null]), ("a", int (-3)), ("ab", str "x")]

/-- The document of `unordered`. -/
def ordered : Document :=
  .object [("a", .int (-3)), ("ab", .str "x"), ("b", .array [.float 0.5, .null])]

theorem canonical_ordered : ordered.Canonical := by
  have hfloat : (0.5 : Float).isFinite = true := by decide
  refine .object (by decide) ?_
  simp only [List.forall_mem_cons]
  refine ⟨.int (by decide) (by decide), .str "x", .array ?_, nofun⟩
  simp only [List.forall_mem_cons]
  exact ⟨.float hfloat, .null, nofun⟩

theorem representable_unordered : unordered.Representable := by
  have hfloat : (0.5 : Float).isFinite = true := by decide
  refine .map (by decide) ?_
  simp only [List.forall_mem_cons]
  refine ⟨.list ?_, .int (-3), .str "x", nofun⟩
  simp only [List.forall_mem_cons]
  exact ⟨.float hfloat, .null, nofun⟩

/-- The map is written with its keys in order, and the document is written again. -/
theorem document_inverse_unordered :
    ordered.Canonical ∧ unordered.Representable ∧
      unordered.toDocument .none = .ok ordered ∧
      (ofDocument ordered .none ⟨3, #[]⟩).1.toDocument .none = .ok ordered ∧
      SameData unordered (ofDocument ordered .none ⟨3, #[]⟩).1 := by
  have hboth := document_inverse .none .none ⟨3, #[]⟩
  have hwrite : unordered.toDocument .none = .ok ordered := by rfl
  obtain ⟨d, hd, _, hsame⟩ := hboth.2 unordered representable_unordered
  cases hwrite.symm.trans hd
  exact ⟨canonical_ordered, representable_unordered, hwrite,
    hboth.1 ordered canonical_ordered, hsame⟩

end Value

end DataExpr
