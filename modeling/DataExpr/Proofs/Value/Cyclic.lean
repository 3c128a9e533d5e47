import DataExpr.Proofs.Lists
import DataExpr.Proofs.Store.Unfold
import DataExpr.Value.Document

/-!
# Writing values with cells

`Value.toDocument` writes a value in which cells stand for their contents.  It refuses exactly the values
from which a cell is reached that is in its own contents (`Cells.Cyclic`), and otherwise writes the
document of the value with the contents of cells in their place (`Value.HasDocument`), which is also that
of the value without cells (`HasDocument.unfold`).

A cell is opened when it is written, and what is written then is the value at the end of the chain of
cells, so cells in between are never opened.  Still an open cell that is reached again is in its own
contents, and writing comes to an end since there are fewer cells to be opened after each one
(`acc_calls`).  The bound on the cells that are opened is thus never met (`writeWithin_eq_write`).
-/

namespace DataExpr

namespace Value

/-- The document is that of the value with the contents of cells in their place. -/
inductive HasDocument (cells : Cells) : Value → Document → Prop where
  | undefined : HasDocument cells undefined .null
  | null : HasDocument cells null .null
  | bool (b : Bool) : HasDocument cells (bool b) (.bool b)
  | int (n : Int64) : HasDocument cells (int n) (.int n.toInt)
  | float {x : Float} (h : x.isFinite = true) : HasDocument cells (float x) (.float x)
  | str (s : String) : HasDocument cells (str s) (.str s)
  | symbol (id : Int) (description : String) :
      HasDocument cells (symbol id description) (.str description)
  | date (d : Date) : HasDocument cells (date d) (.str d.text)
  | list {node : Nat} {items : List Value} {ds : List Document} (hlength : items.length = ds.length)
      (h : ∀ {v d}, (v, d) ∈ items.zip ds → HasDocument cells v d) :
      HasDocument cells (list node items) (.array ds)
  | map {node : Nat} {entries : List (String × Value)} {ds : List Document}
      (hlength : (Entries.values entries).length = ds.length)
      (h : ∀ {v d}, (v, d) ∈ (Entries.values entries).zip ds → HasDocument cells v d) :
      HasDocument cells (map node entries)
        (.object (Entries.sorted ((Entries.keys entries).zip ds)))
  | cell {id : Nat} {d : Document} (h : HasDocument cells (cells.read id) d) :
      HasDocument cells (cell id) d

/-- Whether the value itself is something that documents have a form for. -/
def isWritable : Value → Bool
  | function .. | foreign .. => false
  | float x => x.isFinite
  | _ => true

end Value

namespace Cells

variable {cells : Cells} {v w : Value} {opened : List Nat} {id n : Nat}

/-- Whether documents have a form for all that is within the value. -/
def Writable (cells : Cells) (v : Value) : Prop := ∀ w, cells.Within v w → w.isWritable = true

/-- Writing the first value inside of the given open cells is a step in writing the second one: it is a
part of a container, or what is behind a cell that is opened. -/
inductive Calls (cells : Cells) : List Nat × Value → List Nat × Value → Prop where
  | child {opened : List Nat} {v : Value} {c : Value × Step} (hc : c ∈ v.children) :
      Calls cells (opened, c.1) (opened, v)
  | cell {opened : List Nat} {id : Nat} (h : id ∉ opened) :
      Calls cells (id :: opened, cells.resolve (.cell id)) (opened, .cell id)

/-! ### What is within a value -/

theorem Writable.within (h : cells.Writable v) (hw : cells.Within v w) : cells.Writable w :=
  fun x hx => h x (hw.trans hx)

theorem Writable.child (h : cells.Writable v) {c : Value × Step} (hc : c ∈ v.children) :
    cells.Writable c.1 :=
  h.within (.child hc .refl)

theorem Writable.of_parts (hv : v.isWritable = true) (hc : ∀ c ∈ v.children, cells.Writable c.1)
    (hid : ∀ id, v = .cell id → cells.Writable (cells.read id)) : cells.Writable v := by
  intro w hw
  cases hw with
  | refl => exact hv
  | child hmem hw => exact hc _ hmem w hw
  | contents hw => exact hid _ rfl w hw

theorem within_follow (n : Nat) (v : Value) : cells.Within v (cells.follow n v) := by
  induction n generalizing v with
  | zero => exact .refl
  | succ n ih =>
    cases v with
    | cell id => exact .contents (ih _)
    | _ => exact .refl

/-- What is behind a cell is within its contents. -/
theorem within_resolve_cell (id : Nat) : cells.Within (cells.read id) (cells.resolve (.cell id)) :=
  within_follow 64 (cells.read id)

/-- A cell that the store does not have is read as null. -/
theorem resolve_of_size_le (h : cells.contents.size ≤ id) : cells.resolve (.cell id) = .null := by
  show cells.follow 64 (cells.read id) = .null
  rw [read_of_size_le h]
  rfl

/-! ### Writing ends -/

/-- The cells of the store that are not open. -/
def unopened (cells : Cells) (opened : List Nat) : Finset Nat :=
  (Finset.range cells.contents.size).filter (· ∉ opened)

theorem mem_unopened : id ∈ cells.unopened opened ↔ id < cells.contents.size ∧ id ∉ opened := by
  rw [unopened, Finset.mem_filter, Finset.mem_range]

theorem card_unopened_le (cells : Cells) (opened : List Nat) :
    (cells.unopened opened).card ≤ cells.contents.size :=
  (Finset.card_filter_le _ _).trans_eq (Finset.card_range _)

theorem unopened_cons : cells.unopened (id :: opened) = (cells.unopened opened).erase id := by
  ext j
  rw [mem_unopened, Finset.mem_erase, mem_unopened, List.mem_cons, not_or]
  exact and_left_comm

/-- There are fewer cells to be opened after one has been. -/
theorem card_unopened_cons_lt (hid : id < cells.contents.size) (h : id ∉ opened) :
    (cells.unopened (id :: opened)).card < (cells.unopened opened).card := by
  rw [unopened_cons]
  exact Finset.card_erase_lt_of_mem (mem_unopened.2 ⟨hid, h⟩)

/-- There is no endless chain of calls: the open cells are more each time, and between two of them there
are only parts of one value. -/
theorem acc_calls (opened : List Nat) (v : Value) : Acc cells.Calls (opened, v) := by
  induction hcard : (cells.unopened opened).card using Nat.strongRecOn generalizing opened v with
  | _ card ih =>
    induction v using Value.children_induction with
    | _ v ihv =>
      refine .intro _ fun call hcall => ?_
      cases hcall with
      | child hc => exact ihv _ hc
      | @cell _ id hid =>
        rcases Nat.lt_or_ge id cells.contents.size with hsize | hsize
        · exact ih _ (hcard ▸ card_unopened_cons_lt hsize hid) _ _ rfl
        · rw [resolve_of_size_le hsize]
          exact .intro _ nofun

/-- What holds of a call if it holds of all calls that are made for it holds of every call. -/
theorem calls_induction {P : List Nat → Value → Prop}
    (h : ∀ opened v, (∀ opened' w, cells.Calls (opened', w) (opened, v) → P opened' w) →
      P opened v) (opened : List Nat) (v : Value) : P opened v := by
  have hcall : ∀ call : List Nat × Value, Acc cells.Calls call → P call.1 call.2 := by
    intro call hacc
    induction hacc with
    | intro call _ ih => exact h _ _ fun opened' w hcall => ih (opened', w) hcall
  exact hcall (opened, v) (acc_calls opened v)

end Cells

namespace Value

variable {cells : Cells} {v : Value} {d d' : Document} {opened : List Nat} {id m n : Nat}

/-! ### Writing as a recursion without a bound -/

/-- Behind a cell that the store does not have there is nothing to be opened. -/
theorem writeWithin_of_size_le (h : cells.contents.size ≤ id) :
    writeWithin cells n opened (cells.resolve (.cell id)) = .ok .null := by
  rw [Cells.resolve_of_size_le h]
  cases n <;> rfl

/-- If there are no more cells to be opened than the bound allows for, the bound is not met. -/
theorem writeWithin_eq_write_pred (h : (cells.unopened opened).card ≤ n) :
    writeWithin cells n opened = write fun id =>
      if id ∈ opened then .error .cyclic
      else writeWithin cells (n - 1) (id :: opened) (cells.resolve (.cell id)) := by
  cases n with
  | succ n => rfl
  | zero =>
    refine congrArg write (funext fun id => ?_)
    split
    · rfl
    · rename_i hid
      have hnone := Finset.card_eq_zero.1 (Nat.le_zero.1 h)
      have hsize : ¬ id < cells.contents.size := fun hsize =>
        Finset.notMem_empty id (hnone ▸ Cells.mem_unopened.2 ⟨hsize, hid⟩)
      rw [writeWithin_of_size_le (Nat.le_of_not_lt hsize)]

/-- The bound makes a difference behind cells of the store at most. -/
theorem write_congr_opened (h : ∀ id < cells.contents.size, id ∉ opened →
      writeWithin cells m (id :: opened) = writeWithin cells n (id :: opened)) :
    (write fun id =>
      if id ∈ opened then .error .cyclic
      else writeWithin cells m (id :: opened) (cells.resolve (.cell id))) =
    write fun id =>
      if id ∈ opened then .error .cyclic
      else writeWithin cells n (id :: opened) (cells.resolve (.cell id)) := by
  refine congrArg write (funext fun id => ?_)
  split
  · rfl
  · rename_i hid
    rcases Nat.lt_or_ge id cells.contents.size with hsize | hsize
    · rw [h id hsize hid]
    · rw [writeWithin_of_size_le hsize, writeWithin_of_size_le hsize]

theorem writeWithin_eq (hm : (cells.unopened opened).card ≤ m)
    (hn : (cells.unopened opened).card ≤ n) :
    writeWithin cells m opened = writeWithin cells n opened := by
  induction hcard : (cells.unopened opened).card using Nat.strongRecOn generalizing opened m n with
  | _ card ih =>
    rw [writeWithin_eq_write_pred hm, writeWithin_eq_write_pred hn]
    refine write_congr_opened fun id hsize hid => ?_
    have hlt := Cells.card_unopened_cons_lt hsize hid
    exact ih _ (hcard ▸ hlt) (by omega) (by omega) rfl

/-- The bound may be the same all the way down. -/
theorem writeWithin_eq_write (hn : cells.contents.size ≤ n) (opened : List Nat) :
    writeWithin cells n opened = write fun id =>
      if id ∈ opened then .error .cyclic
      else writeWithin cells n (id :: opened) (cells.resolve (.cell id)) := by
  have hcard := (cells.card_unopened_le opened).trans hn
  rw [writeWithin_eq_write_pred hcard]
  refine write_congr_opened fun id hsize hid => ?_
  have hlt := Cells.card_unopened_cons_lt hsize hid
  exact writeWithin_eq (by omega) (by omega)

/-! ### Outcomes -/

/-- What writing may result in: the document, or a failure because of a cell within the value that is
open already or is within its own contents. -/
inductive Outcome (cells : Cells) (opened : List Nat) (v : Value) : Written Document → Prop where
  | ok {d : Document} (h : HasDocument cells v d) : Outcome cells opened v (.ok d)
  | cyclic {id : Nat} (hid : cells.Within v (.cell id))
      (h : id ∈ opened ∨ cells.Within (cells.read id) (.cell id)) :
      Outcome cells opened v (.error .cyclic)

variable {writeCell : Nat → Written Document} {vs : List Value} {r : Written Document}

theorem writeEntries_eq (es : List (String × Value)) :
    writeEntries writeCell es =
      (fun ds => (Entries.keys es).zip ds) <$> writeItems writeCell (Entries.values es) := by
  induction es with
  | nil => rfl
  | cons e es ih =>
    show (do
      let d ← write writeCell e.2
      return (e.1, d) :: (← writeEntries writeCell es)) = _ <$> (do
        let d ← write writeCell e.2
        return d :: (← writeItems writeCell (Entries.values es)))
    rw [ih]
    cases write writeCell e.2 with
    | error _ => rfl
    | ok d =>
      cases writeItems writeCell (Entries.values es) with
      | error _ => rfl
      | ok ds => rfl

theorem outcome_items (h : ∀ v ∈ vs, Outcome cells opened v (write writeCell v)) :
    (∃ ds, writeItems writeCell vs = .ok ds ∧ List.Forall₂ (HasDocument cells) vs ds) ∨
      writeItems writeCell vs = .error .cyclic ∧
        ∃ v ∈ vs, Outcome cells opened v (.error .cyclic) := by
  induction vs with
  | nil => exact .inl ⟨[], rfl, .nil⟩
  | cons v vs ih =>
    obtain ⟨hv, hvs⟩ := List.forall_mem_cons.1 h
    rw [writeItems]
    generalize write writeCell v = r at hv
    cases hv with
    | cyclic hid hopen => exact .inr ⟨rfl, v, List.mem_cons_self, .cyclic hid hopen⟩
    | ok hd =>
      rcases ih hvs with ⟨ds, hds, hall⟩ | ⟨hcyclic, w, hw, hopen⟩
      · exact .inl ⟨_ :: ds, by rw [hds]; rfl, .cons hd hall⟩
      · exact .inr ⟨by rw [hcyclic]; rfl, w, List.mem_cons_of_mem _ hw, hopen⟩

theorem HasDocument.of_follow (h : HasDocument cells (cells.follow n v) d) :
    HasDocument cells v d := by
  induction n generalizing v with
  | zero => exact h
  | succ n ih =>
    cases v with
    | cell id => exact .cell (ih h)
    | _ => exact h

/-- A failure in a part is a failure of the whole. -/
theorem Outcome.of_child {c : Value × Step} (hc : c ∈ v.children)
    (h : Outcome cells opened c.1 (.error .cyclic)) : Outcome cells opened v (.error .cyclic) := by
  cases h with
  | cyclic hid hopen => exact .cyclic (.child hc hid) hopen

theorem outcome_list {node : Nat}
    (h : ∀ v ∈ vs, Outcome cells opened v (write writeCell v)) :
    Outcome cells opened (list node vs) (write writeCell (list node vs)) := by
  rw [write]
  rcases outcome_items h with ⟨ds, hds, hall⟩ | ⟨hcyclic, w, hw, hfail⟩
  · obtain ⟨hlength, hzip⟩ := List.forall₂_iff_zip.1 hall
    rw [hds]
    exact .ok (.list hlength hzip)
  · rw [hcyclic]
    obtain ⟨i, hi⟩ := List.getElem?_of_mem hw
    exact hfail.of_child (c := (w, .index i)) (mem_children_list.2 ⟨i, hi, rfl⟩)

theorem outcome_map {node : Nat} {es : List (String × Value)}
    (h : ∀ e ∈ es, Outcome cells opened e.2 (write writeCell e.2)) :
    Outcome cells opened (map node es) (write writeCell (map node es)) := by
  have hvalues : ∀ v ∈ Entries.values es, Outcome cells opened v (write writeCell v) :=
    List.forall_mem_map.2 h
  rw [write, writeEntries_eq]
  rcases outcome_items hvalues with ⟨ds, hds, hall⟩ | ⟨hcyclic, w, hw, hfail⟩
  · obtain ⟨hlength, hzip⟩ := List.forall₂_iff_zip.1 hall
    rw [hds]
    exact .ok (.map hlength hzip)
  · rw [hcyclic]
    obtain ⟨e, he, rfl⟩ := List.mem_map.1 hw
    exact hfail.of_child (c := (e.2, .key e.1)) (mem_children_map.2 ⟨e.1, he, rfl⟩)

/-- Of a cell that is opened the outcome is that of what is behind it. -/
theorem Outcome.cell (h : Outcome cells (id :: opened) (cells.resolve (.cell id)) r) :
    Outcome cells opened (.cell id) r := by
  cases h with
  | ok h => exact .ok h.of_follow
  | @cyclic j hj hopen =>
    have hwithin := (cells.within_resolve_cell id).trans hj
    rcases hopen with hopen | hcyclic
    · rcases List.mem_cons.1 hopen with rfl | hopen
      -- The cell that has just been opened is reached again, so it is in its own contents.
      · exact .cyclic .refl (.inr hwithin)
      · exact .cyclic (.contents hwithin) (.inl hopen)
    · exact .cyclic (.contents hwithin) (.inr hcyclic)

theorem outcome_writeWithin (hn : cells.contents.size ≤ n) (opened : List Nat) (v : Value)
    (h : cells.Writable v) : Outcome cells opened v (writeWithin cells n opened v) := by
  induction opened, v using cells.calls_induction with
  | h opened v ih =>
    have hchild := fun c hc => ih opened _ (.child hc) (h.child (c := c) hc)
    rw [writeWithin_eq_write hn] at hchild ⊢
    cases v with
    | undefined => exact .ok .undefined
    | null => exact .ok .null
    | bool b => exact .ok (.bool b)
    | int n => exact .ok (.int n)
    | str s => exact .ok (.str s)
    | symbol id description => exact .ok (.symbol id description)
    | date d => exact .ok (.date d)
    | float x =>
      have hx : x.isFinite = true := h _ .refl
      rw [write, if_pos hx]
      exact .ok (.float hx)
    | function id name => cases h _ .refl
    | foreign id content => cases h _ .refl
    | list node items => exact outcome_list (forall_children_list.1 hchild)
    | map node entries =>
      exact outcome_map (forall_children_map (P := fun v => Outcome cells opened v (write _ v)).1 hchild)
    | cell id =>
      show Outcome cells opened (.cell id) (if id ∈ opened then _ else _)
      split
      · rename_i hid
        exact .cyclic .refl (.inl hid)
      · rename_i hid
        exact (ih _ _ (.cell hid) (h.within (cells.within_follow _ _))).cell

/-! ### Values that have a document -/

/-- What holds of a value if it holds of its parts, and of a cell if it holds of its contents, holds of
every value that has a document. -/
theorem hasDocument_induction {P : Value → Prop}
    (parts : ∀ v : Value, (∀ id, v ≠ cell id) → v.isWritable = true → (∀ c ∈ v.children, P c.1) → P v)
    (cell : ∀ id, P (cells.read id) → P (cell id)) (h : HasDocument cells v d) : P v := by
  induction h with
  | list hlength _ ih =>
    exact parts _ nofun rfl (forall_children_list.2 (Lists.forall_mem_of_zip hlength ih))
  | map hlength _ ih =>
    have hvalues := List.forall_mem_map.1 (Lists.forall_mem_of_zip hlength ih)
    exact parts _ nofun rfl (forall_children_map (P := P).2 hvalues)
  | cell _ ih => exact cell _ ih
  | float h => exact parts _ nofun h nofun
  | _ => exact parts _ nofun rfl nofun

theorem HasDocument.not_cyclic (h : HasDocument cells v d) : ¬ cells.Cyclic v := by
  refine hasDocument_induction (P := fun v => ¬ cells.Cyclic v) ?_ ?_ h
  · rintro v hv - ih ⟨id, hid, hcyclic⟩
    obtain ⟨c, hc, hid⟩ := hid.exists_child hv
    exact ih c hc ⟨id, hid, hcyclic⟩
  · rintro id ih ⟨j, hj, hcyclic⟩
    cases hj with
    -- The cell would be within its contents, and these are not cyclic.
    | refl => exact ih ⟨id, hcyclic, hcyclic⟩
    | child hc _ => cases hc
    | contents hj => exact ih ⟨j, hj, hcyclic⟩

theorem HasDocument.writable (h : HasDocument cells v d) : cells.Writable v := by
  refine hasDocument_induction (P := cells.Writable) ?_ ?_ h
  · exact fun v hv hwritable ih => .of_parts hwritable ih fun id hid => absurd hid (hv id)
  · exact fun id ih => .of_parts rfl nofun fun j hj => cell.inj hj ▸ ih

/-- There is only one such document. -/
theorem HasDocument.unique (h : HasDocument cells v d) (h' : HasDocument cells v d') : d = d' := by
  induction h generalizing d' with
  | list hlength _ ih =>
    cases h' with
    | list hlength' h' =>
      have hitems := List.forall₂_iff_zip.2
        ⟨hlength, fun {v d} (hv : (v, d) ∈ _) d' (hd' : HasDocument cells v d') => ih hv hd'⟩
      rw [Lists.forall₂_unique hitems (List.forall₂_iff_zip.2 ⟨hlength', h'⟩)]
  | map hlength _ ih =>
    cases h' with
    | map hlength' h' =>
      have hvalues := List.forall₂_iff_zip.2
        ⟨hlength, fun {v d} (hv : (v, d) ∈ _) d' (hd' : HasDocument cells v d') => ih hv hd'⟩
      rw [Lists.forall₂_unique hvalues (List.forall₂_iff_zip.2 ⟨hlength', h'⟩)]
  | cell _ ih =>
    cases h' with
    | cell h' => exact ih h'
  | _ =>
    cases h'
    rfl

/-- A value that has a document is written as that. -/
theorem HasDocument.toDocument_eq (h : HasDocument cells v d) : toDocument cells v = .ok d := by
  have houtcome := outcome_writeWithin le_rfl [] v h.writable
  show writeWithin cells cells.contents.size [] v = .ok d
  generalize writeWithin cells cells.contents.size [] v = r at houtcome
  cases houtcome with
  | ok hd => rw [hd.unique h]
  | cyclic hid hopen =>
    exact absurd ⟨_, hid, hopen.resolve_left List.not_mem_nil⟩ h.not_cyclic

/-- The document is also that of the value in which every cell has been replaced by its contents. -/
theorem HasDocument.unfold (h : HasDocument cells v d) :
    HasDocument .none (cells.unfold v) d := by
  induction h with
  | @list node items ds hlength _ ih =>
    rw [Cells.unfold_list]
    exact .list ((List.length_map _).trans hlength) (Lists.forall_mem_zip_map ih)
  | @map node entries ds hlength _ ih =>
    have hvalues := Entries.values_mapValues cells.unfold entries
    rw [Cells.unfold_map, ← Entries.keys_mapValues cells.unfold entries]
    refine .map ?_ ?_
    · rw [hvalues, List.length_map, hlength]
    · rw [hvalues]
      exact Lists.forall_mem_zip_map ih
  | cell h ih =>
    rw [Cells.unfold_cell (HasDocument.cell h).not_cyclic]
    exact ih
  | undefined => exact .undefined
  | null => exact .null
  | bool b => exact .bool b
  | int n => exact .int n
  | float h => exact .float h
  | str s => exact .str s
  | symbol id description => exact .symbol id description
  | date d => exact .date d

/-- Writing a value with cells, of which nothing is a function, a foreign object or a float that is not
finite.  No call of it leads to an endless chain of calls, and the bound on them is never met.  It fails
exactly for cyclic values, and gives of all others the document of the value without its cells. -/
theorem toDocument_cyclic_iff (h : cells.Writable v) :
    WellFounded cells.Calls ∧
    (∀ n, cells.contents.size ≤ n →
      toDocument cells v = writeWithin cells n [] v ∧
      ∀ opened w, writeWithin cells n opened w = write (fun id =>
        if id ∈ opened then .error .cyclic
        else writeWithin cells n (id :: opened) (cells.resolve (.cell id))) w) ∧
    (toDocument cells v = .error .cyclic ↔ cells.Cyclic v) ∧
    (¬ cells.Cyclic v → ∃ d, toDocument cells v = .ok d ∧ HasDocument cells v d ∧
      (cells.unfold v).holdsCell = false ∧ toDocument .none (cells.unfold v) = .ok d) := by
  have houtcome : Outcome cells [] v (toDocument cells v) :=
    outcome_writeWithin le_rfl [] v h
  refine ⟨⟨fun call => Cells.acc_calls call.1 call.2⟩, fun n hn => ⟨?_, fun opened w => ?_⟩, ?_⟩
  · exact congrFun (writeWithin_eq (cells.card_unopened_le [])
      ((cells.card_unopened_le []).trans hn)) v
  · exact congrFun (writeWithin_eq_write hn opened) w
  · generalize toDocument cells v = r at houtcome
    cases houtcome with
    | @ok d hd =>
      refine ⟨⟨nofun, fun hcyclic => absurd hcyclic hd.not_cyclic⟩, fun hnot => ⟨d, rfl, hd, ?_, ?_⟩⟩
      · exact Cells.holdsCell_unfold hnot
      · exact hd.unfold.toDocument_eq
    | @cyclic id hid hopen =>
      have hcyclic : cells.Cyclic v := ⟨id, hid, hopen.resolve_left List.not_mem_nil⟩
      exact ⟨⟨fun _ => hcyclic, fun _ => rfl⟩, fun hnot => absurd hcyclic hnot⟩

example : toDocument ⟨#[.list 0 [.cell 1], .cell 0]⟩ (.cell 1) = .error .cyclic := rfl

/-- A list in the last cell of a chain. -/
def chained : Cells := ⟨#[.cell 1, .cell 2, .list 0 [.int 1]]⟩

theorem toDocument_cyclic_iff_chained :
    chained.Writable (.list 1 [.cell 0, .cell 2]) ∧
    toDocument chained (.list 1 [.cell 0, .cell 2]) = .ok (.array [.array [.int 1], .array [.int 1]]) ∧
    HasDocument chained (.list 1 [.cell 0, .cell 2]) (.array [.array [.int 1], .array [.int 1]]) ∧
    ¬ chained.Cyclic (.list 1 [.cell 0, .cell 2]) := by
  have hone : chained.Writable (.int 1) := .of_parts rfl nofun nofun
  have hinner : chained.Writable (.list 0 [.int 1]) :=
    .of_parts rfl (forall_children_list.2 (by simp [hone])) nofun
  have hcell : ∀ id, chained.Writable (chained.read id) → chained.Writable (.cell id) :=
    fun id h => .of_parts rfl nofun fun j hj => cell.inj hj ▸ h
  have hend : chained.Writable (.cell 2) := hcell 2 hinner
  have hstart : chained.Writable (.cell 0) := hcell 0 (hcell 1 hend)
  have h : chained.Writable (.list 1 [.cell 0, .cell 2]) :=
    .of_parts rfl (forall_children_list.2 (by simp [hstart, hend])) nofun
  obtain ⟨-, -, hcyclic, hdocument⟩ := toDocument_cyclic_iff h
  have hwritten : toDocument chained (.list 1 [.cell 0, .cell 2]) =
      .ok (.array [.array [.int 1], .array [.int 1]]) := rfl
  have hnot : ¬ chained.Cyclic (.list 1 [.cell 0, .cell 2]) := by
    rw [← hcyclic, hwritten]
    nofun
  obtain ⟨d, hd, hdocument, -⟩ := hdocument hnot
  cases hwritten.symm.trans hd
  exact ⟨h, hwritten, hdocument, hnot⟩

end Value

end DataExpr
