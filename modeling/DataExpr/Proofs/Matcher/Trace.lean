import DataExpr.Proofs.Matcher.Walk
import DataExpr.Proofs.Store.Reach

/-!
# All nodes that a descent gives

`Walk.trace` are the nodes that a descent gives with their paths, in order, if the cells stay as they
are; `toList_pull` says so.  What a step of the walk keeps is carried to all nodes by the recursion of
`trace`:

* the paths of the nodes lead to them (`get?_of_mem_trace`), since the walk stays rooted;
* the paths do not get shorter (`pairwise_trace`), since the queue holds nodes of at most two levels,
  the upper ones first (`Leveled`);
* a container or cell is given no more often than it has visits left (`countP_trace_le`);
* every container and cell that can be reached is given (`exists_mem_trace`), since what has been given
  has its children given or waiting (`Covering`).
-/

namespace DataExpr.Walk

variable {cells : Cells} {w popped admitted : Walk} {entry : Value × List Step}

/-- The nodes that the walk gives while the cells stay as they are, with their paths. -/
def trace (cells : Cells) (w : Walk) : List (Value × Path) :=
  match _hpop : w.pop? with
  | none => []
  | some (entry, popped) =>
    match _hgiven : popped.admit? entry.1 with
    | none => trace cells popped
    | some admitted => (entry.1, entry.2.reverse) :: trace cells (admitted.visit cells entry)
termination_by (w.cellVisitsLeft, w.queueWeight)
decreasing_by
  · exact pop_decreases _hpop
  · exact step_decreases _hpop _hgiven cells

theorem trace_eq (cells : Cells) (w : Walk) :
    w.trace cells = match w.pop? with
      | none => []
      | some (entry, popped) =>
        match popped.admit? entry.1 with
        | none => popped.trace cells
        | some admitted =>
          (entry.1, entry.2.reverse) :: (admitted.visit cells entry).trace cells := by
  rw [trace]
  split
  · rename_i hpop
    rw [hpop]
  · rename_i hpop
    rw [hpop]
    split
    · rename_i hgiven
      simp only [hgiven]
    · rename_i hgiven
      simp only [hgiven]

theorem pull_eq (w : Walk) (cells : Cells) (s : Session) :
    w.pull cells s = match w.pop? with
      | none => .done s
      | some (entry, popped) =>
        match popped.admit? entry.1 with
        | none => popped.pull cells s
        | some admitted =>
          .found (.ok ⟨entry.1, Path.set entry.2.reverse w.root⟩)
            ⟨fun cells' s' => (admitted.visit cells entry).pull cells' s'⟩ s := by
  rw [pull]
  split
  · rename_i hpop
    rw [hpop]
  · rename_i hpop
    rw [hpop]
    split
    · rename_i hgiven
      simp only [hgiven]
    · rename_i hgiven
      simp only [hgiven]

theorem trace_of_ended (hpop : w.pop? = none) : w.trace cells = [] := by
  rw [trace_eq, hpop]

theorem trace_of_passed (hpop : w.pop? = some (entry, popped))
    (hgiven : popped.admit? entry.1 = none) : w.trace cells = popped.trace cells := by
  rw [trace_eq, hpop]
  simp only [hgiven]

theorem trace_of_given (hpop : w.pop? = some (entry, popped))
    (hgiven : popped.admit? entry.1 = some admitted) :
    w.trace cells = (entry.1, entry.2.reverse) :: (admitted.visit cells entry).trace cells := by
  rw [trace_eq, hpop]
  simp only [hgiven]

/-- What asking for all nodes gives, one after the other, while the cells stay as they are. -/
theorem toList_pull (w : Walk) (cells : Cells) (s : Session) :
    Findings.toList ⟨w.pull⟩ cells s =
      ((w.trace cells).map fun e => .ok ⟨e.1, Path.set e.2 w.root⟩, s) := by
  -- Each case of `trace` is one turn of `pull`, so the induction is on `trace`.
  show (w.pull cells s).forEach pure cells = _
  induction w using trace.induct cells with
  | case1 w hpop =>
    rw [trace_of_ended hpop, pull_eq, hpop]
    rfl
  | case2 w entry popped hpop hgiven ih =>
    rw [trace_of_passed hpop hgiven, pull_eq, hpop, ← root_of_pop? hpop, ← ih]
    simp only [hgiven]
  | case3 w entry popped hpop admitted hgiven ih =>
    have hroot : (admitted.visit cells entry).root = w.root :=
      (frame_of_admit? hgiven).1.trans (root_of_pop? hpop)
    rw [trace_of_given hpop hgiven, pull_eq, hpop]
    simp only [hgiven]
    rw [hroot] at ih
    rw [List.map_cons, Findings.Pull.forEach]
    show (_ :: ((admitted.visit cells entry).pull cells s |>.forEach pure cells).1, _) = _
    rw [ih]

/-- Only what has had its visits is passed over. -/
theorem le_visitsOf_of_admit? {node : Value} (h : w.admit? node = none) (hmax : 0 < w.maxVisits) :
    ∃ id, node.identity? = some id ∧ w.maxVisits ≤ w.visitsOf id := by
  unfold admit? at h
  split at h
  · rw [if_pos hmax] at h
    cases h
  · rename_i id hid
    split at h
    · cases h
    · rename_i hle
      exact ⟨id, hid, Nat.le_of_not_lt hle⟩

/-- The root is the first node that is given. -/
theorem trace_ofRoot (cells : Cells) (root : Value) {maxVisits : Nat} (h : 0 < maxVisits)
    (cellCount : Nat) :
    ∃ rest, (ofRoot root maxVisits cellCount).trace cells = (root, []) :: rest := by
  have hpop : (ofRoot root maxVisits cellCount).pop? =
      some ((root, []), ⟨root, maxVisits, cellCount, ∅, [], []⟩) := rfl
  cases hgiven : admit? ⟨root, maxVisits, cellCount, ∅, [], []⟩ root with
  | some admitted => exact ⟨_, trace_of_given hpop hgiven⟩
  | none =>
    obtain ⟨id, -, hle⟩ := le_visitsOf_of_admit? hgiven h
    rw [visitsOf, Std.HashMap.getD_empty] at hle
    exact absurd h (Nat.not_lt.2 hle)

/-! ### Paths -/

/-- The children that a walk finds are those of the value behind the node. -/
theorem childrenOf_eq {node : Value} (h : w.cellCount = cells.contents.size) :
    w.childrenOf cells node = (cells.resolve node).children := by
  cases node with
  | cell id =>
    rw [childrenOf, h]
    split
    · rfl
    · rename_i hid
      exact (Cells.children_resolve_of_size_le (Nat.le_of_not_lt hid)).symm
  | _ => rfl

/-- The walk is one from the root, with the cells that there are, and its paths are right. -/
structure From (cells : Cells) (root : Value) (w : Walk) : Prop where
  root_eq : w.root = root
  cellCount_eq : w.cellCount = cells.contents.size
  rooted : w.Rooted cells

variable {root : Value}

theorem from_ofRoot (cells : Cells) (root : Value) (maxVisits : Nat) :
    (ofRoot root maxVisits cells.contents.size).From cells root :=
  ⟨rfl, rfl, rooted_ofRoot _ _ _ _⟩

theorem From.pop (h : w.From cells root) (hpop : w.pop? = some (entry, popped)) :
    Path.get? cells entry.2.reverse root = some entry.1 ∧ popped.From cells root := by
  obtain ⟨hentry, hpopped⟩ := h.rooted.pop hpop
  rw [h.root_eq] at hentry
  refine ⟨hentry, (root_of_pop? hpop).trans h.root_eq, ?_, hpopped⟩
  exact (queue_of_pop? hpop).2.2.2.trans h.cellCount_eq

theorem From.reaches (h : w.From cells root) (hpop : w.pop? = some (entry, popped)) :
    cells.Reaches root entry.1 :=
  Cells.reaches_of_get? .refl (h.pop hpop).1

theorem From.visit (h : w.From cells root) (hroot : cells.Coherent root)
    (hpop : w.pop? = some (entry, popped)) (hgiven : popped.admit? entry.1 = some admitted) :
    (admitted.visit cells entry).From cells root := by
  obtain ⟨hentry, hpopped⟩ := h.pop hpop
  obtain ⟨hadmittedRoot, -, -, hadmittedCells⟩ := frame_of_admit? hgiven
  have hadmitted : admitted.root = root := hadmittedRoot.trans hpopped.root_eq
  have hcells : admitted.cellCount = cells.contents.size := hadmittedCells.trans hpopped.cellCount_eq
  refine ⟨hadmitted, hcells, ?_⟩
  refine (hpopped.rooted.given hgiven).visit (hadmitted ▸ hentry) fun c hc => ?_
  rw [childrenOf_eq hcells] at hc
  exact hroot.child?_of_mem (h.reaches hpop) hc

/-- The path of every node leads to it. -/
theorem get?_of_mem_trace (hroot : cells.Coherent root) (h : w.From cells root) :
    ∀ e ∈ w.trace cells, Path.get? cells e.2 root = some e.1 := by
  induction w using trace.induct cells with
  | case1 w hpop =>
    rw [trace_of_ended hpop]
    exact nofun
  | case2 w entry popped hpop hgiven ih =>
    rw [trace_of_passed hpop hgiven]
    exact ih (h.pop hpop).2
  | case3 w entry popped hpop admitted hgiven ih =>
    rw [trace_of_given hpop hgiven, List.forall_mem_cons]
    exact ⟨(h.pop hpop).1, ih (h.visit hroot hpop hgiven)⟩

/-! ### Levels -/

/-- The nodes that wait are of two levels, those of the upper one first. -/
structure Leveled (level : Nat) (w : Walk) : Prop where
  pairwise : w.queue.Pairwise fun a b => a.2.length ≤ b.2.length
  level_le : ∀ e ∈ w.queue, level ≤ e.2.length
  le_succ : ∀ e ∈ w.queue, e.2.length ≤ level + 1

theorem leveled_ofRoot (root : Value) (maxVisits cellCount : Nat) :
    (ofRoot root maxVisits cellCount).Leveled 0 :=
  ⟨List.pairwise_singleton _ _, fun _ _ => Nat.zero_le _, by simp [ofRoot, queue]⟩

/-- What waits behind a node is at most one level below it. -/
theorem Leveled.pop {level : Nat} (h : w.Leveled level)
    (hpop : w.pop? = some (entry, popped)) :
    level ≤ entry.2.length ∧ popped.Leveled entry.2.length := by
  obtain ⟨hpairwise, hlevel, hsucc⟩ := h
  rw [(queue_of_pop? hpop).1] at hpairwise hlevel hsucc
  rw [List.pairwise_cons] at hpairwise
  rw [List.forall_mem_cons] at hlevel hsucc
  refine ⟨hlevel.1, hpairwise.2, hpairwise.1, fun e he => ?_⟩
  exact Nat.le_trans (hsucc.2 e he) (Nat.succ_le_succ hlevel.1)

/-- The children of a node are one level below it and come last. -/
theorem Leveled.visit (h : popped.Leveled entry.2.length)
    (hgiven : popped.admit? entry.1 = some admitted) :
    (admitted.visit cells entry).Leveled entry.2.length := by
  obtain ⟨hpairwise, hlevel, hsucc⟩ := h
  have hqueue := (frame_of_admit? hgiven).2.1
  have hbelow : ∀ e ∈ (admitted.childrenOf cells entry.1).map fun c => (c.1, c.2 :: entry.2),
      e.2.length = entry.2.length + 1 :=
    List.forall_mem_map.2 fun _ _ => rfl
  constructor
  · rw [queue_visit, hqueue, List.pairwise_append]
    refine ⟨hpairwise, ?_, fun a ha b hb => hbelow b hb ▸ hsucc a ha⟩
    exact List.pairwise_map.2 (List.pairwise_of_forall fun _ _ => Nat.le_refl _)
  · rw [queue_visit, hqueue, List.forall_mem_append]
    exact ⟨hlevel, fun e he => hbelow e he ▸ Nat.le_succ _⟩
  · rw [queue_visit, hqueue, List.forall_mem_append]
    exact ⟨hsucc, fun e he => Nat.le_of_eq (hbelow e he)⟩

/-- Nodes are given level by level. -/
theorem pairwise_trace {level : Nat} (h : w.Leveled level) :
    (w.trace cells).Pairwise (fun a b => a.2.length ≤ b.2.length) ∧
      ∀ e ∈ w.trace cells, level ≤ e.2.length := by
  induction w using trace.induct cells generalizing level with
  | case1 w hpop =>
    rw [trace_of_ended hpop]
    exact ⟨.nil, nofun⟩
  | case2 w entry popped hpop hgiven ih =>
    rw [trace_of_passed hpop hgiven]
    obtain ⟨hle, hpopped⟩ := h.pop hpop
    obtain ⟨hpairwise, hlevel⟩ := ih hpopped
    exact ⟨hpairwise, fun e he => Nat.le_trans hle (hlevel e he)⟩
  | case3 w entry popped hpop admitted hgiven ih =>
    rw [trace_of_given hpop hgiven, List.pairwise_cons, List.forall_mem_cons, List.length_reverse]
    -- What is given from here on is no higher than this node.
    obtain ⟨hle, hpopped⟩ := h.pop hpop
    obtain ⟨hpairwise, hlevel⟩ := ih (hpopped.visit hgiven)
    exact ⟨⟨hlevel, hpairwise⟩, hle, fun e he => Nat.le_trans hle (hlevel e he)⟩

/-! ### Visits -/

theorem visitsOf_of_pop? (hpop : w.pop? = some (entry, popped)) (id : Identity) :
    popped.visitsOf id = w.visitsOf id := by
  rw [visitsOf, (queue_of_pop? hpop).2.1, visitsOf]

theorem maxVisits_visit (hpop : w.pop? = some (entry, popped))
    (hgiven : popped.admit? entry.1 = some admitted) :
    (admitted.visit cells entry).maxVisits = w.maxVisits :=
  (frame_of_admit? hgiven).2.2.1.trans (queue_of_pop? hpop).2.2.1

/-- Giving a node counts one visit to it, and none to any other. -/
theorem visitsOf_admit? {node : Value} (h : w.admit? node = some admitted) (id : Identity) :
    admitted.visitsOf id = w.visitsOf id + if node.identity? = some id then 1 else 0 := by
  obtain ⟨hnode, rfl⟩ | ⟨nodeId, hnode, -, rfl⟩ := admit?_eq_some h
  · rw [if_neg (by simp [hnode]), Nat.add_zero]
  · rw [visitsOf, Std.HashMap.getD_insert, hnode]
    by_cases hid : nodeId = id
    · subst hid
      rw [if_pos (beq_self_eq_true _), if_pos rfl]
    · rw [if_neg (by simpa using hid), if_neg (by simpa using hid), Nat.add_zero, visitsOf]

theorem visitsOf_lt_of_admit? {node : Value} (h : w.admit? node = some admitted) {id : Identity}
    (hid : node.identity? = some id) : w.visitsOf id < w.maxVisits := by
  obtain ⟨hnode, -⟩ | ⟨nodeId, hnode, hlt, -⟩ := admit?_eq_some h
  · cases hid.symm.trans hnode
  · cases hid.symm.trans hnode
    exact hlt

/-- A container or cell is given no more often than it has visits left. -/
theorem countP_trace_le (cells : Cells) (id : Identity) (w : Walk) :
    (w.trace cells).countP (·.1.identity? = some id) ≤ w.maxVisits - w.visitsOf id := by
  induction w using trace.induct cells with
  | case1 w hpop =>
    rw [trace_of_ended hpop]
    exact Nat.zero_le _
  | case2 w entry popped hpop hgiven ih =>
    rw [trace_of_passed hpop hgiven, ← visitsOf_of_pop? hpop, ← (queue_of_pop? hpop).2.2.1]
    exact ih
  | case3 w entry popped hpop admitted hgiven ih =>
    have hcount : (admitted.visit cells entry).visitsOf id =
        w.visitsOf id + if entry.1.identity? = some id then 1 else 0 := by
      rw [← visitsOf_of_pop? hpop]
      exact visitsOf_admit? hgiven id
    rw [maxVisits_visit hpop hgiven, hcount] at ih
    rw [trace_of_given hpop hgiven, List.countP_cons]
    -- Giving the node itself takes one of its visits away; giving another one takes none.
    by_cases hid : entry.1.identity? = some id
    · have hlt := visitsOf_lt_of_admit? hgiven hid
      rw [visitsOf_of_pop? hpop, (queue_of_pop? hpop).2.2.1] at hlt
      simp only [hid, if_true, decide_true] at ih ⊢
      omega
    · simpa [hid] using ih

/-! ### Completeness -/

/-- The node waits or has been given, unless it has nothing that it could be known by. -/
def Covers (w : Walk) (v : Value) : Prop :=
  ∀ id, v.identity? = some id → 0 < w.visitsOf id ∨ ∃ e ∈ w.queue, e.1 = v

/-- The root waits or has been given, and so have all children of what has been given. -/
structure Covering (cells : Cells) (root : Value) (w : Walk) : Prop where
  covers_root : w.Covers root
  covers_children : ∀ {v id}, cells.Reaches root v → v.identity? = some id → 0 < w.visitsOf id →
    ∀ c ∈ (cells.resolve v).children, w.Covers c.1

theorem covering_ofRoot (cells : Cells) (root : Value) (maxVisits cellCount : Nat) :
    (ofRoot root maxVisits cellCount).Covering cells root := by
  constructor
  · exact fun _ _ => .inr ⟨(root, []), List.mem_singleton_self _, rfl⟩
  · intro v id _ _ hvisits
    rw [visitsOf, ofRoot, Std.HashMap.getD_empty] at hvisits
    exact absurd hvisits (Nat.lt_irrefl 0)

/-- Passing over a node that has been given before loses nothing. -/
theorem Covering.pass (h : w.Covering cells root) (hpop : w.pop? = some (entry, popped))
    (hgiven : popped.admit? entry.1 = none) (hmax : 0 < w.maxVisits) :
    popped.Covering cells root := by
  obtain ⟨hqueue, -, hpoppedMax, -⟩ := queue_of_pop? hpop
  rw [← hpoppedMax] at hmax
  have hcovers : ∀ v, w.Covers v → popped.Covers v := by
    intro v hv id hid
    rcases hv id hid with hvisits | ⟨e, he, rfl⟩
    · exact .inl (visitsOf_of_pop? hpop id ▸ hvisits)
    · rw [hqueue] at he
      rcases List.mem_cons.1 he with rfl | he
      · -- The node that is passed over has had all its visits, and it has at least one.
        obtain ⟨id', hid', hle⟩ := le_visitsOf_of_admit? hgiven hmax
        cases hid.symm.trans hid'
        exact .inl (Nat.lt_of_lt_of_le hmax hle)
      · exact .inr ⟨e, he, rfl⟩
  refine ⟨hcovers _ h.covers_root, fun hv hid hvisits c hc => hcovers _ ?_⟩
  exact h.covers_children hv hid (visitsOf_of_pop? hpop _ ▸ hvisits) c hc

/-- Giving a node counts its visit and lets its children wait. -/
theorem Covering.give (h : w.Covering cells root) (hroot : cells.Coherent root)
    (hw : w.From cells root) (hpop : w.pop? = some (entry, popped))
    (hgiven : popped.admit? entry.1 = some admitted) :
    (admitted.visit cells entry).Covering cells root := by
  have hqueue : (admitted.visit cells entry).queue =
      popped.queue ++ (admitted.childrenOf cells entry.1).map fun c => (c.1, c.2 :: entry.2) := by
    rw [queue_visit, (frame_of_admit? hgiven).2.1]
  have hvisitsOf : ∀ id, (admitted.visit cells entry).visitsOf id =
      w.visitsOf id + if entry.1.identity? = some id then 1 else 0 := by
    intro id
    rw [← visitsOf_of_pop? hpop]
    exact visitsOf_admit? hgiven id
  -- What was covered stays covered: if it was the node that is given, it has a visit now.
  have hcovers : ∀ v, w.Covers v → (admitted.visit cells entry).Covers v := by
    intro v hv id hid
    rw [hvisitsOf, hqueue]
    rcases hv id hid with hvisits | ⟨e, he, rfl⟩
    · exact .inl (Nat.lt_add_right _ hvisits)
    · rw [(queue_of_pop? hpop).1] at he
      rcases List.mem_cons.1 he with rfl | he
      · rw [if_pos hid]
        exact .inl (Nat.succ_pos _)
      · exact .inr ⟨e, List.mem_append_left _ he, rfl⟩
  refine ⟨hcovers _ h.covers_root, fun {v id} hv hid hvisits c hc => ?_⟩
  by_cases hentry : entry.1.identity? = some id
  · -- By coherence the node is the one that has just been given.
    obtain rfl := hroot.eq_of_identity hv (hw.reaches hpop) hid hentry
    refine fun _ _ => .inr ⟨(c.1, c.2 :: entry.2), ?_, rfl⟩
    have hcells : admitted.cellCount = cells.contents.size :=
      (frame_of_admit? hgiven).2.2.2.trans (hw.pop hpop).2.cellCount_eq
    rw [hqueue, childrenOf_eq hcells]
    exact List.mem_append_right _ (List.mem_map.2 ⟨c, hc, rfl⟩)
  · rw [hvisitsOf, if_neg hentry, Nat.add_zero] at hvisits
    exact hcovers _ (h.covers_children hv hid hvisits c hc)

/-- Once nothing waits any more, everything that can be reached has been given. -/
theorem Covering.visited (h : w.Covering cells root) (hqueue : w.queue = []) {v : Value}
    (hv : cells.Reaches root v) : ∀ id, v.identity? = some id → 0 < w.visitsOf id := by
  -- As nothing waits, being covered is being given.  The induction is along the way from the root.
  have hvisited : ∀ v, w.Covers v → ∀ id, v.identity? = some id → 0 < w.visitsOf id := by
    intro v hcovers id hid
    rcases hcovers id hid with hvisits | ⟨e, he, -⟩
    · exact hvisits
    · rw [hqueue] at he
      cases he
  induction hv with
  | refl => exact hvisited _ h.covers_root
  | @step v c hv hc ih =>
    cases hid : v.identity? with
    | none =>
      rw [Cells.children_resolve_eq_nil hid] at hc
      cases hc
    | some id => exact hvisited _ (h.covers_children hv hid (ih id hid) c hc)

/-- What can be reached has been given before or is given from here on. -/
theorem exists_mem_trace (hroot : cells.Coherent root) (h : w.From cells root)
    (hcovering : w.Covering cells root) (hmax : 0 < w.maxVisits) {v : Value}
    (hv : cells.Reaches root v) {id : Identity} (hid : v.identity? = some id) :
    0 < w.visitsOf id ∨ ∃ e ∈ w.trace cells, e.1.identity? = some id := by
  induction w using trace.induct cells with
  | case1 w hpop => exact .inl (hcovering.visited (queue_eq_nil_of_pop? hpop) hv id hid)
  | case2 w entry popped hpop hgiven ih =>
    rw [trace_of_passed hpop hgiven, ← visitsOf_of_pop? hpop]
    exact ih (h.pop hpop).2 (hcovering.pass hpop hgiven hmax) ((queue_of_pop? hpop).2.2.1 ▸ hmax)
  | case3 w entry popped hpop admitted hgiven ih =>
    rw [trace_of_given hpop hgiven]
    rcases ih (h.visit hroot hpop hgiven) (hcovering.give hroot h hpop hgiven)
      (maxVisits_visit hpop hgiven ▸ hmax) with hvisits | ⟨e, he, hide⟩
    · by_cases hentry : entry.1.identity? = some id
      · exact .inr ⟨_, List.mem_cons_self, hentry⟩
      · have hcount := visitsOf_admit? hgiven id
        rw [if_neg hentry, Nat.add_zero, visitsOf_of_pop? hpop] at hcount
        exact .inl (hcount ▸ hvisits)
    · exact .inr ⟨e, List.mem_cons_of_mem _ he, hide⟩

end DataExpr.Walk
