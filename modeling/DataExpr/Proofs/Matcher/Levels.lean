import DataExpr.Proofs.Lists
import DataExpr.Proofs.Matcher.LevelOrder
import Mathlib.Data.List.Induction
import Mathlib.Data.Nat.Find

/-!
# The levels of a focus

`Walk.level cells nodes n` are the nodes `n` steps below given ones, the value behind a cell being
read.  Where no two paths lead to nodes of one identity, a descent passes over nothing, and what it
gives are the levels of the focus, one after the other (`exists_depth_trace`).

The proof goes level by level and not node by node: once all nodes of one level have been given,
exactly those of the next one wait (`Clear.give_all`).  What has to be known all the time is
`Walk.Clear`: nothing at or below a node that waits has been given.  The levels end since the descent
does.
-/

namespace DataExpr.Walk

variable {cells : Cells} {root : Value} {entry : Value × List Step}
variable {w popped admitted : Walk}

/-! ### Levels -/

/-- The children of a node that waits, or of what is behind it if it is a cell. -/
def belowIn (cells : Cells) (entry : Value × List Step) : List (Value × List Step) :=
  (cells.resolve entry.1).children.map fun c => (c.1, c.2 :: entry.2)

/-- The nodes a number of steps below the given ones, each with its path, last step first. -/
def level (cells : Cells) (nodes : List (Value × List Step)) : Nat → List (Value × List Step)
  | 0 => nodes
  | n + 1 => (level cells nodes n).flatMap (belowIn cells)

theorem level_of_eq_nil {nodes : List (Value × List Step)} {m n : Nat}
    (h : level cells nodes m = []) (hmn : m ≤ n) : level cells nodes n = [] := by
  induction hmn with
  | refl => exact h
  | step _ ih => rw [level, ih, List.flatMap_nil]

/-- What is at the end of a path is a node of the level that is as deep as the path is long. -/
theorem mem_level_of_get? {path : Path} {v : Value} (h : Path.get? cells path root = some v) :
    (v, path.reverse) ∈ level cells [(root, [])] path.length := by
  induction path using List.reverseRecOn generalizing v with
  | nil =>
    obtain rfl := Option.some.inj h
    exact List.mem_singleton_self _
  | append_singleton path step ih =>
    rw [Path.get?_append, Option.bind_eq_some_iff] at h
    obtain ⟨a, ha, h⟩ := h
    obtain ⟨c, hc, h⟩ := Path.get?_cons_eq_some.1 h
    obtain rfl := Option.some.inj h
    rw [List.length_append, List.length_singleton, level, List.reverse_append]
    refine List.mem_flatMap.2 ⟨(a, path.reverse), ih ha, List.mem_map.2 ⟨(c, step), ?_, rfl⟩⟩
    exact Value.mem_children_of_child? hc

/-- The nodes of a level are those at the paths of its length. -/
theorem mem_level (h : cells.Coherent root) {n : Nat} {e : Value × List Step} :
    e ∈ level cells [(root, [])] n ↔
      e.2.length = n ∧ Path.get? cells e.2.reverse root = some e.1 := by
  constructor
  · intro he
    induction n generalizing e with
    | zero =>
      obtain rfl := List.mem_singleton.1 he
      exact ⟨rfl, rfl⟩
    | succ n ih =>
      obtain ⟨a, ha, he⟩ := List.mem_flatMap.1 he
      obtain ⟨hlength, hget⟩ := ih ha
      obtain ⟨c, hc, rfl⟩ := List.mem_map.1 he
      refine ⟨congrArg Nat.succ hlength, ?_⟩
      rw [List.reverse_cons, Path.get?_append, hget, Option.bind_some, Path.get?_cons,
        h.child?_of_mem (Cells.reaches_of_get? .refl hget) hc]
      rfl
  · rintro ⟨rfl, hget⟩
    have hmem := mem_level_of_get? hget
    rwa [List.reverse_reverse, List.length_reverse] at hmem

/-! ### Nothing is passed over -/

/-- What waits is at its path, none of it is at or below another node that waits, and nothing at or
below it has been given. -/
structure Clear (cells : Cells) (root : Value) (w : Walk) : Prop where
  located : w.From cells root
  maxVisits_pos : 0 < w.maxVisits
  apart : w.queue.Pairwise Apart
  unseen : ∀ e ∈ w.queue, ∀ {q v id}, e.2.reverse <+: q → Path.get? cells q root = some v →
    v.identity? = some id → w.visitsOf id = 0

theorem clear_ofRoot (cells : Cells) (root : Value) {maxVisits : Nat} (h : 0 < maxVisits) :
    (ofRoot root maxVisits cells.contents.size).Clear cells root where
  located := from_ofRoot cells root maxVisits
  maxVisits_pos := h
  apart := List.pairwise_singleton _ _
  unseen _ _ _ _ _ _ _ _ := Std.HashMap.getD_empty

/-- The next node may be given. -/
theorem Clear.admit? (h : w.Clear cells root) (hpop : w.pop? = some (entry, popped)) :
    ∃ admitted, popped.admit? entry.1 = some admitted := by
  obtain ⟨hqueue, -, hmax, -⟩ := queue_of_pop? hpop
  cases hgiven : popped.admit? entry.1 with
  | some admitted => exact ⟨admitted, rfl⟩
  | none =>
    obtain ⟨id, hid, hle⟩ := le_visitsOf_of_admit? hgiven (hmax ▸ h.maxVisits_pos)
    have hentry : entry ∈ w.queue := hqueue ▸ List.mem_cons_self
    have hunseen := h.unseen entry hentry List.prefix_rfl (h.located.pop hpop).1 hid
    rw [visitsOf_of_pop? hpop, hunseen, hmax] at hle
    exact absurd h.maxVisits_pos (Nat.not_lt.2 hle)

/-- A path that goes on from one of two nodes apart is not the path of the other. -/
theorem Apart.ne_of_prefix {a b : Value × List Step} (h : Apart a b) {q : Path}
    (hq : b.2.reverse <+: q) : q ≠ a.2.reverse := by
  rintro rfl
  exact h.2 (List.reverse_prefix.1 hq)

/-- Giving a node keeps the way clear: it is on the way to its children, but not the other way
round. -/
theorem Clear.visit (h : w.Clear cells root) (hroot : cells.Unshared root)
    (hpop : w.pop? = some (entry, popped)) (hgiven : popped.admit? entry.1 = some admitted) :
    (admitted.visit cells entry).queue = popped.queue ++ belowIn cells entry ∧
      (admitted.visit cells entry).Clear cells root := by
  obtain ⟨hentry, hpopped⟩ := h.located.pop hpop
  have hlocated := h.located.visit hroot.coherent hpop hgiven
  have hqueue : (admitted.visit cells entry).queue = popped.queue ++ belowIn cells entry := by
    have hcells : admitted.cellCount = cells.contents.size :=
      (frame_of_admit? hgiven).2.2.2.trans hpopped.cellCount_eq
    rw [queue_visit, (frame_of_admit? hgiven).2.1, childrenOf_eq hcells, belowIn]
  have hwqueue := (queue_of_pop? hpop).1
  have hapart := h.apart
  rw [hwqueue] at hapart
  have hbelow := pairwise_append_children (hroot.keys hentry) hapart
  refine ⟨hqueue, hlocated, ?_, hqueue ▸ hbelow, ?_⟩
  · rw [maxVisits_visit hpop hgiven]
    exact h.maxVisits_pos
  · intro e he q v id hq hget hid
    have hcount : (admitted.visit cells entry).visitsOf id =
        w.visitsOf id + if entry.1.identity? = some id then 1 else 0 := by
      rw [← visitsOf_of_pop? hpop]
      exact visitsOf_admit? hgiven id
    rw [hqueue] at he
    -- The path `q` is another one than that of the node that has been given.
    have hne : q ≠ entry.2.reverse := by
      rcases List.mem_append.1 he with he | he
      · exact Apart.ne_of_prefix ((List.pairwise_cons.1 hapart).1 e he) hq
      · obtain ⟨c, -, rfl⟩ := List.mem_map.1 he
        rintro rfl
        exact absurd hq.length_le (by simp)
    have hunseen : w.visitsOf id = 0 := by
      rcases List.mem_append.1 he with he | he
      · exact h.unseen e (hwqueue ▸ List.mem_cons_of_mem _ he) hq hget hid
      · obtain ⟨c, -, rfl⟩ := List.mem_map.1 he
        rw [List.reverse_cons] at hq
        exact h.unseen entry (hwqueue ▸ List.mem_cons_self)
          ((List.prefix_append _ _).trans hq) hget hid
    rw [hcount, hunseen, if_neg fun hentryId => hne (hroot.path_eq hget hentry hid hentryId)]

/-- The nodes that wait first are given one after the other, and then those below them wait behind
the rest. -/
theorem Clear.give_all (hroot : cells.Unshared root) {first rest : List (Value × List Step)}
    (h : w.Clear cells root) (hqueue : w.queue = first ++ rest) :
    ∃ w' : Walk, w'.queue = rest ++ first.flatMap (belowIn cells) ∧ w'.Clear cells root ∧
      w.trace cells = first.map (fun e => (e.1, e.2.reverse)) ++ w'.trace cells := by
  induction first generalizing w rest with
  | nil => exact ⟨w, by rw [hqueue, List.flatMap_nil, List.append_nil]; rfl, h, rfl⟩
  | cons e first ih =>
    cases hpop : w.pop? with
    | none =>
      rw [queue_eq_nil_of_pop? hpop] at hqueue
      cases hqueue
    | some next =>
      obtain ⟨entry, popped⟩ := next
      rw [(queue_of_pop? hpop).1, List.cons_append] at hqueue
      obtain ⟨rfl, hpopped⟩ := List.cons.inj hqueue
      obtain ⟨admitted, hgiven⟩ := h.admit? hpop
      obtain ⟨hvisit, hclear⟩ := h.visit hroot hpop hgiven
      rw [hpopped, List.append_assoc] at hvisit
      obtain ⟨w', hw', hclear', htrace⟩ := ih hclear hvisit
      refine ⟨w', ?_, hclear', ?_⟩
      · rw [hw', List.append_assoc, List.flatMap_cons]
      · rw [trace_of_given hpop hgiven, htrace, List.map_cons, List.cons_append]

/-! ### The descent as its levels -/

/-- After the nodes of the first levels those of the next one wait. -/
theorem Clear.trace_eq_levels (hroot : cells.Unshared root) (h : w.Clear cells root) (n : Nat) :
    ∃ w' : Walk, w'.queue = level cells w.queue n ∧ w'.Clear cells root ∧
      w.trace cells =
        ((List.range n).flatMap (level cells w.queue)).map (fun e => (e.1, e.2.reverse)) ++
          w'.trace cells := by
  induction n with
  | zero => exact ⟨w, rfl, h, rfl⟩
  | succ n ih =>
    obtain ⟨w', hqueue, hclear, htrace⟩ := ih
    obtain ⟨w'', hqueue', hclear', htrace'⟩ := hclear.give_all hroot (List.append_nil _).symm
    refine ⟨w'', ?_, hclear', ?_⟩
    · rw [hqueue', List.nil_append, hqueue, level]
    · rw [htrace, htrace', hqueue, List.range_succ, List.flatMap_append, List.flatMap_singleton,
        List.map_append, List.append_assoc]

/-- The levels of a focus end, and a descent gives one after the other. -/
theorem exists_depth_trace (hroot : cells.Unshared root) {maxVisits : Nat} (hmax : 0 < maxVisits) :
    ∃ depth, level cells [(root, [])] depth ≠ [] ∧ level cells [(root, [])] (depth + 1) = [] ∧
      (ofRoot root maxVisits cells.contents.size).trace cells =
        ((List.range (depth + 1)).flatMap (level cells [(root, [])])).map
          fun e => (e.1, e.2.reverse) := by
  have hclear := clear_ofRoot cells root hmax
  have hqueue : (ofRoot root maxVisits cells.contents.size).queue = [(root, [])] := rfl
  -- If no level were empty, the nodes of the levels would be more than all that are given.
  have hends : ∃ n, level cells [(root, [])] n = [] := by
    by_contra hnone
    rw [not_exists] at hnone
    have hle := Lists.le_length_flatMap_range hnone
      (((ofRoot root maxVisits cells.contents.size).trace cells).length + 1)
    obtain ⟨w', -, -, htrace⟩ := hclear.trace_eq_levels hroot
      (((ofRoot root maxVisits cells.contents.size).trace cells).length + 1)
    have hlength := congrArg List.length htrace
    rw [hqueue, List.length_append, List.length_map] at hlength
    omega
  obtain ⟨n, hn⟩ : ∃ n, Nat.find hends = n + 1 :=
    Nat.exists_eq_succ_of_ne_zero fun hzero => by
      have hempty := Nat.find_spec hends
      rw [hzero] at hempty
      cases hempty
  have hempty : level cells [(root, [])] (n + 1) = [] := hn ▸ Nat.find_spec hends
  refine ⟨n, Nat.find_min hends (hn ▸ Nat.lt_succ_self n), hempty, ?_⟩
  obtain ⟨w', hqueue', -, htrace⟩ := hclear.trace_eq_levels hroot (n + 1)
  rw [hqueue, hempty] at hqueue'
  have hended : w'.trace cells = [] := by
    cases hpop : w'.pop? with
    | none => exact trace_of_ended hpop
    | some next =>
      rw [(queue_of_pop? hpop).1] at hqueue'
      cases hqueue'
  rw [htrace, hqueue, hended, List.append_nil]

end DataExpr.Walk
