import DataExpr.Proofs.Matcher.Trace
import DataExpr.Proofs.Value.Leaves

/-!
# Descending level by level

`Walk.levelOrder` is the order in which a descent gives the nodes of a value if it never passes over
one: all positions, each once (`mem_levelOrder_root`, `nodup_levelOrder_root`).

A descent follows this order for as long as it sees what it would see in the value.  `Walk.Sees`
says what this takes at the nodes to come: at their places there are containers with the same steps
to their children, or leaves, and no two of these containers are one, nor has one of them been
given.  It says nothing of what is further on, where the descent may find anything
(`Sees.trace_eq`).
-/

namespace DataExpr

theorem Value.identity?_eq {v : Value} (h : ∀ id, v ≠ .cell id) :
    v.identity? = v.node?.map .node := by
  cases v with
  | cell id => exact absurd rfl (h id)
  | _ => rfl

namespace Walk

variable {cells : Cells} {queue : List (Value × List Step)} {entry : Value × List Step}

/-! ### All positions -/

/-- The children of a node that waits. -/
def below (entry : Value × List Step) : List (Value × List Step) :=
  entry.1.children.map fun c => (c.1, c.2 :: entry.2)

theorem queueWeight_below_lt (entry : Value × List Step) (queue : List (Value × List Step)) :
    total (weight ·.1) (queue ++ below entry) < total (weight ·.1) (entry :: queue) := by
  have hbelow : total (weight ·.1) (below entry) < weight entry.1 := by
    rw [below, total_map]
    exact weight_children_lt entry.1
  rw [total_append, total]
  omega

/-- All nodes that wait and all nodes below them, level by level, each with its path, last step
first. -/
def levelOrder : List (Value × List Step) → List (Value × List Step)
  | [] => []
  | entry :: queue => entry :: levelOrder (queue ++ below entry)
termination_by queue => total (weight ·.1) queue
decreasing_by exact queueWeight_below_lt entry queue

theorem levelOrder_nil : levelOrder [] = [] := by
  rw [levelOrder]

theorem levelOrder_cons (entry : Value × List Step) (queue : List (Value × List Step)) :
    levelOrder (entry :: queue) = entry :: levelOrder (queue ++ below entry) := by
  rw [levelOrder]

theorem plain_below (h : ∀ e ∈ entry :: queue, e.1.Plain) :
    ∀ e ∈ queue ++ below entry, e.1.Plain := by
  rw [List.forall_mem_cons] at h
  rw [List.forall_mem_append]
  exact ⟨h.2, List.forall_mem_map.2 fun c hc => h.1.child hc⟩

/-- The nodes in level order are those at all paths from the nodes that wait. -/
theorem mem_levelOrder (cells : Cells) (hplain : ∀ e ∈ queue, e.1.Plain) {e : Value × List Step} :
    e ∈ levelOrder queue ↔
      ∃ a ∈ queue, ∃ r, e.2 = r.reverse ++ a.2 ∧ Path.get? cells r a.1 = some e.1 := by
  induction queue using levelOrder.induct with
  | case1 =>
    rw [levelOrder_nil]
    simp
  | case2 entry queue ih =>
    have hentry := hplain entry List.mem_cons_self
    rw [levelOrder_cons, List.mem_cons, ih (plain_below hplain)]
    constructor
    · rintro (rfl | ⟨a, ha, r, hpath, hget⟩)
      · exact ⟨e, List.mem_cons_self, [], rfl, rfl⟩
      · rcases List.mem_append.1 ha with ha | ha
        · exact ⟨a, List.mem_cons_of_mem _ ha, r, hpath, hget⟩
        · -- A path from a child goes on from its step.
          obtain ⟨c, hc, rfl⟩ := List.mem_map.1 ha
          refine ⟨entry, List.mem_cons_self, c.2 :: r, ?_, ?_⟩
          · rw [hpath, List.reverse_cons, List.append_assoc, List.singleton_append]
          · rw [Path.get?_cons, hentry.resolve, hentry.child?_of_mem hc, Option.bind_some, hget]
    · rintro ⟨a, ha, r, hpath, hget⟩
      rcases List.mem_cons.1 ha with rfl | ha
      · cases r with
        | nil => exact .inl (Prod.ext (Option.some.inj hget).symm hpath)
        | cons step r =>
          obtain ⟨c, hc, hget⟩ := Path.get?_cons_eq_some.1 hget
          rw [hentry.resolve] at hc
          refine .inr ⟨(c, step :: a.2), List.mem_append_right _ ?_, r, ?_, hget⟩
          · exact List.mem_map.2 ⟨(c, step), Value.mem_children_of_child? hc, rfl⟩
          · rw [hpath, List.reverse_cons, List.append_assoc, List.singleton_append]
      · exact .inr ⟨a, List.mem_append_left _ ha, r, hpath, hget⟩

/-- Neither of two nodes is at or below the other. -/
def Apart (a b : Value × List Step) : Prop := ¬ a.2 <:+ b.2 ∧ ¬ b.2 <:+ a.2

/-- The children of a node, put behind the nodes that wait with it, are apart from these and from one
another. -/
theorem pairwise_append_children {v : Value}
    (hv : ∀ entries, v.entries? = some entries → (Entries.keys entries).Nodup)
    (h : (entry :: queue).Pairwise Apart) :
    (queue ++ v.children.map fun c => (c.1, c.2 :: entry.2)).Pairwise Apart := by
  obtain ⟨hapart, hqueue⟩ := List.pairwise_cons.1 h
  rw [List.pairwise_append]
  refine ⟨hqueue, ?_, fun a ha b hb => ?_⟩
  · refine List.pairwise_map.2 ((Value.pairwise_children hv).imp fun {c d} hne => ?_)
    have heq : c.2 :: entry.2 ≠ d.2 :: entry.2 := fun heq => hne (List.cons.inj heq).1
    exact ⟨fun h => heq (h.eq_of_length rfl), fun h => heq (h.eq_of_length rfl).symm⟩
  · obtain ⟨c, -, rfl⟩ := List.mem_map.1 hb
    obtain ⟨habove, hbelow⟩ := hapart a ha
    constructor
    · intro h
      rcases List.suffix_cons_iff.1 h with h | h
      · exact habove (h ▸ List.suffix_cons _ _)
      · exact hbelow h
    · exact fun h => habove ((List.suffix_cons _ _).trans h)

/-- No path occurs twice in level order. -/
theorem nodup_levelOrder (hplain : ∀ e ∈ queue, e.1.Plain) (hapart : queue.Pairwise Apart) :
    ((levelOrder queue).map Prod.snd).Nodup := by
  induction queue using levelOrder.induct with
  | case1 =>
    rw [levelOrder_nil]
    exact .nil
  | case2 entry queue ih =>
    have hentry := hplain entry List.mem_cons_self
    have hrest := ih (plain_below hplain)
      (pairwise_append_children (fun _ he => hentry.wellFormed.keys he) hapart)
    rw [levelOrder_cons, List.map_cons, List.nodup_cons]
    refine ⟨fun hmem => ?_, hrest⟩
    -- What comes later is below a node that waits or below a child, so it is not above this node.
    obtain ⟨e, he, hpath⟩ := List.mem_map.1 hmem
    obtain ⟨a, ha, r, hr, -⟩ := (mem_levelOrder Cells.none (plain_below hplain)).1 he
    have hsuffix : a.2 <:+ entry.2 := ⟨r.reverse, hr.symm.trans hpath⟩
    rcases List.mem_append.1 ha with ha | ha
    · exact ((List.pairwise_cons.1 hapart).1 a ha).2 hsuffix
    · obtain ⟨c, -, rfl⟩ := List.mem_map.1 ha
      exact absurd hsuffix.length_le (Nat.not_le.2 (Nat.lt_succ_self _))

section

variable {root : Value}

theorem mem_levelOrder_root (cells : Cells) (h : root.Plain) {e : Value × List Step} :
    e ∈ levelOrder [(root, [])] ↔ Path.get? cells e.2.reverse root = some e.1 := by
  rw [mem_levelOrder cells (by simpa using h)]
  constructor
  · rintro ⟨a, ha, r, hpath, hget⟩
    obtain rfl := List.mem_singleton.1 ha
    rw [hpath, List.append_nil, List.reverse_reverse]
    exact hget
  · intro hget
    refine ⟨(root, []), List.mem_singleton_self _, e.2.reverse, ?_, hget⟩
    rw [List.reverse_reverse, List.append_nil]

theorem nodup_levelOrder_root (h : root.Plain) :
    ((levelOrder [(root, [])]).map Prod.snd).Nodup :=
  nodup_levelOrder (by simpa using h) (List.pairwise_singleton _ _)

end

/-! ### Following the order -/

/-- What a descent sees of a node: whether there are children, and the steps to them. -/
structure Alike (v w : Value) : Prop where
  ne_cell : ∀ id, w ≠ .cell id
  keys : ∀ entries, w.entries? = some entries → (Entries.keys entries).Nodup
  steps_eq : w.children.map Prod.snd = v.children.map Prod.snd

theorem map_snd_children_list (node : Nat) (items : List Value) :
    (Value.list node items).children.map Prod.snd =
      (List.range' 0 items.length).map Step.index := by
  rw [← List.zipIdx_map_snd, Value.children, List.map_map, List.map_map]
  rfl

theorem map_snd_children_map (node : Nat) (entries : List (String × Value)) :
    (Value.map node entries).children.map Prod.snd = (Entries.keys entries).map Step.key := by
  rw [Value.children, List.map_map, Entries.keys, List.map_map]
  rfl

/-- Changing the children of a value, and the numbers of containers, changes nothing that is
seen. -/
theorem alike_of_content_eq {v w : Value} (hv : v.Plain) {g : Step → Value → Value}
    (h : w.content = (v.mapChildren g).content) : Alike v w := by
  cases hcontainer : v.isContainer with
  | false =>
    rw [Value.mapChildren_of_leaf hcontainer] at h
    obtain rfl := Value.eq_of_content_eq hcontainer h
    exact ⟨hv.ne_cell, fun _ he => hv.wellFormed.keys he, rfl⟩
  | true =>
    cases v with
    | list node items =>
      obtain ⟨n, vs, rfl, hvs⟩ := Value.eq_list_of_content_eq h
      have hlength : vs.length = items.length := by simpa using congrArg List.length hvs
      refine ⟨by simp, by simp [Value.entries?], ?_⟩
      rw [map_snd_children_list, map_snd_children_list, hlength]
    | map node entries =>
      obtain ⟨n, es, rfl, hes⟩ := Value.eq_map_of_content_eq h
      have hkeys : Entries.keys es = Entries.keys entries := by
        have hkeys := congrArg Entries.keys hes
        rw [Entries.keys_mapValues, Entries.keys_mapValues] at hkeys
        rw [hkeys, Entries.keys, List.map_map]
        rfl
      refine ⟨by simp, fun entries' he => ?_, ?_⟩
      · obtain rfl := Option.some.inj he
        rw [hkeys]
        exact hv.wellFormed.keys rfl
      · rw [map_snd_children_map, map_snd_children_map, hkeys]
    | _ => cases hcontainer

/-- At the places of the nodes there is what looks like them, and no container that is there has
been given or is at two of the places. -/
structure Sees (cells : Cells) (nodes : List (Value × List Step)) (w : Walk) : Prop where
  alike : ∀ e ∈ nodes, ∃ v, Path.get? cells e.2.reverse w.root = some v ∧ Alike e.1 v
  unseen : ∀ e ∈ nodes, ∀ n, Path.node? cells e.2.reverse w.root = some n → w.visitsOf (.node n) = 0
  distinct : nodes.Pairwise fun a b => ∀ n, Path.node? cells a.2.reverse w.root = some n →
    Path.node? cells b.2.reverse w.root ≠ some n

variable {w popped admitted : Walk} {nodes later : List (Value × List Step)}

section

variable {node : Value × List Step} (h : w.Sees cells (node :: nodes))
variable (hpath : entry.2 = node.2)
variable (hget : Path.get? cells entry.2.reverse w.root = some entry.1)

include h hpath hget

theorem Sees.alike_first : Alike node.1 entry.1 := by
  obtain ⟨v, hv, halike⟩ := h.alike node List.mem_cons_self
  rw [hpath] at hget
  obtain rfl := Option.some.inj (hv.symm.trans hget)
  exact halike

/-- The first of the nodes is known by its number, if by anything. -/
theorem Sees.identity?_first {id : Identity} (hid : entry.1.identity? = some id) :
    ∃ n, id = .node n ∧ Path.node? cells node.2.reverse w.root = some n := by
  have halike := h.alike_first hpath hget
  rw [Value.identity?_eq halike.ne_cell] at hid
  obtain ⟨n, hn, rfl⟩ := Option.map_eq_some_iff.1 hid
  refine ⟨n, rfl, ?_⟩
  rw [← hpath, Path.node?_of_get? hget, hn]

/-- The first of the nodes may be given. -/
theorem Sees.admit? (hpop : w.pop? = some (entry, popped)) (hmax : 0 < w.maxVisits) :
    ∃ admitted, popped.admit? entry.1 = some admitted := by
  cases hgiven : popped.admit? entry.1 with
  | some admitted => exact ⟨admitted, rfl⟩
  | none =>
    rw [← (queue_of_pop? hpop).2.2.1] at hmax
    obtain ⟨id, hid, hle⟩ := le_visitsOf_of_admit? hgiven hmax
    obtain ⟨n, rfl, hnode⟩ := h.identity?_first hpath hget hid
    rw [visitsOf_of_pop? hpop, h.unseen node List.mem_cons_self n hnode] at hle
    exact absurd hmax (Nat.not_lt.2 hle)

/-- After a node has been given, the descent sees the others. -/
theorem Sees.visit (hpop : w.pop? = some (entry, popped))
    (hgiven : popped.admit? entry.1 = some admitted) :
    (admitted.visit cells entry).Sees cells nodes := by
  have hroot : (admitted.visit cells entry).root = w.root :=
    (frame_of_admit? hgiven).1.trans (root_of_pop? hpop)
  obtain ⟨hdistinct, hrest⟩ := List.pairwise_cons.1 h.distinct
  constructor
  · rw [hroot]
    exact fun e he => h.alike e (List.mem_cons_of_mem _ he)
  · rw [hroot]
    intro e he n hn
    have hcount : (admitted.visit cells entry).visitsOf (.node n) =
        w.visitsOf (.node n) + if entry.1.identity? = some (.node n) then 1 else 0 := by
      rw [← visitsOf_of_pop? hpop]
      exact visitsOf_admit? hgiven _
    have hother : entry.1.identity? ≠ some (.node n) := by
      intro hid
      obtain ⟨m, hm, hnode⟩ := h.identity?_first hpath hget hid
      obtain rfl := Identity.node.inj hm
      exact hdistinct e he n hnode hn
    rw [hcount, if_neg hother, h.unseen e (List.mem_cons_of_mem _ he) n hn]
  · rw [hroot]
    exact hrest

end

/-- The descent goes through the queue that the order goes through, and sees the nodes to come. -/
structure Follows (cells : Cells) (queue nodes : List (Value × List Step)) (w : Walk) : Prop where
  rooted : w.Rooted cells
  maxVisits_pos : 0 < w.maxVisits
  queue_eq : w.queue.map Prod.snd = queue.map Prod.snd
  sees : w.Sees cells nodes

theorem Alike.map_below {v : Value} {path : List Step} (h : Alike entry.1 v)
    (w : Walk) (hpath : path = entry.2) :
    ((w.childrenOf cells v).map fun c => (c.1, c.2 :: path)).map Prod.snd =
      (below entry).map Prod.snd := by
  have hsteps := congrArg (List.map (· :: entry.2)) h.steps_eq
  rw [List.map_map, List.map_map] at hsteps
  rw [childrenOf_of_ne_cell _ _ h.ne_cell, below, List.map_map, List.map_map, hpath]
  exact hsteps

/-- A descent that follows the order gives its first node, and follows it from there on. -/
theorem Follows.give {node : Value × List Step}
    (h : w.Follows cells (node :: queue) (node :: nodes)) :
    ∃ (v : Value) (w' : Walk), Path.get? cells node.2.reverse w.root = some v ∧ w'.root = w.root ∧
      w.trace cells = (v, node.2.reverse) :: w'.trace cells ∧
      w'.Follows cells (queue ++ below node) nodes := by
  obtain ⟨hrooted, hmax, hqueue, hsees⟩ := h
  cases hpop : w.pop? with
  | none =>
    rw [queue_eq_nil_of_pop? hpop] at hqueue
    cases hqueue
  | some next =>
    obtain ⟨entry, popped⟩ := next
    rw [(queue_of_pop? hpop).1, List.map_cons, List.map_cons] at hqueue
    obtain ⟨hpath, hqueue⟩ := List.cons.inj hqueue
    obtain ⟨hget, hpopped⟩ := hrooted.pop hpop
    have halike := hsees.alike_first hpath hget
    obtain ⟨admitted, hgiven⟩ := hsees.admit? hpath hget hpop hmax
    obtain ⟨hadmittedRoot, hadmittedQueue, -, -⟩ := frame_of_admit? hgiven
    have hroot : admitted.root = w.root := hadmittedRoot.trans (root_of_pop? hpop)
    refine ⟨entry.1, admitted.visit cells entry, hpath ▸ hget, hroot, ?_, ?_, ?_, ?_, ?_⟩
    · rw [trace_of_given hpop hgiven, hpath]
    · refine (hpopped.given hgiven).visit (hroot ▸ hget) fun c hc => ?_
      rw [childrenOf_of_ne_cell _ _ halike.ne_cell] at hc
      rw [cells.resolve_of_ne_cell halike.ne_cell]
      exact Value.child?_of_mem halike.keys hc
    · rw [maxVisits_visit hpop hgiven]
      exact hmax
    · rw [queue_visit, hadmittedQueue, List.map_append, hqueue, halike.map_below _ hpath,
        List.map_append]
    · exact hsees.visit hpath hget hpop hgiven

/-- What a descent gives at the place of a node. -/
def given (cells : Cells) (root : Value) (node : Value × List Step) : Value × Path :=
  ((Path.get? cells node.2.reverse root).getD .undefined, node.2.reverse)

/-- The nodes of the order that are seen are given, and nothing else if these are all of them. -/
theorem Follows.trace_eq (h : w.Follows cells queue nodes)
    (horder : levelOrder queue = nodes ++ later) :
    ∃ rest, w.trace cells = nodes.map (given cells w.root) ++ rest ∧ (later = [] → rest = []) := by
  induction nodes generalizing w queue with
  | nil =>
    refine ⟨w.trace cells, rfl, fun hlater => trace_of_ended ?_⟩
    rw [hlater, List.append_nil] at horder
    cases queue with
    | nil =>
      cases hpop : w.pop? with
      | none => rfl
      | some next =>
        have hqueue := h.queue_eq
        rw [(queue_of_pop? hpop).1] at hqueue
        cases hqueue
    | cons entry queue =>
      rw [levelOrder_cons] at horder
      cases horder
  | cons node nodes ih =>
    cases queue with
    | nil =>
      rw [levelOrder_nil] at horder
      cases horder
    | cons first queue =>
      rw [levelOrder_cons, List.cons_append] at horder
      obtain ⟨rfl, hrest⟩ := List.cons.inj horder
      obtain ⟨v, w', hget, hroot, htrace, hfollows⟩ := h.give
      obtain ⟨rest, htrace', hlater⟩ := ih hfollows hrest
      refine ⟨rest, ?_, hlater⟩
      rw [htrace, htrace', hroot, List.map_cons, given, hget]
      rfl

/-- At first the descent follows the order of a value if its root looks like the value. -/
theorem follows_ofRoot {root v : Value} {maxVisits : Nat} (hmax : 0 < maxVisits) (cellCount : Nat)
    (hsees : (ofRoot root maxVisits cellCount).Sees cells nodes) :
    (ofRoot root maxVisits cellCount).Follows cells [(v, [])] nodes :=
  ⟨rooted_ofRoot _ _ _ _, hmax, rfl, hsees⟩

end Walk

end DataExpr
