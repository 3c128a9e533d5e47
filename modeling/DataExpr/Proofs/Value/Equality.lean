import DataExpr.Proofs.Entries.Agree
import DataExpr.Proofs.Lists
import DataExpr.Proofs.Object
import DataExpr.Proofs.Value.Leaves
import DataExpr.Value.Equality

/-!
# Equality is deep equality

`Value.DeeplyEqual` says what it means that two values have the same structure, without a look at which
containers they are made of.  `Value.equal` decides it for values without floats
(`equal_iff_deeplyEqual`), where it is an equivalence.  It takes containers of one number to be equal
without comparing them, which needs that a number stands for one container only: the values have to come
from one heap (`Value.Stored`).

With floats equality is still symmetric (`equal_symm`), though not transitive, and not even reflexive but
for that shortcut.  Maps are compared from one side, as objects with an index are (`equal_object`), so
symmetry rests on there being as many keys on the other side (`Entries.agree_iff`).
-/

namespace DataExpr.Value

variable {heap heap' : Nat → Value} {a a' b b' c v w : Value} {m n : Nat}
variable {vs ws : List Value} {es fs : List (String × Value)}

/-- Whether two values have the same structure: equal scalars, lists that are deeply equal item by item,
and maps that have the same keys in whatever order, with deeply equal values.  Symbols, functions,
foreign objects and cells are deeply equal to themselves alone, and nothing is said of floats. -/
inductive DeeplyEqual : Value → Value → Prop where
  | undefined : DeeplyEqual undefined undefined
  | null : DeeplyEqual null null
  | bool (b : Bool) : DeeplyEqual (bool b) (bool b)
  | int (n : Int64) : DeeplyEqual (int n) (int n)
  | str (s : String) : DeeplyEqual (str s) (str s)
  | date (d : Date) : DeeplyEqual (date d) (date d)
  | symbol (id : Int) (description description' : String) :
      DeeplyEqual (symbol id description) (symbol id description')
  | function (id : Int) (name name' : String) : DeeplyEqual (function id name) (function id name')
  | foreign (id : Int) (content content' : Foreign) :
      DeeplyEqual (foreign id content) (foreign id content')
  | cell (id : Nat) : DeeplyEqual (cell id) (cell id)
  | list {m n : Nat} {vs ws : List Value} (h : List.Forall₂ DeeplyEqual vs ws) :
      DeeplyEqual (list m vs) (list n ws)
  | map {m n : Nat} {es fs : List (String × Value)}
      (hkeys : (Entries.keys es).Perm (Entries.keys fs))
      (hvalues : ∀ {key v w}, Entries.get? es key = some v → Entries.get? fs key = some w →
        DeeplyEqual v w) :
      DeeplyEqual (map m es) (map n fs)

/-- Whether there is no float in the value. -/
inductive FloatFree : Value → Prop where
  | intro {v : Value} (ne : ∀ x, v ≠ float x) (below : ∀ c ∈ v.children, FloatFree c.1) :
      FloatFree v

/-- Whether the containers of the value are those that the heap has under their numbers, and no key
occurs twice in a map. -/
inductive Stored (heap : Nat → Value) : Value → Prop where
  | intro {v : Value} (node : ∀ n, v.identity? = some (.node n) → heap n = v)
      (keys : ∀ entries, v.entries? = some entries → (Entries.keys entries).Nodup)
      (below : ∀ c ∈ v.children, Stored heap c.1) : Stored heap v

/-! ### Deep equality -/

theorem deeplyEqual_list :
    DeeplyEqual (list m vs) (list n ws) ↔ List.Forall₂ DeeplyEqual vs ws := by
  constructor
  · intro h
    cases h with
    | list h => exact h
  · exact .list

theorem deeplyEqual_map :
    DeeplyEqual (map m es) (map n fs) ↔ Entries.Agree DeeplyEqual es fs := by
  constructor
  · intro h
    cases h with
    | map hkeys hvalues => exact ⟨hkeys, hvalues⟩
  · exact fun h => .map h.keys h.values

theorem FloatFree.ne (h : v.FloatFree) : ∀ x, v ≠ float x := by
  cases h with
  | intro ne _ => exact ne

theorem FloatFree.child (h : v.FloatFree) : ∀ c ∈ v.children, c.1.FloatFree := by
  cases h with
  | intro _ below => exact below

@[simp] theorem floatFree_list : (list n vs).FloatFree ↔ ∀ v ∈ vs, v.FloatFree :=
  ⟨fun h => forall_children_list.1 h.child, fun h => .intro nofun (forall_children_list.2 h)⟩

@[simp] theorem floatFree_map : (map n es).FloatFree ↔ ∀ e ∈ es, e.2.FloatFree :=
  ⟨fun h => forall_children_map.1 h.child, fun h => .intro nofun (forall_children_map.2 h)⟩

theorem floatFree_of_leaf (hv : v.isContainer = false) (h : ∀ x, v ≠ float x) : v.FloatFree :=
  .intro h (by simp [children_eq_nil hv])

theorem floatFree_content : v.content.FloatFree ↔ v.FloatFree := by
  induction v using parts_induction with
  | list node items ih =>
    rw [content_list, floatFree_list, floatFree_list, List.forall_mem_map]
    exact forall₂_congr ih
  | map node entries ih =>
    rw [content_map, floatFree_map, floatFree_map, Entries.mapValues, List.forall_mem_map]
    exact forall₂_congr ih
  | leaf v hv => rw [content_eq_self hv]

theorem DeeplyEqual.refl (h : v.FloatFree) : DeeplyEqual v v := by
  induction v using parts_induction with
  | list node items ih =>
    rw [floatFree_list] at h
    exact .list (List.forall₂_same.2 fun v hv => ih v hv (h v hv))
  | map node entries ih =>
    rw [floatFree_map] at h
    refine .map (.refl _) fun {key v w} hv hw => ?_
    have he := Entries.mem_of_get? hv
    exact Option.some.inj (hv.symm.trans hw) ▸ ih _ he (h _ he)
  | leaf v hv =>
    cases v with
    | float x => exact absurd rfl (h.ne x)
    | list node items => cases hv
    | map node entries => cases hv
    | _ => constructor

theorem DeeplyEqual.trans (h : DeeplyEqual a b) (h' : DeeplyEqual b c) : DeeplyEqual a c := by
  induction a using parts_induction generalizing b c with
  | list m items ih =>
    cases h with
    | list h =>
      cases h' with
      | list h' => exact .list (Lists.forall₂_trans h h' fun v hv w x hvw hwx => ih v hv hvw hwx)
  | map m entries ih =>
    cases h with
    | map hkeys hvalues =>
      cases h' with
      | map hkeys' hvalues' =>
        have hagree : Entries.Agree DeeplyEqual entries _ := ⟨hkeys, hvalues⟩
        have hagree' : Entries.Agree DeeplyEqual _ _ := ⟨hkeys', hvalues'⟩
        exact deeplyEqual_map.2 (hagree.trans hagree' fun e he w x hvw hwx => ih e he hvw hwx)
  | leaf v hv =>
    cases h with
    | list _ => cases hv
    | map _ _ => cases hv
    | _ =>
      cases h'
      constructor

/-- Deep equality does not depend on the numbers of containers. -/
theorem deeplyEqual_content : DeeplyEqual a.content b.content ↔ DeeplyEqual a b := by
  induction a using parts_induction generalizing b with
  | list m vs ih =>
    cases b with
    | list n ws =>
      rw [content_list, content_list, deeplyEqual_list, deeplyEqual_list,
        List.forall₂_map_left_iff, List.forall₂_map_right_iff]
      exact Lists.forall₂_congr_of_mem fun v hv w _ => ih v hv
    | _ => exact ⟨nofun, nofun⟩
  | map m es ih =>
    cases b with
    | map n fs =>
      rw [content_map, content_map, deeplyEqual_map, deeplyEqual_map, Entries.agree_mapValues]
      exact Entries.agree_congr_of_mem fun e he f _ => ih e he
    | _ => exact ⟨nofun, nofun⟩
  | leaf v hv =>
    rw [content_eq_self hv]
    cases b with
    | list n ws =>
      constructor <;> intro h <;> cases h <;> cases hv
    | map n fs =>
      constructor <;> intro h <;> cases h <;> cases hv
    | _ => rfl

/-! ### Values of one heap -/

theorem Stored.wellFormed (h : v.Stored heap) : v.WellFormed := by
  induction h with
  | intro _ keys _ ih => exact .intro keys ih

theorem Stored.node (h : v.Stored heap) (hn : v.identity? = some (.node n)) : heap n = v := by
  cases h with
  | intro node _ _ => exact node n hn

theorem Stored.child (h : v.Stored heap) : ∀ c ∈ v.children, c.1.Stored heap := by
  cases h with
  | intro _ _ below => exact below

/-- Containers of one heap with the same number are the same. -/
theorem Stored.eq_of_node (hv : v.Stored heap) (hw : w.Stored heap)
    (hnv : v.identity? = some (.node n)) (hnw : w.identity? = some (.node n)) : v = w :=
  (hv.node hnv).symm.trans (hw.node hnw)

theorem stored_of_leaf (hv : v.isContainer = false) : v.Stored heap := by
  refine .intro (fun n hn => ?_) (fun entries he => ?_) (by simp [children_eq_nil hv])
  · cases v with
    | list _ _ | map _ _ => cases hv
    | _ => cases hn
  · cases v with
    | map _ _ => cases hv
    | _ => cases he

theorem stored_list :
    (list n vs).Stored heap ↔ heap n = list n vs ∧ ∀ v ∈ vs, v.Stored heap := by
  constructor
  · exact fun h => ⟨h.node rfl, forall_children_list.1 h.child⟩
  · rintro ⟨hnode, hbelow⟩
    exact .intro (by simp [identity?, hnode]) nofun (forall_children_list.2 hbelow)

theorem stored_map :
    (map n es).Stored heap ↔
      heap n = map n es ∧ (Entries.keys es).Nodup ∧ ∀ e ∈ es, e.2.Stored heap := by
  constructor
  · exact fun h => ⟨h.node rfl, h.wellFormed.keys rfl, forall_children_map.1 h.child⟩
  · rintro ⟨hnode, hkeys, hbelow⟩
    refine .intro (by simp [identity?, hnode]) (fun entries he => ?_) (forall_children_map.2 hbelow)
    exact Option.some.inj he ▸ hkeys

/-! ### Equality of containers -/

theorem equalItems_iff :
    equalItems vs ws = true ↔ List.Forall₂ (fun v w => v.equal w = true) vs ws := by
  induction vs generalizing ws with
  | nil => cases ws <;> simp [equalItems]
  | cons v vs ih =>
    cases ws with
    | nil => simp [equalItems]
    | cons w ws => rw [equalItems, Bool.and_eq_true, ih, List.forall₂_cons]

theorem includedIn_iff :
    includedIn es fs = true ↔
      ∀ e ∈ es, ∃ w, Entries.get? fs e.1 = some w ∧ e.2.equal w = true := by
  induction es with
  | nil => simp [includedIn]
  | cons e es ih =>
    rw [includedIn, Bool.and_eq_true, ih, List.forall_mem_cons]
    refine and_congr_left fun _ => ?_
    cases Entries.get? fs e.1 <;> simp

theorem equal_list :
    (list m vs).equal (list n ws) = true ↔
      m = n ∨ List.Forall₂ (fun v w => v.equal w = true) vs ws := by
  rw [equal, Bool.or_eq_true, beq_iff_eq, equalItems_iff]

theorem equal_map (hes : (Entries.keys es).Nodup) :
    (map m es).equal (map n fs) = true ↔
      m = n ∨ Entries.Agree (fun v w => v.equal w = true) es fs := by
  rw [equal, Bool.or_eq_true, beq_iff_eq, Bool.and_eq_true, beq_iff_eq, includedIn_iff,
    Entries.agree_iff hes]

/-- Two maps are compared as objects with an index are. -/
theorem equal_object (o p : Object Value) :
    (map m o.toEntries).equal (map n p.toEntries) = (m == n || o.equal p) := by
  have hincluded : ∀ es : List (String × Value),
      includedIn es p.toEntries = es.all fun e => (p.get? e.1).any e.2.equal := by
    intro es
    induction es with
    | nil => rfl
    | cons e es ih =>
      rw [includedIn, ih, List.all_cons, p.get?_toEntries]
      cases p.get? e.1 <;> rfl
  have hall : o.equal p =
      (o.size == p.size && o.toEntries.all fun e => (p.get? e.1).any e.2.equal) := by
    refine congrArg (_ && ·) (congrArg o.toEntries.all (funext ?_))
    rintro ⟨key, v⟩
    dsimp only
    cases p.get? key <;> rfl
  rw [equal, hincluded, hall]
  rfl

/-! ### Symmetry -/

open Float.Model (UnpackedFloat) in
theorem compare_swap (x y : UnpackedFloat) :
    y.compare x = (x.compare y).map Ordering.swap := by
  have hmagnitude : ∀ (e f : Int) (m n : Nat),
      (compare f e).then (compare n m) = ((compare e f).then (compare m n)).swap := by
    intro e f m n
    have hexponent : compare f e = (compare e f).swap := Std.OrientedCmp.eq_swap
    have hmantissa : compare n m = (compare m n).swap := Std.OrientedCmp.eq_swap
    rw [Ordering.swap_then, hexponent, hmantissa]
  -- Only of two finite numbers of one sign are the magnitudes compared.
  rcases x with ⟨_ | _⟩ | _ | ⟨_ | _⟩ | ⟨_ | _, m, e, _⟩ <;>
    rcases y with ⟨_ | _⟩ | _ | ⟨_ | _⟩ | ⟨_ | _, n, f, _⟩ <;> first
    | rfl
    | exact congrArg some (hmagnitude e f m n)
    | exact congrArg some (congrArg Ordering.swap (hmagnitude e f m n))

/-- Equality of floats is symmetric, also where one is not a number. -/
theorem float_beq_comm (x y : Float) : (x == y) = (y == x) := by
  show (x.toModel.unpack.compare y.toModel.unpack == some .eq) =
    (y.toModel.unpack.compare x.toModel.unpack == some .eq)
  rw [compare_swap x.toModel.unpack]
  rcases x.toModel.unpack.compare y.toModel.unpack with _ | _ | _ | _ <;> rfl

/-- Equality is symmetric, whatever the values hold. -/
theorem equal_symm (ha : a.WellFormed) (hb : b.WellFormed) (h : a.equal b = true) :
    b.equal a = true := by
  induction a using parts_induction generalizing b with
  | list m vs ih =>
    cases b with
    | list n ws =>
      have hvs := forall_children_list.1 fun c hc => ha.child hc
      have hws := forall_children_list.1 fun c hc => hb.child hc
      rw [equal_list] at h ⊢
      refine h.imp Eq.symm fun h => ?_
      exact Lists.forall₂_imp_of_mem h.flip fun w hw v hv h => ih v hv (hvs v hv) (hws w hw) h
    | _ => cases h
  | map m es ih =>
    cases b with
    | map n fs =>
      have hes := forall_children_map.1 fun c hc => ha.child hc
      have hfs := forall_children_map.1 fun c hc => hb.child hc
      rw [equal_map (ha.keys rfl)] at h
      rw [equal_map (hb.keys rfl)]
      refine h.imp Eq.symm fun h => ?_
      exact h.flip.imp_of_mem fun f hf e he h => ih e he (hes e he) (hfs f hf) h
    | _ => cases h
  | leaf a hleaf =>
    unfold equal at h
    split at h
    case h_5 | h_6 | h_7 => rwa [equal, float_beq_comm]
    case h_11 | h_12 => cases hleaf
    case h_16 => cases h
    all_goals simp_all [equal]

/-! ### Equality and deep equality -/

/-- What is no container and no float is equal to what it is deeply equal to. -/
theorem equal_iff_of_leaf (hleaf : a.isContainer = false) (ha : a.FloatFree) (hb : b.FloatFree) :
    a.equal b = true ↔ DeeplyEqual a b := by
  constructor
  · intro h
    unfold equal at h
    split at h
    case h_1 => exact .undefined
    case h_2 => exact .null
    case h_3 => exact eq_of_beq h ▸ .bool _
    case h_4 => exact eq_of_beq h ▸ .int _
    case h_5 => exact absurd rfl (hb.ne _)
    case h_6 | h_7 => exact absurd rfl (ha.ne _)
    case h_8 => exact eq_of_beq h ▸ .str _
    case h_9 => exact eq_of_beq h ▸ .symbol _ _ _
    case h_10 => exact eq_of_beq h ▸ .date _
    case h_11 | h_12 => cases hleaf
    case h_13 => exact eq_of_beq h ▸ .function _ _ _
    case h_14 => exact eq_of_beq h ▸ .foreign _ _ _
    case h_15 => exact eq_of_beq h ▸ .cell _
    case h_16 => cases h
  · intro h
    cases h with
    | list _ | map _ _ => cases hleaf
    | _ => simp [equal]

/-- Values of one heap without floats are equal if and only if they are deeply equal. -/
theorem equal_iff_deeplyEqual (ha : a.Stored heap) (hb : b.Stored heap) (hfa : a.FloatFree)
    (hfb : b.FloatFree) : a.equal b = true ↔ DeeplyEqual a b := by
  induction a using parts_induction generalizing b with
  | list m vs ih =>
    cases b with
    | list n ws =>
      have hvs := (stored_list.1 ha).2
      have hws := (stored_list.1 hb).2
      have hitems : List.Forall₂ (fun v w => v.equal w = true) vs ws ↔
          List.Forall₂ DeeplyEqual vs ws :=
        Lists.forall₂_congr_of_mem fun v hv w hw =>
          ih v hv (hvs v hv) (hws w hw) (floatFree_list.1 hfa v hv) (floatFree_list.1 hfb w hw)
      rw [equal_list, deeplyEqual_list, hitems, or_iff_right_of_imp]
      rintro rfl
      obtain rfl : vs = ws := (list.inj (ha.eq_of_node hb rfl rfl)).2
      exact deeplyEqual_list.1 (DeeplyEqual.refl hfa)
    | _ => exact ⟨nofun, nofun⟩
  | map m es ih =>
    cases b with
    | map n fs =>
      have hes := (stored_map.1 ha).2.2
      have hfs := (stored_map.1 hb).2.2
      have hvalues : Entries.Agree (fun v w => v.equal w = true) es fs ↔
          Entries.Agree DeeplyEqual es fs :=
        Entries.agree_congr_of_mem fun e he f hf =>
          ih e he (hes e he) (hfs f hf) (floatFree_map.1 hfa e he) (floatFree_map.1 hfb f hf)
      rw [equal_map (ha.wellFormed.keys rfl), deeplyEqual_map, hvalues, or_iff_right_of_imp]
      rintro rfl
      obtain rfl : es = fs := (map.inj (ha.eq_of_node hb rfl rfl)).2
      exact deeplyEqual_map.1 (DeeplyEqual.refl hfa)
    | _ => exact ⟨nofun, nofun⟩
  | leaf a hleaf => exact equal_iff_of_leaf hleaf hfa hfb

/-- Equality of values of one heap.  Without floats it is deep equality, so that it does not matter which
containers are shared, and an equivalence; with floats it is symmetric. -/
theorem equal_sound (ha : a.Stored heap) (hb : b.Stored heap) (hc : c.Stored heap) :
    (a.FloatFree → b.FloatFree → c.FloatFree →
      (a.equal b = true ↔ DeeplyEqual a b) ∧
      (∀ (heap' : Nat → Value) (a' b' : Value), a'.Stored heap' → b'.Stored heap' →
        a'.content = a.content → b'.content = b.content → a'.equal b' = a.equal b) ∧
      a.equal a = true ∧
      (a.equal b = true → b.equal a = true) ∧
      (a.equal b = true → b.equal c = true → a.equal c = true)) ∧
    a.equal b = b.equal a := by
  have hsymm : a.equal b = b.equal a :=
    Bool.eq_iff_iff.2
      ⟨equal_symm ha.wellFormed hb.wellFormed, equal_symm hb.wellFormed ha.wellFormed⟩
  refine ⟨fun hfa hfb hfc => ⟨equal_iff_deeplyEqual ha hb hfa hfb, ?_, ?_, ?_, ?_⟩, hsymm⟩
  · intro heap' a' b' ha' hb' hca hcb
    have hfa' : a'.FloatFree := floatFree_content.1 (hca ▸ floatFree_content.2 hfa)
    have hfb' : b'.FloatFree := floatFree_content.1 (hcb ▸ floatFree_content.2 hfb)
    rw [Bool.eq_iff_iff, equal_iff_deeplyEqual ha' hb' hfa' hfb', equal_iff_deeplyEqual ha hb hfa hfb,
      ← deeplyEqual_content, hca, hcb, deeplyEqual_content]
  · exact (equal_iff_deeplyEqual ha ha hfa hfa).2 (.refl hfa)
  · exact equal_symm ha.wellFormed hb.wellFormed
  · intro hab hbc
    exact (equal_iff_deeplyEqual ha hc hfa hfc).2
      (((equal_iff_deeplyEqual ha hb hfa hfb).1 hab).trans
        ((equal_iff_deeplyEqual hb hc hfb hfc).1 hbc))

/-- Two maps that share a list, and one that has its own. -/
def sharedHeap : Nat → Value
  | 0 => list 0 [int 1, str "x"]
  | 1 => map 1 [("items", list 0 [int 1, str "x"]), ("kind", symbol 7 "kind")]
  | 2 => map 2 [("kind", symbol 7 "kind"), ("items", list 0 [int 1, str "x"])]
  | 3 => map 3 [("kind", symbol 7 "kind"), ("items", list 4 [int 1, str "x"])]
  | 4 => list 4 [int 1, str "x"]
  | _ => undefined

theorem equal_sound_shared :
    (∀ n ∈ [1, 2, 3], (sharedHeap n).Stored sharedHeap ∧ (sharedHeap n).FloatFree) ∧
    DeeplyEqual (sharedHeap 1) (sharedHeap 2) ∧
    (sharedHeap 1).equal (sharedHeap 3) = true := by
  have hstored : ∀ n ∈ [1, 2, 3], (sharedHeap n).Stored sharedHeap := by
    have hleaf : (int 1).Stored sharedHeap ∧ (str "x").Stored sharedHeap ∧
        (symbol 7 "kind").Stored sharedHeap :=
      ⟨stored_of_leaf rfl, stored_of_leaf rfl, stored_of_leaf rfl⟩
    simp [stored_map, stored_list, sharedHeap, hleaf]
  have hfloat : ∀ n ∈ [1, 2, 3], (sharedHeap n).FloatFree := by
    have hleaf : (int 1).FloatFree ∧ (str "x").FloatFree ∧ (symbol 7 "kind").FloatFree :=
      ⟨floatFree_of_leaf rfl nofun, floatFree_of_leaf rfl nofun, floatFree_of_leaf rfl nofun⟩
    simp [sharedHeap, hleaf]
  obtain ⟨hdeep, -, -, -, htrans⟩ :=
    (equal_sound (hstored 1 (by simp)) (hstored 2 (by simp)) (hstored 3 (by simp))).1
      (hfloat 1 (by simp)) (hfloat 2 (by simp)) (hfloat 3 (by simp))
  exact ⟨fun n hn => ⟨hstored n hn, hfloat n hn⟩, hdeep.1 (by decide),
    htrans (by decide) (by decide)⟩

end DataExpr.Value
