import DataExpr.Proofs.Lists
import DataExpr.Proofs.Pattern.Hop.Matches

/-!
# The stages of an edit along a path pattern

The edit of all matches of a path pattern (`Pattern.path`) looks for the matches anew after every single
edit.  `Hop.Stage` is what holds when all matches but the first `n` have been edited: the positions are
still the same, what stands at the ones that have not been edited is what stood there at first, and the
content is that of the focus edited at the others all at once.  So the match that is looked for next
is at the same place as at first (`Stage.nth_matches`), and editing it leads to the next stage
(`Stage.put`).

By induction on `n` the edits that are left lead to the focus edited at all matches
(`Stage.content_editJointly`), and each of them is given its original value
(`Stage.journal_editJointly`).
-/

namespace DataExpr

namespace Hop

section

variable (hops : List Hop) (last : Option Predicate) (cells : Cells) (focus : Value)
variable (places : List Path)

/-- The places of the focus whose values pass the test. -/
def matched : List Path :=
  places.filter fun p => Predicate.passes last cells (Match.atPath cells focus p).value

/-- All matches but the first `n` have been edited, and nothing else has. -/
structure Stage (f : Value → Value) (n : Nat) (w : Value) : Prop where
  plainTo : w.PlainTo hops.length
  positions_eq : positions hops w = places.map .ok
  get?_eq : ∀ p ∈ places, p ∉ (matched last cells focus places).drop n →
    Path.get? cells p w = Path.get? cells p focus
  content_eq : w.content =
    (focus.editAt f fun p => p ∈ (matched last cells focus places).drop n).content

end

variable {hops : List Hop} {last : Option Predicate} {cells : Cells} {focus w : Value}
variable {places : List Path} {f : Value → Value} {n : Nat}

theorem length_of_mem_places (h : positions hops focus = places.map .ok) :
    ∀ p ∈ places, p.length = hops.length := fun _ hp =>
  length_of_mem_positions (h ▸ List.mem_map_of_mem hp)

theorem nodup_places (hf : focus.PlainTo hops.length)
    (h : positions hops focus = places.map .ok) : places.Nodup := by
  have hpairwise := pairwise_positions hf
  rw [h] at hpairwise
  exact (List.pairwise_map.1 hpairwise).imp fun hab hba => hab _ rfl (congrArg Except.ok hba.symm)

theorem nodup_matched (hf : focus.PlainTo hops.length)
    (h : positions hops focus = places.map .ok) : (matched last cells focus places).Nodup :=
  (nodup_places hf h).filter _

/-- The next match that is edited is where it was in the focus. -/
theorem Stage.getElem?_matched (h : Stage hops last cells focus places f (n + 1) w)
    (hplaces : places.Nodup) {p : Path} (hp : (matched last cells focus places)[n]? = some p) :
    (matched last cells w places)[n]? = some p := by
  refine Lists.getElem?_filter_congr hplaces hp fun q hq hdrop => ?_
  rw [Match.atPath, Match.atPath, h.get?_eq q hq hdrop]

/-- The match that is looked for next is the one at its place, as at first. -/
theorem Stage.nth_matches (h : Stage hops last cells focus places f (n + 1) w)
    (hplaces : places.Nodup) {p : Path} (hp : (matched last cells focus places)[n]? = some p) :
    ∃ ns, ∀ s, ((Pattern.path hops last).matcher w cells s).1.nth n cells s =
      (.ok (some (.atPath cells w p)), s.noting ns) := by
  obtain ⟨ns, hns⟩ := Findings.nth_sifted cells
    (fun m s => Predicate.testLast_apply last cells (Match.value m) s)
    (places.map (Match.atPath cells w)) n
  refine ⟨ns, fun s => ?_⟩
  rw [Pattern.matcher_path_apply h.plainTo last cells, h.positions_eq, List.map_map]
  rw [List.map_map] at hns
  refine (hns s).trans ?_
  rw [List.filter_map, List.getElem?_map]
  exact congrArg (fun p? => (Except.ok (Option.map (Match.atPath cells w) p?), s.noting ns))
    (h.getElem?_matched hplaces hp)

/-- Before any edit. -/
theorem stage_focus (last : Option Predicate) (cells : Cells) (f : Value → Value)
    (hf : focus.PlainTo hops.length)
    (hpositions : positions hops focus = places.map .ok) :
    Stage hops last cells focus places f (matched last cells focus places).length focus := by
  refine ⟨hf, hpositions, fun _ _ _ => rfl, ?_⟩
  rw [List.drop_length]
  simp only [List.not_mem_nil, decide_false, Value.editAt_nowhere]

/-- Putting the edited value in its place leads to the next stage. -/
theorem Stage.put (h : Stage hops last cells focus places f (n + 1) w)
    (hf : focus.PlainTo hops.length) (hpositions : positions hops focus = places.map .ok)
    {p : Path} (hp : (matched last cells focus places)[n]? = some p) {old : Value}
    (hold : Path.get? cells p focus = some old) (new : Value) (hnew : new.content = (f old).content)
    (fresh : Nat) :
    Stage hops last cells focus places f n (Path.put cells fresh p w new) := by
  have hlength := length_of_mem_places hpositions
  have hdrop := Lists.drop_of_getElem? hp
  have hlater := Lists.not_mem_drop_succ (nodup_matched hf hpositions) hp
  have hsub : ∀ q ∈ (matched last cells focus places).drop (n + 1), q ∈ places := fun q hq =>
    (List.mem_filter.1 (List.mem_of_mem_drop hq)).1
  have hpmem : p ∈ places := (List.mem_filter.1 (List.mem_of_getElem? hp)).1
  -- Places are equally long, so one is above or below another only if they are the same.
  have heq : ∀ q ∈ places, q <+: p → q = p := fun q hq habove =>
    habove.eq_of_length ((hlength q hq).trans (hlength p hpmem).symm)
  have hheld : Path.get? cells p w = some old := (h.get?_eq p hpmem hlater).trans hold
  have hw := h.plainTo
  rw [← hlength p hpmem] at hw hf
  constructor
  · rw [← hlength p hpmem]
    exact hw.put hheld fresh new
  · rw [positions_put h.plainTo (hlength p hpmem) hheld, h.positions_eq]
  · intro q hq hqdrop
    rw [hdrop, List.mem_cons, not_or] at hqdrop
    rw [Path.get?_put_of_ne hheld, h.get?_eq q hq hqdrop.2]
    · exact fun habove => hqdrop.1
        (habove.eq_of_length ((hlength p hpmem).trans (hlength q hq).symm)).symm
    · exact fun habove => hqdrop.1 (heq q hq habove)
  · rw [Value.content_put_editAt hf hold _ h.content_eq hnew, hdrop]
    · simp only [List.mem_cons, Bool.decide_or, Bool.or_comm]
    · intro q habove
      refine decide_eq_false fun hq => hlater ?_
      rw [← heq q (hsub q hq) habove]
      exact hq

/-- Editing one more match of a stage edits what stood at its place in the focus. -/
theorem Stage.editJointly_succ (h : Stage hops last cells focus places f (n + 1) w)
    (hplaces : places.Nodup) {p : Path} (hp : (matched last cells focus places)[n]? = some p)
    {old : Value} (hheld : Path.get? cells p w = some old) :
    ∃ ns, ∀ (edit : Value → Eval Value) s,
      Matcher.editJointly (Pattern.path hops last).matcher (fun _ => edit) (n + 1) w cells s =
        (do
          let new ← edit old
          let edited ← Path.set p w new
          Matcher.editJointly (Pattern.path hops last).matcher (fun _ => edit) n edited)
          cells (s.noting ns) := by
  obtain ⟨ns, hns⟩ := h.nth_matches hplaces hp
  refine ⟨ns, fun edit s => ?_⟩
  have hs : ((Pattern.path hops last).matcher w cells s).2 = s := by
    rw [Pattern.matcher_path_apply h.plainTo last cells]
  have hnth : ((Pattern.path hops last).matcher w cells s).1.nth n cells
      ((Pattern.path hops last).matcher w cells s).2 =
        (.ok (some (.atPath cells w p)), s.noting ns) := by
    rw [hs]
    exact hns s
  rw [Matcher.editJointly_succ_apply hnth, Match.value_atPath hheld]
  rfl

/-- A match that has not been edited holds what it held in the focus. -/
theorem Stage.held (h : Stage hops last cells focus places f (n + 1) w)
    (hf : focus.PlainTo hops.length) (hpositions : positions hops focus = places.map .ok)
    (hn : n < (matched last cells focus places).length) :
    ∃ p old, (matched last cells focus places)[n]? = some p ∧
      Path.get? cells p focus = some old ∧ Path.get? cells p w = some old := by
  have hp := List.getElem?_eq_getElem hn
  have hpmem : (matched last cells focus places)[n] ∈ places :=
    (List.mem_filter.1 (List.getElem_mem hn)).1
  have hlater := Lists.not_mem_drop_succ (nodup_matched hf hpositions) hp
  obtain ⟨old, hold⟩ := get?_of_mem_positions cells hf
    (hpositions ▸ List.mem_map_of_mem hpmem)
  exact ⟨_, old, hp, hold, (h.get?_eq _ hpmem hlater).trans hold⟩

/-- Editing the matches of a stage that are left succeeds with all matches edited. -/
theorem Stage.content_editJointly (h : Stage hops last cells focus places f n w)
    (hf : focus.PlainTo hops.length) (hpositions : positions hops focus = places.map .ok)
    (hn : n ≤ (matched last cells focus places).length) {edit : Value → Eval Value}
    (hedit : ∀ v s, ∃ x s', edit v cells s = (.ok x, s') ∧ x.content = (f v).content)
    (s : Session) :
    ∃ x s', Matcher.editJointly (Pattern.path hops last).matcher (fun _ => edit) n w cells s =
        (.ok x, s') ∧
      x.content = (focus.editAt f fun p => p ∈ matched last cells focus places).content := by
  induction n generalizing w s with
  | zero => exact ⟨w, s, rfl, h.content_eq⟩
  | succ n ih =>
    -- The last match that is left holds its original value, and editing it is the next stage.
    obtain ⟨p, old, hp, hold, hheld⟩ := h.held hf hpositions hn
    obtain ⟨ns, hstep⟩ := h.editJointly_succ (nodup_places hf hpositions) hp hheld
    obtain ⟨new, s₁, hnew, hcontent⟩ := hedit old (s.noting ns)
    have hnext := h.put hf hpositions hp hold new hcontent s₁.nextNode
    obtain ⟨x, s', hx, hxcontent⟩ := ih hnext (Nat.le_of_succ_le hn) (s₁.after p.length)
    refine ⟨x, s', ?_, hxcontent⟩
    rw [hstep, Eval.bind_apply, hnew]
    simp only [Eval.bind_apply, Path.set_apply hheld, hx]

/-- An edit that notes what it is given notes each original value once, besides what the test notes. -/
theorem Stage.journal_editJointly (h : Stage hops last cells focus places f n w)
    (hf : focus.PlainTo hops.length) (hpositions : positions hops focus = places.map .ok)
    (hn : n ≤ (matched last cells focus places).length) {s t : Session}
    (hst : t.nextNode = s.nextNode)
    (hjournal : t.journal.toList.Perm (s.journal.toList ++
      ((matched last cells focus places).drop n).map fun p => (Match.atPath cells focus p).value)) :
    ∃ x s' t',
      Matcher.editJointly (Pattern.path hops last).matcher (fun _ v => return f v) n w cells s =
        (.ok x, s') ∧
      Matcher.editJointly (Pattern.path hops last).matcher
          (fun _ v => do Run.note v; return f v) n w cells t = (.ok x, t') ∧
      t'.journal.toList.Perm (s'.journal.toList ++
        (matched last cells focus places).map fun p => (Match.atPath cells focus p).value) := by
  induction n generalizing w s t with
  | zero => exact ⟨w, s, t, rfl, rfl, hjournal⟩
  | succ n ih =>
    obtain ⟨p, old, hp, hold, hheld⟩ := h.held hf hpositions hn
    obtain ⟨ns, hstep⟩ := h.editJointly_succ (nodup_places hf hpositions) hp hheld
    have hnext := h.put hf hpositions hp hold (f old) rfl s.nextNode
    -- The value that is noted now is the first of those that are still to come.
    have hjournal : (t.noting (ns ++ [old])).journal.toList.Perm ((s.noting ns).journal.toList ++
        ((matched last cells focus places).drop n).map
          fun p => (Match.atPath cells focus p).value) := by
      rw [Lists.drop_of_getElem? hp, List.map_cons, Match.value_atPath hold, Session.journal_noting,
        Session.journal_noting]
      refine (hjournal.append_right (ns ++ [old])).trans ?_
      rw [List.append_assoc, List.append_assoc s.journal.toList]
      refine List.Perm.append_left _ (List.perm_append_comm.trans ?_)
      rw [List.append_assoc, List.singleton_append]
    obtain ⟨x, s', t', hs', ht', hjournal'⟩ := ih hnext (Nat.le_of_succ_le hn)
      (s := (s.noting ns).after p.length) (t := (t.noting (ns ++ [old])).after p.length)
      (by simpa using hst) hjournal
    refine ⟨x, s', t', ?_, ?_, hjournal'⟩
    · rw [hstep]
      simp only [Eval.bind_apply, Eval.pure_apply, Path.set_apply hheld]
      exact hs'
    · have hnote : Run.note old cells (t.noting ns) = ((), t.noting (ns ++ [old])) :=
        congrArg (Prod.mk ()) (Session.noting_noting ns [old] t)
      rw [hstep]
      simp only [Eval.bind_apply, Eval.lift_apply, hnote, Eval.pure_apply, Path.set_apply hheld,
        Session.nextNode_noting, hst]
      exact ht'

end Hop

end DataExpr
