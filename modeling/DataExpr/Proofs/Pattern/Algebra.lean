import DataExpr.Pattern
import DataExpr.Proofs.Matcher.Algebra

/-!
# Laws of patterns

What holds of all patterns and can be used to rewrite them (`Pattern.sameMatches_laws`).  Two patterns
have the same matches if nothing can tell the two sequences apart from the first item on
(`Pattern.SameMatches`); in particular they give the same items whenever all of them are asked for
(`SameMatches.forEach`).
-/

namespace DataExpr.Pattern

open Findings (deferred errorItems)

/-- Whether the patterns have the same matches in every value.  Made when their first item is asked
for, the two sequences are equal: they give the same errors and matches in the same order, with equal
values and with replacements that give the same for every new value, and they ask the cells and the
session the same things. -/
def SameMatches (p q : Pattern) : Prop :=
  ∀ focus, deferred (p.matchesIn focus) = deferred (q.matchesIn focus)

theorem SameMatches.of_eq {p q : Pattern} (h : ∀ focus, p.matchesIn focus = q.matchesIn focus) :
    p.SameMatches q :=
  fun focus => congrArg deferred (h focus)

/-- Whatever is done with each item, going through all of them gives the same. -/
theorem SameMatches.forEach {p q : Pattern} (h : p.SameMatches q) {β : Type}
    (f : Except EvalError Match → Run β) (focus : Value) :
    (do (← p.matchesIn focus).forEach f : Run (List β)) =
      (do (← q.matchesIn focus).forEach f : Run (List β)) := by
  funext cells s
  rw [Run.bind_apply, Run.bind_apply, ← Findings.forEach_deferred, h focus,
    Findings.forEach_deferred]

/-- Make the matches in what has been found, without asking for any of them. -/
def making (p : Pattern) (found : Match) : Run Unit :=
  discard (p.matchesIn found.value)

/-- A sequence that ends with a limit of zero gives the errors of its first part alone. -/
theorem toList_seq_limit_zero (a b : Pattern) (focus : Value) (cells : Cells) (s : Session) :
    (do (← (seq [a, limit b 0]).matchesIn focus).toList : Run _) cells s =
      (do return errorItems (← (← a.matchesIn focus).forEach (Findings.visit b.making)) : Run _)
        cells s := by
  have hmatches : (seq [a, limit b 0]).matchesIn focus =
      (return (deferred (a.matchesIn focus)).bind fun found => do
        b.making found
        return .empty : Run Matches) :=
    Matcher.sequence_limit_zero a.matcher b.matcher focus
  rw [hmatches, pure_bind, Findings.toList_bind_empty, Findings.forEach_deferred]
  rfl

/-- The laws of choices, sequences, limits and lookaheads, for all patterns.  A sequence that ends with
a limit of zero gives the errors among the items of its first part, where the matches of the last part
are made after each match of the first one; if that is not noticed in the session, these are the errors
among the items that the first part gives by itself. -/
theorem sameMatches_laws (a b c : Pattern) (m n : Nat) :
    (seq [alt [a, b], c]).SameMatches (alt [seq [a, c], seq [b, c]]) ∧
    (seq [self, a]).SameMatches a ∧ (seq [a, self]).SameMatches a ∧
    (seq [fail, a]).SameMatches fail ∧
    (∀ focus, (do (← (seq [a, limit b 0]).matchesIn focus).toList : Run _) =
      (do return errorItems (← (← a.matchesIn focus).forEach (Findings.visit b.making)) : Run _)) ∧
    ((∀ v cells s, (b.matchesIn v cells s).2 = s) →
      ∀ focus, (do (← (seq [a, limit b 0]).matchesIn focus).toList : Run _) =
        (do return errorItems (← (← a.matchesIn focus).toList) : Run _)) ∧
    (limit (limit a m) n).SameMatches (limit a (min m n)) ∧
    (lookahead (lookahead a)).SameMatches (lookahead a) ∧
    (lookahead (limit a (n + 1))).SameMatches (lookahead a) := by
  refine ⟨.of_eq fun focus => ?_, fun focus => ?_, fun focus => ?_, .of_eq fun focus => ?_, ?_, ?_,
    .of_eq fun focus => ?_, .of_eq fun focus => ?_, .of_eq fun focus => ?_⟩
  · exact Matcher.sequence_choice a.matcher b.matcher c.matcher focus
  · exact (congrArg deferred (Matcher.sequence_self_left a.matcher focus)).trans
      (Findings.deferred_pure _)
  · exact (congrArg deferred (Matcher.sequence_self_right a.matcher focus)).trans
      (Findings.deferred_pure _)
  · exact Matcher.sequence_fail a.matcher focus
  · exact fun focus => funext fun cells => funext fun s => toList_seq_limit_zero a b focus cells s
  · intro hb focus
    funext cells s
    have hmaking : ∀ found s, (b.making found cells s).2 = s := fun found s => hb found.value cells s
    rw [toList_seq_limit_zero]
    simp only [Run.bind_apply, Findings.forEach_visit hmaking]
  · exact Matcher.limit_limit a.matcher m n focus
  · exact Matcher.lookahead_lookahead a.matcher focus
  · exact Matcher.lookahead_limit a.matcher n focus

/-- A text has no first item, which is an error, and a list has one; a limit of zero on what comes after
leaves the error alone. -/
theorem sameMatches_laws_mixed :
    let a : Pattern := seq [spread, index 0 false]
    let b : Pattern := seq [spread, self]
    let focus : Value := .list 0 [.str "x", .list 1 [.int 5]]
    (∀ v cells s, (b.matchesIn v cells s).2 = s) ∧
    (seq [alt [a, b], spread]).SameMatches (alt [seq [a, spread], seq [b, spread]]) ∧
    ∀ s, (((do (← (seq [a, limit b 0]).matchesIn focus).toList : Run _) Cells.none s).1 =
      [.error (.typeMismatch "array" "string")]) := by
  intro a b focus
  have hb : ∀ v cells s, (b.matchesIn v cells s).2 = s := fun _ _ _ => rfl
  obtain ⟨hchoice, -, -, -, -, herrors, -⟩ := sameMatches_laws a b spread 1 0
  refine ⟨hb, hchoice, fun s => ?_⟩
  rw [herrors hb focus]
  rfl

end DataExpr.Pattern
