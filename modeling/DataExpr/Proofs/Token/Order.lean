import DataExpr.Proofs.Token.Local
import Mathlib.Data.List.Induction

/-!
# Tokens and the text they cover

The tokens of a text stand in order (`Token.inOrder_scan`): each ends before the next begins.  So the
span of adjacent tokens goes from the start of the first to the end of the last (`Token.cover`), and it
is the merge of the spans of a front and of an end of them (`Token.merge_cover`).

Adjacent tokens can be cut out of a text: the piece of text that they cover is read as these tokens
alone (`Token.exists_text`).
-/

namespace DataExpr.Token

/-! ### Order -/

/-- Whether each of the tokens ends before the next begins. -/
structure InOrder (ts : List Token) : Prop where
  forward : ∀ t ∈ ts, t.span.start ≤ t.span.stop
  apart : ts.Pairwise fun t t' => t.span.stop ≤ t'.span.start

/-- The span from the first of the tokens to the last. -/
def cover (ts : List Token) : Span :=
  ⟨(ts.head?.map fun t => t.span.start).getD 0, (ts.getLast?.map fun t => t.span.stop).getD 0⟩

variable {ts a b c : List Token} {t : Token}

theorem InOrder.of_append_left (h : InOrder (a ++ b)) : InOrder a :=
  ⟨fun t ht => h.forward t (List.mem_append_left b ht), (List.pairwise_append.1 h.apart).1⟩

theorem InOrder.of_append_right (h : InOrder (a ++ b)) : InOrder b :=
  ⟨fun t ht => h.forward t (List.mem_append_right a ht), (List.pairwise_append.1 h.apart).2.1⟩

@[simp] theorem cover_singleton (t : Token) : cover [t] = t.span := rfl

theorem start_cover_append (ha : a ≠ []) (b : List Token) :
    (cover (a ++ b)).start = (cover a).start := by
  cases a with
  | nil => exact absurd rfl ha
  | cons t a => rfl

theorem stop_cover_append (a : List Token) (hb : b ≠ []) :
    (cover (a ++ b)).stop = (cover b).stop := by
  rw [cover, cover, List.getLast?_append_of_ne_nil a hb]

/-- The first token begins where the tokens do. -/
theorem exists_start (h : ts ≠ []) : ∃ t ∈ ts, t.span.start = (cover ts).start := by
  cases ts with
  | nil => exact absurd rfl h
  | cons t ts => exact ⟨t, List.mem_cons_self, rfl⟩

/-- The last token ends where the tokens do. -/
theorem exists_stop (h : ts ≠ []) : ∃ t ∈ ts, t.span.stop = (cover ts).stop := by
  refine ⟨ts.getLast h, List.getLast_mem h, ?_⟩
  rw [cover, List.getLast?_eq_getLast_of_ne_nil h]
  rfl

theorem InOrder.start_le (h : InOrder ts) (ht : t ∈ ts) : (cover ts).start ≤ t.span.start := by
  cases ts with
  | nil => cases ht
  | cons first ts =>
    rcases List.mem_cons.1 ht with rfl | hrest
    · exact Nat.le_refl _
    · exact (h.forward first List.mem_cons_self).trans (List.rel_of_pairwise_cons h.apart hrest)

theorem InOrder.le_stop (h : InOrder ts) (ht : t ∈ ts) : t.span.stop ≤ (cover ts).stop := by
  induction ts using List.reverseRecOn with
  | nil => cases ht
  | append_singleton ts last _ =>
    rw [stop_cover_append ts (List.cons_ne_nil _ _), cover_singleton]
    rcases List.mem_append.1 ht with hfront | hlast
    · have hlast : last ∈ [last] := List.mem_cons_self
      have hforward := h.forward last (List.mem_append_right ts hlast)
      exact ((List.pairwise_append.1 h.apart).2.2 t hfront last hlast).trans hforward
    · rw [List.mem_singleton.1 hlast]

/-- Some of the tokens are inside the span of all. -/
theorem InOrder.cover_inside (h : InOrder (a ++ (b ++ c))) (hb : b ≠ []) :
    (cover (a ++ (b ++ c))).start ≤ (cover b).start ∧
      (cover b).stop ≤ (cover (a ++ (b ++ c))).stop := by
  have hmem : ∀ t ∈ b, t ∈ a ++ (b ++ c) := fun t ht =>
    List.mem_append_right a (List.mem_append_left c ht)
  obtain ⟨first, hfirst, hstart⟩ := exists_start hb
  obtain ⟨last, hlast, hstop⟩ := exists_stop hb
  rw [← hstart, ← hstop]
  exact ⟨h.start_le (hmem first hfirst), h.le_stop (hmem last hlast)⟩

/-- The span of tokens ends before that of later ones begins. -/
theorem InOrder.cover_apart (h : InOrder (a ++ b)) (ha : a ≠ []) (hb : b ≠ []) :
    (cover a).stop ≤ (cover b).start := by
  obtain ⟨last, hlast, hstop⟩ := exists_stop ha
  obtain ⟨first, hfirst, hstart⟩ := exists_start hb
  rw [← hstop, ← hstart]
  exact (List.pairwise_append.1 h.apart).2.2 last hlast first hfirst

/-- The span of tokens is the merge of those of a front and of an end. -/
theorem InOrder.merge_cover (h : InOrder (a ++ (b ++ c))) (ha : a ≠ []) (hc : c ≠ []) :
    (cover a).merge (cover c) = cover (a ++ (b ++ c)) := by
  have hstart := start_cover_append ha (b ++ c)
  have hstop : (cover (a ++ (b ++ c))).stop = (cover c).stop := by
    rw [← List.append_assoc, stop_cover_append _ hc]
  have hfront := InOrder.cover_inside (a := []) (c := b ++ c) h ha
  have hend := InOrder.cover_inside (a := a ++ b) (b := c) (c := []) (by simpa using h) hc
  rw [List.append_assoc, List.append_nil] at hend
  rw [List.nil_append] at hfront
  rw [hstart] at hend
  rw [hstop] at hfront
  rw [Span.merge, Nat.min_eq_left hend.1, Nat.max_eq_right hfront.2, ← hstart, ← hstop]

/-! ### The tokens of a text -/

theorem scanFrom_blank {ch : Char} (h : Lexeme.isBlank ch = true) (offset : Nat) (cs : List Char) :
    scanFrom offset (ch :: cs) = scanFrom (offset + ch.utf8Size) cs := by
  rw [scanFrom, if_pos h]

theorem scanFrom_token {ch : Char} {tail rest : List Char} {k : TokenKind}
    (hblank : Lexeme.isBlank ch = false)
    (h : Lexeme.longest ch (tail ++ rest) = ⟨k, ch :: tail, rest⟩) (offset : Nat) :
    scanFrom offset (ch :: (tail ++ rest)) =
      ⟨k, .ofRange offset (offset + Text.utf8Length (ch :: tail))⟩ ::
        scanFrom (offset + Text.utf8Length (ch :: tail)) rest := by
  rw [scanFrom, if_neg (Bool.eq_false_iff.1 hblank)]
  simp only [h]

/-- The tokens of a text are in order and do not begin before it. -/
theorem inOrder_scanFrom (offset : Nat) (cs : List Char) :
    InOrder (scanFrom offset cs) ∧ ∀ t ∈ scanFrom offset cs, min offset Span.limit ≤ t.span.start := by
  induction cs using tokens_induction generalizing offset with
  | nil =>
    rw [scanFrom]
    refine ⟨⟨?_, List.pairwise_singleton _ _⟩, ?_⟩ <;> intro t ht <;>
      rw [List.mem_singleton.1 ht] <;> exact Nat.le_refl _
  | blank ch cs hblank ih =>
    rw [scanFrom_blank hblank]
    obtain ⟨horder, hstart⟩ := ih (offset + ch.utf8Size)
    have hle : min offset Span.limit ≤ min (offset + ch.utf8Size) Span.limit := by omega
    exact ⟨horder, fun t ht => hle.trans (hstart t ht)⟩
  | token ch tail rest k hblank hlongest ih =>
    rw [scanFrom_token hblank hlongest]
    obtain ⟨horder, hstart⟩ := ih (offset + Text.utf8Length (ch :: tail))
    have hle : min offset Span.limit ≤ min (offset + Text.utf8Length (ch :: tail)) Span.limit := by
      omega
    refine ⟨⟨?_, ?_⟩, ?_⟩
    · intro t ht
      rcases List.mem_cons.1 ht with rfl | hrest
      · exact hle
      · exact horder.forward t hrest
    · exact List.pairwise_cons.2 ⟨hstart, horder.apart⟩
    · intro t ht
      rcases List.mem_cons.1 ht with rfl | hrest
      · exact Nat.le_refl _
      · exact hle.trans (hstart t hrest)

theorem inOrder_scan (source : String) : InOrder (scan source) := (inOrder_scanFrom 0 _).1

/-! ### Cutting tokens out of a text -/

/-- The text before a token may be left out. -/
theorem exists_suffix {offset : Nat} {cs : List Char} {pre rest : List Token}
    (h : scanFrom offset cs = pre ++ t :: rest) (ht : t.kind ≠ .eof) :
    ∃ before ch after, cs = before ++ ch :: after ∧ Lexeme.isBlank ch = false ∧
      scanFrom (offset + Text.utf8Length before) (ch :: after) = t :: rest := by
  induction cs using tokens_induction generalizing offset pre with
  | nil =>
    rw [scanFrom] at h
    have hmem : t ∈ pre ++ t :: rest := List.mem_append_right pre List.mem_cons_self
    rw [← h, List.mem_singleton] at hmem
    rw [hmem] at ht
    exact absurd rfl ht
  | blank ch cs hblank ih =>
    rw [scanFrom_blank hblank] at h
    obtain ⟨before, ch', after, rfl, hblank', hscan⟩ := ih h
    refine ⟨ch :: before, ch', after, rfl, hblank', ?_⟩
    rwa [Text.utf8Length_cons, ← Nat.add_assoc]
  | token ch tail rest' k hblank hlongest ih =>
    cases pre with
    | nil => exact ⟨[], ch, tail ++ rest', rfl, hblank, h⟩
    | cons first pre =>
      rw [scanFrom_token hblank hlongest] at h
      obtain ⟨before, ch', after, rfl, hblank', hscan⟩ := ih (List.cons.inj h).2
      refine ⟨ch :: tail ++ before, ch', after, ?_, hblank', ?_⟩
      · rw [List.append_assoc]
        rfl
      · rwa [Text.utf8Length_append, ← Nat.add_assoc]

/-- A token at the front of a text begins where the text does. -/
theorem start_of_scanFrom {offset : Nat} {ch : Char} {cs : List Char} {rest : List Token}
    (hblank : Lexeme.isBlank ch = false) (h : scanFrom offset (ch :: cs) = t :: rest) :
    t.span.start = min offset Span.limit := by
  obtain ⟨k, tail, rest', hlongest, rfl⟩ := Lexeme.exists_longest ch cs
  rw [scanFrom_token hblank hlongest] at h
  rw [← (List.cons.inj h).1]
  rfl

/-- The text after proper tokens may be left out. -/
theorem exists_front {offset : Nat} {cs : List Char} {mid post : List Token}
    (h : scanFrom offset cs = mid ++ post) (hmid : ∀ t ∈ mid, t.kind.isProper = true) :
    ∃ text after, cs = text ++ after ∧ kinds text = mid.map kind ++ [.eof] ∧
      (mid.getLast?.map fun t => t.span.stop).getD (min offset Span.limit) =
        min (offset + Text.utf8Length text) Span.limit := by
  induction cs using tokens_induction generalizing offset mid with
  | nil =>
    cases mid with
    | nil => exact ⟨[], [], rfl, kinds_nil, rfl⟩
    | cons t mid =>
      rw [scanFrom] at h
      have ht : t.kind = .eof := congrArg kind (List.cons.inj h).1.symm
      exact absurd ht (TokenKind.ne_eof_of_isProper (hmid t List.mem_cons_self))
  | blank ch cs hblank ih =>
    cases mid with
    | nil => exact ⟨[], ch :: cs, rfl, kinds_nil, rfl⟩
    | cons t mid =>
      rw [scanFrom_blank hblank] at h
      obtain ⟨text, after, rfl, hkinds, hstop⟩ := ih h hmid
      refine ⟨ch :: text, after, rfl, ?_, ?_⟩
      · rw [kinds_blank hblank, hkinds]
      · rw [Text.utf8Length_cons, ← Nat.add_assoc, ← hstop, List.getLast?_cons]
        rfl
  | token ch tail rest k hblank hlongest ih =>
    cases mid with
    | nil => exact ⟨[], ch :: (tail ++ rest), rfl, kinds_nil, rfl⟩
    | cons t mid =>
      rw [scanFrom_token hblank hlongest] at h
      obtain ⟨rfl, hrest⟩ := List.cons.inj h
      obtain ⟨text, after, rfl, hkinds, hstop⟩ :=
        ih hrest fun t ht => hmid t (List.mem_cons_of_mem _ ht)
      -- The token still ends where it did, whether text follows or not.
      have hends : k.EndsBefore text := by
        have hends := Lexeme.endsBefore_rest ch (tail ++ (text ++ after))
        rw [hlongest] at hends
        exact hends.of_append
      have hk : k ≠ .error := TokenKind.ne_error_of_isProper (hmid _ List.mem_cons_self)
      have hlocal := Lexeme.longest_local hlongest hk hends
      refine ⟨ch :: (tail ++ text), after, ?_, ?_, ?_⟩
      · rw [List.cons_append, List.append_assoc]
      · rw [kinds_token hblank hlocal, hkinds]
        rfl
      · have hlength : Text.utf8Length (ch :: (tail ++ text)) =
            Text.utf8Length (ch :: tail) + Text.utf8Length text :=
          Text.utf8Length_append (ch :: tail) text
        rw [hlength, ← Nat.add_assoc, ← hstop, List.getLast?_cons]
        cases mid.getLast? <;> rfl

/-- The piece of text that tokens cover is read as these tokens. -/
theorem exists_text {source : String} {pre mid post : List Token}
    (hscan : scan source = pre ++ (mid ++ post)) (hmid : mid ≠ [])
    (hproper : ∀ t ∈ mid, t.kind.isProper = true)
    (hlimit : Text.utf8Length source.toList ≤ Span.limit) :
    ∃ before text after, source.toList = before ++ text ++ after ∧
      kinds text = mid.map kind ++ [.eof] ∧
      cover mid = ⟨Text.utf8Length before, Text.utf8Length (before ++ text)⟩ := by
  obtain ⟨first, mid, rfl⟩ := List.exists_cons_of_ne_nil hmid
  have hfirst := TokenKind.ne_eof_of_isProper (hproper first List.mem_cons_self)
  obtain ⟨before, ch, after', hsource, hblank, hsuffix⟩ := exists_suffix hscan hfirst
  have hstart := start_of_scanFrom hblank hsuffix
  have hrest : scanFrom (0 + Text.utf8Length before) (ch :: after') = (first :: mid) ++ post :=
    hsuffix
  obtain ⟨text, after, hfront, hkinds, hstop⟩ := exists_front hrest hproper
  refine ⟨before, text, after, ?_, hkinds, ?_⟩
  · rw [hsource, hfront, List.append_assoc]
  · have hlength : Text.utf8Length before + Text.utf8Length text ≤ Span.limit := by
      rw [hsource, hfront, Text.utf8Length_append, Text.utf8Length_append] at hlimit
      omega
    rw [Nat.zero_add, Nat.min_eq_left (by omega)] at hstart
    rw [Nat.zero_add, Nat.min_eq_left hlength] at hstop
    rw [Text.utf8Length_append, ← hstop, ← hstart]
    rfl

end DataExpr.Token
