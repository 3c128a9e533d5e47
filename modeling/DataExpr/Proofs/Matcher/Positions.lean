import DataExpr.Matcher.Access
import DataExpr.Proofs.Lists

/-!
# Positions and slices in integers and in words

An index stands for an integer (`place`), and there is a position for it if this is not negative
(`position?_eq`).  The bounds of a slice are these integers, brought into the sequence (`hostBound`,
`sliceRange_eq`), and the slice with what is before and after it makes up the sequence (`sliced`).

A machine has no integers but words of 64 bits, indices with a sign and lengths without.  Computed with
these, where a sum or a difference that is no such word is `none`, the positions are the same
(`Words.position_eq`, `Words.sliceRange_eq`), provided that the length of the sequence is a word with a
sign too.  The lengths of what is built at the positions are words then (`Words.filledLength_eq`,
`Words.splicedLength_eq`).
-/

namespace DataExpr

namespace Matcher

variable {i bound : Int64} {start stop : Option Int64} {n p : Nat}

/-! ### Integers -/

/-- The place that an index stands for in a sequence of the given length: negative indices count from the
end.  The place may be outside of the sequence on either side. -/
def place (index : Int64) (length : Nat) : Int :=
  if index.toInt < 0 then length + index.toInt else index.toInt

/-- A bound of a slice: the place that it stands for, or the nearest one in the sequence or at its end. -/
def hostBound (bound : Int64) (length : Nat) : Int := max 0 (min length (place bound length))

/-- Where a slice begins. -/
def hostStart (start : Option Int64) (length : Nat) : Int := start.elim 0 (hostBound · length)

/-- Where a slice ends, if that is not before its beginning. -/
def hostStop (stop : Option Int64) (length : Nat) : Int := stop.elim length (hostBound · length)

theorem position?_eq (i : Int64) (n : Nat) :
    position? i n = if 0 ≤ place i n then some (place i n).toNat else none := by
  unfold position? place
  by_cases h : i.toInt < 0
  · rw [if_neg (by omega), if_pos h]
  · rw [if_pos (by omega), if_neg h, if_pos (by omega)]

theorem position?_eq_some_iff : position? i n = some p ↔ place i n = p := by
  rw [position?_eq]
  split
  · rw [Option.some.injEq]
    omega
  · exact ⟨nofun, fun hp => by omega⟩

theorem position?_eq_none_iff : position? i n = none ↔ place i n < 0 := by
  rw [position?_eq]
  split
  · exact ⟨nofun, fun hp => by omega⟩
  · exact ⟨fun _ => by omega, fun _ => rfl⟩

theorem clampBound_eq (bound : Int64) (n : Nat) : (clampBound bound n : Int) = hostBound bound n := by
  unfold clampBound hostBound
  split
  · rename_i p hp
    rw [position?_eq_some_iff.1 hp]
    omega
  · rename_i hp
    rw [position?_eq_none_iff] at hp
    omega

theorem hostBound_le (bound : Int64) (n : Nat) : hostBound bound n ≤ n := by
  unfold hostBound
  omega

theorem sliceRange_eq (start stop : Option Int64) (n : Nat) :
    ((sliceRange start stop n).1 : Int) = hostStart start n ∧
    ((sliceRange start stop n).2 : Int) = max (hostStop stop n) (hostStart start n) := by
  have hstart : ((start.elim 0 (clampBound · n) : Nat) : Int) = hostStart start n := by
    cases start with
    | none => rfl
    | some bound => exact clampBound_eq bound n
  have hstop : ((stop.elim n (clampBound · n) : Nat) : Int) = hostStop stop n := by
    cases stop with
    | none => rfl
    | some bound => exact clampBound_eq bound n
  refine ⟨hstart, ?_⟩
  rw [sliceRange, ← hstart, ← hstop]
  show ((max _ _ : Nat) : Int) = _
  omega

theorem hostStop_le (stop : Option Int64) (n : Nat) : hostStop stop n ≤ n := by
  cases stop with
  | none => exact Int.le_refl _
  | some bound => exact hostBound_le bound n

theorem hostStart_le (start : Option Int64) (n : Nat) : hostStart start n ≤ n := by
  cases start with
  | none => exact Int.natCast_nonneg n
  | some bound => exact hostBound_le bound n

theorem first_le_last (start stop : Option Int64) (length : Nat) :
    (sliceRange start stop length).1 ≤ (sliceRange start stop length).2 :=
  Nat.le_max_right _ _

theorem sliceRange_le (start stop : Option Int64) (n : Nat) :
    (sliceRange start stop n).1 ≤ (sliceRange start stop n).2 ∧ (sliceRange start stop n).2 ≤ n := by
  obtain ⟨-, hlast⟩ := sliceRange_eq start stop n
  have hstart := hostStart_le start n
  have hstop := hostStop_le stop n
  exact ⟨first_le_last start stop n, by omega⟩

/-- Whether a sequence is made of three pieces of which the one in the middle begins where the slice does,
and ends where the slice does unless that is before its beginning; then there is nothing in the middle. -/
structure Sliced {α : Type} (start stop : Option Int64) (xs pre middle suf : List α) : Prop where
  eq_append : xs = pre ++ middle ++ suf
  length_before : (pre.length : Int) = hostStart start xs.length
  length_slice : (middle.length : Int) = max 0 (hostStop stop xs.length - hostStart start xs.length)

theorem sliced {α : Type} {first last : Nat} {xs : List α}
    (h : sliceRange start stop xs.length = (first, last)) :
    Sliced start stop xs (xs.take first) ((xs.take last).drop first) (xs.drop last) := by
  obtain ⟨hfirst, hlast⟩ := sliceRange_eq start stop xs.length
  obtain ⟨hle, hlength⟩ := sliceRange_le start stop xs.length
  rw [h] at hfirst hlast hle hlength
  -- The slice ends at the larger bound, so it is empty if the bounds are in the wrong order.
  refine ⟨(Lists.take_append_slice_append_drop xs hle).symm, ?_, ?_⟩
  · rw [List.length_take, Nat.min_eq_left (Nat.le_trans hle hlength), hfirst]
  · rw [List.length_drop, List.length_take, Nat.min_eq_left hlength]
    omega

end Matcher

namespace Words

variable {i bound : Int64} {start stop : Option Int64} {n m p first last : UInt64} {k : Int}

/-! ### Words -/

/-- The number as a word with a sign, if it is one. -/
def signed? (k : Int) : Option Int64 :=
  if Int64.minValue.toInt ≤ k ∧ k ≤ Int64.maxValue.toInt then some (Int64.ofInt k) else none

/-- The number as a word without a sign, if it is one. -/
def unsigned? (k : Int) : Option UInt64 :=
  if 0 ≤ k ∧ k < UInt64.size then some (UInt64.ofNat k.toNat) else none

/-- The place that an index stands for in a sequence of the given length. -/
def place (index length : Int64) : Option Int64 :=
  if index.toInt < 0 then signed? (length.toInt + index.toInt) else some index

/-- The position that an index stands for in a sequence of the given length, if its place is a word; a
length that is no word with a sign is taken for the largest one. -/
def position (index : Int64) (length : UInt64) : Option (Option UInt64) := do
  let place ← place index ((signed? length.toNat).getD Int64.maxValue)
  return unsigned? place.toInt

/-- The length of a list after a position of it has been written to. -/
def filledLength (position length : UInt64) : Option UInt64 :=
  if length ≤ position then unsigned? (position.toNat + 1) else some length

/-- A bound of a slice in a sequence of the given length. -/
def clampBound (bound : Int64) (length : UInt64) : Option UInt64 := do
  match ← position bound length with
  | some position => return min position length
  | none => return 0

/-- Where a slice begins and ends. -/
def sliceRange (start stop : Option Int64) (length : UInt64) : Option (UInt64 × UInt64) := do
  let first ← start.elim (some 0) (clampBound · length)
  let last ← stop.elim (some length) (clampBound · length)
  return (first, max last first)

/-- The length of a sequence after a slice of it has been replaced. -/
def splicedLength (length first last middle : UInt64) : Option UInt64 := do
  let taken ← unsigned? ((last.toNat : Int) - first.toNat)
  let left ← unsigned? ((length.toNat : Int) - taken.toNat)
  unsigned? ((left.toNat : Int) + middle.toNat)

/-- Whether the word is also one with a sign. -/
def Signed (n : UInt64) : Prop := (n.toNat : Int) ≤ Int64.maxValue.toInt

instance (n : UInt64) : Decidable (Signed n) := inferInstanceAs (Decidable (_ ≤ _))

theorem exists_signed? (hlow : Int64.minValue.toInt ≤ k) (hhigh : k ≤ Int64.maxValue.toInt) :
    ∃ w, signed? k = some w ∧ w.toInt = k :=
  ⟨Int64.ofInt k, if_pos ⟨hlow, hhigh⟩, Int64.toInt_ofInt_of_le hlow (Int.lt_add_one_of_le hhigh)⟩

theorem exists_unsigned? (hlow : 0 ≤ k) (hhigh : k < UInt64.size) :
    ∃ w, unsigned? k = some w ∧ (w.toNat : Int) = k := by
  refine ⟨UInt64.ofNat k.toNat, if_pos ⟨hlow, hhigh⟩, ?_⟩
  rw [UInt64.toNat_ofNat_of_lt' (by omega), Int.toNat_of_nonneg hlow]

theorem map_unsigned? (h : k ≤ Int64.maxValue.toInt) :
    (unsigned? k).map UInt64.toNat = if 0 ≤ k then some k.toNat else none := by
  split
  · rename_i hlow
    obtain ⟨w, hw, hwk⟩ := exists_unsigned? hlow (Int.lt_of_le_of_lt h (by decide))
    rw [hw, Option.map_some, ← hwk, Int.toNat_natCast]
  · rename_i hlow
    rw [unsigned?, if_neg fun hk => hlow hk.1, Option.map_none]

theorem toNat_min (n m : UInt64) : (min n m).toNat = min n.toNat m.toNat := by
  show (if n ≤ m then n else m).toNat = min n.toNat m.toNat
  split <;> rename_i h <;> rw [UInt64.le_iff_toNat_le] at h <;> omega

theorem toNat_max (n m : UInt64) : (max n m).toNat = max n.toNat m.toNat := by
  show (if n ≤ m then m else n).toNat = max n.toNat m.toNat
  split <;> rename_i h <;> rw [UInt64.le_iff_toNat_le] at h <;> omega

theorem place_le (hn : Signed n) (i : Int64) : Matcher.place i n.toNat ≤ Int64.maxValue.toInt := by
  have hhigh := i.toInt_le
  unfold Signed at hn
  unfold Matcher.place
  split <;> omega

/-- The place of an index is a word with a sign. -/
theorem exists_place {length : Int64} (h : length.toInt = n.toNat) (i : Int64) :
    ∃ w, place i length = some w ∧ w.toInt = Matcher.place i n.toNat := by
  have hlow := i.minValue_le_toInt
  have hhigh := length.toInt_le
  unfold place Matcher.place
  rw [← h]
  split
  · exact exists_signed? (by omega) (by omega)
  · exact ⟨i, rfl, rfl⟩

theorem position_eq (hn : Signed n) (i : Int64) :
    ∃ p, position i n = some p ∧ p.map UInt64.toNat = Matcher.position? i n.toNat := by
  have hzero : Int64.minValue.toInt ≤ (n.toNat : Int) := Int.le_trans (by decide) (Int.natCast_nonneg _)
  obtain ⟨length, hlength, hlength'⟩ := exists_signed? hzero hn
  obtain ⟨place, hplace, hplace'⟩ := exists_place hlength' i
  refine ⟨unsigned? place.toInt, ?_, ?_⟩
  · rw [position, hlength, Option.getD_some, hplace]
    rfl
  · rw [map_unsigned? place.toInt_le, hplace', Matcher.position?_eq]

/-- A position that an index stands for can be written to. -/
theorem filledLength_eq (hn : Signed n) (h : position i n = some (some p)) :
    ∃ length, filledLength p n = some length ∧ length.toNat = max n.toNat (p.toNat + 1) := by
  have hp : (p.toNat : Int) ≤ Int64.maxValue.toInt := by
    obtain ⟨p', hp', hposition⟩ := position_eq hn i
    obtain rfl := Option.some.inj (h.symm.trans hp')
    rw [← Matcher.position?_eq_some_iff.1 hposition.symm]
    exact place_le hn i
  unfold filledLength
  split
  · rename_i hle
    rw [UInt64.le_iff_toNat_le] at hle
    obtain ⟨length, hlength, hlength'⟩ := exists_unsigned? (k := p.toNat + 1) (by omega)
      (Int.lt_of_le_of_lt (Int.add_le_add_right hp 1) (by decide))
    exact ⟨length, hlength, by omega⟩
  · rename_i hlt
    rw [UInt64.le_iff_toNat_le] at hlt
    exact ⟨n, rfl, by omega⟩

theorem clampBound_eq (hn : Signed n) (bound : Int64) :
    ∃ b, clampBound bound n = some b ∧ b.toNat = Matcher.clampBound bound n.toNat := by
  obtain ⟨p, hp, hp'⟩ := position_eq hn bound
  unfold clampBound Matcher.clampBound
  rw [hp, ← hp']
  cases p with
  | none => exact ⟨0, rfl, rfl⟩
  | some p => exact ⟨min p n, rfl, toNat_min p n⟩

theorem sliceRange_eq (hn : Signed n) (start stop : Option Int64) :
    ∃ first last, sliceRange start stop n = some (first, last) ∧
      (first.toNat, last.toNat) = Matcher.sliceRange start stop n.toNat := by
  have hstart : ∃ first, start.elim (some 0) (clampBound · n) = some first ∧
      first.toNat = start.elim 0 (Matcher.clampBound · n.toNat) := by
    cases start with
    | none => exact ⟨0, rfl, rfl⟩
    | some bound => exact clampBound_eq hn bound
  have hstop : ∃ last, stop.elim (some n) (clampBound · n) = some last ∧
      last.toNat = stop.elim n.toNat (Matcher.clampBound · n.toNat) := by
    cases stop with
    | none => exact ⟨n, rfl, rfl⟩
    | some bound => exact clampBound_eq hn bound
  obtain ⟨first, hfirst, hfirst'⟩ := hstart
  obtain ⟨last, hlast, hlast'⟩ := hstop
  refine ⟨first, max last first, ?_, ?_⟩
  · rw [sliceRange, hfirst, hlast]
    rfl
  · rw [Matcher.sliceRange, toNat_max, hfirst', hlast']

theorem splicedLength_eq (hn : Signed n) (hm : Signed m) (hfirst : first.toNat ≤ last.toNat)
    (hlast : last.toNat ≤ n.toNat) :
    ∃ length, splicedLength n first last m = some length ∧
      length.toNat = n.toNat - (last.toNat - first.toNat) + m.toNat := by
  -- Two words with a sign make up a word without one, so the sum at the end does not overflow.
  have hwords : Int64.maxValue.toInt + Int64.maxValue.toInt < UInt64.size := by decide
  have hmax : Int64.maxValue.toInt < UInt64.size := by decide
  unfold Signed at hn hm
  obtain ⟨taken, htaken, htaken'⟩ :=
    exists_unsigned? (k := (last.toNat : Int) - first.toNat) (by omega) (by omega)
  obtain ⟨left, hleft, hleft'⟩ :=
    exists_unsigned? (k := (n.toNat : Int) - taken.toNat) (by omega) (by omega)
  obtain ⟨length, hlength, hlength'⟩ :=
    exists_unsigned? (k := (left.toNat : Int) + m.toNat) (by omega) (by omega)
  refine ⟨length, ?_, by omega⟩
  rw [splicedLength, htaken, Option.bind_eq_bind, Option.bind_some, hleft, Option.bind_some,
    hlength]

/-- What is computed with an index and with the bounds of a slice, for a sequence of length `n` in which
`m` items or characters take the place of the slice. -/
structure Exact (i : Int64) (start stop : Option Int64) (n m : UInt64) : Prop where
  index : ∃ p, position i n = some p ∧ p.map UInt64.toNat = Matcher.position? i n.toNat ∧
    ∀ q, p = some q →
      ∃ length, filledLength q n = some length ∧ length.toNat = max n.toNat (q.toNat + 1)
  slice : ∃ first last length, sliceRange start stop n = some (first, last) ∧
    (first.toNat, last.toNat) = Matcher.sliceRange start stop n.toNat ∧
    splicedLength n first last m = some length ∧
    length.toNat = n.toNat - (last.toNat - first.toNat) + m.toNat

theorem exact (hn : Signed n) (hm : Signed m) (i : Int64) (start stop : Option Int64) :
    Exact i start stop n m where
  index := by
    obtain ⟨p, hp, hposition⟩ := position_eq hn i
    exact ⟨p, hp, hposition, fun q hq => filledLength_eq hn (hp.trans (congrArg some hq))⟩
  slice := by
    obtain ⟨first, last, hrange, hpair⟩ := sliceRange_eq hn start stop
    obtain ⟨hle, hlength⟩ := Matcher.sliceRange_le start stop n.toNat
    rw [← hpair] at hle hlength
    obtain ⟨length, hspliced, htotal⟩ := splicedLength_eq hn hm hle hlength
    exact ⟨first, last, length, hrange, hpair, hspliced, htotal⟩

end Words

end DataExpr
