import MicroCard.Versions.Constraint

/-! A range of versions is a span between two places on a line, where each version has a
place before it and one behind it. The ranges of the card are the same spans. -/
namespace MicroCard.Versions

open Spans

section Order

/-- A version as one number. -/
def Version.number (v : Version) : Nat :=
  ((v.major.toNat * 65536 + v.minor.toNat) * 65536 + v.patch.toNat) * 65536 + v.revision.toNat

theorem Version.number_lt (v : Version) : v.number < 18446744073709551616 := by
  have hMajor := v.major.toNat_lt
  have hMinor := v.minor.toNat_lt
  have hPatch := v.patch.toNat_lt
  have hRevision := v.revision.toNat_lt
  unfold number
  omega

theorem Version.number_inj {v w : Version} : v.number = w.number ↔ v = w := by
  refine ⟨?_, fun h => h ▸ rfl⟩
  intro h
  have hMinor := v.minor.toNat_lt
  have hPatch := v.patch.toNat_lt
  have hRevision := v.revision.toNat_lt
  have hMinor' := w.minor.toNat_lt
  have hPatch' := w.patch.toNat_lt
  have hRevision' := w.revision.toNat_lt
  unfold number at h
  cases v
  cases w
  simp only [mk.injEq, ← UInt16.toNat_inj] at *
  omega

theorem compare_units (a b : UInt16) : compare a b = compare a.toNat b.toNat := by
  change compareOfLessAndEq a b = compareOfLessAndEq a.toNat b.toNat
  simp [compareOfLessAndEq, UInt16.lt_iff_toNat_lt, UInt16.toNat_inj]

/-- Numbers compare by their leading digit first. -/
theorem compare_digits {a b c d : Nat} (hFirst : b < 65536) (hSecond : d < 65536) :
    compare (a * 65536 + b) (c * 65536 + d) = if compare a c ≠ .eq then compare a c else compare b d := by
  rcases lt_trichotomy a c with hLess | rfl | hGreater
  · have hLeading : compare a c = .lt := Nat.compare_eq_lt.2 hLess
    rw [hLeading, if_pos (by decide), Nat.compare_eq_lt]
    omega
  · have hLeading : compare a a = .eq := Nat.compare_eq_eq.2 rfl
    rw [hLeading, if_neg (not_not.2 rfl)]
    rcases lt_trichotomy b d with hLess | rfl | hGreater
    · rw [Nat.compare_eq_lt.2 hLess, Nat.compare_eq_lt]
      omega
    · rw [Nat.compare_eq_eq.2 rfl, Nat.compare_eq_eq.2 rfl]
    · rw [Nat.compare_eq_gt.2 hGreater, Nat.compare_eq_gt]
      omega
  · have hLeading : compare a c = .gt := Nat.compare_eq_gt.2 hGreater
    rw [hLeading, if_pos (by decide), Nat.compare_eq_gt]
    omega

/-- Versions compare as their numbers do. -/
theorem Version.compareTo_eq (v w : Version) : v.compareTo w = compare v.number w.number := by
  rw [number, number, compare_digits v.revision.toNat_lt w.revision.toNat_lt,
    compare_digits v.patch.toNat_lt w.patch.toNat_lt, compare_digits v.minor.toNat_lt w.minor.toNat_lt]
  simp only [compareTo, compare_units]
  split_ifs <;> rfl

@[simp] theorem Version.compareTo_lt {v w : Version} : v.compareTo w = .lt ↔ v.number < w.number := by
  rw [compareTo_eq, Nat.compare_eq_lt]

@[simp] theorem Version.compareTo_gt {v w : Version} : v.compareTo w = .gt ↔ w.number < v.number := by
  rw [compareTo_eq, Nat.compare_eq_gt]

@[simp] theorem Version.compareTo_eq_eq {v w : Version} : v.compareTo w = .eq ↔ v.number = w.number := by
  rw [compareTo_eq, Nat.compare_eq_eq]

end Order

section Places

/-- The places next to a version. -/
def Version.span (v : Version) : Span Nat := ⟨2 * v.number + 1, 2 * v.number + 2⟩

theorem Version.span_atomic (v : Version) : v.span.Atomic := by
  refine ⟨Nat.lt_succ_self _, ?_⟩
  intro e
  simp only [span]
  omega

/-- Where the line ends. -/
def farthest : Nat := 2 * 18446744073709551616 + 1

namespace Range

def lo (range : Range) : Nat :=
  match range.minimum with
  | none => 0
  | some minimum => 2 * minimum.number + if range.minimumInclusive then 1 else 2

def hi (range : Range) : Nat :=
  match range.maximum with
  | none => farthest
  | some maximum => 2 * maximum.number + if range.maximumInclusive then 2 else 1

def span (range : Range) : Span Nat := ⟨range.lo, range.hi⟩

/-- An end that is not there does not belong to the range. -/
structure Formed (range : Range) : Prop where
  minimum : range.minimum = none → range.minimumInclusive = false
  maximum : range.maximum = none → range.maximumInclusive = false

end Range

variable {left right range : Range}

theorem isMatch_iff {v : Version} : range.isMatch v = true ↔ range.span.Covers v.span := by
  obtain ⟨minimum, minimumInclusive, maximum, maximumInclusive⟩ := range
  have hNumber := v.number_lt
  simp only [Range.isMatch, Range.span, Range.lo, Range.hi, Span.Covers, Version.span, Bool.and_eq_true, Bool.not_eq_true']
  refine and_congr ?_ ?_
  · cases minimum with
    | none => simp
    | some minimum => cases minimumInclusive <;> simp <;> omega
  · cases maximum with
    | none =>
        simp only [farthest, true_iff]
        omega
    | some maximum => cases maximumInclusive <;> simp <;> omega

theorem empty_iff : empty range = false ↔ range.span.Proper := by
  obtain ⟨minimum, minimumInclusive, maximum, maximumInclusive⟩ := range
  simp only [empty, Range.span, Range.lo, Range.hi, Span.Proper]
  cases minimum with
  | none =>
      cases maximum with
      | none => simp [farthest]
      | some maximum => cases maximumInclusive <;> simp
  | some minimum =>
      have hNumber := minimum.number_lt
      cases maximum with
      | none => cases minimumInclusive <;> simp [farthest] <;> omega
      | some maximum => cases minimumInclusive <;> cases maximumInclusive <;> simp <;> omega

theorem compareMinimum_le : compareMinimum left right ≠ .gt ↔ left.lo ≤ right.lo := by
  obtain ⟨minimum, minimumInclusive, -, -⟩ := left
  obtain ⟨minimum', minimumInclusive', -, -⟩ := right
  simp only [compareMinimum, Range.lo]
  cases minimum with
  | none => cases minimum' <;> simp
  | some minimum =>
      cases minimum' with
      | none => cases minimumInclusive <;> simp
      | some minimum' =>
          by_cases hSame : minimum.compareTo minimum' = .eq
          · simp only [ne_eq, hSame, not_true, if_false]
            rw [Version.compareTo_eq_eq] at hSame
            rw [hSame]
            cases minimumInclusive <;> cases minimumInclusive' <;> simp
            decide
          · simp only [ne_eq, hSame, not_false_eq_true, if_true, Version.compareTo_gt]
            rw [Version.compareTo_eq_eq] at hSame
            cases minimumInclusive <;> cases minimumInclusive' <;> simp <;> omega

theorem touches_iff : touches left right = true ↔ left.span.Touches right.span := by
  obtain ⟨-, -, maximum, maximumInclusive⟩ := left
  obtain ⟨minimum, minimumInclusive, -, -⟩ := right
  simp only [touches, Range.span, Range.lo, Range.hi, Span.Touches]
  cases maximum with
  | none =>
      cases minimum with
      | none => simp
      | some minimum =>
          have hNumber := minimum.number_lt
          cases minimumInclusive <;> simp [farthest] <;> omega
  | some maximum =>
      cases minimum with
      | none => simp
      | some minimum => cases minimumInclusive <;> cases maximumInclusive <;> simp <;> omega

theorem union_lo : (union left right).lo = left.lo := by
  unfold union
  split
  · split <;> rfl
  · rfl

theorem union_hi : (union left right).hi = max left.hi right.hi := by
  obtain ⟨minimum, minimumInclusive, maximum, maximumInclusive⟩ := left
  obtain ⟨minimum', minimumInclusive', maximum', maximumInclusive'⟩ := right
  cases maximum with
  | none =>
      cases maximum' with
      | none => simp [union, Range.hi]
      | some maximum' =>
          have hNumber := maximum'.number_lt
          cases maximumInclusive' <;> simp [union, Range.hi, farthest] <;> omega
  | some maximum =>
      cases maximum' with
      | none =>
          have hNumber := maximum.number_lt
          cases maximumInclusive <;> simp [union, Range.hi, farthest] <;> omega
      | some maximum' =>
          simp only [union]
          cases hCompared : maximum.compareTo maximum' with
          | lt =>
              rw [Version.compareTo_lt] at hCompared
              cases maximumInclusive <;> cases maximumInclusive' <;> simp [Range.hi] <;> omega
          | eq =>
              rw [Version.compareTo_eq_eq] at hCompared
              cases maximumInclusive <;> cases maximumInclusive' <;> simp [Range.hi, hCompared]
          | gt =>
              rw [Version.compareTo_gt] at hCompared
              cases maximumInclusive <;> cases maximumInclusive' <;> simp [Range.hi] <;> omega

theorem union_span : (union left right).span = left.span.join right.span := Span.ext union_lo union_hi

theorem intersect_lo : (intersect left right).lo = max left.lo right.lo := by
  obtain ⟨minimum, minimumInclusive, -, -⟩ := left
  obtain ⟨minimum', minimumInclusive', maximum', maximumInclusive'⟩ := right
  cases minimum with
  | none => exact (Nat.zero_max _).symm
  | some minimum =>
      cases minimum' with
      | none => exact (Nat.max_zero _).symm
      | some minimum' =>
          cases hCompared : minimum'.compareTo minimum with
          | lt =>
              simp only [intersect, intersectMinimum, hCompared]
              rw [Version.compareTo_lt] at hCompared
              cases minimumInclusive <;> cases minimumInclusive' <;> simp [Range.lo] <;> omega
          | eq =>
              simp only [intersect, intersectMinimum, hCompared]
              rw [Version.compareTo_eq_eq] at hCompared
              cases minimumInclusive <;> cases minimumInclusive' <;> simp [Range.lo, hCompared]
          | gt =>
              simp only [intersect, intersectMinimum, hCompared]
              rw [Version.compareTo_gt] at hCompared
              cases minimumInclusive <;> cases minimumInclusive' <;> simp [Range.lo] <;> omega

theorem intersect_hi : (intersect left right).hi = min left.hi right.hi := by
  obtain ⟨-, -, maximum, maximumInclusive⟩ := left
  obtain ⟨-, -, maximum', maximumInclusive'⟩ := right
  simp only [intersect, intersectMaximum, Range.hi]
  cases maximum with
  | none =>
      cases maximum' with
      | none => simp
      | some maximum' =>
          have hNumber := maximum'.number_lt
          cases maximumInclusive' <;> simp [farthest] <;> omega
  | some maximum =>
      cases maximum' with
      | none =>
          have hNumber := maximum.number_lt
          cases maximumInclusive <;> simp [farthest] <;> omega
      | some maximum' =>
          simp only [Version.compareTo_lt, Version.compareTo_eq_eq]
          split_ifs <;> simp_all <;> omega

theorem intersect_span : (intersect left right).span = left.span.meet right.span :=
  Span.ext intersect_lo intersect_hi

theorem Range.Formed.intersect (hLeft : left.Formed) (hRight : right.Formed) : (intersect left right).Formed := by
  obtain ⟨minimum, minimumInclusive, maximum, maximumInclusive⟩ := left
  obtain ⟨minimum', minimumInclusive', maximum', maximumInclusive'⟩ := right
  constructor
  · cases minimum with
    | none => exact hRight.minimum
    | some minimum =>
        cases minimum' with
        | none => exact hLeft.minimum
        | some minimum' =>
            simp only [Versions.intersect, intersectMinimum]
            split_ifs <;> exact fun h => nomatch h
  · cases maximum with
    | none => exact hRight.maximum
    | some maximum =>
        cases maximum' with
        | none => exact hLeft.maximum
        | some maximum' =>
            simp only [Versions.intersect, intersectMaximum]
            split_ifs <;> exact fun h => nomatch h

theorem Range.Formed.union (hLeft : left.Formed) (hRight : right.Formed) : (union left right).Formed := by
  unfold Versions.union
  split
  · split
    · exact hLeft
    · exact ⟨hLeft.minimum, hRight.maximum⟩
    · rename_i hMaximum _ _ _
      refine ⟨hLeft.minimum, ?_⟩
      intro hNone
      dsimp only at hNone
      simp_all
  · exact ⟨hLeft.minimum, fun _ => rfl⟩

/-- The canonical ranges are the spans without overlaps. -/
theorem merge_span (last : Range) (ranges : List Range) :
    (merge last ranges).map Range.span = coalesce last.span (ranges.map Range.span) := by
  induction ranges generalizing last with
  | nil => rfl
  | cons range rest ih =>
      rw [merge, List.map_cons, coalesce]
      by_cases hTouches : touches last range = true
      · rw [if_pos hTouches, if_pos (touches_iff.1 hTouches), ih, union_span]
      · rw [if_neg hTouches, if_neg fun h => hTouches (touches_iff.2 h), List.map_cons, ih]

theorem merge_formed {last : Range} {ranges : List Range} (hLast : last.Formed) (h : ∀ range ∈ ranges, range.Formed) :
    ∀ range ∈ merge last ranges, range.Formed := by
  induction ranges generalizing last with
  | nil =>
      intro range hRange
      rw [List.mem_singleton.1 hRange]
      exact hLast
  | cons range rest ih =>
      obtain ⟨hFirst, hRest⟩ := List.forall_mem_cons.1 h
      rw [merge]
      split_ifs
      · exact ih (hLast.union hFirst) hRest
      · exact List.forall_mem_cons.2 ⟨hLast, ih hFirst hRest⟩

end Places

section Card

def Version.toArray (v : Version) : Vector UInt16 4 := #v[v.major, v.minor, v.patch, v.revision]

/-- A range as the card has it. -/
structure VersionRange where
  min : Option (Vector UInt16 4)
  minInclusive : Bool
  max : Option (Vector UInt16 4)
  maxInclusive : Bool
  deriving DecidableEq

namespace VersionRange

def matchesVersion (range : VersionRange) (version : Vector UInt16 4) : Bool :=
  (range.min.all fun min => decide (min < version ∨ range.minInclusive = true ∧ version = min)) &&
    range.max.all fun max => decide (version < max ∨ range.maxInclusive = true ∧ version = max)

def valid (range : VersionRange) : Bool :=
  if range.min.isNone ∧ range.minInclusive ∨ range.max.isNone ∧ range.maxInclusive then false
  else
    match range.min, range.max with
    | some min, some max => min < max ∨ min = max ∧ range.minInclusive ∧ range.maxInclusive
    | _, _ => true

def strictlyBefore (range next : VersionRange) : Bool :=
  match range.max, next.min with
  | some max, some min => max < min ∨ max = min ∧ ¬range.maxInclusive ∧ ¬next.minInclusive
  | _, _ => false

end VersionRange

/-- What the build tool puts in the manifest for a range. -/
def Range.toCard (range : Range) : VersionRange :=
  ⟨range.minimum.map Version.toArray, range.minimumInclusive, range.maximum.map Version.toArray, range.maximumInclusive⟩

@[simp] theorem Version.toArray_lt {v w : Version} : v.toArray < w.toArray ↔ v.number < w.number := by
  have hMinor := v.minor.toNat_lt
  have hPatch := v.patch.toNat_lt
  have hRevision := v.revision.toNat_lt
  have hMinor' := w.minor.toNat_lt
  have hPatch' := w.patch.toNat_lt
  have hRevision' := w.revision.toNat_lt
  change [v.major, v.minor, v.patch, v.revision] < [w.major, w.minor, w.patch, w.revision] ↔ _
  simp only [List.cons_lt_cons_iff, UInt16.lt_iff_toNat_lt, ← UInt16.toNat_inj, List.lt_irrefl, and_false, or_false, number]
  constructor
  · rintro (hMajor | ⟨hMajor, hNext | ⟨hNext, hThird | ⟨hThird, hLast⟩⟩⟩) <;> omega
  · intro h
    omega

@[simp] theorem Version.toArray_inj {v w : Version} : v.toArray = w.toArray ↔ v.number = w.number := by
  rw [number_inj]
  cases v
  cases w
  simp [toArray]

variable {range next : Range}

/-- The card matches as the build does. -/
theorem toCard_matchesVersion (v : Version) : range.toCard.matchesVersion v.toArray = range.isMatch v := by
  rw [Bool.eq_iff_iff, isMatch_iff]
  obtain ⟨minimum, minimumInclusive, maximum, maximumInclusive⟩ := range
  have hNumber := v.number_lt
  simp only [VersionRange.matchesVersion, Range.toCard, Range.span, Range.lo, Range.hi, Span.Covers, Version.span, Bool.and_eq_true]
  refine and_congr ?_ ?_
  · cases minimum with
    | none => simp
    | some minimum => cases minimumInclusive <;> simp <;> omega
  · cases maximum with
    | none =>
        simp only [farthest, Option.map_none, Option.all_none, true_iff]
        omega
    | some maximum => cases maximumInclusive <;> simp <;> omega

theorem toCard_valid (h : range.Formed) : range.toCard.valid = true ↔ range.span.Proper := by
  rw [← empty_iff]
  obtain ⟨hMinimum, hMaximum⟩ := h
  obtain ⟨minimum, minimumInclusive, maximum, maximumInclusive⟩ := range
  simp only at hMinimum hMaximum
  cases minimum with
  | none =>
      cases maximum with
      | none => simp [VersionRange.valid, Range.toCard, empty, hMinimum, hMaximum]
      | some maximum => simp [VersionRange.valid, Range.toCard, empty, hMinimum]
  | some minimum =>
      cases maximum with
      | none => simp [VersionRange.valid, Range.toCard, empty, hMaximum]
      | some maximum =>
          cases minimumInclusive <;> cases maximumInclusive <;> simp [VersionRange.valid, Range.toCard, empty] <;> omega

theorem toCard_before : range.toCard.strictlyBefore next.toCard = true ↔ range.span.Before next.span := by
  obtain ⟨-, -, maximum, maximumInclusive⟩ := range
  obtain ⟨minimum, minimumInclusive, -, -⟩ := next
  simp only [VersionRange.strictlyBefore, Range.toCard, Span.Before, Range.span, Range.lo, Range.hi]
  cases maximum with
  | none =>
      cases minimum with
      | none => simp
      | some minimum =>
          have hNumber := minimum.number_lt
          cases minimumInclusive <;> simp [farthest] <;> omega
  | some maximum =>
      cases minimum with
      | none => simp
      | some minimum => cases minimumInclusive <;> cases maximumInclusive <;> simp <;> omega

end Card

end MicroCard.Versions
