import MicroCard.Versions.Grammar
import MicroCard.Versions.Ranges

/-! What a term says of a version. The direct evaluation and the range of the term agree on
it. -/
namespace MicroCard.Versions

section Formed

/-- What every term has that was read from a text. -/
structure Term.Formed (term : Term) : Prop where
  components : 2 ≤ term.components ∧ term.components ≤ 4
  wildcard : term.wildcard = true → term.operation = .exact ∧ ∀ i, term.components - 1 ≤ i → i < 4 → term.parsed.get i = 0

theorem Version.get_set {v : Version} {index : Nat} (h : index < 4) (value : UInt16) (i : Nat) (hi : i < 4) :
    (v.set index value).get i = if i = index then value else v.get i := by
  match index, i with
  | 0, 0 | 0, 1 | 0, 2 | 0, 3 | 1, 0 | 1, 1 | 1, 2 | 1, 3 | 2, 0 | 2, 1 | 2, 2 | 2, 3 | 3, 0 | 3, 1 | 3, 2 | 3, 3 => rfl
  | index + 4, _ => omega
  | _, i + 4 => omega

theorem readParts_formed {operation : Operation} {parsed : Version} {components more : Nat} {text after : Text} {term : Term}
    (hMore : components + more = 4) (hZero : ∀ i, components ≤ i → i < 4 → parsed.get i = 0)
    (h : readParts operation parsed components more text = some (term, after)) :
    term.operation = operation ∧ term.components ≤ 4 ∧
      (term.wildcard = true → ∀ i, term.components - 1 ≤ i → i < 4 → term.parsed.get i = 0) := by
  induction more generalizing parsed components text with
  | zero => cases h
  | succ more ih =>
      rw [readParts] at h
      cases hPart : readPart parsed components text with
      | none => rw [hPart] at h; cases h
      | some found =>
          obtain ⟨parsed', wildcard, left⟩ := found
          have hParsed : (wildcard = true → ∀ i, components ≤ i → i < 4 → parsed'.get i = 0) ∧
              (¬wildcard = true → ∀ i, components + 1 ≤ i → i < 4 → parsed'.get i = 0) := by
            cases text with
            | nil => cases hPart
            | cons c text =>
                rw [readPart] at hPart
                split_ifs at hPart
                · cases hPart
                  exact ⟨fun _ => hZero, fun hNot => absurd rfl hNot⟩
                · obtain ⟨⟨component, rest⟩, -, hFound⟩ := Option.map_eq_some_iff.1 hPart
                  cases hFound
                  refine ⟨fun hNot => absurd hNot (by decide), fun _ i hLow hHigh => ?_⟩
                  rw [Version.get_set (by omega) component i hHigh, if_neg (by omega)]
                  exact hZero i (by omega) hHigh
          simp only [hPart, Option.bind_eq_bind, Option.bind_some] at h
          have hLast (hTerm : term = ⟨operation, parsed', components + 1, wildcard⟩) : term.operation = operation ∧
              term.components ≤ 4 ∧
              (term.wildcard = true → ∀ i, term.components - 1 ≤ i → i < 4 → term.parsed.get i = 0) := by
            rw [hTerm]
            exact ⟨rfl, by dsimp only; omega, hParsed.1⟩
          cases left with
          | nil =>
              cases h
              exact hLast rfl
          | cons c left =>
              dsimp only at h
              split_ifs at h with hDot hWildcard
              · exact ih (by omega) (hParsed.2 hWildcard) h
              · cases h
                exact hLast rfl

theorem TermText.formed {text : Text} {term : Term} (h : TermText text term) : term.Formed := by
  obtain ⟨first, rest, -, hScan⟩ := h
  unfold scanTerm at hScan
  cases hParts : readParts (readOperation first rest).1 .zero 0 4 (readOperation first rest).2 with
  | none => simp [hParts] at hScan
  | some found =>
      obtain ⟨read, left⟩ := found
      simp only [hParts, Option.bind_eq_bind, Option.bind_some] at hScan
      split_ifs at hScan with hTerm
      cases hScan
      have hZero : ∀ i, 0 ≤ i → i < 4 → Version.zero.get i = 0 := by decide
      obtain ⟨hOperation, hComponents, hRest⟩ := readParts_formed (by rfl) hZero hParts
      simp only [not_or, not_lt, not_and, not_not] at hTerm
      refine ⟨⟨hTerm.1, hComponents⟩, fun hWildcard => ⟨?_, hRest hWildcard⟩⟩
      rw [hOperation]
      exact hTerm.2 hWildcard

theorem Group.formed {text : Text} {terms : List Term} (h : Group text terms) : ∀ term ∈ terms, term.Formed := by
  induction h with
  | nil => exact fun _ h => nomatch h
  | cons _ hTerm _ _ ih => exact List.forall_mem_cons.2 ⟨hTerm.formed, ih⟩

theorem Alternatives.formed {text : Text} {groups : List (List Term)} (h : Alternatives text groups) :
    ∀ group ∈ groups, group ≠ [] ∧ ∀ term ∈ group, term.Formed := by
  induction h with
  | last hGroup hSome =>
      intro group hMember
      rw [List.mem_singleton.1 hMember]
      exact ⟨hSome, hGroup.formed⟩
  | more hGroup hSome _ ih => exact List.forall_mem_cons.2 ⟨⟨hSome, hGroup.formed⟩, ih⟩

end Formed

section Admits

/-- What a term says of a version. A wildcard keeps the components before it; a caret keeps the
given components up to the first one that is not zero, and a tilde all of them but the last
one, the first one in any case; neither goes below the version of the term. -/
def Term.Admits (term : Term) (v : Version) : Prop :=
  if term.wildcard then ∀ i < term.components - 1, v.get i = term.parsed.get i
  else
    match term.operation with
    | .exact => v = term.parsed
    | .less => v.compareTo term.parsed = .lt
    | .lessOrEqual => v.compareTo term.parsed ≠ .gt
    | .greater => v.compareTo term.parsed = .gt
    | .greaterOrEqual => v.compareTo term.parsed ≠ .lt
    | .caret => v.compareTo term.parsed ≠ .lt ∧
        ∀ i < term.components, (∀ j < i, term.parsed.get j = 0) → v.get i = term.parsed.get i
    | .tilde => v.compareTo term.parsed ≠ .lt ∧ ∀ i < term.components, i = 0 ∨ i + 1 < term.components → v.get i = term.parsed.get i

theorem forall_le_succ {p : Nat → Prop} {n : Nat} : (∀ i ≤ n + 1, p i) ↔ (∀ i ≤ n, p i) ∧ p (n + 1) := by
  constructor
  · intro h
    exact ⟨fun i hi => h i (hi.trans (Nat.le_succ n)), h (n + 1) le_rfl⟩
  · rintro ⟨hBelow, hLast⟩ i hi
    rcases Nat.lt_or_eq_of_le hi with hLess | rfl
    · exact hBelow i (Nat.le_of_lt_succ hLess)
    · exact hLast

theorem forall_le_zero {p : Nat → Prop} : (∀ i ≤ 0, p i) ↔ p 0 :=
  ⟨fun h => h 0 le_rfl, fun h _ hi => Nat.le_zero.1 hi ▸ h⟩

/-- Below a raised component there is what keeps the components up to it. -/
theorem bounded_iff {lower v : Version} {index : Nat} (hIndex : index < 4) (hRoom : lower.get index ≠ 65535)
    (hLow : lower.number ≤ v.number) :
    v.number < ((lower.set index (lower.get index + 1)).clearAfter index).number ↔ ∀ i ≤ index, v.get i = lower.get i := by
  obtain ⟨major, minor, patch, revision⟩ := lower
  obtain ⟨major', minor', patch', revision'⟩ := v
  have hNext (c : UInt16) (hc : c ≠ 65535) : (c + 1).toNat = c.toNat + 1 := by
    rw [ne_eq, ← UInt16.toNat_inj] at hc
    have := c.toNat_lt
    rw [UInt16.toNat_add]
    simp at hc ⊢
    omega
  have hMinor := minor.toNat_lt
  have hPatch := patch.toNat_lt
  have hRevision := revision.toNat_lt
  have hMinor' := minor'.toNat_lt
  have hPatch' := patch'.toNat_lt
  have hRevision' := revision'.toNat_lt
  have hZero : (0 : UInt16).toNat = 0 := rfl
  have hRaised := hNext _ hRoom
  have hThree : index = 0 ∨ index = 1 ∨ index = 2 ∨ index = 3 := by omega
  rcases hThree with rfl | rfl | rfl | rfl
  · rw [forall_le_zero]
    simp only [Version.get, Version.set, Version.clearAfter, Version.number, ← UInt16.toNat_inj, hZero,
      Nat.reduceLT, if_true] at hRaised hLow ⊢
    omega
  · rw [forall_le_succ, forall_le_zero]
    simp only [Version.get, Version.set, Version.clearAfter, Version.number, ← UInt16.toNat_inj, hZero,
      Nat.reduceLT, if_true, if_false, Nat.zero_add] at hRaised hLow ⊢
    omega
  · rw [forall_le_succ, forall_le_succ, forall_le_zero]
    simp only [Version.get, Version.set, Version.clearAfter, Version.number, ← UInt16.toNat_inj, hZero,
      Nat.reduceLT, if_true, if_false, Nat.zero_add, Nat.reduceAdd] at hRaised hLow ⊢
    omega
  · rw [forall_le_succ, forall_le_succ, forall_le_succ, forall_le_zero]
    simp only [Version.get, Version.set, Version.clearAfter, Version.number, ← UInt16.toNat_inj,
      Nat.reduceLT, if_false, Nat.zero_add, Nat.reduceAdd] at hRaised hLow ⊢
    omega

variable {term : Term} {v : Version}

theorem isMatch_between {lower upper : Version} : Range.isMatch ⟨some lower, true, some upper, false⟩ v =
    decide (v.compareTo lower ≠ .lt ∧ v.compareTo upper = .lt) := by
  rw [Bool.eq_iff_iff]
  simp [Range.isMatch]
  omega

theorem isMatch_exact {value : Version} : Range.isMatch ⟨some value, true, some value, true⟩ v = decide (v.compareTo value = .eq) := by
  rw [Bool.eq_iff_iff]
  simp [Range.isMatch]
  omega

theorem isMatch_below {value : Version} {inclusive : Bool} : Range.isMatch ⟨none, false, some value, inclusive⟩ v =
    decide (v.compareTo value = .lt ∨ v.compareTo value = .eq ∧ inclusive = true) := by
  rw [Bool.eq_iff_iff]
  cases inclusive <;> simp [Range.isMatch] <;> omega

theorem isMatch_above {value : Version} {inclusive : Bool} : Range.isMatch ⟨some value, inclusive, none, false⟩ v =
    decide (v.compareTo value = .gt ∨ v.compareTo value = .eq ∧ inclusive = true) := by
  rw [Bool.eq_iff_iff]
  cases inclusive <;> simp [Range.isMatch] <;> omega

/-- The two readings of a term know the same versions. -/
theorem evaluate_normalize (h : term.Formed) :
    evaluateTerm term v true = (normalizeTerm term).map (·.isMatch v) := by
  obtain ⟨operation, parsed, components, wildcard⟩ := term
  cases wildcard with
  | true =>
      obtain rfl : operation = .exact := (h.wildcard rfl).1
      cases hUpper : tryUpperBound .exact parsed components true with
      | none => simp [evaluateTerm, normalizeTerm, hUpper]
      | some upper => simp [evaluateTerm, normalizeTerm, hUpper, isMatch_between]
  | false =>
      cases operation with
      | exact => simp [evaluateTerm, normalizeTerm, isMatch_exact]
      | less => simp [evaluateTerm, normalizeTerm, isMatch_below]
      | lessOrEqual =>
          simp [evaluateTerm, normalizeTerm, isMatch_below, le_iff_lt_or_eq]
      | greater => simp [evaluateTerm, normalizeTerm, isMatch_above]
      | greaterOrEqual =>
          simp [evaluateTerm, normalizeTerm, isMatch_above]
          rw [Bool.eq_iff_iff]
          simp
          omega
      | caret =>
          cases hUpper : tryUpperBound .caret parsed components false with
          | none => simp [evaluateTerm, normalizeTerm, hUpper]
          | some upper => simp [evaluateTerm, normalizeTerm, hUpper, isMatch_between]
      | tilde =>
          cases hUpper : tryUpperBound .tilde parsed components false with
          | none => simp [evaluateTerm, normalizeTerm, hUpper]
          | some upper => simp [evaluateTerm, normalizeTerm, hUpper, isMatch_between]

/-- The check of a term finds a range for it. -/
theorem validate_normalize (h : term.Formed) :
    evaluateTerm term v false = if (normalizeTerm term).isSome then some true else none := by
  obtain ⟨operation, parsed, components, wildcard⟩ := term
  cases wildcard with
  | true =>
      obtain rfl : operation = .exact := (h.wildcard rfl).1
      simp [evaluateTerm, normalizeTerm, validateUpperBound]
  | false => cases operation <;> simp [evaluateTerm, normalizeTerm, validateUpperBound]

theorem tryUpperBound_some {operation : Operation} {lower upper : Version} {components : Nat} {wildcard : Bool}
    (h : tryUpperBound operation lower components wildcard = some upper) :
    ∃ index, increment operation lower components wildcard = some index ∧ lower.get index ≠ 65535 ∧
      upper = (lower.set index (lower.get index + 1)).clearAfter index := by
  unfold tryUpperBound at h
  cases hIndex : increment operation lower components wildcard with
  | none => simp [hIndex] at h
  | some index =>
      simp only [hIndex, Option.bind_eq_bind, Option.bind_some] at h
      split_ifs at h with hRoom
      cases h
      exact ⟨index, rfl, hRoom, rfl⟩

/-- The component that a caret raises is the first one that is not zero, or the last one given. -/
theorem leading_spec (lower : Version) {components : Nat} (h : 2 ≤ components) :
    ∃ index, ((List.range components).find? fun index => lower.get index ≠ 0).getD (components - 1) = index ∧
      index < components ∧ (∀ j < index, lower.get j = 0) ∧ (lower.get index = 0 → index = components - 1) := by
  cases hFound : (List.range components).find? fun index => lower.get index ≠ 0 with
  | none =>
      refine ⟨components - 1, rfl, by omega, ?_, fun _ => rfl⟩
      intro j hj
      have hZero := List.find?_eq_none.1 hFound j (List.mem_range.2 (by omega))
      simpa using hZero
  | some index =>
      obtain ⟨hNonzero, hInside, hBefore⟩ := List.find?_range_eq_some.1 hFound
      refine ⟨index, rfl, List.mem_range.1 hInside, ?_, ?_⟩
      · intro j hj
        simpa using hBefore j hj
      · intro hZero
        simp [hZero] at hNonzero

/-- A version with zeros in place of some components is not above. -/
theorem number_le_of_zeros {lower : Version} (h : ∀ i < 4, lower.get i = v.get i ∨ lower.get i = 0) : lower.number ≤ v.number := by
  have hMajor := h 0 (by decide)
  have hMinor := h 1 (by decide)
  have hPatch := h 2 (by decide)
  have hRevision := h 3 (by decide)
  have hZero : (0 : UInt16).toNat = 0 := rfl
  simp only [Version.get, ← UInt16.toNat_inj, hZero] at hMajor hMinor hPatch hRevision
  unfold Version.number
  omega

/-- The range of a term with a raised component. -/
theorem raised_iff {lower : Version} {index : Nat} (hIndex : index < 4) (hRoom : lower.get index ≠ 65535) :
    Range.isMatch ⟨some lower, true, some ((lower.set index (lower.get index + 1)).clearAfter index), false⟩ v = true ↔
      v.compareTo lower ≠ .lt ∧ ∀ i ≤ index, v.get i = lower.get i := by
  rw [isMatch_between, decide_eq_true_eq]
  refine and_congr_right fun hLow => ?_
  rw [ne_eq, Version.compareTo_lt, not_lt] at hLow
  rw [Version.compareTo_lt, bounded_iff hIndex hRoom hLow]

/-- The range of a term has the versions that the term admits. -/
theorem admits_iff (h : term.Formed) {range : Range} (hRange : normalizeTerm term = some range) :
    range.isMatch v = true ↔ term.Admits v := by
  obtain ⟨operation, parsed, components, wildcard⟩ := term
  have hTwo : 2 ≤ components := h.components.1
  have hFour : components ≤ 4 := h.components.2
  cases wildcard with
  | true =>
      obtain ⟨hOperation, hZero⟩ := h.wildcard rfl
      obtain rfl : operation = .exact := hOperation
      obtain ⟨upper, hUpper, rfl⟩ := Option.map_eq_some_iff.1 (show (tryUpperBound _ _ _ _).map _ = some range from hRange)
      obtain ⟨index, hIndex, hRoom, rfl⟩ := tryUpperBound_some hUpper
      obtain rfl : components - 2 = index := Option.some.inj hIndex
      rw [raised_iff (by omega) hRoom]
      simp only [Term.Admits, if_true]
      constructor
      · intro hKept i hi
        exact hKept.2 i (by omega)
      · intro hKept
        refine ⟨?_, fun i hi => hKept i (by omega)⟩
        rw [ne_eq, Version.compareTo_lt, not_lt]
        apply number_le_of_zeros
        intro i hi
        by_cases hGiven : i < components - 1
        · exact .inl (hKept i hGiven).symm
        · exact .inr (hZero i (by simpa using hGiven) hi)
  | false =>
      cases operation with
      | exact =>
          obtain rfl := Option.some.inj hRange
          rw [isMatch_exact, decide_eq_true_eq, Version.compareTo_eq_eq, Version.number_inj]
          rfl
      | less =>
          obtain rfl := Option.some.inj hRange
          simp [isMatch_below, Term.Admits]
      | lessOrEqual =>
          obtain rfl := Option.some.inj hRange
          simp [isMatch_below, Term.Admits, le_iff_lt_or_eq]
      | greater =>
          obtain rfl := Option.some.inj hRange
          simp [isMatch_above, Term.Admits]
      | greaterOrEqual =>
          obtain rfl := Option.some.inj hRange
          simp [isMatch_above, Term.Admits]
          omega
      | caret =>
          obtain ⟨upper, hUpper, rfl⟩ := Option.map_eq_some_iff.1 (show (tryUpperBound _ _ _ _).map _ = some range from hRange)
          obtain ⟨index, hIndex, hRoom, rfl⟩ := tryUpperBound_some hUpper
          obtain ⟨leading, hLeading, hInside, hBefore, hLast⟩ := leading_spec parsed hTwo
          obtain rfl : leading = index := hLeading ▸ Option.some.inj hIndex
          rw [raised_iff (by omega) hRoom]
          refine and_congr_right fun _ => ⟨?_, ?_⟩
          · intro hKept i hi hZeros
            apply hKept i
            by_contra hBehind
            have hZero := hLast (hZeros leading (not_le.1 hBehind))
            dsimp only at hi
            omega
          · intro hKept i hi
            exact hKept i (by dsimp only; omega) fun j hj => hBefore j (by omega)
      | tilde =>
          obtain ⟨upper, hUpper, rfl⟩ := Option.map_eq_some_iff.1 (show (tryUpperBound _ _ _ _).map _ = some range from hRange)
          obtain ⟨index, hIndex, hRoom, rfl⟩ := tryUpperBound_some hUpper
          obtain rfl : (if components = 2 then 0 else components - 2) = index := Option.some.inj hIndex
          rw [raised_iff (by split_ifs <;> omega) hRoom]
          refine and_congr_right fun _ => ⟨?_, ?_⟩
          · intro hKept i hi hGiven
            apply hKept i
            dsimp only at hi hGiven
            split_ifs <;> omega
          · intro hKept i hi
            refine hKept i ?_ ?_ <;> dsimp only <;> split_ifs at hi <;> omega

end Admits

end MicroCard.Versions
