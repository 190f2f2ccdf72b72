import MicroCard.Versions.Terms

/-! The two loops over a constraint, and the card's ranges, against the grammar: which texts
have ranges, and which versions these match. -/
namespace MicroCard.Versions

open Spans

section Rendered

def digit (n : Nat) : UInt16 := UInt16.ofNat (48 + n)

/-- The decimal number of a component. -/
def decimal (n : Nat) : Text :=
  if n < 10 then [digit n]
  else if n < 100 then [digit (n / 10), digit (n % 10)]
  else if n < 1000 then [digit (n / 100), digit (n / 10 % 10), digit (n % 10)]
  else if n < 10000 then [digit (n / 1000), digit (n / 100 % 10), digit (n / 10 % 10), digit (n % 10)]
  else [digit (n / 10000), digit (n / 1000 % 10), digit (n / 100 % 10), digit (n / 10 % 10), digit (n % 10)]

/-- A version with its four components. -/
def Version.text (v : Version) : Text :=
  decimal v.major.toNat ++ unit '.' :: (decimal v.minor.toNat ++ unit '.' :: (decimal v.patch.toNat ++ unit '.' ::
    decimal v.revision.toNat))

theorem readDigits_digit {value d : Nat} (hDigit : d < 10) (hSmall : value * 10 + d ≤ 65535) (rest : Text) :
    readDigits value (digit d :: rest) = readDigits (value * 10 + d) rest := by
  have hUnit : (digit d).toNat = 48 + d := by
    rw [digit, UInt16.toNat_ofNat']
    omega
  have hUnits : (unit '0').toNat = 48 ∧ (unit '9').toNat = 57 := by decide
  have hIs : unit '0' ≤ digit d ∧ digit d ≤ unit '9' := by
    rw [UInt16.le_iff_toNat_le, UInt16.le_iff_toNat_le]
    omega
  rw [readDigits, if_pos hIs, hUnit, hUnits.1]
  have hValue : value * 10 + (48 + d) - 48 = value * 10 + d := by omega
  dsimp only
  rw [hValue, if_neg (by omega)]

/-- Digits without a zero in front are a component. -/
theorem readComponent_digits {first : UInt16} {word rest : Text} {value : Nat} (hFirst : word = [] ∨ first ≠ unit '0')
    (h : readDigits 0 (first :: word ++ rest) = some (value, rest)) :
    readComponent (first :: word ++ rest) = some (UInt16.ofNat value, rest) := by
  have hTaken : (first :: word ++ rest).length - rest.length = word.length + 1 := by
    rw [List.length_append, Nat.add_sub_cancel, List.length_cons]
  simp only [readComponent, h, Option.bind_eq_bind, Option.bind_some, hTaken]
  rw [if_neg]
  rintro (hNone | ⟨hMore, hZero⟩)
  · omega
  · rcases hFirst with rfl | hNonzero
    · exact absurd hMore (by decide)
    · exact hNonzero (Option.some.inj hZero)

/-- A decimal number is read back. -/
theorem readComponent_decimal (n : UInt16) {rest : Text} (hRest : NoDigit rest) :
    readComponent (decimal n.toNat ++ rest) = some (n, rest) := by
  have hBound := n.toNat_lt
  have hBack : UInt16.ofNat n.toNat = n := UInt16.ofNat_toNat
  have hLeading {d : Nat} (hNonzero : d ≠ 0) (hDigit : d < 10) : digit d ≠ unit '0' := by
    rw [ne_eq, ← UInt16.toNat_inj, digit, UInt16.toNat_ofNat']
    have : (unit '0').toNat = 48 := by decide
    omega
  generalize n.toNat = m at *
  rw [← hBack]
  have hStop {value : Nat} (hValue : value = m) : readDigits value rest = some (m, rest) :=
    hValue ▸ readDigits_stop hRest value
  unfold decimal
  split_ifs with hOne hTwo hThree hFour
  · apply readComponent_digits (.inl rfl)
    simp only [List.cons_append, List.nil_append]
    rw [readDigits_digit (by omega) (by omega)]
    exact hStop (by omega)
  · apply readComponent_digits (.inr (hLeading (by omega) (by omega)))
    simp only [List.cons_append, List.nil_append]
    rw [readDigits_digit (by omega) (by omega), readDigits_digit (by omega) (by omega)]
    exact hStop (by omega)
  · apply readComponent_digits (.inr (hLeading (by omega) (by omega)))
    simp only [List.cons_append, List.nil_append]
    rw [readDigits_digit (by omega) (by omega), readDigits_digit (by omega) (by omega), readDigits_digit (by omega) (by omega)]
    exact hStop (by omega)
  · apply readComponent_digits (.inr (hLeading (by omega) (by omega)))
    simp only [List.cons_append, List.nil_append]
    rw [readDigits_digit (by omega) (by omega), readDigits_digit (by omega) (by omega), readDigits_digit (by omega) (by omega),
      readDigits_digit (by omega) (by omega)]
    exact hStop (by omega)
  · apply readComponent_digits (.inr (hLeading (by omega) (by omega)))
    simp only [List.cons_append, List.nil_append]
    rw [readDigits_digit (by omega) (by omega), readDigits_digit (by omega) (by omega), readDigits_digit (by omega) (by omega),
      readDigits_digit (by omega) (by omega), readDigits_digit (by omega) (by omega)]
    exact hStop (by omega)

theorem decimal_length (n : Nat) : 1 ≤ (decimal n).length ∧ (decimal n).length ≤ 5 := by
  unfold decimal
  split_ifs <;> simp

theorem noDigit_dot (rest : Text) : NoDigit (unit '.' :: rest) := by
  intro c hc
  obtain rfl : unit '.' = c := Option.some.inj hc
  decide

/-- A version is read back from its text. -/
theorem tryReadVersion_text (v : Version) : tryReadVersion (some v.text) = some v := by
  obtain ⟨major, minor, patch, revision⟩ := v
  have hLength : (Version.text ⟨major, minor, patch, revision⟩).length ≤ 31 := by
    have := decimal_length major.toNat
    have := decimal_length minor.toNat
    have := decimal_length patch.toNat
    have := decimal_length revision.toNat
    simp only [Version.text, List.length_append, List.length_cons]
    omega
  have hSome : Version.text ⟨major, minor, patch, revision⟩ ≠ [] := by
    simp [Version.text]
  have hNone : NoDigit [] := fun c hc => nomatch hc
  have hRevision : readComponent (decimal revision.toNat) = some (revision, []) := by
    have hRead := readComponent_decimal revision hNone
    rwa [List.append_nil] at hRead
  rw [tryReadVersion]
  simp only [Option.bind_eq_bind, Option.bind_some]
  rw [if_neg (by simp only [not_or, not_lt]; exact ⟨hSome, hLength⟩), Version.text]
  simp [readVersionFrom, readComponent_decimal _ (noDigit_dot _), hRevision, Version.set, Version.zero]

end Rendered

section Evaluation

variable {candidate : Version} {evaluate groupHasTerm groupMatches matched : Bool} {text rest after : Text} {first : UInt16}
  {term : Term}

theorem evaluateFrom_end (h : skipSeparators text = []) :
    evaluateFrom candidate evaluate groupHasTerm groupMatches matched text =
      if groupHasTerm then some (matched || groupMatches) else none := by
  rw [evaluateFrom]
  split
  · rfl
  · next hText => rw [h] at hText; cases hText

theorem evaluateFrom_bars (h : skipSeparators text = first :: rest) (hBars : atOr (first :: rest) = true) :
    evaluateFrom candidate evaluate groupHasTerm groupMatches matched text =
      if groupHasTerm then evaluateFrom candidate evaluate false true (matched || groupMatches) (rest.drop 1) else none := by
  rw [evaluateFrom]
  split
  · next hText => rw [h] at hText; cases hText
  · next hText =>
      rw [h] at hText
      obtain ⟨rfl, rfl⟩ := List.cons.inj hText
      rw [if_pos hBars]

theorem evaluateFrom_term (h : skipSeparators text = first :: rest) (hBars : ¬atOr (first :: rest) = true)
    (hTerm : scanTerm first rest = some (term, after)) :
    evaluateFrom candidate evaluate groupHasTerm groupMatches matched text =
      (evaluateTerm term candidate evaluate).bind fun termMatches =>
        if separated after then evaluateFrom candidate evaluate true (groupMatches && termMatches) matched after else none := by
  rw [evaluateFrom]
  split
  · next hText => rw [h] at hText; cases hText
  · next hText =>
      rw [h] at hText
      obtain ⟨rfl, rfl⟩ := List.cons.inj hText
      rw [if_neg hBars]
      split
      · next hNone => rw [hTerm] at hNone; cases hNone
      · next hSome =>
          rw [hTerm] at hSome
          cases hSome
          cases evaluateTerm term candidate evaluate <;> rfl

theorem evaluateFrom_none (h : skipSeparators text = first :: rest) (hBars : ¬atOr (first :: rest) = true)
    (hTerm : scanTerm first rest = none) :
    evaluateFrom candidate evaluate groupHasTerm groupMatches matched text = none := by
  rw [evaluateFrom]
  split
  · next hText => rw [h] at hText; cases hText
  · next hText =>
      rw [h] at hText
      obtain ⟨rfl, rfl⟩ := List.cons.inj hText
      rw [if_neg hBars]
      split
      · rfl
      · next hSome => rw [hTerm] at hSome; cases hSome

/-- Whether a candidate passes the terms of an alternative. -/
def passes (candidate : Version) (evaluate : Bool) (group : List Term) : Bool :=
  group.all fun term => evaluateTerm term candidate evaluate = some true

def known (candidate : Version) (evaluate : Bool) (group : List Term) : Bool :=
  group.all fun term => (evaluateTerm term candidate evaluate).isSome

/-- The evaluation follows the alternatives that the grammar reads. -/
theorem evaluateFrom_parse {group : List Term} (hHasTerm : groupHasTerm = true ↔ group ≠ [])
    (hKnown : known candidate evaluate group = true) (hMatches : groupMatches = passes candidate evaluate group) :
    evaluateFrom candidate evaluate groupHasTerm groupMatches matched text =
      (parseFrom group text).bind fun groups =>
        if groups.all (known candidate evaluate) then some (matched || groups.any (passes candidate evaluate)) else none := by
  induction hLength : text.length using Nat.strong_induction_on generalizing group groupHasTerm groupMatches matched text with
  | _ n ih =>
    cases hText : skipSeparators text with
    | nil =>
        rw [evaluateFrom_end hText, parseFrom_end hText]
        by_cases hNone : group = []
        · rw [if_pos hNone, if_neg fun h => hHasTerm.1 h hNone]
          rfl
        · rw [if_neg hNone, if_pos (hHasTerm.2 hNone)]
          simp [hKnown, hMatches]
    | cons first rest =>
        obtain ⟨separators, -, rfl⟩ := separators_split hText
        rw [List.length_append, List.length_cons] at hLength
        by_cases hBars : atOr (first :: rest) = true
        · rw [evaluateFrom_bars hText hBars, parseFrom_bars hText hBars]
          by_cases hNone : group = []
          · rw [if_pos hNone, if_neg fun h => hHasTerm.1 h hNone]
            rfl
          · have hShorter : (rest.drop 1).length < n := by
              rw [List.length_drop]
              omega
            have hOthers := @ih (rest.drop 1).length hShorter false true (matched || groupMatches) (rest.drop 1) []
              (by simp) rfl rfl rfl
            rw [if_neg hNone, if_pos (hHasTerm.2 hNone), hOthers]
            cases parseFrom [] (rest.drop 1) with
            | none => rfl
            | some groups => simp [hKnown, hMatches, Bool.or_assoc]
        · cases hTerm : scanTerm first rest with
          | none =>
              rw [evaluateFrom_none hText hBars hTerm, parseFrom_none hText hBars hTerm]
              rfl
          | some found =>
              obtain ⟨term, after⟩ := found
              have hShorter := scanTerm_length hTerm
              rw [evaluateFrom_term hText hBars hTerm, parseFrom_term hText hBars hTerm]
              by_cases hSeparated : separated after = true
              · simp only [hSeparated, if_true]
                cases hValue : evaluateTerm term candidate evaluate with
                | none =>
                    cases hParsed : parseFrom (group ++ [term]) after with
                    | none => rfl
                    | some groups =>
                        obtain ⟨terms, others, -, -, rfl⟩ := parse_sound hParsed
                        have hUnknown : known candidate evaluate (group ++ [term] ++ terms) = false := by
                          rw [known, List.all_append, List.all_append, List.all_cons, hValue]
                          simp
                        rw [Option.bind_none, Option.bind_some, List.all_cons, hUnknown]
                        rfl
                | some termMatches =>
                    apply ih after.length (by omega) (by simp) _ _ rfl
                    · rw [known, List.all_append, ← known, hKnown, List.all_cons, hValue]
                      rfl
                    · simp [passes, hValue, hMatches]
              · rw [if_neg hSeparated]
                cases evaluateTerm term candidate evaluate with
                | none => rfl
                | some termMatches => exact if_neg hSeparated

end Evaluation

section Normalization

/-- The range of a term that has one. -/
def Term.extent (term : Term) : Range := (normalizeTerm term).getD .whole

def ranged (group : List Term) : Bool := group.all fun term => (normalizeTerm term).isSome

/-- The range of an alternative. -/
def groupRange (group : List Term) : Range := (group.map Term.extent).foldl intersect .whole

/-- The alternatives that have a range which is not empty. -/
def kept (group : List Term) : Bool := ranged group && !empty (groupRange group)

variable {haveTerm : Bool} {range : Range} {ranges : List Range} {text rest after : Text} {first : UInt16} {term : Term}

theorem normalizeFrom_end (h : skipSeparators text = []) : normalizeFrom haveTerm range ranges text =
    if ¬haveTerm ∨ empty range then none else if 8 < ranges.length + 1 then none else some (ranges ++ [range]) := by
  rw [normalizeFrom]
  split
  · rfl
  · next hText => rw [h] at hText; cases hText

theorem normalizeFrom_bars (h : skipSeparators text = first :: rest) (hBars : atOr (first :: rest) = true) :
    normalizeFrom haveTerm range ranges text =
      if ¬haveTerm ∨ empty range then none
      else if 8 < ranges.length + 1 then none else normalizeFrom false .whole (ranges ++ [range]) (rest.drop 1) := by
  rw [normalizeFrom]
  split
  · next hText => rw [h] at hText; cases hText
  · next hText =>
      rw [h] at hText
      obtain ⟨rfl, rfl⟩ := List.cons.inj hText
      rw [if_pos hBars]

theorem normalizeFrom_term (h : skipSeparators text = first :: rest) (hBars : ¬atOr (first :: rest) = true)
    (hTerm : scanTerm first rest = some (term, after)) : normalizeFrom haveTerm range ranges text =
      (normalizeTerm term).bind fun termRange =>
        if separated after then normalizeFrom true (intersect range termRange) ranges after else none := by
  rw [normalizeFrom]
  split
  · next hText => rw [h] at hText; cases hText
  · next hText =>
      rw [h] at hText
      obtain ⟨rfl, rfl⟩ := List.cons.inj hText
      rw [if_neg hBars]
      split
      · next hNone => rw [hTerm] at hNone; cases hNone
      · next hSome =>
          rw [hTerm] at hSome
          cases hSome
          cases normalizeTerm term <;> rfl

theorem normalizeFrom_none (h : skipSeparators text = first :: rest) (hBars : ¬atOr (first :: rest) = true)
    (hTerm : scanTerm first rest = none) : normalizeFrom haveTerm range ranges text = none := by
  rw [normalizeFrom]
  split
  · next hText => rw [h] at hText; cases hText
  · next hText =>
      rw [h] at hText
      obtain ⟨rfl, rfl⟩ := List.cons.inj hText
      rw [if_neg hBars]
      split
      · rfl
      · next hSome => rw [hTerm] at hSome; cases hSome

/-- The ranges follow the alternatives that the grammar reads. -/
theorem normalizeFrom_parse {group : List Term} (hHaveTerm : haveTerm = true ↔ group ≠ []) (hRanged : ranged group = true)
    (hRange : range = groupRange group) (hFew : ranges.length ≤ 8) :
    normalizeFrom haveTerm range ranges text =
      (parseFrom group text).bind fun groups =>
        if groups.all kept ∧ ranges.length + groups.length ≤ 8 then some (ranges ++ groups.map groupRange) else none := by
  induction hLength : text.length using Nat.strong_induction_on generalizing group haveTerm range ranges text with
  | _ n ih =>
    cases hText : skipSeparators text with
    | nil =>
        rw [normalizeFrom_end hText, parseFrom_end hText]
        by_cases hNone : group = []
        · rw [if_pos hNone, if_pos (.inl fun h => hHaveTerm.1 h hNone)]
          rfl
        · have hHas := hHaveTerm.2 hNone
          rw [if_neg hNone, Option.bind_some, List.all_cons, List.all_nil, Bool.and_true, kept, hRanged, Bool.true_and, ← hRange]
          by_cases hEmpty : empty range = true
          · rw [if_pos (.inr hEmpty), if_neg (by simp [hEmpty])]
          · rw [if_neg (by simp [hHas, hEmpty])]
            by_cases hMany : 8 < ranges.length + 1
            · rw [if_pos hMany, if_neg]
              simp only [List.length_singleton, not_and, not_le]
              exact fun _ => hMany
            · rw [if_neg hMany, if_pos, List.map_singleton, ← hRange]
              simpa [hEmpty] using hMany
    | cons first rest =>
        obtain ⟨separators, -, rfl⟩ := separators_split hText
        rw [List.length_append, List.length_cons] at hLength
        by_cases hBars : atOr (first :: rest) = true
        · rw [normalizeFrom_bars hText hBars, parseFrom_bars hText hBars]
          by_cases hNone : group = []
          · rw [if_pos hNone, if_pos (.inl fun h => hHaveTerm.1 h hNone)]
            rfl
          · have hHas := hHaveTerm.2 hNone
            have hShorter : (rest.drop 1).length < n := by
              rw [List.length_drop]
              omega
            rw [if_neg hNone]
            by_cases hEmpty : empty range = true
            · rw [if_pos (.inr hEmpty)]
              cases parseFrom [] (rest.drop 1) with
              | none => rfl
              | some groups =>
                  rw [Option.map_some, Option.bind_some, if_neg]
                  simp [kept, ← hRange, hEmpty]
            · rw [if_neg (by simp [hHas, hEmpty])]
              by_cases hMany : 8 < ranges.length + 1
              · rw [if_pos hMany]
                cases parseFrom [] (rest.drop 1) with
                | none => rfl
                | some groups =>
                    rw [Option.map_some, Option.bind_some, if_neg]
                    rw [List.length_cons]
                    omega
              · have hOthers := @ih (rest.drop 1).length hShorter false .whole (ranges ++ [range]) (rest.drop 1) []
                  (by simp) rfl rfl (by rw [List.length_append, List.length_singleton]; omega) rfl
                rw [if_neg hMany, hOthers]
                cases parseFrom [] (rest.drop 1) with
                | none => rfl
                | some groups =>
                    have hKept : kept group = true := by
                      rw [kept, hRanged, ← hRange]
                      simpa using hEmpty
                    rw [Option.map_some, Option.bind_some, Option.bind_some, List.all_cons, hKept, Bool.true_and, List.map_cons,
                      List.length_append, List.length_singleton, List.length_cons, List.append_assoc, List.singleton_append,
                      ← hRange, Nat.add_assoc, Nat.add_comm 1]
        · cases hTerm : scanTerm first rest with
          | none =>
              rw [normalizeFrom_none hText hBars hTerm, parseFrom_none hText hBars hTerm]
              rfl
          | some found =>
              obtain ⟨term, after⟩ := found
              have hShorter := scanTerm_length hTerm
              rw [normalizeFrom_term hText hBars hTerm, parseFrom_term hText hBars hTerm]
              by_cases hSeparated : separated after = true
              · simp only [hSeparated, if_true]
                cases hValue : normalizeTerm term with
                | none =>
                    cases hParsed : parseFrom (group ++ [term]) after with
                    | none => rfl
                    | some groups =>
                        obtain ⟨terms, others, -, -, rfl⟩ := parse_sound hParsed
                        have hUnknown : kept (group ++ [term] ++ terms) = false := by
                          rw [kept, ranged, List.all_append, List.all_append, List.all_cons, hValue]
                          simp
                        rw [Option.bind_none, Option.bind_some, List.all_cons, hUnknown, if_neg]
                        simp
                | some termRange =>
                    have hExtent : term.extent = termRange := by
                      rw [Term.extent, hValue]
                      rfl
                    apply ih after.length (by omega) (by simp) _ _ hFew rfl
                    · rw [ranged, List.all_append, ← ranged, hRanged, List.all_cons, hValue]
                      rfl
                    · rw [groupRange, List.map_append, List.foldl_append, ← groupRange, ← hRange, List.map_singleton,
                        List.foldl_cons, List.foldl_nil, hExtent]
              · rw [if_neg hSeparated]
                cases normalizeTerm term with
                | none => rfl
                | some termRange => exact if_neg hSeparated

end Normalization

section Consistent

/-- A lower bound lies below an upper bound, or meets it when both belong to their ranges. -/
def Range.Clears (lower upper : Range) : Prop :=
  ∀ minimum ∈ lower.minimum, ∀ maximum ∈ upper.maximum, minimum.compareTo maximum = .lt ∨
    minimum.compareTo maximum = .eq ∧ lower.minimumInclusive = true ∧ upper.maximumInclusive = true

/-- No lower bound of an alternative crosses an upper bound. -/
def Consistent (group : List Term) : Prop := ∀ term ∈ group, ∀ other ∈ group, term.extent.Clears other.extent

theorem clears_iff {lower upper : Range} : lower.Clears upper ↔ lower.lo < upper.hi := by
  obtain ⟨minimum, minimumInclusive, -, -⟩ := lower
  obtain ⟨-, -, maximum, maximumInclusive⟩ := upper
  simp only [Range.Clears, Range.lo, Range.hi]
  cases minimum with
  | none =>
      cases maximum with
      | none => simp [farthest]
      | some maximum => cases maximumInclusive <;> simp
  | some minimum =>
      have hNumber := minimum.number_lt
      cases maximum with
      | none => cases minimumInclusive <;> simp [farthest] <;> omega
      | some maximum => cases minimumInclusive <;> cases maximumInclusive <;> simp <;> omega

theorem groupRange_span (group : List Term) :
    (groupRange group).span = meetAll Range.whole.span (group.map fun term => term.extent.span) := by
  have hFold (ranges : List Range) (start : Range) :
      (ranges.foldl intersect start).span = meetAll start.span (ranges.map Range.span) := by
    induction ranges generalizing start with
    | nil => rfl
    | cons range rest ih =>
        rw [List.foldl_cons, ih, intersect_span]
        rfl
  rw [groupRange, hFold, List.map_map]
  rfl

theorem normalizeTerm_formed {term : Term} {range : Range} (h : normalizeTerm term = some range) : range.Formed := by
  unfold normalizeTerm at h
  dsimp only at h
  split_ifs at h
  · obtain ⟨upper, -, rfl⟩ := Option.map_eq_some_iff.1 h
    exact ⟨fun hNone => (nomatch hNone), fun _ => rfl⟩
  · split at h <;> cases h <;> exact ⟨by simp, by simp⟩

theorem extent_formed (term : Term) : term.extent.Formed := by
  unfold Term.extent
  cases hRange : normalizeTerm term with
  | none => exact ⟨fun _ => rfl, fun _ => rfl⟩
  | some range => exact normalizeTerm_formed hRange

theorem groupRange_formed (group : List Term) : (groupRange group).Formed := by
  have hFold (ranges : List Range) (start : Range) (hStart : start.Formed) (h : ∀ range ∈ ranges, range.Formed) :
      (ranges.foldl intersect start).Formed := by
    induction ranges generalizing start with
    | nil => exact hStart
    | cons range rest ih =>
        obtain ⟨hFirst, hRest⟩ := List.forall_mem_cons.1 h
        exact ih _ (hStart.intersect hFirst) hRest
  apply hFold
  · exact ⟨fun _ => rfl, fun _ => rfl⟩
  · intro range hRange
    obtain ⟨term, -, rfl⟩ := List.mem_map.1 hRange
    exact extent_formed term

/-- The range of an alternative is not empty exactly when no two of its bounds cross. -/
theorem kept_iff {group : List Term} : kept group = true ↔ ranged group = true ∧ Consistent group := by
  rw [kept, Bool.and_eq_true, Bool.not_eq_true', empty_iff, groupRange_span, meetAll_proper]
  refine and_congr_right fun _ => ?_
  have hLow (term : Term) : term.extent.lo < farthest := (@clears_iff term.extent .whole).1 fun _ _ _ h => nomatch h
  have hHigh (term : Term) : 0 < term.extent.hi := (@clears_iff .whole term.extent).1 fun _ h => nomatch h
  constructor
  · intro h term hTerm other hOther
    exact clears_iff.2 (h _ (List.mem_cons_of_mem _ (List.mem_map_of_mem hTerm)) _
      (List.mem_cons_of_mem _ (List.mem_map_of_mem hOther)))
  · intro h s hs t ht
    rcases List.mem_cons.1 hs with rfl | hFirst
    · rcases List.mem_cons.1 ht with rfl | hSecond
      · exact Nat.succ_pos _
      · obtain ⟨other, -, rfl⟩ := List.mem_map.1 hSecond
        exact hHigh other
    · obtain ⟨term, hTerm, rfl⟩ := List.mem_map.1 hFirst
      rcases List.mem_cons.1 ht with rfl | hSecond
      · exact hLow term
      · obtain ⟨other, hOther, rfl⟩ := List.mem_map.1 hSecond
        exact clears_iff.1 (h term hTerm other hOther)

end Consistent

section Agreement

/-- What `Normalize` does with a text that the grammar reads. -/
theorem normalize_parse (sorter : Sorter) {text : Text} (hRead : refusedAtOnce text = false) :
    normalize sorter (some text) = (parseFrom [] text).bind fun groups =>
      if groups.all kept ∧ groups.length ≤ 8 then
        match sorter.run (groups.map groupRange) with
        | [] => some []
        | first :: rest => some (merge first rest)
      else none := by
  simp only [normalize, Option.bind_eq_bind, Option.bind_some, hRead, Bool.false_eq_true, if_false]
  rw [@normalizeFrom_parse false .whole [] text [] (by simp) rfl rfl (Nat.zero_le _)]
  cases parseFrom [] text with
  | none => rfl
  | some groups =>
      simp only [Option.bind_some, List.length_nil, Nat.zero_add, List.nil_append]
      split_ifs <;> rfl

theorem tryEvaluate_parse {text : Text} (hRead : refusedAtOnce text = false) (candidate : Version) (evaluate : Bool) :
    tryEvaluate (some text) candidate evaluate = (parseFrom [] text).bind fun groups =>
      if groups.all (known candidate evaluate) then some (groups.any (passes candidate evaluate)) else none := by
  simp only [tryEvaluate, Option.bind_eq_bind, Option.bind_some, hRead, Bool.false_eq_true, if_false]
  rw [@evaluateFrom_parse candidate evaluate false true false text [] (by simp) rfl rfl]
  simp only [Bool.false_or]

theorem known_ranged {candidate : Version} {evaluate : Bool} {group : List Term} (hFormed : ∀ term ∈ group, term.Formed) :
    known candidate evaluate group = ranged group := by
  rw [known, ranged, Bool.eq_iff_iff, List.all_eq_true, List.all_eq_true]
  refine forall₂_congr fun term hTerm => ?_
  cases evaluate with
  | true => rw [evaluate_normalize (hFormed term hTerm), Option.isSome_map]
  | false =>
      rw [validate_normalize (hFormed term hTerm)]
      split_ifs with hSome <;> simp [hSome]

theorem passes_iff {candidate : Version} {group : List Term} (hFormed : ∀ term ∈ group, term.Formed)
    (hRanged : ranged group = true) :
    (passes candidate true group = true ↔ ∀ term ∈ group, term.Admits candidate) ∧
      (passes candidate true group = true ↔ (groupRange group).isMatch candidate = true) := by
  rw [ranged, List.all_eq_true] at hRanged
  have hTerm : ∀ term ∈ group, (evaluateTerm term candidate true = some true ↔ term.extent.isMatch candidate = true) ∧
      (term.extent.isMatch candidate = true ↔ term.Admits candidate) := by
    intro term hTerm
    obtain ⟨range, hRange⟩ := Option.isSome_iff_exists.1 (hRanged term hTerm)
    have hExtent : term.extent = range := by
      rw [Term.extent, hRange]
      rfl
    rw [evaluate_normalize (hFormed term hTerm), hRange, hExtent]
    exact ⟨Option.some_inj, admits_iff (hFormed term hTerm) hRange⟩
  have hPasses : passes candidate true group = true ↔ ∀ term ∈ group, term.extent.isMatch candidate = true := by
    rw [passes, List.all_eq_true]
    refine forall₂_congr fun term hMember => ?_
    rw [decide_eq_true_eq]
    exact (hTerm term hMember).1
  refine ⟨hPasses.trans (forall₂_congr fun term hMember => (hTerm term hMember).2), hPasses.trans ?_⟩
  rw [isMatch_iff, groupRange_span, covers_meetAll]
  have hWhole : Range.whole.span.Covers candidate.span := isMatch_iff.1 rfl
  rw [and_iff_right hWhole, List.forall_mem_map]
  exact forall₂_congr fun _ _ => isMatch_iff

/-- What the canonical ranges of ranges that are not empty are. -/
theorem merge_spec {first : Range} {rest : List Range} (hOrdered : (first :: rest).Pairwise fun left right => compareMinimum left right ≠ .gt)
    (hFormed : ∀ range ∈ first :: rest, range.Formed) (hProper : ∀ range ∈ first :: rest, range.span.Proper) :
    1 ≤ (merge first rest).length ∧ (merge first rest).length ≤ (first :: rest).length ∧
      (∀ range ∈ merge first rest, range.toCard.valid = true) ∧
      (merge first rest).IsChain (fun left right => left.toCard.strictlyBefore right.toCard = true) ∧
      ∀ v : Version, (∃ range ∈ merge first rest, range.isMatch v = true) ↔ ∃ range ∈ first :: rest, range.isMatch v = true := by
  obtain ⟨hFirstFormed, hRestFormed⟩ := List.forall_mem_cons.1 hFormed
  obtain ⟨hFirstProper, hRestProper⟩ := List.forall_mem_cons.1 hProper
  have hSpans := merge_span first rest
  have hLength := coalesce_length first.span (rest.map Range.span)
  rw [← hSpans, List.length_map, List.length_map] at hLength
  have hAllProper : ∀ range ∈ merge first rest, range.span.Proper := by
    intro range hRange
    have hEach := coalesce_proper hFirstProper (List.forall_mem_map.2 hRestProper)
    rw [← hSpans] at hEach
    exact hEach _ (List.mem_map_of_mem hRange)
  refine ⟨hLength.1, hLength.2, ?_, ?_, ?_⟩
  · intro range hRange
    exact (toCard_valid (merge_formed hFirstFormed hRestFormed range hRange)).2 (hAllProper range hRange)
  · have hChain := coalesce_before first.span (rest.map Range.span)
    rw [← hSpans, List.isChain_map] at hChain
    exact hChain.imp fun _ _ hBefore => toCard_before.2 hBefore
  · intro v
    have hStarts : Ordered (first.span :: rest.map Range.span) := by
      rw [← List.map_cons, Ordered, List.pairwise_map]
      exact hOrdered.imp fun h => compareMinimum_le.1 h
    have hCovers := covers_coalesce v.span_atomic hStarts
    rw [← hSpans, ← List.map_cons] at hCovers
    simp only [List.mem_map, exists_exists_and_eq_and] at hCovers
    simpa only [isMatch_iff] using hCovers

/-- The canonical ranges of alternatives that are kept. -/
theorem ranges_spec (sorter : Sorter) {text : Text} {groups : List (List Term)} {ranges : List Range}
    (hAlternatives : Alternatives text groups) (hKept : groups.all kept = true) (hFew : groups.length ≤ 8)
    (h : (match sorter.run (groups.map groupRange) with
      | [] => some []
      | first :: rest => some (merge first rest)) = some ranges) :
    1 ≤ ranges.length ∧ ranges.length ≤ 8 ∧ (∀ range ∈ ranges, range.toCard.valid = true) ∧
      ranges.IsChain (fun left right => left.toCard.strictlyBefore right.toCard = true) ∧
      ∀ v : Version, (∃ range ∈ ranges, range.isMatch v = true) ↔ ∃ group ∈ groups, ∀ term ∈ group, term.Admits v := by
  have hPerm := sorter.perm (groups.map groupRange)
  have hOrdered := sorter.ordered (groups.map groupRange)
  have hLength := hPerm.length_eq
  rw [List.length_map] at hLength
  have hSome : groups ≠ [] := by
    rintro rfl
    cases hAlternatives
  cases hSorted : sorter.run (groups.map groupRange) with
  | nil =>
      rw [hSorted] at hLength
      exact absurd (List.length_eq_zero_iff.1 hLength.symm) hSome
  | cons first rest =>
      rw [hSorted] at h hPerm hOrdered hLength
      obtain rfl := Option.some.inj h
      have hFormed : ∀ range ∈ first :: rest, range.Formed := by
        intro range hRange
        obtain ⟨group, -, rfl⟩ := List.mem_map.1 (hPerm.mem_iff.1 hRange)
        exact groupRange_formed group
      have hProper : ∀ range ∈ first :: rest, range.span.Proper := by
        intro range hRange
        obtain ⟨group, hGroup, rfl⟩ := List.mem_map.1 (hPerm.mem_iff.1 hRange)
        have hNonempty := List.all_eq_true.1 hKept group hGroup
        rw [kept, Bool.and_eq_true, Bool.not_eq_true'] at hNonempty
        exact empty_iff.1 hNonempty.2
      obtain ⟨hOne, hAtMost, hValid, hChain, hSame⟩ := merge_spec hOrdered hFormed hProper
      refine ⟨hOne, by omega, hValid, hChain, fun v => (hSame v).trans ?_⟩
      simp only [hPerm.mem_iff, List.mem_map, exists_exists_and_eq_and]
      refine exists_congr fun group => and_congr_right fun hGroup => ?_
      have hRanged := (kept_iff.1 (List.all_eq_true.1 hKept group hGroup)).1
      obtain ⟨hAdmits, hRange⟩ := @passes_iff v group (hAlternatives.formed group hGroup).2 hRanged
      exact hRange.symm.trans hAdmits

/-- The ranges that a constraint is normalised to are what the card asks for and match what the
constraint says; and there are ranges for a constraint that is valid, has at most eight
alternatives, and has no bounds that cross in any of them. -/
theorem constraints_agree (sorter : Sorter) (constraint : Option Text) :
    (∀ ranges, normalize sorter constraint = some ranges →
      1 ≤ ranges.length ∧ ranges.length ≤ 8 ∧ (∀ range ∈ ranges, range.toCard.valid = true) ∧
      ranges.IsChain (fun left right => left.toCard.strictlyBefore right.toCard = true) ∧
      ∃ text groups, constraint = some text ∧ Alternatives text groups ∧ ∀ v : Version,
        (ranges.any fun range => range.toCard.matchesVersion v.toArray) = isMatch constraint (some v.text) ∧
        (isMatch constraint (some v.text) = true ↔ ∃ group ∈ groups, ∀ term ∈ group, term.Admits v)) ∧
    ((normalize sorter constraint).isSome = true ↔ isValid constraint = true ∧
      ∃ text groups, constraint = some text ∧ Alternatives text groups ∧ groups.length ≤ 8 ∧
        ∀ group ∈ groups, Consistent group) := by
  cases constraint with
  | none => exact ⟨fun _ h => (nomatch h), iff_of_false Bool.false_ne_true fun h => absurd h.1 Bool.false_ne_true⟩
  | some text =>
      cases hRead : refusedAtOnce text with
      | true =>
          have hNone : normalize sorter (some text) = none := by simp [normalize, hRead]
          have hInvalid : isValid (some text) = false := by simp [isValid, tryEvaluate, hRead]
          rw [hNone, hInvalid]
          exact ⟨fun _ h => (nomatch h), iff_of_false Bool.false_ne_true fun h => absurd h.1 Bool.false_ne_true⟩
      | false =>
          cases hParsed : parseFrom [] text with
          | none =>
              have hNone : normalize sorter (some text) = none := by rw [normalize_parse sorter hRead, hParsed]; rfl
              have hInvalid : isValid (some text) = false := by rw [isValid, tryEvaluate_parse hRead, hParsed]; rfl
              rw [hNone, hInvalid]
              exact ⟨fun _ h => (nomatch h), iff_of_false Bool.false_ne_true fun h => absurd h.1 Bool.false_ne_true⟩
          | some groups =>
              have hAlternatives := parse_iff.1 hParsed
              have hUnique {text' : Text} {groups' : List (List Term)} (hText : some text = some text')
                  (h : Alternatives text' groups') : groups' = groups := by
                cases hText
                exact Option.some.inj ((parse_complete h).symm.trans hParsed)
              have hNormalized := normalize_parse sorter hRead
              rw [hParsed, Option.bind_some] at hNormalized
              have hKnown (candidate : Version) (evaluate : Bool) : groups.all (known candidate evaluate) = groups.all ranged := by
                rw [Bool.eq_iff_iff, List.all_eq_true, List.all_eq_true]
                refine forall₂_congr fun group hGroup => ?_
                rw [known_ranged (hAlternatives.formed group hGroup).2]
              have hEvaluated (candidate : Version) (evaluate : Bool) := tryEvaluate_parse hRead candidate evaluate
              simp only [hParsed, Option.bind_some, hKnown] at hEvaluated
              constructor
              · intro ranges hRanges
                rw [hNormalized] at hRanges
                split_ifs at hRanges with hKept
                obtain ⟨hOne, hEight, hValid, hChain, hSame⟩ := ranges_spec sorter hAlternatives hKept.1 hKept.2 hRanges
                refine ⟨hOne, hEight, hValid, hChain, text, groups, rfl, hAlternatives, fun v => ?_⟩
                have hRanged : groups.all ranged = true := by
                  rw [List.all_eq_true]
                  intro group hGroup
                  exact (kept_iff.1 (List.all_eq_true.1 hKept.1 group hGroup)).1
                have hMatch : isMatch (some text) (some v.text) = true ↔ ∃ group ∈ groups, ∀ term ∈ group, term.Admits v := by
                  rw [isMatch, tryReadVersion_text]
                  dsimp only
                  rw [hEvaluated v true, if_pos hRanged, decide_eq_true_eq, Option.some_inj, List.any_eq_true]
                  refine exists_congr fun group => and_congr_right fun hGroup => ?_
                  exact (passes_iff (hAlternatives.formed group hGroup).2 (List.all_eq_true.1 hRanged group hGroup)).1
                refine ⟨?_, hMatch⟩
                rw [Bool.eq_iff_iff, hMatch, ← hSame v, List.any_eq_true]
                refine exists_congr fun range => and_congr_right fun _ => ?_
                rw [toCard_matchesVersion]
              · have hAllKept : groups.all kept = true ↔ groups.all ranged = true ∧ ∀ group ∈ groups, Consistent group := by
                  rw [List.all_eq_true, List.all_eq_true, ← forall₂_and]
                  exact forall₂_congr fun group _ => kept_iff
                have hSome : (normalize sorter (some text)).isSome = true ↔ groups.all kept = true ∧ groups.length ≤ 8 := by
                  rw [hNormalized]
                  split_ifs with hKept
                  · refine iff_of_true ?_ hKept
                    split <;> rfl
                  · exact iff_of_false Bool.false_ne_true hKept
                have hValid : isValid (some text) = true ↔ groups.all ranged = true := by
                  rw [isValid, hEvaluated]
                  split_ifs with hRanged
                  · exact iff_of_true rfl hRanged
                  · exact iff_of_false Bool.false_ne_true hRanged
                rw [hSome, hAllKept, hValid, and_assoc]
                refine and_congr_right fun _ => ⟨?_, ?_⟩
                · rintro ⟨hConsistent, hFew⟩
                  exact ⟨text, groups, rfl, hAlternatives, hFew, hConsistent⟩
                · rintro ⟨text', groups', hText, hOther, hFew, hConsistent⟩
                  obtain rfl := hUnique hText hOther
                  exact ⟨hConsistent, hFew⟩

/-- A sort that keeps the order of ranges that compare as equal. -/
def Sorter.stable : Sorter where
  run ranges := ranges.mergeSort fun left right => decide (left.lo ≤ right.lo)
  perm ranges := List.mergeSort_perm ranges _
  ordered ranges := by
    refine (List.pairwise_mergeSort ?_ ?_ ranges).imp fun h => compareMinimum_le.2 (of_decide_eq_true h)
    · intro a b c hFirst hSecond
      exact decide_eq_true ((of_decide_eq_true hFirst).trans (of_decide_eq_true hSecond))
    · intro a b
      simpa using le_total a.lo b.lo

/-- A constraint that no version satisfies: below the first one. -/
def belowFirst : Text := [unit '<', unit '0', unit '.', unit '0']

/-- It has a range all the same. -/
theorem unsatisfiable_normalized : ¬∀ (sorter : Sorter) (constraint : Option Text),
    (normalize sorter constraint).isSome = true ↔ isValid constraint = true ∧
      ∃ text groups, constraint = some text ∧ Alternatives text groups ∧ groups.length ≤ 8 ∧
        ∀ group ∈ groups, ∃ v : Version, ∀ term ∈ group, term.Admits v := by
  intro hClaim
  have hTerm : scanTerm (unit '<') [unit '0', unit '.', unit '0'] = some (⟨.less, .zero, 2, false⟩, []) := by decide
  have hParsed : parseFrom [] belowFirst = some [[⟨.less, .zero, 2, false⟩]] := by
    rw [parseFrom_term rfl (by decide) hTerm, if_pos (by decide), parseFrom_end rfl]
    rfl
  have hNormalized : (normalize .stable (some belowFirst)).isSome = true := by
    rw [normalize_parse .stable (by decide), hParsed, Option.bind_some, if_pos (by decide)]
    split <;> rfl
  obtain ⟨-, text, groups, hText, hAlternatives, -, hSatisfiable⟩ := (hClaim .stable (some belowFirst)).1 hNormalized
  cases hText
  have hGroups := parse_complete hAlternatives
  rw [hParsed] at hGroups
  cases hGroups
  obtain ⟨v, hAdmits⟩ := hSatisfiable _ List.mem_cons_self
  have hBelow : v.compareTo .zero = .lt := hAdmits _ List.mem_cons_self
  rw [Version.compareTo_lt] at hBelow
  exact absurd hBelow (Nat.not_lt_zero _)

end Agreement

end MicroCard.Versions
