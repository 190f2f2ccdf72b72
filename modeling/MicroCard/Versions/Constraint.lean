import MicroCard.Library.Spans
import Mathlib.Data.Nat.Basic

/-! The version constraints of the build. A text is a list of UTF-16 units, and what is left
to read of it is a list as well. -/
namespace MicroCard.Versions

abbrev Text := List UInt16

def unit (c : Char) : UInt16 := UInt16.ofNat c.toNat

/-- `char.IsWhiteSpace`. -/
def isWhiteSpace (c : UInt16) : Bool :=
  9 ≤ c ∧ c ≤ 13 ∨ c = 0x20 ∨ c = 0x85 ∨ c = 0xa0 ∨ c = 0x1680 ∨ 0x2000 ≤ c ∧ c ≤ 0x200a ∨ c = 0x2028 ∨ c = 0x2029 ∨
    c = 0x202f ∨ c = 0x205f ∨ c = 0x3000

/-- The four components of `Version` and of `NormalizedVersion`. -/
structure Version where
  major : UInt16
  minor : UInt16
  patch : UInt16
  revision : UInt16
  deriving DecidableEq, Repr

namespace Version

def zero : Version := ⟨0, 0, 0, 0⟩

def get (v : Version) : Nat → UInt16
  | 0 => v.major
  | 1 => v.minor
  | 2 => v.patch
  | _ => v.revision

def set (v : Version) (index : Nat) (value : UInt16) : Version :=
  match index with
  | 0 => { v with major := value }
  | 1 => { v with minor := value }
  | 2 => { v with patch := value }
  | _ => { v with revision := value }

def clearAfter (v : Version) (index : Nat) : Version :=
  { v with
    revision := if index < 3 then 0 else v.revision
    patch := if index < 2 then 0 else v.patch
    minor := if index < 1 then 0 else v.minor }

def compareTo (v w : Version) : Ordering :=
  if compare v.major w.major ≠ .eq then compare v.major w.major
  else if compare v.minor w.minor ≠ .eq then compare v.minor w.minor
  else if compare v.patch w.patch ≠ .eq then compare v.patch w.patch
  else compare v.revision w.revision

end Version

section Scanning

/-- The decimal number in front of a text, while it fits a component. -/
def readDigits (value : Nat) : Text → Option (Nat × Text)
  | [] => some (value, [])
  | c :: rest =>
      if unit '0' ≤ c ∧ c ≤ unit '9' then
        let value := value * 10 + c.toNat - (unit '0').toNat
        if 65535 < value then none else readDigits value rest
      else some (value, c :: rest)

def readComponent (text : Text) : Option (UInt16 × Text) := do
  let (value, rest) ← readDigits 0 text
  let taken := text.length - rest.length
  if taken = 0 ∨ 1 < taken ∧ text.head? = some (unit '0') then none
  else some (UInt16.ofNat value, rest)

/-- The components of a version, of which so many may still come. -/
def readVersionFrom (version : Version) (components : Nat) : Nat → Text → Option Version
  | 0, _ => none
  | more + 1, text => do
      let (component, rest) ← readComponent text
      let version := version.set components component
      match rest with
      | [] => if 2 ≤ components + 1 then some version else none
      | c :: rest => if c = unit '.' then readVersionFrom version (components + 1) more rest else none

def tryReadVersion (text : Option Text) : Option Version := do
  let text ← text
  if text = [] ∨ 31 < text.length then none else readVersionFrom .zero 0 4 text

inductive Operation where
  | exact
  | less
  | lessOrEqual
  | greater
  | greaterOrEqual
  | caret
  | tilde
  deriving DecidableEq, Repr

/-- A term as it was read. A wildcard counts as a component. -/
structure Term where
  operation : Operation
  parsed : Version
  components : Nat
  wildcard : Bool
  deriving DecidableEq, Repr

/-- The rest of a comparison, which an equals sign belongs to. -/
def readComparison (plain orEqual : Operation) (rest : Text) : Operation × Text :=
  match rest with
  | [] => (plain, rest)
  | c :: after => if c = unit '=' then (orEqual, after) else (plain, rest)

def readOperation (first : UInt16) (rest : Text) : Operation × Text :=
  if first = unit '^' then (.caret, rest)
  else if first = unit '~' then (.tilde, rest)
  else if first = unit '=' then (.exact, rest)
  else if first = unit '<' then readComparison .less .lessOrEqual rest
  else if first = unit '>' then readComparison .greater .greaterOrEqual rest
  else (.exact, first :: rest)

def isWildcard (c : UInt16) : Bool := c = unit '*' ∨ c = unit 'x' ∨ c = unit 'X'

/-- One component, or a wildcard in its place. -/
def readPart (parsed : Version) (components : Nat) (text : Text) : Option (Version × Bool × Text) :=
  match text with
  | [] => none
  | c :: rest =>
      if isWildcard c then some (parsed, true, rest)
      else (readComponent text).map fun (component, rest) => (parsed.set components component, false, rest)

/-- The components of a term, of which so many may still come. -/
def readParts (operation : Operation) (parsed : Version) (components : Nat) : Nat → Text → Option (Term × Text)
  | 0, _ => none
  | more + 1, text => do
      let (parsed, wildcard, rest) ← readPart parsed components text
      match rest with
      | [] => some (⟨operation, parsed, components + 1, wildcard⟩, rest)
      | c :: after =>
          if c = unit '.' then
            if wildcard then none else readParts operation parsed (components + 1) more after
          else some (⟨operation, parsed, components + 1, wildcard⟩, rest)

/-- What `ReadTerm` and `ReadNormalizedTerm` read before they tell what the term means. -/
def scanTerm (first : UInt16) (rest : Text) : Option (Term × Text) := do
  let (operation, text) := readOperation first rest
  let (term, after) ← readParts operation .zero 0 4 text
  if term.components < 2 ∨ term.wildcard ∧ operation ≠ .exact then none else some (term, after)

end Scanning

section Meaning

/-- The component that the upper bound of a term raises. -/
def increment (operation : Operation) (lower : Version) (components : Nat) (wildcard : Bool) : Option Nat :=
  if wildcard then some (components - 2)
  else
    match operation with
    | .tilde => some (if components = 2 then 0 else components - 2)
    | .caret => some (((List.range components).find? fun index => lower.get index ≠ 0).getD (components - 1))
    | _ => none

def tryUpperBound (operation : Operation) (lower : Version) (components : Nat) (wildcard : Bool) : Option Version := do
  let increment ← increment operation lower components wildcard
  if lower.get increment = 65535 then none
  else some ((lower.set increment (lower.get increment + 1)).clearAfter increment)

def validateUpperBound (operation : Operation) (parsed : Version) (components : Nat) (wildcard : Bool) : Bool :=
  if ¬wildcard ∧ ¬(operation = .caret ∨ operation = .tilde) then true
  else (tryUpperBound operation parsed components wildcard).isSome

/-- `ReadTerm` after the text of the term. -/
def evaluateTerm (term : Term) (candidate : Version) (evaluate : Bool) : Option Bool :=
  if ¬evaluate then
    if validateUpperBound term.operation term.parsed term.components term.wildcard then some true else none
  else
    let comparison := candidate.compareTo term.parsed
    let bounded : Option Bool := do
      let upper ← tryUpperBound term.operation term.parsed term.components term.wildcard
      some (comparison ≠ .lt ∧ candidate.compareTo upper = .lt)
    match term.operation with
    | .exact => if term.wildcard then bounded else some (comparison = .eq)
    | .less => some (comparison = .lt)
    | .lessOrEqual => some (comparison ≠ .gt)
    | .greater => some (comparison = .gt)
    | .greaterOrEqual => some (comparison ≠ .lt)
    | .caret => bounded
    | .tilde => bounded

structure Range where
  minimum : Option Version
  minimumInclusive : Bool
  maximum : Option Version
  maximumInclusive : Bool
  deriving DecidableEq, Repr

def Range.isMatch (range : Range) (version : Version) : Bool :=
  let belowMinimum := match range.minimum with
    | none => false
    | some minimum => version.compareTo minimum = .lt ∨ version.compareTo minimum = .eq ∧ ¬range.minimumInclusive
  let aboveMaximum := match range.maximum with
    | none => false
    | some maximum => version.compareTo maximum = .gt ∨ version.compareTo maximum = .eq ∧ ¬range.maximumInclusive
  !belowMinimum && !aboveMaximum

/-- `ReadNormalizedTerm` after the text of the term. -/
def normalizeTerm (term : Term) : Option Range :=
  let value := term.parsed
  if term.wildcard ∨ term.operation = .caret ∨ term.operation = .tilde then
    (tryUpperBound term.operation term.parsed term.components term.wildcard).map fun upper =>
      ⟨some value, true, some upper, false⟩
  else
    match term.operation with
    | .exact => some ⟨some value, true, some value, true⟩
    | .less => some ⟨none, false, some value, false⟩
    | .lessOrEqual => some ⟨none, false, some value, true⟩
    | .greater => some ⟨some value, false, none, false⟩
    | .greaterOrEqual => some ⟨some value, true, none, false⟩
    | _ => some ⟨none, false, none, false⟩

def Range.whole : Range := ⟨none, false, none, false⟩

/-- The greater minimum of two ranges, and whether it belongs to both. -/
def intersectMinimum (left right : Range) : Option Version × Bool :=
  match left.minimum, right.minimum with
  | some minimum, some rightMinimum =>
      if rightMinimum.compareTo minimum = .gt ∨ rightMinimum.compareTo minimum = .eq ∧ ¬right.minimumInclusive then
        (right.minimum, right.minimumInclusive)
      else if rightMinimum.compareTo minimum = .eq then
        (left.minimum, left.minimumInclusive && right.minimumInclusive)
      else (left.minimum, left.minimumInclusive)
  | none, _ => (right.minimum, right.minimumInclusive)
  | some _, none => (left.minimum, left.minimumInclusive)

def intersectMaximum (left right : Range) : Option Version × Bool :=
  match left.maximum, right.maximum with
  | some maximum, some rightMaximum =>
      if rightMaximum.compareTo maximum = .lt ∨ rightMaximum.compareTo maximum = .eq ∧ ¬right.maximumInclusive then
        (right.maximum, right.maximumInclusive)
      else if rightMaximum.compareTo maximum = .eq then
        (left.maximum, left.maximumInclusive && right.maximumInclusive)
      else (left.maximum, left.maximumInclusive)
  | none, _ => (right.maximum, right.maximumInclusive)
  | some _, none => (left.maximum, left.maximumInclusive)

def intersect (left right : Range) : Range :=
  let (minimum, minimumInclusive) := intersectMinimum left right
  let (maximum, maximumInclusive) := intersectMaximum left right
  ⟨minimum, minimumInclusive, maximum, maximumInclusive⟩

def empty (range : Range) : Bool :=
  match range.minimum, range.maximum with
  | some minimum, some maximum =>
      minimum.compareTo maximum = .gt ∨
        minimum.compareTo maximum = .eq ∧ ¬(range.minimumInclusive ∧ range.maximumInclusive)
  | _, _ => false

def compareMinimum (left right : Range) : Ordering :=
  match left.minimum, right.minimum with
  | none, none => .eq
  | none, some _ => .lt
  | some _, none => .gt
  | some leftMinimum, some rightMinimum =>
      if leftMinimum.compareTo rightMinimum ≠ .eq then leftMinimum.compareTo rightMinimum
      else compare right.minimumInclusive left.minimumInclusive

def touches (left right : Range) : Bool :=
  match left.maximum, right.minimum with
  | some maximum, some minimum =>
      maximum.compareTo minimum = .gt ∨
        maximum.compareTo minimum = .eq ∧ (left.maximumInclusive ∨ right.minimumInclusive)
  | _, _ => true

def union (left right : Range) : Range :=
  match left.maximum, right.maximum with
  | some leftMaximum, some rightMaximum =>
      match leftMaximum.compareTo rightMaximum with
      | .gt => left
      | .lt => ⟨left.minimum, left.minimumInclusive, right.maximum, right.maximumInclusive⟩
      | .eq => ⟨left.minimum, left.minimumInclusive, left.maximum, left.maximumInclusive || right.maximumInclusive⟩
  | _, _ => ⟨left.minimum, left.minimumInclusive, none, false⟩

/-- The canonical ranges, of which the last one may still grow. -/
def merge (last : Range) : List Range → List Range
  | [] => [last]
  | range :: rest => if touches last range then merge (union last range) rest else last :: merge range rest

/-- `List.Sort` with the comparison of minima, which says nothing about the order of ranges
that compare as equal. -/
structure Sorter where
  run : List Range → List Range
  perm (ranges : List Range) : (run ranges).Perm ranges
  ordered (ranges : List Range) : (run ranges).Pairwise fun left right => compareMinimum left right ≠ .gt

end Meaning

section Constraints

def isSeparator (c : UInt16) : Bool := isWhiteSpace c ∨ c = unit ','

def skipSeparators (text : Text) : Text := text.dropWhile isSeparator

def atOr (text : Text) : Bool := text.take 2 = [unit '|', unit '|']

/-- Whether a term may end where this is left to read. -/
def separated (after : Text) : Bool := after = [] ∨ after.head?.any isSeparator ∨ atOr after

theorem skipSeparators_length (text : Text) : (skipSeparators text).length ≤ text.length :=
  (List.dropWhile_sublist _).length_le

theorem readComponent_length {n : UInt16} {text rest : Text} (h : readComponent text = some (n, rest)) :
    rest.length < text.length := by
  unfold readComponent at h
  cases hDigits : readDigits 0 text with
  | none => rw [hDigits] at h; cases h
  | some found =>
      obtain ⟨value, left⟩ := found
      simp only [hDigits, Option.bind_eq_bind, Option.bind_some] at h
      split_ifs at h with hTaken
      cases h
      omega

theorem readPart_length {parsed parsed' : Version} {components : Nat} {wildcard : Bool} {text rest : Text}
    (h : readPart parsed components text = some (parsed', wildcard, rest)) : rest.length < text.length := by
  cases text with
  | nil => cases h
  | cons c text =>
      rw [readPart] at h
      split_ifs at h
      · cases h
        exact Nat.lt_succ_self _
      · obtain ⟨⟨component, left⟩, hComponent, hFound⟩ := Option.map_eq_some_iff.1 h
        cases hFound
        exact readComponent_length hComponent

theorem readParts_length {operation : Operation} {parsed : Version} {components more : Nat} {text rest : Text} {term : Term}
    (h : readParts operation parsed components more text = some (term, rest)) : rest.length < text.length := by
  induction more generalizing parsed components text with
  | zero => cases h
  | succ more ih =>
      rw [readParts] at h
      cases hPart : readPart parsed components text with
      | none => rw [hPart] at h; cases h
      | some found =>
          obtain ⟨parsed', wildcard, left⟩ := found
          have hLength := readPart_length hPart
          simp only [hPart, Option.bind_eq_bind, Option.bind_some] at h
          cases left with
          | nil =>
              cases h
              exact hLength
          | cons c after =>
              rw [List.length_cons] at hLength
              dsimp only at h
              split_ifs at h
              · exact (ih h).trans (Nat.lt_of_succ_lt hLength)
              · cases h
                exact hLength

theorem readComparison_length (plain orEqual : Operation) (rest : Text) :
    (readComparison plain orEqual rest).2.length ≤ rest.length + 1 := by
  cases rest with
  | nil => exact Nat.le_succ _
  | cons c after =>
      rw [readComparison]
      split_ifs <;> simp only [List.length_cons] <;> omega

theorem readOperation_length (first : UInt16) (rest : Text) : (readOperation first rest).2.length ≤ rest.length + 1 := by
  unfold readOperation
  split_ifs
  · exact Nat.le_succ _
  · exact Nat.le_succ _
  · exact Nat.le_succ _
  · exact readComparison_length _ _ rest
  · exact readComparison_length _ _ rest
  · exact le_rfl

/-- A term takes at least one unit. -/
theorem scanTerm_length {first : UInt16} {rest after : Text} {term : Term} (h : scanTerm first rest = some (term, after)) :
    after.length < rest.length + 1 := by
  unfold scanTerm at h
  cases hParts : readParts (readOperation first rest).1 .zero 0 4 (readOperation first rest).2 with
  | none => simp [hParts] at h
  | some found =>
      obtain ⟨read, left⟩ := found
      have hLength := readParts_length hParts
      have hOperation := readOperation_length first rest
      simp only [hParts, Option.bind_eq_bind, Option.bind_some] at h
      split_ifs at h
      cases h
      omega

/-- `TryEvaluate` after its first check: what of the alternatives before and of the terms of
this one has matched so far. -/
def evaluateFrom (candidate : Version) (evaluate : Bool) (groupHasTerm groupMatches matched : Bool) (text : Text) :
    Option Bool :=
  match _hText : skipSeparators text with
  | [] => if groupHasTerm then some (matched || groupMatches) else none
  | first :: rest =>
      if atOr (first :: rest) then
        if groupHasTerm then evaluateFrom candidate evaluate false true (matched || groupMatches) (rest.drop 1) else none
      else
        match _hTerm : scanTerm first rest with
        | none => none
        | some (term, after) =>
            match evaluateTerm term candidate evaluate with
            | none => none
            | some termMatches =>
                if separated after then
                  evaluateFrom candidate evaluate true (groupMatches && termMatches) matched after
                else none
termination_by text.length
decreasing_by
  · have hLength := skipSeparators_length text
    rw [_hText, List.length_cons] at hLength
    rw [List.length_drop]
    omega
  · have hLength := skipSeparators_length text
    have hShorter := scanTerm_length _hTerm
    rw [_hText, List.length_cons] at hLength
    omega

/-- The check that both readings of a text start with. -/
def refusedAtOnce (text : Text) : Bool := text.all isWhiteSpace ∨ 128 < text.length

def tryEvaluate (text : Option Text) (candidate : Version) (evaluate : Bool) : Option Bool := do
  let text ← text
  if refusedAtOnce text then none else evaluateFrom candidate evaluate false true false text

def isValid (constraint : Option Text) : Bool := (tryEvaluate constraint .zero false).isSome

def isMatch (constraint version : Option Text) : Bool :=
  match tryReadVersion version with
  | none => false
  | some candidate => tryEvaluate constraint candidate true = some true

/-- The loop of `Normalize`: the range of each alternative, before they are sorted. -/
def normalizeFrom (haveTerm : Bool) (group : Range) (ranges : List Range) (text : Text) : Option (List Range) :=
  match _hText : skipSeparators text with
  | [] =>
      if ¬haveTerm ∨ empty group then none
      else if 8 < ranges.length + 1 then none
      else some (ranges ++ [group])
  | first :: rest =>
      if atOr (first :: rest) then
        if ¬haveTerm ∨ empty group then none
        else if 8 < ranges.length + 1 then none
        else normalizeFrom false .whole (ranges ++ [group]) (rest.drop 1)
      else
        match _hTerm : scanTerm first rest with
        | none => none
        | some (term, after) =>
            match normalizeTerm term with
            | none => none
            | some range => if separated after then normalizeFrom true (intersect group range) ranges after else none
termination_by text.length
decreasing_by
  · have hLength := skipSeparators_length text
    rw [_hText, List.length_cons] at hLength
    rw [List.length_drop]
    omega
  · have hLength := skipSeparators_length text
    have hShorter := scanTerm_length _hTerm
    rw [_hText, List.length_cons] at hLength
    omega

/-- A text without a meaning is an exception, here `none`. -/
def normalize (sorter : Sorter) (constraint : Option Text) : Option (List Range) := do
  let text ← constraint
  if refusedAtOnce text then none
  else
    let ranges ← normalizeFrom false .whole [] text
    match sorter.run ranges with
    | [] => some []
    | first :: rest => some (merge first rest)

end Constraints

end MicroCard.Versions
