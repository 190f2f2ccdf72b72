import MicroCard.Versions.Constraint

/-! The grammar of the constraints: alternatives with two bars between them, each of terms
with separators around them. Both loops of the source read a text as the grammar does. -/
namespace MicroCard.Versions

section Grammar

/-- A text that is a term from its first unit to its last one. -/
def TermText (text : Text) (term : Term) : Prop := ∃ first rest, text = first :: rest ∧ scanTerm first rest = some (term, [])

def Separators (text : Text) : Prop := ∀ c ∈ text, isSeparator c = true

/-- A text ends where there is none, or goes on with a separator. -/
def Parted (text : Text) : Prop := ∀ c ∈ text.head?, isSeparator c = true

/-- The terms of one alternative. -/
inductive Group : Text → List Term → Prop where
  | nil {separators : Text} (hSeparators : Separators separators) : Group separators []
  | cons {separators word rest : Text} {term : Term} {terms : List Term} (hSeparators : Separators separators)
      (hTerm : TermText word term) (hParted : Parted rest) (hRest : Group rest terms) :
      Group (separators ++ word ++ rest) (term :: terms)

def bars : Text := [unit '|', unit '|']

inductive Alternatives : Text → List (List Term) → Prop where
  | last {text : Text} {terms : List Term} (hGroup : Group text terms) (hSome : terms ≠ []) : Alternatives text [terms]
  | more {text rest : Text} {terms : List Term} {groups : List (List Term)} (hGroup : Group text terms) (hSome : terms ≠ [])
      (hRest : Alternatives rest groups) : Alternatives (text ++ bars ++ rest) (terms :: groups)

/-- The loops of the source, without what they do with the terms. -/
def parseFrom (group : List Term) (text : Text) : Option (List (List Term)) :=
  match _hText : skipSeparators text with
  | [] => if group = [] then none else some [group]
  | first :: rest =>
      if atOr (first :: rest) then
        if group = [] then none else (parseFrom [] (rest.drop 1)).map (group :: ·)
      else
        match _hTerm : scanTerm first rest with
        | none => none
        | some (term, after) => if separated after then parseFrom (group ++ [term]) after else none
termination_by text.length
decreasing_by
  · have hLength := skipSeparators_length text
    rw [_hText, List.length_cons] at hLength
    rw [List.length_drop]
    omega
  · have hLength := skipSeparators_length text
    have hShorter := scanTerm_length _hTerm
    rw [_hText, List.length_cons] at hLength
    omega

end Grammar

section Local

abbrev IsDigit (c : UInt16) : Prop := unit '0' ≤ c ∧ c ≤ unit '9'

/-- No digit comes next. -/
def NoDigit (text : Text) : Prop := ∀ c ∈ text.head?, ¬IsDigit c

/-- Neither a digit nor a dot comes next. -/
def Ended (text : Text) : Prop := ∀ c ∈ text.head?, ¬IsDigit c ∧ c ≠ unit '.'

theorem readDigits_stop {text : Text} (h : NoDigit text) (value : Nat) : readDigits value text = some (value, text) := by
  cases text with
  | nil => rfl
  | cons c rest => exact if_neg (h c rfl)

theorem readDigits_local {value n : Nat} {text rest : Text} (h : readDigits value text = some (n, rest)) :
    ∃ word, text = word ++ rest ∧ ∀ more, NoDigit more → readDigits value (word ++ more) = some (n, more) := by
  induction text generalizing value with
  | nil =>
      obtain ⟨rfl, rfl⟩ := Prod.mk.inj (Option.some.inj h)
      exact ⟨[], rfl, fun more hMore => readDigits_stop hMore value⟩
  | cons c text ih =>
      rw [readDigits] at h
      dsimp only at h
      split_ifs at h with hDigit hLarge
      · obtain ⟨word, rfl, hLocal⟩ := ih h
        refine ⟨c :: word, rfl, ?_⟩
        intro more hMore
        rw [List.cons_append, readDigits, if_pos hDigit]
        dsimp only
        rw [if_neg hLarge]
        exact hLocal more hMore
      · obtain ⟨rfl, rfl⟩ := Prod.mk.inj (Option.some.inj h)
        exact ⟨[], rfl, fun more hMore => readDigits_stop hMore value⟩

theorem readComponent_local {n : UInt16} {text rest : Text} (h : readComponent text = some (n, rest)) :
    ∃ word, word ≠ [] ∧ text = word ++ rest ∧ ∀ more, NoDigit more → readComponent (word ++ more) = some (n, more) := by
  unfold readComponent at h
  cases hDigits : readDigits 0 text with
  | none => rw [hDigits] at h; cases h
  | some found =>
      obtain ⟨value, left⟩ := found
      simp only [hDigits, Option.bind_eq_bind, Option.bind_some] at h
      split_ifs at h with hTaken
      obtain ⟨rfl, rfl⟩ := Prod.mk.inj (Option.some.inj h)
      obtain ⟨word, rfl, hLocal⟩ := readDigits_local hDigits
      have hWord : word ≠ [] := by
        rintro rfl
        exact hTaken (.inl (Nat.sub_self _))
      refine ⟨word, hWord, rfl, ?_⟩
      intro more hMore
      have hLength (tail : Text) : (word ++ tail).length - tail.length = word.length := by
        rw [List.length_append, Nat.add_sub_cancel]
      have hHead (tail : Text) : (word ++ tail).head? = word.head? := by
        cases word with
        | nil => exact absurd rfl hWord
        | cons c rest => rfl
      rw [hLength, hHead] at hTaken
      simp only [readComponent, hLocal more hMore, Option.bind_eq_bind, Option.bind_some, hLength, hHead]
      rw [if_neg hTaken]

theorem readPart_local {parsed parsed' : Version} {components : Nat} {wildcard : Bool} {text rest : Text}
    (h : readPart parsed components text = some (parsed', wildcard, rest)) :
    ∃ word, word ≠ [] ∧ text = word ++ rest ∧
      ∀ more, NoDigit more → readPart parsed components (word ++ more) = some (parsed', wildcard, more) := by
  cases text with
  | nil => cases h
  | cons c text =>
      rw [readPart] at h
      split_ifs at h with hWildcard
      · cases h
        exact ⟨[c], List.cons_ne_nil _ _, rfl, fun more _ => if_pos hWildcard⟩
      · obtain ⟨⟨component, left⟩, hComponent, hFound⟩ := Option.map_eq_some_iff.1 h
        cases hFound
        obtain ⟨word, hWord, hText, hLocal⟩ := readComponent_local hComponent
        refine ⟨word, hWord, hText, ?_⟩
        intro more hMore
        cases word with
        | nil => exact absurd rfl hWord
        | cons c' word =>
            obtain ⟨rfl, -⟩ := List.cons.inj hText
            have hRead := hLocal more hMore
            rw [List.cons_append] at hRead ⊢
            rw [readPart, if_neg hWildcard, hRead]
            rfl

theorem readParts_local {operation : Operation} {parsed : Version} {components more : Nat} {text after : Text} {term : Term}
    (h : readParts operation parsed components more text = some (term, after)) :
    ∃ word, word ≠ [] ∧ text = word ++ after ∧
      ∀ tail, Ended tail → readParts operation parsed components more (word ++ tail) = some (term, tail) := by
  induction more generalizing parsed components text with
  | zero => cases h
  | succ more ih =>
      rw [readParts] at h
      cases hPart : readPart parsed components text with
      | none => rw [hPart] at h; cases h
      | some found =>
          obtain ⟨parsed', wildcard, left⟩ := found
          obtain ⟨word, hWord, rfl, hLocal⟩ := readPart_local hPart
          simp only [hPart, Option.bind_eq_bind, Option.bind_some] at h
          have hLast (hTerm : term = ⟨operation, parsed', components + 1, wildcard⟩) (tail : Text) (hTail : Ended tail) :
              readParts operation parsed components (more + 1) (word ++ tail) = some (term, tail) := by
            rw [readParts, hLocal tail fun c hc => (hTail c hc).1, hTerm]
            simp only [Option.bind_eq_bind, Option.bind_some]
            cases tail with
            | nil => rfl
            | cons c tail => exact if_neg (hTail c rfl).2
          cases left with
          | nil =>
              cases h
              exact ⟨word, hWord, rfl, hLast rfl⟩
          | cons c left =>
              dsimp only at h
              split_ifs at h with hDot hWildcard
              · obtain ⟨word', hWord', rfl, hLocal'⟩ := ih h
                refine ⟨word ++ c :: word', by simp, by simp, ?_⟩
                intro tail hTail
                have hDotNext : NoDigit (c :: (word' ++ tail)) := by
                  intro c' hc'
                  obtain rfl : c = c' := Option.some.inj hc'
                  rw [hDot]
                  decide
                have hAll : word ++ c :: word' ++ tail = word ++ (c :: (word' ++ tail)) := by simp
                rw [hAll, readParts, hLocal _ hDotNext]
                simp only [Option.bind_eq_bind, Option.bind_some, if_pos hDot, if_neg hWildcard]
                exact hLocal' tail hTail
              · cases h
                exact ⟨word, hWord, rfl, hLast rfl⟩

theorem readComparison_local {plain orEqual : Operation} {rest word after : Text} (hWord : word ≠ [])
    (h : (readComparison plain orEqual rest).2 = word ++ after) :
    ∃ word', rest = word' ++ after ∧
      ∀ tail, readComparison plain orEqual (word' ++ tail) = ((readComparison plain orEqual rest).1, word ++ tail) := by
  cases rest with
  | nil => exact absurd (List.append_eq_nil_iff.1 h.symm).1 hWord
  | cons c left =>
      rw [readComparison] at h ⊢
      by_cases hEqual : c = unit '='
      · rw [if_pos hEqual] at h ⊢
        dsimp only at h
        refine ⟨c :: word, by rw [h, List.cons_append], ?_⟩
        intro tail
        exact if_pos hEqual
      · rw [if_neg hEqual] at h ⊢
        refine ⟨word, h, ?_⟩
        intro tail
        cases word with
        | nil => exact absurd rfl hWord
        | cons c' word =>
            obtain ⟨rfl, -⟩ := List.cons.inj h
            exact if_neg hEqual

theorem readOperation_local {first : UInt16} {rest word after : Text} (hWord : word ≠ [])
    (h : (readOperation first rest).2 = word ++ after) :
    ∃ word', rest = word' ++ after ∧
      ∀ tail, readOperation first (word' ++ tail) = ((readOperation first rest).1, word ++ tail) := by
  unfold readOperation at h ⊢
  by_cases hCaret : first = unit '^'
  · simp only [if_pos hCaret] at h ⊢
    exact ⟨word, h, fun _ => rfl⟩
  by_cases hTilde : first = unit '~'
  · simp only [if_neg hCaret, if_pos hTilde] at h ⊢
    exact ⟨word, h, fun _ => rfl⟩
  by_cases hEqual : first = unit '='
  · simp only [if_neg hCaret, if_neg hTilde, if_pos hEqual] at h ⊢
    exact ⟨word, h, fun _ => rfl⟩
  by_cases hLess : first = unit '<'
  · simp only [if_neg hCaret, if_neg hTilde, if_neg hEqual, if_pos hLess] at h ⊢
    exact readComparison_local hWord h
  by_cases hGreater : first = unit '>'
  · simp only [if_neg hCaret, if_neg hTilde, if_neg hEqual, if_neg hLess, if_pos hGreater] at h ⊢
    exact readComparison_local hWord h
  · simp only [if_neg hCaret, if_neg hTilde, if_neg hEqual, if_neg hLess, if_neg hGreater] at h ⊢
    cases word with
    | nil => exact absurd rfl hWord
    | cons c word =>
        obtain ⟨rfl, hRest⟩ := List.cons.inj h
        exact ⟨word, hRest, fun _ => rfl⟩

/-- What a term is does not depend on what comes after it. -/
theorem scanTerm_local {first : UInt16} {rest after : Text} {term : Term} (h : scanTerm first rest = some (term, after)) :
    ∃ word, rest = word ++ after ∧ ∀ tail, Ended tail → scanTerm first (word ++ tail) = some (term, tail) := by
  unfold scanTerm at h
  cases hParts : readParts (readOperation first rest).1 .zero 0 4 (readOperation first rest).2 with
  | none => simp [hParts] at h
  | some found =>
      obtain ⟨read, left⟩ := found
      simp only [hParts, Option.bind_eq_bind, Option.bind_some] at h
      split_ifs at h with hTerm
      obtain ⟨rfl, rfl⟩ := Prod.mk.inj (Option.some.inj h)
      obtain ⟨word, hWord, hText, hLocal⟩ := readParts_local hParts
      obtain ⟨word', hRest, hOperation⟩ := readOperation_local hWord hText
      refine ⟨word', hRest, ?_⟩
      intro tail hTail
      simp only [scanTerm, hOperation, hLocal tail hTail, Option.bind_eq_bind, Option.bind_some]
      exact if_neg hTerm

end Local

section Units

/-- A unit that a term starts with. -/
def Starts (c : UInt16) : Prop :=
  c = unit '^' ∨ c = unit '~' ∨ c = unit '=' ∨ c = unit '<' ∨ c = unit '>' ∨ isWildcard c = true ∨ IsDigit c

theorem separator_apart {c : UInt16} (h : isSeparator c = true) : ¬IsDigit c ∧ c ≠ unit '.' ∧ c ≠ unit '|' ∧ ¬Starts c := by
  have hUnits : (unit '0').toNat = 48 ∧ (unit '9').toNat = 57 ∧ (unit '.').toNat = 46 ∧ (unit '|').toNat = 124 ∧
      (unit '^').toNat = 94 ∧ (unit '~').toNat = 126 ∧ (unit '=').toNat = 61 ∧ (unit '<').toNat = 60 ∧
      (unit '>').toNat = 62 ∧ (unit '*').toNat = 42 ∧ (unit 'x').toNat = 120 ∧ (unit 'X').toNat = 88 ∧
      (unit ',').toNat = 44 := by decide
  simp only [isSeparator, isWhiteSpace, Starts, isWildcard, IsDigit, decide_eq_true_eq, UInt16.le_iff_toNat_le,
    ← UInt16.toNat_inj, ne_eq, UInt16.reduceToNat] at h ⊢
  omega

instance (c : UInt16) : Decidable (Starts c) := by unfold Starts; infer_instance

theorem readPart_first {parsed : Version} {components : Nat} {c : UInt16} {rest : Text} (hWildcard : ¬isWildcard c = true)
    (hDigit : ¬IsDigit c) : readPart parsed components (c :: rest) = none := by
  have hStop : readDigits 0 (c :: rest) = some (0, c :: rest) := if_neg hDigit
  rw [readPart, if_neg hWildcard, readComponent, hStop]
  simp

/-- A term starts with what belongs to a term. -/
theorem scanTerm_first {first : UInt16} {rest after : Text} {term : Term} (h : scanTerm first rest = some (term, after)) :
    Starts first := by
  by_contra hNone
  simp only [Starts, not_or] at hNone
  obtain ⟨hCaret, hTilde, hEqual, hLess, hGreater, hWildcard, hDigit⟩ := hNone
  have hOperation : readOperation first rest = (.exact, first :: rest) := by
    rw [readOperation, if_neg hCaret, if_neg hTilde, if_neg hEqual, if_neg hLess, if_neg hGreater]
  have hParts : readParts .exact .zero 0 4 (first :: rest) = none := by
    rw [readParts.eq_def]
    simp only [readPart_first hWildcard hDigit, Option.bind_eq_bind, Option.bind_none]
  rw [scanTerm, hOperation] at h
  simp [hParts] at h

end Units

section Steps

variable {group : List Term} {text rest after : Text} {first : UInt16} {term : Term}

theorem parseFrom_end (h : skipSeparators text = []) : parseFrom group text = if group = [] then none else some [group] := by
  rw [parseFrom]
  split
  · rfl
  · next hText => rw [h] at hText; cases hText

theorem parseFrom_bars (h : skipSeparators text = first :: rest) (hBars : atOr (first :: rest) = true) :
    parseFrom group text = if group = [] then none else (parseFrom [] (rest.drop 1)).map (group :: ·) := by
  rw [parseFrom]
  split
  · next hText => rw [h] at hText; cases hText
  · next hText =>
      rw [h] at hText
      obtain ⟨rfl, rfl⟩ := List.cons.inj hText
      rw [if_pos hBars]

theorem parseFrom_term (h : skipSeparators text = first :: rest) (hBars : ¬atOr (first :: rest) = true)
    (hTerm : scanTerm first rest = some (term, after)) :
    parseFrom group text = if separated after then parseFrom (group ++ [term]) after else none := by
  rw [parseFrom]
  split
  · next hText => rw [h] at hText; cases hText
  · next hText =>
      rw [h] at hText
      obtain ⟨rfl, rfl⟩ := List.cons.inj hText
      rw [if_neg hBars]
      split
      · next hNone => rw [hTerm] at hNone; cases hNone
      · next hSome =>
          rw [hTerm] at hSome
          cases hSome
          rfl

theorem parseFrom_none (h : skipSeparators text = first :: rest) (hBars : ¬atOr (first :: rest) = true)
    (hTerm : scanTerm first rest = none) : parseFrom group text = none := by
  rw [parseFrom]
  split
  · next hText => rw [h] at hText; cases hText
  · next hText =>
      rw [h] at hText
      obtain ⟨rfl, rfl⟩ := List.cons.inj hText
      rw [if_neg hBars]
      split
      · rfl
      · next hSome => rw [hTerm] at hSome; cases hSome

/-- The separators in front do not matter. -/
theorem parseFrom_congr {text' : Text} (h : skipSeparators text = skipSeparators text') :
    parseFrom group text = parseFrom group text' := by
  cases hText : skipSeparators text with
  | nil =>
      rw [h] at hText
      exact (parseFrom_end (h.trans hText)).trans (parseFrom_end hText).symm
  | cons first rest =>
      rw [h] at hText
      by_cases hBars : atOr (first :: rest) = true
      · exact (parseFrom_bars (h.trans hText) hBars).trans (parseFrom_bars hText hBars).symm
      · cases hTerm : scanTerm first rest with
        | none => exact (parseFrom_none (h.trans hText) hBars hTerm).trans (parseFrom_none hText hBars hTerm).symm
        | some found =>
            exact (parseFrom_term (h.trans hText) hBars hTerm).trans (parseFrom_term hText hBars hTerm).symm

theorem skipSeparators_append {separators : Text} (h : Separators separators) (text : Text) :
    skipSeparators (separators ++ text) = skipSeparators text := List.dropWhile_append_of_pos h

end Steps

section Complete

/-- Where an alternative ends. -/
def Closed (tail : Text) : Prop := tail = [] ∨ ∃ rest, tail = bars ++ rest

theorem bar_apart : ¬IsDigit (unit '|') ∧ unit '|' ≠ unit '.' ∧ isSeparator (unit '|') = false ∧ ¬Starts (unit '|') := by decide

/-- A term may end where a separator or the next alternative is. -/
theorem separated_of {rest tail : Text} (hParted : Parted rest) (hTail : Closed tail) : separated (rest ++ tail) = true := by
  cases rest with
  | nil =>
      rcases hTail with rfl | ⟨others, rfl⟩
      · rfl
      · rw [List.nil_append, separated, decide_eq_true_eq]
        exact .inr (.inr rfl)
  | cons c rest =>
      rw [separated, decide_eq_true_eq]
      exact .inr (.inl (hParted c rfl))

theorem ended_of {rest tail : Text} (hParted : Parted rest) (hTail : Closed tail) : Ended (rest ++ tail) := by
  intro c hc
  cases rest with
  | nil =>
      rcases hTail with rfl | ⟨others, rfl⟩
      · cases hc
      · obtain rfl : unit '|' = c := Option.some.inj hc
        exact ⟨bar_apart.1, bar_apart.2.1⟩
  | cons c' rest =>
      obtain rfl : c' = c := Option.some.inj hc
      obtain ⟨hDigit, hDot, -, -⟩ := separator_apart (hParted c' rfl)
      exact ⟨hDigit, hDot⟩

/-- Where a term starts there are no separators and no bars. -/
theorem starts_apart {first : UInt16} (h : Starts first) (rest : Text) :
    skipSeparators (first :: rest) = first :: rest ∧ ¬atOr (first :: rest) = true := by
  constructor
  · refine List.dropWhile_cons_of_neg ?_
    intro hSeparator
    exact (separator_apart hSeparator).2.2.2 h
  · intro hBars
    rw [atOr, decide_eq_true_eq] at hBars
    obtain rfl := (List.cons.inj hBars).1
    exact bar_apart.2.2.2 h

theorem parse_group {text : Text} {terms : List Term} (h : Group text terms) (group : List Term) {tail : Text}
    (hTail : Closed tail) : parseFrom group (text ++ tail) = parseFrom (group ++ terms) tail := by
  induction h generalizing group with
  | nil hSeparators =>
      rw [List.append_nil]
      exact parseFrom_congr (skipSeparators_append hSeparators tail)
  | @cons separators word rest term terms hSeparators hTerm hParted hRest ih =>
      obtain ⟨first, word, rfl, hScan⟩ := hTerm
      obtain ⟨word', hWord, hLocal⟩ := scanTerm_local hScan
      obtain rfl : word = word' := hWord.trans (List.append_nil word')
      have hRead := hLocal (rest ++ tail) (ended_of hParted hTail)
      obtain ⟨hSkip, hBars⟩ := starts_apart (scanTerm_first hScan) (word ++ (rest ++ tail))
      have hText : separators ++ first :: word ++ rest ++ tail = separators ++ (first :: (word ++ (rest ++ tail))) := by simp
      rw [hText, parseFrom_congr (skipSeparators_append hSeparators _), parseFrom_term hSkip hBars hRead,
        if_pos (separated_of hParted hTail), ih]
      rw [List.append_assoc, List.singleton_append]

/-- A text of the grammar is read as its alternatives. -/
theorem parse_complete {text : Text} {groups : List (List Term)} (h : Alternatives text groups) :
    parseFrom [] text = some groups := by
  induction h with
  | @last text terms hGroup hSome =>
      have hParsed := @parse_group text terms hGroup [] [] (.inl rfl)
      rw [List.append_nil] at hParsed
      rw [hParsed, List.nil_append, parseFrom_end rfl, if_neg hSome]
  | @more text rest terms groups hGroup hSome hRest ih =>
      have hBars : skipSeparators (bars ++ rest) = unit '|' :: unit '|' :: rest := List.dropWhile_cons_of_neg (by decide)
      have hAt : atOr (unit '|' :: unit '|' :: rest) = true := decide_eq_true rfl
      rw [List.append_assoc, parse_group hGroup [] (.inr ⟨rest, rfl⟩), List.nil_append, parseFrom_bars hBars hAt, if_neg hSome]
      rw [List.drop_one, List.tail_cons, ih]
      rfl

end Complete

section Sound

/-- What is left of an alternative, and the alternatives behind it. -/
def Rest (text : Text) (terms : List Term) (groups : List (List Term)) : Prop :=
  Group text terms ∧ groups = [] ∨ ∃ front others, text = front ++ bars ++ others ∧ Group front terms ∧ Alternatives others groups

theorem Rest.alternatives {text : Text} {terms : List Term} {groups : List (List Term)} (h : Rest text terms groups)
    (hSome : terms ≠ []) : Alternatives text (terms :: groups) := by
  obtain ⟨hGroup, rfl⟩ | ⟨front, others, rfl, hGroup, hOthers⟩ := h
  · exact .last hGroup hSome
  · exact .more hGroup hSome hOthers

/-- A group starts with a separator or with what a term starts with. -/
theorem Group.first {text : Text} {terms : List Term} (h : Group text terms) : ∀ c ∈ text.head?, c ≠ unit '|' := by
  intro c hc
  cases h with
  | nil hSeparators =>
      cases text with
      | nil => cases hc
      | cons c' rest =>
          obtain rfl : c' = c := Option.some.inj hc
          exact (separator_apart (hSeparators c' List.mem_cons_self)).2.2.1
  | @cons separators word rest term terms hSeparators hTerm =>
      cases separators with
      | nil =>
          obtain ⟨first, word, rfl, hScan⟩ := hTerm
          obtain rfl : first = c := Option.some.inj hc
          rintro rfl
          exact bar_apart.2.2.2 (scanTerm_first hScan)
      | cons c' separators =>
          obtain rfl : c' = c := Option.some.inj hc
          exact (separator_apart (hSeparators c' List.mem_cons_self)).2.2.1

theorem parted_of {front tail : Text} (hSeparated : separated (front ++ tail) = true) (hFirst : ∀ c ∈ front.head?, c ≠ unit '|') :
    Parted front := by
  intro c hc
  cases front with
  | nil => cases hc
  | cons c' front =>
      obtain rfl : c' = c := Option.some.inj hc
      rw [List.cons_append, separated, decide_eq_true_eq] at hSeparated
      rcases hSeparated with hNone | hSeparator | hBars
      · cases hNone
      · exact hSeparator
      · rw [atOr, decide_eq_true_eq] at hBars
        exact absurd (List.cons.inj hBars).1 (hFirst c' rfl)

theorem Rest.cons {separators word after : Text} {term : Term} {terms : List Term} {groups : List (List Term)}
    (h : Rest after terms groups) (hSeparators : Separators separators) (hTerm : TermText word term)
    (hSeparated : separated after = true) : Rest (separators ++ word ++ after) (term :: terms) groups := by
  obtain ⟨hGroup, rfl⟩ | ⟨front, others, rfl, hGroup, hOthers⟩ := h
  · rw [← List.append_nil after] at hSeparated
    exact .inl ⟨.cons hSeparators hTerm (parted_of hSeparated hGroup.first) hGroup, rfl⟩
  · rw [List.append_assoc] at hSeparated
    refine .inr ⟨separators ++ word ++ front, others, by simp, ?_, hOthers⟩
    exact .cons hSeparators hTerm (parted_of hSeparated hGroup.first) hGroup

/-- The separators in front of what is read next. -/
theorem separators_split {text rest : Text} (h : skipSeparators text = rest) :
    ∃ separators, Separators separators ∧ text = separators ++ rest := by
  refine ⟨text.takeWhile isSeparator, fun c hc => List.all_eq_true.1 List.all_takeWhile c hc, ?_⟩
  rw [← h, skipSeparators, List.takeWhile_append_dropWhile]

theorem parse_sound {group : List Term} {text : Text} {result : List (List Term)} (h : parseFrom group text = some result) :
    ∃ terms groups, Rest text terms groups ∧ group ++ terms ≠ [] ∧ result = (group ++ terms) :: groups := by
  induction hLength : text.length using Nat.strong_induction_on generalizing group text result with
  | _ n ih =>
    cases hText : skipSeparators text with
    | nil =>
        obtain ⟨separators, hSeparators, rfl⟩ := separators_split hText
        rw [parseFrom_end hText] at h
        split_ifs at h with hNone
        cases h
        refine ⟨[], [], .inl ⟨?_, rfl⟩, ?_, ?_⟩
        · rw [List.append_nil]
          exact .nil hSeparators
        · rwa [List.append_nil]
        · rw [List.append_nil]
    | cons first rest =>
        obtain ⟨separators, hSeparators, rfl⟩ := separators_split hText
        rw [List.length_append, List.length_cons] at hLength
        by_cases hBars : atOr (first :: rest) = true
        · rw [parseFrom_bars hText hBars] at h
          split_ifs at h with hNone
          obtain ⟨groups, hParsed, rfl⟩ := Option.map_eq_some_iff.1 h
          obtain ⟨terms, others, hRest, hSome, rfl⟩ := ih (rest.drop 1).length (by rw [List.length_drop]; omega) hParsed rfl
          have hSplit : first :: rest = bars ++ rest.drop 1 := by
            rw [atOr, decide_eq_true_eq] at hBars
            cases rest with
            | nil => cases hBars
            | cons second rest =>
                obtain ⟨rfl, hSecond⟩ := List.cons.inj hBars
                obtain ⟨rfl, -⟩ := List.cons.inj hSecond
                rfl
          refine ⟨[], terms :: others, .inr ⟨separators, rest.drop 1, ?_, .nil hSeparators, hRest.alternatives hSome⟩, ?_, ?_⟩
          · rw [hSplit, List.append_assoc]
          · rwa [List.append_nil]
          · rw [List.append_nil, List.nil_append]
        · cases hTerm : scanTerm first rest with
          | none =>
              rw [parseFrom_none hText hBars hTerm] at h
              cases h
          | some found =>
              obtain ⟨term, after⟩ := found
              have hShorter := scanTerm_length hTerm
              rw [parseFrom_term hText hBars hTerm] at h
              split_ifs at h with hSeparated
              obtain ⟨terms, groups, hRest, hSome, rfl⟩ := ih after.length (by omega) h rfl
              obtain ⟨word, rfl, hLocal⟩ := scanTerm_local hTerm
              have hWord : TermText (first :: word) term := by
                have hWhole := hLocal [] fun c hc => nomatch hc
                rw [List.append_nil] at hWhole
                exact ⟨first, word, rfl, hWhole⟩
              refine ⟨term :: terms, groups, ?_, ?_, ?_⟩
              · have hCons := hRest.cons hSeparators hWord hSeparated
                rwa [List.append_assoc, List.cons_append] at hCons
              · simp
              · rw [List.append_assoc, List.singleton_append]

/-- The loops read the grammar. -/
theorem parse_iff {text : Text} {groups : List (List Term)} : parseFrom [] text = some groups ↔ Alternatives text groups := by
  refine ⟨?_, parse_complete⟩
  intro h
  obtain ⟨terms, others, hRest, hSome, rfl⟩ := parse_sound h
  exact hRest.alternatives hSome

end Sound

end MicroCard.Versions
