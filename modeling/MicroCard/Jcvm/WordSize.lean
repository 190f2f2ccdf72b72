import MicroCard.Jcvm.Boundaries

/-! Instruction sizes in the arithmetic of a machine. The decoder counts in `usize`, which
has 32 bits on the card and 64 bits on the host that runs its tests. -/
namespace MicroCard.Jcvm

open Bytes CrashTriple Checks

section Arithmetic

variable (w : Nat)

/-- A number as a `usize` of `w` bits keeps it. -/
def usize (n : Nat) : Nat := n % 2 ^ w

def checkedAdd (a b : Nat) : Except Error Nat := if a + b < 2 ^ w then .ok (a + b) else .error .bounds

def checkedMul (a b : Nat) : Except Error Nat := if a * b < 2 ^ w then .ok (a * b) else .error .bounds

end Arithmetic

section Decoder

variable (w : Nat) (code : List Byte)

/-- `word` of the source: two bytes, `i16::from_be_bytes`. -/
def wordOn (at' : Nat) : Except Error Int := do
  let bytes ← slice code at' (usize w (at' + 2))
  pure (signed16 (wordOr bytes 0))

/-- `long` of the source: four bytes, `i32::from_be_bytes`. -/
def longOn (at' : Nat) : Except Error Int := do
  let bytes ← slice code at' (usize w (at' + 4))
  pure (signed32 (wordOr bytes 0 * 65536 + wordOr bytes 2))

def switchValueOn (wide : Bool) (at' : Nat) : Except Error Int :=
  if wide then longOn w code at' else wordOn w code at'

/-- The range is counted in 64 bits and then narrowed to a `usize`. -/
def tableLengthOn (at' : Nat) (wide : Bool) : Except Error Nat := do
  let low ← switchValueOn w code wide (usize w (at' + 3))
  let high ← switchValueOn w code wide (usize w (at' + if wide then 7 else 5))
  failIf (high < low) .format
  let entries := usize w (high - low + 1).toNat
  let bytes ← checkedMul w entries 2
  pure (usize w ((if wide then 11 else 7) + bytes))

/-- The number of pairs is an unsigned word. -/
def lookupLengthOn (at' : Nat) (wide : Bool) : Except Error Nat := do
  let pairs ← wordOn w code (usize w (at' + 3))
  let bytes ← checkedMul w (pairs % 65536).toNat (if wide then 6 else 4)
  pure (usize w (5 + bytes))

def switchLengthOn (at' : Nat) (opcode : Byte) : Except Error Nat :=
  if opcode = stableswitch ∨ opcode = itableswitch then tableLengthOn w code at' (opcode = itableswitch)
  else if opcode = slookupswitch ∨ opcode = ilookupswitch then lookupLengthOn w code at' (opcode = ilookupswitch)
  else .error .format

/-- `instruction_length` of the source. -/
def instructionLengthOn (at' : Nat) : Except Error Nat := do
  let opcode ← byteAt code at'
  failIf (!defined opcode) .format
  if fixedLength opcode ≠ 0 then do
    failIf (code.length < usize w (at' + fixedLength opcode)) .bounds
    pure (fixedLength opcode)
  else do
    let length ← switchLengthOn w code at' opcode
    let stop ← checkedAdd w at' length
    failIf (code.length < stop) .bounds
    pure length

def branchTargetsOn (at' : Nat) (opcode : Byte) : List (Except Error Int) :=
  if branchWidth opcode = 0 then []
  else if branchWidth opcode = 1 then
    [(byteAt code (usize w (at' + 1))).map fun b => (at' : Int) + signed8 b.toNat]
  else [(wordOn w code (usize w (at' + 1))).map fun offset => (at' : Int) + offset]

/-- The offsets of a table, from an entry up to the end of the instruction. -/
def tableTargetsOn (at' stop : Nat) : Nat → Nat → List (Except Error Int)
  | 0, _ => [.error .bounds]
  | fuel + 1, entry =>
      if entry < stop then
        (wordOn w code entry).map (fun offset => (at' : Int) + offset) :: tableTargetsOn at' stop fuel (usize w (entry + 2))
      else []

/-- The offsets of sorted pairs, from an entry up to the end of the instruction. -/
def pairTargetsOn (at' matchWidth stop : Nat) : Nat → Nat → Option Int → List (Except Error Int)
  | 0, _, _ => [.error .bounds]
  | fuel + 1, entry, previous =>
      if entry < stop then
        match switchValueOn w code (matchWidth = 4) entry with
        | .error e => [.error e]
        | .ok key =>
            if previous.any fun last => key ≤ last then [.error .format]
            else (wordOn w code (usize w (entry + matchWidth))).map (fun offset => (at' : Int) + offset) ::
              pairTargetsOn at' matchWidth stop fuel (usize w (entry + (matchWidth + 2))) (some key)
      else []

def switchTargetsOn (at' length : Nat) (opcode : Byte) : List (Except Error Int) :=
  let fallback := (wordOn w code (usize w (at' + 1))).map fun offset => (at' : Int) + offset
  let stop := usize w (at' + length)
  if opcode = stableswitch ∨ opcode = itableswitch then
    fallback :: tableTargetsOn w code at' stop (code.length + 1)
      (usize w (at' + if opcode = itableswitch then 11 else 7))
  else if opcode = slookupswitch ∨ opcode = ilookupswitch then
    fallback :: pairTargetsOn w code at' (if opcode = ilookupswitch then 4 else 2) stop (code.length + 1)
      (usize w (at' + 5)) none
  else []

/-- `for_each_target` of the source: what it visits, up to the first failure. -/
def targetsOn (at' length : Nat) : List (Except Error Int) :=
  let opcode := code.getD at' 0
  branchTargetsOn w code at' opcode ++ switchTargetsOn w code at' length opcode

end Decoder

section Machine

variable {w : Nat} {code : List Byte}

/-- A slice takes at most half of the address space; an offset just behind it does not
wrap around. -/
def Room (w : Nat) (code : List Byte) : Prop := (w = 32 ∨ w = 64) ∧ code.length < 2 ^ (w - 1)

theorem Room.wide (h : Room w code) : code.length + 2 ^ 31 ≤ 2 ^ w ∧ code.length < 2 ^ 63 := by
  obtain ⟨hWidth, hLength⟩ := h
  rcases hWidth with rfl | rfl
  · norm_num at hLength ⊢
    omega
  · norm_num at hLength ⊢
    omega

theorem usize_of_lt {n : Nat} (h : n < 2 ^ w) : usize w n = n := Nat.mod_eq_of_lt h

/-- Close to the slice the machine counts as numbers do. -/
theorem Room.usize (hRoom : Room w code) {n : Nat} (h : n ≤ code.length + 65536 * 16) : usize w n = n := by
  have := hRoom.wide
  apply usize_of_lt
  omega

/-- The word at an offset of a window is the word of the whole at the offset. -/
theorem wordOr_window {at' n i : Nat} (hInside : at' + i + 2 ≤ code.length) (hCount : i + 2 ≤ n) :
    wordAt code (at' + i) = .ok (wordOr ((code.drop at').take n) i) := by
  have hFirst : code[at' + i]? = some code[at' + i] := List.getElem?_eq_getElem (by omega)
  have hSecond : code[at' + i + 1]? = some code[at' + i + 1] := List.getElem?_eq_getElem (by omega)
  have hSame : at' + (i + 1) = at' + i + 1 := rfl
  simp only [wordAt, hFirst, hSecond, wordOr, List.getD_eq_getElem?_getD, List.getElem?_take, List.getElem?_drop, hSame,
    if_pos (by omega : i < n), if_pos (by omega : i + 1 < n), Option.getD_some]

theorem wordAt_outside {at' : Nat} (h : code.length < at' + 2) : wordAt code at' = .error .bounds := by
  rw [wordAt, List.getElem?_eq_none (by omega : code.length ≤ at' + 1)]
  cases code[at']? <;> rfl

theorem wordOn_eq (hRoom : Room w code) {at' : Nat} (h : at' ≤ code.length + 65536 * 8) :
    wordOn w code at' = word code at' := by
  rw [wordOn, hRoom.usize (by omega), word, slice]
  by_cases hInside : at' + 2 ≤ code.length
  · have hWord := wordOr_window (i := 0) (n := at' + 2 - at') hInside (by omega)
    rw [if_pos ⟨by omega, hInside⟩]
    simp only [Nat.add_zero] at hWord
    simp only [bind, Except.bind, hWord]
  · rw [if_neg (by omega), wordAt_outside (by omega)]
    rfl

theorem longOn_eq (hRoom : Room w code) {at' : Nat} (h : at' ≤ code.length + 65536 * 8) :
    longOn w code at' = long code at' := by
  rw [longOn, hRoom.usize (by omega), long, slice]
  by_cases hInside : at' + 4 ≤ code.length
  · have hHigh := wordOr_window (i := 0) (n := at' + 4 - at') (by omega : at' + 0 + 2 ≤ code.length) (by omega)
    have hLow := wordOr_window (i := 2) (n := at' + 4 - at') (by omega : at' + 2 + 2 ≤ code.length) (by omega)
    rw [if_pos ⟨by omega, hInside⟩]
    simp only [Nat.add_zero] at hHigh
    simp only [bind, Except.bind, hHigh, hLow]
  · rw [if_neg (by omega)]
    have hLow : wordAt code (at' + 2) = .error .bounds := wordAt_outside (by omega)
    simp only [bind, Except.bind, hLow]
    unfold wordAt
    cases code[at']? with
    | none => rfl
    | some first => cases code[at' + 1]? <;> rfl

theorem switchValueOn_eq (hRoom : Room w code) {wide : Bool} {at' : Nat} (h : at' ≤ code.length + 65536 * 8) :
    switchValueOn w code wide at' = switchValue code wide at' := by
  cases wide with
  | false => exact wordOn_eq hRoom h
  | true => exact longOn_eq hRoom h

end Machine

section Lengths

variable {w : Nat} {code : List Byte} {at' : Nat}

theorem word_range {value : Int} (h : word code at' = .ok value) : -32768 ≤ value ∧ value ≤ 32767 := by
  simp only [word, bind_ok, pure_ok] at h
  obtain ⟨n, hWord, rfl⟩ := h
  have hBound : n < 65536 := by
    unfold wordAt at hWord
    split at hWord
    · injection hWord with hWord
      rw [← hWord]
      exact be16_lt _ _
    · cases hWord
  unfold signed16
  split <;> omega

theorem long_range {value : Int} (h : long code at' = .ok value) : -2147483648 ≤ value ∧ value ≤ 2147483647 := by
  simp only [long, bind_ok, pure_ok] at h
  obtain ⟨high, hHigh, low, hLow, rfl⟩ := h
  have hBound : ∀ {i n}, wordAt code i = .ok n → n < 65536 := by
    intro i n hWord
    unfold wordAt at hWord
    split at hWord
    · injection hWord with hWord
      rw [← hWord]
      exact be16_lt _ _
    · cases hWord
  have := hBound hHigh
  have := hBound hLow
  unfold signed32
  split <;> omega

theorem switchValue_range {wide : Bool} {value : Int} (h : switchValue code wide at' = .ok value) :
    -2147483648 ≤ value ∧ value ≤ 2147483647 ∧ (wide = false → -32768 ≤ value ∧ value ≤ 32767) := by
  cases wide with
  | false =>
      have := word_range h
      omega
  | true =>
      have := long_range h
      exact ⟨this.1, this.2, fun hNarrow => nomatch hNarrow⟩

/-- The ranges that a 32-bit machine takes for shorter ones: the whole range of an `int`,
which is narrowed to no entry at all, and those whose bytes fit a `usize` only without
the eleven bytes in front of them. -/
def Wraps (entries : Int) : Prop := entries = 4294967296 ∨ 2147483643 ≤ entries ∧ entries ≤ 2147483647

/-- A table switch over such a range, on such a machine. -/
def Truncated (w : Nat) (code : List Byte) (at' : Nat) : Prop :=
  w = 32 ∧ code[at']? = some itableswitch ∧
    ∃ low high, long code (at' + 3) = .ok low ∧ long code (at' + 7) = .ok high ∧ low ≤ high ∧ Wraps (high - low + 1)

/-- The machine finds the size of a table, or gives up on one that cannot fit. -/
theorem tableLengthOn_cases (hRoom : Room w code) (hAt : at' < code.length) {wide : Bool}
    (hRange : ∀ low high, wide = true → long code (at' + 3) = .ok low → long code (at' + 7) = .ok high → low ≤ high →
      w = 32 → ¬Wraps (high - low + 1)) :
    tableLengthOn w code at' wide = tableLength code at' wide ∨
      tableLengthOn w code at' wide = .error .bounds ∧ ∃ n, tableLength code at' wide = .ok n ∧ code.length < n := by
  have hSecond : (if wide then 7 else 5) ≤ 7 := by split <;> omega
  rw [tableLengthOn, tableLength, hRoom.usize (by omega), hRoom.usize (by omega), switchValueOn_eq hRoom (by omega),
    switchValueOn_eq hRoom (by omega)]
  cases hLow : switchValue code wide (at' + 3) with
  | error e => exact .inl rfl
  | ok low =>
      cases hHigh : switchValue code wide (at' + if wide then 7 else 5) with
      | error e => exact .inl rfl
      | ok high =>
          have hLowRange := switchValue_range hLow
          have hHighRange := switchValue_range hHigh
          simp only [bind, Except.bind, failIf]
          by_cases hOrder : high < low
          · simp only [if_pos hOrder]
            exact .inl rfl
          · simp only [if_neg hOrder, pure, Except.pure]
            have hHeader : (if wide then 11 else 7) ≤ 11 := by split <;> omega
            have hEntries : (high - low + 1).toNat ≤ 4294967296 ∧
                (wide = false → (high - low + 1).toNat ≤ 65536) := by
              refine ⟨by omega, fun hNarrow => ?_⟩
              have := hLowRange.2.2 hNarrow
              have := hHighRange.2.2 hNarrow
              omega
            rcases hRoom.1 with hWord | hWord
            · have hKept : (high - low + 1).toNat < 2147483643 ∨
                  2147483648 ≤ (high - low + 1).toNat ∧ (high - low + 1).toNat < 4294967296 := by
                cases wide with
                | false =>
                    have := hEntries.2 rfl
                    omega
                | true =>
                    have hNot := hRange low high rfl hLow hHigh (by omega) hWord
                    unfold Wraps at hNot
                    omega
              have hLength := hRoom.wide
              have hNarrowed : usize w (high - low + 1).toNat = (high - low + 1).toNat := by
                apply usize_of_lt
                rw [hWord]
                norm_num
                omega
              rw [hNarrowed, checkedMul]
              rcases hKept with hSmall | hLarge
              · rw [if_pos (by rw [hWord]; norm_num; omega)]
                refine .inl (congrArg Except.ok (usize_of_lt ?_))
                rw [hWord]
                norm_num
                omega
              · rw [if_neg (by rw [hWord]; norm_num; omega)]
                refine .inr ⟨rfl, _, rfl, ?_⟩
                rw [hWord] at hLength
                norm_num at hLength
                omega
            · have hNarrowed : usize w (high - low + 1).toNat = (high - low + 1).toNat := by
                apply usize_of_lt
                rw [hWord]
                norm_num
                omega
              rw [hNarrowed, checkedMul, if_pos (by rw [hWord]; norm_num; omega)]
              refine .inl (congrArg Except.ok (usize_of_lt ?_))
              rw [hWord]
              norm_num
              omega

theorem wordAt_lt {n : Nat} (h : wordAt code at' = .ok n) : n < 65536 := by
  unfold wordAt at h
  split at h
  · injection h with h
    rw [← h]
    exact be16_lt _ _
  · cases h

theorem signed16_emod {n : Nat} (h : n < 65536) : (signed16 n % 65536).toNat = n := by
  unfold signed16
  split <;> omega

theorem lookupLengthOn_eq (hRoom : Room w code) (hAt : at' < code.length) (wide : Bool) :
    lookupLengthOn w code at' wide = lookupLength code at' wide := by
  have hWide := hRoom.wide
  rw [lookupLengthOn, lookupLength, hRoom.usize (by omega), wordOn_eq hRoom (by omega), word]
  cases hPairs : wordAt code (at' + 3) with
  | error e => rfl
  | ok pairs =>
      have hBound := wordAt_lt hPairs
      have hPair : (if wide then 6 else 4) ≤ 6 := by split <;> omega
      have hBytes : pairs * (if wide then 6 else 4) ≤ 65536 * 6 := Nat.mul_le_mul (by omega) hPair
      simp only [bind, Except.bind, pure, Except.pure, signed16_emod hBound]
      rw [checkedMul, if_pos (by omega)]
      exact congrArg Except.ok (usize_of_lt (by omega))

set_option maxRecDepth 4000 in
theorem fixedLength_le (opcode : Byte) : fixedLength opcode ≤ 5 := by
  have hTable : ∀ n ∈ fixedLengthTable, n ≤ 5 := by decide
  rw [fixedLength, List.getD_eq_getElem?_getD]
  cases hEntry : fixedLengthTable[opcode.toNat]? with
  | none => exact Nat.zero_le _
  | some n => exact hTable n (List.mem_of_getElem? hEntry)

/-- An end that does not fit a `usize` does not fit the slice either. -/
theorem checkedAdd_bound (hRoom : Room w code) (n : Nat) :
    (do
      let stop ← checkedAdd w at' n
      failIf (code.length < stop) Error.bounds
      pure n : Except Error Nat) =
    (do
      failIf (code.length < at' + n) Error.bounds
      pure n) := by
  have hWide := hRoom.wide
  rw [checkedAdd]
  by_cases hFits : at' + n < 2 ^ w
  · rw [if_pos hFits]
    rfl
  · rw [if_neg hFits, failIf, if_pos (by omega : code.length < at' + n)]
    rfl

theorem switchLengthOn_cases (hRoom : Room w code) (hTable : ¬Truncated w code at') {opcode : Byte}
    (hOpcode : code[at']? = some opcode) (hFixed : fixedLength opcode = 0) :
    switchLengthOn w code at' opcode = declaredLength code at' opcode ∨
      switchLengthOn w code at' opcode = .error .bounds ∧
        ∃ n, declaredLength code at' opcode = .ok n ∧ code.length < n := by
  have hAt : at' < code.length := (List.getElem?_eq_some_iff.1 hOpcode).1
  rw [switchLengthOn, declaredLength, if_neg (not_not.2 hFixed)]
  by_cases hSwitch : opcode = stableswitch ∨ opcode = itableswitch
  · rw [if_pos hSwitch, if_pos hSwitch]
    apply tableLengthOn_cases hRoom hAt
    intro low high hWide hLow hHigh hOrder hWord hWraps
    have hTableSwitch : opcode = itableswitch := by simpa using hWide
    exact hTable ⟨hWord, hTableSwitch ▸ hOpcode, low, high, hLow, hHigh, hOrder, hWraps⟩
  · rw [if_neg hSwitch, if_neg hSwitch, lookupLengthOn_eq hRoom hAt]
    exact .inl rfl

/-- Unless a table is truncated, the size of an instruction does not depend on the machine. -/
theorem instructionLengthOn_eq (hRoom : Room w code) (hTable : ¬Truncated w code at') :
    instructionLengthOn w code at' = instructionLength code at' := by
  rw [instructionLengthOn, instructionLength]
  cases hOpcode : byteAt code at' with
  | error e => rfl
  | ok opcode =>
      have hHere : code[at']? = some opcode := byteAt_ok.1 hOpcode
      have hAt : at' < code.length := (List.getElem?_eq_some_iff.1 hHere).1
      have hShort := fixedLength_le opcode
      simp only [bind, Except.bind]
      by_cases hDefined : (!defined opcode) = true
      · simp only [failIf, if_pos hDefined]
        rfl
      · simp only [failIf, if_neg hDefined, pure, Except.pure]
        by_cases hFixed : fixedLength opcode ≠ 0
        · rw [if_pos hFixed, declaredLength, if_pos hFixed, hRoom.usize (by omega)]
        · rw [if_neg hFixed]
          rcases switchLengthOn_cases hRoom hTable hHere (by omega) with hSame | ⟨hOver, n, hDeclared, hLong⟩
          · rw [hSame]
            cases declaredLength code at' opcode with
            | error e => rfl
            | ok n => exact checkedAdd_bound hRoom n
          · rw [hOver, hDeclared]
            simp only
            rw [if_pos (by omega : code.length < at' + n)]
            rfl

theorem wordAt_inside {n : Nat} (h : wordAt code at' = .ok n) : at' + 2 ≤ code.length := by
  by_contra hOut
  rw [wordAt_outside (by omega)] at h
  cases h

theorem long_inside {value : Int} (h : long code at' = .ok value) : at' + 4 ≤ code.length := by
  simp only [long, bind_ok, pure_ok] at h
  obtain ⟨high, -, low, hLow, -⟩ := h
  exact wordAt_inside hLow

/-- The size a 32-bit machine finds for a truncated table. -/
theorem tableLengthOn_truncated (hRoom : Room w code) {low high : Int} (hWord : w = 32)
    (hLow : long code (at' + 3) = .ok low) (hHigh : long code (at' + 7) = .ok high) (hOrder : low ≤ high)
    (hWraps : Wraps (high - low + 1)) : ∃ n ≤ 11, tableLengthOn w code at' true = .ok n := by
  subst hWord
  have hAt := long_inside hHigh
  have hLowOn : switchValueOn 32 code true (usize 32 (at' + 3)) = .ok low := by
    rw [hRoom.usize (by omega), switchValueOn_eq hRoom (by omega)]
    exact hLow
  have hHighOn : switchValueOn 32 code true (usize 32 (at' + 7)) = .ok high := by
    rw [hRoom.usize (by omega), switchValueOn_eq hRoom (by omega)]
    exact hHigh
  rw [tableLengthOn, hLowOn]
  simp only [bind, Except.bind, if_true, hHighOn, failIf, if_neg (by omega : ¬high < low), pure, Except.pure]
  rcases hWraps with hWhole | ⟨hLeast, hMost⟩
  · have hEntries : usize 32 (high - low + 1).toNat = 0 := by
      rw [hWhole]
      rfl
    rw [hEntries]
    exact ⟨11, Nat.le_refl _, rfl⟩
  · have hKept : usize 32 (high - low + 1).toNat = (high - low + 1).toNat := usize_of_lt (by norm_num; omega)
    rw [hKept, checkedMul, if_pos (by norm_num; omega)]
    refine ⟨_, ?_, rfl⟩
    show (11 + (high - low + 1).toNat * 2) % 2 ^ 32 ≤ 11
    norm_num
    omega

/-- A truncated table is taken for an instruction of at most eleven bytes. -/
theorem instructionLengthOn_truncated (hRoom : Room w code) (hTable : Truncated w code at') :
    ∃ n ≤ 11, instructionLengthOn w code at' = .ok n := by
  obtain ⟨hWord, hOpcode, low, high, hLow, hHigh, hOrder, hWraps⟩ := hTable
  obtain ⟨n, hShort, hLength⟩ := tableLengthOn_truncated hRoom hWord hLow hHigh hOrder hWraps
  have hInside := long_inside hHigh
  have hSwitch : switchLengthOn w code at' itableswitch = .ok n := hLength
  have hWide := hRoom.wide
  refine ⟨n, hShort, ?_⟩
  rw [instructionLengthOn, byteAt_ok.2 hOpcode]
  simp only [bind, Except.bind]
  rw [show (failIf ((!defined itableswitch) = true) Error.format : Except Error Unit) = .ok () from rfl]
  simp only
  rw [if_neg (by decide), hSwitch]
  refine (checkedAdd_bound hRoom n).trans ?_
  rw [failIf, if_neg (by omega : ¬code.length < at' + n)]
  rfl

end Lengths

end MicroCard.Jcvm
