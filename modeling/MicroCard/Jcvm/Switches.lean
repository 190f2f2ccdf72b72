import MicroCard.Jcvm.WordSize

/-! Switches in the arithmetic of a machine. The verifier visits the offsets of a table one
behind the other, the interpreter computes where the offset of a key lies; both agree when
the size of the instruction is exact, and only then does a key stay inside of it. -/
namespace MicroCard.Jcvm

open Bytes CrashTriple Checks

section Interpreter

variable (w : Nat) (code : List Byte)

/-- Where a table switch reads its offset. -/
def tablePosition (pc : Nat) (wide : Bool) (low high key : Int) : Nat :=
  if key < low ∨ high < key then usize w (pc + 1)
  else usize w (usize w (pc + if wide then 11 else 7) + usize w (usize w (key - low).toNat * 2))

/-- Search the pairs in order; what was read before is the answer if none has the key. -/
def scanPairs (pc : Nat) (wide : Bool) (key : Int) (fallback : Nat × Int) : Nat → Nat → Except Error (Nat × Int)
  | 0, _ => .ok fallback
  | count + 1, pair => do
      let matchWidth := if wide then 4 else 2
      let entry := usize w (usize w (pc + 5) + usize w (pair * (matchWidth + 2)))
      let candidate ← switchValueOn w code wide entry
      if candidate = key then do
        let offset ← wordOn w code (usize w (entry + matchWidth))
        pure (usize w (entry + matchWidth), offset)
      else scanPairs pc wide key fallback count (pair + 1)

/-- Where a switch reads the offset for a key, and that offset. -/
def switchOffset (pc : Nat) (opcode : Byte) (key : Int) : Except Error (Nat × Int) :=
  if opcode = stableswitch ∨ opcode = itableswitch then do
    let wide : Bool := opcode = itableswitch
    let low ← switchValueOn w code wide (usize w (pc + 3))
    let high ← switchValueOn w code wide (usize w (pc + if wide then 7 else 5))
    let offset ← wordOn w code (tablePosition w pc wide low high key)
    pure (tablePosition w pc wide low high key, offset)
  else do
    let pairs ← wordOn w code (usize w (pc + 3))
    let offset ← wordOn w code (usize w (pc + 1))
    scanPairs w code pc (opcode = ilookupswitch) key (usize w (pc + 1), offset) (pairs % 65536).toNat 0

/-- What the interpreter does at a switch: where it reads, and where it goes on. -/
def switchNext (pc : Nat) (opcode : Byte) (key : Int) : Except Error (Nat × Nat) := do
  let (position, offset) ← switchOffset w code pc opcode key
  let next ← bounded ((pc : Int) + offset) code.length
  pure (position, next)

end Interpreter

section Specification

variable (code : List Byte) (at' : Nat)

/-- The size of an instruction as its operands declare it. -/
inductive Sized : Nat → Prop where
  | fixed {opcode : Byte} (here : code[at']? = some opcode) (known : defined opcode = true) (fixed : fixedLength opcode ≠ 0) :
      Sized (fixedLength opcode)
  | table {low high : Int} (here : code[at']? = some stableswitch) (first : word code (at' + 3) = .ok low)
      (last : word code (at' + 5) = .ok high) (order : low ≤ high) : Sized (7 + 2 * (high - low + 1).toNat)
  | wideTable {low high : Int} (here : code[at']? = some itableswitch) (first : long code (at' + 3) = .ok low)
      (last : long code (at' + 7) = .ok high) (order : low ≤ high) : Sized (11 + 2 * (high - low + 1).toNat)
  | lookup {pairs : Nat} (here : code[at']? = some slookupswitch) (count : wordAt code (at' + 3) = .ok pairs) :
      Sized (5 + 4 * pairs)
  | wideLookup {pairs : Nat} (here : code[at']? = some ilookupswitch) (count : wordAt code (at' + 3) = .ok pairs) :
      Sized (5 + 6 * pairs)

/-- The case a key selects: the default comes first, then the entries in order. -/
inductive CaseOf (opcode : Byte) (key : Int) : Nat → Prop where
  | inRange {low high : Int} (table : opcode = stableswitch ∨ opcode = itableswitch)
      (first : switchValue code (opcode = itableswitch) (at' + 3) = .ok low)
      (last : switchValue code (opcode = itableswitch) (at' + if opcode = itableswitch then 7 else 5) = .ok high)
      (least : low ≤ key) (most : key ≤ high) : CaseOf opcode key ((key - low).toNat + 1)
  | outOfRange {low high : Int} (table : opcode = stableswitch ∨ opcode = itableswitch)
      (first : switchValue code (opcode = itableswitch) (at' + 3) = .ok low)
      (last : switchValue code (opcode = itableswitch) (at' + if opcode = itableswitch then 7 else 5) = .ok high)
      (outside : key < low ∨ high < key) : CaseOf opcode key 0
  | paired {pairs i : Nat} (lookup : opcode = slookupswitch ∨ opcode = ilookupswitch)
      (count : wordAt code (at' + 3) = .ok pairs) (inside : i < pairs)
      (here : switchValue code (opcode = ilookupswitch) (at' + 5 + i * if opcode = ilookupswitch then 6 else 4) = .ok key) :
      CaseOf opcode key (i + 1)
  | unpaired {pairs : Nat} (lookup : opcode = slookupswitch ∨ opcode = ilookupswitch)
      (count : wordAt code (at' + 3) = .ok pairs)
      (absent : ∀ i < pairs,
        switchValue code (opcode = ilookupswitch) (at' + 5 + i * if opcode = ilookupswitch then 6 else 4) ≠ .ok key) :
      CaseOf opcode key 0

/-- The verifier's visit: every target is a boundary. -/
def visitTargets (w : Nat) (length : Nat) (map : Boundaries) : Except Error Unit :=
  (targetsOn w code at' length).foldlM (fun _ target => do
    let target ← target
    let target ← bounded target map.length
    failIf (!map.isBoundary target) .format) ()

/-- The machine measures the instruction at an offset exactly. A switch that was verified
reads the offset of each key inside the instruction, and goes where the visit went for it. -/
structure ExactOn (w : Nat) : Prop where
  size : ∀ n, instructionLengthOn w code at' = .ok n ↔ Sized code at' n ∧ at' + n ≤ code.length
  cases : ∀ opcode ∈ [stableswitch, itableswitch, slookupswitch, ilookupswitch], ∀ (length : Nat) (map : Boundaries) (key : Int),
    code[at']? = some opcode → instructionLengthOn w code at' = .ok length → map.length = code.length →
      visitTargets code at' w length map = .ok () →
        ∃ position next index, switchNext w code at' opcode key = .ok (position, next) ∧ at' < position ∧
          position + 2 ≤ at' + length ∧ CaseOf code at' opcode key index ∧
            (targetsOn w code at' length)[index]? = some (.ok (next : Int))

end Specification

section Sizes

variable {code : List Byte} {at' : Nat}

theorem tableLength_ok {wide : Bool} {n : Nat} :
    tableLength code at' wide = .ok n ↔
      ∃ low high, switchValue code wide (at' + 3) = .ok low ∧
        switchValue code wide (at' + if wide then 7 else 5) = .ok high ∧ low ≤ high ∧
          n = (if wide then 11 else 7) + 2 * (high - low + 1).toNat := by
  simp only [tableLength, bind_ok, failIf_ok, pure_ok, Int.not_lt]
  constructor
  · rintro ⟨low, hLow, high, hHigh, _, hOrder, rfl⟩
    exact ⟨low, high, hLow, hHigh, hOrder, by rw [Nat.mul_comm]⟩
  · rintro ⟨low, high, hLow, hHigh, hOrder, rfl⟩
    exact ⟨low, hLow, high, hHigh, (), hOrder, by rw [Nat.mul_comm]⟩

theorem lookupLength_ok {wide : Bool} {n : Nat} :
    lookupLength code at' wide = .ok n ↔
      ∃ pairs, wordAt code (at' + 3) = .ok pairs ∧ n = 5 + (if wide then 6 else 4) * pairs := by
  simp only [lookupLength, bind_ok, pure_ok]
  constructor
  · rintro ⟨pairs, hPairs, rfl⟩
    exact ⟨pairs, hPairs, by rw [Nat.mul_comm]⟩
  · rintro ⟨pairs, hPairs, rfl⟩
    exact ⟨pairs, hPairs, by rw [Nat.mul_comm]⟩

/-- The declared size is the one the specification gives. -/
theorem declaredLength_sized {n : Nat} :
    (∃ opcode, code[at']? = some opcode ∧ defined opcode = true ∧ declaredLength code at' opcode = .ok n) ↔
      Sized code at' n := by
  constructor
  · rintro ⟨opcode, hHere, hKnown, hDeclared⟩
    unfold declaredLength at hDeclared
    split at hDeclared
    · rename_i hFixed
      injection hDeclared with hDeclared
      rw [← hDeclared]
      exact .fixed hHere hKnown hFixed
    · split at hDeclared
      · rename_i hTable
        obtain ⟨low, high, hLow, hHigh, hOrder, rfl⟩ := tableLength_ok.1 hDeclared
        rcases hTable with rfl | rfl
        · exact .table hHere hLow hHigh hOrder
        · exact .wideTable hHere hLow hHigh hOrder
      · split at hDeclared
        · rename_i hLookup
          obtain ⟨pairs, hPairs, rfl⟩ := lookupLength_ok.1 hDeclared
          rcases hLookup with rfl | rfl
          · exact .lookup hHere hPairs
          · exact .wideLookup hHere hPairs
        · cases hDeclared
  · intro hSized
    cases hSized with
    | fixed hHere hKnown hFixed => exact ⟨_, hHere, hKnown, by rw [declaredLength, if_pos hFixed]⟩
    | table hHere hLow hHigh hOrder =>
        refine ⟨stableswitch, hHere, by decide, ?_⟩
        rw [declaredLength, if_neg (by decide), if_pos (.inl rfl)]
        exact tableLength_ok.2 ⟨_, _, hLow, hHigh, hOrder, rfl⟩
    | wideTable hHere hLow hHigh hOrder =>
        refine ⟨itableswitch, hHere, by decide, ?_⟩
        rw [declaredLength, if_neg (by decide), if_pos (.inr rfl)]
        exact tableLength_ok.2 ⟨_, _, hLow, hHigh, hOrder, rfl⟩
    | lookup hHere hPairs =>
        refine ⟨slookupswitch, hHere, by decide, ?_⟩
        rw [declaredLength, if_neg (by decide), if_neg (by decide), if_pos (.inl rfl)]
        exact lookupLength_ok.2 ⟨_, hPairs, rfl⟩
    | wideLookup hHere hPairs =>
        refine ⟨ilookupswitch, hHere, by decide, ?_⟩
        rw [declaredLength, if_neg (by decide), if_neg (by decide), if_pos (.inr rfl)]
        exact lookupLength_ok.2 ⟨_, hPairs, rfl⟩

theorem instructionLength_ok {n : Nat} :
    instructionLength code at' = .ok n ↔ Sized code at' n ∧ at' + n ≤ code.length := by
  rw [← declaredLength_sized]
  simp only [instructionLength, bind_ok, failIf_ok, pure_ok, byteAt_ok, not_lt]
  constructor
  · rintro ⟨opcode, hHere, _, hKnown, declared, hDeclared, _, hFits, rfl⟩
    exact ⟨⟨opcode, hHere, by simpa using hKnown, hDeclared⟩, hFits⟩
  · rintro ⟨⟨opcode, hHere, hKnown, hDeclared⟩, hFits⟩
    exact ⟨opcode, hHere, (), by simp [hKnown], n, hDeclared, (), hFits, rfl⟩

/-- A truncated table is larger than any slice of its machine. -/
theorem Truncated.sized {w n : Nat} (h : Truncated w code at') (hSized : Sized code at' n) : 11 < n := by
  obtain ⟨-, hOpcode, low, high, hLow, hHigh, hOrder, hWraps⟩ := h
  have hCount : 2147483643 ≤ high - low + 1 := by
    unfold Wraps at hWraps
    omega
  cases hSized with
  | fixed hHere hKnown hFixed =>
      rw [hOpcode] at hHere
      injection hHere with hHere
      rw [← hHere] at hFixed
      exact absurd rfl hFixed
  | table hHere =>
      rw [hOpcode] at hHere
      exact absurd hHere (by decide)
  | wideTable hHere hFirst hLast =>
      rw [hFirst] at hLow
      rw [hLast] at hHigh
      injection hLow with hLow
      injection hHigh with hHigh
      omega
  | lookup hHere =>
      rw [hOpcode] at hHere
      exact absurd hHere (by decide)
  | wideLookup hHere =>
      rw [hOpcode] at hHere
      exact absurd hHere (by decide)

end Sizes

section Visits

variable {w : Nat} {code : List Byte} {at' : Nat}

/-- Up to an end inside the slice the machine visits what a list of offsets holds. -/
theorem tableTargetsOn_eq (hRoom : Room w code) {stop : Nat} (hStop : stop ≤ code.length) (fuel : Nat) :
    ∀ entry, entry ≤ code.length + 16 → (stop - entry + 1) / 2 < fuel →
      tableTargetsOn w code at' stop fuel entry =
        (List.range' entry ((stop - entry + 1) / 2) 2).map fun entry =>
          (word code entry).map fun offset => (at' : Int) + offset := by
  induction fuel with
  | zero => exact fun entry _ hFuel => absurd hFuel (Nat.not_lt_zero _)
  | succ fuel ih =>
      intro entry hEntry hFuel
      rw [tableTargetsOn]
      by_cases hMore : entry < stop
      · have hCount : (stop - entry + 1) / 2 = (stop - (entry + 2) + 1) / 2 + 1 := by omega
        have hRest := ih (entry + 2) (by omega) (by omega)
        rw [if_pos hMore, hRoom.usize (by omega), hRest, wordOn_eq hRoom (by omega), hCount, List.range'_succ,
          List.map_cons]
      · have hCount : (stop - entry + 1) / 2 = 0 := by omega
        rw [if_neg hMore, hCount]
        rfl

theorem pairTargetsOn_eq (hRoom : Room w code) {stop matchWidth : Nat} (hStop : stop ≤ code.length)
    (hWidth : matchWidth = 2 ∨ matchWidth = 4) (fuel : Nat) :
    ∀ entry previous, entry ≤ code.length + 16 → (stop - entry + (matchWidth + 1)) / (matchWidth + 2) < fuel →
      pairTargetsOn w code at' matchWidth stop fuel entry previous =
        pairTargets code at' matchWidth ((stop - entry + (matchWidth + 1)) / (matchWidth + 2)) entry previous := by
  induction fuel with
  | zero => exact fun entry _ _ hFuel => absurd hFuel (Nat.not_lt_zero _)
  | succ fuel ih =>
      intro entry previous hEntry hFuel
      rw [pairTargetsOn]
      by_cases hMore : entry < stop
      · have hCount : (stop - entry + (matchWidth + 1)) / (matchWidth + 2) =
            (stop - (entry + (matchWidth + 2)) + (matchWidth + 1)) / (matchWidth + 2) + 1 := by
          rcases hWidth with rfl | rfl <;> omega
        have hRest := fun key => ih (entry + (matchWidth + 2)) (some key) (by omega) (by omega)
        rw [if_pos hMore, switchValueOn_eq hRoom (by omega), hCount, pairTargets]
        cases switchValue code (decide (matchWidth = 4)) entry with
        | error e => rfl
        | ok key =>
            simp only
            rw [hRoom.usize (by omega), hRoom.usize (by omega), hRest, wordOn_eq hRoom (by omega), Nat.add_assoc]
      · have hCount : (stop - entry + (matchWidth + 1)) / (matchWidth + 2) = 0 := by
          rcases hWidth with rfl | rfl <;> omega
        rw [if_neg hMore, hCount, pairTargets]

/-- Inside the slice a visit does not depend on the machine. -/
theorem targetsOn_eq (hRoom : Room w code) {length : Nat} (hFits : at' + length ≤ code.length) :
    targetsOn w code at' length = targets code at' length := by
  have hSecond : wordOn w code (at' + 1) = word code (at' + 1) := wordOn_eq hRoom (by omega)
  have hBranch : ∀ opcode, branchTargetsOn w code at' opcode = branchTargets code at' opcode := by
    intro opcode
    rw [branchTargetsOn, branchTargets, hRoom.usize (by omega), hSecond]
  have hSwitch : ∀ opcode, switchTargetsOn w code at' length opcode = switchTargets code at' length opcode := by
    intro opcode
    rw [switchTargetsOn, switchTargets, hRoom.usize (by omega), hRoom.usize (by omega), hSecond]
    simp only
    by_cases hTable : opcode = stableswitch ∨ opcode = itableswitch
    · have hHeader : (if opcode = itableswitch then 11 else 7) ≤ 11 := by split <;> omega
      rw [if_pos hTable, if_pos hTable, hRoom.usize (by omega), tableTargetsOn_eq hRoom hFits _ _ (by omega) (by omega),
        Nat.add_sub_add_left]
    · rw [if_neg hTable, if_neg hTable]
      by_cases hLookup : opcode = slookupswitch ∨ opcode = ilookupswitch
      · have hWidth : (if opcode = ilookupswitch then 4 else 2) = 2 ∨ (if opcode = ilookupswitch then 4 else 2) = 4 := by
          split
          · exact .inr rfl
          · exact .inl rfl
        have hCount : (at' + length - (at' + 5) + ((if opcode = ilookupswitch then 4 else 2) + 1)) /
            ((if opcode = ilookupswitch then 4 else 2) + 2) < code.length + 1 := by
          rcases hWidth with hWidth | hWidth <;> rw [hWidth] <;> omega
        rw [if_pos hLookup, if_pos hLookup, hRoom.usize (by omega),
          pairTargetsOn_eq hRoom hFits hWidth _ _ none (by omega) hCount, Nat.add_sub_add_left]
      · rw [if_neg hLookup, if_neg hLookup]
  rw [targetsOn, targets]
  simp only [hBranch, hSwitch]

/-- What a successful visit shows of each target. -/
theorem visitTargets_ok {length : Nat} {map : Boundaries} (hMap : map.length = code.length)
    (h : visitTargets code at' w length map = .ok ()) :
    ∀ item ∈ targetsOn w code at' length, ∃ t : Nat, item = .ok (t : Int) ∧ t < code.length := by
  intro item hItem
  obtain ⟨_, _, hVisit⟩ := foldlM_each h hItem
  simp only [bind_ok] at hVisit
  obtain ⟨target, hTarget, t, hBounded, -⟩ := hVisit
  obtain ⟨rfl, hInside⟩ := bounded_ok hBounded
  exact ⟨t, hTarget, hMap ▸ hInside⟩

/-- The target read at a position. -/
theorem target_read {position t : Nat} (h : (word code position).map (fun offset => (at' : Int) + offset) = .ok (t : Int))
    (hInside : t < code.length) :
    ∃ offset, word code position = .ok offset ∧ bounded ((at' : Int) + offset) code.length = .ok t := by
  obtain ⟨offset, hWord, hTarget⟩ := map_ok.1 h
  refine ⟨offset, hWord, ?_⟩
  rw [hTarget, bounded, if_neg (by omega), Int.toNat_natCast]

end Visits

section Tables

variable {w : Nat} {code : List Byte} {at' : Nat} {opcode : Byte}

/-- The operands of a table switch whose size was found. -/
theorem table_operands (hTable : opcode = stableswitch ∨ opcode = itableswitch) (hHere : code[at']? = some opcode)
    {length : Nat} (h : instructionLength code at' = .ok length) :
    ∃ low high, switchValue code (opcode = itableswitch) (at' + 3) = .ok low ∧
      switchValue code (opcode = itableswitch) (at' + if opcode = itableswitch then 7 else 5) = .ok high ∧ low ≤ high ∧
        length = (if opcode = itableswitch then 11 else 7) + 2 * (high - low + 1).toNat ∧ at' + length ≤ code.length := by
  obtain ⟨hSized, hFits⟩ := instructionLength_ok.1 h
  obtain ⟨found, hFound, -, hDeclared⟩ := declaredLength_sized.2 hSized
  rw [hHere] at hFound
  injection hFound with hFound
  have hVariable : fixedLength opcode = 0 := by rcases hTable with rfl | rfl <;> rfl
  rw [← hFound, declaredLength, if_neg (not_not.2 hVariable), if_pos hTable] at hDeclared
  obtain ⟨low, high, hLow, hHigh, hOrder, hLength⟩ := tableLength_ok.1 hDeclared
  simp only [decide_eq_true_eq] at hHigh hLength
  exact ⟨low, high, hLow, hHigh, hOrder, hLength, hFits⟩

/-- The targets of a table switch: the default and one for each value of the range. -/
theorem targets_table (hTable : opcode = stableswitch ∨ opcode = itableswitch) (hHere : code[at']? = some opcode)
    {length entries : Nat} (hLength : length = (if opcode = itableswitch then 11 else 7) + 2 * entries) :
    targets code at' length = (word code (at' + 1)).map (fun offset => (at' : Int) + offset) ::
      (List.range' (at' + if opcode = itableswitch then 11 else 7) entries 2).map fun entry =>
        (word code entry).map fun offset => (at' : Int) + offset := by
  have hOpcode : code.getD at' 0 = opcode := by rw [List.getD_eq_getElem?_getD, hHere]; rfl
  have hWidth : branchWidth opcode = 0 := by rcases hTable with rfl | rfl <;> rfl
  have hCount : (length - (if opcode = itableswitch then 11 else 7) + 1) / 2 = entries := by omega
  rw [targets, hOpcode, branchTargets, if_pos hWidth, switchTargets, if_pos hTable, List.nil_append]
  simp only [hCount]

/-- A table switch goes where the visit went for its key. -/
theorem table_next (hRoom : Room w code) (hTable : opcode = stableswitch ∨ opcode = itableswitch)
    (hHere : code[at']? = some opcode) {length : Nat} (hLength : instructionLength code at' = .ok length)
    (hItems : ∀ item ∈ targets code at' length, ∃ t : Nat, item = .ok (t : Int) ∧ t < code.length) (key : Int) :
    ∃ position next index, switchNext w code at' opcode key = .ok (position, next) ∧ at' < position ∧
      position + 2 ≤ at' + length ∧ CaseOf code at' opcode key index ∧
        (targets code at' length)[index]? = some (.ok (next : Int)) := by
  obtain ⟨low, high, hLow, hHigh, hOrder, hSize, hFits⟩ := table_operands hTable hHere hLength
  have hTargets := targets_table hTable hHere hSize
  have hHeader : (if opcode = itableswitch then 11 else 7) ≤ 11 ∧ 7 ≤ (if opcode = itableswitch then 11 else 7) := by
    split <;> omega
  have hSecond : (if opcode = itableswitch then 7 else 5) ≤ 7 := by split <;> omega
  have hWide := hRoom.wide
  -- what is read at a position inside the slice decides where the interpreter goes on
  have hNext : ∀ position offset t, tablePosition w at' (opcode = itableswitch) low high key = position →
      position ≤ code.length → word code position = .ok offset → bounded ((at' : Int) + offset) code.length = .ok t →
        switchNext w code at' opcode key = .ok (position, t) := by
    intro position offset t hPosition hInside hWord hBounded
    rw [switchNext, switchOffset, if_pos hTable]
    simp only [decide_eq_true_eq]
    rw [hRoom.usize (by omega), hRoom.usize (by omega), switchValueOn_eq hRoom (by omega),
      switchValueOn_eq hRoom (by omega), hLow, hHigh]
    simp only [bind, Except.bind, hPosition]
    rw [wordOn_eq hRoom (by omega), hWord]
    simp only [pure, Except.pure, hBounded]
  by_cases hOut : key < low ∨ high < key
  · obtain ⟨t, hItem, hInside⟩ := hItems _ (by rw [hTargets]; exact List.mem_cons_self)
    obtain ⟨offset, hWord, hBounded⟩ := target_read hItem hInside
    have hPosition : tablePosition w at' (opcode = itableswitch) low high key = at' + 1 := by
      rw [tablePosition, if_pos hOut, hRoom.usize (by omega)]
    refine ⟨at' + 1, t, 0, hNext _ offset t hPosition (by omega) hWord hBounded, by omega, by omega,
      .outOfRange hTable hLow hHigh hOut, ?_⟩
    rw [hTargets, ← hItem]
    rfl
  · have hSlot : (key - low).toNat < (high - low + 1).toNat := by omega
    have hPlace : (List.range' (at' + if opcode = itableswitch then 11 else 7) (high - low + 1).toNat 2)[(key - low).toNat]? =
        some (at' + (if opcode = itableswitch then 11 else 7) + 2 * (key - low).toNat) := by
      rw [List.getElem?_range' hSlot]
    have hEntry : (targets code at' length)[(key - low).toNat + 1]? =
        some ((word code (at' + (if opcode = itableswitch then 11 else 7) + 2 * (key - low).toNat)).map
          fun offset => (at' : Int) + offset) := by
      rw [hTargets, List.getElem?_cons_succ, List.getElem?_map, hPlace]
      rfl
    obtain ⟨t, hItem, hInside⟩ := hItems _ (List.mem_of_getElem? hEntry)
    obtain ⟨offset, hWord, hBounded⟩ := target_read hItem hInside
    have hPosition : tablePosition w at' (opcode = itableswitch) low high key =
        at' + (if opcode = itableswitch then 11 else 7) + 2 * (key - low).toNat := by
      have hBase : usize w (at' + if opcode = itableswitch then 11 else 7) =
          at' + if opcode = itableswitch then 11 else 7 := hRoom.usize (by omega)
      have hNarrow : usize w (key - low).toNat = (key - low).toNat := hRoom.usize (by omega)
      have hBytes : usize w ((key - low).toNat * 2) = (key - low).toNat * 2 := hRoom.usize (by omega)
      rw [tablePosition, if_neg hOut]
      simp only [decide_eq_true_eq]
      rw [hBase, hNarrow, hBytes, hRoom.usize (by omega), Nat.mul_comm]
    refine ⟨_, t, _, hNext _ offset t hPosition (by omega) hWord hBounded, by omega, by omega,
      .inRange hTable hLow hHigh (by omega) (by omega), ?_⟩
    rw [hEntry, hItem]

end Tables

section Lookups

variable {w : Nat} {code : List Byte} {at' : Nat} {opcode : Byte}

theorem lookup_operands (hLookup : opcode = slookupswitch ∨ opcode = ilookupswitch) (hHere : code[at']? = some opcode)
    {length : Nat} (h : instructionLength code at' = .ok length) :
    ∃ pairs, wordAt code (at' + 3) = .ok pairs ∧ length = 5 + (if opcode = ilookupswitch then 6 else 4) * pairs ∧
      at' + length ≤ code.length := by
  obtain ⟨hSized, hFits⟩ := instructionLength_ok.1 h
  obtain ⟨found, hFound, -, hDeclared⟩ := declaredLength_sized.2 hSized
  rw [hHere] at hFound
  injection hFound with hFound
  have hVariable : fixedLength opcode = 0 := by rcases hLookup with rfl | rfl <;> rfl
  have hTable : ¬(opcode = stableswitch ∨ opcode = itableswitch) := by rcases hLookup with rfl | rfl <;> decide
  rw [← hFound, declaredLength, if_neg (not_not.2 hVariable), if_neg hTable, if_pos hLookup] at hDeclared
  obtain ⟨pairs, hPairs, hLength⟩ := lookupLength_ok.1 hDeclared
  simp only [decide_eq_true_eq] at hLength
  exact ⟨pairs, hPairs, hLength, hFits⟩

/-- The targets of a lookup switch: the default and one for each pair. -/
theorem targets_lookup (hLookup : opcode = slookupswitch ∨ opcode = ilookupswitch) (hHere : code[at']? = some opcode)
    {length pairs : Nat} (hLength : length = 5 + (if opcode = ilookupswitch then 6 else 4) * pairs) :
    targets code at' length = (word code (at' + 1)).map (fun offset => (at' : Int) + offset) ::
      pairTargets code at' (if opcode = ilookupswitch then 4 else 2) pairs (at' + 5) none := by
  have hOpcode : code.getD at' 0 = opcode := by rw [List.getD_eq_getElem?_getD, hHere]; rfl
  have hWidth : branchWidth opcode = 0 := by rcases hLookup with rfl | rfl <;> rfl
  have hTable : ¬(opcode = stableswitch ∨ opcode = itableswitch) := by rcases hLookup with rfl | rfl <;> decide
  have hCount : (length - 5 + ((if opcode = ilookupswitch then 4 else 2) + 1)) /
      ((if opcode = ilookupswitch then 4 else 2) + 2) = pairs := by
    rcases hLookup with rfl | rfl
    · rw [if_neg (by decide)] at hLength ⊢
      omega
    · rw [if_pos rfl] at hLength ⊢
      omega
  rw [targets, hOpcode, branchTargets, if_pos hWidth, switchTargets, if_neg hTable, if_pos hLookup, List.nil_append]
  simp only [hCount]

/-- A visit of the pairs that met no failure read a value and an offset for each. -/
theorem pairTargets_get {matchWidth count : Nat} :
    ∀ {entry : Nat} {previous : Option Int},
      (∀ item ∈ pairTargets code at' matchWidth count entry previous, ∃ t : Nat, item = .ok (t : Int) ∧ t < code.length) →
      ∀ i < count, ∃ key, switchValue code (matchWidth = 4) (entry + i * (matchWidth + 2)) = .ok key ∧
        (pairTargets code at' matchWidth count entry previous)[i]? =
          some ((word code (entry + i * (matchWidth + 2) + matchWidth)).map fun offset => (at' : Int) + offset) := by
  induction count with
  | zero => exact fun _ i hi => absurd hi (Nat.not_lt_zero i)
  | succ count ih =>
      intro entry previous hItems i hi
      rw [pairTargets] at hItems ⊢
      cases hKey : switchValue code (decide (matchWidth = 4)) entry with
      | error e =>
          rw [hKey] at hItems
          obtain ⟨t, hItem, -⟩ := hItems _ List.mem_cons_self
          cases hItem
      | ok key =>
          rw [hKey] at hItems
          simp only at hItems ⊢
          by_cases hSorted : (previous.any fun last => decide (key ≤ last)) = true
          · rw [if_pos hSorted] at hItems
            obtain ⟨t, hItem, -⟩ := hItems _ List.mem_cons_self
            cases hItem
          · rw [if_neg hSorted] at hItems ⊢
            cases i with
            | zero => exact ⟨key, by simpa using hKey, by simp⟩
            | succ i =>
                obtain ⟨later, hLater, hItem⟩ := ih (fun item hItem => hItems item (List.mem_cons_of_mem _ hItem)) i (by omega)
                have hEntry : entry + (i + 1) * (matchWidth + 2) = entry + matchWidth + 2 + i * (matchWidth + 2) := by
                  rw [Nat.succ_mul]
                  omega
                exact ⟨later, by rw [hEntry]; exact hLater, by rw [hEntry, List.getElem?_cons_succ]; exact hItem⟩

/-- Where the pair at an index lies. -/
def pairAt (at' : Nat) (wide : Bool) (i : Nat) : Nat := at' + 5 + i * if wide then 6 else 4

/-- The search stops at the first pair with the key, or keeps the default. -/
theorem scanPairs_cases (hRoom : Room w code) {wide : Bool} {key : Int} {fallback : Nat × Int} {total : Nat}
    (hInside : pairAt at' wide total ≤ code.length)
    (hKeys : ∀ i < total, ∃ found, switchValue code wide (pairAt at' wide i) = .ok found) (count : Nat) :
    ∀ pair, pair + count = total →
      (∃ i, pair ≤ i ∧ i < total ∧ switchValue code wide (pairAt at' wide i) = .ok key ∧
        scanPairs w code at' wide key fallback count pair =
          (word code (pairAt at' wide i + if wide then 4 else 2)).map fun offset =>
            (pairAt at' wide i + (if wide then 4 else 2), offset)) ∨
      (∀ i, pair ≤ i → i < total → switchValue code wide (pairAt at' wide i) ≠ .ok key) ∧
        scanPairs w code at' wide key fallback count pair = .ok fallback := by
  induction count with
  | zero =>
      intro pair hPair
      exact .inr ⟨fun i hLeast hMost => absurd hMost (by omega), rfl⟩
  | succ count ih =>
      intro pair hPair
      have hPlace : pairAt at' wide pair + (if wide then 4 else 2) + 2 ≤ code.length := by
        unfold pairAt at hInside ⊢
        cases wide <;> simp only [Bool.false_eq_true, if_false, if_true] at hInside ⊢ <;> omega
      have hEntry : usize w (usize w (at' + 5) + usize w (pair * ((if wide then 4 else 2) + 2))) = pairAt at' wide pair := by
        have hSize : pair * ((if wide then 4 else 2) + 2) = pair * if wide then 6 else 4 := by cases wide <;> rfl
        have hBase : usize w (at' + 5) = at' + 5 := hRoom.usize (by unfold pairAt at hPlace; omega)
        have hBytes : usize w (pair * if wide then 6 else 4) = pair * if wide then 6 else 4 :=
          hRoom.usize (by unfold pairAt at hPlace; omega)
        rw [hSize, hBase, hBytes]
        exact hRoom.usize (by unfold pairAt at hPlace; omega)
      obtain ⟨found, hFound⟩ := hKeys pair (by omega)
      rw [scanPairs]
      simp only [hEntry]
      rw [switchValueOn_eq hRoom (by omega), hFound]
      simp only [bind, Except.bind]
      by_cases hKey : found = key
      · refine .inl ⟨pair, Nat.le_refl _, by omega, hKey ▸ hFound, ?_⟩
        rw [if_pos hKey, hRoom.usize (by omega), wordOn_eq hRoom (by omega)]
        cases word code (pairAt at' wide pair + if wide then 4 else 2) <;> rfl
      · rw [if_neg hKey]
        rcases ih (pair + 1) (by omega) with ⟨i, hLeast, hMost, hHere, hScan⟩ | ⟨hNone, hScan⟩
        · exact .inl ⟨i, by omega, hMost, hHere, hScan⟩
        · refine .inr ⟨fun i hLeast hMost => ?_, hScan⟩
          rcases Nat.eq_or_lt_of_le hLeast with rfl | hLater
          · rw [hFound]
            exact fun hSame => hKey (by injection hSame)
          · exact hNone i hLater hMost

/-- A lookup switch goes where the visit went for its key. -/
theorem lookup_next (hRoom : Room w code) (hLookup : opcode = slookupswitch ∨ opcode = ilookupswitch)
    (hHere : code[at']? = some opcode) {length : Nat} (hLength : instructionLength code at' = .ok length)
    (hItems : ∀ item ∈ targets code at' length, ∃ t : Nat, item = .ok (t : Int) ∧ t < code.length) (key : Int) :
    ∃ position next index, switchNext w code at' opcode key = .ok (position, next) ∧ at' < position ∧
      position + 2 ≤ at' + length ∧ CaseOf code at' opcode key index ∧
        (targets code at' length)[index]? = some (.ok (next : Int)) := by
  obtain ⟨pairs, hPairs, hSize, hFits⟩ := lookup_operands hLookup hHere hLength
  have hTargets := targets_lookup hLookup hHere hSize
  have hTable : ¬(opcode = stableswitch ∨ opcode = itableswitch) := by rcases hLookup with rfl | rfl <;> decide
  have hBound := wordAt_lt hPairs
  have hGet : ∀ i < pairs, ∃ found, switchValue code (opcode = ilookupswitch) (pairAt at' (opcode = ilookupswitch) i) =
      .ok found ∧ (targets code at' length)[i + 1]? =
        some ((word code (pairAt at' (opcode = ilookupswitch) i + if decide (opcode = ilookupswitch) = true then 4 else 2)).map
          fun offset => (at' : Int) + offset) := by
    intro i hi
    obtain ⟨found, hFound, hItem⟩ := pairTargets_get
      (fun item hItem => hItems item (by rw [hTargets]; exact List.mem_cons_of_mem _ hItem)) i hi
    refine ⟨found, ?_, ?_⟩
    · rcases hLookup with rfl | rfl <;> exact hFound
    · rw [hTargets, List.getElem?_cons_succ]
      rcases hLookup with rfl | rfl <;> exact hItem
  have hLast : pairAt at' (opcode = ilookupswitch) pairs ≤ code.length := by
    have hBytes : pairs * (if opcode = ilookupswitch then 6 else 4) = (if opcode = ilookupswitch then 6 else 4) * pairs :=
      Nat.mul_comm _ _
    simp only [pairAt, decide_eq_true_eq]
    omega
  obtain ⟨fallback, hItem, hInside⟩ := hItems _ (by rw [hTargets]; exact List.mem_cons_self)
  obtain ⟨offset, hWord, hBounded⟩ := target_read hItem hInside
  have hScan := @scanPairs_cases w code at' hRoom _ key (at' + 1, offset) _ hLast
    (fun i hi => ⟨(hGet i hi).choose, (hGet i hi).choose_spec.1⟩) pairs 0 (by omega)
  -- the pairs are read only after the default and their number
  have hOffset : switchOffset w code at' opcode key =
      scanPairs w code at' (opcode = ilookupswitch) key (at' + 1, offset) pairs 0 := by
    rw [switchOffset, if_neg hTable, hRoom.usize (by omega), hRoom.usize (by omega), wordOn_eq hRoom (by omega),
      wordOn_eq hRoom (by omega), hWord, word, hPairs]
    simp only [bind, Except.bind, pure, Except.pure, signed16_emod hBound]
  have hCase : ∀ i, pairAt at' (opcode = ilookupswitch) i = at' + 5 + i * if opcode = ilookupswitch then 6 else 4 := by
    intro i
    simp only [pairAt, decide_eq_true_eq]
  rcases hScan with ⟨i, -, hi, hFound, hRun⟩ | ⟨hNone, hRun⟩
  · obtain ⟨-, -, hEntry⟩ := hGet i hi
    obtain ⟨t, hTarget, hBelow⟩ := hItems _ (List.mem_of_getElem? hEntry)
    obtain ⟨found, hRead, hNext⟩ := target_read hTarget hBelow
    have hNarrow : (if decide (opcode = ilookupswitch) = true then 4 else 2) ≤ 4 := by split <;> omega
    have hBehind : (i + 1) * (if opcode = ilookupswitch then 6 else 4) ≤ pairs * if opcode = ilookupswitch then 6 else 4 :=
      Nat.mul_le_mul_right _ hi
    have hWidth : (if decide (opcode = ilookupswitch) = true then 4 else 2) + 2 = if opcode = ilookupswitch then 6 else 4 := by
      rcases hLookup with rfl | rfl <;> rfl
    refine ⟨pairAt at' (opcode = ilookupswitch) i + (if decide (opcode = ilookupswitch) = true then 4 else 2), t, i + 1,
      ?_, ?_, ?_, .paired hLookup hPairs hi (by rw [← hCase]; exact hFound), ?_⟩
    · rw [switchNext, hOffset, hRun, hRead]
      simp only [Except.map, bind, Except.bind, hNext]
      rfl
    · rw [hCase]
      omega
    · rw [hCase]
      rw [Nat.succ_mul] at hBehind
      rw [Nat.mul_comm] at hSize
      omega
    · rw [hEntry, hTarget]
  · refine ⟨at' + 1, fallback, 0, ?_, by omega, by omega,
      .unpaired hLookup hPairs fun i hi => by rw [← hCase]; exact hNone i (Nat.zero_le i) hi, ?_⟩
    · rw [switchNext, hOffset, hRun]
      simp only [bind, Except.bind, hBounded]
      rfl
    · rw [hTargets, ← hItem]
      rfl

end Lookups

section Main

variable {w : Nat} {code : List Byte} {at' : Nat}

/-- On a machine of 32 or 64 bits the size of an instruction is exact, and every verified
switch reads and jumps inside what was verified, unless the instruction is an `itableswitch`
on 32 bits whose range loses its size to the machine. -/
theorem switches_exact_iff (hRoom : Room w code) : ExactOn code at' w ↔ ¬Truncated w code at' := by
  constructor
  · intro hExact hTable
    obtain ⟨n, hShort, hLength⟩ := instructionLengthOn_truncated hRoom hTable
    have hLarge := hTable.sized ((hExact.size n).1 hLength).1
    omega
  · intro hTable
    have hSame := instructionLengthOn_eq hRoom hTable
    refine ⟨fun n => by rw [hSame]; exact instructionLength_ok, ?_⟩
    intro opcode hOpcode length map key hHere hLength hMap hVisit
    rw [hSame] at hLength
    have hFits := (instructionLength_ok.1 hLength).2
    have hItems := visitTargets_ok hMap hVisit
    rw [targetsOn_eq hRoom hFits] at hItems ⊢
    by_cases hSwitch : opcode = stableswitch ∨ opcode = itableswitch
    · exact table_next hRoom hSwitch hHere hLength hItems key
    · have hLookup : opcode = slookupswitch ∨ opcode = ilookupswitch := by
        simp only [List.mem_cons, List.not_mem_nil, or_false] at hOpcode
        tauto
      exact lookup_next hRoom hLookup hHere hLength hItems key

/-- `itableswitch` over all values of an `int`, with a default that leads to the `return`
behind the eleven bytes a 32-bit machine takes it for. -/
def wholeRange : List Byte := [116, 0, 11, 0x80, 0, 0, 0, 0x7f, 0xff, 0xff, 0xff, 122, 0, 0, 0]

/-- The decoder of a 32-bit machine accepts it, the verifier visits the default alone, and
the interpreter takes the offset for the least value from the bytes behind the instruction. -/
theorem itableswitch_truncated :
    ¬ExactOn wholeRange 0 32 ∧ instructionLengthOn 32 wholeRange 0 = .ok 11 ∧
      targetsOn 32 wholeRange 0 11 = [.ok 11] ∧ switchNext 32 wholeRange 0 itableswitch (-2147483647) = .ok (13, 0) ∧
        instructionLengthOn 64 wholeRange 0 = .error .bounds := by
  refine ⟨?_, by decide +kernel, by decide +kernel, by decide +kernel, by decide +kernel⟩
  intro hExact
  have hLength : instructionLengthOn 32 wholeRange 0 = .ok 11 := by decide +kernel
  have hSized := ((hExact.size 11).1 hLength).1
  have hTable : Truncated 32 wholeRange 0 :=
    ⟨rfl, rfl, -2147483648, 2147483647, by decide +kernel, by decide +kernel, by decide, .inl (by decide)⟩
  exact absurd (hTable.sized hSized) (by decide)

/-- A slice that any machine can hold. -/
theorem switches_exact_iff_return : ExactOn [122] 0 32 ↔ ¬Truncated 32 [122] 0 :=
  switches_exact_iff ⟨.inl rfl, by decide⟩

end Main

end MicroCard.Jcvm
