import MicroCard.Board.Nvm
import MicroCard.Library.PackedBits
import MicroCard.Library.Slices
import MicroCard.Library.UnaryCounters
import Mathlib.Data.List.Forall2

/-! The counter decoders on images of any length. Each decoder counts the cells of its
image, and programming only clears bits, so that a consumed cell stays consumed. -/
namespace MicroCard.Board

open Bytes Journal Slices UnaryCounters CrashTriple

/-- One bit of a one-way bit anchor. -/
def decodeMonotonicBit (byte : Byte) (state : Nat × Bool) (bit : Nat) : Except Error (Nat × Bool) :=
  if byte &&& PackedBits.mask bit = 0 then
    if state.2 then .error .storage
    else match checkedAdd64 state.1 1 with
      | none => .error .storage
      | some next => .ok (next, state.2)
  else .ok (state.1, true)

/-- Decode a one-way bit anchor. Bits are consumed least-significant first and
every consumed bit must precede every erased bit. -/
def decodeMonotonicBits (bytes : List Byte) : Except Error Nat := do
  let state ← bytes.foldlM (fun state byte => (List.range 8).foldlM (decodeMonotonicBit byte) state) (0, false)
  pure state.1

/-- The erased word that advances a counter by exactly one, where an address has
`addressBits` bits. -/
def nextProgramOnceWordOn (addressBits : Nat) (bytes : List Byte) (generation : Nat) : Except Error Nat := do
  let current ← decodeProgramOnceWords bytes
  failIf (checkedAdd64 current 1 ≠ some generation) .storage
  failIf (generation = 0) .storage
  let index := generation - 1
  failIf (2 ^ addressBits ≤ index) .storage
  let offset := index * 4
  failIf (2 ^ addressBits ≤ offset) .storage
  failIf (2 ^ addressBits ≤ offset + 4 ∨ bytes.length < offset + 4) .quota
  pure offset

/-! What a decoder does with one cell. -/

/-- The common loop of the decoders. -/
def countCell (state : Nat × Bool) : Cell → Except Error (Nat × Bool)
  | .consumed =>
      if state.2 then .error .storage
      else match checkedAdd64 state.1 1 with
        | none => .error .storage
        | some next => .ok (next, state.2)
  | .erased => .ok (state.1, true)
  | .broken => .error .storage

def countCells (cells : List Cell) (state : Nat × Bool) : Except Error Nat :=
  (cells.foldlM countCell state).map Prod.fst

/-- The cells of an image read in words of four bytes. -/
def wordCells (cellOf : List Byte → Cell) : List Byte → List Cell
  | a :: b :: c :: d :: rest => cellOf [a, b, c, d] :: wordCells cellOf rest
  | _ => []

def monotonicCell (word : List Byte) : Cell := if word.any (· != 0xff) then .consumed else .erased

def programOnceCell (word : List Byte) : Cell :=
  if fromLE word = 0 then .consumed else if fromLE word = u32Max then .erased else .broken

def bitCell (bytes : List Byte) (index : Nat) : Cell :=
  if PackedBits.bit bytes index then .erased else .consumed

def bitCells (bytes : List Byte) : List Cell := (List.range (8 * bytes.length)).map (bitCell bytes)

theorem countCells_cons (cell : Cell) (cells : List Cell) (state : Nat × Bool) :
    countCells (cell :: cells) state =
      match countCell state cell with
      | .ok next => countCells cells next
      | .error e => .error e := by
  rw [countCells, List.foldlM_cons]
  cases countCell state cell <;> rfl

/-- After an erased cell no cell is counted. -/
theorem countCells_sawErased (cells : List Cell) (generation : Nat) :
    countCells cells (generation, true) = if cells.all (· = .erased) then .ok generation else .error .storage := by
  induction cells with
  | nil => rfl
  | cons cell cells ih =>
      rw [countCells_cons]
      cases cell with
      | consumed => rfl
      | erased => exact ih
      | broken => rfl

/-- The loop counts the consumed cells of an image in order and fails on every other image. -/
theorem countCells_ok {cells : List Cell} {generation result : Nat} (hGeneration : generation < 2 ^ 64) :
    countCells cells (generation, false) = .ok result ↔
      ∃ value, tally cells = some value ∧ result = generation + value ∧ result < 2 ^ 64 := by
  induction cells generalizing generation with
  | nil =>
      constructor
      · intro h
        injection h with h
        exact ⟨0, rfl, h.symm, h ▸ hGeneration⟩
      · intro h
        obtain ⟨value, hValue, hResult, -⟩ := h
        injection hValue with hValue
        subst hValue
        exact congrArg Except.ok hResult.symm
  | cons cell cells ih =>
      rw [countCells_cons]
      cases cell with
      | consumed =>
          simp only [countCell, Bool.false_eq_true, if_false, checkedAdd64, tally, Option.map_eq_some_iff]
          by_cases hNext : generation + 1 < 2 ^ 64
          · rw [if_pos hNext]
            refine (ih hNext).trans ?_
            constructor
            · intro h
              obtain ⟨value, hValue, hResult, hBound⟩ := h
              exact ⟨value + 1, ⟨value, hValue, rfl⟩, by omega, hBound⟩
            · intro h
              obtain ⟨-, ⟨value, hValue, rfl⟩, hResult, hBound⟩ := h
              exact ⟨value, hValue, by omega, hBound⟩
          · rw [if_neg hNext]
            constructor
            · intro h
              cases h
            · intro h
              obtain ⟨-, ⟨value, hValue, rfl⟩, hResult, hBound⟩ := h
              omega
      | erased =>
          simp only [countCell, tally, countCells_sawErased]
          split
          · constructor
            · intro h
              injection h with h
              exact ⟨0, rfl, h.symm, h ▸ hGeneration⟩
            · intro h
              obtain ⟨value, hValue, hResult, -⟩ := h
              injection hValue with hValue
              subst hValue
              exact congrArg Except.ok hResult.symm
          · constructor
            · intro h
              cases h
            · intro h
              obtain ⟨value, hValue, -⟩ := h
              cases hValue
      | broken =>
          constructor
          · intro h
            cases h
          · intro h
            obtain ⟨value, hValue, -⟩ := h
            cases hValue

/-- A decoder returns the tally of its cells, as long as it fits a 64-bit word. -/
theorem count_ok {cells : List Cell} {result : Nat} :
    countCells cells (0, false) = .ok result ↔ tally cells = some result ∧ result < 2 ^ 64 := by
  rw [countCells_ok (by decide : 0 < 2 ^ 64)]
  constructor
  · intro h
    obtain ⟨value, hValue, hResult, hBound⟩ := h
    rw [Nat.zero_add] at hResult
    exact ⟨hResult ▸ hValue, hBound⟩
  · intro h
    exact ⟨result, h.1, (Nat.zero_add result).symm, h.2⟩

/-! Each decoder is the loop on its own cells. -/

theorem decodeMonotonicWordsFrom_eq (bytes : List Byte) (generation : Nat) (sawErased : Bool) :
    decodeMonotonicWordsFrom bytes generation sawErased =
      countCells (wordCells monotonicCell bytes) (generation, sawErased) := by
  fun_induction decodeMonotonicWordsFrom bytes generation sawErased with
  | case1 a b c d rest generation hConsumed =>
      rw [wordCells, countCells_cons, monotonicCell, if_pos hConsumed]
      rfl
  | case2 a b c d rest generation sawErased hConsumed hSaw hNext =>
      rw [wordCells, countCells_cons, monotonicCell, if_pos hConsumed, countCell, if_neg hSaw]
      simp only [hNext]
  | case3 a b c d rest generation sawErased hConsumed hSaw next hNext ih =>
      rw [wordCells, countCells_cons, monotonicCell, if_pos hConsumed, countCell, if_neg hSaw]
      simp only [hNext]
      exact ih
  | case4 a b c d rest generation sawErased hErased ih =>
      rw [wordCells, countCells_cons, monotonicCell, if_neg hErased]
      exact ih
  | case5 bytes generation sawErased hShort =>
      rw [wordCells]
      · rfl
      · exact hShort

theorem decodeProgramOnceWordsFrom_eq (bytes : List Byte) (generation : Nat) (sawErased : Bool) :
    decodeProgramOnceWordsFrom bytes generation sawErased =
      countCells (wordCells programOnceCell bytes) (generation, sawErased) := by
  fun_induction decodeProgramOnceWordsFrom bytes generation sawErased with
  | case1 a b c d rest generation hConsumed =>
      rw [wordCells, countCells_cons, programOnceCell, if_pos hConsumed]
      rfl
  | case2 a b c d rest generation sawErased hConsumed hSaw hNext =>
      rw [wordCells, countCells_cons, programOnceCell, if_pos hConsumed, countCell, if_neg hSaw]
      simp only [hNext]
  | case3 a b c d rest generation sawErased hConsumed hSaw next hNext ih =>
      rw [wordCells, countCells_cons, programOnceCell, if_pos hConsumed, countCell, if_neg hSaw]
      simp only [hNext]
      exact ih
  | case4 a b c d rest generation sawErased hNonzero hErased ih =>
      rw [wordCells, countCells_cons, programOnceCell, if_neg hNonzero, if_pos hErased]
      exact ih
  | case5 a b c d rest generation sawErased hNonzero hBroken =>
      rw [wordCells, countCells_cons, programOnceCell, if_neg hNonzero, if_neg hBroken]
      rfl
  | case6 bytes generation sawErased hShort =>
      rw [wordCells]
      · rfl
      · exact hShort

theorem decodeMonotonicBit_eq (byte : Byte) (state : Nat × Bool) (place : Nat) :
    decodeMonotonicBit byte state place =
      countCell state (if byte &&& PackedBits.mask place ≠ 0 then .erased else .consumed) := by
  by_cases hBit : byte &&& PackedBits.mask place = 0
  · rw [decodeMonotonicBit, if_pos hBit, if_neg (not_not.2 hBit)]
    rfl
  · rw [decodeMonotonicBit, if_neg hBit, if_pos hBit]
    rfl

/-- The bits of one more byte stand before those of the others. -/
theorem bitCells_cons (byte : Byte) (bytes : List Byte) :
    bitCells (byte :: bytes) =
      ((List.range 8).map fun place => if byte &&& PackedBits.mask place ≠ 0 then Cell.erased else .consumed) ++ bitCells bytes := by
  have hLength : 8 * (byte :: bytes).length = 8 + 8 * bytes.length := by
    rw [List.length_cons]
    omega
  rw [bitCells, hLength, List.range_add, List.map_append, List.map_map]
  congr 1
  · apply List.map_congr_left
    intro place hPlace
    have hByte : place / 8 = 0 := by
      have := List.mem_range.1 hPlace
      omega
    simp only [bitCell, PackedBits.bit, hByte, List.getD_cons_zero, ne_eq, decide_not, Bool.not_eq_true', decide_eq_false_iff_not]
  · apply List.map_congr_left
    intro index _
    have hByte : (8 + index) / 8 = index / 8 + 1 := by omega
    have hMask : PackedBits.mask (8 + index) = PackedBits.mask index := by
      rw [PackedBits.mask, PackedBits.mask, Nat.add_mod_left]
    simp only [Function.comp_apply, bitCell, PackedBits.bit, hByte, hMask, List.getD_cons_succ]
    rfl

theorem decodeMonotonicBits_eq (bytes : List Byte) : decodeMonotonicBits bytes = countCells (bitCells bytes) (0, false) := by
  have hAll (state : Nat × Bool) :
      bytes.foldlM (fun state byte => (List.range 8).foldlM (decodeMonotonicBit byte) state) state =
        (bitCells bytes).foldlM countCell state := by
    induction bytes generalizing state with
    | nil => rfl
    | cons byte bytes ih =>
        rw [List.foldlM_cons, bitCells_cons, List.foldlM_append, List.foldlM_map]
        congr 1
        · congr 1
          funext state place
          exact decodeMonotonicBit_eq byte state place
        · funext state
          exact ih state
  rw [decodeMonotonicBits, hAll, countCells]
  rfl

/-- An image that does not end on a word has no value. -/
theorem words_ok {decodeFrom : List Byte → Nat → Bool → Except Error Nat} {cellOf : List Byte → Cell} {bytes : List Byte} {value : Nat}
    (hFrom : decodeFrom bytes 0 false = countCells (wordCells cellOf bytes) (0, false)) :
    (if bytes.length % 4 ≠ 0 then .error .storage else decodeFrom bytes 0 false) = .ok value ↔
      bytes.length % 4 = 0 ∧ tally (wordCells cellOf bytes) = some value ∧ value < 2 ^ 64 := by
  rw [hFrom]
  by_cases hLength : bytes.length % 4 = 0
  · rw [if_neg (not_not.2 hLength), count_ok]
    exact ⟨fun h => ⟨hLength, h⟩, fun h => h.2⟩
  · rw [if_pos hLength]
    constructor
    · intro h
      cases h
    · intro h
      exact absurd h.1 hLength

theorem decodeMonotonicWords_ok {bytes : List Byte} {value : Nat} :
    decodeMonotonicWords bytes = .ok value ↔
      bytes.length % 4 = 0 ∧ tally (wordCells monotonicCell bytes) = some value ∧ value < 2 ^ 64 :=
  words_ok (decodeMonotonicWordsFrom_eq bytes 0 false)

theorem decodeProgramOnceWords_ok {bytes : List Byte} {value : Nat} :
    decodeProgramOnceWords bytes = .ok value ↔
      bytes.length % 4 = 0 ∧ tally (wordCells programOnceCell bytes) = some value ∧ value < 2 ^ 64 :=
  words_ok (decodeProgramOnceWordsFrom_eq bytes 0 false)

theorem decodeMonotonicBits_ok {bytes : List Byte} {value : Nat} :
    decodeMonotonicBits bytes = .ok value ↔ tally (bitCells bytes) = some value ∧ value < 2 ^ 64 := by
  rw [decodeMonotonicBits_eq]
  exact count_ok

/-! Programming only clears bits. -/

/-- The second image is the first one with some of its bits cleared. -/
def Clears (first second : List Byte) : Prop := List.Forall₂ (fun old new => new &&& old = new) first second

/-- A byte that is not erased stays so. -/
theorem any_of_clears {first second : List Byte} (hClears : Clears first second) (h : first.any (· != 0xff) = true) :
    second.any (· != 0xff) = true := by
  induction hClears with
  | nil => exact h
  | @cons old new first second hByte _ ih =>
      rw [List.any_cons, Bool.or_eq_true, bne_iff_ne] at h ⊢
      cases h with
      | inl hOld =>
          left
          intro hNew
          have hOnes : (0xff : Byte) = -1 := rfl
          rw [hNew, UInt8.and_comm, hOnes, UInt8.and_neg_one] at hByte
          exact hOld hByte
      | inr hRest => exact Or.inr (ih hRest)

/-- A word that is zero stays zero. -/
theorem fromLE_of_clears {first second : List Byte} (hClears : Clears first second) (h : fromLE first = 0) : fromLE second = 0 := by
  induction hClears with
  | nil => exact h
  | @cons old new first second hByte _ ih =>
      rw [fromLE] at h ⊢
      have hOld : old = 0 := UInt8.toNat_inj.1 (by simp only [UInt8.toNat_zero]; omega)
      have hNew : new = 0 := by
        rw [hOld, UInt8.and_zero] at hByte
        exact hByte.symm
      rw [hNew, ih (by omega)]
      rfl

theorem monotonicCell_kept {first second : List Byte} (hClears : Clears first second) (h : monotonicCell first = .consumed) :
    monotonicCell second = .consumed := by
  rw [monotonicCell] at h ⊢
  split at h
  · rename_i hAny
    exact if_pos (any_of_clears hClears hAny)
  · cases h

theorem programOnceCell_kept {first second : List Byte} (hClears : Clears first second)
    (h : programOnceCell first = .consumed) : programOnceCell second = .consumed := by
  rw [programOnceCell] at h ⊢
  split at h
  · rename_i hZero
    exact if_pos (fromLE_of_clears hClears hZero)
  · split at h <;> cases h

/-- Word by word, what is consumed stays consumed. -/
theorem wordCells_kept {cellOf : List Byte → Cell} {first second : List Byte} (hClears : Clears first second)
    (hCell : ∀ old new, Clears old new → cellOf old = .consumed → cellOf new = .consumed) (i : Nat)
    (h : (wordCells cellOf first)[i]? = some .consumed) : (wordCells cellOf second)[i]? = some .consumed := by
  induction first using wordCells.induct generalizing second i with
  | case1 a b c d rest ih =>
      cases hClears with
      | cons hA hClears =>
      cases hClears with
      | cons hB hClears =>
      cases hClears with
      | cons hC hClears =>
      cases hClears with
      | cons hD hClears =>
      rw [wordCells] at h ⊢
      cases i with
      | zero =>
          injection h with h
          exact congrArg some (hCell _ _ (.cons hA (.cons hB (.cons hC (.cons hD .nil)))) h)
      | succ i => exact ih hClears i h
  | case2 bytes hShort =>
      rw [wordCells] at h
      · cases h
      · exact hShort

theorem length_of_clears {first second : List Byte} (hClears : Clears first second) : first.length = second.length :=
  hClears.length_eq

/-- A bit that is clear stays clear. -/
theorem bit_of_clears {first second : List Byte} (hClears : Clears first second) {index : Nat} (h : PackedBits.bit second index = true) :
    PackedBits.bit first index = true := by
  rw [PackedBits.bit_eq] at h ⊢
  generalize index % 8 = place at h ⊢
  generalize index / 8 = i at h ⊢
  induction hClears generalizing i with
  | nil => exact h
  | @cons old new first second hByte _ ih =>
      cases i with
      | zero =>
          rw [List.getD_cons_zero] at h ⊢
          rw [← hByte, UInt8.toBitVec_and, BitVec.getLsbD_and, Bool.and_eq_true] at h
          exact h.2
      | succ i => exact ih i h

theorem getElem?_bitCells (bytes : List Byte) (i : Nat) :
    (bitCells bytes)[i]? = if i < 8 * bytes.length then some (bitCell bytes i) else none := by
  rw [bitCells, List.getElem?_map]
  split
  · rename_i hInside
    rw [List.getElem?_range hInside]
    rfl
  · rename_i hOutside
    rw [List.getElem?_eq_none (by rw [List.length_range]; omega)]
    rfl

theorem bitCells_kept {first second : List Byte} (hClears : Clears first second) (i : Nat)
    (h : (bitCells first)[i]? = some .consumed) : (bitCells second)[i]? = some .consumed := by
  rw [getElem?_bitCells] at h ⊢
  rw [← length_of_clears hClears]
  split at h
  · rename_i hInside
    rw [if_pos hInside]
    injection h with h
    rw [bitCell] at h ⊢
    cases hBit : PackedBits.bit second i with
    | false => rfl
    | true =>
        rw [if_pos (bit_of_clears hClears hBit)] at h
        cases h
  · cases h

end MicroCard.Board
