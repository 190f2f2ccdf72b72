import MicroCard.Board.Counters
import MicroCard.Library.Checks

/-! Runs of the counters from an erased image. Each attempt programs the next word or the
next bit, and a torn attempt leaves whatever bits it had cleared by then. -/
namespace MicroCard.Board

open Bytes Journal Slices UnaryCounters CrashTriple Checks

def erasedWord : List Byte := List.replicate 4 0xff

def zeroWord : List Byte := List.replicate 4 0

/-- The images of the anchor's word counter, with the number of words that some attempt
did not leave erased. -/
inductive MonotonicRun (size : Nat) : List Byte → Nat → Prop where
  | erased : MonotonicRun size (List.replicate size 0xff) 0
  | attempt {image word : List Byte} {consumed value : Nat} (hRun : MonotonicRun size image consumed)
      (hValue : decodeMonotonicWords image = .ok value) (hRoom : value * 4 + 4 ≤ image.length) (hWord : word.length = 4) :
      MonotonicRun size (splice image (value * 4) word) (consumed + if word = erasedWord then 0 else 1)

/-- The images of a programmed-once counter, with the number of words that were programmed
to zero. -/
inductive ProgramOnceRun (addressBits size : Nat) : List Byte → Nat → Prop where
  | erased : ProgramOnceRun addressBits size (List.replicate size 0xff) 0
  | attempt {image word : List Byte} {completed generation offset : Nat} (hRun : ProgramOnceRun addressBits size image completed)
      (hNext : nextProgramOnceWordOn addressBits image generation = .ok offset) (hWord : word.length = 4) :
      ProgramOnceRun addressBits size (splice image offset word) (completed + if word = zeroWord then 1 else 0)

/-- The images of a bit anchor, with the number of bits that were cleared. An attempt that
is torn leaves its bit as it was. -/
inductive BitRun (size : Nat) : List Byte → Nat → Prop where
  | erased : BitRun size (List.replicate size 0xff) 0
  | attempt {image : List Byte} {completed value : Nat} (cleared : Bool) (hRun : BitRun size image completed)
      (hValue : decodeMonotonicBits image = .ok value) (hRoom : value < 8 * image.length) :
      BitRun size (PackedBits.setBit image value (!cleared)) (completed + if cleared then 1 else 0)

/-! The words of an image. -/

theorem exists_word {bytes : List Byte} (h : 4 ≤ bytes.length) : ∃ a b c d rest, bytes = a :: b :: c :: d :: rest := by
  match bytes, h with
  | a :: b :: c :: d :: rest, _ => exact ⟨a, b, c, d, rest, rfl⟩

theorem exists_bytes {word : List Byte} (h : word.length = 4) : ∃ a b c d, word = [a, b, c, d] := by
  match word, h with
  | [a, b, c, d], _ => exact ⟨a, b, c, d, rfl⟩

/-- To program one word changes one cell. -/
theorem wordCells_splice (cellOf : List Byte → Cell) {image word : List Byte} {index : Nat} (hWord : word.length = 4)
    (hRoom : index * 4 + 4 ≤ image.length) :
    wordCells cellOf (splice image (index * 4) word) = (wordCells cellOf image).set index (cellOf word) := by
  induction index generalizing image with
  | zero =>
      obtain ⟨a, b, c, d, rest, rfl⟩ := exists_word (by omega : 4 ≤ image.length)
      obtain ⟨p, q, r, s, rfl⟩ := exists_bytes hWord
      rfl
  | succ index ih =>
      obtain ⟨a, b, c, d, rest, rfl⟩ := exists_word (by omega : 4 ≤ image.length)
      have hRest : index * 4 + 4 ≤ rest.length := by
        simp only [List.length_cons] at hRoom
        omega
      have hSplice : splice (a :: b :: c :: d :: rest) ((index + 1) * 4) word = a :: b :: c :: d :: splice rest (index * 4) word := by
        have hBehind : (index + 1) * 4 + word.length = index * 4 + word.length + 4 := by omega
        rw [splice, hBehind, Nat.succ_mul]
        rfl
      rw [hSplice, wordCells, wordCells, ih hRest]
      rfl

theorem getElem?_wordCells (cellOf : List Byte → Cell) (image : List Byte) (index : Nat) :
    (wordCells cellOf image)[index]? =
      if index * 4 + 4 ≤ image.length then some (cellOf (slice image (index * 4) 4)) else none := by
  induction image using wordCells.induct generalizing index with
  | case1 a b c d rest ih =>
      rw [wordCells]
      cases index with
      | zero =>
          rw [if_pos (by simp only [List.length_cons]; omega)]
          rfl
      | succ index =>
          have hRoom : (index + 1) * 4 + 4 ≤ (a :: b :: c :: d :: rest).length ↔ index * 4 + 4 ≤ rest.length := by
            simp only [List.length_cons]
            omega
          have hSlice : slice (a :: b :: c :: d :: rest) ((index + 1) * 4) 4 = slice rest (index * 4) 4 := by
            rw [slice, Nat.succ_mul]
            rfl
          rw [List.getElem?_cons_succ, ih, hSlice]
          simp only [hRoom]
  | case2 bytes hShort =>
      have hLength : ¬4 ≤ bytes.length := by
        intro hLong
        obtain ⟨a, b, c, d, rest, rfl⟩ := exists_word hLong
        exact hShort a b c d rest rfl
      rw [wordCells, List.getElem?_nil, if_neg (by omega)]
      exact hShort

/-- An erased image has erased cells only. -/
theorem wordCells_erased (cellOf : List Byte → Cell) (hErased : cellOf erasedWord = .erased) (size : Nat) :
    wordCells cellOf (List.replicate size 0xff) = inOrder 0 (size / 4) := by
  apply List.ext_getElem?
  intro index
  rw [getElem?_wordCells, getElem?_inOrder, List.length_replicate, Nat.zero_add, if_neg (Nat.not_lt_zero index)]
  by_cases hRoom : index * 4 + 4 ≤ size
  · have hSlice : slice (List.replicate size (0xff : Byte)) (index * 4) 4 = erasedWord := by
      rw [slice, List.drop_replicate, List.take_replicate, erasedWord, Nat.min_eq_left (by omega)]
    rw [if_pos hRoom, if_pos (by omega), hSlice, hErased]
  · rw [if_neg hRoom, if_neg (by omega)]

theorem bitCells_erased (size : Nat) : bitCells (List.replicate size 0xff) = inOrder 0 (8 * size) := by
  apply List.ext_getElem?
  intro index
  rw [getElem?_bitCells, getElem?_inOrder, List.length_replicate, Nat.zero_add, if_neg (Nat.not_lt_zero index)]
  by_cases hInside : index < 8 * size
  · have hPlace : ∀ place < 8, (0xff : Byte).toBitVec.getLsbD place = true := by decide
    have hBit : PackedBits.bit (List.replicate size 0xff) index = true := by
      rw [PackedBits.bit_eq, List.getD_eq_getElem?_getD, List.getElem?_replicate_of_lt (by omega), Option.getD_some]
      exact hPlace _ (Nat.mod_lt index (by decide))
    rw [if_pos hInside, if_pos hInside, bitCell, if_pos hBit]
  · rw [if_neg hInside, if_neg hInside]

theorem bitCells_setBit {image : List Byte} {index : Nat} (hIndex : index < 8 * image.length) (erased : Bool) :
    bitCells (PackedBits.setBit image index erased) = (bitCells image).set index (if erased then .erased else .consumed) := by
  apply List.ext_getElem?
  intro other
  rw [getElem?_bitCells, List.getElem?_set, getElem?_bitCells, PackedBits.length_setBit]
  by_cases hSame : index = other
  · subst hSame
    rw [if_pos hIndex, if_pos rfl, if_pos (by rw [bitCells, List.length_map, List.length_range]; exact hIndex), bitCell,
      PackedBits.bit_setBit hIndex, if_pos rfl]
  · rw [if_neg hSame, bitCell, PackedBits.bit_setBit hIndex, if_neg (Ne.symm hSame)]
    rfl

/-! What every run keeps. -/

theorem monotonicCell_eq {word : List Byte} (hWord : word.length = 4) :
    monotonicCell word = if word = erasedWord then .erased else .consumed := by
  by_cases hErased : word = erasedWord
  · rw [if_pos hErased, hErased]
    rfl
  · rw [if_neg hErased, monotonicCell, if_pos]
    by_contra hNone
    rw [Bool.not_eq_true, List.any_eq_false] at hNone
    apply hErased
    rw [erasedWord, ← hWord]
    exact List.eq_replicate_of_mem fun byte hByte => by simpa using hNone byte hByte

theorem programOnceCell_consumed {word : List Byte} (hWord : word.length = 4) :
    programOnceCell word = .consumed ↔ word = zeroWord := by
  constructor
  · intro h
    rw [programOnceCell] at h
    split at h
    · rename_i hZero
      rw [← toLE_fromLE hWord, hZero]
      rfl
    · split at h <;> cases h
  · intro h
    rw [h]
    rfl

theorem programOnceCell_erased {word : List Byte} (hWord : word.length = 4) :
    programOnceCell word = .erased ↔ word = erasedWord := by
  constructor
  · intro h
    rw [programOnceCell] at h
    split at h
    · cases h
    · split at h
      · rename_i hOnes
        rw [← toLE_fromLE hWord, hOnes]
        rfl
      · cases h
  · intro h
    rw [h]
    rfl

/-- The words of the anchor stay in order: an attempt consumes the first erased word or
leaves it erased. -/
theorem MonotonicRun.inOrder {size consumed : Nat} {image : List Byte} (h : MonotonicRun size image consumed) :
    image.length = size ∧ consumed ≤ size / 4 ∧ wordCells monotonicCell image = inOrder consumed (size / 4 - consumed) := by
  induction h with
  | erased => exact ⟨List.length_replicate, Nat.zero_le _, wordCells_erased monotonicCell rfl size⟩
  | @attempt image word consumed value hRun hValue hRoom hWord ih =>
      obtain ⟨hLength, hConsumed, hCells⟩ := ih
      have hTally := (decodeMonotonicWords_ok.1 hValue).2.1
      rw [hCells, tally_inOrder] at hTally
      injection hTally with hTally
      subst hTally
      have hFree : 0 < size / 4 - consumed := by omega
      rw [length_splice (by omega), wordCells_splice monotonicCell hWord hRoom, hCells, monotonicCell_eq hWord]
      split
      · exact ⟨hLength, hConsumed, inOrder_set_erased⟩
      · rw [inOrder_set hFree, Nat.sub_sub]
        exact ⟨hLength, by omega, rfl⟩

theorem MonotonicRun.decodes {size consumed : Nat} {image : List Byte} (h : MonotonicRun size image consumed) (hWords : size % 4 = 0)
    (hSize : size < 2 ^ 64) : decodeMonotonicWords image = .ok consumed := by
  obtain ⟨hLength, hConsumed, hCells⟩ := h.inOrder
  rw [decodeMonotonicWords_ok, hLength, hCells, tally_inOrder]
  exact ⟨hWords, rfl, by omega⟩

theorem BitRun.inOrder {size completed : Nat} {image : List Byte} (h : BitRun size image completed) :
    image.length = size ∧ completed ≤ 8 * size ∧ bitCells image = inOrder completed (8 * size - completed) := by
  induction h with
  | erased => exact ⟨List.length_replicate, Nat.zero_le _, bitCells_erased size⟩
  | @attempt image completed value cleared hRun hValue hRoom ih =>
      obtain ⟨hLength, hCompleted, hCells⟩ := ih
      have hTally := (decodeMonotonicBits_ok.1 hValue).1
      rw [hCells, tally_inOrder] at hTally
      injection hTally with hTally
      subst hTally
      have hFree : 0 < 8 * size - completed := by omega
      rw [PackedBits.length_setBit, bitCells_setBit hRoom, hCells]
      cases cleared with
      | false => exact ⟨hLength, hCompleted, inOrder_set_erased⟩
      | true =>
          refine ⟨hLength, ?_, ?_⟩
          · rw [if_pos rfl]
            omega
          · exact (inOrder_set hFree).trans (by rw [if_pos rfl, Nat.sub_sub])

/-- The words of a programmed-once counter stay in order until a torn word breaks it. -/
def WordsInOrder (size completed : Nat) (image : List Byte) : Prop :=
  completed ≤ size / 4 ∧ wordCells programOnceCell image = inOrder completed (size / 4 - completed)

def Torn (image : List Byte) : Prop := ∃ index : Nat, (wordCells programOnceCell image)[index]? = some .broken

theorem Torn.refuses {image : List Byte} (h : Torn image) (value : Nat) : decodeProgramOnceWords image ≠ .ok value := by
  intro hValue
  obtain ⟨index, hBroken⟩ := h
  have hTally := (decodeProgramOnceWords_ok.1 hValue).2.1
  rw [tally_broken hBroken] at hTally
  cases hTally

/-- The next word is the one behind the value. -/
theorem nextProgramOnceWordOn_ok {addressBits : Nat} {image : List Byte} {generation offset : Nat} (hImage : image.length < 2 ^ addressBits) :
    nextProgramOnceWordOn addressBits image generation = .ok offset ↔
      ∃ current, decodeProgramOnceWords image = .ok current ∧ current + 1 < 2 ^ 64 ∧ generation = current + 1 ∧
        offset = current * 4 ∧ offset + 4 ≤ image.length := by
  simp only [nextProgramOnceWordOn, bind_ok, failIf_ok, pure_ok, not_not]
  constructor
  · intro h
    obtain ⟨current, hCurrent, -, hNext, -, -, -, -, -, -, -, hRoom, hOffset⟩ := h
    rw [checkedAdd64] at hNext
    split at hNext
    · rename_i hBound
      injection hNext with hNext
      exact ⟨current, hCurrent, hBound, hNext.symm, by omega, by omega⟩
    · cases hNext
  · intro h
    obtain ⟨current, hCurrent, hBound, hNext, hOffset, hRoom⟩ := h
    exact ⟨current, hCurrent, (), by rw [checkedAdd64, if_pos hBound, hNext], (), by omega, (), by omega, (), by omega, (),
      by omega, by omega⟩

/-- In a run the value is the number of completed words, and a torn word is never
programmed again. -/
theorem ProgramOnceRun.inOrder_or_torn {addressBits size completed : Nat} {image : List Byte} (hSize : size < 2 ^ addressBits)
    (h : ProgramOnceRun addressBits size image completed) :
    image.length = size ∧ (WordsInOrder size completed image ∨ Torn image) := by
  induction h with
  | erased => exact ⟨List.length_replicate, Or.inl ⟨Nat.zero_le _, wordCells_erased programOnceCell rfl size⟩⟩
  | @attempt image word completed generation offset hRun hNext hWord ih =>
      obtain ⟨hLength, hState⟩ := ih
      obtain ⟨current, hCurrent, -, -, rfl, hRoom⟩ := (nextProgramOnceWordOn_ok (by omega)).1 hNext
      refine ⟨(length_splice (by omega)).trans hLength, ?_⟩
      cases hState with
      | inr hTorn => exact absurd hCurrent (hTorn.refuses current)
      | inl hOrder =>
          obtain ⟨hCompleted, hCells⟩ := hOrder
          have hTally := (decodeProgramOnceWords_ok.1 hCurrent).2.1
          rw [hCells, tally_inOrder] at hTally
          injection hTally with hTally
          subst hTally
          have hFree : 0 < size / 4 - completed := by omega
          have hNew := wordCells_splice programOnceCell hWord hRoom
          rw [hCells] at hNew
          cases hCell : programOnceCell word with
          | consumed =>
              rw [if_pos ((programOnceCell_consumed hWord).1 hCell)]
              rw [hCell, inOrder_set hFree, Nat.sub_sub] at hNew
              exact Or.inl ⟨by omega, hNew⟩
          | erased =>
              rw [if_neg fun hZero => by rw [(programOnceCell_consumed hWord).2 hZero] at hCell; cases hCell]
              rw [hCell, inOrder_set_erased] at hNew
              exact Or.inl ⟨hCompleted, hNew⟩
          | broken =>
              right
              refine ⟨completed, ?_⟩
              rw [hNew, hCell, List.getElem?_set_self (by rw [length_inOrder]; omega)]

theorem ProgramOnceRun.decodes {addressBits size completed : Nat} {image : List Byte} (hSize : size < 2 ^ addressBits)
    (h : ProgramOnceRun addressBits size image completed) {value : Nat} (hValue : decodeProgramOnceWords image = .ok value) :
    value = completed := by
  cases (h.inOrder_or_torn hSize).2 with
  | inr hTorn => exact absurd hValue (hTorn.refuses value)
  | inl hOrder =>
      have hTally := (decodeProgramOnceWords_ok.1 hValue).2.1
      rw [hOrder.2, tally_inOrder] at hTally
      injection hTally with hTally
      exact hTally.symm

/-- The erased words of an image are its erased cells. -/
theorem erased_word_iff {image : List Byte} {index : Nat} (hRoom : index * 4 + 4 ≤ image.length) :
    slice image (index * 4) 4 = erasedWord ↔ (wordCells programOnceCell image)[index]? = some .erased := by
  have hWord : (slice image (index * 4) 4).length = 4 := by
    rw [slice, List.length_take, List.length_drop]
    omega
  rw [getElem?_wordCells, if_pos hRoom, Option.some_inj, programOnceCell_erased hWord]

/-- The next word of a reachable image is the erased word that counts to the generation. -/
theorem ProgramOnceRun.next_iff {addressBits size completed : Nat} {image : List Byte} (hSize : size < 2 ^ addressBits)
    (h : ProgramOnceRun addressBits size image completed) (generation offset : Nat) :
    nextProgramOnceWordOn addressBits image generation = .ok offset ↔
      offset % 4 = 0 ∧ offset + 4 ≤ image.length ∧ slice image offset 4 = erasedWord ∧
        decodeProgramOnceWords (splice image offset zeroWord) = .ok generation := by
  obtain ⟨hLength, hState⟩ := h.inOrder_or_torn hSize
  have hZero : zeroWord.length = 4 := List.length_replicate
  rw [nextProgramOnceWordOn_ok (by omega)]
  constructor
  · intro hNext
    obtain ⟨current, hCurrent, hBound, rfl, rfl, hRoom⟩ := hNext
    cases hState with
    | inr hTorn => exact absurd hCurrent (hTorn.refuses current)
    | inl hOrder =>
        obtain ⟨hWords, hTally, -⟩ := decodeProgramOnceWords_ok.1 hCurrent
        obtain ⟨hCompleted, hCells⟩ := hOrder
        rw [hCells, tally_inOrder] at hTally
        injection hTally with hTally
        subst hTally
        refine ⟨by omega, hRoom, ?_, ?_⟩
        · rw [erased_word_iff hRoom, hCells]
          exact erased_iff.2 (by omega)
        · rw [decodeProgramOnceWords_ok, length_splice (by omega), wordCells_splice programOnceCell hZero hRoom, hCells,
            (programOnceCell_consumed hZero).2 rfl, inOrder_set (by omega), tally_inOrder]
          exact ⟨hWords, rfl, hBound⟩
  · intro hProgrammed
    obtain ⟨hAligned, hRoom, hErased, hValue⟩ := hProgrammed
    obtain ⟨index, rfl⟩ : ∃ index, offset = index * 4 := ⟨offset / 4, by omega⟩
    rw [erased_word_iff hRoom] at hErased
    obtain ⟨hWords, hTally, hBound⟩ := decodeProgramOnceWords_ok.1 hValue
    rw [length_splice (by omega)] at hWords
    rw [wordCells_splice programOnceCell hZero hRoom, (programOnceCell_consumed hZero).2 rfl] at hTally
    cases hState with
    | inr hTorn =>
        obtain ⟨broken, hBroken⟩ := hTorn
        have hOther : index ≠ broken := by
          intro hSame
          rw [hSame, hBroken] at hErased
          cases hErased
        rw [tally_broken (by rw [List.getElem?_set_ne hOther]; exact hBroken)] at hTally
        cases hTally
    | inl hOrder =>
        obtain ⟨hCompleted, hCells⟩ := hOrder
        rw [hCells] at hErased hTally
        obtain ⟨rfl, rfl⟩ := tally_set hErased hTally
        refine ⟨index, ?_, hBound, rfl, rfl, hRoom⟩
        rw [decodeProgramOnceWords_ok, hCells, tally_inOrder]
        exact ⟨hWords, rfl, by omega⟩

/-- The first word of a counter of two words is programmed. -/
theorem two_words_run : ProgramOnceRun 32 8 (splice (List.replicate 8 0xff) 0 zeroWord) 1 :=
  @ProgramOnceRun.attempt 32 8 _ zeroWord 0 1 0 .erased rfl rfl

/-- As long as bits only clear, no decoder returns a smaller value. On the images of a run
the anchor's counter counts each word that does not stay erased, torn or not, the other two
count the completed steps or fail, and the next word of a programmed-once counter is the
erased word that counts to the generation when it is programmed to zero. -/
theorem counter_decoders_sound {addressBits size : Nat} (hBits : addressBits ≤ 64) (hSize : size < 2 ^ addressBits) :
    (∀ first second value other, Clears first second →
      (decodeMonotonicWords first = .ok value → decodeMonotonicWords second = .ok other → value ≤ other) ∧
      (decodeProgramOnceWords first = .ok value → decodeProgramOnceWords second = .ok other → value ≤ other) ∧
      (decodeMonotonicBits first = .ok value → decodeMonotonicBits second = .ok other → value ≤ other)) ∧
    (∀ image consumed, MonotonicRun size image consumed → size % 4 = 0 → decodeMonotonicWords image = .ok consumed) ∧
    (∀ image completed, BitRun size image completed →
      ∀ value, decodeMonotonicBits image = .ok value → value = completed) ∧
    ∀ image completed, ProgramOnceRun addressBits size image completed →
      (∀ value, decodeProgramOnceWords image = .ok value → value = completed) ∧
      ∀ generation offset, nextProgramOnceWordOn addressBits image generation = .ok offset ↔
        offset % 4 = 0 ∧ offset + 4 ≤ image.length ∧ slice image offset 4 = erasedWord ∧
          decodeProgramOnceWords (splice image offset zeroWord) = .ok generation := by
  have hBound : size < 2 ^ 64 := lt_of_lt_of_le hSize (Nat.pow_le_pow_right (by decide) hBits)
  refine ⟨?_, fun image consumed hRun hWords => hRun.decodes hWords hBound, ?_,
    fun image completed hRun => ⟨fun value hValue => hRun.decodes hSize hValue, hRun.next_iff hSize⟩⟩
  · intro first second value other hClears
    refine ⟨fun hFirst hSecond => ?_, fun hFirst hSecond => ?_, fun hFirst hSecond => ?_⟩
    · exact tally_mono (decodeMonotonicWords_ok.1 hFirst).2.1 (decodeMonotonicWords_ok.1 hSecond).2.1
        (wordCells_kept hClears fun _ _ => monotonicCell_kept)
    · exact tally_mono (decodeProgramOnceWords_ok.1 hFirst).2.1 (decodeProgramOnceWords_ok.1 hSecond).2.1
        (wordCells_kept hClears fun _ _ => programOnceCell_kept)
    · exact tally_mono (decodeMonotonicBits_ok.1 hFirst).1 (decodeMonotonicBits_ok.1 hSecond).1 (bitCells_kept hClears)
  · intro image completed hRun value hValue
    have hTally := (decodeMonotonicBits_ok.1 hValue).1
    rw [hRun.inOrder.2.2, tally_inOrder] at hTally
    injection hTally with hTally
    exact hTally.symm

/-- With one word of two programmed, the second one is next. -/
theorem counter_decoders_sound_two :
    slice (splice (List.replicate 8 0xff) 0 zeroWord) 4 4 = erasedWord ∧
      decodeProgramOnceWords (splice (splice (List.replicate 8 0xff) 0 zeroWord) 4 zeroWord) = .ok 2 := by
  have hSound := @counter_decoders_sound 32 8 (by decide) (by decide)
  have hNext := (hSound.2.2.2 _ _ two_words_run).2 2 4
  exact (hNext.1 rfl).2.2

/-- A word that is programmed already is refused, although to program it again would leave
the same value. -/
theorem programmed_word_refused :
    ¬∀ image completed, ProgramOnceRun 32 8 image completed →
      ∀ generation offset, nextProgramOnceWordOn 32 image generation = .ok offset ↔
        offset % 4 = 0 ∧ offset + 4 ≤ image.length ∧ decodeProgramOnceWords (splice image offset zeroWord) = .ok generation := by
  intro hAll
  have hNext := (hAll _ _ two_words_run 1 0).2 ⟨rfl, by decide, rfl⟩
  cases hNext

end MicroCard.Board
