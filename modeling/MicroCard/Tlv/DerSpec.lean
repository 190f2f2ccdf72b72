import MicroCard.Tlv.Sequences
import MicroCard.Tlv.WritersSpec

/-! What each writer of distinguished objects leaves in the destination, and what the reader
and the validation say about an object that stands there. -/
namespace MicroCard.Tlv

open Bytes Halting ManagedArrays Slices BerTlv

section ReadBack

variable {items : List Byte} {at' : Nat} {o : Object}

/-- What the reader reports about the bytes of an object, for any result array with room. -/
def ReadsBack (items : List Byte) (offset length : Int) (tag : Int) (value : List Byte) : Prop :=
  ∀ (result : List Int) (resultOffset : Int), contains result.length resultOffset resultSize →
    ∃ (result' : List Int) (valueOffset valueLength : Nat),
      tryRead items offset length result resultOffset true = .ok (true, result') ∧
        get result' (resultOffset + 0) = (.ok tag : Run Int) ∧
        get result' (resultOffset + 2) = (.ok (valueOffset : Int) : Run Int) ∧
        get result' (resultOffset + 3) = (.ok (valueLength : Int) : Run Int) ∧
        get result' (resultOffset + 4) = (.ok (offset + length) : Run Int) ∧ slice items valueOffset valueLength = value

/-- The validation accepts a range with any scratch array that is large enough. -/
def Validates (items : List Byte) (offset length : Int) : Prop :=
  ∃ enough : Nat, ∀ (scratch : List Int) (scratchOffset scratchLength : Int),
    contains scratch.length scratchOffset scratchLength → enough ≤ scratchLength →
      ∃ scratch', tryValidate items offset length scratch scratchOffset scratchLength = .ok (true, scratch')

theorem window_splice {values : List Byte} (h : at' + values.length ≤ items.length) :
    window (splice items at' values) at' (at' + values.length) = values := by
  apply List.ext_getElem?
  intro i
  rw [window, List.getElem?_drop]
  by_cases hInside : i < values.length
  · rw [List.getElem?_take_of_lt (by omega), getElem?_splice h, if_neg (by omega), if_pos (by omega),
      Nat.add_sub_cancel_left]
  · rw [List.getElem?_eq_none (by rw [List.length_take]; omega), List.getElem?_eq_none (by omega)]

theorem slice_window (items : List Byte) (at' count : Nat) : slice items at' count = window items at' (at' + count) := by
  rw [slice, window, List.take_drop]

/-- An object that is written in a canonical form is read back. -/
theorem reads_written (hValid : o.Valid) (hCanonical : o.Canonical) (h : at' + o.bytes.length ≤ items.length) :
    ReadsBack (splice items at' o.bytes) at' o.bytes.length o.tag o.value := by
  intro result resultOffset hResult
  have hParts := hResult
  unfold contains at hParts
  obtain ⟨resultOffset, rfl⟩ := Int.eq_ofNat_of_zero_le hParts.1
  have hRoom : resultOffset + resultSize ≤ result.length := by omega
  have hRange : at' + o.bytes.length ≤ (splice items at' o.bytes).length := by
    rw [length_splice h]
    exact h
  have hSplit : split o.bytes = some (o, []) := by simpa only [List.append_nil] using split_bytes hValid []
  have hRead := @tryRead_inside (splice items at' o.bytes) result at' o.bytes.length resultOffset true hRange hRoom
  rw [window_splice h, find_distinguished.2 ⟨[], hSplit, hCanonical⟩] at hRead
  obtain ⟨hTag, hOffset, hSize, hEnd⟩ := get_stored hRoom ((Reading.of o).shift at')
  refine ⟨_, o.headerBytes.length + at', o.value.length, hRead, hTag, hOffset, hSize, ?_, ?_⟩
  · rw [hEnd]
    exact congrArg Except.ok (congrArg Nat.cast (Nat.add_comm _ _))
  · have hBytes : o.bytes.length = o.headerBytes.length + o.value.length := List.length_append
    have hWindow : window (splice items at' o.bytes) at' (at' + o.bytes.length) = o.headerBytes ++ o.value := window_splice h
    obtain ⟨hBehind, -⟩ := window_append hRange (Nat.le_add_right _ _) hWindow
    have hStart : o.headerBytes.length + at' = at' + o.headerBytes.length := Nat.add_comm _ _
    have hEnds : at' + o.headerBytes.length + o.value.length = at' + o.bytes.length := by omega
    rw [slice_window, hStart, hEnds, ← hBehind]

/-- What the reader reports stands in the range that it was asked about. -/
theorem ReadsBack.inside {offset length tag : Int} {value : List Byte} (h : ReadsBack items offset length tag value) :
    value.length + 2 ≤ length := by
  obtain ⟨result', valueOffset, valueLength, hRead, -, -, hSize, -, hValue⟩ := h (List.replicate resultSize 0) 0
    (by rw [List.length_replicate]; unfold contains; omega)
  have hRange : contains items.length offset length := by
    by_contra hOutside
    rw [tryRead_outside true (.inl hOutside)] at hRead
    cases hRead
  unfold contains at hRange
  obtain ⟨offset, rfl⟩ := Int.eq_ofNat_of_zero_le hRange.1
  obtain ⟨length, rfl⟩ := Int.eq_ofNat_of_zero_le hRange.2.1
  have hInside : offset + length ≤ items.length := by omega
  have hRoom : 0 + resultSize ≤ (List.replicate resultSize (0 : Int)).length := by rw [List.length_replicate, Nat.zero_add]
  have hFound := @tryRead_inside items (List.replicate resultSize 0) offset length 0 true hInside hRoom
  rw [show ((0 : Nat) : Int) = 0 from rfl, hRead] at hFound
  cases hFind : find (window items offset (offset + length)) true with
  | none =>
      rw [hFind] at hFound
      cases hFound
  | some o =>
      rw [hFind] at hFound
      cases hFound
      obtain ⟨rest, hSplit, -⟩ := find_distinguished.1 hFind
      have hBytes := congrArg List.length (split_iff.1 hSplit).2
      have hHeader := o.length_headerBytes_pos
      rw [window_length hInside, List.length_append, Object.bytes, List.length_append] at hBytes
      have hStored := (get_stored hRoom ((Reading.of o).shift offset)).2.2.1
      rw [show ((0 : Nat) : Int) = 0 from rfl, hSize] at hStored
      have hLength : valueLength = o.value.length := Int.ofNat.inj (Except.ok.inj hStored)
      rw [← hValue, slice, List.length_take]
      omega

theorem validates_written {levels : Nat} (hForest : Forest levels o.bytes) (h : at' + o.bytes.length ≤ items.length) :
    Validates (splice items at' o.bytes) at' o.bytes.length := by
  refine ⟨levels + (resultSize + 1), ?_⟩
  intro scratch scratchOffset scratchLength hScratch hEnough
  unfold contains at hScratch
  obtain ⟨scratchOffset, rfl⟩ := Int.eq_ofNat_of_zero_le hScratch.1
  obtain ⟨scratchLength, rfl⟩ := Int.eq_ofNat_of_zero_le hScratch.2.1
  have hRange : at' + o.bytes.length ≤ (splice items at' o.bytes).length := by
    rw [length_splice h]
    exact h
  obtain ⟨valid, scratch', hRun, hMeaning, -⟩ := @tryValidate_inside (splice items at' o.bytes) scratch at' o.bytes.length
    scratchOffset scratchLength hRange (by omega) (by omega)
  rw [window_splice h] at hMeaning
  obtain rfl : valid = true := hMeaning.2 (hForest.deepen (by omega))
  exact ⟨scratch', hRun⟩

/-- The validation of an object looks at it and at what it holds. -/
theorem Validates.forest {items : List Byte} {at' count : Nat} (h : Validates items at' count)
    (hRange : at' + count ≤ items.length) : ∃ levels, Forest levels (window items at' (at' + count)) := by
  obtain ⟨enough, hAccepts⟩ := h
  obtain ⟨scratch', hRun⟩ := hAccepts (List.replicate (enough + (resultSize + 1)) 0) 0 (enough + (resultSize + 1) : Nat)
    (by rw [List.length_replicate]; unfold contains; omega) (by omega)
  obtain ⟨valid, scratch'', hRun', hMeaning, -⟩ := @tryValidate_inside items (List.replicate (enough + (resultSize + 1)) 0)
    at' count 0 (enough + (resultSize + 1)) hRange (by rw [List.length_replicate]; omega) (by omega)
  rw [show ((0 : Nat) : Int) = 0 from rfl, hRun] at hRun'
  cases hRun'
  exact ⟨_, hMeaning.1 rfl⟩

theorem forest_object {levels : Nat} (hValid : o.Valid) :
    Forest levels o.bytes ↔ o.Canonical ∧ (o.Opens → ∃ inner, levels = inner + 1 ∧ Forest inner o.value) := by
  have hSplit : split o.bytes = some (o, []) := by simpa only [List.append_nil] using split_bytes hValid []
  rw [forest_iff hSplit]
  exact and_congr_right fun _ => and_iff_right (Forest.nil levels)

end ReadBack

section Integers

variable {memory : Memory} {output : Nat}

/-- The low octets of an integer, the last one first in significance. -/
def integerOctets : Nat → Int → List Byte
  | 0, _ => []
  | count + 1, value => integerOctets count (value >>> (8 : Nat)) ++ [UInt8.ofInt value]

@[simp] theorem length_integerOctets (count : Nat) (value : Int) : (integerOctets count value).length = count := by
  induction count generalizing value with
  | zero => rfl
  | succ count ih => rw [integerOctets, List.length_append, ih, List.length_singleton]

/-- The number that octets stand for in two's complement. -/
def signedNumber (octets : List Byte) : Int :=
  let magnitude : Int := fromLE octets.reverse
  match octets with
  | [] => 0
  | first :: _ => if first.toNat < 128 then magnitude else magnitude - 256 ^ octets.length

theorem putInteger_inside {at' count : Nat} {value : Int} (h : at' + count ≤ (memory output).length) :
    Der.putInteger memory output at' count value = .ok (memory.written output at' (integerOctets count value)) := by
  induction count generalizing memory value with
  | zero =>
      have hNothing : splice (memory output) at' [] = memory output := by simp [splice]
      rw [integerOctets, Memory.written, hNothing, Function.update_eq_self]
      rfl
  | succ count ih =>
      have hOne : at' + count + ([UInt8.ofInt value] : List Byte).length ≤ (memory output).length := by
        rw [List.length_singleton]
        omega
      have hPlace : (at' : Int) + (count : Nat) = ((at' + count : Nat) : Int) := rfl
      rw [Der.putInteger, hPlace, Memory.put_inside (by omega)]
      simp only [bind, Except.bind]
      rw [ih (by rw [Memory.length_written hOne]; omega)]
      have hFront : splice (splice (memory output) (at' + (integerOctets count (value >>> (8 : Nat))).length) [UInt8.ofInt value]) at'
          (integerOctets count (value >>> (8 : Nat))) =
            splice (memory output) at' (integerOctets count (value >>> (8 : Nat)) ++ [UInt8.ofInt value]) :=
        splice_front (by rw [List.length_append, length_integerOctets, List.length_singleton]; omega)
      rw [length_integerOctets] at hFront
      rw [Memory.written, Memory.written, Memory.written, Function.update_self, Function.update_idem, hFront, integerOctets]

theorem toNat_ofInt (value : Int) : ((UInt8.ofInt value).toNat : Int) = value % 256 := by
  rw [UInt8.ofInt, UInt8.toNat_ofNat']
  omega

theorem shift_eight (value : Int) : value >>> (8 : Nat) = value / 256 := Int.shiftRight_eq_div_pow value 8

/-- The octets of an integer are as few as they can be, and stand for it. -/
theorem integer_canonical {value : Int} (hLow : -2147483648 ≤ value) (hHigh : value < 2147483648) :
    BerTlv.canonicalInteger (integerOctets (Der.integerLength value).toNat value) = true ∧
      signedNumber (integerOctets (Der.integerLength value).toNat value) = value := by
  have hLast := toNat_ofInt value
  have hThird := toNat_ofInt (value / 256)
  have hSecond := toNat_ofInt (value / 256 / 256)
  have hFirst := toNat_ofInt (value / 256 / 256 / 256)
  have hZero (v : Int) : UInt8.ofInt v = 0 ↔ (UInt8.ofInt v).toNat = 0 := eq_iff_toNat (by decide)
  have hOnes (v : Int) : UInt8.ofInt v = 255 ↔ (UInt8.ofInt v).toNat = 255 := eq_iff_toNat (by decide)
  unfold Der.integerLength
  split_ifs with hOne hTwo hThree <;>
    simp only [integerOctets, shift_eight, Int.reduceToNat, List.nil_append, List.cons_append, BerTlv.canonicalInteger,
      signedNumber, fromLE, hZero, hOnes, List.reverse_cons, List.reverse_nil, List.length_cons, List.length_nil,
      decide_eq_true_eq, true_and]
  · split_ifs <;> omega
  · refine ⟨by omega, ?_⟩
    split_ifs <;> omega
  · refine ⟨by omega, ?_⟩
    split_ifs <;> omega
  · refine ⟨by omega, ?_⟩
    split_ifs <;> omega

end Integers

section Checks

variable {input : List Byte} {offset length : Int}

/-- The check of an object identifier, without the reader. -/
theorem isObjectIdentifier_eq : isObjectIdentifier input offset length =
    .ok (decide (contains input.length offset length ∧
      BerTlv.canonicalValue 6 (slice input offset.toNat length.toNat) = true)) := by
  by_cases hContained : contains input.length offset length
  · have hParts := hContained
    unfold contains at hParts
    obtain ⟨offset, rfl⟩ := Int.eq_ofNat_of_zero_le hParts.1
    obtain ⟨length, rfl⟩ := Int.eq_ofNat_of_zero_le hParts.2.1
    have hValue := @isValue_eq input offset length 6 (by omega)
    rw [isValue, if_pos rfl] at hValue
    rw [hValue, Int.toNat_natCast, Int.toNat_natCast, slice_window]
    simp [hContained]
  · simp [isObjectIdentifier, hContained, pure, Except.pure]

/-- The checks of a bit string pass exactly what makes canonical contents. -/
theorem bitStringRefused_eq {unusedBits : Int} : Der.bitStringRefused input unusedBits offset length =
    .ok (decide ¬(contains input.length offset length ∧ 0 ≤ unusedBits ∧ unusedBits ≤ 7 ∧
      canonicalBits (UInt8.ofInt unusedBits :: slice input offset.toNat length.toNat) = true)) := by
  by_cases hContained : contains input.length offset length
  · have hParts := hContained
    unfold contains at hParts
    obtain ⟨offset, rfl⟩ := Int.eq_ofNat_of_zero_le hParts.1
    obtain ⟨length, rfl⟩ := Int.eq_ofNat_of_zero_le hParts.2.1
    by_cases hBits : 0 ≤ unusedBits ∧ unusedBits ≤ 7
    · obtain ⟨unusedBits, rfl⟩ := Int.eq_ofNat_of_zero_le hBits.1
      have hUnused : (UInt8.ofInt (unusedBits : Int)).toNat = unusedBits := by
        have := toNat_ofInt (unusedBits : Int)
        omega
      have hSmall : unusedBits ≤ 7 := by omega
      simp only [Der.bitStringRefused, canonicalBits, hUnused, hContained, Int.toNat_natCast, hSmall, true_and, not_true,
        false_or]
      rcases Nat.eq_zero_or_pos length with rfl | hSome
      · have hNothing : slice input offset 0 = [] := by rw [slice, List.take_zero]
        rw [hNothing]
        by_cases hZero : unusedBits = 0
        · simp [hZero, pure, Except.pure]
        · simp [hZero, hSmall, pure, Except.pure]
      · have hLastIndex : (offset : Int) + length - 1 = ((offset + length - 1 : Nat) : Int) := by omega
        have hByte : input[offset + length - 1]? = some input[offset + length - 1] := List.getElem?_eq_getElem (by omega)
        have hLast : (slice input offset length).getLast? = some input[offset + length - 1] := by
          rw [slice_window, List.getLast?_eq_getElem?, window_length (by omega), window, List.getElem?_drop,
            List.getElem?_take_of_lt (by omega), ← hByte]
          congr 1
          omega
        have hMask : (input[offset + length - 1]).toNat &&& (1 <<< unusedBits) - 1 =
            (input[offset + length - 1]).toNat % 2 ^ unusedBits := by
          rw [Nat.one_shiftLeft, Nat.and_two_pow_sub_one_eq_mod]
        have hNonzero : length ≠ 0 := by omega
        rw [hLast]
        by_cases hZero : unusedBits = 0
        · simp [hZero, hNonzero, pure, Except.pure]
        · have hPositive : 0 < unusedBits := Nat.pos_of_ne_zero hZero
          simp only [hZero, hSome, hPositive, hNonzero, Nat.cast_pos, Nat.cast_eq_zero, and_self, if_true, false_and, or_false]
          rw [if_neg (by omega), hLastIndex, get_some hByte]
          simp [hMask, pure, Except.pure, bind, Except.bind, hSmall]
    · have hRefused : unusedBits < 0 ∨ 7 < unusedBits ∨ (length : Int) = 0 ∧ unusedBits ≠ 0 := by omega
      simp only [Der.bitStringRefused, hContained, not_true, false_or, hRefused, if_true]
      rw [decide_eq_true]
      · rfl
      · exact fun h => hBits ⟨h.2.1, h.2.2.1⟩
  · simp [Der.bitStringRefused, hContained, pure, Except.pure]

theorem compareBytes_returns {left right : Nat} {otherwise : Int} {common : Nat} (hLeft : left + common ≤ input.length)
    (hRight : right + common ≤ input.length) : ∃ difference, compareBytes input left right otherwise common = .ok difference := by
  induction common generalizing left right with
  | zero => exact ⟨otherwise, rfl⟩
  | succ common ih =>
      have hLeftByte : input[left]? = some input[left] := List.getElem?_eq_getElem (by omega)
      have hRightByte : input[right]? = some input[right] := List.getElem?_eq_getElem (by omega)
      have hNextLeft : (left : Int) + 1 = ((left + 1 : Nat) : Int) := rfl
      have hNextRight : (right : Int) + 1 = ((right + 1 : Nat) : Int) := rfl
      simp only [compareBytes, get_some hLeftByte, get_some hRightByte, bind, Except.bind, hNextLeft, hNextRight]
      split_ifs with hDifferent
      · exact ⟨_, rfl⟩
      · exact ih (by omega) (by omega)

/-- What the check of the order keeps: the object before the cursor lies inside the array. -/
structure Ordering (size stop : Nat) (order : Order) (cursor : Nat) : Prop where
  atCursor : order.cursor = cursor
  inside : cursor ≤ stop
  sized : order.scratch.length = size
  previous : order.previousOffset < 0 ∨ ∃ previousOffset previousLength : Nat, order.previousOffset = previousOffset ∧
    order.previousLength = previousLength ∧ previousOffset + previousLength ≤ cursor

/-- The check of the order returns. -/
theorem canonicalSetOfOrder_returns {offset length scratchOffset : Nat} {scratch : List Int}
    (hRange : offset + length ≤ input.length) (hScratch : scratchOffset + resultSize ≤ scratch.length) :
    ∃ ordered scratch', canonicalSetOfOrder input offset length scratch scratchOffset = .ok (ordered, scratch') := by
  have hStop : (offset : Int) + length = ((offset + length : Nat) : Int) := rfl
  have hLoop : Settles (loop (orderStep input scratchOffset (offset + length : Nat)) (length + 1) ⟨offset, -1, 0, scratch⟩)
      fun _ => True := by
    apply Settles.loop (I := fun order : Order => ∃ cursor, Ordering scratch.length (offset + length) order cursor)
      fun order => (((offset + length : Nat) : Int) - order.cursor).toNat
    · intro order ⟨cursor, hOrder⟩
      rw [orderStep, hOrder.atCursor]
      rcases Nat.lt_or_eq_of_le hOrder.inside with hMore | hEnd
      · have hLeft : ((offset + length : Nat) : Int) - cursor = ((offset + length - cursor : Nat) : Int) := by omega
        have hWhole : cursor + (offset + length - cursor) = offset + length := by omega
        have hRoom : scratchOffset + resultSize ≤ order.scratch.length := by
          rw [hOrder.sized]
          exact hScratch
        have hRead := @tryRead_inside input order.scratch cursor (offset + length - cursor) scratchOffset true (by omega) hRoom
        rw [hWhole] at hRead
        rw [if_neg (by omega), hLeft, hRead]
        cases hFind : find (window input cursor (offset + length)) true with
        | none => trivial
        | some o =>
            obtain ⟨rest, hSplit, -⟩ := find_distinguished.1 hFind
            obtain ⟨-, hNext⟩ := window_append hRange hOrder.inside (split_iff.1 hSplit).2
            have hHeader := o.length_headerBytes_pos
            have hBytes : o.bytes.length = o.headerBytes.length + o.value.length := List.length_append
            have hEnds : get (stored order.scratch scratchOffset ((Reading.of o).shift cursor)) ((scratchOffset : Int) + 4) =
                (.ok (cursor + o.bytes.length : Nat) : Run Int) := by
              rw [(get_stored hRoom ((Reading.of o).shift cursor)).2.2.2]
              exact congrArg Except.ok (congrArg Nat.cast (Nat.add_comm _ _))
            have hCurrent : ((cursor + o.bytes.length : Nat) : Int) - cursor = (o.bytes.length : Nat) := by omega
            simp only [bind, Except.bind, not_true, if_false, hEnds, hCurrent]
            have hGoesOn : (∃ cursor', Ordering scratch.length (offset + length)
                ⟨(cursor + o.bytes.length : Nat), cursor, (o.bytes.length : Nat),
                  stored order.scratch scratchOffset ((Reading.of o).shift cursor)⟩ cursor') ∧
                (((offset + length : Nat) : Int) - (cursor + o.bytes.length : Nat)).toNat <
                  ((offset + length - cursor : Nat) : Int).toNat := by
              refine ⟨⟨cursor + o.bytes.length, rfl, hNext, ?_, .inr ⟨cursor, o.bytes.length, rfl, rfl, le_rfl⟩⟩, ?_⟩
              · rw [length_stored hRoom, hOrder.sized]
              · omega
            rcases hOrder.previous with hNone | ⟨previousOffset, previousLength, hOffset, hLength, hBefore⟩
            · rw [if_neg (by omega)]
              exact hGoesOn
            · rw [if_pos (by omega), hOffset, hLength, compareEncoded, ← Nat.cast_min, Int.toNat_natCast]
              obtain ⟨difference, hCompared⟩ := @compareBytes_returns input previousOffset cursor
                ((previousLength : Int) - (o.bytes.length : Nat)) (min previousLength o.bytes.length) (by omega) (by omega)
              rw [hCompared]
              simp only
              split_ifs
              · trivial
              · exact hGoesOn
      · rw [if_pos (by omega)]
        trivial
    · exact ⟨offset, rfl, Nat.le_add_right _ _, rfl, .inl neg_one_lt_zero⟩
    · simp only
      omega
  obtain ⟨⟨ordered, scratch'⟩, hRun, -⟩ := Run.returns hLoop
  exact ⟨ordered, scratch', hRun⟩

end Checks

section Contents

variable {memory : Memory} {output value : Nat} {offset capacity valueOffset valueLength unusedBits : Int}

def integerObject (value : Int) : Object := ⟨2, integerOctets (Der.integerLength value).toNat value⟩

theorem integerLength_bounds (value : Int) : 1 ≤ Der.integerLength value ∧ Der.integerLength value ≤ 4 := by
  unfold Der.integerLength
  split_ifs <;> decide

theorem integerObject_bytes (value : Int) : (integerObject value).bytes =
    (tagBytes 2 ++ lengthBytes (Der.integerLength value).toNat) ++ integerOctets (Der.integerLength value).toNat value := by
  rw [integerObject, Object.bytes, Object.headerBytes, length_integerOctets]

theorem writeInteger_eq (value : Int32) : Der.writeInteger memory output offset capacity value =
    if contains (memory output).length offset capacity ∧ ((integerObject value.toInt).bytes.length : Int) ≤ capacity then
      .ok ((integerObject value.toInt).bytes.length, memory.written output offset.toNat (integerObject value.toInt).bytes)
    else .ok (-1, memory) := by
  obtain ⟨hPositive, hFew⟩ := integerLength_bounds value.toInt
  have hBytes := integerObject_bytes value.toInt
  have hOctets := length_integerOctets (Der.integerLength value.toInt).toNat value.toInt
  have hCount : ((Der.integerLength value.toInt).toNat : Int) = Der.integerLength value.toInt := Int.toNat_of_nonneg (by omega)
  have hHeader : headerLength Der.integerTag (Der.integerLength value.toInt) =
      ((tagBytes 2 ++ lengthBytes (Der.integerLength value.toInt).toNat).length : Int) := by
    rw [headerLength_eq, if_pos ⟨⟨by decide, by decide⟩, by omega, by omega⟩, List.length_append]
    rfl
  have hTotal : ((integerObject value.toInt).bytes.length : Int) =
      headerLength Der.integerTag (Der.integerLength value.toInt) + Der.integerLength value.toInt := by
    rw [hHeader, hBytes, List.length_append, hOctets, Nat.cast_add, hCount]
  by_cases hPlace : contains (memory output).length offset capacity ∧
      ((integerObject value.toInt).bytes.length : Int) ≤ capacity
  · obtain ⟨hTarget, hRoom⟩ := hPlace
    have hParts := hTarget
    unfold contains at hParts
    obtain ⟨at', rfl⟩ := Int.eq_ofNat_of_zero_le hParts.1
    have hInside : at' + ((tagBytes 2 ++ lengthBytes (Der.integerLength value.toInt).toNat) ++
        integerOctets (Der.integerLength value.toInt).toNat value.toInt).length ≤ (memory output).length := by
      rw [← hBytes]
      omega
    have hBoth := hInside
    rw [List.length_append, hOctets] at hBoth
    have hWritten := @writeHeader_eq memory output at' capacity Der.integerTag (Der.integerLength value.toInt)
    have hNumber : Int.toNat Der.integerTag = 2 := rfl
    rw [hTotal] at hRoom
    have hHeaderRoom : ((tagBytes 2 ++ lengthBytes (Der.integerLength value.toInt).toNat).length : Int) ≤ capacity := by omega
    rw [hNumber, if_pos ⟨⟨⟨by decide, by decide⟩, by omega, by omega⟩, hTarget, hHeaderRoom⟩, Int.toNat_natCast] at hWritten
    have hAccepted : ¬(¬contains (memory output).length at' capacity ∨
        capacity < headerLength Der.integerTag (Der.integerLength value.toInt) + Der.integerLength value.toInt) := by
      simp only [hTarget, not_true, false_or, not_lt]
      exact hRoom
    rw [hTotal, if_pos ⟨hTarget, hRoom⟩, Der.writeInteger, if_neg hAccepted, hWritten]
    have hDestination : (at' : Int) + headerLength Der.integerTag (Der.integerLength value.toInt) =
        ((at' + (tagBytes 2 ++ lengthBytes (Der.integerLength value.toInt).toNat).length : Nat) : Int) := by
      rw [hHeader]
      rfl
    simp only [bind, Except.bind, hDestination]
    have hStored : ((memory.written output at' (tagBytes 2 ++ lengthBytes (Der.integerLength value.toInt).toNat)) output).length =
        (memory output).length := Memory.length_written (by omega)
    rw [putInteger_inside (by rw [hStored]; omega), Memory.written_written hInside, ← hBytes]
    rfl
  · rw [if_neg hPlace, Der.writeInteger, if_pos]
    · rfl
    · rw [hTotal] at hPlace
      by_contra hNone
      simp only [not_or, not_not, not_lt] at hNone
      exact hPlace hNone

/-- The object of a bit string. -/
def bitObject (memory : Memory) (value : Nat) (valueOffset valueLength unusedBits : Int) : Object :=
  ⟨3, UInt8.ofInt unusedBits :: slice (memory value) valueOffset.toNat valueLength.toNat⟩

/-- What the checks of a bit string ask for. -/
def BitsAllowed (memory : Memory) (value : Nat) (valueOffset valueLength unusedBits : Int) : Prop :=
  contains (memory value).length valueOffset valueLength ∧ 0 ≤ unusedBits ∧ unusedBits ≤ 7 ∧
    canonicalBits (bitObject memory value valueOffset valueLength unusedBits).value = true

instance : Decidable (BitsAllowed memory value valueOffset valueLength unusedBits) := by
  unfold BitsAllowed
  infer_instance

theorem bitObject_bytes (h : contains (memory value).length valueOffset valueLength) :
    (bitObject memory value valueOffset valueLength unusedBits).bytes =
      (tagBytes 3 ++ lengthBytes (valueLength.toNat + 1) ++ [UInt8.ofInt unusedBits]) ++
        slice (memory value) valueOffset.toNat valueLength.toNat := by
  have hLength := length_slice h
  have hCount : (slice (memory value) valueOffset.toNat valueLength.toNat).length = valueLength.toNat := by omega
  rw [bitObject, Object.bytes, Object.headerBytes, List.length_cons, hCount, List.append_assoc _ [_], List.singleton_append]

theorem writeBitString_disallowed (h : ¬BitsAllowed memory value valueOffset valueLength unusedBits) :
    Der.writeBitString memory output offset capacity value valueOffset valueLength unusedBits = .ok (-1, memory) := by
  have hRefused : Der.bitStringRefused (memory value) unusedBits valueOffset valueLength = .ok (decide (¬BitsAllowed memory
      value valueOffset valueLength unusedBits)) := bitStringRefused_eq
  rw [decide_eq_true h] at hRefused
  rw [Der.writeBitString, hRefused]
  rfl

variable (hAllowed : BitsAllowed memory value valueOffset valueLength unusedBits)
include hAllowed

theorem writeBitString_checked : Der.writeBitString memory output offset capacity value valueOffset valueLength unusedBits =
    if ¬contains (memory output).length offset capacity ∨
        capacity < headerLength Der.bitStringTag (valueLength + 1) + (valueLength + 1) then .ok (-1, memory)
    else
      match copy memory value valueOffset output (offset + headerLength Der.bitStringTag (valueLength + 1) + 1) valueLength with
      | (false, memory) => .ok (-1, memory)
      | (true, memory) => do
          let (_, memory) ← writeHeader memory output offset capacity Der.bitStringTag (valueLength + 1)
          let memory ← memory.put output (offset + headerLength Der.bitStringTag (valueLength + 1)) (UInt8.ofInt unusedBits)
          return (headerLength Der.bitStringTag (valueLength + 1) + (valueLength + 1), memory) := by
  have hRefused : Der.bitStringRefused (memory value) unusedBits valueOffset valueLength = .ok (decide (¬BitsAllowed memory
      value valueOffset valueLength unusedBits)) := bitStringRefused_eq
  rw [decide_eq_false (not_not.2 hAllowed)] at hRefused
  rw [Der.writeBitString, hRefused]
  rfl

/-- A bit string whose length has an encoding is written as an object. -/
theorem writeBitString_short (hShort : valueLength < 65535) :
    Der.writeBitString memory output offset capacity value valueOffset valueLength unusedBits =
      if contains (memory output).length offset capacity ∧
          ((bitObject memory value valueOffset valueLength unusedBits).bytes.length : Int) ≤ capacity then
        .ok ((bitObject memory value valueOffset valueLength unusedBits).bytes.length,
          memory.written output offset.toNat (bitObject memory value valueOffset valueLength unusedBits).bytes)
      else .ok (-1, memory) := by
  have hSource := hAllowed.1
  have hBytes := @bitObject_bytes memory value valueOffset valueLength unusedBits hSource
  have hSourceParts := hSource
  unfold contains at hSourceParts
  obtain ⟨count, rfl⟩ := Int.eq_ofNat_of_zero_le hSourceParts.2.1
  have hLength := length_slice hSource
  have hCount : (slice (memory value) valueOffset.toNat count).length = count := by
    rw [Int.toNat_natCast] at hLength
    omega
  rw [Int.toNat_natCast] at hBytes
  have hContents : ((count : Int) + 1).toNat = count + 1 := by omega
  have hHeader : headerLength Der.bitStringTag ((count : Int) + 1) = ((tagBytes 3 ++ lengthBytes (count + 1)).length : Int) := by
    rw [headerLength_eq, if_pos ⟨⟨by decide, by decide⟩, by omega, by omega⟩, List.length_append, hContents]
    rfl
  have hTotal : ((bitObject memory value valueOffset count unusedBits).bytes.length : Int) =
      headerLength Der.bitStringTag ((count : Int) + 1) + ((count : Int) + 1) := by
    rw [hHeader, hBytes, List.length_append, List.length_append, hCount, List.length_singleton]
    omega
  rw [writeBitString_checked hAllowed]
  by_cases hPlace : contains (memory output).length offset capacity ∧
      ((bitObject memory value valueOffset count unusedBits).bytes.length : Int) ≤ capacity
  · rw [if_pos hPlace]
    obtain ⟨hTarget, hRoom⟩ := hPlace
    have hParts := hTarget
    unfold contains at hParts
    obtain ⟨at', rfl⟩ := Int.eq_ofNat_of_zero_le hParts.1
    have hInside : at' + ((tagBytes 3 ++ lengthBytes (count + 1) ++ [UInt8.ofInt unusedBits]) ++
        slice (memory value) valueOffset.toNat count).length ≤ (memory output).length := by
      rw [← hBytes]
      omega
    have hBoth := hInside
    rw [List.length_append, hCount] at hBoth
    have hFront : (tagBytes 3 ++ lengthBytes (count + 1) ++ [UInt8.ofInt unusedBits]).length =
        (tagBytes 3 ++ lengthBytes (count + 1)).length + 1 := by
      rw [List.length_append, List.length_singleton]
    have hDestination : (at' : Int) + headerLength Der.bitStringTag ((count : Int) + 1) + 1 =
        ((at' + (tagBytes 3 ++ lengthBytes (count + 1) ++ [UInt8.ofInt unusedBits]).length : Nat) : Int) := by
      rw [hHeader, hFront]
      omega
    rw [hTotal] at hRoom
    rw [if_neg (by simp only [hTarget, not_true, false_or, not_lt]; exact hRoom), hDestination,
      copy_inside hSource (by omega)]
    have hStored : ((memory.written output (at' + (tagBytes 3 ++ lengthBytes (count + 1) ++ [UInt8.ofInt unusedBits]).length)
        (slice (memory value) valueOffset.toNat count)) output).length = (memory output).length :=
      Memory.length_written (by rw [hCount]; omega)
    have hNumber : Int.toNat Der.bitStringTag = 3 := rfl
    have hHeaderRoom : ((tagBytes 3 ++ lengthBytes (count + 1)).length : Int) ≤ capacity := by omega
    have hWritten := @writeHeader_eq (memory.written output (at' + (tagBytes 3 ++ lengthBytes (count + 1) ++
      [UInt8.ofInt unusedBits]).length) (slice (memory value) valueOffset.toNat count)) output at' capacity
      Der.bitStringTag ((count : Int) + 1)
    rw [hStored, hNumber, hContents, if_pos ⟨⟨⟨by decide, by decide⟩, by omega, by omega⟩, hTarget, hHeaderRoom⟩,
      Int.toNat_natCast] at hWritten
    have hUnused : (at' : Int) + headerLength Der.bitStringTag ((count : Int) + 1) =
        ((at' + (tagBytes 3 ++ lengthBytes (count + 1)).length : Nat) : Int) := by
      rw [hHeader]
      rfl
    simp only [hWritten, hUnused, bind, Except.bind]
    generalize hCopied : memory.written output (at' + (tagBytes 3 ++ lengthBytes (count + 1) ++ [UInt8.ofInt unusedBits]).length)
      (slice (memory value) valueOffset.toNat count) = copied at *
    have hHeaderStored : (copied.written output at' (tagBytes 3 ++ lengthBytes (count + 1)) output).length =
        (memory output).length := by
      rw [Memory.length_written (by omega), hStored]
    rw [Memory.put_inside (by omega), Memory.written_written (by omega), hTotal, Int.toNat_natCast, hBytes]
    refine congrArg (fun stored => Except.ok (_, stored)) ?_
    rw [← hCopied, Memory.written, Memory.written, Memory.written, Function.update_self, splice_front hInside,
      Function.update_idem]
  · rw [if_neg hPlace, if_pos]
    rw [hTotal] at hPlace
    by_contra hNone
    simp only [not_or, not_not, not_lt] at hNone
    exact hPlace hNone

/-- A longer one is written without a header. -/
theorem writeBitString_long (hLong : 65535 ≤ valueLength) :
    (¬(contains (memory output).length offset capacity ∧ valueLength ≤ capacity) →
      Der.writeBitString memory output offset capacity value valueOffset valueLength unusedBits = .ok (-1, memory)) ∧
    (contains (memory output).length offset capacity ∧ valueLength ≤ capacity → ∀ n after,
      Der.writeBitString memory output offset capacity value valueOffset valueLength unusedBits = .ok (n, after) →
        n = valueLength) := by
  have hHeader : headerLength Der.bitStringTag (valueLength + 1) = -1 := by
    rw [headerLength_eq, if_neg]
    omega
  rw [writeBitString_checked hAllowed, hHeader]
  constructor
  · intro hNoRoom
    rw [if_pos]
    by_contra hNone
    simp only [not_or, not_not, not_lt] at hNone
    exact hNoRoom ⟨hNone.1, by omega⟩
  · intro ⟨hTarget, hRoom⟩ n after hRun
    rw [if_neg (by simp only [hTarget, not_true, false_or]; omega)] at hRun
    have hParts := hTarget
    unfold contains at hParts
    obtain ⟨at', rfl⟩ := Int.eq_ofNat_of_zero_le hParts.1
    obtain ⟨count, rfl⟩ := Int.eq_ofNat_of_zero_le (show 0 ≤ valueLength by omega)
    have hDestination : (at' : Int) + -1 + 1 = (at' : Nat) := by omega
    have hWritten (m : Memory) : writeHeader m output at' capacity Der.bitStringTag ((count : Int) + 1) = .ok (-1, m) := by
      rw [writeHeader_eq, if_neg]
      omega
    rw [hDestination, copy_inside hAllowed.1 (by omega)] at hRun
    simp only [hWritten, bind, Except.bind] at hRun
    split at hRun
    · cases hRun
    · cases hRun
      omega

end Contents

end MicroCard.Tlv
