import MicroCard.Tlv.Writers

/-! What the writers leave in the destination, and what the validation accepts. -/
namespace MicroCard.Tlv

open Bytes Halting ManagedArrays Slices BerTlv

section Stores

variable {memory : Memory} {output : Nat}

/-- The memory with bytes of one array replaced. -/
def Memory.written (memory : Memory) (output at' : Nat) (values : List Byte) : Memory :=
  Function.update memory output (splice (memory output) at' values)

theorem Memory.put_inside {index : Nat} (h : index < (memory output).length) (b : Byte) :
    memory.put output index b = .ok (memory.written output index [b]) := by
  have hSet : (memory output).set index b = splice (memory output) index [b] := by
    apply List.ext_getElem?
    intro i
    rw [getElem?_splice (by rw [List.length_singleton]; exact h), List.getElem?_set]
    simp only [List.length_singleton]
    split_ifs <;> first | omega | simp_all
  rw [Memory.put, set_inside h]
  simp only [bind, Except.bind, pure, Except.pure, Memory.written, hSet]

theorem Memory.length_written {at' : Nat} {values : List Byte} (h : at' + values.length ≤ (memory output).length) :
    (memory.written output at' values output).length = (memory output).length := by
  rw [Memory.written, Function.update_self, length_splice h]

theorem Memory.written_written {at' : Nat} {values more : List Byte}
    (h : at' + (values ++ more).length ≤ (memory output).length) :
    (memory.written output at' values).written output (at' + values.length) more = memory.written output at' (values ++ more) := by
  rw [Memory.written, Memory.written, Memory.written, Function.update_self, splice_append h, Function.update_idem]

theorem Memory.putAll_inside {cursor : Nat} {values : List Byte} (h : cursor + values.length ≤ (memory output).length) :
    memory.putAll output cursor values = .ok (memory.written output cursor values) := by
  induction values generalizing memory cursor with
  | nil =>
      have hNothing : splice (memory output) cursor [] = memory output := by simp [splice]
      rw [Memory.written, hNothing, Function.update_eq_self]
      rfl
  | cons b rest ih =>
      rw [List.length_cons] at h
      have hOne : cursor + ([b] : List Byte).length ≤ (memory output).length := by
        rw [List.length_singleton]
        omega
      have hNext : ((cursor + 1 : Nat) : Int) = (cursor : Int) + 1 := rfl
      rw [Memory.putAll, Memory.put_inside (by omega)]
      simp only [bind, Except.bind, ← hNext]
      rw [ih (by rw [Memory.length_written hOne]; omega)]
      exact congrArg Except.ok (Memory.written_written (by rw [List.length_append, List.length_singleton]; omega))

end Stores

section Headers

variable {memory : Memory} {output : Nat}

theorem encodedLengthLength_eq (n : Int) :
    encodedLengthLength n = if 0 ≤ n ∧ n < 65536 then ((lengthBytes n.toNat).length : Int) else -1 := by
  rw [length_lengthBytes]
  unfold encodedLengthLength
  split_ifs <;> first | rfl | omega

/-- A header has a length exactly when tag and length have encodings. -/
theorem headerLength_eq (tag n : Int) : headerLength tag n =
    if (0 ≤ tag ∧ ValidTag tag.toNat) ∧ 0 ≤ n ∧ n < 65536 then
      ((tagBytes tag.toNat).length + (lengthBytes n.toNat).length : Int) else -1 := by
  simp only [headerLength, encodedTagLength_eq, encodedLengthLength_eq]
  split_ifs <;> first | rfl | omega | simp_all

theorem writeHeaderUnchecked_eq {tag n : Nat} (hTag : ValidTag tag) {offset : Nat}
    (h : offset + (tagBytes tag ++ lengthBytes n).length ≤ (memory output).length) :
    writeHeaderUnchecked memory output offset tag n =
      .ok (memory.written output offset (tagBytes tag ++ lengthBytes n)) := by
  have hBytes : ((if encodedTagLength tag = 3 then [UInt8.ofNat (tag >>> 16)] else []) ++
      (if 2 ≤ encodedTagLength tag then [UInt8.ofNat (tag >>> 8)] else []) ++ [UInt8.ofNat tag] ++
      if n < 0x80 then [UInt8.ofNat n]
      else if n < 0x100 then [0x81, UInt8.ofNat n]
      else [0x82, UInt8.ofNat (n >>> 8), UInt8.ofNat n]) = tagBytes tag ++ lengthBytes n := by
    have hLength : encodedTagLength tag = if tag < 256 then 1 else if tag < 65536 then 2 else 3 := by
      rw [encodedTagLength_eq, Int.toNat_natCast, if_pos ⟨Int.natCast_nonneg tag, hTag⟩, length_tagBytes]
      split_ifs <;> rfl
    have hShift (m : Nat) : m >>> 8 = m / 256 := Nat.shiftRight_eq_div_pow m 8
    have hTop : tag >>> 16 = tag / 65536 := Nat.shiftRight_eq_div_pow tag 16
    rw [hLength, hShift, hShift, hTop, tagBytes, lengthBytes]
    split_ifs <;> first | rfl | omega
  rw [← hBytes] at h ⊢
  exact Memory.putAll_inside h

end Headers

section Writing

variable {memory : Memory} {output value : Nat} {offset capacity tag valueOffset valueLength : Int}

/-- The object that a tag makes of a range of an array. -/
def sourceObject (memory : Memory) (tag : Int) (value : Nat) (valueOffset valueLength : Int) : Object :=
  ⟨tag.toNat, slice (memory value) valueOffset.toNat valueLength.toNat⟩

/-- What `BerTlv.Write` asks for. -/
structure Fits (memory : Memory) (output : Nat) (offset capacity tag : Int) (value : Nat) (valueOffset valueLength : Int) :
    Prop where
  tagged : 0 ≤ tag ∧ ValidTag tag.toNat
  source : contains (memory value).length valueOffset valueLength
  short : valueLength < 65536
  target : contains (memory output).length offset capacity
  room : (sourceObject memory tag value valueOffset valueLength).bytes.length ≤ capacity

theorem length_slice {items : List Byte} {at' count : Int} (h : contains items.length at' count) :
    ((slice items at'.toNat count.toNat).length : Int) = count := by
  unfold contains at h
  rw [slice, List.length_take, List.length_drop]
  omega

theorem Fits.valid (h : Fits memory output offset capacity tag value valueOffset valueLength) :
    (sourceObject memory tag value valueOffset valueLength).Valid := by
  refine ⟨h.tagged.2, ?_⟩
  have hLength := length_slice h.source
  have hShort := h.short
  simp only [sourceObject]
  omega

theorem length_object (h : contains (memory value).length valueOffset valueLength) (tag : Int) :
    ((sourceObject memory tag value valueOffset valueLength).bytes.length : Int) =
      (tagBytes tag.toNat).length + (lengthBytes valueLength.toNat).length + valueLength := by
  have hLength := length_slice h
  have hNat : (slice (memory value) valueOffset.toNat valueLength.toNat).length = valueLength.toNat := by omega
  simp only [sourceObject, Object.bytes, Object.headerBytes, List.length_append, hNat]
  omega

/-- What does not fit leaves the memory as it was. -/
theorem write_refused (h : ¬Fits memory output offset capacity tag value valueOffset valueLength) :
    write memory output offset capacity tag value valueOffset valueLength = .ok (-1, memory) := by
  have hRefused : headerLength tag valueLength < 0 ∨ ¬contains (memory value).length valueOffset valueLength ∨
      ¬contains (memory output).length offset capacity ∨ capacity - valueLength < headerLength tag valueLength := by
    by_contra hNone
    simp only [not_or, not_lt, not_not] at hNone
    obtain ⟨hHeader, hSource, hTarget, hRoom⟩ := hNone
    have hLength := length_object hSource tag
    rw [headerLength_eq] at hHeader hRoom
    split_ifs at hHeader hRoom with hValid
    · exact h ⟨hValid.1, hSource, hValid.2.2, hTarget, by omega⟩
    · omega
  simp only [write, if_pos hRefused]
  rfl

/-- A copy between two ranges that lie inside their arrays. -/
theorem copy_inside {destination : Nat} {destinationOffset count : Nat}
    (hSource : contains (memory value).length valueOffset count)
    (hRoom : destinationOffset + count ≤ (memory destination).length) :
    copy memory value valueOffset destination destinationOffset count =
      (true, memory.written destination destinationOffset (slice (memory value) valueOffset.toNat count)) := by
  unfold contains at hSource
  rw [copy, if_neg (by omega), Int.toNat_natCast, Int.toNat_natCast]
  rfl

/-- A write in front of another is one write. -/
theorem splice_front {items front values : List Byte} {at' : Nat} (h : at' + (front ++ values).length ≤ items.length) :
    splice (splice items (at' + front.length) values) at' front = splice items at' (front ++ values) := by
  have hBoth := h
  rw [List.length_append] at hBoth
  have hSecond : at' + front.length + values.length ≤ items.length := by omega
  have hFirst : at' + front.length ≤ (splice items (at' + front.length) values).length := by
    rw [length_splice hSecond]
    omega
  apply List.ext_getElem?
  intro i
  rw [getElem?_splice hFirst, getElem?_splice hSecond, getElem?_splice h, List.length_append]
  by_cases hBefore : i < at'
  · rw [if_pos hBefore, if_pos (by omega), if_pos hBefore]
  by_cases hAmong : i < at' + front.length
  · rw [if_neg hBefore, if_pos hAmong, if_neg hBefore, if_pos (by omega), List.getElem?_append_left (by omega)]
  by_cases hBehind : i < at' + front.length + values.length
  · rw [if_neg hBefore, if_neg hAmong, if_neg hAmong, if_pos hBehind, if_neg hBefore, if_pos (by omega),
      List.getElem?_append_right (by omega)]
    congr 1
    omega
  · rw [if_neg hBefore, if_neg hAmong, if_neg hAmong, if_neg hBehind, if_neg hBefore, if_neg (by omega)]

/-- What fits is written as the object, value first, from the value that stood in the source
before. -/
theorem write_accepted (h : Fits memory output offset capacity tag value valueOffset valueLength) :
    write memory output offset capacity tag value valueOffset valueLength =
      .ok ((sourceObject memory tag value valueOffset valueLength).bytes.length,
        memory.written output offset.toNat (sourceObject memory tag value valueOffset valueLength).bytes) := by
  obtain ⟨hTag, hSource, hShort, hTarget, hRoom⟩ := h
  have hLength := length_object hSource tag
  have hParts := id hSource
  have hPlace := id hTarget
  unfold contains at hParts hPlace
  have hHeader : headerLength tag valueLength = (tagBytes tag.toNat).length + (lengthBytes valueLength.toNat).length := by
    rw [headerLength_eq, if_pos ⟨hTag, hParts.2.1, hShort⟩]
  have hSize := length_slice hSource
  obtain ⟨at', rfl⟩ := Int.eq_ofNat_of_zero_le hPlace.1
  obtain ⟨tag, rfl⟩ := Int.eq_ofNat_of_zero_le hTag.1
  obtain ⟨count, rfl⟩ := Int.eq_ofNat_of_zero_le hParts.2.1
  simp only [Int.toNat_natCast] at *
  have hAccepted : ¬(headerLength tag count < 0 ∨ ¬contains (memory value).length valueOffset count ∨
      ¬contains (memory output).length at' capacity ∨ capacity - count < headerLength tag count) := by
    rw [hHeader]
    simp only [hSource, hTarget, not_true, false_or]
    omega
  have hDestination : (at' : Int) + headerLength tag count =
      ((at' + (tagBytes tag ++ lengthBytes count).length : Nat) : Int) := by
    rw [hHeader, List.length_append]
    rfl
  have hCount : (slice (memory value) valueOffset.toNat count).length = count := by exact_mod_cast hSize
  have hBytes : (sourceObject memory tag value valueOffset count).bytes =
      (tagBytes tag ++ lengthBytes count) ++ slice (memory value) valueOffset.toNat count := by
    simp only [sourceObject, Object.bytes, Object.headerBytes, Int.toNat_natCast, hCount]
  have hInside : at' + ((tagBytes tag ++ lengthBytes count) ++ slice (memory value) valueOffset.toNat count).length ≤
      (memory output).length := by
    rw [← hBytes]
    omega
  have hValue := hInside
  rw [List.length_append, hCount] at hValue
  simp only [write, if_neg hAccepted, hDestination]
  rw [copy_inside hSource (by omega)]
  have hWritten : ((memory.written output (at' + (tagBytes tag ++ lengthBytes count).length)
      (slice (memory value) valueOffset.toNat count)) output).length = (memory output).length :=
    Memory.length_written (by rw [hCount]; omega)
  simp only [bind, Except.bind]
  rw [writeHeaderUnchecked_eq hTag.2 (by rw [hWritten]; omega)]
  simp only [pure, Except.pure, Except.ok.injEq, Prod.mk.injEq]
  refine ⟨by rw [hHeader, hLength], ?_⟩
  rw [hBytes, Memory.written, Memory.written, Memory.written, Function.update_self, splice_front hInside,
    Function.update_idem]

/-- The header alone. -/
theorem writeHeader_eq : writeHeader memory output offset capacity tag valueLength =
    if ((0 ≤ tag ∧ ValidTag tag.toNat) ∧ 0 ≤ valueLength ∧ valueLength < 65536) ∧
        contains (memory output).length offset capacity ∧
        ((tagBytes tag.toNat ++ lengthBytes valueLength.toNat).length : Int) ≤ capacity then
      .ok ((tagBytes tag.toNat ++ lengthBytes valueLength.toNat).length,
        memory.written output offset.toNat (tagBytes tag.toNat ++ lengthBytes valueLength.toNat))
    else .ok (-1, memory) := by
  by_cases hValid : (0 ≤ tag ∧ ValidTag tag.toNat) ∧ 0 ≤ valueLength ∧ valueLength < 65536
  · have hHeader : headerLength tag valueLength =
        ((tagBytes tag.toNat ++ lengthBytes valueLength.toNat).length : Int) := by
      rw [headerLength_eq, if_pos hValid, List.length_append]
      rfl
    by_cases hPlace : contains (memory output).length offset capacity ∧
        ((tagBytes tag.toNat ++ lengthBytes valueLength.toNat).length : Int) ≤ capacity
    · have hParts := hPlace.1
      unfold contains at hParts
      have hRoom := hPlace.2
      have hAccepted : ¬(headerLength tag valueLength < 0 ∨ ¬contains (memory output).length offset capacity ∨
          capacity < headerLength tag valueLength) := by
        rw [hHeader]
        simp only [hPlace.1, not_true, false_or]
        omega
      obtain ⟨at', rfl⟩ := Int.eq_ofNat_of_zero_le hParts.1
      obtain ⟨tag, rfl⟩ := Int.eq_ofNat_of_zero_le hValid.1.1
      obtain ⟨count, rfl⟩ := Int.eq_ofNat_of_zero_le hValid.2.1
      simp only [Int.toNat_natCast] at *
      rw [if_pos ⟨hValid, hPlace⟩, writeHeader, if_neg hAccepted, writeHeaderUnchecked_eq hValid.1.2 (by omega), hHeader]
      rfl
    · have hRefused : headerLength tag valueLength < 0 ∨ ¬contains (memory output).length offset capacity ∨
          capacity < headerLength tag valueLength := by
        by_contra hNone
        simp only [not_or, not_lt, not_not] at hNone
        exact hPlace ⟨hNone.2.1, hHeader ▸ hNone.2.2⟩
      rw [if_neg (fun h => hPlace h.2), writeHeader, if_pos hRefused]
      rfl
  · have hHeader : headerLength tag valueLength < 0 := by
      rw [headerLength_eq, if_neg hValid]
      decide
    rw [if_neg (fun h => hValid h.1), writeHeader, if_pos (.inl hHeader)]
    rfl

end Writing

end MicroCard.Tlv
