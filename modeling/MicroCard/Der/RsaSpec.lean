import MicroCard.Library.DerIntegers
import MicroCard.Der.Rsa

/-! The writer measures what it writes, and what it writes is the sequence of the magnitudes;
the reader takes exactly the sequences of positive integers. -/
namespace MicroCard.Der.Rsa

open Bytes Halting Buffers Slices DerIntegers Checks

section Writing

variable {bytes buffer written : List Byte} {n : Nat}

theorem magnitude_eq (h : bytes ≠ []) : magnitude bytes = .ok (DerIntegers.magnitude bytes) := by
  obtain ⟨hDrop, hInside⟩ := drop_scan h
  unfold magnitude
  dsimp only
  rw [if_neg (fun hZero => h (List.length_eq_zero_iff.1 hZero)), behind_within (Nat.le_of_lt hInside), hDrop]

theorem length_lengthBytes (n : Nat) : (BerTlv.lengthBytes n).length = lengthBytes n := BerTlv.length_lengthBytes n

theorem signPad_eq {m : List Byte} {lead : Byte} {rest : List Byte} (h : m = lead :: rest) :
    m.length + signPad lead = (content m).length := by
  rw [length_content, h, List.headD_cons, signPad]
  by_cases hHigh : 128 ≤ lead.toNat
  · rw [if_pos ((high_bit lead).not.2 (Nat.not_lt.2 hHigh)), if_pos hHigh]
  · rw [if_neg (not_not.2 ((high_bit lead).2 (Nat.not_le.1 hHigh))), if_neg hHigh]

/-- The measured size is the size of the encoding. -/
theorem integerSize_eq (h : bytes ≠ []) : integerSize bytes = .ok (integerBytes (DerIntegers.magnitude bytes)).length := by
  obtain ⟨lead, rest, hLead⟩ := List.exists_cons_of_ne_nil (magnitude_minimal h).ne_nil
  unfold integerSize
  rw [magnitude_eq h, ok_bind, index_found (by rw [hLead]; rfl), ok_bind]
  dsimp only
  rw [signPad_eq hLead, integerBytes, length_itemBytes, length_lengthBytes]
  rfl

theorem putLength_eq (h : written.length + lengthBytes n ≤ buffer.length) :
    putLength (filled buffer written) written.length n =
      .ok (filled buffer (written ++ BerTlv.lengthBytes n), (written ++ BerTlv.lengthBytes n).length) := by
  have hSize := length_lengthBytes n
  unfold putLength
  unfold lengthBytes at h hSize
  unfold BerTlv.lengthBytes at hSize ⊢
  split_ifs at h hSize ⊢ with hShort hOne
  · rw [store_filled (by omega), ok_bind, List.length_append]
    rfl
  · rw [copyInto_filled h, ok_bind, List.length_append]
    rfl
  · rw [copyInto_filled h, ok_bind, List.length_append, Nat.shiftRight_eq_div_pow]
    rfl

/-- An integer is written behind what was written. -/
theorem putInteger_eq (hBytes : bytes ≠ [])
    (h : written.length + (integerBytes (DerIntegers.magnitude bytes)).length ≤ buffer.length) :
    putInteger (filled buffer written) written.length bytes =
      .ok (filled buffer (written ++ integerBytes (DerIntegers.magnitude bytes)),
        (written ++ integerBytes (DerIntegers.magnitude bytes)).length) := by
  obtain ⟨lead, rest, hLead⟩ := List.exists_cons_of_ne_nil (magnitude_minimal hBytes).ne_nil
  rw [integerBytes, length_itemBytes, length_lengthBytes] at h
  have hContent := length_content (DerIntegers.magnitude bytes)
  have hOne : written.length + 1 = (written ++ [2]).length := by simp
  unfold putInteger
  rw [magnitude_eq hBytes, ok_bind, store_filled (by omega), ok_bind]
  dsimp only
  rw [index_found (by rw [hLead]; rfl), ok_bind, signPad_eq hLead, hOne, putLength_eq (by rw [← hOne]; omega), ok_bind]
  dsimp only
  have hHeader : (written ++ [2] ++ BerTlv.lengthBytes (content (DerIntegers.magnitude bytes)).length).length =
      written.length + 1 + lengthBytes (content (DerIntegers.magnitude bytes)).length := by
    rw [List.length_append, ← hOne, length_lengthBytes]
  by_cases hHigh : 128 ≤ lead.toNat
  · have hPadded : content (DerIntegers.magnitude bytes) = 0 :: DerIntegers.magnitude bytes := by
      rw [hLead, content_cons, if_pos hHigh]
    have hSize : (content (DerIntegers.magnitude bytes)).length = (DerIntegers.magnitude bytes).length + 1 := by
      rw [hPadded]
      rfl
    have hBehind := @List.length_append Byte
      (written ++ [2] ++ BerTlv.lengthBytes (content (DerIntegers.magnitude bytes)).length) [0]
    rw [List.length_singleton] at hBehind
    rw [if_pos ((high_bit lead).not.2 (Nat.not_lt.2 hHigh)), store_filled (by omega), ok_bind, ← hBehind]
    change (copyInto _ _ _ >>= _) = _
    have hWhole : written ++ [2] ++ BerTlv.lengthBytes (content (DerIntegers.magnitude bytes)).length ++ [0] ++
        DerIntegers.magnitude bytes = written ++ integerBytes (DerIntegers.magnitude bytes) := by
      rw [integerBytes, itemBytes, hPadded]
      simp
    rw [copyInto_filled (by omega), ok_bind, ← List.length_append, hWhole]
    rfl
  · have hPlain : content (DerIntegers.magnitude bytes) = DerIntegers.magnitude bytes := by
      rw [hLead, content_cons, if_neg hHigh]
    rw [if_neg (not_not.2 ((high_bit lead).2 (Nat.not_le.1 hHigh)))]
    change (copyInto _ _ _ >>= _) = _
    have hSize : (content (DerIntegers.magnitude bytes)).length = (DerIntegers.magnitude bytes).length := by rw [hPlain]
    have hWhole : written ++ [2] ++ BerTlv.lengthBytes (content (DerIntegers.magnitude bytes)).length ++
        DerIntegers.magnitude bytes = written ++ integerBytes (DerIntegers.magnitude bytes) := by
      rw [integerBytes, itemBytes, hPlain]
      simp
    rw [copyInto_filled (by omega), ok_bind, ← List.length_append, hWhole]
    rfl

/-- The integers are written one behind the other. -/
theorem putIntegers_eq {integers : List (List Byte)} (hIntegers : ∀ bytes ∈ integers, bytes ≠ [])
    (h : written.length + (bodyBytes (integers.map DerIntegers.magnitude)).length ≤ buffer.length) :
    integers.foldlM (fun (state : List Byte × Nat) bytes => putInteger state.1 state.2 bytes)
        (filled buffer written, written.length) =
      (.ok (filled buffer (written ++ bodyBytes (integers.map DerIntegers.magnitude)),
        (written ++ bodyBytes (integers.map DerIntegers.magnitude)).length) : Run _) := by
  induction integers generalizing written with
  | nil =>
      rw [List.map_nil, bodyBytes_nil, List.append_nil]
      rfl
  | cons bytes integers ih =>
      have hParts := h
      rw [List.map_cons, bodyBytes_cons, List.length_append] at hParts
      rw [List.foldlM_cons]
      dsimp only
      rw [putInteger_eq (hIntegers bytes List.mem_cons_self) (by omega), ok_bind,
        ih (fun b hb => hIntegers b (List.mem_cons_of_mem _ hb)) (by rw [List.length_append]; omega), List.map_cons,
        bodyBytes_cons, List.append_assoc]

theorem sizes_eq {integers : List (List Byte)} (hIntegers : ∀ bytes ∈ integers, bytes ≠ []) :
    ∃ sizes, integers.mapM integerSize = .ok sizes ∧
      sizes.sum = (bodyBytes (integers.map DerIntegers.magnitude)).length := by
  induction integers with
  | nil => exact ⟨[], rfl, rfl⟩
  | cons bytes integers ih =>
      obtain ⟨sizes, hSizes, hSum⟩ := ih fun b hb => hIntegers b (List.mem_cons_of_mem _ hb)
      refine ⟨(integerBytes (DerIntegers.magnitude bytes)).length :: sizes, ?_, ?_⟩
      · rw [List.mapM_cons, integerSize_eq (hIntegers bytes List.mem_cons_self), ok_bind, hSizes]
        rfl
      · rw [List.sum_cons, hSum, List.map_cons, bodyBytes_cons, List.length_append]

/-- The writer refuses exactly the outputs without room, and fills the front of the others. -/
theorem encodeSequence_eq {integers : List (List Byte)} (hIntegers : ∀ bytes ∈ integers, bytes ≠ []) (output : List Byte) :
    encodeSequence output integers =
      if (sequenceBytes (integers.map DerIntegers.magnitude)).length ≤ output.length then
        .ok ((sequenceBytes (integers.map DerIntegers.magnitude)).length,
          filled output (sequenceBytes (integers.map DerIntegers.magnitude)))
      else .error (.refused .invalidLength) := by
  obtain ⟨sizes, hSizes, hSum⟩ := sizes_eq hIntegers
  have hTotal : (sequenceBytes (integers.map DerIntegers.magnitude)).length = 1 + lengthBytes sizes.sum + sizes.sum := by
    rw [sequenceBytes, length_itemBytes, length_lengthBytes, hSum]
  unfold encodeSequence
  rw [hSizes, ok_bind]
  dsimp only
  by_cases hRoom : (sequenceBytes (integers.map DerIntegers.magnitude)).length ≤ output.length
  · have hStart := @store_filled Error Byte output [] (by rw [List.length_nil]; omega) 0x30
    rw [filled_nil, List.length_nil] at hStart
    have hLength := @putLength_eq output [0x30] sizes.sum (by rw [List.length_singleton]; omega)
    have hHeader : ([0x30] ++ BerTlv.lengthBytes sizes.sum).length = 1 + lengthBytes sizes.sum := by
      rw [List.length_append, length_lengthBytes, List.length_singleton]
    have hIntegers' := @putIntegers_eq output ([0x30] ++ BerTlv.lengthBytes sizes.sum) integers hIntegers (by omega)
    rw [if_pos hRoom, refuseIf_fails (by omega), ok_bind, hStart, ok_bind, List.nil_append]
    rw [List.length_singleton] at hLength
    rw [hLength, ok_bind]
    dsimp only
    rw [hIntegers', ok_bind, hTotal, sequenceBytes, itemBytes, ← hSum]
    rfl
  · rw [if_neg hRoom, refuseIf_holds (by omega)]
    rfl

end Writing

section Reading

variable {tag : Byte} {front back rest value m : List Byte} {stop : Nat}

/-- The value of an object with the tag, and what stands behind it. -/
def readItem (tag : Byte) : List Byte → Option (List Byte × List Byte)
  | first :: rest =>
      if first = tag then
        match BerTlv.splitLength rest with
        | some (n, rest) => if n ≤ rest.length then some (rest.take n, rest.drop n) else none
        | none => none
      else none
  | [] => none

theorem readItem_iff : readItem tag back = some (value, rest) ↔ value.length < 65536 ∧ back = itemBytes tag value ++ rest := by
  constructor
  · intro h
    cases back with
    | nil => cases h
    | cons first back =>
        simp only [readItem] at h
        split_ifs at h with hTag
        cases hLength : BerTlv.splitLength back with
        | none =>
            rw [hLength] at h
            cases h
        | some length =>
            obtain ⟨n, behind⟩ := length
            rw [hLength] at h
            dsimp only at h
            split_ifs at h with hInside
            obtain ⟨rfl, rfl⟩ := Prod.mk.inj (Option.some.inj h)
            obtain ⟨hShort, rfl⟩ := BerTlv.splitLength_sound hLength
            have hSize : (behind.take n).length = n := List.length_take_of_le hInside
            rw [itemBytes, hSize, hTag, List.append_assoc, List.take_append_drop]
            exact ⟨hShort, rfl⟩
  · rintro ⟨hShort, rfl⟩
    rw [itemBytes, List.append_assoc]
    simp only [List.cons_append, readItem, BerTlv.splitLength_lengthBytes hShort]
    rw [if_pos trivial, if_pos (by simp), List.take_left, List.drop_left]

theorem getElem?_behind (front back : List Byte) (i : Nat) : (front ++ back)[front.length + i]? = back[i]? := by
  rw [List.getElem?_append_right (Nat.le_add_right _ _), Nat.add_sub_cancel_left]

/-- The reading of a length, in front of what is done with it. -/
theorem length_steps {β : Type} {bytes : List Byte} {offset : Nat} (hAt : ∀ i, bytes[offset + i]? = rest[i]?) (first : Byte)
    (next : Nat × Nat → Parse β) :
    (if first.toNat < 0x80 then do
      let length ← pure (first.toNat, offset)
      next length
    else do
      refuseIf ((first &&& 0x7f).toNat = 0 ∨ 2 < (first &&& 0x7f).toNat) ()
      refuseIf ((← orRefuse bytes[offset]? ()) = 0) ()
      let (value, offset) ← (List.range (first &&& 0x7f).toNat).foldlM (fun (value, offset) _ => do
        let byte ← orRefuse bytes[offset]? ()
        return (value * 256 + byte.toNat, offset + 1)) (0, offset)
      refuseIf (value < 128) ()
      let length ← pure (value, offset)
      next length) =
    match BerTlv.splitLength (first :: rest) with
    | some (n, behind) => next (n, offset + (rest.length - behind.length))
    | none => .error (.refused ()) := by
  have hByte := first.toNat_lt
  have hZero := hAt 0
  rw [Nat.add_zero] at hZero
  have hCount : (first &&& 0x7f).toNat = first.toNat % 128 := @BerTlv.and_mod_low first 7 (by decide)
  simp only [BerTlv.splitLength]
  by_cases hShort : first.toNat < 128
  · rw [if_pos hShort, if_pos hShort]
    simp only [Nat.sub_self, Nat.add_zero]
    rfl
  rw [if_neg hShort, if_neg hShort, hCount]
  by_cases hOne : first = 0x81
  · rw [if_pos hOne, hOne]
    rw [refuseIf_fails (by decide), ok_bind, hZero]
    cases rest with
    | nil => rfl
    | cons b behind =>
        have hLoop : (List.range 1).foldlM (fun (state : Nat × Nat) _ => do
            let byte ← orRefuse bytes[state.2]? ()
            return (state.1 * 256 + byte.toNat, state.2 + 1)) (0, offset) = (.ok (b.toNat, offset + 1) : Parse _) := by
          rw [List.range_one, List.foldlM_cons]
          dsimp only
          rw [hZero]
          change (.ok (0 * 256 + b.toNat, offset + 1) : Parse (Nat × Nat)) = _
          rw [Nat.zero_mul, Nat.zero_add]
        change (refuseIf (b = 0) () >>= _) = _
        dsimp only
        by_cases hLow : b.toNat < 128
        · rw [if_neg (Nat.not_le.2 hLow)]
          by_cases hNone : b = 0
          · rw [refuseIf_holds hNone]
            rfl
          · rw [refuseIf_fails hNone, ok_bind, show (129 : Byte).toNat % 128 = 1 from rfl, hLoop, ok_bind, refuseIf_holds hLow]
            rfl
        · have hSome : b ≠ 0 := by
            rintro rfl
            exact hLow (by decide)
          rw [if_pos (Nat.not_lt.1 hLow), refuseIf_fails hSome, ok_bind, show (129 : Byte).toNat % 128 = 1 from rfl, hLoop, ok_bind,
            refuseIf_fails hLow]
          simp only [List.length_cons, Nat.add_sub_cancel_left]
          rfl
  by_cases hTwo : first = 0x82
  · rw [if_neg hOne, if_pos hTwo, hTwo]
    rw [refuseIf_fails (by decide), ok_bind, hZero]
    rcases rest with - | ⟨high, - | ⟨low, behind⟩⟩
    · rfl
    · have hSecond := hAt 1
      change (refuseIf (high = 0) () >>= _) = _
      by_cases hNone : high = 0
      · rw [refuseIf_holds hNone]
        rfl
      · have hLoop : (List.range 2).foldlM (fun (state : Nat × Nat) _ => do
            let byte ← orRefuse bytes[state.2]? ()
            return (state.1 * 256 + byte.toNat, state.2 + 1)) (0, offset) = (.error (.refused ()) : Parse _) := by
          rw [List.range_succ, List.range_one, List.singleton_append, List.foldlM_cons]
          dsimp only
          rw [hZero]
          change (orRefuse bytes[offset + 1]? () >>= _) >>= _ = _
          rw [hSecond]
          rfl
        rw [refuseIf_fails hNone, ok_bind, show (130 : Byte).toNat % 128 = 2 from rfl, hLoop]
        rfl
    · have hSecond := hAt 1
      have hLoop : (List.range 2).foldlM (fun (state : Nat × Nat) _ => do
          let byte ← orRefuse bytes[state.2]? ()
          return (state.1 * 256 + byte.toNat, state.2 + 1)) (0, offset) =
            (.ok (high.toNat * 256 + low.toNat, offset + 2) : Parse _) := by
        rw [List.range_succ, List.range_one, List.singleton_append, List.foldlM_cons]
        dsimp only
        rw [hZero]
        change (orRefuse bytes[offset + 1]? () >>= _) >>= _ = _
        rw [hSecond]
        change (.ok ((0 * 256 + high.toNat) * 256 + low.toNat, offset + 1 + 1) : Parse (Nat × Nat)) = _
        rw [Nat.zero_mul, Nat.zero_add]
      change (refuseIf (high = 0) () >>= _) = _
      dsimp only
      have hLow := low.toNat_lt
      by_cases hNone : high = 0
      · rw [refuseIf_holds hNone, if_neg (by rw [hNone]; simp; omega)]
        rfl
      · have hSome : high.toNat ≠ 0 := fun h => hNone (UInt8.toNat_inj.1 h)
        rw [refuseIf_fails hNone, ok_bind, show (130 : Byte).toNat % 128 = 2 from rfl, hLoop, ok_bind,
          refuseIf_fails (by omega), if_pos (by omega)]
        simp only [List.length_cons]
        have hTwoMore : behind.length + 1 + 1 - behind.length = 2 := by omega
        rw [hTwoMore]
        rfl
  have hCount : first.toNat % 128 = 0 ∨ 2 < first.toNat % 128 := by
    have hNotOne : first.toNat ≠ 129 := fun h => hOne (UInt8.toNat_inj.1 h)
    have hNotTwo : first.toNat ≠ 130 := fun h => hTwo (UInt8.toNat_inj.1 h)
    omega
  rw [refuseIf_holds hCount, if_neg hOne, if_neg hTwo]
  rfl

/-- What the reader makes of an object behind some bytes. -/
theorem item_eq : item (front ++ back) front.length tag =
    match readItem tag back with
    | some (value, rest) => .ok (value, (front ++ back).length - rest.length)
    | none => .error (.refused ()) := by
  have hAt := getElem?_behind front back
  have hZero := hAt 0
  rw [Nat.add_zero] at hZero
  unfold item
  dsimp only
  rw [hZero, hAt 1]
  match back with
  | [] => rfl
  | [first] =>
      by_cases hTag : first = tag
      · simp only [readItem, if_pos hTag, BerTlv.splitLength]
        change (refuseIf (first ≠ tag) () >>= _) = _
        rw [refuseIf_fails (not_not.2 hTag)]
        rfl
      · simp only [readItem, if_neg hTag]
        change (refuseIf (first ≠ tag) () >>= _) = _
        rw [refuseIf_holds hTag]
        rfl
  | first :: length :: rest =>
      change (refuseIf (first ≠ tag) () >>= _) = _
      simp only [readItem]
      by_cases hTag : first = tag
      · rw [refuseIf_fails (not_not.2 hTag), if_pos hTag, ok_bind]
        have hRest (i : Nat) : (front ++ first :: length :: rest)[front.length + 1 + 1 + i]? = rest[i]? := by
          rw [Nat.add_assoc, Nat.add_assoc, getElem?_behind, ← Nat.add_assoc, Nat.add_comm (1 + 1)]
          rfl
        refine (length_steps hRest length fun (n, offset) => do
          refuseIf ((front ++ first :: length :: rest).length < offset + n) ()
          return (slice (front ++ first :: length :: rest) offset n, offset + n)).trans ?_
        cases hLength : BerTlv.splitLength (length :: rest) with
        | none => rfl
        | some found =>
            obtain ⟨n, behind⟩ := found
            obtain ⟨-, hBytes⟩ := BerTlv.splitLength_sound hLength
            have hCount := congrArg List.length hBytes
            have hSize := length_lengthBytes n
            have hSome : 1 ≤ lengthBytes n := by
              unfold lengthBytes
              split_ifs <;> omega
            rw [List.length_cons, List.length_append] at hCount
            have hWhole : front ++ first :: length :: rest = front ++ first :: BerTlv.lengthBytes n ++ behind := by
              rw [hBytes, List.append_assoc, List.cons_append]
            have hOffset : front.length + 1 + 1 + (rest.length - behind.length) = (front ++ first :: BerTlv.lengthBytes n).length := by
              rw [List.length_append, List.length_cons]
              omega
            dsimp only
            rw [hOffset, hWhole, List.length_append]
            by_cases hInside : n ≤ behind.length
            · have hStop : (front ++ first :: BerTlv.lengthBytes n).length + behind.length - (behind.drop n).length =
                  (front ++ first :: BerTlv.lengthBytes n).length + n := by
                rw [List.length_drop]
                omega
              rw [refuseIf_fails (by omega), if_pos hInside, slice, List.drop_left]
              dsimp only
              rw [hStop]
              rfl
            · rw [refuseIf_holds (by omega), if_neg hInside]
              rfl
      · rw [refuseIf_holds hTag, if_neg hTag]
        rfl

theorem item_iff : item (front ++ back) front.length tag = .ok (value, stop) ↔ value.length < 65536 ∧
    ∃ rest, back = itemBytes tag value ++ rest ∧ stop = (front ++ itemBytes tag value).length := by
  rw [item_eq]
  constructor
  · intro h
    cases hRead : readItem tag back with
    | none =>
        rw [hRead] at h
        cases h
    | some found =>
        obtain ⟨value', rest⟩ := found
        rw [hRead] at h
        obtain ⟨rfl, rfl⟩ := Prod.mk.inj (Except.ok.inj h)
        obtain ⟨hShort, rfl⟩ := readItem_iff.1 hRead
        have hTotal := @List.length_append Byte (front ++ itemBytes tag value') rest
        refine ⟨hShort, rest, rfl, ?_⟩
        rw [← List.append_assoc]
        omega
  · rintro ⟨hShort, rest, hBack, rfl⟩
    rw [readItem_iff.2 ⟨hShort, hBack⟩, hBack]
    dsimp only
    rw [← List.append_assoc, @List.length_append Byte _ rest, Nat.add_sub_cancel]

/-- The reader of an object ends for every offset. -/
@[simp] theorem item_ends (bytes : List Byte) (offset : Nat) (tag : Byte) : Ends (item bytes offset tag) := by
  by_cases hInside : offset ≤ bytes.length
  · have hFront : (bytes.take offset).length = offset := List.length_take_of_le hInside
    have hItem := @item_eq tag (bytes.take offset) (bytes.drop offset)
    rw [List.take_append_drop, hFront] at hItem
    rw [hItem]
    cases readItem tag (bytes.drop offset) with
    | none => trivial
    | some found => trivial
  · unfold item
    rw [List.getElem?_eq_none (by omega)]
    trivial

/-- The checks on the value of an integer leave its number, which is positive. -/
theorem positive_steps {offset : Nat} :
    (match value with
      | [] => throw (.refused ())
      | first :: tail =>
          if first = 0 then
            match tail with
            | [] => throw (.refused ())
            | next :: _ => if next.toNat < 0x80 then throw (.refused ()) else pure (tail, offset)
          else if first &&& 0x80 = 0 then pure (value, offset)
          else throw (.refused ()) : Parse (List Byte × Nat)) = .ok (m, stop) ↔
      Positive m ∧ value = content m ∧ stop = offset := by
  constructor
  · intro h
    match value, h with
    | first :: tail, h =>
        dsimp only at h
        split_ifs at h with hZero hHigh
        · match tail, h with
          | next :: rest, h =>
              dsimp only at h
              split_ifs at h with hLow
              obtain ⟨rfl, rfl⟩ := Prod.mk.inj (Except.ok.inj h)
              refine ⟨⟨next, rest, rfl, ?_⟩, ?_, rfl⟩
              · rintro rfl
                exact hLow (by decide)
              · rw [content_cons, if_pos (Nat.not_lt.1 hLow), hZero]
        · obtain ⟨rfl, rfl⟩ := Prod.mk.inj (Except.ok.inj h)
          refine ⟨⟨first, tail, rfl, hZero⟩, ?_, rfl⟩
          rw [content_cons, if_neg (Nat.not_le.2 ((high_bit first).1 hHigh))]
  · rintro ⟨⟨b, rest, rfl, hSome⟩, rfl, rfl⟩
    rw [content_cons]
    by_cases hHigh : 128 ≤ b.toNat
    · rw [if_pos hHigh]
      dsimp only
      rw [if_pos rfl, if_neg (Nat.not_lt.2 hHigh)]
      rfl
    · rw [if_neg hHigh]
      dsimp only
      rw [if_neg hSome, if_pos ((high_bit b).2 (Nat.not_le.1 hHigh))]
      rfl

/-- An integer is read exactly where a positive one stands. -/
theorem integer_iff : integer (front ++ back) front.length = .ok (m, stop) ↔ Positive m ∧ (content m).length < 65536 ∧
    ∃ rest, back = integerBytes m ++ rest ∧ stop = (front ++ integerBytes m).length := by
  unfold integer
  rw [bind_ok]
  constructor
  · rintro ⟨⟨value, offset⟩, hItem, hValue⟩
    obtain ⟨hShort, rest, hBack, rfl⟩ := item_iff.1 hItem
    obtain ⟨hPositive, rfl, rfl⟩ := positive_steps.1 hValue
    exact ⟨hPositive, hShort, rest, hBack, rfl⟩
  · rintro ⟨hPositive, hShort, rest, hBack, rfl⟩
    exact ⟨(content m, _), item_iff.2 ⟨hShort, rest, hBack, rfl⟩, positive_steps.2 ⟨hPositive, rfl, rfl⟩⟩

@[simp] theorem integer_ends (bytes : List Byte) (offset : Nat) : Ends (integer bytes offset) := by
  unfold integer
  rw [ends_bind (item_ends _ _ _)]
  intro found _
  obtain ⟨value, offset⟩ := found
  match value with
  | [] => trivial
  | first :: tail =>
      dsimp only
      split_ifs
      · match tail with
        | [] => trivial
        | next :: rest =>
            dsimp only
            split_ifs <;> trivial
      · trivial
      · trivial

/-- A sequence is one object that leaves nothing behind it. -/
theorem sequence_iff {der body : List Byte} : sequence der = .ok body ↔ body.length < 65536 ∧ der = itemBytes 0x30 body := by
  unfold sequence
  rw [bind_ok]
  constructor
  · rintro ⟨⟨value, offset⟩, hItem, hBody⟩
    obtain ⟨hShort, rest, rfl, rfl⟩ := (@item_iff 0x30 [] der value offset).1 hItem
    dsimp only at hBody
    by_cases hEnd : rest = []
    · rw [hEnd, List.append_nil, List.nil_append, refuseIf_fails (not_not.2 rfl)] at hBody
      obtain rfl := Except.ok.inj hBody
      rw [hEnd, List.append_nil]
      exact ⟨hShort, rfl⟩
    · have hLeft := List.length_pos_of_ne_nil hEnd
      rw [refuseIf_holds (by rw [List.nil_append, List.length_append]; omega)] at hBody
      cases hBody
  · rintro ⟨hShort, rfl⟩
    refine ⟨(body, (itemBytes 0x30 body).length), (@item_iff 0x30 [] _ _ _).2 ⟨hShort, [], (List.append_nil _).symm, rfl⟩, ?_⟩
    dsimp only
    rw [refuseIf_fails (not_not.2 rfl)]
    rfl

@[simp] theorem sequence_ends (der : List Byte) : Ends (sequence der) := by
  unfold sequence
  rw [ends_bind (item_ends _ _ _)]
  intro found _
  rw [ends_bind (ends_refuseIf _ _)]
  exact fun _ _ => ends_pure _

/-- Some integers, one behind the other. -/
def readIntegers (bytes : List Byte) : Nat → Nat → Parse (List (List Byte) × Nat)
  | 0, offset => pure ([], offset)
  | count + 1, offset => do
      let (m, offset) ← integer bytes offset
      let (ms, offset) ← readIntegers bytes count offset
      return (m :: ms, offset)

theorem readIntegers_iff {count : Nat} {ms : List (List Byte)} :
    readIntegers (front ++ back) count front.length = .ok (ms, stop) ↔ ms.length = count ∧
      (∀ m ∈ ms, Positive m ∧ (content m).length < 65536) ∧
        ∃ rest, back = bodyBytes ms ++ rest ∧ stop = (front ++ bodyBytes ms).length := by
  induction count generalizing front back ms stop with
  | zero =>
      simp only [readIntegers, pure_ok, Prod.mk.injEq]
      constructor
      · rintro ⟨rfl, rfl⟩
        exact ⟨rfl, fun m hm => absurd hm List.not_mem_nil, back, rfl, by simp⟩
      · rintro ⟨hNone, -, rest, -, rfl⟩
        obtain rfl := List.length_eq_zero_iff.1 hNone
        exact ⟨rfl, by simp⟩
  | succ count ih =>
      simp only [readIntegers, bind_ok]
      constructor
      · rintro ⟨⟨m, offset⟩, hFirst, ⟨ms', offset'⟩, hRest, hDone⟩
        obtain ⟨hPositive, hSize, rest, rfl, rfl⟩ := integer_iff.1 hFirst
        rw [← List.append_assoc] at hRest
        dsimp only at hRest
        obtain ⟨hCount, hAll, rest', rfl, rfl⟩ := ih.1 hRest
        obtain ⟨rfl, rfl⟩ := Prod.mk.inj (Except.ok.inj hDone)
        refine ⟨congrArg Nat.succ hCount, ?_, rest', by simp, by simp⟩
        intro n hn
        rcases List.mem_cons.1 hn with rfl | hLater
        · exact ⟨hPositive, hSize⟩
        · exact hAll n hLater
      · rintro ⟨hCount, hAll, rest, rfl, rfl⟩
        obtain ⟨m, ms', rfl⟩ := List.exists_cons_of_length_pos (by omega : 0 < ms.length)
        obtain ⟨hPositive, hSize⟩ := hAll m List.mem_cons_self
        have hFirst : integer (front ++ (bodyBytes (m :: ms') ++ rest)) front.length =
            .ok (m, (front ++ integerBytes m).length) :=
          integer_iff.2 ⟨hPositive, hSize, bodyBytes ms' ++ rest, by simp, rfl⟩
        have hRest : readIntegers (front ++ integerBytes m ++ (bodyBytes ms' ++ rest)) count (front ++ integerBytes m).length =
            .ok (ms', (front ++ integerBytes m ++ bodyBytes ms').length) :=
          ih.2 ⟨Nat.succ.inj hCount, fun n hn => hAll n (List.mem_cons_of_mem _ hn), rest, rfl, rfl⟩
        refine ⟨_, hFirst, (ms', (front ++ integerBytes m ++ bodyBytes ms').length), ?_, by simp [pure_ok]⟩
        rw [← hRest]
        simp

/-- The integers that leave nothing behind them. -/
theorem readIntegers_whole {count : Nat} {ms : List (List Byte)} :
    readIntegers (front ++ back) count front.length = .ok (ms, (front ++ back).length) ↔ ms.length = count ∧
      (∀ m ∈ ms, Positive m ∧ (content m).length < 65536) ∧ back = bodyBytes ms := by
  rw [readIntegers_iff]
  constructor
  · rintro ⟨hCount, hAll, rest, rfl, hEnd⟩
    rw [← List.append_assoc, List.length_append] at hEnd
    obtain rfl : rest = [] := List.length_eq_zero_iff.1 (by omega)
    exact ⟨hCount, hAll, List.append_nil _⟩
  · rintro ⟨hCount, hAll, rfl⟩
    exact ⟨hCount, hAll, [], (List.append_nil _).symm, rfl⟩

theorem publicParts_steps (der : List Byte) : publicParts der = (do
    let body ← sequence der
    let (ms, offset) ← readIntegers body 2 0
    refuseIf (offset ≠ body.length) ()
    match ms with
    | [n, e] => pure (n, e)
    | _ => throw (.refused ())) := by
  simp only [publicParts, readIntegers, bind_assoc, pure_bind]

theorem privateParts_steps (der : List Byte) : privateParts der = (do
    let body ← sequence der
    let (version, offset) ← item body 0 0x02
    refuseIf (version ≠ [0]) ()
    let (ms, offset) ← readIntegers body 8 offset
    refuseIf (offset ≠ body.length) ()
    match ms with
    | [n, e, d, p, q, _, _, _] => pure { n, e, d, p, q }
    | _ => throw (.refused ())) := by
  simp only [privateParts, readIntegers, bind_assoc, pure_bind, List.range_succ, List.range_zero, List.nil_append,
    List.cons_append, List.foldlM_cons, List.foldlM_nil]

@[simp] theorem readIntegers_ends (bytes : List Byte) (count offset : Nat) : Ends (readIntegers bytes count offset) := by
  induction count generalizing offset with
  | zero => trivial
  | succ count ih =>
      unfold readIntegers
      rw [ends_bind (integer_ends _ _)]
      intro found _
      rw [ends_bind (ih _)]
      exact fun _ _ => ends_pure _

theorem publicParts_ends (der : List Byte) : Ends (publicParts der) := by
  rw [publicParts_steps, ends_bind (sequence_ends der)]
  intro body _
  rw [ends_bind (readIntegers_ends _ _ _)]
  intro found _
  rw [ends_bind (ends_refuseIf _ _)]
  intro _ _
  split <;> trivial

theorem privateParts_ends (der : List Byte) : Ends (privateParts der) := by
  rw [privateParts_steps, ends_bind (sequence_ends der)]
  intro body _
  rw [ends_bind (item_ends _ _ _)]
  intro version _
  rw [ends_bind (ends_refuseIf _ _)]
  intro _ _
  rw [ends_bind (readIntegers_ends _ _ _)]
  intro found _
  rw [ends_bind (ends_refuseIf _ _)]
  intro _ _
  split <;> trivial

/-- The contents of a body that is short enough are short enough. -/
theorem content_short {ms : List (List Byte)} (h : (bodyBytes ms).length < 65536) {m : List Byte} (hm : m ∈ ms) :
    (content m).length < 65536 := by
  induction ms with
  | nil => exact absurd hm List.not_mem_nil
  | cons first ms ih =>
      rw [bodyBytes_cons, List.length_append] at h
      rcases List.mem_cons.1 hm with rfl | hLater
      · rw [integerBytes, length_itemBytes] at h
        omega
      · exact ih (by omega) hLater

/-- The reader of a public key takes the sequences of two positive integers and nothing else. -/
theorem publicParts_iff {der n e : List Byte} : publicParts der = .ok (n, e) ↔
    Positive n ∧ Positive e ∧ (bodyBytes [n, e]).length < 65536 ∧ der = sequenceBytes [n, e] := by
  rw [publicParts_steps, bind_ok]
  constructor
  · rintro ⟨body, hSequence, hBody⟩
    obtain ⟨hShort, rfl⟩ := sequence_iff.1 hSequence
    obtain ⟨⟨ms, offset⟩, hRead, hBehind⟩ := bind_ok.1 hBody
    obtain ⟨u, hEnd, hParts⟩ := bind_ok.1 hBehind
    obtain rfl := not_not.1 (failIf_ok.1 hEnd)
    obtain ⟨hCount, hAll, rfl⟩ := (@readIntegers_whole [] body 2 ms).1 hRead
    match ms, hParts with
    | [n', e'], hParts =>
        obtain ⟨rfl, rfl⟩ := Prod.mk.inj (Except.ok.inj hParts)
        exact ⟨(hAll n' (by simp)).1, (hAll e' (by simp)).1, hShort, rfl⟩
  · rintro ⟨hPositive, hPositive', hShort, rfl⟩
    have hRead : readIntegers (bodyBytes [n, e]) 2 0 = .ok ([n, e], (bodyBytes [n, e]).length) := by
      refine (@readIntegers_whole [] _ 2 _).2 ⟨rfl, fun m hm => ⟨?_, content_short hShort hm⟩, rfl⟩
      rcases List.mem_cons.1 hm with rfl | hLater
      · exact hPositive
      · rw [List.mem_singleton.1 hLater]
        exact hPositive'
    refine ⟨bodyBytes [n, e], sequence_iff.2 ⟨hShort, rfl⟩, ?_⟩
    rw [hRead, ok_bind]
    dsimp only
    rw [refuseIf_fails (not_not.2 rfl)]
    rfl

/-- The reader of a private key takes the sequences of a zero and eight positive integers. -/
theorem privateParts_iff {der : List Byte} {parts : PrivateParts} : privateParts der = .ok parts ↔
    ∃ dp dq qInverse : List Byte,
      (∀ m ∈ [parts.n, parts.e, parts.d, parts.p, parts.q, dp, dq, qInverse], Positive m) ∧
        (bodyBytes [[0], parts.n, parts.e, parts.d, parts.p, parts.q, dp, dq, qInverse]).length < 65536 ∧
          der = sequenceBytes [[0], parts.n, parts.e, parts.d, parts.p, parts.q, dp, dq, qInverse] := by
  rw [privateParts_steps, bind_ok]
  constructor
  · rintro ⟨body, hSequence, hBody⟩
    obtain ⟨hShort, rfl⟩ := sequence_iff.1 hSequence
    obtain ⟨⟨version, offset⟩, hVersion, hChecked⟩ := bind_ok.1 hBody
    obtain ⟨-, back, rfl, rfl⟩ := (@item_iff 2 [] body _ _).1 hVersion
    obtain ⟨u, hZero, hIntegers⟩ := bind_ok.1 hChecked
    obtain rfl := not_not.1 (failIf_ok.1 hZero)
    obtain ⟨⟨ms, offset⟩, hRead, hBehind⟩ := bind_ok.1 hIntegers
    obtain ⟨u, hEnd, hParts⟩ := bind_ok.1 hBehind
    obtain rfl := not_not.1 (failIf_ok.1 hEnd)
    obtain ⟨hCount, hAll, rfl⟩ := (@readIntegers_whole (itemBytes 2 [0]) back 8 ms).1 hRead
    match ms, hParts with
    | [n, e, d, p, q, dp, dq, qInverse], hParts =>
        obtain rfl := Except.ok.inj hParts
        exact ⟨dp, dq, qInverse, fun m hm => (hAll m hm).1, hShort, rfl⟩
  · rintro ⟨dp, dq, qInverse, hPositive, hShort, rfl⟩
    have hVersion : item (bodyBytes [[0], parts.n, parts.e, parts.d, parts.p, parts.q, dp, dq, qInverse]) 0 2 =
        .ok ([0], (itemBytes 2 [0]).length) :=
      (@item_iff 2 [] _ _ _).2 ⟨by simp, _, rfl, rfl⟩
    have hRead : readIntegers (bodyBytes [[0], parts.n, parts.e, parts.d, parts.p, parts.q, dp, dq, qInverse]) 8
        (itemBytes 2 [0]).length = .ok ([parts.n, parts.e, parts.d, parts.p, parts.q, dp, dq, qInverse],
          (bodyBytes [[0], parts.n, parts.e, parts.d, parts.p, parts.q, dp, dq, qInverse]).length) :=
      (@readIntegers_whole (itemBytes 2 [0]) _ 8 _).2
        ⟨rfl, fun m hm => ⟨hPositive m hm, content_short hShort (List.mem_cons_of_mem _ hm)⟩, rfl⟩
    refine ⟨_, sequence_iff.2 ⟨hShort, rfl⟩, ?_⟩
    rw [hVersion, ok_bind]
    dsimp only
    rw [refuseIf_fails (not_not.2 rfl), ok_bind, hRead, ok_bind]
    dsimp only
    rw [refuseIf_fails (not_not.2 rfl)]
    rfl

end Reading

end MicroCard.Der.Rsa
