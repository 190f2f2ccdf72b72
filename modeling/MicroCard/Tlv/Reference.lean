import MicroCard.Library.ManagedArrays
import MicroCard.Tlv.Native

/-! The desktop reference of the reader, over managed arrays. -/
namespace MicroCard.Tlv

open Bytes Halting ManagedArrays

/-- What managed code returns; it refuses nothing, but an index outside an array panics. -/
abbrev Run (α : Type) := Except (Halt Empty) α

def resultSize : Nat := 5

def contains (size offset length : Int) : Prop := 0 ≤ offset ∧ 0 ≤ length ∧ offset ≤ size ∧ length ≤ size - offset

instance (size offset length : Int) : Decidable (contains size offset length) := by unfold contains; infer_instance

/-- How many octets the identifier of a tag takes; minus one when the number is not a tag. -/
def encodedTagLength (tag : Int) : Int :=
  if tag ≤ 0 ∨ 0xffffff < tag then -1
  else
    let tag := tag.toNat
    if tag ≤ 0xff then
      if tag &&& 0x1f = 0x1f then -1 else 1
    else if tag ≤ 0xffff then
      let first := tag >>> 8
      let last := tag &&& 0xff
      if first &&& 0x1f = 0x1f ∧ last &&& 0x80 = 0 ∧ 0x1f ≤ last &&& 0x7f then 2 else -1
    else
      let middle := tag >>> 8 &&& 0xff
      let finalByte := tag &&& 0xff
      if tag >>> 16 &&& 0x1f = 0x1f ∧ middle &&& 0x80 ≠ 0 ∧ middle &&& 0x7f ≠ 0 ∧ finalByte &&& 0x80 = 0 then 3 else -1

def firstTagByte (tag : Nat) (length : Int) : Nat :=
  if length = 3 then tag >>> 16 else if length = 2 then tag >>> 8 else tag

def canonicalTagForm (tag : Nat) : Bool :=
  let length := encodedTagLength tag
  if length < 0 then false
  else
    let first := firstTagByte tag length
    if first &&& 0xc0 ≠ 0 ∨ length ≠ 1 then true
    else
      let number := first &&& 0x1f
      if number = 0 then false
      else if 1 ≤ number ∧ number ≤ 6 then first &&& 0x20 = 0
      else if number = 16 ∨ number = 17 then first &&& 0x20 ≠ 0
      else true

section Values

variable (input : List Byte) (offset length : Int)

def canonicalInteger : Run Bool :=
  if length < 1 then pure false
  else if length = 1 then pure true
  else do
    let first := (← get input offset).toNat
    let second := (← get input (offset + 1)).toNat
    pure ¬(first = 0 ∧ second &&& 0x80 = 0 ∨ first = 0xff ∧ second &&& 0x80 ≠ 0)

def canonicalBitString : Run Bool :=
  if length < 1 then pure false
  else do
    let unused := (← get input offset).toNat
    if 7 < unused ∨ length = 1 ∧ unused ≠ 0 then pure false
    else if unused = 0 then pure true
    else do
      let last := (← get input (offset + length - 1)).toNat
      pure (last &&& (1 <<< unused) - 1 = 0)

/-- The groups of an object identifier that are left from an index on. -/
def objectIdentifierGroups (input : List Byte) (offset : Int) : Nat → Bool → Run Bool
  | 0, firstGroup => pure firstGroup
  | left + 1, firstGroup => do
      let value := (← get input offset).toNat
      if firstGroup ∧ value = 0x80 then pure false
      else objectIdentifierGroups input (offset + 1) left (value &&& 0x80 = 0)

def canonicalObjectIdentifier : Run Bool :=
  if length < 1 then pure false else objectIdentifierGroups input offset length.toNat true

def canonicalValue (tag : Nat) : Run Bool :=
  if tag = 1 then
    if length = 1 then do
      let value ← get input offset
      pure (value = 0 ∨ value = 0xff)
    else pure false
  else if tag = 2 then canonicalInteger input offset length
  else if tag = 3 then canonicalBitString input offset length
  else if tag = 5 then pure (length = 0)
  else if tag = 6 then canonicalObjectIdentifier input offset length
  else pure true

end Values

/-- The tag at a cursor, and the cursor behind it. -/
def readTag (input : List Byte) (cursor stop : Int) : Run (Option (Nat × Int)) := do
  let tag := (← get input cursor).toNat
  let cursor := cursor + 1
  if tag = 0 then return none
  if tag &&& 0x1f = 0x1f then
    if stop ≤ cursor then return none
    let next := (← get input cursor).toNat
    let cursor := cursor + 1
    if next &&& 0x7f = 0 then return none
    let tag := tag <<< 8 ||| next
    if next &&& 0x80 ≠ 0 then
      if stop ≤ cursor then return none
      let next := (← get input cursor).toNat
      let cursor := cursor + 1
      if next &&& 0x80 ≠ 0 then return none
      return some (tag <<< 8 ||| next, cursor)
    if next &&& 0x7f < 0x1f then return none
    return some (tag, cursor)
  return some (tag, cursor)

/-- The length of the value at a cursor, and the cursor behind it. -/
def readLength (input : List Byte) (cursor stop : Int) : Run (Option (Nat × Int)) := do
  if stop ≤ cursor then return none
  let firstLength := (← get input cursor).toNat
  let cursor := cursor + 1
  if firstLength < 0x80 then return some (firstLength, cursor)
  if firstLength = 0x81 then
    if stop ≤ cursor then return none
    let valueLength := (← get input cursor).toNat
    if valueLength < 0x80 then return none
    return some (valueLength, cursor + 1)
  if firstLength = 0x82 then
    if stop ≤ cursor + 1 then return none
    let valueLength := (← get input cursor).toNat <<< 8 ||| (← get input (cursor + 1)).toNat
    if valueLength < 0x100 then return none
    return some (valueLength, cursor + 2)
  return none

/-- Whether the distinguished rules refuse a tag and the value at a cursor. -/
def refused (input : List Byte) (cursor length : Int) (tag : Nat) : Run Bool :=
  if ¬canonicalTagForm tag then pure true
  else do
    let canonical ← canonicalValue input cursor length tag
    pure (!canonical)

/-- The five stores into the result array. -/
def storeFields (result : List Int) (resultOffset tag headerLength valueOffset valueLength nextOffset : Int) :
    Run (List Int) := do
  let result ← set result (resultOffset + 0) tag
  let result ← set result (resultOffset + 1) headerLength
  let result ← set result (resultOffset + 2) valueOffset
  let result ← set result (resultOffset + 3) valueLength
  set result (resultOffset + 4) nextOffset

def tryRead (input : List Byte) (offset length : Int) (result : List Int) (resultOffset : Int) (der : Bool) :
    Run (Bool × List Int) := do
  if ¬contains input.length offset length ∨ length < 2 ∨ ¬contains result.length resultOffset resultSize then
    return (false, result)
  let stop := offset + length
  match ← readTag input offset stop with
  | none => return (false, result)
  | some (tag, cursor) =>
      match ← readLength input cursor stop with
      | none => return (false, result)
      | some (valueLength, cursor) =>
          if stop - cursor < valueLength then return (false, result)
          if ← (if der then refused input cursor valueLength tag else pure false) then return (false, result)
          let result ← storeFields result resultOffset tag (cursor - offset) cursor valueLength (cursor + valueLength)
          return (true, result)

section Meaning

open BerTlv

theorem masked {n : Nat} (h : n < 256) : n &&& 0x1f = n % 32 ∧ n &&& 0x7f = n % 128 ∧
    (n &&& 0x80 = 0 ↔ n < 128) ∧ (n &&& 0x20 = 0 ↔ n / 32 % 2 = 0) ∧ (n &&& 0xc0 = 0 ↔ n < 64) := by
  have hAll : ∀ n : Fin 256, n.1 &&& 0x1f = n.1 % 32 ∧ n.1 &&& 0x7f = n.1 % 128 ∧
      (n.1 &&& 0x80 = 0 ↔ n.1 < 128) ∧ (n.1 &&& 0x20 = 0 ↔ n.1 / 32 % 2 = 0) ∧
      (n.1 &&& 0xc0 = 0 ↔ n.1 < 64) := by decide +kernel
  exact hAll ⟨n, h⟩

/-- The bytes from a cursor to where reading stops. -/
def window (input : List Byte) (cursor stop : Nat) : List Byte := (input.take stop).drop cursor

theorem window_length {input : List Byte} {cursor stop : Nat} (hStop : stop ≤ input.length) :
    (window input cursor stop).length = stop - cursor := by
  rw [window, List.length_drop, List.length_take_of_le hStop]

theorem window_cons {input : List Byte} {cursor stop : Nat} (hStop : stop ≤ input.length) (hCursor : cursor < stop) :
    ∃ b, input[cursor]? = some b ∧ window input cursor stop = b :: window input (cursor + 1) stop := by
  have hInside : cursor < (input.take stop).length := by
    rw [List.length_take_of_le hStop]
    exact hCursor
  refine ⟨(input.take stop)[cursor], ?_, List.drop_eq_getElem_cons hInside⟩
  rw [List.getElem_take]
  exact List.getElem?_eq_getElem _

theorem window_nil {input : List Byte} {cursor stop : Nat} (h : stop ≤ cursor) : window input cursor stop = [] := by
  rw [window, List.drop_eq_nil_iff, List.length_take]
  omega

/-- Where reading goes on when so much of a window is left. -/
def behind (stop : Nat) {α : Type} (read : α × List Byte) : α × Int := (read.1, ((stop - read.2.length : Nat) : Int))

theorem behind_window {α : Type} {input : List Byte} {cursor stop : Nat} (hStop : stop ≤ input.length)
    (hCursor : cursor ≤ stop) (a : α) : behind stop (a, window input cursor stop) = (a, (cursor : Int)) := by
  rw [behind, window_length hStop, Nat.sub_sub_self hCursor]

theorem readTag_eq {input : List Byte} {cursor stop : Nat} (hStop : stop ≤ input.length) (hCursor : cursor < stop) :
    readTag input cursor stop = .ok ((splitTag (window input cursor stop)).map (behind stop)) := by
  obtain ⟨first, hFirst, hWindow⟩ := window_cons hStop hCursor
  have hNext : (((cursor + 1 : Nat) : Int)) = (cursor : Int) + 1 := rfl
  obtain ⟨hNumber, -⟩ := masked first.toNat_lt
  rw [hWindow]
  simp only [readTag, get_some hFirst, splitTag, bind, Except.bind, pure, Except.pure, hNumber, ← hNext, Nat.cast_le]
  by_cases hZero : first.toNat = 0
  · simp [hZero]
  · by_cases hLong : first.toNat % 32 = 31
    · by_cases hEnd : stop ≤ cursor + 1
      · simp [hZero, hLong, hEnd, window_nil hEnd]
      · obtain ⟨next, hSecond, hRest⟩ := window_cons hStop (Nat.lt_of_not_le hEnd)
        obtain ⟨-, hUsed, hMarked, -⟩ := masked next.toNat_lt
        rw [hRest]
        simp only [hZero, hLong, hEnd, if_false, if_true, get_some hSecond, hUsed, hMarked, not_true, ne_eq]
        have hThird : (((cursor + 1 + 1 : Nat) : Int)) = ((cursor + 1 : Nat) : Int) + 1 := rfl
        simp only [← hThird, Nat.cast_le, shift_or]
        by_cases hUnused : next.toNat % 128 = 0
        · simp [hUnused]
        · by_cases hTwo : next.toNat < 128
          · rw [Nat.mod_eq_of_lt hTwo] at hUnused
            simp only [hUnused, hTwo, Nat.mod_eq_of_lt hTwo, if_false, if_true, not_true]
            by_cases hMinimal : next.toNat < 31
            · simp [hMinimal]
            · simp [hMinimal, behind_window hStop (show cursor + 1 + 1 ≤ stop by omega)]
          · simp only [hUnused, hTwo, if_false, if_true, not_false_eq_true]
            by_cases hShort : stop ≤ cursor + 1 + 1
            · simp [hShort, window_nil hShort]
            · obtain ⟨last, hLast, hEnds⟩ := window_cons hStop (Nat.lt_of_not_le hShort)
              obtain ⟨-, -, hPlain, -⟩ := masked last.toNat_lt
              rw [hEnds]
              simp only [hShort, if_false, get_some hLast, hPlain]
              by_cases hMarkedLast : last.toNat < 128
              · simp [hMarkedLast, behind_window hStop (show cursor + 1 + 1 + 1 ≤ stop by omega)]
              · simp [hMarkedLast]
    · simp [hZero, hLong, behind_window hStop hCursor]

theorem readLength_eq {input : List Byte} {cursor stop : Nat} (hStop : stop ≤ input.length) :
    readLength input cursor stop = .ok ((splitLength (window input cursor stop)).map (behind stop)) := by
  simp only [readLength, bind, Except.bind, pure, Except.pure, Nat.cast_le]
  by_cases hEnd : stop ≤ cursor
  · simp [hEnd, window_nil hEnd, splitLength]
  · obtain ⟨first, hFirst, hWindow⟩ := window_cons hStop (Nat.lt_of_not_le hEnd)
    have hNext : (((cursor + 1 : Nat) : Int)) = (cursor : Int) + 1 := rfl
    have hOne : first.toNat = 0x81 ↔ first = 0x81 := (eq_iff_toNat (n := 0x81) (by decide)).symm
    have hTwo : first.toNat = 0x82 ↔ first = 0x82 := (eq_iff_toNat (n := 0x82) (by decide)).symm
    rw [hWindow]
    simp only [hEnd, if_false, get_some hFirst, splitLength, ← hNext, Nat.cast_le, hOne, hTwo]
    by_cases hShort : first.toNat < 128
    · simp [hShort, behind_window hStop (show cursor + 1 ≤ stop by omega)]
    · simp only [hShort, if_false]
      have hSecond : (((cursor + 1 + 1 : Nat) : Int)) = ((cursor + 1 : Nat) : Int) + 1 := rfl
      by_cases hFirstOne : first = 0x81
      · simp only [hFirstOne, if_true]
        by_cases hMissing : stop ≤ cursor + 1
        · simp [hMissing, window_nil hMissing]
        · obtain ⟨n, hByte, hRest⟩ := window_cons hStop (Nat.lt_of_not_le hMissing)
          rw [hRest]
          simp only [hMissing, if_false, get_some hByte]
          by_cases hMinimal : n.toNat < 128
          · simp [hMinimal]
          · simp only [hMinimal, if_false, Nat.le_of_not_lt hMinimal, if_true, Option.map_some,
              behind_window hStop (show cursor + 1 + 1 ≤ stop by omega), hSecond]
      · simp only [hFirstOne, if_false]
        by_cases hFirstTwo : first = 0x82
        · have hThird : (((cursor + 1 + 1 + 1 : Nat) : Int)) = ((cursor + 1 : Nat) : Int) + 2 := by
            push_cast
            ring
          simp only [hFirstTwo, if_true, ← hSecond, Nat.cast_le]
          by_cases hMissing : stop ≤ cursor + 1 + 1
          · by_cases hNone : stop ≤ cursor + 1
            · simp [hMissing, window_nil hNone]
            · obtain ⟨high, -, hRest⟩ := window_cons hStop (Nat.lt_of_not_le hNone)
              simp [hMissing, hRest, window_nil hMissing]
          · obtain ⟨high, hHigh, hRest⟩ := window_cons hStop (show cursor + 1 < stop by omega)
            obtain ⟨low, hLow, hEnds⟩ := window_cons hStop (Nat.lt_of_not_le hMissing)
            rw [hRest, hEnds]
            simp only [hMissing, if_false, get_some hHigh, get_some hLow, shift_or]
            by_cases hMinimal : high.toNat * 256 + low.toNat < 256
            · simp [hMinimal]
            · simp only [hMinimal, if_false, Nat.le_of_not_lt hMinimal, if_true, Option.map_some,
                behind_window hStop (show cursor + 1 + 1 + 1 ≤ stop by omega), hThird]
        · simp [hFirstTwo]

theorem encodedTagLength_eq (tag : Int) :
    encodedTagLength tag = if 0 ≤ tag ∧ ValidTag tag.toNat then ((tagBytes tag.toNat).length : Int) else -1 := by
  by_cases hRange : tag ≤ 0 ∨ 0xffffff < tag
  · have hInvalid : ¬(0 ≤ tag ∧ ValidTag tag.toNat) := by
      unfold ValidTag
      omega
    rw [encodedTagLength, if_pos hRange, if_neg hInvalid]
  · obtain ⟨n, rfl⟩ := Int.eq_ofNat_of_zero_le (show 0 ≤ tag by omega)
    have hLow : (n &&& 0xff) = n % 256 := Nat.and_two_pow_sub_one_eq_mod n 8
    have hShift : n >>> 8 = n / 256 := Nat.shiftRight_eq_div_pow n 8
    have hTop : n >>> 16 = n / 65536 := Nat.shiftRight_eq_div_pow n 16
    have hMiddle : n / 256 &&& 0xff = n / 256 % 256 := Nat.and_two_pow_sub_one_eq_mod _ 8
    have hNumber (m : Nat) : m &&& 0x1f = m % 32 := Nat.and_two_pow_sub_one_eq_mod m 5
    have hSeven (m : Nat) : m &&& 0x7f = m % 128 := Nat.and_two_pow_sub_one_eq_mod m 7
    have hLast := (masked (n := n % 256) (by omega)).2.2.1
    have hNext := (masked (n := n / 256 % 256) (by omega)).2.2.1
    simp only [encodedTagLength, if_neg hRange, Int.toNat_natCast, hLow, hShift, hTop, hMiddle, hNumber, hSeven, hLast,
      hNext, length_tagBytes, ValidTag, ne_eq]
    split_ifs <;> first | rfl | omega

theorem canonicalTagForm_eq {tag : Nat} (h : ValidTag tag) : canonicalTagForm tag = canonicalForm tag := by
  have hLength : encodedTagLength tag = (tagBytes tag).length := by
    rw [encodedTagLength_eq, Int.toNat_natCast, if_pos ⟨Int.natCast_nonneg tag, h⟩]
  by_cases hOne : tag < 256
  · have hAll : ∀ n : Fin 256, ValidTag n.1 → canonicalTagForm n.1 = canonicalForm n.1 := by decide +kernel
    exact hAll ⟨tag, hOne⟩ h
  · have hForm : canonicalForm tag = true := by
      simp only [canonicalForm, decide_eq_true_eq]
      exact .inl (by omega)
    have hLonger : encodedTagLength tag = 2 ∨ encodedTagLength tag = 3 := by
      rw [hLength, length_tagBytes, if_neg hOne]
      split_ifs
      · exact .inl rfl
      · exact .inr rfl
    rcases hLonger with hTwo | hThree
    · simp [hForm, canonicalTagForm, hTwo]
    · simp [hForm, canonicalTagForm, hThree]

theorem objectIdentifierGroups_eq {input : List Byte} {cursor left : Nat} (h : cursor + left ≤ input.length)
    (firstGroup : Bool) : objectIdentifierGroups input cursor left firstGroup =
      .ok (canonicalGroups firstGroup (window input cursor (cursor + left))) := by
  induction left generalizing cursor firstGroup with
  | zero => rw [Nat.add_zero, window_nil le_rfl]; rfl
  | succ left ih =>
      obtain ⟨b, hByte, hWindow⟩ := window_cons h (show cursor < cursor + (left + 1) by omega)
      have hNext : (((cursor + 1 : Nat) : Int)) = (cursor : Int) + 1 := rfl
      have hPad : b.toNat = 0x80 ↔ b = 128 := (eq_iff_toNat (n := 128) (by decide)).symm
      have hRest := ih (show cursor + 1 + left ≤ input.length by omega) (decide (b.toNat < 128))
      rw [show cursor + 1 + left = cursor + (left + 1) by omega] at hRest
      simp only [objectIdentifierGroups, get_some hByte, bind, Except.bind, ← hNext, hPad,
        (masked b.toNat_lt).2.2.1, hRest, hWindow, canonicalGroups]
      split_ifs with hPadded
      · simp [hPadded, pure, Except.pure]
      · simp [hPadded]

theorem canonicalInteger_eq {input : List Byte} {cursor length : Nat} (h : cursor + length ≤ input.length) :
    canonicalInteger input cursor length = .ok (BerTlv.canonicalInteger (window input cursor (cursor + length))) := by
  match length with
  | 0 => rw [Nat.add_zero, window_nil le_rfl]; rfl
  | 1 =>
      obtain ⟨b, -, hWindow⟩ := window_cons h (show cursor < cursor + 1 by omega)
      rw [hWindow, window_nil le_rfl]
      rfl
  | length + 2 =>
      obtain ⟨first, hFirst, hWindow⟩ := window_cons h (show cursor < cursor + (length + 2) by omega)
      obtain ⟨second, hSecond, hRest⟩ := window_cons h (show cursor + 1 < cursor + (length + 2) by omega)
      have hNext : (((cursor + 1 : Nat) : Int)) = (cursor : Int) + 1 := rfl
      have hZero : first.toNat = 0 ↔ first = 0 := (eq_iff_toNat (n := 0) (by decide)).symm
      have hOnes : first.toNat = 0xff ↔ first = 255 := (eq_iff_toNat (n := 255) (by decide)).symm
      rw [hWindow, hRest]
      simp only [canonicalInteger, get_some hFirst, get_some hSecond, ← hNext, bind, Except.bind, pure, Except.pure,
        hZero, hOnes, (masked second.toNat_lt).2.2.1, BerTlv.canonicalInteger, ne_eq, not_lt]
      rw [if_neg (by omega), if_neg (by omega)]

theorem canonicalBitString_eq {input : List Byte} {cursor length : Nat} (h : cursor + length ≤ input.length) :
    canonicalBitString input cursor length = .ok (canonicalBits (window input cursor (cursor + length))) := by
  match length with
  | 0 => rw [Nat.add_zero, window_nil le_rfl]; rfl
  | length + 1 =>
      obtain ⟨unused, hUnused, hWindow⟩ := window_cons h (show cursor < cursor + (length + 1) by omega)
      have hUnmasked : (window input (cursor + 1) (cursor + (length + 1))).getLast? =
          if length = 0 then none else input[cursor + length]? := by
        split_ifs with hNone
        · subst hNone
          rw [window_nil (by omega)]
          rfl
        · rw [List.getLast?_eq_getElem?, window_length h, window, List.getElem?_drop, List.getElem?_take_of_lt (by omega)]
          congr 1
          omega
      rw [hWindow]
      simp only [canonicalBitString, get_some hUnused, bind, Except.bind, pure, Except.pure, canonicalBits, hUnmasked]
      rw [if_neg (by omega)]
      by_cases hMany : 7 < unused.toNat
      · simp [hMany]
      · by_cases hAll : unused.toNat = 0
        · simp [hAll]
        · by_cases hNone : length = 0
          · simp [hNone, hAll]
          · obtain ⟨last, hLast, -⟩ := window_cons h (show cursor + length < cursor + (length + 1) by omega)
            have hEnd : (cursor : Int) + ((length + 1 : Nat) : Int) - 1 = ((cursor + length : Nat) : Int) := by
              push_cast
              omega
            have hSingle : ¬(((length + 1 : Nat) : Int) = 1) := by omega
            have hMask : last.toNat &&& 1 <<< unused.toNat - 1 = last.toNat % 2 ^ unused.toNat := by
              rw [Nat.one_shiftLeft, Nat.and_two_pow_sub_one_eq_mod]
            rw [if_neg (by omega), if_neg hAll, hEnd, get_some hLast]
            simp [hMask, hNone, hLast, hAll, Nat.le_of_not_lt hMany]

theorem canonicalValue_eq {input : List Byte} {cursor length : Nat} (h : cursor + length ≤ input.length) (tag : Nat) :
    canonicalValue input cursor length tag =
      .ok (BerTlv.canonicalValue tag (window input cursor (cursor + length))) := by
  have hEmpty : window input cursor (cursor + length) = [] ↔ length = 0 := by
    rw [← List.length_eq_zero_iff, window_length h]
    omega
  simp only [canonicalValue]
  split_ifs with hBoolean hSize hInteger hBits hNull hIdentifier
  · subst hBoolean
    obtain rfl : length = 1 := by exact_mod_cast hSize
    obtain ⟨b, hByte, hWindow⟩ := window_cons h (show cursor < cursor + 1 by omega)
    rw [hWindow, window_nil le_rfl, get_some hByte]
    simp [BerTlv.canonicalValue, bind, Except.bind, pure, Except.pure]
  · subst hBoolean
    have hOther : (window input cursor (cursor + length)).length ≠ 1 := by
      rw [window_length h]
      omega
    have hValue : BerTlv.canonicalValue 1 (window input cursor (cursor + length)) = false := by
      simp only [BerTlv.canonicalValue, decide_eq_false_iff_not]
      rintro (hZero | hOnes)
      · exact hOther (by rw [hZero]; rfl)
      · exact hOther (by rw [hOnes]; rfl)
    rw [hValue]
    rfl
  · rw [hInteger, canonicalInteger_eq h]
    rfl
  · rw [hBits, canonicalBitString_eq h]
    rfl
  · subst hNull
    simp [BerTlv.canonicalValue, hEmpty, pure, Except.pure]
  · subst hIdentifier
    simp only [canonicalObjectIdentifier, BerTlv.canonicalValue, ne_eq, hEmpty]
    split_ifs with hShort
    · have hNone : length = 0 := by omega
      simp [hNone, pure, Except.pure]
    · rw [Int.toNat_natCast, objectIdentifierGroups_eq h]
      have hSome : length ≠ 0 := by omega
      simp [hSome]
  · unfold BerTlv.canonicalValue
    split <;> simp_all [pure, Except.pure]

/-- What the reader stores, five integers from an offset on. -/
def stored (result : List Int) (resultOffset : Nat) (reading : Reading) : List Int :=
  result.take resultOffset ++ reading.fields.map Int.ofNat ++ result.drop (resultOffset + resultSize)

theorem window_append {input front rest : List Byte} {cursor stop : Nat} (hStop : stop ≤ input.length)
    (hCursor : cursor ≤ stop) (h : window input cursor stop = front ++ rest) :
    rest = window input (cursor + front.length) stop ∧ cursor + front.length ≤ stop := by
  have hLength := congrArg List.length h
  rw [window_length hStop, List.length_append] at hLength
  have hRest := congrArg (List.drop front.length) h
  rw [List.drop_left, window, List.drop_drop] at hRest
  exact ⟨hRest.symm, by omega⟩

theorem window_take {input : List Byte} {cursor stop n : Nat} (h : cursor + n ≤ stop) :
    (window input cursor stop).take n = window input cursor (cursor + n) := by
  rw [window, window, List.take_drop, List.take_take, Nat.min_eq_left h]

/-- Five stores in a row replace five elements. -/
theorem storeFields_eq {result : List Int} {resultOffset : Nat} (h : resultOffset + resultSize ≤ result.length)
    (a b c d e : Int) : storeFields result resultOffset a b c d e =
      .ok (result.take resultOffset ++ [a, b, c, d, e] ++ result.drop (resultOffset + resultSize)) := by
  unfold resultSize at *
  obtain ⟨front, rest, hFront, rfl⟩ : ∃ front rest, front.length = resultOffset ∧ result = front ++ rest :=
    ⟨_, _, List.length_take_of_le (by omega), (List.take_append_drop resultOffset result).symm⟩
  rw [List.length_append, hFront] at h
  obtain ⟨middle, rest, hMiddle, rfl⟩ : ∃ middle after, middle.length = 5 ∧ rest = middle ++ after :=
    ⟨_, _, List.length_take_of_le (by omega), (List.take_append_drop 5 rest).symm⟩
  have hIndex (k : Nat) : (resultOffset : Int) + (k : Int) = ((front.length + k : Nat) : Int) := by
    rw [hFront]
    rfl
  match middle, hMiddle with
  | [v, w, x, y, z], _ =>
      have hRest : (front ++ ([v, w, x, y, z] ++ rest)).drop (resultOffset + 5) = rest := by
        rw [← hFront, List.drop_append]
        simp
      rw [hRest, ← hFront, List.take_left]
      have hZero := hIndex 0
      have hOne := hIndex 1
      have hTwo := hIndex 2
      have hThree := hIndex 3
      have hFour := hIndex 4
      simp only [Nat.cast_ofNat, Nat.cast_zero, Nat.cast_one, ← hFront] at hZero hOne hTwo hThree hFour
      simp only [storeFields, hZero, hOne, hTwo, hThree, hFour, bind, Except.bind]
      rw [set_inside (by simp)]
      dsimp only
      rw [set_inside (by simp)]
      dsimp only
      rw [set_inside (by simp)]
      dsimp only
      rw [set_inside (by simp)]
      dsimp only
      rw [set_inside (by simp)]
      simp

theorem refused_eq {input : List Byte} {cursor length tag : Nat} (hValid : ValidTag tag)
    (h : cursor + length ≤ input.length) : refused input cursor length tag =
      .ok (decide ¬(⟨tag, window input cursor (cursor + length)⟩ : Object).Canonical) := by
  simp only [refused, canonicalTagForm_eq hValid, canonicalValue_eq h, Object.Canonical]
  by_cases hForm : canonicalForm tag = true
  · simp [hForm, bind, Except.bind, pure, Except.pure]
  · simp [hForm, pure, Except.pure]

/-- Nothing is found in fewer than two octets. -/
theorem find_short {octets : List Byte} (h : octets.length < 2) (der : Bool) : find octets der = none := by
  rw [find, Option.bind_eq_none_iff]
  intro found hFound
  have hBytes := congrArg List.length (split_iff.1 hFound).2
  have hHeader := found.1.length_headerBytes_pos
  rw [Object.bytes, List.length_append, List.length_append] at hBytes
  omega

/-- Inside both arrays the reference finds the object in front of the range, and stores five
integers about it exactly when it succeeds. -/
theorem tryRead_inside {input : List Byte} {result : List Int} {offset length resultOffset : Nat} (der : Bool)
    (hRange : offset + length ≤ input.length) (hResult : resultOffset + resultSize ≤ result.length) :
    tryRead input offset length result resultOffset der =
      .ok (match find (window input offset (offset + length)) der with
        | none => (false, result)
        | some o => (true, stored result resultOffset ((Reading.of o).shift offset))) := by
  by_cases hShort : length < 2
  · rw [find_short (by rw [window_length hRange]; omega), tryRead, if_pos (.inr (.inl (by omega)))]
    rfl
  · have hContained : ¬(¬contains input.length offset length ∨ (length : Int) < 2 ∨
        ¬contains result.length resultOffset resultSize) := by
      unfold contains
      omega
    have hStop : ((offset + length : Nat) : Int) = (offset : Int) + length := rfl
    have hStart : offset ≤ offset + length := Nat.le_add_right offset length
    simp only [tryRead, if_neg hContained, ← hStop, readTag_eq hRange (show offset < offset + length by omega), bind,
      Except.bind, find, split, Option.bind]
    generalize offset + length = stop at hRange hStart
    cases hTag : splitTag (window input offset stop) with
    | none => rfl
    | some found =>
        obtain ⟨tag, octets⟩ := found
        obtain ⟨hValid, hFront⟩ := splitTag_sound hTag
        obtain ⟨rfl, hBehind⟩ := window_append hRange hStart hFront
        simp only [Option.map_some, behind_window hRange hBehind, readLength_eq hRange]
        generalize hCursor : offset + (tagBytes tag).length = cursor at hBehind
        cases hLength : splitLength (window input cursor stop) with
        | none => rfl
        | some found =>
            obtain ⟨n, octets⟩ := found
            obtain ⟨hFew, hOctets⟩ := splitLength_sound hLength
            obtain ⟨rfl, hInside⟩ := window_append hRange hBehind hOctets
            simp only [Option.map_some, behind_window hRange hInside]
            generalize hValue : cursor + (lengthBytes n).length = value at hInside
            have hRoom : (stop : Int) - value < n ↔ ¬n ≤ (window input value stop).length := by
              rw [window_length hRange]
              omega
            simp only [hRoom]
            by_cases hFits : n ≤ (window input value stop).length
            · have hEnd : value + n ≤ stop := by
                rw [window_length hRange] at hFits
                omega
              simp only [hFits, not_true, if_false, if_true, window_take hEnd]
              have hSize : (window input value (value + n)).length = n := by
                rw [window_length (by omega), Nat.add_sub_cancel_left]
              have hReading : (Reading.of ⟨tag, window input value (value + n)⟩).shift offset =
                  ⟨tag, value - offset, value, n, value + n⟩ := by
                simp only [Reading.of, Reading.shift, Object.bytes, Object.headerBytes, List.length_append, hSize,
                  Reading.mk.injEq, true_and]
                omega
              have hHeader : (value : Int) - offset = ((value - offset : Nat) : Int) := by omega
              have hNext : (value : Int) + n = ((value + n : Nat) : Int) := rfl
              rw [hHeader, hNext, storeFields_eq hResult]
              cases der with
              | false =>
                  simp only [Bool.false_eq_true, if_false, false_and, pure, Except.pure, hReading]
                  rfl
              | true =>
                  rw [if_pos rfl, refused_eq hValid (by omega)]
                  by_cases hCanonical : (⟨tag, window input value (value + n)⟩ : Object).Canonical
                  · simp only [hCanonical, not_true, decide_false, Bool.false_eq_true, if_false, and_false, pure,
                      Except.pure, hReading]
                    rfl
                  · simp only [hCanonical, not_false_eq_true, decide_true, if_true, true_and, pure, Except.pure]
            · simp only [hFits, not_false_eq_true, if_true, if_false]
              rfl

/-- Outside of an array, or with a negative argument, the reference finds nothing. -/
theorem tryRead_outside {input : List Byte} {result : List Int} {offset length resultOffset : Int} (der : Bool)
    (h : ¬contains input.length offset length ∨ ¬contains result.length resultOffset resultSize) :
    tryRead input offset length result resultOffset der = .ok (false, result) := by
  rw [tryRead, if_pos (h.imp_right .inr)]
  rfl

end Meaning

end MicroCard.Tlv
