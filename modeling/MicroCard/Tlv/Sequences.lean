import MicroCard.Tlv.Validation

/-! The two other checks of contents: simple objects one behind the other, which need no
scratch array, and the order of the objects of a set. -/
namespace MicroCard.Tlv

open Bytes Halting ManagedArrays BerTlv

section Simple

/-- What the check without a scratch array asks of an object. It asks for a canonical value,
and not for the canonical form of the tag. -/
def plain (o : Object) : Bool := o.tag < 256 ∧ o.tag / 32 % 2 = 0 ∧ BerTlv.canonicalValue o.tag o.value = true

def Simple (o : Object) : Prop := o.Valid ∧ plain o = true

/-- Octets that are such objects one behind the other. -/
def Simples (octets : List Byte) : Prop := ∃ objects : List Object, octets = objects.flatMap Object.bytes ∧ ∀ o ∈ objects, Simple o

theorem simples_nil : Simples [] := ⟨[], rfl, fun _ h => nomatch h⟩

theorem Simples.first {octets : List Byte} (h : Simples octets) (hSome : octets ≠ []) :
    ∃ o rest, split octets = some (o, rest) := by
  obtain ⟨objects, rfl, hAll⟩ := h
  cases objects with
  | nil => exact absurd rfl hSome
  | cons o rest => exact ⟨o, _, split_bytes (hAll o List.mem_cons_self).1 _⟩

theorem simples_iff {octets rest : List Byte} {o : Object} (h : split octets = some (o, rest)) :
    Simples octets ↔ Simple o ∧ Simples rest := by
  constructor
  · rintro ⟨objects, rfl, hAll⟩
    cases objects with
    | nil => cases h
    | cons first others =>
        rw [List.flatMap_cons, split_bytes (hAll first List.mem_cons_self).1] at h
        obtain ⟨rfl, rfl⟩ := Prod.mk.inj (Option.some.inj h)
        exact ⟨hAll first List.mem_cons_self, others, rfl, fun o ho => hAll o (List.mem_cons_of_mem _ ho)⟩
  · rintro ⟨hFirst, objects, rfl, hAll⟩
    refine ⟨o :: objects, (split_iff.1 h).2, ?_⟩
    intro o' ho'
    rcases List.mem_cons.1 ho' with rfl | hLater
    · exact hFirst
    · exact hAll o' hLater

end Simple

section Rounds

variable {input : List Byte} {cursor stop : Nat}

theorem readLengthBefore_eq (hStop : stop ≤ input.length) : readLengthBefore input cursor stop =
    .ok (match splitLength (window input cursor stop) with
      | none => -1
      | some (n, _) => (n : Int)) := by
  by_cases hEnd : stop ≤ cursor
  · simp [readLengthBefore, hEnd, window_nil hEnd, splitLength, pure, Except.pure]
  · obtain ⟨first, hFirst, hWindow⟩ := window_cons hStop (Nat.lt_of_not_le hEnd)
    have hNext : (((cursor + 1 : Nat) : Int)) = (cursor : Int) + 1 := rfl
    have hThird : (((cursor + 1 + 1 : Nat) : Int)) = (cursor : Int) + 2 := rfl
    have hOne : first.toNat = 0x81 ↔ first = 0x81 := (eq_iff_toNat (n := 0x81) (by decide)).symm
    have hTwo : first.toNat = 0x82 ↔ first = 0x82 := (eq_iff_toNat (n := 0x82) (by decide)).symm
    rw [hWindow]
    simp only [readLengthBefore, Nat.cast_le, hEnd, if_false, get_some hFirst, splitLength, bind, Except.bind, pure,
      Except.pure, ← hNext, ← hThird, Nat.cast_lt, hOne, hTwo]
    by_cases hShort : first.toNat < 128
    · simp [hShort]
    · simp only [hShort, if_false]
      by_cases hFirstOne : first = 0x81
      · simp only [hFirstOne, true_and, if_true]
        by_cases hMissing : stop ≤ cursor + 1
        · simp [hMissing.not_gt, window_nil hMissing]
        · obtain ⟨n, hByte, hRest⟩ := window_cons hStop (Nat.lt_of_not_le hMissing)
          rw [hRest]
          simp only [Nat.lt_of_not_le hMissing, if_true, get_some hByte]
          by_cases hMinimal : 128 ≤ n.toNat
          · simp [hMinimal]
          · simp [hMinimal]
      · simp only [hFirstOne, false_and, if_false]
        by_cases hFirstTwo : first = 0x82
        · simp only [hFirstTwo, true_and, if_true]
          by_cases hMissing : stop ≤ cursor + 1 + 1
          · by_cases hNone : stop ≤ cursor + 1
            · simp [hMissing.not_gt, window_nil hNone]
            · obtain ⟨high, -, hRest⟩ := window_cons hStop (Nat.lt_of_not_le hNone)
              simp [hMissing.not_gt, hRest, window_nil hMissing]
          · obtain ⟨high, hHigh, hRest⟩ := window_cons hStop (show cursor + 1 < stop by omega)
            obtain ⟨low, hLow, hEnds⟩ := window_cons hStop (Nat.lt_of_not_le hMissing)
            rw [hRest, hEnds]
            simp only [Nat.lt_of_not_le hMissing, if_true, get_some hHigh, get_some hLow, shift_or]
            by_cases hMinimal : 256 ≤ high.toNat * 256 + low.toNat
            · simp [hMinimal]
            · simp [hMinimal]
        · simp [hFirstTwo]

theorem isValue_eq {length tag : Nat} (h : cursor + length ≤ input.length) :
    isValue input cursor length tag = .ok (BerTlv.canonicalValue tag (window input cursor (cursor + length))) := by
  have hContained : contains input.length cursor length := by
    unfold contains
    omega
  rw [← canonicalValue_eq h, isValue]
  split_ifs with hTag
  · simp [hTag, canonicalValue, isObjectIdentifier, canonicalObjectIdentifier, hContained]
  · rfl

/-- The first octet of a length tells how many there are. -/
theorem lengthOctets_eq {first : Byte} {octets rest : List Byte} {n : Nat}
    (h : splitLength (first :: octets) = some (n, rest)) : lengthOctets first.toNat = (lengthBytes n).length := by
  have hBytes := (splitLength_sound h).2
  rw [length_lengthBytes]
  unfold lengthBytes at hBytes
  split_ifs at hBytes ⊢ with hShort hOne
  · obtain ⟨rfl, -⟩ := List.cons.inj hBytes
    rw [UInt8.toNat_ofNat', Nat.mod_eq_of_lt (by omega), lengthOctets, if_pos hShort]
    rfl
  · obtain ⟨rfl, -⟩ := List.cons.inj hBytes
    rfl
  · obtain ⟨rfl, -⟩ := List.cons.inj hBytes
    rfl

/-- An identifier of more octets makes a tag that is not simple. -/
theorem plain_long {first : Byte} {octets rest : List Byte} {o : Object} (hLong : first.toNat % 32 = 31)
    (h : split (first :: octets) = some (o, rest)) : plain o = false := by
  obtain ⟨hValid, hBytes⟩ := split_iff.1 h
  rw [plain, decide_eq_false_iff_not]
  rintro ⟨hOne, -⟩
  rw [Object.bytes, Object.headerBytes, tagBytes, if_pos hOne] at hBytes
  obtain ⟨rfl, -⟩ := List.cons.inj hBytes
  rw [UInt8.toNat_ofNat', Nat.mod_eq_of_lt hOne] at hLong
  rcases hValid.tag with hShort | hTwo | hThree
  · exact hShort.2.2 hLong
  · omega
  · omega

/-- A round passes a simple object. -/
theorem primitiveStep_eq (hStop : stop ≤ input.length) (hCursor : cursor < stop) : primitiveStep input stop cursor =
    .ok (match split (window input cursor stop) with
      | none => .inr false
      | some (o, rest) => if plain o then .inl ((stop - rest.length : Nat) : Int) else .inr false) := by
  have hNotEnd : ¬(stop : Int) ≤ cursor := by omega
  obtain ⟨first, hFirst, hWindow⟩ := window_cons hStop hCursor
  by_cases hShort : (stop : Int) - cursor < 2
  · have hNone : split (window input cursor stop) = none := by
      rw [Option.eq_none_iff_forall_not_mem]
      rintro ⟨o, rest⟩ hSplit
      have hBytes := congrArg List.length (split_iff.1 hSplit).2
      have hHeader := o.length_headerBytes_pos
      rw [window_length hStop, Object.bytes, List.length_append, List.length_append] at hBytes
      omega
    rw [hNone, primitiveStep, if_neg hNotEnd, if_pos hShort]
    rfl
  · have hNext : (((cursor + 1 : Nat) : Int)) = (cursor : Int) + 1 := rfl
    have hNumber : first.toNat &&& 0x1f = first.toNat % 32 := (masked first.toNat_lt).1
    rw [primitiveStep, if_neg hNotEnd, if_neg hShort, get_some hFirst]
    simp only [bind, Except.bind, hNumber, ← hNext, readLengthBefore_eq hStop]
    by_cases hRefused : first.toNat = 0 ∨ first.toNat % 32 = 31
    · rw [if_pos hRefused, hWindow]
      cases hSplit : split (first :: window input (cursor + 1) stop) with
      | none => rfl
      | some found =>
          obtain ⟨o, rest⟩ := found
          have hPlain : plain o = false := by
            rcases hRefused with hZero | hLong
            · simp [split, splitTag, hZero] at hSplit
            · exact plain_long hLong hSplit
          simp only [hPlain, Bool.false_eq_true, if_false]
          rfl
    · simp only [not_or] at hRefused
      obtain ⟨hNonzero, hOne⟩ := hRefused
      rw [if_neg (by simp [hNonzero, hOne]), hWindow]
      simp only [split, splitTag_one hNonzero hOne, Option.bind_eq_bind, Option.bind_some]
      cases hLength : splitLength (window input (cursor + 1) stop) with
      | none => rfl
      | some found =>
          obtain ⟨n, octets⟩ := found
          obtain ⟨second, hSecond, hRest⟩ := window_cons hStop (show cursor + 1 < stop by omega)
          have hOctets := lengthOctets_eq (hRest ▸ hLength)
          obtain ⟨rfl, hBehind⟩ := window_append hStop (by omega) (splitLength_sound hLength).2
          have hOffset : ((cursor + 1 : Nat) : Int) + lengthOctets second.toNat =
              ((cursor + 1 + (lengthBytes n).length : Nat) : Int) := by
            rw [hOctets]
            rfl
          simp only [get_some hSecond, Option.bind_some, hOffset]
          generalize cursor + 1 + (lengthBytes n).length = value at hBehind
          have hCount : ¬((n : Int) < 0) := by omega
          have hRoom : (stop : Int) - value < n ↔ ¬n ≤ (window input value stop).length := by
            rw [window_length hStop]
            omega
          have hForm : first.toNat &&& 0x20 ≠ 0 ↔ ¬first.toNat / 32 % 2 = 0 := not_congr (masked first.toNat_lt).2.2.2.1
          simp only [hCount, if_false, hRoom]
          by_cases hFits : n ≤ (window input value stop).length
          · have hEnd : value + n ≤ stop := by
              rw [window_length hStop] at hFits
              omega
            have hLeft : stop - ((window input value stop).drop n).length = value + n := by
              rw [List.length_drop, window_length hStop]
              omega
            simp only [hFits, not_true, if_false, if_true, isValue_eq (show value + n ≤ input.length by omega),
              window_take hEnd, hLeft, hForm, plain]
            have hOctet : first.toNat < 256 := first.toNat_lt
            by_cases hValue : BerTlv.canonicalValue first.toNat (window input value (value + n)) = true
            · by_cases hPrimitive : first.toNat / 32 % 2 = 0
              · simp [hValue, hPrimitive, hOctet, pure, Except.pure]
              · simp [hValue, hPrimitive, pure, Except.pure]
            · simp [hValue, pure, Except.pure]
          · simp only [hFits, not_false_eq_true, if_true, if_false]
            rfl

/-- Inside the array the check accepts exactly the simple objects one behind the other. -/
theorem isPrimitiveSequence_inside {offset length : Nat} (hRange : offset + length ≤ input.length) :
    ∃ valid, isPrimitiveSequence input offset length = .ok valid ∧
      (valid = true ↔ Simples (window input offset (offset + length))) := by
  have hContained : ¬¬contains input.length offset length := by
    unfold contains
    omega
  have hStop : (offset : Int) + length = ((offset + length : Nat) : Int) := rfl
  rw [isPrimitiveSequence, if_neg hContained, Int.toNat_natCast, hStop]
  have hLoop : Settles (loop (primitiveStep input (offset + length : Nat)) (length + 1) offset) fun valid =>
      (valid = true ↔ Simples (window input offset (offset + length))) := by
    apply Settles.loop (I := fun at' : Int => ∃ cursor : Nat, at' = cursor ∧ cursor ≤ offset + length ∧
      (Simples (window input offset (offset + length)) ↔ Simples (window input cursor (offset + length))))
      fun at' => (((offset + length : Nat) : Int) - at').toNat
    · rintro at' ⟨cursor, rfl, hInside, hMeaning⟩
      rcases Nat.lt_or_eq_of_le hInside with hMore | hEnd
      · have hLeft : window input cursor (offset + length) ≠ [] := by
          rw [ne_eq, ← List.length_eq_zero_iff, window_length hRange]
          omega
        rw [primitiveStep_eq hRange hMore]
        cases hSplit : split (window input cursor (offset + length)) with
        | none =>
            refine iff_of_false Bool.false_ne_true fun hSimples => ?_
            obtain ⟨o, rest, hSome⟩ := (hMeaning.1 hSimples).first hLeft
            rw [hSplit] at hSome
            cases hSome
        | some found =>
            obtain ⟨o, rest⟩ := found
            obtain ⟨hValid, hWindow⟩ := split_iff.1 hSplit
            obtain ⟨rfl, hNext⟩ := window_append hRange hInside hWindow
            rw [simples_iff hSplit] at hMeaning
            by_cases hPlain : plain o = true
            · have hHeader := o.length_headerBytes_pos
              have hBytes : o.bytes.length = o.headerBytes.length + o.value.length := List.length_append
              have hCursor : offset + length - (window input (cursor + o.bytes.length) (offset + length)).length =
                  cursor + o.bytes.length := by
                rw [window_length hRange]
                omega
              simp only [hPlain, if_true, hCursor]
              refine ⟨⟨cursor + o.bytes.length, rfl, hNext, ?_⟩, ?_⟩
              · exact hMeaning.trans (and_iff_right ⟨hValid, hPlain⟩)
              · omega
            · simp only [hPlain, if_false, Bool.false_eq_true]
              exact iff_of_false Bool.false_ne_true fun hSimples => hPlain (hMeaning.1 hSimples).1.2
      · have hStopped : ((offset + length : Nat) : Int) ≤ cursor := by omega
        have hSame : (cursor : Int) = ((offset + length : Nat) : Int) := by omega
        rw [primitiveStep, if_pos hStopped]
        show decide _ = true ↔ _
        rw [hMeaning, hSame, window_nil hEnd.ge]
        exact iff_of_true (decide_eq_true rfl) simples_nil
    · exact ⟨offset, rfl, Nat.le_add_right _ _, Iff.rfl⟩
    · omega
  exact Run.returns hLoop

end Rounds

end MicroCard.Tlv
