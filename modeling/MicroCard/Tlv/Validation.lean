import MicroCard.Tlv.Writers

/-! The validation walks the objects of a range and, with a stack of ends in the scratch
array, the objects inside them. It accepts exactly the forests of distinguished objects
that the stack is deep enough for. -/
namespace MicroCard.Tlv

open Bytes Halting ManagedArrays BerTlv

section Fields

variable {result : List Int} {resultOffset : Nat} {reading : Reading}

/-- The elements that a reading was stored in. -/
theorem stored_fields (h : resultOffset + resultSize ≤ result.length) (reading : Reading) {i : Nat} (hi : i < resultSize) :
    (stored result resultOffset reading)[resultOffset + i]? = (reading.fields.map Int.ofNat)[i]? := by
  unfold resultSize at *
  rw [stored, List.append_assoc, List.getElem?_append_right]
  · rw [List.length_take_of_le (by omega), Nat.add_sub_cancel_left, List.getElem?_append_left]
    simp only [Reading.fields, List.map_cons, List.map_nil, List.length_cons, List.length_nil]
    omega
  · rw [List.length_take_of_le (by omega)]
    omega

/-- The elements that are read back. -/
theorem get_stored (h : resultOffset + resultSize ≤ result.length) (reading : Reading) :
    get (stored result resultOffset reading) ((resultOffset : Int) + 0) = (.ok (reading.tag : Int) : Run Int) ∧
      get (stored result resultOffset reading) ((resultOffset : Int) + 2) = (.ok (reading.valueOffset : Int) : Run Int) ∧
      get (stored result resultOffset reading) ((resultOffset : Int) + 3) = (.ok (reading.valueLength : Int) : Run Int) ∧
      get (stored result resultOffset reading) ((resultOffset : Int) + 4) = (.ok (reading.nextOffset : Int) : Run Int) := by
  refine ⟨?_, ?_, ?_, ?_⟩
  · exact get_some (stored_fields h reading (i := 0) (by decide))
  · exact get_some (stored_fields h reading (i := 2) (by decide))
  · exact get_some (stored_fields h reading (i := 3) (by decide))
  · exact get_some (stored_fields h reading (i := 4) (by decide))

theorem stored_behind (h : resultOffset + resultSize ≤ result.length) (reading : Reading) {i : Nat}
    (hi : resultOffset + resultSize ≤ i) : (stored result resultOffset reading)[i]? = result[i]? := by
  unfold resultSize at *
  have hLength : (result.take resultOffset ++ reading.fields.map Int.ofNat).length = resultOffset + 5 := by
    rw [List.length_append, List.length_take_of_le (by omega)]
    rfl
  rw [stored, List.getElem?_append_right (by omega), hLength, List.getElem?_drop]
  congr 1
  unfold resultSize
  omega

theorem length_stored (h : resultOffset + resultSize ≤ result.length) (reading : Reading) :
    (stored result resultOffset reading).length = result.length := by
  unfold resultSize at *
  simp only [stored, List.length_append, List.length_take, List.length_drop, List.length_map, Reading.fields,
    List.length_cons, List.length_nil, resultSize]
  omega

end Fields

/-- The first octet of a tag, from its length. -/
theorem firstTagByte_eq {tag : Nat} (h : ValidTag tag) :
    0 < encodedTagLength tag ∧ firstTagByte tag (encodedTagLength tag) = firstOctet tag ∧ firstOctet tag < 256 := by
  have hLength : encodedTagLength tag = if tag < 256 then 1 else if tag < 65536 then 2 else 3 := by
    rw [encodedTagLength_eq, Int.toNat_natCast, if_pos ⟨Int.natCast_nonneg tag, h⟩, length_tagBytes]
    split_ifs <;> rfl
  refine ⟨?_, ?_, ?_⟩
  · rw [hLength]
    split_ifs <;> decide
  · rw [hLength, firstTagByte, firstOctet, Nat.shiftRight_eq_div_pow, Nat.shiftRight_eq_div_pow]
    split_ifs <;> first | rfl | omega
  · unfold firstOctet
    rcases h with hOne | hTwo | hThree <;> split_ifs <;> omega

theorem isConstructed_eq {tag : Nat} (h : ValidTag tag) : isConstructed tag = decide (firstOctet tag / 32 % 2 = 1) := by
  obtain ⟨hPositive, hFirst, hOctet⟩ := firstTagByte_eq h
  have hMask := (masked hOctet).2.2.2.1
  simp only [isConstructed, Int.toNat_natCast, hFirst, hPositive, true_and, ne_eq, hMask]
  rw [decide_eq_decide]
  omega

section Stack

/-- The ends of the open objects, innermost first, as the scratch array has them. -/
def Stacked (scratch : List Int) (base : Nat) : List Nat → Prop
  | [] => True
  | stop :: outer => scratch[base + outer.length]? = some (stop : Int) ∧ Stacked scratch base outer

/-- Each end lies inside the object around it. -/
def Nested (final : Nat) : Nat → List Nat → Prop
  | stop, [] => stop ≤ final
  | stop, outer :: rest => stop ≤ outer ∧ Nested final outer rest

/-- What is left to read of the objects around, from the end of the innermost one on. -/
def OuterForests (input : List Byte) : Nat → Nat → List Nat → Prop
  | _, _, [] => True
  | levels, stop, outer :: rest =>
      Forest (levels + 1) (window input stop outer) ∧ OuterForests input (levels + 1) outer rest

theorem Nested.le {final stop : Nat} {ends : List Nat} (h : Nested final stop ends) : stop ≤ final := by
  induction ends generalizing stop with
  | nil => exact h
  | cons outer rest ih => exact h.1.trans (ih h.2)

/-- The stack looks at its own elements only. -/
theorem Stacked.congr {scratch scratch' : List Int} {base : Nat} {ends : List Nat} (h : Stacked scratch base ends)
    (hSame : ∀ k, k < ends.length → scratch'[base + k]? = scratch[base + k]?) : Stacked scratch' base ends := by
  induction ends with
  | nil => trivial
  | cons stop outer ih =>
      rw [List.length_cons] at hSame
      exact ⟨(hSame outer.length (Nat.lt_succ_self _)).trans h.1, ih h.2 fun k hk => hSame k (Nat.lt_succ_of_lt hk)⟩

end Stack

section Walking

variable {input : List Byte} {base levels final size : Nat} {goal : Prop}

/-- What a walk keeps: what is left to read is a forest exactly when the whole is. -/
structure Standing (input : List Byte) (scratchOffset levels final size : Nat) (goal : Prop) (walk : Walk) (cursor stop : Nat)
    (ends : List Nat) : Prop where
  depth : walk.depth = ends.length
  atCursor : walk.cursor = cursor
  atStop : walk.stop = stop
  inside : cursor ≤ stop
  nested : Nested final stop ends
  shallow : ends.length ≤ levels
  sized : walk.scratch.length = size
  stacked : Stacked walk.scratch (scratchOffset + resultSize) ends
  meaning : goal ↔ Forest (levels - ends.length) (window input cursor stop) ∧
    OuterForests input (levels - ends.length) stop ends

/-- How far a walk is from its end: the bytes to read and the objects to close. -/
def Walk.left (final : Nat) (walk : Walk) : Nat := (final - walk.cursor).toNat + walk.depth

/-- What a round leaves: the walk goes on nearer to its end, or the answer is right. -/
def Progress (input : List Byte) (scratchOffset levels final size : Nat) (goal : Prop) (walk : Walk) :
    Walk ⊕ (Bool × List Int) → Prop
  | .inl next => (∃ cursor stop ends, Standing input scratchOffset levels final size goal next cursor stop ends) ∧
      next.left final < walk.left final
  | .inr (valid, scratch) => (valid = true ↔ goal) ∧ scratch.length = size

variable {walk : Walk} {scratchOffset cursor stop : Nat} {ends : List Nat}

/-- At the end of an object the walk closes it, or is done. -/
theorem validateStep_close (h : Standing input scratchOffset levels final size goal walk cursor stop ends)
    (hEnd : cursor = stop) : Settles (validateStep input scratchOffset (scratchOffset + resultSize) levels walk)
      (Progress input scratchOffset levels final size goal walk) := by
  have hCursor : walk.cursor = walk.stop := by rw [h.atCursor, h.atStop, hEnd]
  rw [validateStep, if_pos hCursor]
  cases ends with
  | nil =>
      rw [h.depth]
      refine ⟨?_, h.sized⟩
      rw [h.meaning, window_nil hEnd.ge]
      simp only [OuterForests, and_true, true_iff]
      exact .nil _
  | cons outer rest =>
      have hDepth : walk.depth = rest.length + 1 := h.depth
      have hTop : (get walk.scratch ((scratchOffset : Int) + (resultSize : Nat) + (rest.length : Nat)) : Run Int) =
          .ok outer := get_some h.stacked.1
      have hShallow := h.shallow
      rw [List.length_cons] at hShallow
      have hLevels : levels - (outer :: rest).length + 1 = levels - rest.length := by
        rw [List.length_cons]
        omega
      rw [hDepth]
      simp only [hTop, bind, Except.bind]
      refine ⟨⟨cursor, outer, rest, ?_⟩, ?_⟩
      · refine ⟨rfl, h.atCursor, rfl, hEnd.trans_le h.nested.1, h.nested.2, by omega, h.sized, h.stacked.2, ?_⟩
        rw [h.meaning, window_nil hEnd.ge, hEnd, ← hLevels]
        exact and_iff_right (Forest.nil _)
      · simp only [Walk.left, hDepth]
        omega

/-- Inside an object the walk reads the next one, and passes it or enters it. -/
theorem validateStep_read (hFinal : final ≤ input.length) (hRoom : scratchOffset + resultSize + levels ≤ size)
    (h : Standing input scratchOffset levels final size goal walk cursor stop ends) (hInside : cursor < stop) :
    Settles (validateStep input scratchOffset (scratchOffset + resultSize) levels walk)
      (Progress input scratchOffset levels final size goal walk) := by
  have hStop : stop ≤ input.length := h.nested.le.trans hFinal
  have hScratch : scratchOffset + resultSize ≤ walk.scratch.length := by
    rw [h.sized]
    omega
  have hLength : walk.stop - walk.cursor = ((stop - cursor : Nat) : Int) := by
    rw [h.atCursor, h.atStop]
    omega
  have hWhole : cursor + (stop - cursor) = stop := Nat.add_sub_cancel' h.inside
  have hRead := @tryRead_inside input walk.scratch cursor (stop - cursor) scratchOffset true (by omega) hScratch
  rw [hWhole] at hRead
  have hMore : window input cursor stop ≠ [] := by
    rw [ne_eq, ← List.length_eq_zero_iff, window_length hStop]
    omega
  have hDifferent : walk.cursor ≠ walk.stop := by
    rw [h.atCursor, h.atStop]
    omega
  have hNotBehind : ¬walk.stop < walk.cursor := by
    rw [h.atCursor, h.atStop]
    omega
  rw [validateStep, if_neg hDifferent, if_neg hNotBehind, hLength, h.atCursor, hRead]
  cases hFound : find (window input cursor stop) true with
  | none =>
      refine ⟨?_, h.sized⟩
      rw [h.meaning]
      apply iff_of_false Bool.false_ne_true
      intro hForests
      obtain ⟨o, rest, hSplit⟩ := hForests.1.first hMore
      have hCanonical := ((forest_iff hSplit).1 hForests.1).1
      rw [find_distinguished.2 ⟨rest, hSplit, hCanonical⟩] at hFound
      cases hFound
  | some o =>
      obtain ⟨rest, hSplit, hCanonical⟩ := find_distinguished.1 hFound
      obtain ⟨hValid, hWindow⟩ := split_iff.1 hSplit
      obtain ⟨rfl, hNext⟩ := window_append hStop h.inside hWindow
      have hHeader := o.length_headerBytes_pos
      have hBytes : o.bytes.length = o.headerBytes.length + o.value.length := List.length_append
      have hValue : o.value = window input (cursor + o.headerBytes.length) (cursor + o.bytes.length) := by
        have hParts := hWindow
        rw [Object.bytes, List.append_assoc] at hParts
        obtain ⟨hBehind, -⟩ := window_append hStop h.inside hParts
        have hTake := congrArg (List.take o.value.length) hBehind
        rwa [List.take_left, window_take (by omega), Nat.add_assoc, ← hBytes] at hTake
      obtain ⟨hTag, hOffset, hSize, hEnd⟩ := get_stored hScratch ((Reading.of o).shift cursor)
      simp only [bind, Except.bind, not_true, if_false, hTag, hOffset, hSize, hEnd]
      have hOpens : (isConstructed o.tag = true ∧ 0 < (o.value.length : Int)) ↔ o.Opens := by
        rw [isConstructed_eq hValid.tag, decide_eq_true_eq, Object.Opens, Object.Constructed, ne_eq,
          ← List.length_eq_zero_iff]
        omega
      have hKept : Stacked (stored walk.scratch scratchOffset ((Reading.of o).shift cursor)) (scratchOffset + resultSize)
          ends := h.stacked.congr fun k _ => stored_behind hScratch _ (by omega)
      have hStoredLength := length_stored hScratch ((Reading.of o).shift cursor)
      have hMeaning := h.meaning
      rw [forest_iff hSplit] at hMeaning
      have hDepth := h.depth
      have hShallow := h.shallow
      simp only [Reading.shift, Reading.of, hOpens] at hKept hStoredLength ⊢
      generalize stored walk.scratch scratchOffset _ = scratch at hKept hStoredLength ⊢
      split_ifs with hEnter hFull
      · refine ⟨?_, hStoredLength.trans h.sized⟩
        rw [hMeaning]
        apply iff_of_false Bool.false_ne_true
        intro hForests
        obtain ⟨inner, hInner, -⟩ := hForests.1.2.2 hEnter
        omega
      · have hPlace : scratchOffset + resultSize + walk.depth < scratch.length := by
          rw [hStoredLength, h.sized]
          omega
        have hIndex : (scratchOffset : Int) + (resultSize : Nat) + (walk.depth : Nat) =
            ((scratchOffset + resultSize + walk.depth : Nat) : Int) := rfl
        rw [hIndex, set_inside hPlace]
        obtain ⟨inner, hInner⟩ : ∃ inner, levels - ends.length = inner + 1 := ⟨levels - ends.length - 1, by omega⟩
        have hDeeper : levels - (stop :: ends).length = inner := by
          rw [List.length_cons]
          omega
        refine ⟨⟨cursor + o.headerBytes.length, cursor + o.bytes.length, stop :: ends, ?_⟩, ?_⟩
        · refine ⟨by rw [hDepth, List.length_cons], congrArg Nat.cast (Nat.add_comm _ _),
            congrArg Nat.cast (Nat.add_comm _ _), by omega, ⟨hNext, h.nested⟩, ?_, ?_, ⟨?_, ?_⟩, ?_⟩
          · rw [List.length_cons]
            omega
          · rw [List.length_set, hStoredLength, h.sized]
          · rw [← hDepth, List.getElem?_set_self hPlace, h.atStop]
          · apply hKept.congr
            intro k hk
            exact List.getElem?_set_ne (by omega)
          · rw [hMeaning, hDeeper, ← hValue, hInner]
            simp only [hCanonical, true_and, hEnter, forall_const, OuterForests]
            constructor
            · rintro ⟨⟨hRest, inner', hSame, hInside'⟩, hOuter⟩
              obtain rfl : inner = inner' := Nat.succ.inj hSame
              exact ⟨hInside', hRest, hOuter⟩
            · rintro ⟨hInside', hRest, hOuter⟩
              exact ⟨⟨hRest, inner, rfl, hInside'⟩, hOuter⟩
        · simp only [Walk.left, h.atCursor]
          have := h.nested.le
          omega
      · refine ⟨⟨cursor + o.bytes.length, stop, ends, ?_⟩, ?_⟩
        · refine ⟨hDepth, congrArg Nat.cast (Nat.add_comm _ _), h.atStop, hNext, h.nested, hShallow, ?_, hKept, ?_⟩
          · rw [hStoredLength, h.sized]
          · rw [hMeaning]
            simp only [hCanonical, hEnter, true_and, false_implies, and_true]
        · simp only [Walk.left, h.atCursor]
          have := h.nested.le
          omega

theorem validateStep_progress (hFinal : final ≤ input.length) (hRoom : scratchOffset + resultSize + levels ≤ size)
    (h : Standing input scratchOffset levels final size goal walk cursor stop ends) :
    Settles (validateStep input scratchOffset (scratchOffset + resultSize) levels walk)
      (Progress input scratchOffset levels final size goal walk) := by
  rcases Nat.lt_or_eq_of_le h.inside with hInside | hEnd
  · exact validateStep_read hFinal hRoom h hInside
  · exact validateStep_close h hEnd

/-- Managed code that settles returns. -/
theorem Run.returns {α : Type} {x : Run α} {P : α → Prop} (h : Settles x P) : ∃ a, x = .ok a ∧ P a := by
  cases x with
  | ok a => exact ⟨a, rfl, h⟩
  | error halt =>
      cases halt with
      | refused e => nomatch e
      | panic => exact h.elim
      | endless => exact h.elim

/-- Inside both arrays the validation accepts exactly the forests that its stack is deep
enough for. -/
theorem tryValidate_inside {scratch : List Int} {offset length scratchOffset scratchLength : Nat}
    (hRange : offset + length ≤ input.length) (hScratch : scratchOffset + scratchLength ≤ scratch.length)
    (hEnough : resultSize + 1 ≤ scratchLength) : ∃ valid scratch',
      tryValidate input offset length scratch scratchOffset scratchLength = .ok (valid, scratch') ∧
        (valid = true ↔ Forest (scratchLength - resultSize) (window input offset (offset + length))) ∧
        scratch'.length = scratch.length := by
  have hContained : ¬(¬contains input.length offset length ∨ ¬contains scratch.length scratchOffset scratchLength ∨
      (scratchLength : Int) < resultSize + 1) := by
    unfold contains
    omega
  have hLevels : (scratchLength : Int) - resultSize = ((scratchLength - resultSize : Nat) : Int) := by omega
  rw [tryValidate, if_neg hContained, hLevels, Int.toNat_natCast]
  have hLoop : Settles (loop (validateStep input scratchOffset (scratchOffset + resultSize) (scratchLength - resultSize : Nat))
      (length + 1) ⟨0, offset, offset + length, scratch⟩) fun answer =>
        (answer.1 = true ↔ Forest (scratchLength - resultSize) (window input offset (offset + length))) ∧
          answer.2.length = scratch.length := by
    apply Settles.loop (I := fun walk => ∃ cursor stop ends, Standing input scratchOffset (scratchLength - resultSize)
      (offset + length) scratch.length (Forest (scratchLength - resultSize) (window input offset (offset + length)))
      walk cursor stop ends) (Walk.left (offset + length))
    · rintro walk ⟨cursor, stop, ends, hStanding⟩
      apply (validateStep_progress hRange (by omega) hStanding).weaken
      intro next _ hProgress
      cases next with
      | inl walk => exact hProgress
      | inr answer => exact hProgress
    · exact ⟨offset, offset + length, [], rfl, rfl, rfl, Nat.le_add_right _ _, le_rfl, Nat.zero_le _, rfl, trivial,
        (and_iff_left trivial).symm⟩
    · simp only [Walk.left]
      omega
  obtain ⟨⟨valid, scratch'⟩, hRun, hMeaning, hLength⟩ := Run.returns hLoop
  exact ⟨valid, scratch', hRun, hMeaning, hLength⟩

/-- The validation always returns; it accepts forests only, and keeps the length of the scratch array. -/
theorem tryValidate_returns (input : List Byte) (offset length : Int) (scratch : List Int)
    (scratchOffset scratchLength : Int) : ∃ valid scratch',
      tryValidate input offset length scratch scratchOffset scratchLength = .ok (valid, scratch') ∧
        scratch'.length = scratch.length ∧ (valid = true → contains input.length offset length ∧
          contains scratch.length scratchOffset scratchLength ∧ resultSize + 1 ≤ scratchLength ∧
          Forest (scratchLength.toNat - resultSize) (window input offset.toNat (offset.toNat + length.toNat))) := by
  by_cases hOutside : ¬contains input.length offset length ∨ ¬contains scratch.length scratchOffset scratchLength ∨
      scratchLength < resultSize + 1
  · rw [tryValidate, if_pos hOutside]
    exact ⟨false, scratch, rfl, rfl, fun h => nomatch h⟩
  · simp only [not_or, not_not, not_lt] at hOutside
    obtain ⟨hInput, hScratch, hEnough⟩ := hOutside
    have hInputParts := hInput
    have hScratchParts := hScratch
    unfold contains at hInputParts hScratchParts
    obtain ⟨o, rfl⟩ := Int.eq_ofNat_of_zero_le hInputParts.1
    obtain ⟨l, rfl⟩ := Int.eq_ofNat_of_zero_le hInputParts.2.1
    obtain ⟨so, rfl⟩ := Int.eq_ofNat_of_zero_le hScratchParts.1
    obtain ⟨sl, rfl⟩ := Int.eq_ofNat_of_zero_le hScratchParts.2.1
    obtain ⟨valid, scratch', hRun, hMeaning, hLength⟩ := @tryValidate_inside input scratch o l so sl (by omega) (by omega)
      (by omega)
    exact ⟨valid, scratch', hRun, hLength, fun hValid => ⟨hInput, hScratch, hEnough, hMeaning.1 hValid⟩⟩

end Walking

end MicroCard.Tlv
