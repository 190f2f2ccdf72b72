import MicroCard.Tlv.Reference

/-! The native service and the desktop reference read the same objects and store the same
integers. -/
namespace MicroCard.Mc04.Heap

open Bytes Halting

variable {heap : Heap} {handle : RuntimeValue} {values : List Int32}

/-- A handle names an array of these integers, inside the data of the heap. -/
def HoldsInts (heap : Heap) (handle : RuntimeValue) (values : List Int32) : Prop :=
  ∃ at', heap.info handle = .ok (at', ObjectKind.ints.id.toNat, values.length) ∧
    at' + heapHeader + 4 * values.length ≤ heap.data.length ∧
    (heap.data.drop (at' + heapHeader)).take (4 * values.length) = values.flatMap intBytes

theorem length_intBytes (values : List Int32) : (values.flatMap intBytes).length = 4 * values.length := by
  induction values with
  | nil => rfl
  | cons value rest ih =>
      rw [List.flatMap_cons, List.length_append, ih, intBytes, length_toLE, List.length_cons]
      omega

/-- Bytes in front of a patch stay. -/
theorem patch_before {data bytes : List Byte} {at' start count : Nat} (hInside : at' ≤ data.length)
    (hBefore : start + count ≤ at') : ((patch data at' bytes).drop start).take count = (data.drop start).take count := by
  rw [List.take_drop, List.take_drop, patch, List.append_assoc, List.take_append_of_le_length, List.take_take,
    Nat.min_eq_left hBefore]
  rw [List.length_take_of_le hInside]
  exact hBefore

theorem patch_middle {front old fresh rest : List Byte} (h : fresh.length = old.length) :
    patch (front ++ old ++ rest) front.length fresh = front ++ fresh ++ rest := by
  rw [patch, List.append_assoc front, List.take_left, h, ← List.length_append, ← List.append_assoc front, List.drop_left]

/-- What an object's header says stays when bytes behind it are replaced. -/
theorem info_patched {heap' : Heap} {at' kind length start : Nat} {bytes : List Byte}
    (hInfo : heap.info handle = .ok (at', kind, length)) (hStart : at' + heapHeader ≤ start)
    (hInside : start + bytes.length ≤ heap.data.length) (hData : heap'.data = patch heap.data start bytes)
    (hObjects : heap'.objects = heap.objects) (hGeneration : heap'.generation = heap.generation) :
    heap'.info handle = .ok (at', kind, length) := by
  cases handle with
  | ref handle =>
      obtain ⟨_, hKnown, hInfo⟩ := Checks.bind_ok.1 hInfo
      obtain ⟨found, hFound, hInfo⟩ := Checks.bind_ok.1 hInfo
      obtain ⟨_, hHeader, hInfo⟩ := Checks.bind_ok.1 hInfo
      obtain ⟨byte, hKind, hInfo⟩ := Checks.bind_ok.1 hInfo
      obtain ⟨rfl, rfl, rfl⟩ : found = at' ∧ byte.toNat = kind ∧ fromLE ((heap.data.drop (found + 4)).take 2) = length := by
        simpa [pure, Except.pure] using hInfo
      have hSize : heap'.data.length = heap.data.length := by rw [hData, patch_length hInside]
      unfold heapHeader at hStart
      have hLength : (heap'.data.drop (found + 4)).take 2 = (heap.data.drop (found + 4)).take 2 := by
        rw [hData]
        exact patch_before (by omega) (by omega)
      have hSame : heap'.data[found]? = heap.data[found]? := by
        rw [hData, patch, List.append_assoc, List.getElem?_append_left, List.getElem?_take_of_lt (by omega)]
        rw [List.length_take_of_le (by omega)]
        omega
      have hByte : Halting.index heap'.data found = (.ok byte : Checked Byte) := by
        rw [Halting.index, hSame]
        exact hKind
      simp only [info, hObjects, hGeneration, hSize, hKnown, hFound, hHeader, hByte, hLength, bind, Except.bind, pure,
        Except.pure]
  | _ => cases hInfo

/-- Writing integers replaces the elements from an offset on. -/
theorem writeInts_holds (h : heap.HoldsInts handle values) {offset : Nat} {fresh : List Int32}
    (hRoom : offset + fresh.length ≤ values.length) :
    ∃ heap', heap.writeInts handle offset fresh = .ok heap' ∧
      heap'.HoldsInts handle (values.take offset ++ fresh ++ values.drop (offset + fresh.length)) := by
  obtain ⟨at', hInfo, hInside, hContent⟩ := h
  obtain ⟨before, old, rest, hBefore, hOld, rfl⟩ : ∃ before old rest, before.length = offset ∧
      old.length = fresh.length ∧ values = before ++ old ++ rest := by
    refine ⟨values.take offset, (values.drop offset).take fresh.length, values.drop (offset + fresh.length), ?_, ?_, ?_⟩
    · exact List.length_take_of_le (by omega)
    · rw [List.length_take, List.length_drop]
      omega
    · rw [← List.drop_drop, List.append_assoc, List.take_append_drop, List.take_append_drop]
  have hData : heap.data = (heap.data.take (at' + heapHeader) ++ before.flatMap intBytes) ++ old.flatMap intBytes ++
      (rest.flatMap intBytes ++ heap.data.drop (at' + heapHeader + 4 * (before ++ old ++ rest).length)) := by
    rw [List.flatMap_append, List.flatMap_append] at hContent
    have hSplit := List.take_append_drop (at' + heapHeader) heap.data
    have hBehind := List.take_append_drop (4 * (before ++ old ++ rest).length) (heap.data.drop (at' + heapHeader))
    rw [hContent, List.drop_drop] at hBehind
    rw [← hBehind] at hSplit
    simpa only [List.append_assoc] using hSplit.symm
  have hStart : at' + heapHeader + offset * 4 = (heap.data.take (at' + heapHeader) ++ before.flatMap intBytes).length := by
    rw [List.length_append, List.length_take_of_le (by omega), length_intBytes, hBefore]
    omega
  have hRange : byteRange (before ++ old ++ rest).length offset fresh.length = some (offset + fresh.length) :=
    if_pos hRoom
  have hFits : at' + heapHeader + offset * 4 + (fresh.flatMap intBytes).length ≤ heap.data.length := by
    rw [length_intBytes]
    omega
  obtain ⟨heap', hWrite, hPatched, hObjects, hGeneration⟩ : ∃ heap', heap.write (at' + heapHeader + offset * 4)
      (fresh.flatMap intBytes) = .ok heap' ∧ heap'.data = patch heap.data (at' + heapHeader + offset * 4)
        (fresh.flatMap intBytes) ∧ heap'.objects = heap.objects ∧ heap'.generation = heap.generation := by
    rw [write, dif_pos hFits]
    exact ⟨_, rfl, rfl, rfl, rfl⟩
  have hKept := info_patched hInfo (by omega) hFits hPatched hObjects hGeneration
  have hLength : (before ++ fresh ++ rest).length = (before ++ old ++ rest).length := by
    simp only [List.length_append, hOld]
  have hFinal : (before ++ old ++ rest).take offset ++ fresh ++ (before ++ old ++ rest).drop (offset + fresh.length) =
      before ++ fresh ++ rest := by
    rw [← hBefore, ← hOld, ← List.length_append, List.drop_left, List.append_assoc before old rest, List.take_left]
  refine ⟨heap', ?_, ?_⟩
  · simp only [writeInts, intLength, hInfo, bind, Except.bind, hRange, orRefuse, CrashTriple.orFail, refuseIf,
      CrashTriple.failIf, ne_eq, not_true, if_false, pure, Except.pure, hWrite]
  · rw [hFinal]
    refine ⟨at', by rw [hLength]; exact hKept, ?_, ?_⟩
    · rw [hPatched, patch_length hFits, hLength]
      exact hInside
    · have hNew : heap'.data = (heap.data.take (at' + heapHeader) ++ before.flatMap intBytes) ++ fresh.flatMap intBytes ++
          (rest.flatMap intBytes ++ heap.data.drop (at' + heapHeader + 4 * (before ++ old ++ rest).length)) := by
        rw [hPatched, hStart]
        nth_rewrite 1 [hData]
        exact patch_middle (by rw [length_intBytes, length_intBytes, hOld])
      have hFront : (heap.data.take (at' + heapHeader)).length = at' + heapHeader := List.length_take_of_le (by omega)
      have hWhole : heap'.data = heap.data.take (at' + heapHeader) ++ ((before ++ fresh ++ rest).flatMap intBytes ++
          heap.data.drop (at' + heapHeader + 4 * (before ++ old ++ rest).length)) := by
        rw [hNew]
        simp only [List.flatMap_append, List.append_assoc]
      rw [hWhole, List.drop_left' hFront, List.take_left' (length_intBytes _)]

end MicroCard.Mc04.Heap

namespace MicroCard.Tlv

open Bytes Halting BerTlv Mc04

variable {host : NativeHost} {heap : Heap} {input result : RuntimeValue} {bytes : List Byte} {values : List Int32}

theorem bytes_short (h : heap.bytes input = .ok bytes) : bytes.length ≤ maxTransientBytes := by
  obtain ⟨⟨at', length⟩, -, h⟩ := Checks.bind_ok.1 h
  obtain rfl := Except.ok.inj h
  have hSmall := heap.small
  have hExact := heap.exact'
  rw [List.length_take, List.length_drop]
  omega

/-- The fields of what was found in a card's array fit the integers of the card. -/
theorem fields_fit {octets : List Byte} {o : Object} {der : Bool} (h : find octets der = some o) {offset : Nat}
    (hShort : offset + octets.length ≤ maxTransientBytes) :
    ((((Reading.of o).shift offset).fields.map Int32.ofNat).map Int32.toInt) =
      ((Reading.of o).shift offset).fields.map Int.ofNat := by
  obtain ⟨⟨o', rest⟩, hSplit, h⟩ := Option.bind_eq_some_iff.1 h
  split_ifs at h
  obtain rfl := Option.some.inj h
  obtain ⟨hValid, rfl⟩ := split_iff.1 hSplit
  have hTag : o'.tag < 16777216 := by
    rcases hValid.tag with hOne | hTwo | hThree <;> omega
  have hHeader : o'.bytes.length = o'.headerBytes.length + o'.value.length := List.length_append
  rw [List.length_append] at hShort
  unfold maxTransientBytes at hShort
  have hAll : ∀ n ∈ ((Reading.of o').shift offset).fields, n < 2 ^ 31 := by
    simp only [Reading.of, Reading.shift, Reading.fields, List.mem_cons, List.not_mem_nil, or_false]
    omega
  rw [List.map_map]
  apply List.map_congr_left
  intro n hn
  exact Int32.toInt_ofNat_of_lt (hAll n hn)

/-- For every range of an array of the card, the native service and the reference return the
same truth value and leave the same integers in the result array; a failure leaves all
of them alone. -/
theorem tlv_readers_agree (hInput : heap.bytes input = .ok bytes) (hResult : heap.HoldsInts result values)
    (hGranted : tlvTryRead ∈ host.capabilities) (offset length resultOffset : Int32) (der : Bool)
    (hBudget : length.toInt.toNat + 1 ≤ host.budget) :
    ∃ found heap' host' values',
      host.readTlv heap input offset length result resultOffset der = .ok (found, heap', host') ∧
        heap'.HoldsInts result values' ∧
        tryRead bytes offset.toInt length.toInt (values.map Int32.toInt) resultOffset.toInt der =
          .ok (found, values'.map Int32.toInt) ∧ (found = false → heap' = heap ∧ values' = values) := by
  obtain ⟨at', hInfo, -⟩ := id hResult
  have hRoom : heap.intLength result = .ok values.length := by
    simp only [Heap.intLength, hInfo, bind, Except.bind]
    rfl
  have hCharge : host.charge tlvTryRead 0 = .ok { host with budget := host.budget - 1 } := by
    simp only [NativeHost.charge, refuseIf, CrashTriple.failIf, hGranted, not_true, if_false, bind, Except.bind, pure,
      Except.pure]
    rw [if_neg (by omega)]
  have hNothing (h : ¬contains bytes.length offset.toInt length.toInt ∨
      ¬contains (values.map Int32.toInt).length resultOffset.toInt resultSize) (host' : NativeHost)
      (hRead : host.readTlv heap input offset length result resultOffset der = .ok (false, heap, host')) :
      ∃ found heap' host' values',
        host.readTlv heap input offset length result resultOffset der = .ok (found, heap', host') ∧
          heap'.HoldsInts result values' ∧
          tryRead bytes offset.toInt length.toInt (values.map Int32.toInt) resultOffset.toInt der =
            .ok (found, values'.map Int32.toInt) ∧ (found = false → heap' = heap ∧ values' = values) :=
    ⟨false, heap, host', values, hRead, hResult, tryRead_outside der h, fun _ => ⟨rfl, rfl⟩⟩
  by_cases hSigns : 0 ≤ offset.toInt ∧ 0 ≤ length.toInt ∧ 0 ≤ resultOffset.toInt
  · obtain ⟨hOffset, hLength, hResultOffset⟩ := hSigns
    obtain ⟨o, hO⟩ := Int.eq_ofNat_of_zero_le hOffset
    obtain ⟨l, hL⟩ := Int.eq_ofNat_of_zero_le hLength
    obtain ⟨r, hR⟩ := Int.eq_ofNat_of_zero_le hResultOffset
    have hUnsigned : NativeHost.unsigned offset = some o ∧ NativeHost.unsigned length = some l ∧
        NativeHost.unsigned resultOffset = some r := by
      simp only [NativeHost.unsigned, hO, hL, hR, Int.natCast_nonneg, if_true, Int.toNat_natCast, true_and]
    rw [hL, Int.toNat_natCast] at hBudget
    by_cases hRange : o + l ≤ bytes.length
    · by_cases hStores : r + resultSize ≤ values.length
      · have hByteRange : byteRange bytes.length o l = some (o + l) := if_pos hRange
        have hStoreRange : byteRange values.length r 5 = some (r + 5) := if_pos hStores
        have hWindow : (bytes.drop o).take l = window bytes o (o + l) := by
          rw [window, List.take_drop, Nat.add_comm]
        have hReference := @tryRead_inside bytes (values.map Int32.toInt) o l r der hRange
          (by rw [List.length_map]; exact hStores)
        have hSpend : ¬host.budget - 1 < l := by omega
        rw [hO, hL, hR, hReference]
        simp only [NativeHost.readTlv, hCharge, hUnsigned, hInput, hByteRange, hRoom, hStoreRange, bind, Except.bind,
          refuseIf, CrashTriple.failIf, if_neg hSpend, hWindow, Native.read_eq, pure, Except.pure]
        cases hFound : find (window bytes o (o + l)) der with
        | none => exact ⟨_, _, _, values, rfl, hResult, rfl, fun _ => ⟨rfl, rfl⟩⟩
        | some object =>
            have hShort := bytes_short hInput
            have hFit := @fields_fit _ object der hFound o (by rw [window_length hRange]; omega)
            obtain ⟨heap', hWrite, hHolds⟩ := @Heap.writeInts_holds heap result values hResult r
              (((Reading.of object).shift o).fields.map Int32.ofNat) hStores
            simp only [Option.map_some, hWrite]
            refine ⟨_, heap', _, _, rfl, hHolds, ?_, fun h => (Bool.noConfusion h)⟩
            simp only [stored, List.map_append, List.map_take, List.map_drop, hFit]
            rfl
      · apply hNothing (.inr ?_) { host with budget := host.budget - 1 }
        · have hNoRoom : byteRange values.length r 5 = none := if_neg hStores
          have hByteRange : byteRange bytes.length o l = some (o + l) := if_pos hRange
          simp only [NativeHost.readTlv, hCharge, hUnsigned, hInput, hByteRange, hRoom, hNoRoom, bind, Except.bind, pure,
            Except.pure]
        · unfold contains
          rw [List.length_map]
          omega
    · apply hNothing (.inl (by unfold contains; omega)) { host with budget := host.budget - 1 }
      have hByteRange : byteRange bytes.length o l = none := if_neg hRange
      simp only [NativeHost.readTlv, hCharge, hUnsigned, hInput, hByteRange, bind, Except.bind, pure, Except.pure]
  · apply hNothing (by unfold contains; omega) { host with budget := host.budget - 1 }
    simp only [NativeHost.readTlv, hCharge, bind, Except.bind]
    split
    · rename_i hOffset hLength hResultOffset
      simp only [NativeHost.unsigned] at hOffset hLength hResultOffset
      split_ifs at hOffset hLength hResultOffset with hFirst hSecond hThird
      exact absurd ⟨hFirst, hSecond, hThird⟩ hSigns
    · rfl

/-- A heap with an octet string of one octet and an array of five integers. -/
def octetHeap : Heap :=
  ((Heap.new.allocateBytes (fun _ => true) [4, 1, 0xaa]).2.allocate (fun _ => true) false 5).2

theorem tlv_readers_agree_octets : ∃ found heap' host' values',
    NativeHost.readTlv ⟨[tlvTryRead], 4⟩ octetHeap (.ref 1) 0 3 (.ref 2) 0 true = .ok (found, heap', host') ∧
      heap'.HoldsInts (.ref 2) values' ∧
      tryRead [4, 1, 0xaa] 0 3 [0, 0, 0, 0, 0] 0 true = .ok (found, values'.map Int32.toInt) ∧
      (found = false → heap' = octetHeap ∧ values' = [0, 0, 0, 0, 0]) := by
  have hInput : octetHeap.bytes (.ref 1) = .ok [4, 1, 0xaa] := by decide
  have hResult : octetHeap.HoldsInts (.ref 2) [0, 0, 0, 0, 0] := ⟨10, by decide, by decide, by decide⟩
  exact @tlv_readers_agree ⟨[tlvTryRead], 4⟩ octetHeap (.ref 1) (.ref 2) [4, 1, 0xaa] [0, 0, 0, 0, 0] hInput hResult
    (by decide) 0 3 0 true (by decide)

end MicroCard.Tlv
