import MicroCard.Library.DerIntegers
import MicroCard.Der.Ecdsa

/-! The encoder writes the sequence of two integers and the decoder takes nothing else, for
any width of a scalar up to sixty bytes. -/
namespace MicroCard.Der.Ecdsa

open Bytes Halting Buffers Slices BerTlv DerIntegers

section Sizes

variable {width : Nat} {m : List Byte}

/-- A content that is short enough has one length byte, and at most one byte more than the
number. -/
theorem length_content_le (m : List Byte) : (content m).length ≤ m.length + 1 := by
  rw [length_content]
  split <;> omega

theorem lengthBytes_short {n : Nat} (h : n < 128) : lengthBytes n = [UInt8.ofNat n] := if_pos h

theorem integerBytes_short (h : (content m).length < 128) :
    integerBytes m = 2 :: UInt8.ofNat (content m).length :: content m := by
  rw [integerBytes, itemBytes, lengthBytes_short h]
  rfl

theorem length_integerBytes_short (h : (content m).length < 128) : (integerBytes m).length = (content m).length + 2 := by
  rw [integerBytes_short h]
  rfl

end Sizes

/-- The encoding of a signature. -/
def der (width : Nat) (raw : List Byte) : List Byte :=
  sequenceBytes [magnitude (raw.take width), magnitude (raw.drop width)]

section Encoding

variable {width cursor capacity : Nat} {scalar written : List Byte}

/-- One scalar is written as an integer behind what was written. -/
theorem encodeScalar_eq (hScalar : scalar.length = width) (hSome : 0 < width) (hShort : width < 127)
    (hRoom : written.length + (width + 3) ≤ capacity) :
    encodeScalar width (filled (List.replicate capacity 0) written) written.length scalar =
      .ok (filled (List.replicate capacity 0) (written ++ integerBytes (magnitude scalar)),
        (written ++ integerBytes (magnitude scalar)).length) := by
  have hNonempty : scalar ≠ [] := List.ne_nil_of_length_pos (by omega)
  obtain ⟨hDrop, hInside⟩ := drop_scan hNonempty
  rw [hScalar] at hDrop hInside
  have hMagnitude : (magnitude scalar).length ≤ width := by
    rw [← hScalar]
    exact (zeros_magnitude scalar).2
  obtain ⟨lead, rest, hLead⟩ := List.exists_cons_of_ne_nil (magnitude_minimal hNonempty).ne_nil
  have hContent := length_content_le (magnitude scalar)
  have hBlank : (List.replicate capacity (0 : Byte)).length = capacity := List.length_replicate
  have hOne : written.length + 1 = (written ++ [2]).length := by simp
  have hTwo (n : Byte) : written.length + 2 = (written ++ [2] ++ [n]).length := by simp
  unfold encodeScalar
  dsimp only
  rw [behind_within (by omega), hDrop, ok_bind, index_found (by rw [hLead]; rfl), ok_bind, store_filled (by omega), ok_bind,
    hOne, store_filled (by rw [← hOne]; omega), ok_bind]
  by_cases hHigh : 128 ≤ lead.toNat
  · have hPadded : content (magnitude scalar) = 0 :: magnitude scalar := by rw [hLead, content_cons, if_pos hHigh]
    have hSize : (content (magnitude scalar)).length = (magnitude scalar).length + 1 := by rw [hPadded]; rfl
    have hThree (n : Byte) : written.length + 2 + 1 = (written ++ [2] ++ [n] ++ [0]).length := by simp
    rw [if_pos ((high_bit lead).not.2 (Nat.not_lt.2 hHigh)), hThree (UInt8.ofNat ((magnitude scalar).length + 1)),
      ← filled_replicate 0 (by simp; omega), copyInto_filled (by simp; omega), ok_bind, integerBytes_short (by omega), hSize,
      hPadded]
    simp [pure, Except.pure]
    omega
  · have hPlain : content (magnitude scalar) = magnitude scalar := by rw [hLead, content_cons, if_neg hHigh]
    rw [if_neg (not_not.2 ((high_bit lead).2 (Nat.not_le.1 hHigh))), Nat.add_zero, hTwo (UInt8.ofNat (magnitude scalar).length),
      copyInto_filled (by simp; omega), ok_bind, integerBytes_short (by omega), hPlain]
    simp [pure, Except.pure]
    omega

/-- Two scalars are two chunks. -/
theorem chunksExact_two {raw : List Byte} (hSome : 0 < width) (h : raw.length = 2 * width) :
    chunksExact raw width = [raw.take width, raw.drop width] := by
  have hCount : raw.length / width = 2 := by rw [h, Nat.mul_div_cancel _ hSome]
  have hRest : (raw.drop width).take width = raw.drop width := List.take_of_length_le (by rw [List.length_drop]; omega)
  rw [chunksExact, hCount]
  simp [List.range_succ, slice, hRest]

theorem length_der (hSome : 0 < width) (hShort : 2 * width + 6 < 128) {raw : List Byte} (h : raw.length = 2 * width) :
    bodyBytes [magnitude (raw.take width), magnitude (raw.drop width)] =
        integerBytes (magnitude (raw.take width)) ++ integerBytes (magnitude (raw.drop width)) ∧
      (integerBytes (magnitude (raw.take width))).length ≤ width + 3 ∧
      (integerBytes (magnitude (raw.drop width))).length ≤ width + 3 := by
  have hPart {scalar : List Byte} (hScalar : scalar.length = width) : (integerBytes (magnitude scalar)).length ≤ width + 3 := by
    have hMagnitude := (zeros_magnitude scalar).2
    have hContent := length_content_le (magnitude scalar)
    rw [length_integerBytes_short (by omega)]
    omega
  refine ⟨by simp, hPart ?_, hPart ?_⟩
  · rw [List.length_take]
    omega
  · rw [List.length_drop]
    omega

/-- The encoder fills the front of a cleared output with the encoding, whatever the output held. -/
theorem encodeWith_eq (hSome : 0 < width) (hShort : 2 * width + 6 < 128) {raw output : List Byte}
    (hRaw : raw.length = 2 * width) (hOutput : output.length = 2 * width + 8) :
    encodeWith width raw output = .ok ((der width raw).length, filled (List.replicate output.length 0) (der width raw)) ∧
      (der width raw).length ≤ output.length := by
  obtain ⟨hBody, hFirst, hSecond⟩ := length_der hSome hShort hRaw
  have hTake : (raw.take width).length = width := by
    rw [List.length_take]
    omega
  have hDrop : (raw.drop width).length = width := by
    rw [List.length_drop]
    omega
  have hDer : der width raw = 0x30 :: UInt8.ofNat ((integerBytes (magnitude (raw.take width))).length +
      (integerBytes (magnitude (raw.drop width))).length) ::
        (integerBytes (magnitude (raw.take width)) ++ integerBytes (magnitude (raw.drop width))) := by
    rw [der, sequenceBytes, itemBytes, hBody, List.length_append, lengthBytes_short (by omega)]
    rfl
  have hBlank : 0 < (List.replicate output.length (0 : Byte)).length := by
    rw [List.length_replicate]
    omega
  have hStart : (store (List.replicate output.length 0) 0 0x30 : Run (List Byte)) =
      .ok (filled (List.replicate output.length 0) [0x30, 0]) := by
    have hStored := @store_filled Unit Byte (List.replicate output.length 0) [] hBlank 0x30
    rw [filled_nil] at hStored
    rw [show (0 : Nat) = ([] : List Byte).length from rfl, hStored]
    exact congrArg Except.ok (filled_replicate 0 (by simp; omega)).symm
  have hOne := @encodeScalar_eq width output.length (raw.take width) [0x30, 0] hTake hSome (by omega) (by simp; omega)
  have hTwo := @encodeScalar_eq width output.length (raw.drop width) ([0x30, 0] ++ integerBytes (magnitude (raw.take width)))
    hDrop hSome (by omega) (by simp; omega)
  have hLoop : (chunksExact raw width).foldlM (fun state scalar => encodeScalar width state.1 state.2 scalar)
      (filled (List.replicate output.length 0) [0x30, 0], 2) = .ok (filled (List.replicate output.length 0)
        ([0x30, 0] ++ integerBytes (magnitude (raw.take width)) ++ integerBytes (magnitude (raw.drop width))),
        ([0x30, 0] ++ integerBytes (magnitude (raw.take width)) ++ integerBytes (magnitude (raw.drop width))).length) := by
    rw [chunksExact_two hSome hRaw, List.foldlM_cons]
    change (encodeScalar width _ ([0x30, 0] : List Byte).length _ >>= _) = _
    rw [hOne, ok_bind, List.foldlM_cons]
    dsimp only
    rw [hTwo, ok_bind]
    rfl
  constructor
  · unfold encodeWith
    dsimp only
    rw [hStart, ok_bind, hLoop, ok_bind, store_inside (by simp), ok_bind, hDer]
    simp [pure, Except.pure]
  · rw [hDer]
    simp
    omega

end Encoding

section Decoding

variable {width : Nat} {front back rest m : List Byte}

/-- A number in the full width of a scalar. -/
def widen (width : Nat) (m : List Byte) : List Byte := List.replicate (width - m.length) 0 ++ m

theorem length_widen (h : m.length ≤ width) : (widen width m).length = width := by
  rw [widen, List.length_append, List.length_replicate]
  omega

theorem magnitude_widen (h : Minimal m) (width : Nat) : magnitude (widen width m) = m := by
  rw [widen, magnitude_zeros h.ne_nil, h.magnitude_eq]

theorem widen_magnitude {scalar : List Byte} (h : scalar.length = width) : widen width (magnitude scalar) = scalar := by
  rw [widen, ← h]
  exact (zeros_magnitude scalar).1

/-- A scalar in front of some bytes, in as many bytes as it needs. -/
def readScalar (width : Nat) : List Byte → Option (List Byte × List Byte)
  | tag :: length :: rest =>
      if tag = 2 ∧ 1 ≤ length.toNat ∧ length.toNat ≤ width + 1 ∧ length.toNat ≤ rest.length then
        match readContent (rest.take length.toNat) with
        | some m => if m.length ≤ width then some (m, rest.drop length.toNat) else none
        | none => none
      else none
  | _ => none

/-- A scalar is read exactly where its integer stands. -/
theorem readScalar_iff (hShort : width + 1 < 128) :
    readScalar width back = some (m, rest) ↔ Minimal m ∧ m.length ≤ width ∧ back = integerBytes m ++ rest := by
  constructor
  · intro h
    match back, h with
    | tag :: length :: rest', h =>
        simp only [readScalar] at h
        split_ifs at h with hHeader
        obtain ⟨rfl, hSome, hLength, hInside⟩ := hHeader
        cases hRead : readContent (rest'.take length.toNat) with
        | none =>
            rw [hRead] at h
            cases h
        | some n =>
            rw [hRead] at h
            dsimp only at h
            split_ifs at h with hWidth
            obtain ⟨rfl, rfl⟩ := Prod.mk.inj (Option.some.inj h)
            obtain ⟨hMinimal, hContent⟩ := readContent_iff.1 hRead
            have hSize : (content n).length = length.toNat := by rw [← hContent, List.length_take_of_le hInside]
            refine ⟨hMinimal, hWidth, ?_⟩
            rw [integerBytes_short (by omega), hSize, UInt8.ofNat_toNat, ← hContent]
            simp
  · rintro ⟨hMinimal, hWidth, rfl⟩
    have hContent := length_content_le m
    have hSome : 1 ≤ (content m).length := by
      have := List.length_pos_of_ne_nil hMinimal.ne_nil
      rw [length_content]
      omega
    have hByte : (UInt8.ofNat (content m).length).toNat = (content m).length := by
      rw [UInt8.toNat_ofNat', Nat.mod_eq_of_lt (by omega)]
    rw [integerBytes_short (by omega)]
    simp only [List.cons_append, readScalar, hByte, List.take_left, List.drop_left]
    rw [if_pos ⟨trivial, hSome, by omega, by simp⟩, readContent_iff.2 ⟨hMinimal, rfl⟩]
    exact if_pos hWidth

/-- The checks on the bytes of an integer, in front of what is done with its number. -/
theorem readContent_steps {β : Type} (first : Byte) (tail : List Byte) (next : List Byte → Run β) :
    (do
      refuseIf (first &&& 0x80 ≠ 0) ()
      if 1 < (first :: tail).length ∧ first = 0 then do
        let second ← index (first :: tail) 1
        refuseIf (second &&& 0x80 = 0) ()
        let value ← behind (first :: tail) 1
        next value
      else do
        let value ← pure (first :: tail)
        next value) =
      match readContent (first :: tail) with
      | some m => next m
      | none => .error (.refused ()) := by
  simp only [readContent]
  by_cases hHigh : 128 ≤ first.toNat
  · rw [refuseIf_holds ((high_bit first).not.2 (Nat.not_lt.2 hHigh)), if_pos hHigh]
    rfl
  rw [refuseIf_fails (not_not.2 ((high_bit first).2 (Nat.not_le.1 hHigh))), if_neg hHigh, ok_bind]
  by_cases hZero : first = 0
  · rw [if_pos hZero]
    cases tail with
    | nil =>
        rw [hZero]
        rfl
    | cons second rest =>
        rw [if_pos ⟨by simp, hZero⟩, index_found (by rfl), ok_bind]
        dsimp only
        by_cases hLow : second.toNat < 128
        · rw [refuseIf_holds ((high_bit second).2 hLow), if_pos hLow]
          rfl
        · rw [refuseIf_fails ((high_bit second).not.2 hLow), if_neg hLow]
          rfl
  · rw [if_neg (fun h => hZero h.2), if_neg hZero]
    rfl

/-- A number that fits is put at the end of its scalar. -/
theorem placeScalar_eq (cursor : Nat) :
    (do
      refuseIf (width < m.length) ()
      let scalar ← copyInto (List.replicate width 0) (width - m.length) m
      pure (scalar, cursor) : Run (List Byte × Nat)) =
      if m.length ≤ width then .ok (widen width m, cursor) else .error (.refused ()) := by
  by_cases hFits : m.length ≤ width
  · have hEnd : width - m.length + m.length = width := Nat.sub_add_cancel hFits
    have hPlaced : splice (List.replicate width (0 : Byte)) (width - m.length) m = widen width m := by
      rw [splice, widen, List.take_replicate, hEnd, List.drop_of_length_le (by simp), List.append_nil, Nat.min_eq_left (Nat.sub_le _ _)]
    rw [refuseIf_fails (Nat.not_lt.2 hFits), if_pos hFits, ok_bind, copyInto,
      if_pos (by rw [hEnd, List.length_replicate]), hPlaced]
    rfl
  · rw [refuseIf_holds (Nat.not_le.1 hFits), if_neg hFits]
    rfl

/-- What the decoder makes of a scalar behind some bytes. -/
theorem decodeScalar_eq : decodeScalar width (front ++ back) front.length =
    match readScalar width back with
    | some (m, rest) => .ok (widen width m, (front ++ back).length - rest.length)
    | none => .error (.refused ()) := by
  have hAt (i : Nat) : (front ++ back)[front.length + i]? = back[i]? := by
    rw [List.getElem?_append_right (Nat.le_add_right _ _), Nat.add_sub_cancel_left]
  have hFirst := hAt 0
  have hSecond := hAt 1
  unfold decodeScalar
  rw [Nat.add_zero] at hFirst
  rw [hFirst, hSecond]
  match back with
  | [] => rfl
  | [tag] =>
      by_cases hTag : tag = 2
      · rw [hTag]
        rfl
      · rw [refuseIf_holds (by simpa using hTag)]
        rfl
  | tag :: length :: rest =>
      simp only [List.getElem?_cons_zero, List.getElem?_cons_succ, readScalar]
      by_cases hTag : tag = 2
      · rw [refuseIf_fails (by simpa using hTag), ok_bind]
        rw [show (orRefuse (some length) () : Run Byte) = .ok length from rfl, ok_bind]
        by_cases hLength : 1 ≤ length.toNat ∧ length.toNat ≤ width + 1
        · rw [refuseIf_fails (not_not.2 hLength), ok_bind]
          by_cases hInside : length.toNat ≤ rest.length
          · obtain ⟨first, tail, hTake⟩ : ∃ first tail, rest.take length.toNat = first :: tail :=
              List.exists_cons_of_length_pos (by rw [List.length_take_of_le hInside]; exact hLength.1)
            have hSlice : slice (front ++ tag :: length :: rest) (front.length + 2) length.toNat = first :: tail := by
              rw [slice, ← List.drop_drop, List.drop_left, ← hTake]
              rfl
            have hCursor : (front ++ tag :: length :: rest).length - (rest.drop length.toNat).length =
                front.length + 2 + length.toNat := by
              simp only [List.length_append, List.length_cons, List.length_drop]
              omega
            rw [refuseIf_fails (by simp; omega), ok_bind, hSlice, index_found (by rfl), ok_bind, readContent_steps,
              if_pos ⟨hTag, hLength.1, hLength.2, hInside⟩, hTake]
            cases readContent (first :: tail) with
            | none => rfl
            | some m =>
                dsimp only
                rw [placeScalar_eq]
                by_cases hFits : m.length ≤ width
                · rw [if_pos hFits, if_pos hFits, ← hCursor]
                · rw [if_neg hFits, if_neg hFits]
          · rw [refuseIf_holds (by simp; omega), if_neg (fun h => hInside h.2.2.2)]
            rfl
        · rw [refuseIf_holds hLength, if_neg (fun h => hLength ⟨h.2.1, h.2.2.1⟩)]
          rfl
      · rw [refuseIf_holds (by simpa using hTag), if_neg (fun h => hTag h.1)]
        rfl

/-- Two scalars that leave nothing behind them. -/
def readBody (width : Nat) (body : List Byte) : Option (List Byte) :=
  match readScalar width body with
  | none => none
  | some (m, rest) =>
      match readScalar width rest with
      | none => none
      | some (n, rest) => if rest = [] then some (widen width m ++ widen width n) else none

/-- The signature of an encoding of at most `limit` bytes. -/
def readSignature (width limit : Nat) : List Byte → Option (List Byte)
  | tag :: length :: body =>
      if 6 ≤ body.length ∧ body.length + 2 ≤ limit ∧ tag = 0x30 ∧ length.toNat = body.length then readBody width body else none
  | _ => none

/-- One more scalar behind those that were decoded. -/
theorem decodeStep_eq (output : List Byte) :
    (do
      let (scalar, cursor) ← decodeScalar width (front ++ back) front.length
      return (output ++ scalar, cursor) : Run (List Byte × Nat)) =
    match readScalar width back with
    | some (m, rest) => .ok (output ++ widen width m, (front ++ back).length - rest.length)
    | none => .error (.refused ()) := by
  rw [decodeScalar_eq]
  cases readScalar width back with
  | none => rfl
  | some scalar => rfl

/-- The two scalars behind a header, with nothing behind them. -/
theorem decodeBody_eq (hShort : width + 1 < 128) (tag length : Byte) (body : List Byte) :
    (do
      let (output, cursor) ← (List.range 2).foldlM (fun (output, cursor) _ => do
        let (scalar, cursor) ← decodeScalar width (tag :: length :: body) cursor
        return (output ++ scalar, cursor)) ([], 2)
      refuseIf (cursor ≠ (tag :: length :: body).length) ()
      return output : Run (List Byte)) = orRefuse (readBody width body) () := by
  have hSecond := @decodeStep_eq width [tag, length] body []
  rw [List.range_succ, List.range_one, List.singleton_append, List.foldlM_cons]
  change ((do
    let (scalar, cursor) ← decodeScalar width ([tag, length] ++ body) ([tag, length] : List Byte).length
    return ([] ++ scalar, cursor) : Run (List Byte × Nat)) >>= _) >>= _ = _
  rw [hSecond, readBody]
  cases hRead : readScalar width body with
  | none => rfl
  | some scalar =>
      obtain ⟨m, rest⟩ := scalar
      obtain ⟨-, -, rfl⟩ := (readScalar_iff hShort).1 hRead
      have hCursor : ([tag, length] ++ (integerBytes m ++ rest)).length - rest.length =
          ([tag, length] ++ integerBytes m).length := by
        simp only [List.length_append]
        omega
      have hThird := @decodeStep_eq width ([tag, length] ++ integerBytes m) rest (widen width m)
      rw [List.append_assoc] at hThird
      dsimp only
      rw [hCursor, ok_bind, List.foldlM_cons]
      change ((do
        let (scalar, cursor) ← decodeScalar width ([tag, length] ++ (integerBytes m ++ rest))
          ([tag, length] ++ integerBytes m).length
        return (widen width m ++ scalar, cursor) : Run (List Byte × Nat)) >>= _) >>= _ = _
      rw [hThird]
      cases hLast : readScalar width rest with
      | none => rfl
      | some scalar =>
          obtain ⟨n, behind⟩ := scalar
          obtain ⟨-, -, rfl⟩ := (readScalar_iff hShort).1 hLast
          dsimp only
          rw [ok_bind, List.foldlM_nil]
          change (refuseIf _ () >>= _) = _
          by_cases hEmpty : behind = []
          · rw [if_pos hEmpty, hEmpty, refuseIf_fails (by simp)]
            rfl
          · have hLeft := List.length_pos_of_ne_nil hEmpty
            rw [if_neg hEmpty, refuseIf_holds (by simp; omega)]
            rfl

theorem decodeWith_eq (hShort : width + 1 < 128) (limit : Nat) (input : List Byte) :
    decodeWith width limit input = orRefuse (readSignature width limit input) () := by
  unfold decodeWith
  match input with
  | [] => rfl
  | [tag] => rfl
  | tag :: length :: body =>
      simp only [readSignature]
      by_cases hSize : 8 ≤ (tag :: length :: body).length ∧ (tag :: length :: body).length ≤ limit
      · have hBody := hSize
        simp only [List.length_cons] at hBody
        rw [refuseIf_fails (not_not.2 hSize), ok_bind, index_found (by rfl), ok_bind]
        by_cases hTag : tag = 0x30
        · rw [refuseIf_fails (not_not.2 hTag), ok_bind, index_found (by rfl), ok_bind]
          by_cases hLength : length.toNat = body.length
          · rw [refuseIf_fails (by simpa using hLength), if_pos ⟨by omega, by omega, hTag, hLength⟩, ok_bind]
            exact decodeBody_eq hShort tag length body
          · rw [refuseIf_holds (by simpa using hLength), if_neg (fun h => hLength h.2.2.2)]
            rfl
        · rw [refuseIf_holds hTag, if_neg (fun h => hTag h.2.2.1)]
          rfl
      · rw [refuseIf_holds hSize, if_neg (fun h => hSize (by simp only [List.length_cons]; omega))]
        rfl

theorem readBody_iff (hShort : width + 1 < 128) (hSome : 0 < width) {raw : List Byte} :
    readBody width back = some raw ↔ raw.length = 2 * width ∧
      back = bodyBytes [magnitude (raw.take width), magnitude (raw.drop width)] := by
  constructor
  · intro h
    unfold readBody at h
    cases hFirst : readScalar width back with
    | none =>
        rw [hFirst] at h
        cases h
    | some scalar =>
        obtain ⟨m, rest⟩ := scalar
        rw [hFirst] at h
        dsimp only at h
        cases hSecond : readScalar width rest with
        | none =>
            rw [hSecond] at h
            cases h
        | some scalar =>
            obtain ⟨n, behind⟩ := scalar
            rw [hSecond] at h
            dsimp only at h
            split_ifs at h with hEmpty
            obtain rfl := Option.some.inj h
            obtain ⟨hMinimal, hFits, rfl⟩ := (readScalar_iff hShort).1 hFirst
            obtain ⟨hMinimal', hFits', rfl⟩ := (readScalar_iff hShort).1 hSecond
            have hLength := length_widen hFits
            rw [List.take_left' hLength, List.drop_left' hLength, magnitude_widen hMinimal, magnitude_widen hMinimal', hEmpty,
              List.length_append, hLength, length_widen hFits']
            exact ⟨by omega, by simp⟩
  · rintro ⟨hRaw, rfl⟩
    have hTake : (raw.take width).length = width := by
      rw [List.length_take]
      omega
    have hDrop : (raw.drop width).length = width := by
      rw [List.length_drop]
      omega
    have hRead {scalar rest : List Byte} (h : scalar.length = width) :
        readScalar width (integerBytes (magnitude scalar) ++ rest) = some (magnitude scalar, rest) := by
      have hMinimal := magnitude_minimal (List.ne_nil_of_length_pos (by omega : 0 < scalar.length))
      refine (readScalar_iff hShort).2 ⟨hMinimal, ?_, rfl⟩
      rw [← h]
      exact (zeros_magnitude scalar).2
    rw [bodyBytes_cons, bodyBytes_cons, bodyBytes_nil, readBody, hRead hTake]
    dsimp only
    rw [hRead hDrop]
    dsimp only
    rw [if_pos rfl, widen_magnitude hTake, widen_magnitude hDrop, List.take_append_drop]

/-- The decoder accepts the encodings of signatures and nothing else. -/
theorem decodeWith_iff (hSome : 0 < width) (hShort : 2 * width + 6 < 128) {raw input : List Byte} :
    decodeWith width (2 * width + 8) input = .ok raw ↔ raw.length = 2 * width ∧ input = der width raw := by
  rw [decodeWith_eq (by omega), orRefuse, Checks.orFail_ok]
  constructor
  · intro h
    match input, h with
    | tag :: length :: body, h =>
        simp only [readSignature] at h
        split_ifs at h with hHeader
        obtain ⟨-, hFits, rfl, hLength⟩ := hHeader
        obtain ⟨hRaw, hBody⟩ := (readBody_iff (by omega) hSome).1 h
        refine ⟨hRaw, ?_⟩
        rw [der, sequenceBytes, itemBytes, ← hBody, lengthBytes_short (by omega), ← hLength, UInt8.ofNat_toNat]
        rfl
  · rintro ⟨hRaw, rfl⟩
    obtain ⟨hBody, hFirst, hSecond⟩ := length_der hSome hShort hRaw
    have hLong {scalar : List Byte} (h : (integerBytes (magnitude scalar)).length ≤ width + 3) (hScalar : scalar ≠ []) :
        3 ≤ (integerBytes (magnitude scalar)).length := by
      have hMagnitude := List.length_pos_of_ne_nil (magnitude_minimal hScalar).ne_nil
      have hContent := length_content (magnitude scalar)
      have hBytes := length_lengthBytes (content (magnitude scalar)).length
      rw [integerBytes, length_itemBytes]
      split_ifs at hBytes <;> omega
    have hLower := hLong hFirst (List.ne_nil_of_length_pos (by rw [List.length_take]; omega))
    have hLower' := hLong hSecond (List.ne_nil_of_length_pos (by rw [List.length_drop]; omega))
    have hRange : 6 ≤ (bodyBytes [magnitude (raw.take width), magnitude (raw.drop width)]).length ∧
        (bodyBytes [magnitude (raw.take width), magnitude (raw.drop width)]).length + 2 ≤ 2 * width + 8 := by
      rw [hBody, List.length_append]
      omega
    have hSize : (bodyBytes [magnitude (raw.take width), magnitude (raw.drop width)]).length < 128 := by omega
    have hByte : (UInt8.ofNat (bodyBytes [magnitude (raw.take width), magnitude (raw.drop width)]).length).toNat =
        (bodyBytes [magnitude (raw.take width), magnitude (raw.drop width)]).length := by
      rw [UInt8.toNat_ofNat', Nat.mod_eq_of_lt (by omega)]
    rw [der, sequenceBytes, itemBytes, lengthBytes_short hSize]
    simp only [List.cons_append, List.nil_append, readSignature]
    rw [if_pos ⟨hRange.1, hRange.2, trivial, hByte⟩, (readBody_iff (by omega) hSome).2 ⟨hRaw, rfl⟩]

theorem decodeWith_ends (hShort : width + 1 < 128) (limit : Nat) (input : List Byte) : Ends (decodeWith width limit input) := by
  rw [decodeWith_eq hShort]
  exact ends_orRefuse _ _

end Decoding

end MicroCard.Der.Ecdsa
