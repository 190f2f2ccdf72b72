import MicroCard.Journal.Flash

/-! Record headers, generations and the two AES-CCM nonce domains. In an
append-enabled journal the high half of a generation is the security anchor and
the low half the record sequence; otherwise the generation is its own anchor. -/
namespace MicroCard.Journal

open Bytes

def headerBytes : Nat := 24
def tailBytes : Nat := 12
def reclaimStarted : Nat := tailBytes
def reclaimComplete : Nat := tailBytes - 4
def committed : Nat := tailBytes - 8
def recordOverhead : Nat := headerBytes + 16
def overhead : Nat := recordOverhead + tailBytes

inductive Durability where
  | ordinary
  | anchored
  deriving DecidableEq, Repr

def anchor (generation : Nat) (appendEnabled : Bool) : Nat :=
  if appendEnabled then generation / 2 ^ 32 else generation

/-- The low word of a generation, `generation as u32`. -/
def sequence (generation : Nat) : Nat := generation % 2 ^ 32

def nextGeneration (generation : Nat) (appendEnabled : Bool) (durability : Durability) :
    Except Error Nat :=
  if !appendEnabled then
    match checkedAdd64 generation 1 with
    | some next => .ok next
    | none => .error .quota
  else
    match checkedAdd32 (sequence generation) 1 with
    | none => .error .quota
    | some sequence =>
        match checkedAdd64 (anchor generation true) (if durability = .anchored then 1 else 0) with
        | none => .error .quota
        | some anchored =>
            if anchored = 0 ∨ 2 ^ 32 - 1 < anchored then .error .quota
            else .ok (anchored * 2 ^ 32 + sequence)

structure RecordHeader where
  appendEnabled : Bool
  generation : Nat
  attempt : Nat
  payloadLength : Nat
  deriving DecidableEq, Repr

/-- `MJ0` followed by one ASCII digit. -/
def magic (digit : Byte) : List Byte := [0x4d, 0x4a, 0x30, digit]

/-- Formats before `MJ08`, refused without being reinterpreted. -/
def oldMagic (bytes : List Byte) : Bool :=
  [magic 0x31, magic 0x32, magic 0x33, magic 0x34, magic 0x35, magic 0x36, magic 0x37].contains bytes

def RecordHeader.encode (header : RecordHeader) : List Byte :=
  magic (if header.appendEnabled then 0x39 else 0x38) ++ toLE 8 header.generation ++
    toLE 8 header.attempt ++ toLE 4 header.payloadLength

def RecordHeader.decode (bytes : List Byte) (capacity reservedNonce : Nat) :
    Except Error RecordHeader :=
  if oldMagic (bytes.take 4) then .error .incompatibleState
  else if bytes.take 4 ≠ magic 0x38 ∧ bytes.take 4 ≠ magic 0x39 then .error .storage
  else
    let header : RecordHeader := {
      appendEnabled := bytes.take 4 = magic 0x39
      generation := fromLE ((bytes.drop 4).take 8)
      attempt := fromLE ((bytes.drop 12).take 8)
      payloadLength := fromLE ((bytes.drop 20).take 4) }
    if header.attempt = 0 ∨ reservedNonce < header.attempt ∨
        header.payloadLength < 16 ∨ capacity < header.payloadLength then .error .storage
    else if header.appendEnabled ∧
        (anchor header.generation true = 0 ∨ sequence header.generation = 0) then .error .storage
    else .ok header

/-- `MCJN3` and the reserved attempt: the nonce domain of snapshots. -/
def nonce (attempt : Nat) : List Byte := [0x4d, 0x43, 0x4a, 0x4e, 0x33] ++ toLE 8 attempt

/-- `A`, the epoch's attempt and the frame offset: the nonce domain of appends. -/
def appendNonce (attempt offset : Nat) : Except Error (List Byte) :=
  if offset < 2 ^ 32 then .ok ([0x41] ++ toLE 8 attempt ++ toLE 4 offset)
  else .error .bounds

/-- AES-CCM with a 16-byte tag. Encryption returns the ciphertext followed by
the tag; decryption takes the same string. Both may fail. -/
structure CryptoProvider where
  aesCcmEncrypt : (key nonce aad plaintext : List Byte) → Except Error (List Byte)
  aesCcmDecrypt : (key nonce aad ciphertext : List Byte) → Except Error (List Byte)

theorem length_magic (digit : Byte) : (magic digit).length = 4 := rfl

@[simp] theorem RecordHeader.length_encode (header : RecordHeader) :
    header.encode.length = headerBytes := by
  simp [encode, length_magic, headerBytes]

theorem RecordHeader.encode_magic (header : RecordHeader) :
    header.encode.take 4 = magic (if header.appendEnabled then 0x39 else 0x38) := by
  simp only [encode, List.append_assoc]
  exact List.take_left' (length_magic _)

theorem RecordHeader.encode_generation (header : RecordHeader) :
    (header.encode.drop 4).take 8 = toLE 8 header.generation := by
  simp [encode, List.append_assoc, length_magic, List.drop_append, List.take_append]

theorem RecordHeader.encode_attempt (header : RecordHeader) :
    (header.encode.drop 12).take 8 = toLE 8 header.attempt := by
  simp [encode, List.append_assoc, length_magic, List.drop_append, List.take_append]

theorem RecordHeader.encode_payloadLength (header : RecordHeader) :
    (header.encode.drop 20).take 4 = toLE 4 header.payloadLength := by
  simp [encode, List.append_assoc, length_magic, List.drop_append, List.drop_eq_nil_of_le,
    List.take_of_length_le]

theorem RecordHeader.encode_not_old (header : RecordHeader) : oldMagic (header.encode.take 4) = false := by
  rw [encode_magic]
  cases header.appendEnabled <;> decide

/-- The header fields a reader accepts. -/
structure RecordHeader.Wellformed (header : RecordHeader) (capacity reserved : Nat) : Prop where
  generation : header.generation < 2 ^ 64
  attempt_pos : 0 < header.attempt
  attempt_le : header.attempt ≤ reserved
  attempt_lt : header.attempt < 2 ^ 64
  payload_min : 16 ≤ header.payloadLength
  payload_max : header.payloadLength ≤ capacity
  payload_lt : header.payloadLength < 2 ^ 32
  anchored : header.appendEnabled = true →
    anchor header.generation true ≠ 0 ∧ sequence header.generation ≠ 0

theorem RecordHeader.decode_encode {header : RecordHeader} {capacity reserved : Nat}
    (h : header.Wellformed capacity reserved) : decode header.encode capacity reserved = .ok header := by
  have hGeneration : fromLE (toLE 8 header.generation) = header.generation :=
    fromLE_toLE_of_lt (by simpa using h.generation)
  have hAttempt : fromLE (toLE 8 header.attempt) = header.attempt :=
    fromLE_toLE_of_lt (by simpa using h.attempt_lt)
  have hPayload : fromLE (toLE 4 header.payloadLength) = header.payloadLength :=
    fromLE_toLE_of_lt (by simpa using h.payload_lt)
  have hFlag : decide (magic (if header.appendEnabled then 0x39 else 0x38) = magic 0x39) =
      header.appendEnabled := by
    cases header.appendEnabled <;> decide
  have hNotOld : oldMagic (magic (if header.appendEnabled then 0x39 else 0x38)) = false := by
    cases header.appendEnabled <;> decide
  have hMagic : ¬(magic (if header.appendEnabled then 0x39 else 0x38) ≠ magic 0x38 ∧
      magic (if header.appendEnabled then 0x39 else 0x38) ≠ magic 0x39) := by
    cases header.appendEnabled <;> decide
  have hPositive := h.attempt_pos
  have hReserved := h.attempt_le
  have hMin := h.payload_min
  have hMax := h.payload_max
  unfold decode
  simp only [encode_magic, encode_generation, encode_attempt, encode_payloadLength, hGeneration, hAttempt,
    hPayload, hFlag]
  rw [if_neg (by rw [hNotOld]; simp), if_neg hMagic, if_neg (by omega), if_neg]
  rintro ⟨hEnabled, hZero⟩
  obtain ⟨hAnchor, hSequence⟩ := h.anchored hEnabled
  rcases hZero with hZero | hZero
  · exact hAnchor hZero
  · exact hSequence hZero

/-- What a decoded header says about the bytes it was read from. -/
theorem RecordHeader.encode_decode {bytes : List Byte} {capacity reserved : Nat} {header : RecordHeader}
    (hLength : bytes.length = headerBytes) (h : decode bytes capacity reserved = .ok header) :
    header.encode = bytes ∧ header.Wellformed capacity reserved := by
  unfold decode at h
  split at h
  · cases h
  split at h
  · cases h
  rename_i hMagic
  simp only at h
  split at h
  · cases h
  rename_i hBounds
  split at h
  · cases h
  rename_i hAnchored
  injection h with h
  subst h
  have hGeneration : ((bytes.drop 4).take 8).length = 8 := by simp [hLength, headerBytes]
  have hAttempt : ((bytes.drop 12).take 8).length = 8 := by simp [hLength, headerBytes]
  have hPayload : ((bytes.drop 20).take 4).length = 4 := by simp [hLength, headerBytes]
  constructor
  · have hFlag : magic (if bytes.take 4 = magic 0x39 then 0x39 else 0x38) = bytes.take 4 := by
      by_cases hNew : bytes.take 4 = magic 0x39
      · rw [if_pos hNew, hNew]
      · rw [if_neg hNew]
        by_contra hOld
        exact hMagic ⟨fun hEq => hOld hEq.symm, hNew⟩
    simp only [encode, decide_eq_true_eq, hFlag]
    rw [toLE_fromLE hGeneration, toLE_fromLE hAttempt, toLE_fromLE hPayload]
    have hTail : (bytes.drop 20).take 4 = bytes.drop 20 :=
      List.take_of_length_le (by simp [hLength, headerBytes])
    rw [hTail, List.append_assoc, List.append_assoc]
    have h₁ : (bytes.drop 12).take 8 ++ bytes.drop 20 = bytes.drop 12 := by
      conv_rhs => rw [← List.take_append_drop 8 (bytes.drop 12)]
      rw [List.drop_drop]
    have h₂ : (bytes.drop 4).take 8 ++ bytes.drop 12 = bytes.drop 4 := by
      conv_rhs => rw [← List.take_append_drop 8 (bytes.drop 4)]
      rw [List.drop_drop]
    rw [h₁, h₂, List.take_append_drop]
  · have hG := fromLE_lt ((bytes.drop 4).take 8)
    have hA := fromLE_lt ((bytes.drop 12).take 8)
    have hP := fromLE_lt ((bytes.drop 20).take 4)
    rw [hGeneration] at hG
    rw [hAttempt] at hA
    rw [hPayload] at hP
    refine ⟨by simpa using hG, ?_, ?_, by simpa using hA, ?_, ?_, by simpa using hP, ?_⟩
    · simp only
      omega
    · simp only
      omega
    · simp only
      omega
    · simp only
      omega
    · intro hEnabled
      constructor
      · exact fun hZero => hAnchored ⟨hEnabled, .inl hZero⟩
      · exact fun hZero => hAnchored ⟨hEnabled, .inr hZero⟩
end MicroCard.Journal
