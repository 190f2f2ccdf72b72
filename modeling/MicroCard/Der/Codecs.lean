import MicroCard.Der.EcdsaSpec
import MicroCard.Der.RsaSpec

/-! The codecs of signatures and keys are exact inverses, and they panic on nothing that the
card gives them: only a sequence with an integer of no bytes would make its writer do so. -/
namespace MicroCard.Der

open Bytes Halting Buffers DerIntegers Rsa

/-- A codec of fixed signatures: the encoder stays inside its output, and the decoder takes
what the encoder writes and nothing else. -/
structure SignatureCodec {size capacity : Nat} (encode : Vector Byte size → Vector Byte capacity → Ecdsa.Run (Nat × List Byte))
    (decode : List Byte → Ecdsa.Run (List Byte)) : Prop where
  inverse : ∀ raw output, ∃ n written, encode raw output = .ok (n, written) ∧ n ≤ capacity ∧ written.length = capacity ∧
    decode (written.take n) = .ok raw.toList
  canonical : ∀ input result, decode input = .ok result → ∃ raw : Vector Byte size, raw.toList = result ∧
    ∀ output, ∃ n written, encode raw output = .ok (n, written) ∧ written.take n = input
  ends : ∀ input, Ends (decode input)

/-- A writer of an encoding: it refuses exactly the outputs that are too short, and writes
what the reader takes to the result. -/
structure KeyWriter {α : Type} (write : List Byte → Rsa.Run (Nat × List Byte)) (encoding : List Byte)
    (read : List Byte → Parse α) (result : α) : Prop where
  refuses : ∀ output, write output = .error (.refused .invalidLength) ↔ output.length < encoding.length
  writes : ∀ output, encoding.length ≤ output.length → ∃ written, write output = .ok (encoding.length, written) ∧
    written.length = output.length ∧ written.take encoding.length = encoding ∧ read (written.take encoding.length) = .ok result

/-- A number that is not zero. -/
def Nonzero (bytes : List Byte) : Prop := ∃ b ∈ bytes, b ≠ 0

def publicDer (pair : KeyPairComponents) (bits : Nat) : List Byte :=
  sequenceBytes ((pair.publicIntegers bits).map DerIntegers.magnitude)

def privateDer (pair : KeyPairComponents) (bits : Nat) : List Byte :=
  sequenceBytes ((pair.privateIntegers bits).map DerIntegers.magnitude)

/-- The minimal magnitudes of the components that signatures use. -/
def minimalParts (pair : KeyPairComponents) (bits : Nat) : PrivateParts where
  n := DerIntegers.magnitude (pair.modulus.toList.take (bits / 8))
  e := DerIntegers.magnitude pair.publicExponent.toList
  d := DerIntegers.magnitude (pair.privateExponent.toList.take (bits / 8))
  p := DerIntegers.magnitude (pair.p.toList.take (bits / 16))
  q := DerIntegers.magnitude (pair.q.toList.take (bits / 16))

/-- What the codecs do, where the writer of sequences is given lists from a domain. -/
structure ExactCodecs (domain : List (List Byte) → Prop) : Prop where
  p256 : SignatureCodec Ecdsa.encode Ecdsa.decode
  p384 : SignatureCodec Ecdsa.encodeP384 Ecdsa.decodeP384
  publicKey : ∀ pair bits, bits = 1024 ∨ bits = 2048 → (∀ bytes ∈ pair.publicIntegers bits, Nonzero bytes) →
    KeyWriter (pair.encodePublicDer bits) (publicDer pair bits) publicParts
      ((minimalParts pair bits).n, (minimalParts pair bits).e)
  privateKey : ∀ pair bits, bits = 1024 ∨ bits = 2048 → (∀ bytes ∈ (pair.privateIntegers bits).tail, Nonzero bytes) →
    KeyWriter (pair.encodePrivateDer bits) (privateDer pair bits) privateParts (minimalParts pair bits)
  canonical : ∀ der n e, publicParts der = .ok (n, e) → ∀ output, der.length ≤ output.length →
    encodeSequence output [n, e] = .ok (der.length, filled output der)
  publicEnds : ∀ (pair : KeyPairComponents) bits output, Ends (pair.encodePublicDer bits output)
  privateEnds : ∀ (pair : KeyPairComponents) bits output, Ends (pair.encodePrivateDer bits output)
  publicPartsEnds : ∀ der, Ends (publicParts der)
  privatePartsEnds : ∀ der, Ends (privateParts der)
  sequenceEnds : ∀ output integers, domain integers → Ends (encodeSequence output integers)

section Signatures

variable {width size capacity : Nat}

/-- A signature codec of one width. -/
theorem signatureCodec (hSome : 0 < width) (hShort : 2 * width + 6 < 128) (hSize : size = 2 * width)
    (hCapacity : capacity = 2 * width + 8) :
    SignatureCodec (fun (raw : Vector Byte size) (output : Vector Byte capacity) =>
      Ecdsa.encodeWith width raw.toList output.toList) (Ecdsa.decodeWith width capacity) := by
  subst hSize hCapacity
  have hEncode (raw : Vector Byte (2 * width)) (output : Vector Byte (2 * width + 8)) :=
    @Ecdsa.encodeWith_eq width hSome hShort raw.toList output.toList Vector.length_toList Vector.length_toList
  refine ⟨?_, ?_, ?_⟩
  · intro raw output
    obtain ⟨hRun, hFits⟩ := hEncode raw output
    rw [Vector.length_toList] at hRun hFits
    refine ⟨_, _, hRun, hFits, ?_, ?_⟩
    · rw [length_filled (by rw [List.length_replicate]; exact hFits), List.length_replicate]
    · rw [take_filled]
      exact (Ecdsa.decodeWith_iff hSome hShort).2 ⟨Vector.length_toList, rfl⟩
  · intro input result hDecode
    obtain ⟨hResult, rfl⟩ := (Ecdsa.decodeWith_iff hSome hShort).1 hDecode
    refine ⟨⟨result.toArray, by simpa using hResult⟩, by simp, ?_⟩
    intro output
    obtain ⟨hRun, -⟩ := hEncode ⟨result.toArray, by simpa using hResult⟩ output
    refine ⟨_, _, hRun, ?_⟩
    rw [take_filled]
    simp
  · exact Ecdsa.decodeWith_ends (by omega) _

end Signatures

section Keys

variable {pair : KeyPairComponents} {bits : Nat}

theorem Nonzero.ne_nil {bytes : List Byte} (h : Nonzero bytes) : bytes ≠ [] := by
  obtain ⟨b, hMem, -⟩ := h
  exact List.ne_nil_of_mem hMem

theorem Nonzero.positive {bytes : List Byte} (h : Nonzero bytes) : Positive (DerIntegers.magnitude bytes) :=
  magnitude_positive h

/-- The integers of a private key have bytes, whatever they are. -/
theorem privateIntegers_ne_nil (hBits : bits = 1024 ∨ bits = 2048) {bytes : List Byte}
    (h : bytes ∈ pair.privateIntegers bits) : bytes ≠ [] := by
  have hLength : 0 < bytes.length := by
    simp only [KeyPairComponents.privateIntegers, List.mem_cons, List.not_mem_nil, or_false] at h
    rcases hBits with rfl | rfl <;> rcases h with rfl | rfl | rfl | rfl | rfl | rfl | rfl | rfl | rfl <;> simp
  exact List.ne_nil_of_length_pos hLength

theorem publicIntegers_ne_nil (hBits : bits = 1024 ∨ bits = 2048) {bytes : List Byte}
    (h : bytes ∈ pair.publicIntegers bits) : bytes ≠ [] := by
  refine @privateIntegers_ne_nil pair bits hBits bytes ?_
  simp only [KeyPairComponents.publicIntegers, List.mem_cons, List.not_mem_nil, or_false] at h
  rcases h with rfl | rfl <;> simp [KeyPairComponents.privateIntegers]

/-- An encoding takes at most five bytes for each integer besides the integer. -/
theorem length_bodyBytes_le (integers : List (List Byte)) : (bodyBytes (integers.map DerIntegers.magnitude)).length ≤
    (integers.map List.length).sum + 5 * integers.length := by
  induction integers with
  | nil => exact Nat.le_refl _
  | cons bytes integers ih =>
      have hMagnitude := (zeros_magnitude bytes).2
      have hContent := Ecdsa.length_content_le (DerIntegers.magnitude bytes)
      have hLength := BerTlv.length_lengthBytes (content (DerIntegers.magnitude bytes)).length
      rw [List.map_cons, bodyBytes_cons, List.length_append, integerBytes, length_itemBytes, List.map_cons, List.sum_cons,
        List.length_cons]
      split_ifs at hLength <;> omega

theorem privateDer_short (pair : KeyPairComponents) (hBits : bits = 1024 ∨ bits = 2048) :
    (bodyBytes ((pair.privateIntegers bits).map DerIntegers.magnitude)).length < 65536 := by
  have hBound := length_bodyBytes_le (pair.privateIntegers bits)
  rcases hBits with rfl | rfl
  · simp [KeyPairComponents.privateIntegers] at hBound ⊢
    omega
  · simp [KeyPairComponents.privateIntegers] at hBound ⊢
    omega

theorem publicDer_short (pair : KeyPairComponents) (hBits : bits = 1024 ∨ bits = 2048) :
    (bodyBytes ((pair.publicIntegers bits).map DerIntegers.magnitude)).length < 65536 := by
  have hBound := length_bodyBytes_le (pair.publicIntegers bits)
  rcases hBits with rfl | rfl
  · simp [KeyPairComponents.publicIntegers] at hBound ⊢
    omega
  · simp [KeyPairComponents.publicIntegers] at hBound ⊢
    omega

/-- A writer of a sequence, for a reader that takes the sequence to the result. -/
theorem keyWriter {α : Type} {write : List Byte → Rsa.Run (Nat × List Byte)} {integers : List (List Byte)}
    {read : List Byte → Parse α} {result : α} (hWrite : ∀ output, write output = encodeSequence output integers)
    (hIntegers : ∀ bytes ∈ integers, bytes ≠ [])
    (hRead : read (sequenceBytes (integers.map DerIntegers.magnitude)) = .ok result) :
    KeyWriter write (sequenceBytes (integers.map DerIntegers.magnitude)) read result := by
  refine ⟨?_, ?_⟩
  · intro output
    rw [hWrite, encodeSequence_eq hIntegers]
    split_ifs with hRoom
    · exact ⟨(fun h => nomatch h), fun h => absurd hRoom (Nat.not_le.2 h)⟩
    · exact ⟨fun _ => Nat.not_le.1 hRoom, fun _ => rfl⟩
  · intro output hRoom
    refine ⟨filled output (sequenceBytes (integers.map DerIntegers.magnitude)), ?_, length_filled hRoom, take_filled _ _, ?_⟩
    · rw [hWrite, encodeSequence_eq hIntegers, if_pos hRoom]
    · rw [take_filled]
      exact hRead

theorem encodePublicDer_eq (hBits : bits = 1024 ∨ bits = 2048) (output : List Byte) :
    pair.encodePublicDer bits output = encodeSequence output (pair.publicIntegers bits) := by
  rw [KeyPairComponents.encodePublicDer, refuseIf_fails (not_not.2 hBits), ok_bind]

theorem encodePrivateDer_eq (hBits : bits = 1024 ∨ bits = 2048) (output : List Byte) :
    pair.encodePrivateDer bits output = encodeSequence output (pair.privateIntegers bits) := by
  rw [KeyPairComponents.encodePrivateDer, refuseIf_fails (not_not.2 hBits), ok_bind]

theorem publicKey (hBits : bits = 1024 ∨ bits = 2048) (hNonzero : ∀ bytes ∈ pair.publicIntegers bits, Nonzero bytes) :
    KeyWriter (pair.encodePublicDer bits) (publicDer pair bits) publicParts
      ((minimalParts pair bits).n, (minimalParts pair bits).e) := by
  refine keyWriter (encodePublicDer_eq hBits) (fun bytes hMem => (hNonzero bytes hMem).ne_nil) ?_
  refine publicParts_iff.2 ⟨?_, ?_, publicDer_short pair hBits, rfl⟩
  · exact (hNonzero _ (by simp [KeyPairComponents.publicIntegers])).positive
  · exact (hNonzero _ (by simp [KeyPairComponents.publicIntegers])).positive

theorem privateKey (hBits : bits = 1024 ∨ bits = 2048)
    (hNonzero : ∀ bytes ∈ (pair.privateIntegers bits).tail, Nonzero bytes) :
    KeyWriter (pair.encodePrivateDer bits) (privateDer pair bits) privateParts (minimalParts pair bits) := by
  refine keyWriter (encodePrivateDer_eq hBits) (fun bytes hMem => privateIntegers_ne_nil hBits hMem) ?_
  refine privateParts_iff.2 ⟨DerIntegers.magnitude (pair.dp.toList.take (bits / 16)),
    DerIntegers.magnitude (pair.dq.toList.take (bits / 16)), DerIntegers.magnitude (pair.qInverse.toList.take (bits / 16)), ?_,
    privateDer_short pair hBits, rfl⟩
  intro m hm
  obtain ⟨bytes, hMem, rfl⟩ : ∃ bytes ∈ (pair.privateIntegers bits).tail, DerIntegers.magnitude bytes = m :=
    List.mem_map.1 hm
  exact (hNonzero bytes hMem).positive

theorem encodeSequence_ends {integers : List (List Byte)} (h : ∀ bytes ∈ integers, bytes ≠ []) (output : List Byte) :
    Ends (encodeSequence output integers) := by
  rw [encodeSequence_eq h]
  split_ifs <;> trivial

end Keys

/-- The codecs of signatures and of keys are exact inverses. None of them panics on any input,
the writer of sequences on any integers that have bytes. -/
theorem codecs_exact : ExactCodecs fun integers => ∀ bytes ∈ integers, bytes ≠ [] where
  p256 := @signatureCodec 32 64 72 (by decide) (by decide) rfl rfl
  p384 := @signatureCodec 48 96 104 (by decide) (by decide) rfl rfl
  publicKey _ _ hBits hNonzero := publicKey hBits hNonzero
  privateKey _ _ hBits hNonzero := privateKey hBits hNonzero
  canonical der n e hParts output hRoom := by
    obtain ⟨hPositive, hPositive', -, rfl⟩ := publicParts_iff.1 hParts
    have hIntegers (bytes : List Byte) (h : bytes ∈ [n, e]) : bytes ≠ [] := by
      rcases List.mem_cons.1 h with rfl | hLast
      · exact hPositive.minimal.ne_nil
      · rw [List.mem_singleton.1 hLast]
        exact hPositive'.minimal.ne_nil
    have hMinimal : [n, e].map DerIntegers.magnitude = [n, e] := by
      rw [List.map_cons, List.map_cons, List.map_nil, hPositive.minimal.magnitude_eq, hPositive'.minimal.magnitude_eq]
    rw [encodeSequence_eq hIntegers, hMinimal, if_pos hRoom]
  publicEnds pair bits output := by
    by_cases hBits : bits = 1024 ∨ bits = 2048
    · rw [encodePublicDer_eq hBits]
      exact encodeSequence_ends (fun _ h => publicIntegers_ne_nil hBits h) output
    · rw [KeyPairComponents.encodePublicDer, refuseIf_holds hBits]
      trivial
  privateEnds pair bits output := by
    by_cases hBits : bits = 1024 ∨ bits = 2048
    · rw [encodePrivateDer_eq hBits]
      exact encodeSequence_ends (fun _ h => privateIntegers_ne_nil hBits h) output
    · rw [KeyPairComponents.encodePrivateDer, refuseIf_holds hBits]
      trivial
  publicPartsEnds := publicParts_ends
  privatePartsEnds := privateParts_ends
  sequenceEnds output _ h := encodeSequence_ends h output

/-- A pair whose bytes are all one. -/
def ones : KeyPairComponents where
  modulus := .replicate 256 1
  publicExponent := .replicate 3 1
  privateExponent := .replicate 256 1
  p := .replicate 128 1
  q := .replicate 128 1
  dp := .replicate 128 1
  dq := .replicate 128 1
  qInverse := .replicate 128 1

theorem codecs_exact_ones :
    KeyWriter (ones.encodePublicDer 1024) (publicDer ones 1024) publicParts
        ((minimalParts ones 1024).n, (minimalParts ones 1024).e) ∧
      publicParts [0x30, 6, 2, 1, 1, 2, 1, 3] = .ok ([1], [3]) ∧
        encodeSequence (List.replicate 9 0xaa) [[1], [3]] = .ok (8, [0x30, 6, 2, 1, 1, 2, 1, 3, 0xaa]) := by
  refine ⟨codecs_exact.publicKey ones 1024 (.inl rfl) ?_, by decide,
    codecs_exact.canonical [0x30, 6, 2, 1, 1, 2, 1, 3] [1] [3] (by decide) (List.replicate 9 0xaa) (by decide)⟩
  intro bytes hMem
  refine ⟨1, ?_, by decide⟩
  simp only [KeyPairComponents.publicIntegers, ones, Vector.toList_replicate, List.take_replicate, List.mem_cons,
    List.not_mem_nil, or_false] at hMem
  rcases hMem with rfl | rfl <;> exact List.mem_replicate.2 ⟨by decide, rfl⟩

/-- An integer without bytes makes the writer of sequences panic. -/
theorem empty_integer_panics : ¬ExactCodecs fun _ => True := fun h => h.sequenceEnds [] [[]] trivial

end MicroCard.Der
