import MicroCard.Journal.Record

/-! Reading the append frames behind a snapshot. A frame is a sealed record
followed by a marker word; replay stops at the first place that does not hold a
published frame, and offers that place for appending only if everything behind
it is still erased. -/
namespace MicroCard.Journal

open Bytes CrashTriple

def maxFrameBytes : Nat := 1024
def markerBytes : Nat := 4
def minFrameBytes : Nat := headerBytes + 16 + markerBytes
def maxPayload : Nat := maxFrameBytes - minFrameBytes

structure DecodedAppend where
  payload : List Byte
  stop : Nat
  generation : Nat
  deriving DecidableEq, Repr

def frameEnd (flash : MemoryFlash) (start length : Nat) : Except Error Nat :=
  if start % 4 ≠ 0 then .error .bounds
  else if maxPayload < length then .error .quota
  else
    let stop := (start + minFrameBytes + length + 3) / 4 * 4
    if stop ≤ flash.slotSize - tailBytes then .ok stop else .error .quota

def erased (flash : MemoryFlash) (slot start stop : Nat) : Except Error Bool := do
  let bytes ← flash.read slot start (stop - start)
  pure (bytes.all (· == 0xff))

/-- Read the frame at `start`, or nothing when no frame was published there. -/
def readFrame (flash : MemoryFlash) (key : List Byte) (slot start generation baseAttempt : Nat)
    (provider : CryptoProvider) : Except Error (Option DecodedAppend) := do
  let _ ← frameEnd flash start 0
  let bytes ← flash.read slot start headerBytes
  if bytes.all (· == 0xff) then return none
  let reserved ← flash.nonceGeneration
  failIf (flash.nonceCapacity < reserved) .storage
  match RecordHeader.decode bytes (maxPayload + 16) reserved with
  | .error .incompatibleState => throw .incompatibleState
  | .error _ => return none
  | .ok header =>
      match frameEnd flash start (header.payloadLength - 16) with
      | .error .quota => return none
      | .error e => throw e
      | .ok stop =>
          let marker ← flash.read slot (stop - markerBytes) markerBytes
          if marker ≠ [0, 0, 0, 0] then return none
          let nextSequence ← orFail (checkedAdd32 (sequence generation) 1) .storage
          let previousAnchor := anchor generation true
          let nextAnchor := anchor header.generation true
          failIf (!header.appendEnabled ∨ sequence header.generation ≠ nextSequence ∨
              ¬(nextAnchor = previousAnchor ∨ nextAnchor = previousAnchor + 1) ∨
              header.attempt ≠ baseAttempt) .format
          let payload ← flash.read slot (start + headerBytes) header.payloadLength
          let frameNonce ← appendNonce baseAttempt start
          let plaintext ← provider.aesCcmDecrypt key frameNonce bytes payload
          failIf (plaintext.length ≠ payload.length - 16) .storage
          return some { payload := plaintext, stop := stop, generation := header.generation }

/-- What a caller does with recovered plaintexts: start from the snapshot and
fold each appended change into it. -/
structure Replay (σ : Type) where
  init : List Byte → σ
  apply : σ → Nat → List Byte → Except Error σ

/-- Replay frames from `start`. The fuel bounds the number of frames; a slot of
`fuel` bytes cannot hold that many. -/
def replayFrom {σ : Type} (flash : MemoryFlash) (key : List Byte) (slot attempt : Nat)
    (provider : CryptoProvider) (replay : Replay σ) :
    Nat → Nat → Nat → σ → Except Error (Nat × Option Nat × σ)
  | 0, _, _, _ => .error .storage
  | fuel + 1, start, generation, state =>
      match frameEnd flash start 0 with
      | .error _ => .ok (generation, none, state)
      | .ok _ => do
          match ← readFrame flash key slot start generation attempt provider with
          | none =>
              let available ← erased flash slot start (flash.slotSize - tailBytes)
              pure (generation, if available then some start else none, state)
          | some record =>
              let state ← replay.apply state generation record.payload
              replayFrom flash key slot attempt provider replay fuel record.stop record.generation state

def replayEpoch {σ : Type} (flash : MemoryFlash) (key : List Byte) (slot start generation attempt : Nat)
    (provider : CryptoProvider) (replay : Replay σ) (state : σ) : Except Error (Nat × Option Nat × σ) :=
  if start % 4 ≠ 0 then .error .bounds
  else replayFrom flash key slot attempt provider replay (flash.slotSize + 1) start generation state

end MicroCard.Journal
