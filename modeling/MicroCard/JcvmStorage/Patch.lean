import MicroCard.Card.CborItems
import MicroCard.Library.Slices

/-! Bounded state changes carried inside an authenticated journal record. A change is
replayed in the buffer of the snapshot it changes: the fields are moved to where the new
lengths put them, and only then are the spans written. -/
namespace MicroCard.JcvmStorage

open Bytes CrashTriple Codec Slices

def maxSpans : Nat := 64

def spanEnd (offset : Nat) (bytes : List Byte) (length previousEnd : Nat) : Except Error Nat :=
  match checkedAdd64 offset bytes.length with
  | none => .error .format
  | some stop => if bytes = [] ∨ length < stop ∨ offset < previousEnd then .error .format else .ok stop

/-- What a reader makes of these bytes, and what it leaves of them. -/
def advance {α : Type} (read : Cbor.Decoder α) (input : List Byte) : Except Error (α × List Byte) :=
  match read input with
  | .ok a rest => .ok (a, rest)
  | .error e _ => .error e

/-- What a reader makes of these bytes. -/
def decode {α : Type} (read : Cbor.Decoder α) (input : List Byte) : Except Error α := do
  let (a, _) ← advance read input
  pure a

/-- The loop of `validate`. -/
def validateSpans (length : Nat) : Nat → Nat → Cbor.Decoder Unit
  | 0, _ => pure ()
  | count + 1, previousEnd => do
      Cbor.record 2
      let offset ← Cbor.number (2 ^ 64)
      let bytes ← Cbor.bytes length
      let previousEnd ← readOnly (spanEnd offset bytes length previousEnd)
      validateSpans length count previousEnd

def validateRecord (generation used capacity : Nat) : Cbor.Decoder Nat := do
  Cbor.record 5
  let version ← Cbor.unsigned
  failIf (version ≠ 1) .incompatibleState
  let base ← Cbor.unsigned
  failIf (base ≠ generation) .incompatibleState
  let before ← Cbor.number (2 ^ 64)
  failIf (before ≠ used) .incompatibleState
  let length ← Cbor.number (2 ^ 64)
  failIf (capacity < length) .quota
  let count ← Cbor.array maxSpans
  validateSpans length count 0
  Cbor.finish
  pure length

/-- Validate the complete record before any replacement byte is copied. -/
def validate (encoded : List Byte) (generation used capacity : Nat) : Except Error Nat :=
  decode (validateRecord generation used capacity) encoded

/-- A snapshot's buffer, replayed in place. -/
abbrev SnapshotM := EStateM Error (List Byte)

/-- A span of a record that has been validated, into a field of this length. -/
def readSpan (length : Nat) : Cbor.Decoder (Nat × List Byte) := do
  Cbor.record 2
  let offset ← Cbor.number (2 ^ 64)
  let bytes ← Cbor.bytes length
  pure (offset, bytes)

/-- The loop of `apply_spans`, over a field at this place of the buffer. -/
def applySpansFrom (place length : Nat) : Nat → List Byte → SnapshotM Unit
  | 0, remaining => readOnly (decode Cbor.finish remaining)
  | count + 1, remaining => do
      let ((offset, bytes), remaining) ← readOnly (advance (readSpan length) remaining)
      modify fun snapshot => splice snapshot (place + offset) bytes
      applySpansFrom place length count remaining

/-- The fields before the spans were checked by `validate`. -/
def spanCount : Cbor.Decoder Nat := do
  Cbor.record 5
  let _ ← Cbor.unsigned
  let _ ← Cbor.unsigned
  let _ ← Cbor.unsigned
  let _ ← Cbor.unsigned
  Cbor.array maxSpans

/-- Call only after `validate` has checked all spans against this field's length. -/
def applySpans (encoded : List Byte) (place length : Nat) : SnapshotM Unit := do
  let (count, remaining) ← readOnly (advance spanCount encoded)
  applySpansFrom place length count remaining

/-- Add parts to a size, one after the other. -/
def addSizes (error : Error) : Nat → List Nat → Except Error Nat
  | total, [] => .ok total
  | total, part :: parts =>
      match checkedAdd64 total part with
      | none => .error error
      | some total => addSizes error total parts

/-- Array, version and engine plus the fixed image and installation byte strings. -/
def snapshotSize (instance' heap statics : Nat) : Except Error Nat :=
  addSizes .quota 54 [Cbor.argumentSize instance', Cbor.argumentSize heap, heap, Cbor.argumentSize statics, statics]

/-- The fields of a snapshot, and where the two that change stand in its buffer. -/
structure Source where
  image : Cbor.Fixed 32
  installation : Cbor.Fixed 16
  instance' : Nat
  heapAt : Nat
  heapBefore : Nat
  staticAt : Nat
  staticBefore : Nat

/-- Read the snapshot. A byte string that was just read ends where the remaining bytes
begin. -/
def readSource (total maximum : Nat) : Cbor.Decoder Source := do
  Cbor.record 7
  let version ← Cbor.unsigned
  failIf (version ≠ 1) .incompatibleState
  let engine ← Cbor.unsigned
  failIf (engine ≠ 1) .incompatibleState
  let image ← Cbor.fixed 32
  let installation ← Cbor.fixed 16
  let instance' ← Cbor.unsigned
  let heap ← Cbor.bytes maximum
  let behindHeap ← get
  let statics ← Cbor.bytes maximum
  let behindStatics ← get
  Cbor.finish
  pure {
    image, installation, instance'
    heapAt := total - behindHeap.length - heap.length
    heapBefore := heap.length
    staticAt := total - behindStatics.length - statics.length
    staticBefore := statics.length
  }

/-- Read the patch record: the patch of the heap and that of the statics. -/
def readDelta (instance' maximum : Nat) : Cbor.Decoder (List Byte × List Byte) := do
  Cbor.record 4
  let version ← Cbor.unsigned
  failIf (version ≠ 1) .incompatibleState
  let target ← Cbor.unsigned
  failIf (target ≠ instance') .keyMismatch
  let heapPatch ← Cbor.bytes maximum
  let staticPatch ← Cbor.bytes maximum
  Cbor.finish
  pure (heapPatch, staticPatch)

/-- `Encoder::new`, the writes, `Encoder::finish`. -/
def encoded (maximum : Nat) (writes : Cbor.EncoderM Unit) : Except Error (List Byte) :=
  match writes ⟨[], maximum⟩ with
  | .ok _ encoder => .ok encoder.bytes
  | .error e _ => .error e

/-- `Encoder::bytes_header`. -/
def bytesHeader (length : Nat) : Cbor.EncoderM Unit := Cbor.Encoder.argument 2 length

def encodePrefix (source : Source) (heapLength : Nat) : Except Error (List Byte) :=
  encoded 96 do
    Cbor.Encoder.array 7
    Cbor.Encoder.unsigned 1
    Cbor.Encoder.unsigned 1
    Cbor.Encoder.byteString source.image.1
    Cbor.Encoder.byteString source.installation.1
    Cbor.Encoder.unsigned source.instance'
    bytesHeader heapLength

/-- `copy_within`. -/
def copyWithin (place count target : Nat) : SnapshotM Unit :=
  modify fun snapshot => splice snapshot target (slice snapshot place count)

/-- `fill(0)`. -/
def clear (place count : Nat) : SnapshotM Unit :=
  modify fun snapshot => splice snapshot place (List.replicate count 0)

/-- `copy_from_slice`. -/
def copyFrom (place : Nat) (bytes : List Byte) : SnapshotM Unit :=
  modify fun snapshot => splice snapshot place bytes

/-- What replay has worked out before it touches the buffer. -/
structure Plan where
  source : Source
  heapPatch : List Byte
  staticPatch : List Byte
  heapLength : Nat
  staticLength : Nat
  newTotal : Nat
  start : List Byte
  staticHeader : List Byte

namespace Plan

def newHeapAt (plan : Plan) : Nat := plan.start.length

def newStaticAt (plan : Plan) : Nat := plan.newHeapAt + plan.heapLength + plan.staticHeader.length

def commonHeap (plan : Plan) : Nat := min plan.source.heapBefore plan.heapLength

def commonStatic (plan : Plan) : Nat := min plan.source.staticBefore plan.staticLength

end Plan

/-- The checks of `replay_snapshot`, over the buffer it is given. -/
def planReplay (generation : UInt64) (delta : List Byte) (maximum : UInt64) (snapshot : List Byte) :
    Except Error Plan := do
  let source ← decode (readSource snapshot.length maximum.toNat) snapshot
  let (heapPatch, staticPatch) ← decode (readDelta source.instance' maximum.toNat) delta
  let heapLength ← validate heapPatch generation.toNat source.heapBefore maximum.toNat
  let staticLength ← validate staticPatch generation.toNat source.staticBefore maximum.toNat
  let newTotal ← snapshotSize source.instance' heapLength staticLength
  failIf (maximum.toNat < newTotal) .quota
  let start ← encodePrefix source heapLength
  let staticHeader ← encoded 9 (bytesHeader staticLength)
  let plan : Plan := { source, heapPatch, staticPatch, heapLength, staticLength, newTotal, start, staticHeader }
  failIf (checkedAdd64 plan.newStaticAt staticLength ≠ some newTotal) .format
  pure plan

/-- Move the two fields to their places in the new snapshot. The static field moves first
when it shifts right, so an expanded heap cannot overwrite its source. Otherwise the heap
moves first. -/
def moveFields (plan : Plan) : SnapshotM Unit := do
  onlyIf (plan.source.staticAt < plan.newStaticAt)
    (copyWithin plan.source.staticAt plan.commonStatic plan.newStaticAt)
  copyWithin plan.source.heapAt plan.commonHeap plan.newHeapAt
  onlyIf (plan.newStaticAt ≤ plan.source.staticAt)
    (copyWithin plan.source.staticAt plan.commonStatic plan.newStaticAt)

/-- `replay_snapshot`. -/
def replaySnapshot (generation : UInt64) (delta : List Byte) (maximum : UInt64) : SnapshotM Unit := do
  let snapshot ← get
  let plan ← readOnly (planReplay generation delta maximum snapshot)
  let oldTotal := snapshot.length
  onlyIf (oldTotal < plan.newTotal) (modify (resize 0 plan.newTotal))
  moveFields plan
  clear (plan.newHeapAt + plan.commonHeap) (plan.heapLength - plan.commonHeap)
  clear (plan.newStaticAt + plan.commonStatic) (plan.staticLength - plan.commonStatic)
  copyFrom 0 plan.start
  copyFrom (plan.newStaticAt - plan.staticHeader.length) plan.staticHeader
  applySpans plan.heapPatch plan.newHeapAt plan.heapLength
  applySpans plan.staticPatch plan.newStaticAt plan.staticLength
  onlyIf (plan.newTotal < oldTotal) (modify fun snapshot => snapshot.take plan.newTotal)

end MicroCard.JcvmStorage
