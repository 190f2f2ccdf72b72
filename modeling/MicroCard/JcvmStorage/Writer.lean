import MicroCard.Jcvm.Persistence
import MicroCard.JcvmStorage.Patch

/-! The writer of a patch. Its size is worked out first, from the changed spans alone;
the record is then written in place into a buffer of that size, the contents of the heap
spans through one cursor of the view. -/
namespace MicroCard.JcvmStorage

open Bytes CrashTriple Codec Slices
open Jcvm (PersistentView PersistentCursor PendingWrites)

/-- The loop of `record_size`, over the spans that are left. -/
def sizeSpans (afterLength : Nat) : Nat → Nat → List (Nat × Nat) → Except Error Nat
  | size, _, [] => .ok size
  | size, previousEnd, range :: ranges => do
      failIf (range.2 ≤ range.1 ∨ afterLength < range.2 ∨ range.1 < previousEnd) .bounds
      let size ← addSizes .quota size [Cbor.argumentSize 2, Cbor.argumentSize range.1,
        Cbor.argumentSize (range.2 - range.1), range.2 - range.1]
      sizeSpans afterLength size range.2 ranges

def recordSize (changes : List (Nat × Nat)) (beforeLength afterLength generation : Nat) : Except Error Nat := do
  failIf (maxSpans < changes.length) .quota
  let size := ([5, 1, generation, beforeLength, afterLength, changes.length].map Cbor.argumentSize).sum
  sizeSpans afterLength size 0 changes

section Encoding

variable {σ : Type}

/-- An encoder whose fills share a state. -/
abbrev FillM (σ : Type) := EStateM Error (σ × Cbor.SliceEncoder)

/-- A fill of a window, from what it held before. -/
abbrev WindowM (σ : Type) := EStateM Error (σ × List Byte)

/-- A write that no fill takes part in. -/
def plainly (program : Cbor.SliceM Unit) : FillM σ Unit := fun s =>
  match program s.2 with
  | .ok u encoder => .ok u (s.1, encoder)
  | .error e encoder => .error e (s.1, encoder)

/-- `SliceEncoder::bytes_with`. -/
def bytesWith (length : Nat) (fill : WindowM σ Unit) : FillM σ Unit := do
  let (_, encoder) ← get
  failIf (encoder.output.length < encoder.position + Cbor.argumentSize length + length) .quota
  plainly (Cbor.SliceEncoder.argument 2 length)
  let (s, encoder) ← get
  match fill (s, encoder.window length) with
  | .ok () (s, bytes) => set (s, encoder.written bytes)
  | .error e (s, bytes) => do
      set (s, encoder.written bytes)
      throw e

/-- `SliceEncoder::new`, the writes, `SliceEncoder::finish`. -/
def onSlice (writes : FillM σ Unit) : WindowM σ Unit := fun s =>
  match writes (s.1, ⟨s.2, 0⟩) with
  | .ok () (t, encoder) =>
      match encoder.finish with
      | .ok () => .ok () (t, encoder.output)
      | .error e => .error e (t, encoder.output)
  | .error e (t, encoder) => .error e (t, encoder.output)

/-- The loop of `write_record`. -/
def writeChanges (contents : Nat × Nat → WindowM σ Unit) : List (Nat × Nat) → FillM σ Unit
  | [] => pure ()
  | range :: ranges => do
      plainly (Cbor.SliceEncoder.array 2)
      plainly (Cbor.SliceEncoder.unsigned range.1)
      bytesWith (range.2 - range.1) (contents range)
      writeChanges contents ranges

def writeRecord (changes : List (Nat × Nat)) (beforeLength afterLength generation : Nat)
    (contents : Nat × Nat → WindowM σ Unit) : WindowM σ Unit :=
  onSlice do
    plainly (Cbor.SliceEncoder.array 5)
    plainly (Cbor.SliceEncoder.unsigned 1)
    plainly (Cbor.SliceEncoder.unsigned generation)
    plainly (Cbor.SliceEncoder.unsigned beforeLength)
    plainly (Cbor.SliceEncoder.unsigned afterLength)
    plainly (Cbor.SliceEncoder.array changes.length)
    writeChanges contents changes

end Encoding

/-- The changed span of the statics, when there is one. -/
def staticChanges (writes : PendingWrites) : List (Nat × Nat) :=
  writes.staticRange.toList.filter fun range => range.1 < range.2

/-- The sizes of the two records. -/
def recordSizes (view : PersistentView) (writes : PendingWrites) (beforeLength generation : Nat) :
    Except Error (Nat × Nat) := do
  let heapSize ← recordSize writes.heapRanges beforeLength view.heapBytes generation
  let staticSize ← recordSize (staticChanges writes) view.statics.length view.statics.length generation
  pure (heapSize, staticSize)

/-- The writes that a patch records. -/
def patchWrites (view : PersistentView) : Except Error PendingWrites := do
  let writes ← orFail view.pendingWrites .quota
  failIf (writes.snapshot = true) .quota
  pure writes

def viewSize (view : PersistentView) (beforeLength generation maximum : Nat) : Except Error Nat := do
  let writes ← patchWrites view
  let (heapSize, staticSize) ← recordSizes view writes beforeLength generation
  let total ← addSizes .quota 0 [Cbor.argumentSize 4, Cbor.argumentSize 1, Cbor.argumentSize view.instance',
    Cbor.argumentSize heapSize, heapSize, Cbor.argumentSize staticSize, staticSize]
  failIf (maximum < total) .quota
  pure total

/-- `map_err`: the same outcome, with another error. -/
def failWith {σ α : Type} (e : Error) (program : EStateM Jcvm.Error σ α) : EStateM Error σ α := fun s =>
  match program s with
  | .ok a t => .ok a t
  | .error _ t => .error e t

/-- The contents of a heap span, through the cursor of the view. -/
def heapContents (view : PersistentView) (range : Nat × Nat) : WindowM PersistentCursor Unit :=
  failWith .format (view.saveNext range.1)

/-- The contents of a static span. -/
def staticContents (view : PersistentView) (range : Nat × Nat) : WindowM PersistentCursor Unit := do
  failIf (view.statics.length < range.2) .bounds
  modify fun s => (s.1, slice view.statics range.1 (range.2 - range.1))

/-- A check of the engine. -/
def engineCheck {α : Type} (e : Error) (result : Except Jcvm.Error α) : Except Error α :=
  match result with
  | .ok a => .ok a
  | .error _ => .error e

/-- The writes of a patch whose records have these sizes. The cursor of the view is taken
when the heap record is reached, and finished behind it. -/
def writePatch (view : PersistentView) (writes : PendingWrites) (beforeLength generation heapSize staticSize : Nat) :
    FillM PersistentCursor Unit := do
  plainly (Cbor.SliceEncoder.array 4)
  plainly (Cbor.SliceEncoder.unsigned 1)
  plainly (Cbor.SliceEncoder.unsigned view.instance')
  let projection ← readOnly (engineCheck .format view.cursor)
  modify fun s => (projection, s.2)
  bytesWith heapSize (writeRecord writes.heapRanges beforeLength view.heapBytes generation (heapContents view))
  let s ← get
  readOnly (engineCheck .format (view.finish s.1))
  bytesWith staticSize (writeRecord (staticChanges writes) view.statics.length view.statics.length generation
    (staticContents view))

def encodeViewInto (view : PersistentView) (beforeLength generation : Nat) : EStateM Error (List Byte) Unit := do
  let writes ← readOnly (patchWrites view)
  let (heapSize, staticSize) ← readOnly (recordSizes view writes beforeLength generation)
  let output ← get
  match onSlice (writePatch view writes beforeLength generation heapSize staticSize) (⟨0, 0, false⟩, output) with
  | .ok () (_, output) => set output
  | .error e (_, output) => do
      set output
      throw e

end MicroCard.JcvmStorage
