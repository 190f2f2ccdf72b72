import MicroCard.Jcvm.Basic
import MicroCard.Library.UndoLog

/-! The object heap: one slab of objects allocated from the front, with one bounded log
of before-images while a transaction is open. An operation that fails keeps the heap
it had reached. -/
namespace MicroCard.Jcvm

open Bytes CrashTriple UndoLog

/-! Bounded changed intervals. -/

/-- Changed committed bytes since the last acknowledged checkpoint. A span is its start
and its end; an absent static span is `none`. -/
structure PendingWrites where
  heap : List (Nat × Nat)
  statics : Option (Nat × Nat)
  snapshot : Bool
  deriving DecidableEq, Repr

namespace PendingWrites

def heapSpans : Nat := 8

/-- Nothing changed yet. -/
def empty : PendingWrites := ⟨[], none, false⟩

/-- Grow a span over the spans it meets; what it does not meet is left. -/
def absorb : Nat × Nat → List (Nat × Nat) → (Nat × Nat) × List (Nat × Nat)
  | span, [] => (span, [])
  | span, next :: rest =>
      if next.1 ≤ span.2 then absorb (min span.1 next.1, max span.2 next.2) rest else (span, next :: rest)

/-- Record an interval of the heap. -/
def write (writes : PendingWrites) (at' length : Nat) : PendingWrites :=
  if length = 0 then writes
  else if 65535 < at' + length then { writes with snapshot := true }
  else
    let before := writes.heap.takeWhile fun span => span.2 < at'
    let grown := absorb (at', at' + length) (writes.heap.dropWhile fun span => span.2 < at')
    if before.length + grown.2.length = heapSpans then { writes with heap := before ++ grown.2, snapshot := true }
    else { writes with heap := before ++ grown.1 :: grown.2 }

/-- Record an interval of the statics. -/
def writeStatics (writes : PendingWrites) (at' length : Nat) : PendingWrites :=
  if length = 0 then writes
  else if 65535 < at' + length then { writes with snapshot := true }
  else
    match writes.statics with
    | none => { writes with statics := some (at', at' + length) }
    | some span => { writes with statics := some (min span.1 at', max span.2 (at' + length)) }

def requireSnapshot (writes : PendingWrites) : PendingWrites := { writes with snapshot := true }

def any (writes : PendingWrites) : Bool := writes.snapshot || !writes.heap.isEmpty || writes.statics.isSome

end PendingWrites

/-! Bounded before-images. -/

/-- One saved span, of the heap or of the statics. -/
structure UndoRecord where
  statics : Bool
  image : Image
  deriving DecidableEq, Repr

/-- The log, newest record first. -/
structure Undo where
  records : List UndoRecord
  limit : Nat
  deriving DecidableEq, Repr

namespace Undo

/-- The bytes of the log: each record ends in its offset and length. -/
def length (undo : Undo) : Nat := (undo.records.map fun record => record.image.before.length + 6).sum

def remaining (undo : Undo) : Nat := undo.limit - undo.length

def images (undo : Undo) (statics : Bool) : List Image :=
  (undo.records.filter fun record => record.statics = statics).map UndoRecord.image

/-- Save a span, unless one record already holds all of it. -/
def record (undo : Undo) (at' : Nat) (before : List Byte) (statics : Bool) : Except Error Undo :=
  if before = [] then .ok undo
  else if 65535 < at' + before.length then .error .bounds
  else if ∃ image ∈ undo.images statics, image.Covers at' before.length then .ok undo
  else if undo.remaining < before.length + 6 then .error .transactionFull
  else .ok { undo with records := ⟨statics, ⟨at', before⟩⟩ :: undo.records }

/-- Drop the newest records until the log has its old length again. -/
def rewindTo (target : Nat) (limit : Nat) : List UndoRecord → List UndoRecord
  | [] => []
  | newest :: older =>
      if target < (⟨newest :: older, limit⟩ : Undo).length then rewindTo target limit older else newest :: older

def rewind (undo : Undo) (remaining : Nat) : Undo :=
  { undo with records := rewindTo (undo.limit - remaining) undo.limit undo.records }

/-- Unconditional heap writes must survive: update every overlapping before-image. -/
def preserve (undo : Undo) (at' : Nat) (value : List Byte) : Undo :=
  { undo with records := undo.records.map fun record =>
      if record.statics then record else { record with image := record.image.preserve at' value } }

def restore (undo : Undo) (statics : Bool) (memory : Nat → Byte) : Nat → Byte :=
  UndoLog.restore (undo.images statics) memory

/-- Lay the saved spans over a window that starts at `at'`, newest first. A span that
reaches past the end of the projection is refused. -/
def projectRecords (at' total : Nat) (statics : Bool) : List UndoRecord → EStateM Error (List Byte) Unit
  | [] => return
  | record :: older => do
      -- a heap projection excludes objects allocated after begin
      if record.statics = statics ∧ (statics = true ∨ record.image.offset < total) then
        failIf (total < record.image.offset + record.image.before.length) .bounds
        modify fun output => (Image.preserve record.image.offset record.image.before ⟨at', output⟩).before
      projectRecords at' total statics older

def projectRange (undo : Undo) (at' total : Nat) (statics : Bool) : EStateM Error (List Byte) Unit := do
  failIf (total < at' + (← get).length) .bounds
  projectRecords at' total statics undo.records

def project (undo : Undo) (statics : Bool) : EStateM Error (List Byte) Unit := do
  undo.projectRange 0 (← get).length statics

end Undo

/-! Objects. -/

/-- What an object is, which is the element type for an array. -/
inductive Kind where
  | object | boolean | byte | short | int | reference
  deriving DecidableEq, Repr

def Kind.number : Kind → Nat
  | object => 0
  | boolean => 2
  | byte => 3
  | short => 4
  | int => 5
  | reference => 6

def Kind.ofNumber : Nat → Option Kind
  | 0 => some .object
  | 2 => some .boolean
  | 3 => some .byte
  | 4 => some .short
  | 5 => some .int
  | 6 => some .reference
  | _ => none

/-- Bytes one element occupies. -/
def Kind.elementSize : Kind → Nat
  | boolean | byte => 1
  | int => 4
  | _ => 2

/-- Bytes of header every object carries. -/
def headerBytes : Nat := 6

def clearOnReset : Nat := 1

def clearOnDeselect : Nat := 2

def anyReferenceClass : Nat := 65535

/-- What an object is, read back from its header. -/
structure Info where
  /-- The Class component offset for an object, the component's class reference for a
  reference array, or zero. -/
  cls : Nat
  /-- Field words for an object, elements for an array. -/
  length : Nat
  kind : Kind
  owner : Nat
  clearEvent : Nat
  deriving DecidableEq, Repr

namespace Info

def isArray (info : Info) : Bool := info.kind ≠ .object

/-- Bytes of payload. -/
def payload (info : Info) : Nat := info.length * info.kind.elementSize

/-- Where the next object starts. -/
def stop (info : Info) (at' : Nat) : Nat := (at' + headerBytes + info.payload + 1) / 2 * 2

/-- The header an allocation writes. -/
def header (info : Info) : List Byte :=
  [UInt8.ofNat (info.cls / 256), UInt8.ofNat info.cls, UInt8.ofNat (info.length / 256), UInt8.ofNat info.length,
    UInt8.ofNat (info.kind.number + info.clearEvent * 16), UInt8.ofNat info.owner]

def read (bytes : Nat → Byte) (size used reference : Nat) : Except Error Info := do
  failIf (size < used) .bounds
  failIf (reference = 0) .null
  failIf (reference % 2 ≠ 0 ∨ used < reference + headerBytes) .bounds
  let tag := (bytes (reference + 4)).toNat
  let kind ← orFail (Kind.ofNumber (tag % 16)) .format
  let info : Info :=
    { cls := be16 (bytes reference) (bytes (reference + 1))
      length := be16 (bytes (reference + 2)) (bytes (reference + 3))
      kind := kind
      owner := (bytes (reference + 5)).toNat
      clearEvent := tag / 16 }
  failIf (clearOnDeselect < info.clearEvent ∨ (kind = .object ∧ info.clearEvent ≠ 0) ∨
    (kind ≠ .object ∧ kind ≠ .reference ∧ info.cls ≠ 0)) .format
  failIf (used < reference + headerBytes + info.payload) .bounds
  pure info

end Info

/-- One slab of objects. -/
structure Heap where
  bytes : Nat → Byte
  size : Nat
  next : Nat
  /-- Where the heap ended when the transaction began, and its log. -/
  transaction : Option (Nat × Undo)
  abortedAllocations : Bool
  pendingWrites : PendingWrites

abbrev HeapM := EStateM Error Heap

namespace Heap

/-- Take a slab. Its first two bytes are reserved, so that no object is the null reference. -/
def new (bytes : Nat → Byte) (size : Nat) : Except Error Heap := do
  failIf (size < headerBytes + 2) .quota
  pure ⟨bytes, size, 2, none, false, .empty⟩

/-- Take a slab that already holds objects. -/
def resume (bytes : Nat → Byte) (size used : Nat) : Except Error Heap := do
  failIf (used < 2 ∨ size < used ∨ 65535 < used ∨ used % 2 ≠ 0) .bounds
  pure ⟨bytes, size, used, none, false, .empty⟩

def info (heap : Heap) (reference : Nat) : Except Error Info := Info.read heap.bytes heap.size heap.next reference

/-- Check that a context may touch an object. -/
def checkAccess (heap : Heap) (reference context : Nat) : Except Error Info := do
  let info ← heap.info reference
  failIf (context ≠ 0 ∧ info.owner ≠ context) .firewall
  pure info

def transactionRemaining (heap : Heap) : Option Nat := heap.transaction.map fun txn => txn.2.remaining

def hasUncheckpointedWrites (heap : Heap) : Bool := heap.pendingWrites.any

def committedBytes (heap : Heap) : Nat :=
  match heap.transaction with
  | none => heap.next
  | some (start, _) => start

/-- The committed contents of the slab: what an abort would restore. -/
def committed (heap : Heap) : Nat → Byte :=
  match heap.transaction with
  | none => heap.bytes
  | some (_, undo) => undo.restore false heap.bytes

/-- Raw committed bytes of a window. What fails leaves a window of zeros. -/
def projectHeapRange (heap : Heap) (at' : Nat) : EStateM Error (List Byte) Unit := do
  let result ← capture (do
    let output ← get
    failIf (heap.committedBytes < at' + output.length) .bounds
    set (range heap.bytes at' output.length)
    match heap.transaction with
    | some (_, undo) => undo.projectRange at' heap.committedBytes false
    | none => return)
  match result with
  | .ok () => return
  | .error e =>
      modify fun output => List.replicate output.length 0
      throw e

def projectHeap (heap : Heap) : EStateM Error (List Byte) Unit := do
  let output ← get
  if output.length ≠ heap.committedBytes then
    set (List.replicate output.length (0 : Byte))
    throw .bounds
  heap.projectHeapRange 0

/-- Turn the live statics into the committed ones. -/
def projectStatics (heap : Heap) : EStateM Error (List Byte) Unit :=
  match heap.transaction with
  | some (_, undo) => undo.project true
  | none => pure ()

def markCheckpointed : HeapM Unit := modify fun heap => { heap with pendingWrites := .empty }

def beginTransaction (capacity : Nat) : HeapM Unit := do
  let heap ← get
  failIf (heap.abortedAllocations = true) .transactionAborted
  failIf (heap.transaction.isSome = true) .inconsistent
  set { heap with transaction := some (heap.next, ⟨[], capacity⟩) }

def commitTransaction : HeapM Unit := do
  let heap ← get
  failIf (heap.transaction.isNone = true) .inconsistent
  set { heap with transaction := none, pendingWrites := heap.pendingWrites.requireSnapshot }

/-! The runtime's own header, outside applet-addressable objects and transactions. -/

def heapVersion : Nat := 3

def validVersion (value : Byte) : Bool := value.toNat % 128 = heapVersion

def validLifecycle (state : Byte) : Bool := state.toNat < 128 ∧ state.toNat % 8 = 7

def initializeLifecycle : HeapM Unit :=
  modify fun heap => { heap with bytes := overwrite heap.bytes 0 [UInt8.ofNat heapVersion, 7] }

def lifecycle (heap : Heap) : Except Error Byte := do
  failIf (validVersion (heap.bytes 0) = false) .incompatibleState
  failIf (validLifecycle (heap.bytes 1) = false) .format
  pure (heap.bytes 1)

/-- Write one byte of the runtime header, when it changes. -/
def putRuntime (at' : Nat) (value : Byte) : HeapM Unit := do
  let heap ← get
  if heap.bytes at' = value then return
  set { heap with bytes := overwrite heap.bytes at' [value], pendingWrites := heap.pendingWrites.write at' 1 }

def objectDeletionRequested (heap : Heap) : Except Error Bool := do
  let _ ← heap.lifecycle
  pure (128 ≤ (heap.bytes 0).toNat)

/-- Only the deletion bit of the version byte changes. -/
def requestObjectDeletion : HeapM Unit := do
  let heap ← get
  let _ ← readOnly heap.lifecycle
  if (heap.bytes 0).toNat < 128 then putRuntime 0 (UInt8.ofNat ((heap.bytes 0).toNat + 128))

def clearObjectDeletionRequest : HeapM Unit := do
  let heap ← get
  let _ ← readOnly heap.lifecycle
  if 128 ≤ (heap.bytes 0).toNat then putRuntime 0 (UInt8.ofNat heapVersion)

def setLifecycle (state : Byte) : HeapM Bool := do
  let heap ← get
  let _ ← readOnly heap.lifecycle
  if validLifecycle state then
    putRuntime 1 state
    return true
  return false

/-- Visit allocated payloads in order, writing back what the visitor returns. -/
def visitFrom (visit : Nat → Info → List Byte → Except Error (List Byte)) : Nat → Nat → HeapM Unit
  | 0, _ => throw .format
  | fuel + 1, at' => do
      let heap ← get
      if at' < heap.next then
        let info ← readOnly (heap.info at')
        let payload ← readOnly (visit at' info (range heap.bytes (at' + headerBytes) info.payload))
        set { heap with bytes := overwrite heap.bytes (at' + headerBytes) payload }
        visitFrom visit fuel (info.stop at')
      else failIf (at' ≠ heap.next) .format

def visitObjects (visit : Nat → Info → List Byte → Except Error (List Byte)) : HeapM Unit := do
  let heap ← get
  failIf (heap.transaction.isSome = true) .inconsistent
  visitFrom visit (heap.next + 1) 2

/-- Null every reference slot that names an object at or above `start`. -/
def nullSlots (start : Nat) : List Byte → List Byte
  | high :: low :: rest => (if start ≤ be16 high low then [0, 0] else [high, low]) ++ nullSlots start rest
  | rest => rest

/-- What abort does to one payload: transient references to discarded objects go. -/
def forget (start _reference : Nat) (info : Info) (payload : List Byte) : Except Error (List Byte) :=
  .ok (if info.kind = .reference ∧ info.clearEvent ≠ 0 then nullSlots start payload else payload)

/-- Restore conditional writes. True means objects were allocated after begin. -/
def abortTransaction (statics : Nat → Byte) : HeapM (Bool × (Nat → Byte)) := do
  let heap ← get
  let (start, undo) ← orFail heap.transaction .inconsistent
  let restored := undo.restore true statics
  set { heap with transaction := none, bytes := undo.restore false heap.bytes }
  if heap.next = start then return (false, restored)
  visitObjects (forget start)
  modify fun heap => { heap with
    bytes := overwrite heap.bytes start (List.replicate (heap.next - start) 0)
    next := start
    abortedAllocations := true }
  return (true, restored)

def rememberStatic (at' : Nat) (before : List Byte) : HeapM Unit := do
  let heap ← get
  match heap.transaction with
  | some (start, undo) =>
      let undo ← readOnly (undo.record at' before true)
      set { heap with transaction := some (start, undo) }
  | none => set { heap with pendingWrites := heap.pendingWrites.writeStatics at' before.length }

def remember (at' length : Nat) (info : Info) : HeapM Unit := do
  let heap ← get
  if info.clearEvent ≠ 0 then return
  match heap.transaction with
  | some (start, undo) =>
      -- an abort wipes everything allocated since begin, so only older payloads are saved
      if start ≤ at' then return
      let undo ← readOnly (undo.record at' (range heap.bytes at' length) false)
      set { heap with transaction := some (start, undo) }
  | none => set { heap with pendingWrites := heap.pendingWrites.write at' length }

/-- Put bytes into the slab. -/
def store (at' : Nat) (value : List Byte) : HeapM Unit :=
  modify fun heap => { heap with bytes := overwrite heap.bytes at' value }

/-- A conditional write: it is undone when the transaction aborts. -/
def putConditional (at' : Nat) (value : List Byte) (info : Info) : HeapM Unit := do
  remember at' value.length info
  store at' value

/-- A conditional write that is skipped when it would change nothing. -/
def putChanged (at' : Nat) (value : List Byte) (info : Info) : HeapM Unit := do
  if range (← get).bytes at' value.length = value then return
  putConditional at' value info

/-- An unconditional write: it is recorded as pending at once and is never undone. -/
def putUnconditional (at' : Nat) (value : List Byte) (info : Info) : HeapM Unit := do
  let heap ← get
  if range heap.bytes at' value.length = value then return
  set { heap with
    pendingWrites := if info.clearEvent = 0 then heap.pendingWrites.write at' value.length else heap.pendingWrites
    transaction := heap.transaction.map fun (txn : Nat × Undo) => (txn.1, txn.2.preserve at' value)
    bytes := overwrite heap.bytes at' value }

/-- The range an allocation would take. -/
def allocationRange (heap : Heap) (from' : Nat) (kind : Kind) (length : Nat) : Except Error Nat := do
  failIf (from' % 2 ≠ 0) .quota
  let stop := from' + (headerBytes + length * kind.elementSize + 1) / 2 * 2
  failIf (min heap.size 65535 < stop) .quota
  pure stop

/-- Check a compound allocation before publishing any of its references. -/
def checkAllocations (heap : Heap) (objects : List (Kind × Nat)) : Except Error Unit := do
  let _ ← objects.foldlM (fun from' object => heap.allocationRange from' object.1 object.2) heap.next
  pure ()

def allocate (info : Info) : HeapM Nat := do
  let heap ← get
  failIf (heap.abortedAllocations = true) .transactionAborted
  let stop ← readOnly (heap.allocationRange heap.next info.kind info.length)
  let at' := heap.next
  let fresh := info.header ++ List.replicate (stop - at' - headerBytes) 0
  set { heap with
    bytes := overwrite heap.bytes at' fresh
    next := stop
    pendingWrites := if heap.transaction.isNone then
        heap.pendingWrites.write at' (if info.clearEvent = 0 then stop - at' else headerBytes)
      else heap.pendingWrites }
  return at'

/-- An instance of a class, with all fields zero. -/
def newObject (cls words owner : Nat) : HeapM Nat := allocate ⟨cls, words, .object, owner, 0⟩

/-- The class word of an array whose elements are not named by a class. -/
def arrayClass (kind : Kind) : Nat := if kind = .reference then anyReferenceClass else 0

def newArray (kind : Kind) (length owner : Nat) : HeapM Nat := do
  failIf (kind = .object) .format
  allocate ⟨arrayClass kind, length, kind, owner, 0⟩

/-- A reference array whose elements must be of the named class. -/
def newReferenceArray (component length owner : Nat) : HeapM Nat := do
  failIf (component = anyReferenceClass) .format
  allocate ⟨component, length, .reference, owner, 0⟩

def newTransientArray (kind : Kind) (length owner event : Nat) : HeapM Nat := do
  failIf (event ≠ clearOnReset ∧ event ≠ clearOnDeselect) .format
  failIf (kind = .object) .format
  allocate ⟨arrayClass kind, length, kind, owner, event⟩

/-- What clearing a transient event does to one payload. -/
def cleared (event context _reference : Nat) (info : Info) (payload : List Byte) : Except Error (List Byte) :=
  .ok (if info.clearEvent ≠ 0 ∧ (event = clearOnReset ∨ (info.clearEvent = event ∧ info.owner = context)) then
      List.replicate payload.length 0
    else payload)

/-- Reset clears both transient kinds; deselection clears only that context's arrays. -/
def clearTransient (event context : Nat) : HeapM Unit := do
  failIf (event ≠ clearOnReset ∧ event ≠ clearOnDeselect) .format
  visitObjects (cleared event context)

/-- Where an element of an object or an array stands. -/
def slot (heap : Heap) (reference index : Nat) (wantArray : Bool) : Except Error (Nat × Info) := do
  let info ← heap.info reference
  failIf (info.isArray ≠ wantArray) .type
  failIf (info.length ≤ index) .bounds
  pure (reference + headerBytes + index * info.kind.elementSize, info)

/-- The word stored at an address. -/
def wordOf (bytes : Nat → Byte) (at' : Nat) : Nat := be16 (bytes at') (bytes (at' + 1))

/-- The two bytes of a word. -/
def wordBytes (value : Nat) : List Byte := [UInt8.ofNat (value / 256), UInt8.ofNat value]

/-- The four bytes of an int. -/
def longBytes (value : Nat) : List Byte := wordBytes (value / 65536) ++ wordBytes value

def getWord (heap : Heap) (reference index : Nat) : Except Error Nat := do
  let (at', _) ← heap.slot reference index false
  pure (wordOf heap.bytes at')

def putWord (reference index value : Nat) : HeapM Unit := do
  let (at', info) ← readOnly ((← get).slot reference index false)
  putChanged at' (wordBytes value) info

/-- Runtime state such as a PIN presentation counter is never undone. -/
def putWordUnconditional (reference index value : Nat) : HeapM Unit := do
  let (at', info) ← readOnly ((← get).slot reference index false)
  putUnconditional at' (wordBytes value) info

def putInt (reference index value : Nat) : HeapM Unit := do
  let (at', info) ← readOnly ((← get).slot reference index false)
  let _ ← readOnly ((← get).slot reference (index + 1) false)
  putChanged at' (longBytes value) info

/-- Save the whole payload of an object. -/
def rememberObject (reference : Nat) : HeapM Unit := do
  let info ← readOnly ((← get).info reference)
  remember (reference + headerBytes) info.payload info

/-- One array element, widened to a short, as a word. -/
def arrayGet (heap : Heap) (reference index : Nat) : Except Error Nat := do
  let (at', info) ← heap.slot reference index true
  let low := (heap.bytes at').toNat
  match info.kind with
  | .boolean => pure (if low = 0 then 0 else 1)
  | .byte => pure (if low < 128 then low else 65280 + low)
  | .int => throw .type
  | _ => pure (wordOf heap.bytes at')

/-- The bytes an element of a kind takes from a word. -/
def elementBytes (kind : Kind) (value : Nat) : List Byte :=
  match kind with
  | .boolean => [if value = 0 then 0 else 1]
  | .byte => [UInt8.ofNat value]
  | _ => wordBytes value

def arrayPut (reference index value : Nat) : HeapM Unit := do
  let (at', info) ← readOnly ((← get).slot reference index true)
  failIf (info.kind = .int ∨ info.kind = .reference) .type
  putChanged at' (elementBytes info.kind value) info

def arrayPutReference (reference index value : Nat) : HeapM Unit := do
  let (at', info) ← readOnly ((← get).slot reference index true)
  failIf (info.kind ≠ .reference) .type
  putChanged at' (wordBytes value) info

def arrayGetInt (heap : Heap) (reference index : Nat) : Except Error Nat := do
  let (at', info) ← heap.slot reference index true
  failIf (info.kind ≠ .int) .type
  pure (wordOf heap.bytes at' * 65536 + wordOf heap.bytes (at' + 2))

def arrayPutInt (reference index value : Nat) : HeapM Unit := do
  let (at', info) ← readOnly ((← get).slot reference index true)
  failIf (info.kind ≠ .int) .type
  putChanged at' (longBytes value) info

/-- Where a range of a byte or boolean array stands. -/
def byteRange (heap : Heap) (reference offset length : Nat) : Except Error (Nat × Info) := do
  let info ← heap.info reference
  failIf (info.kind.elementSize ≠ 1 ∨ info.isArray = false) .type
  failIf (info.length < offset + length) .bounds
  pure (reference + headerBytes + offset, info)

def byteSlice (heap : Heap) (reference offset length : Nat) : Except Error (List Byte) := do
  let (at', _) ← heap.byteRange reference offset length
  pure (range heap.bytes at' length)

/-- Write through the mutable slice of a byte array. -/
def writeBytes (reference offset : Nat) (value : List Byte) : HeapM Unit := do
  let (at', info) ← readOnly ((← get).byteRange reference offset value.length)
  putConditional at' value info

def copyBytes (source sourceOffset destination destinationOffset length : Nat) : HeapM Unit := do
  let heap ← get
  let value ← readOnly (heap.byteSlice source sourceOffset length)
  let (at', info) ← readOnly (heap.byteRange destination destinationOffset length)
  putConditional at' value info

def copyBytesUnconditional (source sourceOffset destination destinationOffset length : Nat) : HeapM Unit := do
  let heap ← get
  let value ← readOnly (heap.byteSlice source sourceOffset length)
  let (at', info) ← readOnly (heap.byteRange destination destinationOffset length)
  putUnconditional at' value info

def fillBytesUnconditional (reference offset length : Nat) (value : Byte) : HeapM Unit := do
  let (at', info) ← readOnly ((← get).byteRange reference offset length)
  putUnconditional at' (List.replicate length value) info

def writeBytesUnconditional (reference offset : Nat) (value : List Byte) : HeapM Unit := do
  let (at', info) ← readOnly ((← get).byteRange reference offset value.length)
  putUnconditional at' value info

/-- Save one span of a compound write; a failure releases what was saved so far. -/
def reserve (remaining : Nat) (span : Nat × Nat × Nat) : HeapM Unit := do
  let info ← readOnly ((← get).info span.1)
  match ← capture (remember (span.1 + headerBytes + span.2.1) span.2.2 info) with
  | .ok () => return
  | .error e =>
      modify fun heap => { heap with
        transaction := heap.transaction.map fun (txn : Nat × Undo) => (txn.1, txn.2.rewind remaining) }
      throw e

/-- A span is a reference, a byte offset into its payload, and a length. -/
def checkSpan (heap : Heap) (span : Nat × Nat × Nat) : Except Error Unit := do
  let info ← heap.info span.1
  failIf (info.payload < span.2.1 + span.2.2) .bounds

/-- Reserve before-images for a compound write before publishing any component. -/
def preparePayloadWrites (spans : List (Nat × Nat × Nat)) : HeapM Unit := do
  let heap ← get
  let _ ← readOnly (spans.forM heap.checkSpan)
  match heap.transactionRemaining with
  | none => return
  | some remaining => spans.forM (reserve remaining)

end Heap

end MicroCard.Jcvm
