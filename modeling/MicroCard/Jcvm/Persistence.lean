import MicroCard.Jcvm.Api
import MicroCard.Jcvm.Heap
import MicroCard.Library.Slices

/-! What is saved of a running card. A view borrows the live state at a durable boundary;
saving a window of its heap copies the committed bytes and clears what must not outlive a
reset. A cursor saves windows in order and reads each object header once. -/
namespace MicroCard.Jcvm

open Bytes CrashTriple Slices

namespace PendingWrites

/-- A changed span that is not empty. -/
def spanRange (span : Nat × Nat) : Option (Nat × Nat) := if span.2 ≠ 0 then some span else none

def heapRanges (writes : PendingWrites) : List (Nat × Nat) := writes.heap.filterMap spanRange

def staticRange (writes : PendingWrites) : Option (Nat × Nat) := writes.statics.bind spanRange

/-- The spans below the end of a committed heap, cut there. -/
def forCommittedHeap (writes : PendingWrites) (length : Nat) : PendingWrites :=
  if length ≤ 65535 then
    { writes with heap := (writes.heap.map fun span => (span.1, min span.2 length)).filter fun span => span.1 < span.2 }
  else { writes with snapshot := true }

end PendingWrites

/-- The word of a PIN object that holds its presentation state. -/
def ready : Nat := 3

/-- The payload bytes of a native object that are reset: the presentation state of a PIN
and the reason of a runtime exception. Explicit six-word exceptions persist. -/
def nativeVolatileRange (info : Info) : Except Error (Option (Nat × Nat)) :=
  if info.kind ≠ .object then .ok none
  else
    match apiClass info.cls with
    | none => .ok none
    | some entry =>
        if entry.id = .ownerPIN ∨ entry.id = .ownerPINx ∨ entry.id = .ownerPINxWithPredecrement then
          if info.length ≤ ready then .error .bounds else .ok (some (ready * 2, ready * 2 + 2))
        else if info.length = 1 ∧ isExceptionClass entry = true then .ok (some (0, 2))
        else .ok none

/-- Engine state only: a heap, the statics and the applet instance. -/
structure PersistentState where
  heap : List Byte
  statics : List Byte
  instance' : Nat
  deriving DecidableEq, Repr

/-- Borrowed live state. The heap is its bytes and their number. -/
structure PersistentView where
  heap : Nat → Byte
  length : Nat
  statics : List Byte
  instance' : Nat
  buffer : Nat
  projection : Option Heap

/-- How far a cursor has come: its object, the end of its last window, and whether the
global buffer was met. -/
structure PersistentCursor where
  cursor : Nat
  lastEnd : Nat
  foundBuffer : Bool
  deriving DecidableEq, Repr

/-- A cursor and the window it writes. -/
abbrev SaveM := EStateM Error (PersistentCursor × List Byte)

/-- Wipe the output of a program that fails. -/
def zeroOnError {α : Type} (program : EStateM Error (List Byte) α) : EStateM Error (List Byte) α := do
  match ← capture program with
  | .ok a => return a
  | .error e =>
      modify fun output => List.replicate output.length 0
      throw e

namespace PersistentView

def heapBytes (view : PersistentView) : Nat :=
  match view.projection with
  | none => view.length
  | some heap => heap.committedBytes

def cursor (view : PersistentView) : Except Error PersistentCursor := do
  failIf (view.heapBytes < 2 ∨ view.heapBytes % 2 ≠ 0) .bounds
  pure ⟨2, 0, false⟩

def metadata (view : PersistentView) : Nat × List Byte := (view.instance', view.statics)

/-- None means this view has no live write tracker and requires a full snapshot. -/
def pendingWrites (view : PersistentView) : Option PendingWrites :=
  view.projection.map fun heap => heap.pendingWrites.forCommittedHeap view.heapBytes

/-- Meeting the global buffer, which is a byte array. -/
def noteBuffer (view : PersistentView) (info : Info) (cursor : PersistentCursor) : Except Error PersistentCursor := do
  if cursor.cursor = view.buffer then
    failIf (info.kind ≠ .byte) .type
    return { cursor with foundBuffer := true }
  return cursor

/-- The payload bytes of an object that are not saved. -/
def clearRange (view : PersistentView) (reference : Nat) (info : Info) : Except Error (Option (Nat × Nat)) :=
  if reference = view.buffer ∨ info.clearEvent ≠ 0 then .ok (some (0, info.payload)) else nativeVolatileRange info

/-- Clear the part of a window that a range of a payload covers. -/
def clearWindow (at' stop payload : Nat) (range : Option (Nat × Nat)) (output : List Byte) : List Byte :=
  match range with
  | none => output
  | some (first, last) =>
      let lo := max at' (payload + first)
      let hi := min stop (payload + last)
      if lo < hi then splice output (lo - at') (List.replicate (hi - lo) 0) else output

/-- Walk the objects from the cursor on, as far as they reach into the window. -/
def saveObjects (view : PersistentView) (at' stop : Nat) : Nat → SaveM Unit
  | 0 => throw .format
  | fuel + 1 => do
      let (cursor, output) ← get
      if cursor.cursor < view.heapBytes then
        failIf (65535 < cursor.cursor) .bounds
        let info ← readOnly (Info.read view.heap view.length view.heapBytes cursor.cursor)
        let noted ← readOnly (view.noteBuffer info cursor)
        set (noted, output)
        if info.stop cursor.cursor ≤ at' then
          set ({ noted with cursor := info.stop cursor.cursor }, output)
          saveObjects view at' stop fuel
        else if stop ≤ cursor.cursor then return
        else
          let range ← readOnly (view.clearRange cursor.cursor info)
          let output := clearWindow at' stop (cursor.cursor + headerBytes) range output
          set (noted, output)
          if stop < info.stop cursor.cursor then return
          set ({ noted with cursor := info.stop cursor.cursor }, output)
          saveObjects view at' stop fuel

/-- The committed bytes of a window. -/
def copyCommitted (view : PersistentView) (at' : Nat) : EStateM Error (List Byte) Unit :=
  match view.projection with
  | some heap => heap.projectHeapRange at'
  | none => do
      let output ← get
      failIf (view.length < at' + output.length) .bounds
      set (range view.heap at' output.length)

/-- A program over the window alone. -/
def overWindow (program : EStateM Error (List Byte) Unit) : SaveM Unit := fun s =>
  match program s.2 with
  | .ok u output => .ok u (s.1, output)
  | .error e output => .error e (s.1, output)

def saveWindow (view : PersistentView) (at' : Nat) : SaveM Unit := do
  let (cursor, output) ← get
  let stop := at' + output.length
  failIf (view.heapBytes < stop) .bounds
  failIf (at' < cursor.lastEnd) .bounds
  overWindow (view.copyCommitted at')
  saveObjects view at' stop (view.heapBytes + 1)
  modify fun s => ({ s.1 with lastEnd := stop }, s.2)

/-- `PersistentCursor::save_range`: save the next window. -/
def saveNext (view : PersistentView) (at' : Nat) : SaveM Unit := do
  match ← capture (view.saveWindow at') with
  | .ok () => return
  | .error e =>
      modify fun s => (s.1, List.replicate s.2.length 0)
      throw e

/-- Walk the objects behind the last window. -/
def finishObjects (view : PersistentView) : Nat → PersistentCursor → Except Error PersistentCursor
  | 0, _ => .error .format
  | fuel + 1, cursor =>
      if cursor.cursor < view.heapBytes then do
        failIf (65535 < cursor.cursor) .bounds
        let info ← Info.read view.heap view.length view.heapBytes cursor.cursor
        let noted ← view.noteBuffer info cursor
        finishObjects view fuel { noted with cursor := info.stop cursor.cursor }
      else .ok cursor

/-- `PersistentCursor::finish`. -/
def finish (view : PersistentView) (cursor : PersistentCursor) : Except Error Unit := do
  let cursor ← view.finishObjects (view.heapBytes + 1) cursor
  failIf (cursor.cursor ≠ view.heapBytes ∨ cursor.foundBuffer = false) .format

/-- Save a window by itself. -/
def saveRange (view : PersistentView) (at' : Nat) : EStateM Error (List Byte) Unit :=
  zeroOnError do
    let cursor ← readOnly view.cursor
    let output ← get
    match view.saveNext at' (cursor, output) with
    | .ok () (cursor, output) =>
        set output
        readOnly (view.finish cursor)
    | .error e (_, output) =>
        set output
        throw e

def saveInto (view : PersistentView) : EStateM Error (List Byte) PersistentState := do
  let output ← get
  if output.length ≠ view.heapBytes then
    set (List.replicate output.length (0 : Byte))
    throw .bounds
  view.saveRange 0
  return ⟨← get, view.statics, view.instance'⟩

/-- Save windows one after the other with one cursor, and finish it. -/
def saveWindowsFrom (view : PersistentView) (cursor : PersistentCursor) :
    List (Nat × List Byte) → Except Error (List (List Byte))
  | [] => do
      view.finish cursor
      pure []
  | (at', output) :: windows =>
      match view.saveNext at' (cursor, output) with
      | .ok () (cursor, output) => do
          let others ← view.saveWindowsFrom cursor windows
          pure (output :: others)
      | .error e _ => .error e

def saveWindows (view : PersistentView) (windows : List (Nat × List Byte)) : Except Error (List (List Byte)) := do
  let cursor ← view.cursor
  view.saveWindowsFrom cursor windows

end PersistentView

end MicroCard.Jcvm
