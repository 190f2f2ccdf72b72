import MicroCard.Mc04.Integers

/-! The objects of one command: arrays and records in one block of bytes, named by handles
that count from one. -/
namespace MicroCard.Mc04

open Bytes Halting

def maxTransientBytes : Nat := 16 * 1024

def maxTransientObjects : Nat := 256

def heapHeader : Nat := 6

def handleBytes : Nat := 2

/-- Kinds of objects, as their headers have them. -/
inductive ObjectKind where
  | bytes
  | ints
  | struct
  deriving DecidableEq

namespace ObjectKind

def id : ObjectKind → Byte
  | bytes => 0
  | ints => 1
  | struct => 2

def elementBytes : ObjectKind → Nat
  | bytes => 1
  | _ => 4

end ObjectKind

section Ranges

/-- `allocation_range`: where an object would end that starts behind what is used. -/
def allocationRange (used header count elementBytes alignment limit : Nat) : Option Nat :=
  if used % alignment ≠ 0 ∨ elementBytes = 0 then none
  else
    let size := (count * elementBytes + header + (alignment - 1)) / alignment * alignment
    if used + size ≤ limit then some (used + size) else none

/-- `byte_range`. -/
def byteRange (size offset length : Nat) : Option Nat := if offset + length ≤ size then some (offset + length) else none

theorem allocationRange_le {used header count elementBytes alignment limit stop : Nat}
    (hAlignment : 0 < alignment) (h : allocationRange used header count elementBytes alignment limit = some stop) :
    used + header ≤ stop ∧ stop ≤ limit := by
  unfold allocationRange at h
  split at h
  · cases h
  · dsimp only at h
    split at h
    · rename_i hLimit
      cases h
      have hRounded := Nat.lt_div_mul_add (a := count * elementBytes + header + (alignment - 1)) hAlignment
      exact ⟨by omega, hLimit⟩
    · cases h

/-- `next_power_of_two`, from two on. -/
def nextPowerOfTwo (n : Nat) : Nat := 2 ^ (Nat.log2 (n - 1) + 1)

theorem le_nextPowerOfTwo (n : Nat) : n ≤ nextPowerOfTwo n := by
  have hLess := Nat.lt_log2_self (n := n - 1)
  unfold nextPowerOfTwo
  omega

/-- Bytes with some of them replaced. -/
def patch (data : List Byte) (at' : Nat) (bytes : List Byte) : List Byte :=
  data.take at' ++ bytes ++ data.drop (at' + bytes.length)

theorem patch_length {data bytes : List Byte} {at' : Nat} (h : at' + bytes.length ≤ data.length) :
    (patch data at' bytes).length = data.length := by
  simp only [patch, List.length_append, List.length_take, List.length_drop]
  omega

end Ranges

structure Heap where
  data : List Byte
  /-- How much is reserved for the data. -/
  capacity : Nat
  /-- Where each object starts. -/
  objects : List Nat
  used : Nat
  generation : Nat
  few : objects.length ≤ maxTransientObjects
  small : used ≤ maxTransientBytes
  exact' : used = data.length + handleBytes * objects.length
  reserved : data.length ≤ capacity ∧ capacity ≤ maxTransientBytes

namespace Heap

def new : Heap := ⟨[], 0, [], 0, 0, by decide, by decide, by decide, by decide⟩

section Allocation

/-- The header of an object. -/
def header (kind : ObjectKind) (unit owner length : Nat) : List Byte :=
  [kind.id, UInt8.ofNat unit] ++ toLE 2 owner ++ toLE 2 length

theorem header_length (kind : ObjectKind) (unit owner length : Nat) : (header kind unit owner length).length = heapHeader := by
  simp [header, heapHeader]

/-- What is reserved for data that ends here. -/
def grown (heap : Heap) (stop : Nat) : Nat :=
  if heap.capacity < stop then min (nextPowerOfTwo stop) maxTransientBytes else heap.capacity

theorem le_grown (heap : Heap) {stop : Nat} (h : stop ≤ maxTransientBytes) :
    stop ≤ heap.grown stop ∧ heap.grown stop ≤ maxTransientBytes := by
  unfold grown
  split
  · exact ⟨le_min (le_nextPowerOfTwo stop) h, min_le_right _ _⟩
  · rename_i hFits
    exact ⟨Nat.le_of_not_lt hFits, heap.reserved.2⟩

/-- The heap with an object behind the others. -/
def withObject (heap : Heap) (header : List Byte) (stop : Nat) (hFew : heap.objects.length < maxTransientObjects)
    (hStart : heap.data.length + header.length ≤ stop)
    (hStop : stop ≤ maxTransientBytes - handleBytes * (heap.objects.length + 1)) : Heap where
  data := heap.data ++ header ++ List.replicate (stop - (heap.data.length + header.length)) 0
  capacity := heap.grown stop
  objects := heap.objects ++ [heap.data.length]
  used := stop + handleBytes * (heap.objects.length + 1)
  generation := heap.generation
  few := by
    rw [List.length_append, List.length_singleton]
    omega
  small := by
    unfold maxTransientObjects at hFew
    unfold handleBytes maxTransientBytes at *
    omega
  exact' := by
    simp only [List.length_append, List.length_replicate, List.length_singleton]
    omega
  reserved := by
    have hBound := heap.le_grown (show stop ≤ maxTransientBytes by omega)
    simp only [List.length_append, List.length_replicate]
    exact ⟨by omega, hBound.2⟩

/-- Allocate an object; reservations that the allocator refuses fail. Nothing changes
before the last of the checks. -/
def allocateObject (allocator : Nat → Bool) (heap : Heap) (kind : ObjectKind) (unit owner length : Nat) :
    Except Error RuntimeValue × Heap :=
  if hFew : heap.objects.length < maxTransientObjects then
    let handle := heap.generation + (heap.objects.length + 1)
    if 2 ^ 64 ≤ handle ∨ 2 ^ 16 ≤ length then (.error .quota, heap)
    else
      match hRange : allocationRange heap.data.length heapHeader length kind.elementBytes 2
        (maxTransientBytes - handleBytes * (heap.objects.length + 1)) with
      | none => (.error .quota, heap)
      | some stop =>
          if allocator handleBytes = false ∨ heap.capacity < stop ∧ allocator (heap.grown stop) = false then
            (.error .quota, heap)
          else
            have hStop := allocationRange_le (by decide) hRange
            (.ok (.ref handle), heap.withObject (header kind unit owner length) stop hFew
              (by rw [header_length]; exact hStop.1) hStop.2)
  else (.error .quota, heap)

variable (allocator : Nat → Bool) (heap : Heap)

def allocate (bytes : Bool) (length : Nat) : Except Error RuntimeValue × Heap :=
  heap.allocateObject allocator (if bytes = true then .bytes else .ints) 0 0 length

def allocateStruct (unit owner fields : Nat) : Except Error RuntimeValue × Heap :=
  if 2 ^ 8 ≤ unit then (.error .quota, heap) else heap.allocateObject allocator .struct unit owner fields

end Allocation

section Access

variable (heap : Heap)

/-- Where an object is, its kind and its length. -/
def info (handle : RuntimeValue) : Checked (Nat × Nat × Nat) :=
  match handle with
  | .ref handle => do
      refuseIf (handle < heap.generation + 1) .bounds
      let at' ← orRefuse heap.objects[handle - heap.generation - 1]? .bounds
      refuseIf (heap.data.length < at' + heapHeader) .bounds
      let kind ← Halting.index heap.data at'
      pure (at', kind.toNat, fromLE ((heap.data.drop (at' + 4)).take 2))
  | _ => throw (.refused .format)

/-- Replace bytes; a range outside of the data panics. -/
def write (at' : Nat) (bytes : List Byte) : Checked Heap :=
  if h : at' + bytes.length ≤ heap.data.length then
    pure { heap with
      data := patch heap.data at' bytes
      exact' := by rw [patch_length h]; exact heap.exact'
      reserved := by rw [patch_length h]; exact heap.reserved }
  else throw .panic

def bytesAt (handle : RuntimeValue) : Checked (Nat × Nat) := do
  let (at', kind, length) ← heap.info handle
  refuseIf (kind ≠ ObjectKind.bytes.id.toNat) .format
  refuseIf (heap.data.length < at' + heapHeader + length) .bounds
  pure (at' + heapHeader, length)

def bytes (handle : RuntimeValue) : Checked (List Byte) := do
  let (at', length) ← heap.bytesAt handle
  pure ((heap.data.drop at').take length)

/-- `copy_from_slice` into the bytes of an object from an offset on. -/
def setBytes (handle : RuntimeValue) (offset : Nat) (values : List Byte) : Checked Heap := do
  let (at', length) ← heap.bytesAt handle
  if length < offset + values.length then throw .panic else heap.write (at' + offset) values

def copyBytes (source : RuntimeValue) (sourceOffset : Nat) (destination : RuntimeValue) (destinationOffset length : Nat) :
    Checked Heap := do
  let from' ← heap.bytes source
  let _ ← orRefuse (byteRange from'.length sourceOffset length) .bounds
  let into ← heap.bytes destination
  let _ ← orRefuse (byteRange into.length destinationOffset length) .bounds
  let (start, _, _) ← heap.info source
  let (stop, _, _) ← heap.info destination
  let start := start + heapHeader + sourceOffset
  let _ ← orRefuse (byteRange heap.data.length start length) .bounds
  heap.write (stop + heapHeader + destinationOffset) ((heap.data.drop start).take length)

def intLength (handle : RuntimeValue) : Checked Nat := do
  let (_, kind, length) ← heap.info handle
  refuseIf (kind ≠ ObjectKind.ints.id.toNat) .format
  pure length

def intBytes (value : Int32) : List Byte := toLE 4 value.toUInt32.toNat

def writeInts (handle : RuntimeValue) (offset : Nat) (values : List Int32) : Checked Heap := do
  let length ← heap.intLength handle
  let _ ← orRefuse (byteRange length offset values.length) .bounds
  let (at', _, _) ← heap.info handle
  heap.write (at' + heapHeader + offset * 4) (values.flatMap intBytes)

def arrayLength (handle : RuntimeValue) : Checked Nat := do
  let (_, kind, length) ← heap.info handle
  refuseIf (kind = ObjectKind.struct.id.toNat) .format
  pure length

/-- The kind of an array. -/
def arrayKind (bytes : Bool) : ObjectKind := if bytes = true then .bytes else .ints

def arraySlot (handle : RuntimeValue) (index : Nat) (bytes : Bool) : Checked Nat := do
  let (at', kind, length) ← heap.info handle
  refuseIf (kind ≠ (arrayKind bytes).id.toNat) .format
  refuseIf (length ≤ index) .bounds
  pure (at' + heapHeader + index * (arrayKind bytes).elementBytes)

def readInt (at' : Nat) : Checked Int32 := do
  let word ← CrashTriple.orFail (range? heap.data at' (at' + 4)) .panic
  pure (UInt32.ofNat (fromLE word)).toInt32

def arrayGet (handle : RuntimeValue) (index : Nat) (bytes : Bool) : Checked Int32 := do
  let at' ← heap.arraySlot handle index bytes
  if bytes = true then do
    let byte ← Halting.index heap.data at'
    pure byte.toUInt32.toInt32
  else heap.readInt at'

def arraySet (handle : RuntimeValue) (index : Nat) (bytes : Bool) (value : Int32) : Checked Heap := do
  let at' ← heap.arraySlot handle index bytes
  heap.write at' (if bytes = true then [value.toUInt32.toUInt8] else intBytes value)

def fieldSlot (handle : RuntimeValue) (unit owner index : Nat) : Checked Nat := do
  let (at', kind, length) ← heap.info handle
  refuseIf (kind ≠ ObjectKind.struct.id.toNat) .format
  let objectUnit ← Halting.index heap.data (at' + 1)
  refuseIf (objectUnit.toNat ≠ unit ∨ fromLE ((heap.data.drop (at' + 2)).take 2) ≠ owner) .format
  refuseIf (length ≤ index) .bounds
  pure (at' + heapHeader + index * 4)

def fieldGet (handle : RuntimeValue) (unit owner index : Nat) : Checked RuntimeValue := do
  let at' ← heap.fieldSlot handle unit owner index
  let value ← heap.readInt at'
  pure (.int value)

/-- Fields hold integers. -/
def fieldSet (handle : RuntimeValue) (unit owner index : Nat) (value : RuntimeValue) : Checked Heap := do
  let at' ← heap.fieldSlot handle unit owner index
  let value ← value.toInt
  heap.write at' (intBytes value)

end Access

/-- Allocate an array and fill it. -/
def allocateBytes (allocator : Nat → Bool) (heap : Heap) (values : List Byte) : Checked RuntimeValue × Heap :=
  match heap.allocate allocator true values.length with
  | (.error e, heap) => (.error (.refused e), heap)
  | (.ok handle, heap) =>
      match heap.setBytes handle 0 values with
      | .error halt => (.error halt, heap)
      | .ok filled => (.ok handle, filled)

end Heap

end MicroCard.Mc04
