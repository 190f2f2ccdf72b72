import MicroCard.Library.Slices
import MicroCard.Tlv.Reference

/-! The managed writers of tagged objects. Arrays are named, so that the source and the
destination of a call may be the same one. An offset is checked against an array before it
takes part in a sum, and no sum leaves the range of an `int`. -/
namespace MicroCard.Tlv

open Bytes Halting ManagedArrays Slices

/-- The byte arrays of a caller. -/
abbrev Memory := Nat → List Byte

namespace Memory

def put (memory : Memory) (output : Nat) (index : Int) (b : Byte) : Run Memory := do
  let items ← set (memory output) index b
  pure (Function.update memory output items)

/-- Bytes stored one behind the other from a cursor on. -/
def putAll (memory : Memory) (output : Nat) (cursor : Int) : List Byte → Run Memory
  | [] => pure memory
  | b :: rest => do
      let memory ← memory.put output cursor b
      memory.putAll output (cursor + 1) rest

end Memory

/-- `Buffers.Copy`. The ranges of one array may overlap. -/
def copy (memory : Memory) (source : Nat) (sourceOffset : Int) (destination : Nat) (destinationOffset length : Int) :
    Bool × Memory :=
  if sourceOffset < 0 ∨ destinationOffset < 0 ∨ length < 0 ∨ (memory source).length < sourceOffset ∨
      (memory source).length - sourceOffset < length ∨ (memory destination).length < destinationOffset ∨
      (memory destination).length - destinationOffset < length then (false, memory)
  else
    let copied := slice (memory source) sourceOffset.toNat length.toNat
    (true, Function.update memory destination (splice (memory destination) destinationOffset.toNat copied))

section Bounded

def encodedLengthLength (valueLength : Int) : Int :=
  if valueLength < 0 ∨ 0xffff < valueLength then -1
  else if valueLength < 0x80 then 1
  else if valueLength < 0x100 then 2
  else 3

def isConstructed (tag : Int) : Bool :=
  let length := encodedTagLength tag
  0 < length ∧ firstTagByte tag.toNat length &&& 0x20 ≠ 0

def headerLength (tag valueLength : Int) : Int :=
  let tagLength := encodedTagLength tag
  let lengthLength := encodedLengthLength valueLength
  if tagLength < 0 ∨ lengthLength < 0 then -1 else tagLength + lengthLength

def writeHeaderUnchecked (memory : Memory) (output : Nat) (offset tag valueLength : Int) : Run Memory :=
  let tagLength := encodedTagLength tag
  let tag := tag.toNat
  let valueLength := valueLength.toNat
  memory.putAll output offset
    ((if tagLength = 3 then [UInt8.ofNat (tag >>> 16)] else []) ++
      (if 2 ≤ tagLength then [UInt8.ofNat (tag >>> 8)] else []) ++ [UInt8.ofNat tag] ++
      if valueLength < 0x80 then [UInt8.ofNat valueLength]
      else if valueLength < 0x100 then [0x81, UInt8.ofNat valueLength]
      else [0x82, UInt8.ofNat (valueLength >>> 8), UInt8.ofNat valueLength])

def writeHeader (memory : Memory) (output : Nat) (offset capacity tag valueLength : Int) : Run (Int × Memory) := do
  let header := headerLength tag valueLength
  if header < 0 ∨ ¬contains (memory output).length offset capacity ∨ capacity < header then return (-1, memory)
  let memory ← writeHeaderUnchecked memory output offset tag valueLength
  return (header, memory)

def write (memory : Memory) (output : Nat) (offset capacity tag : Int) (value : Nat) (valueOffset valueLength : Int) :
    Run (Int × Memory) := do
  let header := headerLength tag valueLength
  if header < 0 ∨ ¬contains (memory value).length valueOffset valueLength ∨
      ¬contains (memory output).length offset capacity ∨ capacity - valueLength < header then return (-1, memory)
  let destination := offset + header
  match copy memory value valueOffset output destination valueLength with
  | (false, memory) => return (-1, memory)
  | (true, memory) =>
      let memory ← writeHeaderUnchecked memory output offset tag valueLength
      return (header + valueLength, memory)

end Bounded

section Canonical

def isObjectIdentifier (input : List Byte) (offset length : Int) : Run Bool :=
  if ¬contains input.length offset length ∨ length < 1 then pure false
  else objectIdentifierGroups input offset length.toNat true

/-- `ReadLength`: a minimal length before an end; minus one when there is none. -/
def readLengthBefore (input : List Byte) (offset stop : Int) : Run Int := do
  if stop ≤ offset then return -1
  let first := (← get input offset).toNat
  if first < 0x80 then return first
  if first = 0x81 ∧ offset + 1 < stop then
    let value := (← get input (offset + 1)).toNat
    if 0x80 ≤ value then return value
  if first = 0x82 ∧ offset + 2 < stop then
    let value := (← get input (offset + 1)).toNat <<< 8 ||| (← get input (offset + 2)).toNat
    return if 0x100 ≤ value then value else -1
  return -1

def lengthOctets (first : Nat) : Int := if first < 0x80 then 1 else if first = 0x81 then 2 else 3

/-- `IsValue`, which differs from the reader's check in asking again for the range of an
object identifier. -/
def isValue (input : List Byte) (offset length : Int) (tag : Nat) : Run Bool :=
  if tag = 6 then isObjectIdentifier input offset length else canonicalValue input offset length tag

/-- One round of `IsPrimitiveSequence`: the cursor behind the next object, or the answer. -/
def primitiveStep (input : List Byte) (stop cursor : Int) : Run (Int ⊕ Bool) := do
  if stop ≤ cursor then return .inr (cursor = stop)
  if stop - cursor < 2 then return .inr false
  let tag := (← get input cursor).toNat
  if tag = 0 ∨ tag &&& 0x1f = 0x1f then return .inr false
  let valueLength ← readLengthBefore input (cursor + 1) stop
  if valueLength < 0 then return .inr false
  let valueOffset := cursor + 1 + lengthOctets (← get input (cursor + 1)).toNat
  if stop - valueOffset < valueLength then return .inr false
  if ¬(← isValue input valueOffset valueLength tag) ∨ tag &&& 0x20 ≠ 0 then return .inr false
  return .inl (valueOffset + valueLength)

/-- A round takes at least two bytes, so the bytes bound the rounds. -/
def isPrimitiveSequence (input : List Byte) (offset length : Int) : Run Bool :=
  if ¬contains input.length offset length then pure false
  else loop (primitiveStep input (offset + length)) (length.toNat + 1) offset

end Canonical

section Validation

/-- Where the validation stands: the objects that are open, the next byte, the end of the
innermost object and the scratch array. -/
structure Walk where
  depth : Nat
  cursor : Int
  stop : Int
  scratch : List Int

def validateStep (input : List Byte) (scratchOffset stackOffset stackLength : Int) (walk : Walk) :
    Run (Walk ⊕ (Bool × List Int)) := do
  if walk.cursor = walk.stop then
    match walk.depth with
    | 0 => return .inr (true, walk.scratch)
    | depth + 1 =>
        let stop ← get walk.scratch (stackOffset + depth)
        return .inl { walk with depth := depth, stop := stop }
  if walk.stop < walk.cursor then return .inr (false, walk.scratch)
  let (read, scratch) ← tryRead input walk.cursor (walk.stop - walk.cursor) walk.scratch scratchOffset true
  if ¬read then return .inr (false, scratch)
  let next ← get scratch (scratchOffset + 4)
  let tag ← get scratch (scratchOffset + 0)
  let valueOffset ← get scratch (scratchOffset + 2)
  let valueLength ← get scratch (scratchOffset + 3)
  if isConstructed tag ∧ 0 < valueLength then
    if stackLength ≤ walk.depth then return .inr (false, scratch)
    let scratch ← set scratch (stackOffset + walk.depth) walk.stop
    return .inl ⟨walk.depth + 1, valueOffset, next, scratch⟩
  return .inl { walk with cursor := next, scratch := scratch }

/-- A round opens an object, passes one or closes one, so the bytes bound the rounds. -/
def tryValidate (input : List Byte) (offset length : Int) (scratch : List Int) (scratchOffset scratchLength : Int) :
    Run (Bool × List Int) :=
  if ¬contains input.length offset length ∨ ¬contains scratch.length scratchOffset scratchLength ∨
      scratchLength < resultSize + 1 then pure (false, scratch)
  else
    loop (validateStep input scratchOffset (scratchOffset + resultSize) (scratchLength - resultSize))
      (length.toNat + 1) ⟨0, offset, offset + length, scratch⟩

/-- Compare what is left of two encodings, byte by byte. -/
def compareBytes (input : List Byte) (left right : Int) (otherwise : Int) : Nat → Run Int
  | 0 => pure otherwise
  | common + 1 => do
      let difference := ((← get input left).toNat : Int) - (← get input right).toNat
      if difference ≠ 0 then pure difference
      else compareBytes input (left + 1) (right + 1) otherwise common

def compareEncoded (input : List Byte) (leftOffset leftLength rightOffset rightLength : Int) : Run Int :=
  compareBytes input leftOffset rightOffset (leftLength - rightLength) (min leftLength rightLength).toNat

/-- Where the check of the order stands. -/
structure Order where
  cursor : Int
  previousOffset : Int
  previousLength : Int
  scratch : List Int

def orderStep (input : List Byte) (scratchOffset stop : Int) (order : Order) : Run (Order ⊕ (Bool × List Int)) := do
  if stop ≤ order.cursor then return .inr (order.cursor = stop, order.scratch)
  let (read, scratch) ← tryRead input order.cursor (stop - order.cursor) order.scratch scratchOffset true
  if ¬read then return .inr (false, scratch)
  let next ← get scratch (scratchOffset + 4)
  let currentLength := next - order.cursor
  if 0 ≤ order.previousOffset then
    let difference ← compareEncoded input order.previousOffset order.previousLength order.cursor currentLength
    if 0 < difference then return .inr (false, scratch)
  return .inl ⟨next, order.cursor, currentLength, scratch⟩

def canonicalSetOfOrder (input : List Byte) (offset length : Int) (scratch : List Int) (scratchOffset : Int) :
    Run (Bool × List Int) :=
  loop (orderStep input scratchOffset (offset + length)) (length.toNat + 1) ⟨offset, -1, 0, scratch⟩

end Validation

namespace Der

def integerTag : Int := 0x02

def bitStringTag : Int := 0x03

def octetStringTag : Int := 0x04

def objectIdentifierTag : Int := 0x06

def sequenceTag : Int := 0x30

def setTag : Int := 0x31

/-- How many bytes an integer takes. -/
def integerLength (value : Int) : Int :=
  if -128 ≤ value ∧ value ≤ 127 then 1
  else if -32768 ≤ value ∧ value ≤ 32767 then 2
  else if -8388608 ≤ value ∧ value ≤ 8388607 then 3
  else 4

/-- The bytes of an integer, stored from the last one to the first. -/
def putInteger (memory : Memory) (output : Nat) (destination : Int) : Nat → Int → Run Memory
  | 0, _ => pure memory
  | index + 1, remaining => do
      let memory ← memory.put output (destination + index) (UInt8.ofInt remaining)
      putInteger memory output destination index (remaining >>> (8 : Nat))

section Writers

variable (memory : Memory) (output : Nat) (offset capacity : Int)

def writeInteger (value : Int32) : Run (Int × Memory) := do
  let length := integerLength value.toInt
  let header := headerLength integerTag length
  if ¬contains (memory output).length offset capacity ∨ capacity < header + length then return (-1, memory)
  let (_, memory) ← writeHeader memory output offset capacity integerTag length
  let memory ← putInteger memory output (offset + header) length.toNat value.toInt
  return (header + length, memory)

variable (value : Nat) (valueOffset valueLength : Int)

def writeOctetString : Run (Int × Memory) :=
  write memory output offset capacity octetStringTag value valueOffset valueLength

/-- The checks of a bit string before anything is written: unused bits are zero. -/
def bitStringRefused (items : List Byte) (unusedBits valueOffset valueLength : Int) : Run Bool := do
  if ¬contains items.length valueOffset valueLength ∨ unusedBits < 0 ∨ 7 < unusedBits ∨
      valueLength = 0 ∧ unusedBits ≠ 0 then return true
  if 0 < valueLength ∧ 0 < unusedBits then
    let last := (← get items (valueOffset + valueLength - 1)).toNat
    return last &&& (1 <<< unusedBits.toNat) - 1 ≠ 0
  return false

def writeBitString (unusedBits : Int) : Run (Int × Memory) := do
  if ← bitStringRefused (memory value) unusedBits valueOffset valueLength then return (-1, memory)
  let contentLength := valueLength + 1
  let header := headerLength bitStringTag contentLength
  if ¬contains (memory output).length offset capacity ∨ capacity < header + contentLength then return (-1, memory)
  let destination := offset + header + 1
  match copy memory value valueOffset output destination valueLength with
  | (false, memory) => return (-1, memory)
  | (true, memory) =>
      let (_, memory) ← writeHeader memory output offset capacity bitStringTag contentLength
      let memory ← memory.put output (offset + header) (UInt8.ofInt unusedBits)
      return (header + contentLength, memory)

def writeObjectIdentifier : Run (Int × Memory) := do
  if ¬(← isObjectIdentifier (memory value) valueOffset valueLength) then return (-1, memory)
  write memory output offset capacity objectIdentifierTag value valueOffset valueLength

/-- The sequence of objects that need no scratch array to check. -/
def writePrimitiveSequence : Run (Int × Memory) := do
  if ¬(← isPrimitiveSequence (memory value) valueOffset valueLength) then return (-1, memory)
  write memory output offset capacity sequenceTag value valueOffset valueLength

variable (scratch : List Int) (scratchOffset scratchLength : Int)

def writeSequence : Run (Int × Memory × List Int) := do
  let (valid, scratch) ← tryValidate (memory value) valueOffset valueLength scratch scratchOffset scratchLength
  if ¬valid then return (-1, memory, scratch)
  let (written, memory) ← write memory output offset capacity sequenceTag value valueOffset valueLength
  return (written, memory, scratch)

def writeSetOf : Run (Int × Memory × List Int) := do
  let (valid, scratch) ← tryValidate (memory value) valueOffset valueLength scratch scratchOffset scratchLength
  if ¬valid then return (-1, memory, scratch)
  let (ordered, scratch) ← canonicalSetOfOrder (memory value) valueOffset valueLength scratch scratchOffset
  if ¬ordered then return (-1, memory, scratch)
  let (written, memory) ← write memory output offset capacity setTag value valueOffset valueLength
  return (written, memory, scratch)

variable (tag : Int)

def writeTaggedPrimitive : Run (Int × Memory) :=
  let tagLength := encodedTagLength tag
  if tagLength < 0 ∨ firstTagByte tag.toNat tagLength &&& 0xe0 = 0 ∨ firstTagByte tag.toNat tagLength &&& 0x20 ≠ 0 then
    pure (-1, memory)
  else write memory output offset capacity tag value valueOffset valueLength

def writeTaggedConstructed : Run (Int × Memory × List Int) := do
  let tagLength := encodedTagLength tag
  if tagLength < 0 ∨ firstTagByte tag.toNat tagLength &&& 0xc0 = 0 ∨ firstTagByte tag.toNat tagLength &&& 0x20 = 0 then
    return (-1, memory, scratch)
  let (valid, scratch) ← tryValidate (memory value) valueOffset valueLength scratch scratchOffset scratchLength
  if ¬valid then return (-1, memory, scratch)
  let (written, memory) ← write memory output offset capacity tag value valueOffset valueLength
  return (written, memory, scratch)

end Writers

end Der

end MicroCard.Tlv
