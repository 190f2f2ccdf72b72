import MicroCard.Library.Buffers
import MicroCard.Library.Bytes

/-! Signatures as a pair of positive integers. The two curves have one encoder and one
decoder each, which differ in the width of a scalar and in the largest encoding. -/
namespace MicroCard.Der.Ecdsa

open Bytes Halting Buffers Slices

/-- A computation of the codecs. A decoder returns no reason when it refuses. -/
abbrev Run (α : Type) := Except (Halt Unit) α

/-- `raw.chunks_exact(width)`. -/
def chunksExact (raw : List Byte) (width : Nat) : List (List Byte) :=
  (List.range (raw.length / width)).map fun i => slice raw (i * width) width

section Encoding

/-- One scalar behind the cursor. The byte that a padding skips was cleared before. -/
def encodeScalar (width : Nat) (output : List Byte) (cursor : Nat) (scalar : List Byte) : Run (List Byte × Nat) := do
  let first := (scalar.findIdx? (· ≠ 0)).getD (width - 1)
  let scalar ← behind scalar first
  let lead ← index scalar 0
  let padding := if lead &&& 0x80 ≠ 0 then 1 else 0
  let output ← store output cursor 2
  let output ← store output (cursor + 1) (UInt8.ofNat (scalar.length + padding))
  let cursor := cursor + 2 + padding
  let output ← copyInto output cursor scalar
  return (output, cursor + scalar.length)

/-- The encoded length, and the output that holds the encoding. -/
def encodeWith (width : Nat) (raw output : List Byte) : Run (Nat × List Byte) := do
  let output := List.replicate output.length 0
  let output ← store output 0 0x30
  let (output, cursor) ← (chunksExact raw width).foldlM (fun (output, cursor) scalar => encodeScalar width output cursor scalar)
    (output, 2)
  let output ← store output 1 (UInt8.ofNat (cursor - 2))
  return (cursor, output)

def encode (raw : Vector Byte 64) (output : Vector Byte 72) : Run (Nat × List Byte) :=
  encodeWith 32 raw.toList output.toList

def encodeP384 (raw : Vector Byte 96) (output : Vector Byte 104) : Run (Nat × List Byte) :=
  encodeWith 48 raw.toList output.toList

end Encoding

section Decoding

/-- The scalar behind the cursor, in its full width, and the cursor behind it. -/
def decodeScalar (width : Nat) (input : List Byte) (cursor : Nat) : Run (List Byte × Nat) := do
  refuseIf (input[cursor]? ≠ some 2) ()
  let length := (← orRefuse input[cursor + 1]? ()).toNat
  let cursor := cursor + 2
  refuseIf (¬(1 ≤ length ∧ length ≤ width + 1)) ()
  refuseIf (input.length < cursor + length) ()
  let encoded := slice input cursor length
  let cursor := cursor + length
  let lead ← index encoded 0
  refuseIf (lead &&& 0x80 ≠ 0) ()
  let value ←
    if 1 < encoded.length ∧ lead = 0 then do
      let next ← index encoded 1
      refuseIf (next &&& 0x80 = 0) ()
      behind encoded 1
    else pure encoded
  refuseIf (width < value.length) ()
  let scalar ← copyInto (List.replicate width 0) (width - value.length) value
  return (scalar, cursor)

/-- The two scalars of an encoding of at most `limit` bytes. -/
def decodeWith (width limit : Nat) (input : List Byte) : Run (List Byte) := do
  refuseIf (¬(8 ≤ input.length ∧ input.length ≤ limit)) ()
  refuseIf ((← index input 0) ≠ 0x30) ()
  refuseIf ((← index input 1).toNat ≠ input.length - 2) ()
  let (output, cursor) ← (List.range 2).foldlM (fun (output, cursor) _ => do
    let (scalar, cursor) ← decodeScalar width input cursor
    return (output ++ scalar, cursor)) ([], 2)
  refuseIf (cursor ≠ input.length) ()
  return output

def decode (input : List Byte) : Run (List Byte) := decodeWith 32 72 input

def decodeP384 (input : List Byte) : Run (List Byte) := decodeWith 48 104 input

end Decoding

end MicroCard.Der.Ecdsa
