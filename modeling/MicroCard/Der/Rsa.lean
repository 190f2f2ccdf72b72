import MicroCard.Library.Buffers
import MicroCard.Library.Bytes

/-! Key pairs as sequences of positive integers. The writer measures the integers first and
stores them behind one another afterwards; the reader takes them one by one. -/
namespace MicroCard.Der.Rsa

open Bytes Halting Buffers Slices

inductive Error where
  | invalidLength
  deriving DecidableEq, Repr

/-- A computation of the writer. -/
abbrev Run (α : Type) := Except (Halt Error) α

/-- A computation of the reader, which gives no reason when it refuses. -/
abbrev Parse (α : Type) := Except (Halt Unit) α

/-- The components of a pair, each in an array of its largest size. -/
structure KeyPairComponents where
  modulus : Vector Byte 256
  publicExponent : Vector Byte 3
  privateExponent : Vector Byte 256
  p : Vector Byte 128
  q : Vector Byte 128
  dp : Vector Byte 128
  dq : Vector Byte 128
  qInverse : Vector Byte 128

section Writing

/-- The bytes behind the leading zeros. The index of the last byte is taken whether or not
it is used. -/
def magnitude (bytes : List Byte) : Run (List Byte) := do
  if bytes.length = 0 then throw .panic
  let first := (bytes.findIdx? (· ≠ 0)).getD (bytes.length - 1)
  behind bytes first

def lengthBytes (length : Nat) : Nat := if length < 128 then 1 else if length < 256 then 2 else 3

def signPad (lead : Byte) : Nat := if lead &&& 0x80 ≠ 0 then 1 else 0

def integerSize (bytes : List Byte) : Run Nat := do
  let bytes ← magnitude bytes
  let length := bytes.length + signPad (← index bytes 0)
  return 1 + lengthBytes length + length

/-- A length at the position, and the position behind it. -/
def putLength (output : List Byte) (position length : Nat) : Run (List Byte × Nat) :=
  if length < 128 then do
    let output ← store output position (UInt8.ofNat length)
    return (output, position + 1)
  else if length < 256 then do
    let output ← copyInto output position [0x81, UInt8.ofNat length]
    return (output, position + 2)
  else do
    let output ← copyInto output position [0x82, UInt8.ofNat (length >>> 8), UInt8.ofNat length]
    return (output, position + 3)

def putInteger (output : List Byte) (position : Nat) (bytes : List Byte) : Run (List Byte × Nat) := do
  let bytes ← magnitude bytes
  let output ← store output position 2
  let position := position + 1
  let lead ← index bytes 0
  let (output, position) ← putLength output position (bytes.length + signPad lead)
  let (output, position) ←
    if lead &&& 0x80 ≠ 0 then do
      let output ← store output position 0
      pure (output, position + 1)
    else pure (output, position)
  let output ← copyInto output position bytes
  return (output, position + bytes.length)

/-- The length of the encoding, and the output that holds it. -/
def encodeSequence (output : List Byte) (integers : List (List Byte)) : Run (Nat × List Byte) := do
  let sizes ← integers.mapM integerSize
  let body := sizes.sum
  let total := 1 + lengthBytes body + body
  refuseIf (output.length < total) .invalidLength
  let output ← store output 0 0x30
  let (output, position) ← putLength output 1 body
  let (output, _) ← integers.foldlM (fun (output, position) bytes => putInteger output position bytes) (output, position)
  return (total, output)

namespace KeyPairComponents

variable (pair : KeyPairComponents)

/-- The integers of the public key. -/
def publicIntegers (bits : Nat) : List (List Byte) := [pair.modulus.toList.take (bits / 8), pair.publicExponent.toList]

/-- The integers of the private key, behind a version. -/
def privateIntegers (bits : Nat) : List (List Byte) :=
  let full := bits / 8
  let half := bits / 16
  [[0], pair.modulus.toList.take full, pair.publicExponent.toList, pair.privateExponent.toList.take full,
    pair.p.toList.take half, pair.q.toList.take half, pair.dp.toList.take half, pair.dq.toList.take half,
    pair.qInverse.toList.take half]

def encodePublicDer (bits : Nat) (output : List Byte) : Run (Nat × List Byte) := do
  refuseIf (¬(bits = 1024 ∨ bits = 2048)) .invalidLength
  encodeSequence output (pair.publicIntegers bits)

def encodePrivateDer (bits : Nat) (output : List Byte) : Run (Nat × List Byte) := do
  refuseIf (¬(bits = 1024 ∨ bits = 2048)) .invalidLength
  encodeSequence output (pair.privateIntegers bits)

end KeyPairComponents

end Writing

section Reading

/-- The value of an object with the tag, and the offset behind it. -/
def item (bytes : List Byte) (offset : Nat) (tag : Byte) : Parse (List Byte × Nat) := do
  refuseIf ((← orRefuse bytes[offset]? ()) ≠ tag) ()
  let offset := offset + 1
  let first ← orRefuse bytes[offset]? ()
  let offset := offset + 1
  let (len, offset) ←
    if first.toNat < 0x80 then pure (first.toNat, offset)
    else do
      let count := (first &&& 0x7f).toNat
      refuseIf (count = 0 ∨ 2 < count) ()
      refuseIf ((← orRefuse bytes[offset]? ()) = 0) ()
      let (value, offset) ← (List.range count).foldlM (fun (value, offset) _ => do
        let byte ← orRefuse bytes[offset]? ()
        return (value * 256 + byte.toNat, offset + 1)) (0, offset)
      refuseIf (value < 128) ()
      pure (value, offset)
  let stop := offset + len
  refuseIf (bytes.length < stop) ()
  return (slice bytes offset len, stop)

/-- The number of an integer that is minimal and positive. -/
def integer (bytes : List Byte) (offset : Nat) : Parse (List Byte × Nat) := do
  let (value, offset) ← item bytes offset 0x02
  match value with
  | [] => throw (.refused ())
  | first :: tail =>
      if first = 0 then
        match tail with
        | [] => throw (.refused ())
        | next :: _ => if next.toNat < 0x80 then throw (.refused ()) else pure (tail, offset)
      else if first &&& 0x80 = 0 then pure (value, offset)
      else throw (.refused ())

def sequence (bytes : List Byte) : Parse (List Byte) := do
  let (value, offset) ← item bytes 0 0x30
  refuseIf (offset ≠ bytes.length) ()
  return value

def publicParts (der : List Byte) : Parse (List Byte × List Byte) := do
  let body ← sequence der
  let (n, offset) ← integer body 0
  let (e, offset) ← integer body offset
  refuseIf (offset ≠ body.length) ()
  return (n, e)

/-- The parts of a private key that signatures use. -/
structure PrivateParts where
  n : List Byte
  e : List Byte
  d : List Byte
  p : List Byte
  q : List Byte
  deriving DecidableEq

def privateParts (der : List Byte) : Parse PrivateParts := do
  let body ← sequence der
  let (version, offset) ← item body 0 0x02
  refuseIf (version ≠ [0]) ()
  let (n, offset) ← integer body offset
  let (e, offset) ← integer body offset
  let (d, offset) ← integer body offset
  let (p, offset) ← integer body offset
  let (q, offset) ← integer body offset
  let offset ← (List.range 3).foldlM (fun offset _ => do
    let (_, offset) ← integer body offset
    return offset) offset
  refuseIf (offset ≠ body.length) ()
  return { n, e, d, p, q }

end Reading

end MicroCard.Der.Rsa
