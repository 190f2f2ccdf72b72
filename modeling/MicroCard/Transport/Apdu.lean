import MicroCard.Card.Cbor

/-! Short command APDUs and the parts of GlobalPlatform that the transport reads. -/
namespace MicroCard.Transport

open Bytes Cbor CrashTriple

structure Command where
  cla : Byte
  ins : Byte
  p1 : Byte
  p2 : Byte
  data : List Byte
  le : Option Nat
  deriving DecidableEq, Repr

namespace Command

/-- An expected length byte; zero asks for all 256. -/
def expected (byte : Byte) : Nat := if byte = 0 then 256 else byte.toNat

def parse (raw : List Byte) : Except Error Command := do
  failIf (raw.length < 4 ∨ 261 < raw.length) .format
  let header : Command := ⟨raw.getD 0 0, raw.getD 1 0, raw.getD 2 0, raw.getD 3 0, [], none⟩
  match raw.drop 4 with
  | [] => pure header
  | [le] => pure { header with le := some (expected le) }
  | length :: rest => do
      let n := length.toNat
      failIf (n = 0 ∨ ¬(rest.length = n ∨ rest.length = n + 1)) .format
      pure { header with data := rest.take n, le := (rest.drop n).head?.map expected }

/-- Nothing is encoded that `parse` could not have produced. -/
def encode (command : Command) : Except Error (List Byte) := do
  failIf (255 < command.data.length ∨ command.le.any fun le => le = 0 ∨ 256 < le) .bounds
  let length := if command.data = [] then [] else [UInt8.ofNat command.data.length]
  pure ([command.cla, command.ins, command.p1, command.p2] ++ length ++ command.data ++
    (command.le.map UInt8.ofNat).toList)

end Command

section GlobalPlatform

def isdAid : List Byte := [0xa0, 0x00, 0x00, 0x01, 0x51, 0x00, 0x00, 0x00]

def maxAidBytes : Nat := 16

def isIsdSelect (command : Command) : Bool :=
  command.cla = 0x00 ∧ command.ins = 0xa4 ∧ command.p1 = 0x04 ∧ (command.p2 = 0x00 ∨ command.p2 = 0x0c) ∧
    (command.data = [] ∨ command.data = isdAid)

/-- The announced data ends in the `i` parameter the build implements. -/
def recognitionData (scp03I : Byte) : List Byte :=
  [0x73, 0x24, 0x06, 0x07, 0x2a, 0x86, 0x48, 0x86, 0xfc, 0x6b, 0x01, 0x60, 0x0c, 0x06, 0x0a, 0x2a,
    0x86, 0x48, 0x86, 0xfc, 0x6b, 0x02, 0x02, 0x03, 0x01, 0x64, 0x0b, 0x06, 0x09, 0x2a, 0x86, 0x48,
    0x86, 0xfc, 0x6b, 0x04, 0x03, scp03I]

def isdFci (scp03I : Byte) : List Byte :=
  [0x6f, 0x36, 0x84, 0x08] ++ isdAid ++ [0xa5, 0x2a] ++ recognitionData scp03I ++ [0x9f, 0x65, 0x01, 0xe0, 0x90, 0x00]

def cardRecognitionData (scp03I : Byte) : List Byte :=
  [0x66, UInt8.ofNat (recognitionData scp03I).length] ++ recognitionData scp03I

def getData (scp03I : Byte) (command : Command) : Option (List Byte) :=
  if command.ins ≠ 0xca ∨ command.data ≠ [] then none
  else if command.p1 = 0x00 ∧ command.p2 = 0x66 then some (cardRecognitionData scp03I)
  else none

/-- The search qualifiers behind the AID are skipped as bounded TLVs. Each of them
takes at least two bytes, so the fuel is the number of bytes. -/
def skipQualifiers : Nat → List Byte → Except Error Unit
  | _, [] => pure ()
  | 0, _ => throw .format
  | fuel + 1, tag :: rest => do
      let tagBytes := if tag &&& 0x1f = 0x1f then 2 else 1
      let valueLength ← orFail ((tag :: rest)[tagBytes]?) .format
      let next := tagBytes + 1 + valueLength.toNat
      failIf ((tag :: rest).length < next) .format
      skipQualifiers fuel ((tag :: rest).drop next)

def parseAidQualifier (data : List Byte) : Except Error (List Byte) :=
  match data with
  | tag :: length :: rest => do
      failIf (tag ≠ 0x4f) .format
      failIf (maxAidBytes < length.toNat ∨ rest.length < length.toNat) .format
      skipQualifiers rest.length (rest.drop length.toNat)
      pure (rest.take length.toNat)
  | _ => throw .format

/-- Where an enumeration of the registry stands. -/
structure StatusCursor where
  p1 : Byte
  next : Nat
  filter : List Byte
  deriving DecidableEq, Repr

namespace StatusCursor

def first (p1 p2 : Byte) (data : List Byte) : Except Error StatusCursor := do
  failIf (p1 ∉ [0x80, 0x40, 0x20, 0x10] ∨ p2 ≠ 0x02) .format
  let filter ← parseAidQualifier data
  pure ⟨p1, 0, filter⟩

def matchesNext (cursor : StatusCursor) (p1 p2 : Byte) (data : List Byte) : Bool :=
  p1 = cursor.p1 ∧ p2 = 0x03 ∧ (parseAidQualifier data).toOption = some cursor.filter

end StatusCursor

end GlobalPlatform

end MicroCard.Transport
