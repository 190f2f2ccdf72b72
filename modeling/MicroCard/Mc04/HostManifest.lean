import MicroCard.Library.Followers
import MicroCard.Mc04.ManifestCborSpec

/-! The manifest encoder of the build, over a JSON value: what it checks of the value, and
the bytes it puts out. -/
namespace MicroCard.Mc04.HostManifest

open Bytes Cbor Codec

section Elements

/-- A JSON value. A number is kept as its digits; of two members with one name the last
counts. -/
inductive Json where
  | null
  | boolean (value : Bool)
  | number (token : List Char)
  | string (value : String)
  | array (items : List Json)
  | object (members : List (String × Json))

namespace Json

def getProperty (name : String) : Json → Option Json
  | object members => (members.reverse.find? fun member => member.1 = name).map Prod.snd
  | _ => none

def enumerateArray : Json → Option (List Json)
  | array items => some items
  | _ => none

def getArrayLength (json : Json) : Option Nat := json.enumerateArray.map List.length

def getString : Json → Option String
  | string value => some value
  | _ => none

def getBoolean : Json → Option Bool
  | boolean value => some value
  | _ => none

/-- The number that digits alone stand for. -/
def parseDigits (token : List Char) : Option Nat :=
  if token ≠ [] ∧ token.all (fun c => '0' ≤ c ∧ c ≤ '9') then
    some (token.foldl (fun value c => value * 10 + (c.toNat - 48)) 0)
  else none

/-- A number without a sign, below a limit. -/
def getUnsigned (limit : Nat) : Json → Option Nat
  | number token => do
      let value ← parseDigits token
      guard (value < limit)
      pure value
  | _ => none

def getUInt64 (json : Json) : Option Nat := json.getUnsigned (2 ^ 64)

def getUInt16 (json : Json) : Option UInt16 := (json.getUnsigned (2 ^ 16)).map UInt16.ofNat

def getByte (json : Json) : Option Byte := (json.getUnsigned (2 ^ 8)).map UInt8.ofNat

end Json

end Elements

section Texts

/-- The UTF-16 units of a character. -/
def units (c : Char) : List UInt16 :=
  if c.toNat < 0x10000 then [UInt16.ofNat c.toNat]
  else [UInt16.ofNat (0xd800 + (c.toNat - 0x10000) / 1024), UInt16.ofNat (0xdc00 + (c.toNat - 0x10000) % 1024)]

def utf16 (text : String) : List UInt16 := text.toList.flatMap units

def isAlphaNumeric (value : UInt16) : Bool :=
  0x41 ≤ value ∧ value ≤ 0x5a ∨ 0x61 ≤ value ∧ value ≤ 0x7a ∨ 0x30 ≤ value ∧ value ≤ 0x39

def isValid (value : List UInt16) : Bool :=
  if value.length < 1 ∨ 64 < value.length ∨ isAlphaNumeric (value.headD 0) = false then false
  else value.all fun character => isAlphaNumeric character || character = 0x2e || character = 0x5f || character = 0x2d

/-- `Encoding.ASCII.GetBytes`. -/
def ascii (text : List UInt16) : List Byte := text.map fun unit => if unit < 0x80 then unit.toUInt8 else 0x3f

/-- `char.IsAsciiHexDigitUpper`. -/
def isHexDigitUpper (c : UInt16) : Bool := 0x30 ≤ c ∧ c ≤ 0x39 ∨ 0x41 ≤ c ∧ c ≤ 0x46

def hexValue (c : UInt16) : Option Byte :=
  if 0x30 ≤ c ∧ c ≤ 0x39 then some (c - 0x30).toUInt8
  else if 0x41 ≤ c ∧ c ≤ 0x46 then some (c - 0x41 + 10).toUInt8
  else if 0x61 ≤ c ∧ c ≤ 0x66 then some (c - 0x61 + 10).toUInt8
  else none

/-- `Convert.FromHexString`. -/
def fromHexString : List UInt16 → Option (List Byte)
  | [] => some []
  | [_] => none
  | high :: low :: rest => do
      let high ← hexValue high
      let low ← hexValue low
      let others ← fromHexString rest
      pure ((high <<< 4 ||| low) :: others)

end Texts

section Encoding

/-- The initial byte, and the last bytes of the number at its full width. -/
def writeArgument (major value : Nat) : Output PUnit :=
  let (additional, length) :=
    if value < 24 then (value, 0)
    else if value ≤ 0xff then (24, 1)
    else if value ≤ 0xffff then (25, 2)
    else if value ≤ 0xffffffff then (26, 4)
    else (27, 8)
  tell (UInt8.ofNat (major <<< 5 ||| additional) :: (toBE 8 value).drop (8 - length))

def array (count : Nat) : Output PUnit := writeArgument 4 count

def number (number : Json) : Output PUnit := do
  let value ← number.getUInt64
  writeArgument 0 value

def bytes (bytes : List Byte) : Output PUnit := do
  writeArgument 2 bytes.length
  tell bytes

def text (text : Json) : Output PUnit := do
  let name ← text.getString
  (guard (isValid (utf16 name)) : Option Unit)
  writeArgument 3 (ascii (utf16 name)).length
  tell (ascii (utf16 name))

def binary (json : Json) (length : Nat) : Output PUnit := do
  let items ← json.enumerateArray
  let raw ← (items.mapM Json.getByte : Option (List Byte))
  (guard (raw.length = length) : Option Unit)
  bytes raw

def version (version : Json) : Output PUnit := do
  let parts ← version.enumerateArray
  (guard (parts.length = 4) : Option Unit)
  array 4
  parts.forM fun part => do
    let part ← part.getUInt16
    writeArgument 0 part.toNat

def optional (write : Json → Output PUnit) : Json → Output PUnit
  | .null => tell [0xf6]
  | item => write item

def boolean (item : Json) : Output PUnit := do
  let value ← item.getBoolean
  tell [if value then 0xf5 else 0xf4]

/-- A member that is an array of no more than so many items. -/
def collection (value : Json) (name : String) (maximum : Nat) : Option Json := do
  let collection ← value.getProperty name
  let length ← collection.getArrayLength
  guard (length ≤ maximum)
  pure collection

/-- The number of items, and each of them. -/
def records (write : Json → Output PUnit) (collection : Json) : Output PUnit := do
  let items ← collection.enumerateArray
  array items.length
  items.forM write

def dependencyExport (export' : Json) : Output PUnit := do
  array 2
  number (← export'.getProperty "access")
  optional (fun item => binary item 32) (← export'.getProperty "key")

def aid (text : Json) : Output PUnit := do
  let aid ← text.getString
  (guard (¬((utf16 aid).length < 10 ∨ 32 < (utf16 aid).length ∨ (utf16 aid).length % 2 ≠ 0 ∨
    (utf16 aid).any fun c => !isHexDigitUpper c)) : Option Unit)
  let raw ← fromHexString (utf16 aid)
  bytes raw

def entry (entry : Json) : Output PUnit := do
  array 6
  aid (← entry.getProperty "aid")
  number (← entry.getProperty "process")
  ["install", "uninstall", "select", "deselect"].forM fun field => do
    optional number (← entry.getProperty field)

def range (range : Json) : Output PUnit := do
  array 4
  optional version (← range.getProperty "min")
  boolean (← range.getProperty "min_inclusive")
  optional version (← range.getProperty "max")
  boolean (← range.getProperty "max_inclusive")

def dependency (dependency : Json) : Output PUnit := do
  array 6
  text (← dependency.getProperty "assembly")
  let ranges ← dependency.getProperty "ranges"
  let count ← ranges.getArrayLength
  (guard (1 ≤ count ∧ count ≤ 8) : Option Unit)
  records range ranges
  number (← dependency.getProperty "package_version")
  optional (fun item => binary item 32) (← dependency.getProperty "signer")
  optional (fun item => binary item 32) (← dependency.getProperty "digest")
  number (← dependency.getProperty "scope")

def declaration (declaration : Json) : Output PUnit := do
  array 3
  number (← declaration.getProperty "key")
  number (← declaration.getProperty "kind")
  number (← declaration.getProperty "max_bytes")

def limits (limits : Json) : Output PUnit := do
  array 4
  ["arena", "stack", "frames", "instructions"].forM fun field => do
    number (← limits.getProperty field)

def fields (value : Json) : Output PUnit := do
  array 12
  writeArgument 0 1
  text (← value.getProperty "domain")
  binary (← value.getProperty "incarnation") 16
  text (← value.getProperty "assembly")
  version (← value.getProperty "assembly_version")
  number (← value.getProperty "version")
  dependencyExport (← value.getProperty "export")
  records entry (← collection value "entry_points" 4)
  records dependency (← collection value "dependencies" 16)
  let capabilities ← collection value "capabilities" 35
  binary capabilities (← capabilities.getArrayLength)
  records declaration (← collection value "storage" 64)
  limits (← value.getProperty "limits")

/-- `ManifestCbor.Encode`. Nothing leaves the encoder when any part is refused. -/
def encode (value : Json) : Option (List Byte) := do
  let (_, output) ← (fields value).run
  guard (output.length ≤ 16384)
  pure output

end Encoding

end MicroCard.Mc04.HostManifest
