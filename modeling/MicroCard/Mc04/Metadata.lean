import MicroCard.Library.Halting
import MicroCard.Card.CborItems
import MicroCard.Mc04.Manifest

/-! The image of an assembly: its tables, their rows, and the heaps of names and
signatures that the rows point into. -/
namespace MicroCard.Mc04

open Bytes Halting

/-- A result, a refusal, or a fault of the program that computes it. -/
abbrev Checked (α : Type) := Except (Halt Error) α

/-- Metadata tables of the profile. -/
inductive Table where
  | module
  | typeRef
  | typeDef
  | field
  | methodDef
  | memberRef
  | customAttribute
  | assembly
  | assemblyRef
  deriving DecidableEq

namespace Table

/-- In the order of their identifiers. -/
def all : List Table := [module, typeRef, typeDef, field, methodDef, memberRef, customAttribute, assembly, assemblyRef]

def id : Table → Nat
  | module => 0
  | typeRef => 1
  | typeDef => 2
  | field => 4
  | methodDef => 6
  | memberRef => 10
  | customAttribute => 12
  | assembly => 32
  | assemblyRef => 35

def ofId (id : Nat) : Option Table := all.find? fun table => table.id = id

def maxRows : Table → Nat
  | module => 1
  | typeRef => 256
  | typeDef => 253
  | field => 1022
  | methodDef => 256
  | memberRef => 256
  | customAttribute => 256
  | assembly => 1
  | assemblyRef => 17

theorem ofId_id (table : Table) : ofId table.id = some table := by
  cases table <;> rfl

theorem mem_all (table : Table) : table ∈ all := by
  cases table <;> decide

end Table

/-- How many rows each table has. -/
abbrev Rows := Table → Nat

def indexWidth (count : Nat) : Nat := if count ≤ 255 then 1 else 2

def rowWidth (stringWidth blobWidth : Nat) (rows : Rows) : Table → Nat
  | .module => stringWidth
  | .typeRef => 2 + stringWidth + stringWidth
  | .typeDef => 4 + stringWidth + stringWidth + 2 + indexWidth (rows .field) + indexWidth (rows .methodDef)
  | .field => 2 + stringWidth + blobWidth
  | .methodDef => 4 + 2 + 2 + stringWidth + blobWidth
  | .memberRef => 2 + stringWidth + blobWidth
  | .customAttribute => 2 + 2 + blobWidth
  | .assembly => 2 + 2 + 2 + 2 + 4 + stringWidth
  | .assemblyRef => 2 + 2 + 2 + 2 + 4 + blobWidth + stringWidth + stringWidth + blobWidth

section Words

/-- `bytes.get(start..stop)`. -/
def range? (bytes : List Byte) (start stop : Nat) : Option (List Byte) :=
  if start ≤ stop ∧ stop ≤ bytes.length then some ((bytes.drop start).take (stop - start)) else none

def wordAt (width : Nat) (bytes : List Byte) (offset : Nat) : Checked Nat := do
  let word ← orRefuse (range? bytes offset (offset + width)) .format
  pure (fromLE word)

def u16At (bytes : List Byte) (offset : Nat) : Checked Nat := wordAt 2 bytes offset

def u32At (bytes : List Byte) (offset : Nat) : Checked Nat := wordAt 4 bytes offset

def u64At (bytes : List Byte) (offset : Nat) : Checked Nat := wordAt 8 bytes offset

/-- The number that the bits of a 32-bit word denote in two's complement. -/
def signed32 (word : Nat) : Int := if word < 2 ^ 31 then word else (word : Int) - 2 ^ 32

def signed8 (byte : Nat) : Int := if byte < 2 ^ 7 then byte else (byte : Int) - 2 ^ 8

end Words

/-- A row, and how far it was read. -/
structure Row where
  bytes : List Byte
  offset : Nat

namespace Row

def new (bytes : List Byte) : Row := ⟨bytes, 0⟩

def word (width : Nat) (row : Row) : Checked (Nat × Row) := do
  let value ← wordAt width row.bytes row.offset
  pure (value, ⟨row.bytes, row.offset + width⟩)

def u16 (row : Row) : Checked (Nat × Row) := row.word 2

def u32 (row : Row) : Checked (Nat × Row) := row.word 4

/-- An index into a heap or a list. Widths are one or two. -/
def index (width : Nat) (row : Row) : Checked (Nat × Row) := row.word width

def finished (row : Row) : Bool := row.offset = row.bytes.length

/-- What follows the last column. -/
def finish (row : Row) : Checked Unit := refuseIf (row.finished = false) .format

end Row

section Coded

/-- An index into the rows of a list, or one past its end. -/
def tableList (row : Row) (count : Nat) : Checked Row := do
  let (index, row) ← row.index (indexWidth count)
  refuseIf (index = 0 ∨ count + 1 < index) .bounds
  pure row

/-- Check a coded index: a tag that selects a table, and a row of it. -/
def coded (value tagBits : Nat) (tables : List (Option Table)) (rows : Rows) (nil : Bool) : Checked Unit :=
  if value = 0 then refuseIf (nil = false) .bounds
  else do
    let table ← orRefuse (tables[value % 2 ^ tagBits]?).join .format
    refuseIf (value / 2 ^ tagBits = 0 ∨ rows table < value / 2 ^ tagBits) .bounds

structure MetadataToken where
  table : Table
  row : Nat
  deriving DecidableEq

def decodeCoded (value tagBits : Nat) (tables : List (Option Table)) : Checked MetadataToken := do
  refuseIf (value = 0) .bounds
  let table ← orRefuse (tables[value % 2 ^ tagBits]?).join .format
  refuseIf (value / 2 ^ tagBits = 0) .bounds
  pure ⟨table, value / 2 ^ tagBits⟩

/-- Tables that the tag of a resolution scope selects. -/
def resolutionScope : List (Option Table) := [some .module, none, some .assemblyRef, some .typeRef]

def typeDefOrRef : List (Option Table) := [some .typeDef, some .typeRef, none, none]

def memberRefParent : List (Option Table) := [some .typeDef, some .typeRef, none, some .methodDef, none, none, none, none]

def customAttributeParent : List (Option Table) :=
  [some .methodDef, some .field, some .typeRef, some .typeDef, none, none, some .memberRef, some .module, none, none, none,
    none, none, none, some .assembly, some .assemblyRef, none, none, none, none, none, none, none, none, none, none, none,
    none, none, none, none, none]

def customAttributeType : List (Option Table) :=
  [none, none, some .methodDef, some .memberRef, none, none, none, none]

end Coded

structure Section where
  offset : Nat
  length : Nat
  deriving DecidableEq

inductive SectionKind where
  | tables
  | strings
  | blob
  | code
  deriving DecidableEq

namespace SectionKind

def all : List SectionKind := [tables, strings, blob, code]

def id : SectionKind → Nat
  | tables => 1
  | strings => 2
  | blob => 3
  | code => 4

end SectionKind

section Heaps

def slice (bytes : List Byte) (part : Section) : Checked (List Byte) :=
  orRefuse (range? bytes part.offset (part.offset + part.length)) .format

/-- Every name ends at a zero byte, none is empty, and the heap starts with the name that
is. -/
def validateStrings (bytes : List Byte) : Checked Unit := do
  refuseIf (bytes.head? ≠ some 0 ∨ bytes.getLast? ≠ some 0) .format
  (bytes.tail.splitOn 0).dropLast.forM fun text => refuseIf (text = [] ∨ (Cbor.fromUtf8 text).isNone) .format

/-- The name at an offset, which has to be where a name starts. -/
def stringAt (bytes : List Byte) (offset : Nat) : Checked String :=
  if offset = 0 then pure ""
  else do
    refuseIf (bytes.length ≤ offset ∨ bytes[offset - 1]? ≠ some 0) .bounds
    refuseIf (0 ∉ bytes.drop offset) .format
    orRefuse (Cbor.fromUtf8 ((bytes.drop offset).takeWhile fun b => b ≠ 0)) .format

/-- The length of the prefix of a signature, and the length that it announces. -/
def blobPrefix (bytes : List Byte) (cursor : Nat) : Checked (Nat × Nat) := do
  let first ← Halting.index bytes cursor
  if first.toNat < 0x80 then pure (1, first.toNat)
  else if first.toNat < 0xc0 then do
    let second ← orRefuse bytes[cursor + 1]? .format
    pure (2, first.toNat % 0x40 * 0x100 + second.toNat)
  else throw (.refused .format)

/-- One signature further. -/
def validateBlob (bytes : List Byte) (cursor : Nat) : Checked (Nat ⊕ Unit) :=
  if bytes.length ≤ cursor then pure (.inr ())
  else do
    let (header, length) ← blobPrefix bytes cursor
    refuseIf (header = 2 ∧ length < 128) .format
    refuseIf (bytes.length < cursor + (header + length)) .format
    pure (.inl (cursor + (header + length)))

def validateBlobs (bytes : List Byte) : Checked Unit := do
  refuseIf (bytes.head? ≠ some 0) .format
  loop (validateBlob bytes) (bytes.length + 1) 1

/-- The signature at an offset, or the next one. -/
def blobAtStep (bytes : List Byte) (target cursor : Nat) : Checked (Nat ⊕ List Byte) :=
  if bytes.length ≤ cursor then throw (.refused .bounds)
  else do
    let (header, length) ← blobPrefix bytes cursor
    refuseIf (bytes.length < cursor + header + length) .format
    if cursor = target then pure (.inr ((bytes.drop (cursor + header)).take length))
    else do
      refuseIf (target < cursor) .bounds
      pure (.inl (cursor + header + length))

/-- The signature at an offset, which has to be where one starts. -/
def blobAt (bytes : List Byte) (offset : Nat) : Checked (List Byte) :=
  if offset = 0 then pure [] else loop (blobAtStep bytes offset) (bytes.length + 1) 1

end Heaps

end MicroCard.Mc04
