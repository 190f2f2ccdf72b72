import MicroCard.Mc04.Metadata

/-! A parsed assembly as the rest of the engine sees it: rows by index, methods, the
types in signatures, and the names that types have outside of the assembly. -/
namespace MicroCard.Mc04

open Bytes Halting

structure Assembly where
  bytes : List Byte
  sections : SectionKind → Section
  rows : Rows
  tableOffsets : Table → Nat
  stringWidth : Nat
  blobWidth : Nat

structure MethodView where
  name : String
  signature : List Byte
  localSignature : List Byte
  code : List Byte
  flags : Nat
  implementationFlags : Nat
  bodyFlags : Nat
  maxStack : Nat
  deriving DecidableEq

/-- What a method's body begins with. -/
structure BodyHeader where
  flags : Nat
  maxStack : Nat
  locals : Nat
  deriving DecidableEq

structure MemberRefView where
  parent : MetadataToken
  name : String
  signature : List Byte
  deriving DecidableEq

structure TypeRefView where
  scope : MetadataToken
  name : String
  (namespace' : String)
  deriving DecidableEq

structure AssemblyRefView where
  version : Version
  flags : Nat
  publicKeyOrToken : List Byte
  name : String
  culture : String
  hashValue : List Byte
  deriving DecidableEq

structure TypeDefView where
  name : String
  (namespace' : String)
  flags : Nat
  deriving DecidableEq

/-- `checked_add(1)` on an index of two bytes. -/
def nextIndex (index : Nat) : Option Nat := if index + 1 < 2 ^ 16 then some (index + 1) else none

/-- The four components of a version. -/
def Row.version (row : Row) : Checked (Version × Row) := do
  let (major, row) ← row.u16
  let (minor, row) ← row.u16
  let (build, row) ← row.u16
  let (revision, row) ← row.u16
  pure (#v[UInt16.ofNat major, UInt16.ofNat minor, UInt16.ofNat build, UInt16.ofNat revision], row)

namespace Assembly

variable (assembly : Assembly)

def part (kind : SectionKind) : Checked (List Byte) := slice assembly.bytes (assembly.sections kind)

def width (table : Table) : Nat := rowWidth assembly.stringWidth assembly.blobWidth assembly.rows table

def table (table : Table) : Checked (List Byte) :=
  if assembly.rows table = 0 then pure []
  else do
    let tables ← assembly.part .tables
    orRefuse (range? tables (assembly.tableOffsets table) (assembly.tableOffsets table + assembly.width table *
      assembly.rows table)) .bounds

/-- Rows count from one. -/
def row (table : Table) (row : Nat) : Checked (List Byte) := do
  refuseIf (row = 0 ∨ assembly.rows table < row) .bounds
  let rows ← assembly.table table
  orRefuse (range? rows ((row - 1) * assembly.width table) ((row - 1) * assembly.width table + assembly.width table)) .bounds

def string (offset : Nat) : Checked String := do
  let strings ← assembly.part .strings
  stringAt strings offset

def blob (offset : Nat) : Checked (List Byte) := do
  let blobs ← assembly.part .blob
  blobAt blobs offset

/-- The body of a method, with what its header of twelve bytes says. -/
def methodBody (offset : Nat) : Checked (BodyHeader × List Byte) := do
  let code ← assembly.part .code
  let header ← orRefuse (range? code offset (offset + 12)) .bounds
  let length ← u32At header 4
  let body ← orRefuse (range? code (offset + 12) (offset + 12 + length)) .bounds
  let locals ← u16At header 8
  let flags ← Halting.index header 0
  let maxStack ← u16At header 2
  pure (⟨flags.toNat, maxStack, locals⟩, body)

/-- A method by its index, which counts from zero. -/
def method (index : Nat) : Checked MethodView := do
  let next ← orRefuse (nextIndex index) .bounds
  let bytes ← assembly.row .methodDef next
  let (offset, row) ← (Row.new bytes).u32
  let (implementationFlags, row) ← row.u16
  let (flags, row) ← row.u16
  let (name, row) ← row.index assembly.stringWidth
  let (signature, row) ← row.index assembly.blobWidth
  row.finish
  let (header, body) ← assembly.methodBody offset
  let name ← assembly.string name
  let signature ← assembly.blob signature
  let localSignature ← assembly.blob header.locals
  pure ⟨name, signature, localSignature, body, flags, implementationFlags, header.flags, header.maxStack⟩

def typeDef (index : Nat) : Checked TypeDefView := do
  let bytes ← assembly.row .typeDef index
  let (flags, row) ← (Row.new bytes).u32
  let (name, row) ← row.index assembly.stringWidth
  let (namespace', row) ← row.index assembly.stringWidth
  let (_, row) ← row.u16
  let (_, row) ← row.index (indexWidth (assembly.rows .field))
  let (_, row) ← row.index (indexWidth (assembly.rows .methodDef))
  row.finish
  let name ← assembly.string name
  let namespace' ← assembly.string namespace'
  pure ⟨name, namespace', flags⟩

def memberRef (index : Nat) : Checked MemberRefView := do
  let bytes ← assembly.row .memberRef index
  let (parent, row) ← (Row.new bytes).u16
  let parent ← decodeCoded parent 3 memberRefParent
  let (name, row) ← row.index assembly.stringWidth
  let (signature, row) ← row.index assembly.blobWidth
  row.finish
  let name ← assembly.string name
  let signature ← assembly.blob signature
  pure ⟨parent, name, signature⟩

def typeRef (index : Nat) : Checked TypeRefView := do
  let bytes ← assembly.row .typeRef index
  let (scope, row) ← (Row.new bytes).u16
  let scope ← decodeCoded scope 2 resolutionScope
  let (name, row) ← row.index assembly.stringWidth
  let (namespace', row) ← row.index assembly.stringWidth
  row.finish
  let name ← assembly.string name
  let namespace' ← assembly.string namespace'
  pure ⟨scope, name, namespace'⟩

def assemblyRef (index : Nat) : Checked AssemblyRefView := do
  let bytes ← assembly.row .assemblyRef index
  let (version, row) ← (Row.new bytes).version
  let (flags, row) ← row.u32
  let (publicKeyOrToken, row) ← row.index assembly.blobWidth
  let (name, row) ← row.index assembly.stringWidth
  let (culture, row) ← row.index assembly.stringWidth
  let (hashValue, row) ← row.index assembly.blobWidth
  row.finish
  let publicKeyOrToken ← assembly.blob publicKeyOrToken
  let name ← assembly.string name
  let culture ← assembly.string culture
  let hashValue ← assembly.blob hashValue
  pure ⟨version, flags, publicKeyOrToken, name, culture, hashValue⟩

/-- What the assembly is called. -/
def identity : Checked AssemblyRefView := do
  let bytes ← assembly.row .assembly 1
  let (version, row) ← (Row.new bytes).version
  let (flags, row) ← row.u32
  let (name, row) ← row.index assembly.stringWidth
  row.finish
  let name ← assembly.string name
  pure ⟨version, flags, [], name, "", []⟩

end Assembly

section Lists

variable (assembly : Assembly)

/-- Where the fields and the methods of a type begin. -/
def typeLists (index : Nat) : Checked (Nat × Nat) := do
  let bytes ← assembly.row .typeDef index
  let (_, row) ← (Row.new bytes).u32
  let (_, row) ← row.index assembly.stringWidth
  let (_, row) ← row.index assembly.stringWidth
  let (_, row) ← row.u16
  let (fields, row) ← row.index (indexWidth (assembly.rows .field))
  let (methods, row) ← row.index (indexWidth (assembly.rows .methodDef))
  row.finish
  pure (fields, methods)

/-- Where the list of a type begins. -/
def listStart (table : Table) (index : Nat) : Checked Nat := do
  let lists ← typeLists assembly index
  pure (if table = .field then lists.1 else lists.2)

/-- Where the list of a type ends. -/
def listEnd (table : Table) (index : Nat) : Checked Nat :=
  if index = assembly.rows .typeDef then pure (assembly.rows table + 1) else listStart assembly table (index + 1)

/-- Whether a type owns a row, or the next one might. -/
def listOwnerStep (table : Table) (target index : Nat) : Checked (Nat ⊕ Nat) := do
  refuseIf (assembly.rows .typeDef < index) .bounds
  let start ← listStart assembly table index
  let stop ← listEnd assembly table index
  pure (if start ≤ target ∧ target < stop then .inr index else .inl (index + 1))

/-- The first type whose list of fields or of methods contains a row. -/
def listOwner (table : Table) (target : Nat) : Checked Nat :=
  loop (listOwnerStep assembly table target) (assembly.rows .typeDef + 1) 1

end Lists

namespace Assembly

variable (assembly : Assembly)

def methodOwner (index : Nat) : Checked Nat := do
  let next ← orRefuse (nextIndex index) .bounds
  listOwner assembly .methodDef next

def typeFieldCount (typeRow : Nat) : Checked Nat := do
  let start ← typeLists assembly typeRow
  let stop ← listEnd assembly .field typeRow
  refuseIf (stop < start.1) .format
  pure (stop - start.1)

/-- The type that has a field, and the place of the field in it. -/
def fieldLayout (fieldRow : Nat) : Checked (Nat × Nat) := do
  let owner ← listOwner assembly .field fieldRow
  let start ← typeLists assembly owner
  refuseIf (fieldRow < start.1) .format
  pure (owner, fieldRow - start.1)

end Assembly

section Types

/-- What a stack slot, an argument or a field holds. Tokens are a table and a row of it;
the token zero is `System.Object`, and one is a string. -/
inductive StackType where
  | int
  | value (token : Nat)
  | ref (token : Nat)
  | array (element : Nat)
  | null
  deriving DecidableEq

namespace StackType

def reference : StackType → Bool
  | ref _ => true
  | array _ => true
  | null => true
  | _ => false

/-- The token of a row. -/
def token (table : Table) (row : Nat) : Nat := table.id * 2 ^ 16 + row

end StackType

structure MethodTypes where
  receiver : Option StackType
  parameters : List StackType
  result : Option StackType
  deriving DecidableEq

/-- A signature, and how far it was read. -/
structure Signature where
  bytes : List Byte
  offset : Nat

namespace Signature

def new (bytes : List Byte) : Signature := ⟨bytes, 0⟩

def byte (signature : Signature) : Checked (Nat × Signature) := do
  let value ← orRefuse signature.bytes[signature.offset]? .format
  pure (value.toNat, ⟨signature.bytes, signature.offset + 1⟩)

/-- A number in one, two or four bytes, and in no more than it takes. -/
def compressed (signature : Signature) : Checked (Nat × Signature) := do
  let (first, signature) ← signature.byte
  if first < 0x80 then pure (first, signature)
  else if first < 0xc0 then do
    let (second, signature) ← signature.byte
    refuseIf (first % 0x40 * 0x100 + second < 0x80) .format
    pure (first % 0x40 * 0x100 + second, signature)
  else if first < 0xe0 then do
    let (second, signature) ← signature.byte
    let (third, signature) ← signature.byte
    let (fourth, signature) ← signature.byte
    refuseIf (first % 0x20 * 0x1000000 + second * 0x10000 + third * 0x100 + fourth < 0x4000) .format
    pure (first % 0x20 * 0x1000000 + second * 0x10000 + third * 0x100 + fourth, signature)
  else throw (.refused .format)

/-- The token of a type that a signature refers to. -/
def classToken (rows : Rows) (signature : Signature) : Checked (Nat × Signature) := do
  let (coded, signature) ← signature.compressed
  let table ← match coded % 4 with
    | 0 => pure Table.typeDef
    | 1 => pure Table.typeRef
    | _ => throw (.refused .format)
  refuseIf (coded / 4 = 0 ∨ rows table < coded / 4) .bounds
  pure (StackType.token table (coded / 4), signature)

/-- The element of an array. An array of objects takes its element from a class, which
counts as one more level. -/
def arrayType (rows : Rows) (depth : Nat) (signature : Signature) : Checked (StackType × Signature) := do
  let kind ← orRefuse signature.bytes[signature.offset]? .format
  match kind.toNat with
  | 0x04 | 0x05 => pure (.array 1, ⟨signature.bytes, signature.offset + 1⟩)
  | 0x08 | 0x09 => pure (.array 2, ⟨signature.bytes, signature.offset + 1⟩)
  | 0x0e => pure (.array 3, ⟨signature.bytes, signature.offset + 1⟩)
  | 0x1c => pure (.array 4, ⟨signature.bytes, signature.offset + 1⟩)
  | 0x12 => do
      refuseIf (8 ≤ depth + 1) .quota
      let (_, signature) ← signature.byte
      let (token, signature) ← signature.classToken rows
      pure (.array (2 ^ 28 + token), signature)
  | _ => throw (.refused .unsupported)

/-- The next type; nothing stands for the result of a method that returns none. -/
def stackType (rows : Rows) (void : Bool) (depth : Nat) (signature : Signature) : Checked (Option StackType × Signature) := do
  refuseIf (8 ≤ depth) .quota
  let (kind, signature) ← signature.byte
  match kind with
  | 0x01 => if void = true then pure (none, signature) else throw (.refused .unsupported)
  | 0x02 | 0x04 | 0x05 | 0x06 | 0x07 | 0x08 | 0x09 => pure (some .int, signature)
  | 0x0e => pure (some (.ref 1), signature)
  | 0x1c => pure (some (.ref 0), signature)
  | 0x1d => do
      let (array, signature) ← signature.arrayType rows depth
      pure (some array, signature)
  | 0x11 => do
      let (token, signature) ← signature.classToken rows
      pure (some (.value token), signature)
  | 0x12 => do
      let (token, signature) ← signature.classToken rows
      pure (some (.ref token), signature)
  | _ => throw (.refused .unsupported)

/-- The types of so many parameters or locals, none of which may be missing. -/
def stackTypes (rows : Rows) : Nat → Signature → Checked (List StackType × Signature)
  | 0, signature => pure ([], signature)
  | count + 1, signature => do
      let (first, signature) ← signature.stackType rows false 0
      let first ← orRefuse first .format
      let (rest, signature) ← stackTypes rows count signature
      pure (first :: rest, signature)

/-- Nothing may follow the last type. -/
def finish (signature : Signature) : Checked Unit := refuseIf (signature.offset ≠ signature.bytes.length) .format

end Signature

end Types

end MicroCard.Mc04
