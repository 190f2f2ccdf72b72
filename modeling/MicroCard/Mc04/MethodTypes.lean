import MicroCard.Mc04.Assembly

/-! The types of methods, of their locals and of fields, and when types of two assemblies
are the same. -/
namespace MicroCard.Mc04

open Bytes Halting

/-- What a method takes and whether it returns a value. -/
structure MethodShape where
  hasThis : Bool
  parameters : Nat
  returns : Bool
  deriving DecidableEq

inductive SignatureKind where
  | field
  | method
  | locals
  deriving DecidableEq

section Signatures

variable (rows : Rows)

def methodShape (bytes : List Byte) : Checked MethodShape := do
  let (calling, signature) ← (Signature.new bytes).byte
  refuseIf (calling ≠ 0 ∧ calling ≠ 0x20) .format
  let (parameters, signature) ← signature.compressed
  refuseIf (2 ^ 16 ≤ parameters) .quota
  let returns := bytes[signature.offset]? ≠ some 1
  let (_, signature) ← signature.stackType rows true 0
  let (_, signature) ← signature.stackTypes rows parameters
  signature.finish
  pure ⟨calling = 0x20, parameters, returns⟩

def localCount (bytes : List Byte) : Checked Nat := do
  let (calling, signature) ← (Signature.new bytes).byte
  refuseIf (calling ≠ 0x07) .format
  let (count, _) ← signature.compressed
  refuseIf (2 ^ 16 ≤ count) .quota
  pure count

def localTypes (bytes : List Byte) : Checked (List StackType) := do
  let (calling, signature) ← (Signature.new bytes).byte
  refuseIf (calling ≠ 0x07) .format
  let (count, signature) ← signature.compressed
  refuseIf (64 < count) .quota
  let (types, signature) ← signature.stackTypes rows count
  signature.finish
  pure types

/-- What comes after the calling convention of a signature. -/
def validateTypes (kind : SignatureKind) (calling : Nat) (signature : Signature) : Checked Signature :=
  match kind with
  | .field => do
      refuseIf (calling ≠ 0x06) .format
      let (_, signature) ← signature.stackType rows false 0
      pure signature
  | .locals => do
      refuseIf (calling ≠ 0x07) .format
      let (count, signature) ← signature.compressed
      refuseIf (64 < count) .quota
      let (_, signature) ← signature.stackTypes rows count
      pure signature
  | .method => do
      refuseIf (calling ≠ 0 ∧ calling ≠ 0x20) .format
      let (count, signature) ← signature.compressed
      refuseIf (32 < count) .quota
      let (_, signature) ← signature.stackType rows true 0
      let (_, signature) ← signature.stackTypes rows count
      pure signature

def validateSignature (bytes : List Byte) (kind : SignatureKind) : Checked Unit := do
  let (calling, signature) ← (Signature.new bytes).byte
  let signature ← validateTypes rows kind calling signature
  signature.finish

end Signatures

section References

variable (assembly : Assembly)

/-- Where the signature of a method or of a member reference is. -/
def signatureOffset (table : Table) (row : Row) : Checked (Nat × Row) :=
  match table with
  | .methodDef => do
      let (_, row) ← row.u32
      let (_, row) ← row.u16
      let (_, row) ← row.u16
      let (_, row) ← row.index assembly.stringWidth
      row.index assembly.blobWidth
  | .memberRef => do
      let (_, row) ← row.u16
      let (_, row) ← row.index assembly.stringWidth
      row.index assembly.blobWidth
  | _ => throw (.refused .bounds)

def referencedMethodShape (table : Table) (index : Nat) : Checked MethodShape := do
  let bytes ← assembly.row table index
  let (offset, row) ← signatureOffset assembly table (Row.new bytes)
  row.finish
  let signature ← assembly.blob offset
  methodShape assembly.rows signature

/-- The type of a row; `System.Object` is the same wherever it comes from. -/
def metadataType (table : Table) (index : Nat) : Checked StackType :=
  match table with
  | .typeDef => pure (.ref (StackType.token .typeDef index))
  | .typeRef => do
      let bytes ← assembly.row .typeRef index
      let (_, row) ← (Row.new bytes).u16
      let (name, row) ← row.index assembly.stringWidth
      let (namespace', row) ← row.index assembly.stringWidth
      row.finish
      let name ← assembly.string name
      if name = "Object" then do
        let namespace' ← assembly.string namespace'
        pure (.ref (if namespace' = "System" then 0 else StackType.token .typeRef index))
      else pure (.ref (StackType.token .typeRef index))
  | _ => throw (.refused .bounds)

/-- The type that owns a method. -/
def definedReceiver (index : Nat) : Checked StackType := do
  let owner ← listOwner assembly .methodDef index
  metadataType assembly .typeDef owner

def methodReceiver (table : Table) (index : Nat) : Checked StackType :=
  match table with
  | .methodDef => definedReceiver assembly index
  | .memberRef => do
      let bytes ← assembly.row .memberRef index
      let (parent, _) ← (Row.new bytes).u16
      match parent % 8 with
      | 0 => metadataType assembly .typeDef (parent / 8)
      | 1 => metadataType assembly .typeRef (parent / 8)
      | 3 => definedReceiver assembly (parent / 8)
      | _ => throw (.refused .unsupported)
  | _ => throw (.refused .bounds)

def referencedMethodTypes (table : Table) (index : Nat) : Checked MethodTypes := do
  let bytes ← assembly.row table index
  let (offset, _) ← signatureOffset assembly table (Row.new bytes)
  let signature ← assembly.blob offset
  let (calling, signature) ← (Signature.new signature).byte
  refuseIf (calling ≠ 0 ∧ calling ≠ 0x20) .format
  let (count, signature) ← signature.compressed
  refuseIf (32 < count) .quota
  let (result, signature) ← signature.stackType assembly.rows true 0
  let (parameters, signature) ← signature.stackTypes assembly.rows count
  signature.finish
  let receiver ← if calling = 0x20 then (methodReceiver assembly table index).map some else pure none
  pure ⟨receiver, parameters, result⟩

/-- The type that owns a field, and the type of the field. -/
def fieldType (index : Nat) : Checked (StackType × StackType) := do
  let owner ← listOwner assembly .field index
  let owner ← metadataType assembly .typeDef owner
  let bytes ← assembly.row .field index
  let (_, row) ← (Row.new bytes).u16
  let (_, row) ← row.index assembly.stringWidth
  let (offset, _) ← row.index assembly.blobWidth
  let signature ← assembly.blob offset
  let (calling, signature) ← (Signature.new signature).byte
  refuseIf (calling ≠ 0x06) .format
  let (value, signature) ← signature.stackType assembly.rows false 0
  let value ← orRefuse value .format
  signature.finish
  pure (owner, value)

namespace Assembly

def methodTypes (index : Nat) : Checked MethodTypes := do
  let next ← orRefuse (nextIndex index) .bounds
  referencedMethodTypes assembly .methodDef next

def memberTypes (index : Nat) : Checked MethodTypes := referencedMethodTypes assembly .memberRef index

def methodLocalTypes (index : Nat) : Checked (List StackType) := do
  let method ← assembly.method index
  if method.localSignature = [] then pure [] else localTypes assembly.rows method.localSignature

end Assembly

end References

section Names

/-- Namespace and name of a type, and name and version of the assembly it is from. -/
abbrev NamedType := String × String × String × Version

/-- The name of a type. A reference whose scope is another reference takes its assembly
from there; `fuel` bounds how many of them may be followed. -/
def namedType (assembly : Assembly) : Nat → Nat → Checked NamedType
  | 0, _ => throw .endless
  | fuel + 1, token =>
      match Table.ofId (token / 2 ^ 16 % 2 ^ 8) with
      | some .typeDef => do
          let type ← assembly.typeDef (token % 2 ^ 16)
          let owner ← assembly.identity
          pure (type.namespace', type.name, owner.name, owner.version)
      | some .typeRef => do
          let type ← assembly.typeRef (token % 2 ^ 16)
          match type.scope.table with
          | .module => do
              let owner ← assembly.identity
              pure (type.namespace', type.name, owner.name, owner.version)
          | .assemblyRef => do
              let owner ← assembly.assemblyRef type.scope.row
              pure (type.namespace', type.name, owner.name, owner.version)
          | .typeRef => do
              let (_, _, name, version) ← namedType assembly fuel (StackType.token .typeRef type.scope.row)
              pure (type.namespace', type.name, name, version)
          | _ => throw (.refused .unsupported)
      | _ => throw (.refused .bounds)

variable (fuel : Nat) (leftAssembly rightAssembly : Assembly)

def sameNamedType (left right : Nat) : Checked Bool := do
  let left ← namedType leftAssembly fuel left
  let right ← namedType rightAssembly fuel right
  pure (left = right)

def sameStackType : StackType → StackType → Checked Bool
  | .int, .int => pure true
  | .null, .null => pure true
  | .array left, .array right => pure (left = right)
  | .ref left, .ref right =>
      if left = 0 ∧ right = 0 then pure true else sameNamedType fuel leftAssembly rightAssembly left right
  | .value left, .value right => sameNamedType fuel leftAssembly rightAssembly left right
  | _, _ => pure false

def sameOptional : Option StackType → Option StackType → Checked Bool
  | some left, some right => sameStackType fuel leftAssembly rightAssembly left right
  | _, _ => pure true

/-- Types in order, up to the first that differ. -/
def sameTypes : List StackType → List StackType → Checked Bool
  | left :: lefts, right :: rights => do
      let same ← sameStackType fuel leftAssembly rightAssembly left right
      if same = true then sameTypes lefts rights else pure false
  | _, _ => pure true

def sameMethodTypes (left right : MethodTypes) : Checked Bool :=
  if left.parameters.length ≠ right.parameters.length ∨ left.receiver.isSome ≠ right.receiver.isSome ∨
    left.result.isSome ≠ right.result.isSome then pure false
  else do
    let receiver ← sameOptional fuel leftAssembly rightAssembly left.receiver right.receiver
    if receiver = false then pure false
    else do
      let result ← sameOptional fuel leftAssembly rightAssembly left.result right.result
      if result = false then pure false
      else sameTypes fuel leftAssembly rightAssembly left.parameters right.parameters

end Names

end MicroCard.Mc04
