import MicroCard.Mc04.FrameworkAbi
import MicroCard.Mc04.NativeAbi
import MicroCard.Mc04.Parse

/-! What an assembly imports: the members that its methods call, and which of them are the
framework's. -/
namespace MicroCard.Mc04

open Bytes Halting

/-- A member of the framework that an assembly calls. -/
inductive Import where
  | objectConstructor
  | currentDomain
  | domainStorage
  | domainKeys
  | native (id : UInt8)
  deriving DecidableEq

section Framework

variable (assembly : Assembly)

/-- `is_ok_and`. -/
def isOkAnd {α : Type} (x : Checked α) (p : α → Bool) : Bool :=
  match x with
  | .ok a => p a
  | .error _ => false

/-- Whether a type is a reference to a type with that name, wherever it is from. -/
def reference (value : Option StackType) (namespace' name : String) : Bool :=
  match value with
  | some (.ref token) => Table.ofId (token / 2 ^ 16 % 2 ^ 8) = some .typeRef &&
      isOkAnd (assembly.typeRef (token % 2 ^ 16)) fun type => type.namespace' = namespace' && type.name = name
  | _ => false

def abiType (value : Option StackType) (expected : AbiType) : Bool :=
  match expected with
  | .bool | .int32 => value = some .int
  | .byteArray => value = some (.array 1)
  | .int32Array => value = some (.array 2)
  | .reference fullName =>
      match rsplitOnce fullName with
      | some (namespace', name) => reference assembly value namespace' name
      | none => false

/-- Whether the types of a call are those of a member of the framework. -/
def exact (types : MethodTypes) (member : Member) : Bool :=
  types.receiver.isSome = member.receiver && types.parameters.length = member.parameters.length &&
    (member.parameters.zip types.parameters).all (fun pair => abiType assembly (some pair.2) pair.1) &&
    (match member.result with
      | some expected => abiType assembly types.result expected
      | none => types.result.isNone) &&
    (member.receiver = false || reference assembly types.receiver member.namespace' member.owner)

/-- The constructor of `System.Object`. -/
def resolveObject (index : Nat) (provider : AssemblyRefView) (owner : TypeRefView) (name : String) : Checked (Option Import) := do
  refuseIf (provider.version ≠ #v[10, 0, 0, 0] ∨ provider.flags ≠ 0 ∨ provider.publicKeyOrToken ≠ systemRuntimeToken ∨
    provider.culture ≠ "" ∨ provider.hashValue ≠ [] ∨ owner.namespace' ≠ "System" ∨ owner.name ≠ "Object" ∨ name ≠ ".ctor")
    .unauthorized
  let types ← assembly.memberTypes index
  refuseIf (types.receiver.isNone = true ∨ types.parameters ≠ [] ∨ types.result.isSome = true) .unauthorized
  pure (some .objectConstructor)

/-- A member of the framework's own assembly. -/
def resolveFramework (index : Nat) (provider : AssemblyRefView) (owner : TypeRefView) (name : String) :
    Checked (Option Import) := do
  refuseIf (provider.version ≠ #v[1, 0, 0, 0] ∨ provider.flags ≠ 0 ∨ provider.publicKeyOrToken ≠ [] ∨ provider.culture ≠ "" ∨
    provider.hashValue ≠ frameworkHash ∨ owner.namespace' ≠ frameworkNamespace) .unauthorized
  let types ← assembly.memberTypes index
  let definition ← orRefuse ((named frameworkAssembly frameworkNamespace owner.name name).find? (exact assembly types)) .unauthorized
  pure (some (match definition.lowering with
    | .native id => .native id
    | .currentDomain => .currentDomain
    | .domainKeys => .domainKeys
    | .domainStorage => .domainStorage))

/-- The member of the framework that a member reference is. A name alone does not bind: the
identity of the assembly and all types have to be the framework's. -/
def resolve (index : Nat) : Checked (Option Import) := do
  let member ← assembly.memberRef index
  if member.parent.table ≠ .typeRef then pure none
  else do
    let owner ← assembly.typeRef member.parent.row
    if owner.scope.table ≠ .assemblyRef then pure none
    else do
      let provider ← assembly.assemblyRef owner.scope.row
      if provider.name = "System.Runtime" then resolveObject assembly index provider owner member.name
      else if provider.name ≠ frameworkAssembly then pure none
      else resolveFramework assembly index provider owner member.name

end Framework

section Calls

/-- The opcodes that call a method or a constructor. -/
def callOpcodes : List Nat := [0x28, 0x6f, 0x73]

variable (rows : Rows) (code : List Byte)

/-- A member is used by one opcode only. -/
def recordUse (uses : List (Nat × Nat)) (member value : Nat) : Checked (List (Nat × Nat)) :=
  match uses.find? fun use => use.1 = member with
  | some prior => do
      refuseIf (prior.2 ≠ value) .format
      pure uses
  | none => pure (uses ++ [(member, value)])

def usesStep (state : Nat × List (Nat × Nat)) : Checked ((Nat × List (Nat × Nat)) ⊕ List (Nat × Nat)) :=
  if state.1 < code.length then do
    let (value, operand) ← opcodeAt code state.1 .panic (.refused .bounds)
    let stop ← instructionEnd code state.1 rows
    if value ∈ callOpcodes ∧ (code[operand]?).map UInt8.toNat = some Table.memberRef.id then do
      let member ← u16At code (operand + 1)
      let uses ← recordUse state.2 member value
      pure (.inl (stop, uses))
    else pure (.inl (stop, state.2))
  else pure (.inr state.2)

/-- The token behind a call, if it names a method or a member. -/
def callToken (operand : Nat) : Checked (Option MetadataToken) := do
  let table ← orRefuse code[operand]? .bounds
  match Table.ofId table.toNat with
  | some .methodDef => do
      let row ← u16At code (operand + 1)
      pure (some ⟨.methodDef, row⟩)
  | some .memberRef => do
      let row ← u16At code (operand + 1)
      pure (some ⟨.memberRef, row⟩)
  | _ => pure none

def methodCallsStep (state : Nat × List MetadataToken) : Checked ((Nat × List MetadataToken) ⊕ List MetadataToken) :=
  if state.1 < code.length then do
    let (value, operand) ← opcodeAt code state.1 .panic (.refused .bounds)
    let stop ← instructionEnd code state.1 rows
    if value ∈ callOpcodes then do
      let token ← callToken code operand
      pure (.inl (stop, state.2 ++ token.toList))
    else pure (.inl (stop, state.2))
  else pure (.inr state.2)

end Calls

namespace Assembly

variable (assembly : Assembly)

/-- The members that methods call, in the order of their rows, each with the opcode. -/
def memberRefUses : Checked (List (Nat × Nat)) := do
  let uses ← (List.range (assembly.rows .methodDef)).foldlM (fun uses index => do
    let method ← assembly.method index
    loop (usesStep assembly.rows method.code) (method.code.length + 1) (0, uses)) []
  pure (uses.insertionSort fun a b => a.1 ≤ b.1)

/-- The methods and members that a method calls. -/
def methodCalls (index : Nat) : Checked (List MetadataToken) := do
  let method ← assembly.method index
  loop (methodCallsStep assembly.rows method.code) (method.code.length + 1) (0, [])

/-- The members of the framework that methods call. -/
def frameworkImports : Checked (List (Nat × Import)) := do
  let uses ← assembly.memberRefUses
  uses.foldlM (fun imports use => do
    let import' ← resolve assembly use.1
    pure (imports ++ (import'.map fun import' => (use.1, import')).toList)) []

/-- The capability that an import needs is listed. -/
def checkCapability (capabilities : List UInt8) : Import → Checked Unit
  | .native id => refuseIf (capability id ∉ capabilities) .unauthorized
  | _ => pure ()

def validateImports (capabilities : List UInt8) : Checked Unit := do
  let imports ← assembly.frameworkImports
  imports.forM fun import' => checkCapability capabilities import'.2

/-- Public types and public methods are visible to other assemblies. -/
def externallyVisible (owner : TypeDefView) (method : MethodView) : Bool :=
  owner.flags % 8 = 1 && method.flags % 8 = 6

/-- The only visible method that a test accepts. -/
def findVisible (namespace' typeName methodName : String) (accepts : Nat → MethodView → Checked Bool) : Checked Nat := do
  let found ← (List.range (assembly.rows .methodDef)).foldlM (fun found index => do
    let owner ← assembly.methodOwner index
    let owner ← assembly.typeDef owner
    let method ← assembly.method index
    if externallyVisible owner method = true ∧ owner.namespace' = namespace' ∧ owner.name = typeName ∧
        method.name = methodName then do
      let accepted ← accepts index method
      if accepted = true then do
        refuseIf (found.isSome = true) .format
        pure (some index)
      else pure found
    else pure found) (none : Option Nat)
  orRefuse found .missing

def findMethod (namespace' typeName methodName : String) (signature : List Byte) : Checked Nat :=
  assembly.findVisible namespace' typeName methodName fun _ method => pure (method.signature = signature)

/-- The method that a member reference of another assembly means: its types are the same
by name. -/
def findMethodFor (fuel : Nat) (namespace' typeName methodName : String) (caller : Assembly) (memberIndex : Nat) :
    Checked Nat := do
  let expected ← caller.memberTypes memberIndex
  assembly.findVisible namespace' typeName methodName fun index _ => do
    let types ← assembly.methodTypes index
    sameMethodTypes fuel caller assembly expected types

/-- Entry points are static methods without parameters or a result. -/
def validateLifecycle (index : Nat) : Checked Unit := do
  let next ← orRefuse (nextIndex index) .bounds
  let bytes ← assembly.row .methodDef next
  let (_, row) ← (Row.new bytes).u32
  let (_, row) ← row.u16
  let (flags, row) ← row.u16
  let (_, row) ← row.index assembly.stringWidth
  let (_, row) ← row.index assembly.blobWidth
  refuseIf (row.finished = false ∨ flags.testBit 4 = false) .format
  let method ← referencedMethodTypes assembly .methodDef next
  refuseIf (method.receiver.isSome = true ∨ method.parameters ≠ [] ∨ method.result.isSome = true) .format

end Assembly

end MicroCard.Mc04
