import MicroCard.Mc04.Cil

/-! The structural parser of assembly images: the header, the tables, every row, every
method body, and the calls between the methods. -/
namespace MicroCard.Mc04

open Bytes Halting

section Rows

variable (assembly : Assembly)

/-- A name of a row. -/
def stringColumn (row : Row) (required : Bool) : Checked Row := do
  let (offset, row) ← row.index assembly.stringWidth
  let value ← assembly.string offset
  refuseIf (required = true ∧ value = "") .format
  pure row

/-- A signature or a constant of a row. -/
def blobColumn (row : Row) (required : Bool) : Checked Row := do
  let (offset, row) ← row.index assembly.blobWidth
  let value ← assembly.blob offset
  refuseIf (required = true ∧ value = []) .format
  pure row

def typeAllowedFlags : Nat := 0x00100181

def typeSealed : Nat := 0x00000100

def fieldAllowedFlags : Nat := 0x0027

def methodAllowedFlags : Nat := 0x1897

/-- Whether flags are among those allowed. -/
def within (flags allowed : Nat) : Bool := flags &&& allowed = flags

def validateTypeFlags (name : String) (flags : Nat) : Checked Unit :=
  if name = "<Module>" then refuseIf (flags ≠ 0) .format
  else refuseIf (within flags typeAllowedFlags = false ∨ flags &&& typeSealed = 0) .format

/-- A type extends `System.Object`, and the module's own type nothing. -/
def validateBaseType (name : String) (extends' : Nat) : Checked Unit :=
  if name = "<Module>" ∨ extends' = 0 then refuseIf (extends' ≠ 0) .format
  else do
    refuseIf (extends' % 4 ≠ 1 ∨ extends' / 4 = 0) .format
    let base ← assembly.typeRef (extends' / 4)
    refuseIf (base.scope.table ≠ .assemblyRef ∨ base.name ≠ "Object" ∨ base.namespace' ≠ "System") .format

def validateFieldFlags (flags : Nat) : Checked Unit := refuseIf (within flags fieldAllowedFlags = false) .format

def validateMethodFlags (implementation flags : Nat) : Checked Unit :=
  refuseIf (implementation ≠ 0 ∨ within flags methodAllowedFlags = false) .format

/-- What the rows before this one have settled: where the next body starts, and the last
custom attribute. -/
structure RowState where
  nextCodeOffset : Nat
  previousAttribute : Option (Nat × Nat × Nat)

def moduleRow (row : Row) : Checked Row := stringColumn assembly row true

def typeRefRow (row : Row) : Checked Row := do
  let (scope, row) ← row.u16
  coded scope 2 resolutionScope assembly.rows false
  let row ← stringColumn assembly row true
  stringColumn assembly row false

def typeDefRow (row : Row) : Checked Row := do
  let (flags, row) ← row.u32
  let (name, row) ← row.index assembly.stringWidth
  let name ← assembly.string name
  refuseIf (name = "") .format
  validateTypeFlags name flags
  let row ← stringColumn assembly row false
  let (extends', row) ← row.u16
  coded extends' 2 typeDefOrRef assembly.rows true
  validateBaseType assembly name extends'
  let row ← tableList row (assembly.rows .field)
  tableList row (assembly.rows .methodDef)

def fieldRow (row : Row) : Checked Row := do
  let (flags, row) ← row.u16
  validateFieldFlags flags
  let row ← stringColumn assembly row true
  let (signature, row) ← row.index assembly.blobWidth
  let signature ← assembly.blob signature
  validateSignature assembly.rows signature .field
  refuseIf (signature ≠ [0x06, 0x08]) .format
  pure row

/-- The locals that the header of a body declares. -/
def headerLocals (localSignature : Nat) : Checked (Nat × List StackType) :=
  if localSignature ≠ 0 then do
    let blob ← assembly.blob localSignature
    validateSignature assembly.rows blob .locals
    let count ← localCount blob
    let types ← localTypes assembly.rows blob
    pure (count, types)
  else pure (0, [])

/-- The body of a method, and where the next one starts. -/
def validateBody (offset : Nat) (shape : MethodShape) (types : MethodTypes) : Checked Nat := do
  let code ← assembly.part .code
  let header ← CrashTriple.orFail (range? code offset (offset + 12)) .panic
  let flags ← Halting.index header 0
  let reserved ← Halting.index header 1
  let maxStack ← u16At header 2
  let last ← u16At header 10
  refuseIf (flags.toNat / 4 ≠ 0 ∨ reserved ≠ 0 ∨ maxStack = 0 ∨ 256 < maxStack ∨ last ≠ 0) .format
  let length ← u32At header 4
  let localSignature ← u16At header 8
  let (locals, localTypes) ← headerLocals assembly localSignature
  refuseIf (length = 0 ∨ code.length < offset + 12 + length) .bounds
  let body ← CrashTriple.orFail (range? code (offset + 12) (offset + 12 + length)) .panic
  CilShape.validate ⟨assembly, body, maxStack, shape.parameters + if shape.hasThis = true then 1 else 0, locals, shape.returns⟩
  CilTypes.validate ⟨assembly, body, types.receiver, types.parameters, localTypes, types.result⟩
  pure (offset + 12 + length)

def methodDefRow (index : Nat) (row : Row) (state : RowState) : Checked (Row × RowState) := do
  let (offset, row) ← row.u32
  let (implementation, row) ← row.u16
  let (flags, row) ← row.u16
  validateMethodFlags implementation flags
  let row ← stringColumn assembly row true
  let (signature, row) ← row.index assembly.blobWidth
  let signature ← assembly.blob signature
  validateSignature assembly.rows signature .method
  let shape ← methodShape assembly.rows signature
  let types ← referencedMethodTypes assembly .methodDef index
  let code ← assembly.part .code
  refuseIf (offset ≠ state.nextCodeOffset ∨ code.length < offset + 12) .bounds
  let next ← validateBody assembly offset shape types
  pure (row, { state with nextCodeOffset := next })

def memberRefRow (row : Row) : Checked Row := do
  let (parent, row) ← row.u16
  coded parent 3 memberRefParent assembly.rows false
  let row ← stringColumn assembly row true
  let (signature, row) ← row.index assembly.blobWidth
  let signature ← assembly.blob signature
  validateSignature assembly.rows signature .method
  pure row

/-- Attributes are sorted by what they are on, by their type and by their value. -/
def attributeOrder (parent attributeType : Nat) (value : List Byte) : Option (Nat × Nat × Nat) → Checked Unit
  | none => pure ()
  | some (previousParent, previousType, previousValue) => do
      refuseIf (parent < previousParent ∨ parent = previousParent ∧ attributeType < previousType) .format
      if previousParent = parent ∧ previousType = attributeType then do
        let previous ← assembly.blob previousValue
        refuseIf (value ≤ previous) .format
      else pure ()

def customAttributeRow (row : Row) (state : RowState) : Checked (Row × RowState) := do
  let (parent, row) ← row.u16
  let (attributeType, row) ← row.u16
  coded parent 5 customAttributeParent assembly.rows false
  coded attributeType 3 customAttributeType assembly.rows false
  let (valueOffset, row) ← row.index assembly.blobWidth
  let value ← assembly.blob valueOffset
  refuseIf (value = []) .format
  attributeOrder assembly parent attributeType value state.previousAttribute
  pure (row, { state with previousAttribute := some (parent, attributeType, valueOffset) })

def assemblyRow (row : Row) : Checked Row := do
  let (_, row) ← row.version
  let (_, row) ← row.u32
  stringColumn assembly row true

def assemblyRefRow (row : Row) : Checked Row := do
  let (_, row) ← row.version
  let (_, row) ← row.u32
  let row ← blobColumn assembly row false
  let row ← stringColumn assembly row true
  let row ← stringColumn assembly row false
  blobColumn assembly row false

/-- The columns of a row. Only methods and attributes depend on the rows before. -/
def rowColumns (table : Table) (index : Nat) (row : Row) (state : RowState) : Checked (Row × RowState) :=
  match table with
  | .module => (moduleRow assembly row).map fun row => (row, state)
  | .typeRef => (typeRefRow assembly row).map fun row => (row, state)
  | .typeDef => (typeDefRow assembly row).map fun row => (row, state)
  | .field => (fieldRow assembly row).map fun row => (row, state)
  | .methodDef => methodDefRow assembly index row state
  | .memberRef => (memberRefRow assembly row).map fun row => (row, state)
  | .customAttribute => customAttributeRow assembly row state
  | .assembly => (assemblyRow assembly row).map fun row => (row, state)
  | .assemblyRef => (assemblyRefRow assembly row).map fun row => (row, state)

def validateRow (table : Table) (state : RowState) (index : Nat) : Checked RowState := do
  let bytes ← assembly.row table index
  let (row, state) ← rowColumns assembly table index (Row.new bytes) state
  row.finish
  pure state

def validateTable (state : RowState) (table : Table) : Checked RowState :=
  (List.range' 1 (assembly.rows table)).foldlM (validateRow assembly table) state

end Rows

section CallGraph

/-- A depth-first search over the methods: whether a method is new, being visited or done,
and how deep the calls below it nest. -/
structure CallGraph where
  states : List Nat
  depths : List Nat

variable (assembly : Assembly)

/-- Follow a call to a method, and keep the greater depth. -/
def followCall (visit : Nat → CallGraph → Checked (Nat × CallGraph)) (code : List Byte) (offset maxDepth : Nat)
    (graph : CallGraph) : Checked (Nat × CallGraph) := do
  let row ← u16At code (offset + 2)
  refuseIf (row = 0) .bounds
  let (childDepth, graph) ← visit (row - 1) graph
  refuseIf (2 ^ 16 ≤ childDepth + 1) .quota
  refuseIf (32 < max maxDepth (childDepth + 1)) .quota
  pure (max maxDepth (childDepth + 1), graph)

/-- Whether a call goes to a method of the assembly. -/
def callsMethod (code : List Byte) (offset : Nat) : Checked Bool := do
  let first ← Halting.index code offset
  if first.toNat ∈ [0x28, 0x6f, 0x73] then do
    let table ← orRefuse code[offset + 1]? .bounds
    pure (table.toNat = Table.methodDef.id)
  else pure false

def callsStep (visit : Nat → CallGraph → Checked (Nat × CallGraph)) (code : List Byte) (state : Nat × Nat × CallGraph) :
    Checked ((Nat × Nat × CallGraph) ⊕ (Nat × CallGraph)) :=
  if state.1 < code.length then do
    let stop ← instructionEnd code state.1 assembly.rows
    let calls ← callsMethod code state.1
    if calls = true then do
      let next ← followCall visit code state.1 state.2.1 state.2.2
      pure (.inl (stop, next))
    else pure (.inl (stop, state.2))
  else pure (.inr state.2)

/-- How deep the calls from a method nest. Recursion is refused, so no more calls are
open than there are methods. -/
def visitMethod : Nat → Nat → CallGraph → Checked (Nat × CallGraph)
  | 0, _, _ => throw .endless
  | fuel + 1, index, graph => do
      let state ← orRefuse graph.states[index]? .bounds
      if state = 1 then throw (.refused .quota)
      else if state = 2 then do
        let depth ← orRefuse graph.depths[index]? .bounds
        pure (depth, graph)
      else do
        let method ← assembly.method index
        let (maxDepth, graph) ← loop (callsStep assembly (visitMethod fuel) method.code) (method.code.length + 1)
          (0, 1, ⟨graph.states.set index 1, graph.depths⟩)
        pure (maxDepth, ⟨graph.states.set index 2, graph.depths.set index maxDepth⟩)

def validateLocalCallGraph : Checked Unit := do
  let _ ← (List.range (assembly.rows .methodDef)).foldlM (fun graph index => do
    let (_, graph) ← visitMethod assembly (assembly.rows .methodDef + 1) index graph
    pure graph) ⟨List.replicate (assembly.rows .methodDef) 0, List.replicate (assembly.rows .methodDef) 0⟩
  pure ()

def validateMetadata : Checked Unit := do
  let state ← Table.all.foldlM (validateTable assembly) ⟨0, none⟩
  let code ← assembly.part .code
  refuseIf (state.nextCodeOffset ≠ code.length) .format
  validateLocalCallGraph assembly

end CallGraph

namespace Assembly

/-- One entry of the directory, and where the next section starts. -/
def readSection (bytes : List Byte) (state : (SectionKind → Section) × Nat) (kind : SectionKind) :
    Checked ((SectionKind → Section) × Nat) := do
  let at' := 16 + (kind.id - 1) * 10
  let id ← Halting.index bytes at'
  let reserved ← Halting.index bytes (at' + 1)
  refuseIf (id.toNat ≠ kind.id ∨ reserved ≠ 0) .format
  let offset ← u32At bytes (at' + 2)
  let length ← u32At bytes (at' + 6)
  refuseIf (offset ≠ state.2 ∨ bytes.length < offset + length) .format
  pure (Function.update state.1 kind ⟨offset, length⟩, offset + length)

/-- How many rows a table that is present has. -/
def readCount (tables : List Byte) (valid : Nat) (state : Rows × Nat) (table : Table) : Checked (Rows × Nat) :=
  if valid.testBit table.id = true then do
    let count ← u16At tables state.2
    refuseIf (count = 0 ∨ table.maxRows < count) .quota
    pure (Function.update state.1 table count, state.2 + 2)
  else pure state

/-- Where a table starts. -/
def placeTable (tables : List Byte) (stringWidth blobWidth : Nat) (rows : Rows) (state : (Table → Nat) × Nat) (table : Table) :
    Checked ((Table → Nat) × Nat) :=
  if rows table = 0 then pure state
  else do
    refuseIf (2 ^ 32 ≤ state.2) .quota
    let stop := state.2 + rowWidth stringWidth blobWidth rows table * rows table
    refuseIf (tables.length < stop) .format
    pure (Function.update state.1 table state.2, stop)

/-- The fixed header and the four sections after it. -/
def parseHeader (bytes : List Byte) : Checked (SectionKind → Section) := do
  refuseIf (bytes.length < 56 ∨ bytes.take 4 ≠ [0x4d, 0x43, 0x30, 0x34]) .format
  let major ← Halting.index bytes 4
  let minor ← Halting.index bytes 5
  let flags ← u16At bytes 6
  let sectionCount ← Halting.index bytes 8
  let profile ← Halting.index bytes 9
  refuseIf (major ≠ 4 ∨ minor ≠ 0 ∨ flags ≠ 0 ∨ sectionCount ≠ 4 ∨ profile ≠ 2) .format
  let headerSize ← u16At bytes 10
  let size ← u32At bytes 12
  refuseIf (headerSize ≠ 56 ∨ size ≠ bytes.length) .format
  let (sections, stop) ← SectionKind.all.foldlM (readSection bytes) (fun _ => ⟨0, 0⟩, 56)
  refuseIf (stop ≠ bytes.length) .format
  pure sections

/-- The header of the tables: the width of the two kinds of heap indices is announced
there. -/
def parseTables (bytes : List Byte) (sections : SectionKind → Section) (tables : List Byte) (stringWidth blobWidth : Nat) :
    Checked Assembly := do
  refuseIf (tables.length < 12) .format
  let major ← Halting.index tables 0
  let minor ← Halting.index tables 1
  let heaps ← Halting.index tables 2
  let reserved ← Halting.index tables 3
  refuseIf (major ≠ 2 ∨ minor ≠ 0 ∨ reserved ≠ 0 ∨ heaps.toNat / 4 ≠ 0 ∨
    ¬(heaps.toNat.testBit 0 = true ↔ stringWidth = 2) ∨ ¬(heaps.toNat.testBit 1 = true ↔ blobWidth = 2)) .format
  let valid ← u64At tables 4
  refuseIf ((List.range 64).any (fun id => valid.testBit id = true ∧ (Table.ofId id).isNone) ∨
    ¬[Table.module, .typeDef, .methodDef, .assembly].all fun table => valid.testBit table.id) .format
  let (rows, cursor) ← Table.all.foldlM (readCount tables valid) (fun _ => 0, 12)
  refuseIf (rows .module ≠ 1 ∨ rows .assembly ≠ 1) .format
  let (tableOffsets, cursor) ← Table.all.foldlM (placeTable tables stringWidth blobWidth rows) (fun _ => 0, cursor)
  refuseIf (cursor ≠ tables.length) .format
  pure ⟨bytes, sections, rows, tableOffsets, stringWidth, blobWidth⟩

def heapWidth (heap : List Byte) : Nat := if heap.length ≤ 256 then 1 else 2

def parse (bytes : List Byte) : Checked Assembly := do
  let sections ← parseHeader bytes
  let strings ← slice bytes (sections .strings)
  let blobs ← slice bytes (sections .blob)
  let code ← slice bytes (sections .code)
  validateStrings strings
  validateBlobs blobs
  refuseIf (code = []) .format
  let tables ← slice bytes (sections .tables)
  let assembly ← parseTables bytes sections tables (heapWidth strings) (heapWidth blobs)
  validateMetadata assembly
  pure assembly

end Assembly

end MicroCard.Mc04
