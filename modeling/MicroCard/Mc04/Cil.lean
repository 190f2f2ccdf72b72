import MicroCard.Mc04.Opcodes
import MicroCard.Mc04.MethodTypes

/-! The checks of a method body: every branch goes to an instruction, the stack has one
height at each instruction, and its slots have one type. -/
namespace MicroCard.Mc04

open Bytes Halting

section Instructions

variable (rows : Rows) (code : List Byte)

/-- One instruction further, to the end of the body. -/
def sweepStep (cursor : Nat) : Checked (Nat ⊕ Nat) :=
  if cursor < code.length then do
    let stop ← instructionEnd code cursor rows
    pure (.inl stop)
  else pure (.inr cursor)

def checkTarget (stop : Nat) (delta : Int) : Checked Unit := do
  let target ← branchTarget stop delta code.length
  let started ← isInstructionStart code target rows
  refuseIf (started = false) .bounds

/-- The branches of one instruction, added to those before it. -/
def checkBranches (operand : Operand) (operandStart stop branches : Nat) : Checked Nat :=
  match operand with
  | .branchI8 => do
      let delta ← shortDelta code operandStart
      checkTarget rows code stop delta
      pure (branches + 1)
  | .branchI32 => do
      let delta ← longDelta code operandStart
      checkTarget rows code stop delta
      pure (branches + 1)
  | .switchI32 => do
      let count ← u32At code operandStart
      (List.range count).forM fun index => do
        let delta ← switchDelta code operandStart index
        checkTarget rows code stop delta
      pure (branches + count)
  | _ => pure branches

/-- One instruction further, with its branches. -/
def branchesStep (state : Nat × Nat) : Checked ((Nat × Nat) ⊕ Unit) :=
  if state.1 < code.length then do
    let (value, operandStart) ← opcodeAt code state.1 .panic .panic
    let opcode ← orRefuse (Opcode.lookup value) .unsupported
    let stop ← instructionEnd code state.1 rows
    let branches ← checkBranches rows code opcode.operand operandStart stop state.2
    refuseIf (256 < branches) .quota
    pure (.inl (stop, branches))
  else pure (.inr ())

def validateCil : Checked Unit := do
  let cursor ← loop (sweepStep rows code) (code.length + 1) 0
  refuseIf (cursor ≠ code.length) .bounds
  loop (branchesStep rows code) (code.length + 1) (0, 0)

end Instructions

section Heights

/-- The height of the stack before each instruction, as far as it is known, and the
instructions to look at. -/
structure Heights where
  states : List (Option Nat)
  pending : List Nat

def mergeHeight (heights : Heights) (target height : Nat) : Checked Heights := do
  let state ← orRefuse heights.states[target]? .bounds
  match state with
  | none => pure ⟨heights.states.set target (some height), target :: heights.pending⟩
  | some known => do
      refuseIf (known ≠ height) .format
      pure heights

/-- What is checked of a body besides its code. -/
structure CilShape where
  assembly : Assembly
  code : List Byte
  maxStack : Nat
  arguments : Nat
  locals : Nat
  returns : Bool

namespace CilShape

variable (shape : CilShape)

/-- The argument or the local that an instruction names. -/
def namedVariable (value operandStart : Nat) : Checked (Option (Bool × Nat)) :=
  if 0x02 ≤ value ∧ value ≤ 0x05 then pure (some (true, value - 0x02))
  else if 0x06 ≤ value ∧ value ≤ 0x09 then pure (some (false, value - 0x06))
  else if 0x0a ≤ value ∧ value ≤ 0x0d then pure (some (false, value - 0x0a))
  else if value = 0x0e then do
    let index ← Halting.index shape.code operandStart
    pure (some (true, index.toNat))
  else if value = 0x11 ∨ value = 0x13 then do
    let index ← Halting.index shape.code operandStart
    pure (some (false, index.toNat))
  else pure none

/-- The method that an instruction calls. A row names its table in one byte. -/
def calledShape (value operandStart : Nat) : Checked (Option MethodShape) :=
  if value = 0x28 ∨ value = 0x6f ∨ value = 0x73 then do
    let table ← Halting.index shape.code operandStart
    let index ← u16At shape.code (operandStart + 1)
    let table ← orRefuse (Table.ofId table.toNat) .bounds
    let called ← referencedMethodShape shape.assembly table index
    pure (some called)
  else pure none

def popped (opcode : Opcode) (value : Nat) (method : Option MethodShape) : Checked Nat :=
  match opcode.pop with
  | .pop0 => pure 0
  | .pop1 | .popi | .popref => pure 1
  | .pop1Pop1 | .poprefPop1 | .poprefPopi => pure 2
  | .poprefPopiPopi => pure 3
  | .varpop =>
      if value = 0x2a then pure (if shape.returns = true then 1 else 0)
      else do
        let method ← orRefuse method .format
        pure (if value = 0x73 then method.parameters else method.parameters + if method.hasThis = true then 1 else 0)

def pushed (opcode : Opcode) (method : Option MethodShape) : Checked Nat :=
  match opcode.push with
  | .push0 => pure 0
  | .push1 | .pushi | .pushref => pure 1
  | .push1Push1 => pure 2
  | .varpush => do
      let method ← orRefuse method .format
      pure (if method.returns = true then 1 else 0)

/-- The height goes to the target of a branch. -/
def mergeTarget (stop : Nat) (delta : Int) (height : Nat) (heights : Heights) : Checked Heights := do
  let target ← branchTarget stop delta shape.code.length
  mergeHeight heights target height

def mergeBranch (opcode : Opcode) (operandStart stop height : Nat) (heights : Heights) : Checked Heights :=
  match opcode.operand with
  | .branchI8 => do
      let delta ← shortDelta shape.code operandStart
      shape.mergeTarget stop delta height heights
  | .branchI32 => do
      let delta ← longDelta shape.code operandStart
      shape.mergeTarget stop delta height heights
  | .switchI32 => do
      let count ← u32At shape.code operandStart
      (List.range count).foldlM (fun heights index => do
        let delta ← switchDelta shape.code operandStart index
        shape.mergeTarget stop delta height heights) heights
  | _ => throw (.refused .format)

def mergeNext (stop height : Nat) (heights : Heights) : Checked Heights := do
  refuseIf (shape.code.length ≤ stop) .bounds
  mergeHeight heights stop height

def mergeFlow (opcode : Opcode) (value operandStart stop height : Nat) (heights : Heights) : Checked Heights :=
  match opcode.flow with
  | .return => do
      refuseIf (value ≠ 0x2a ∨ height ≠ 0) .format
      pure heights
  | .branch => shape.mergeBranch opcode operandStart stop height heights
  | .condBranch => do
      let heights ← shape.mergeBranch opcode operandStart stop height heights
      shape.mergeNext stop height heights
  | .next | .call => shape.mergeNext stop height heights

/-- The effect of one instruction on the height. -/
def visitHeight (start : Nat) (heights : Heights) : Checked Heights := do
  let state ← Halting.index heights.states start
  let height ← CrashTriple.orFail state .panic
  let (value, operandStart) ← opcodeAt shape.code start .panic .panic
  let opcode ← orRefuse (Opcode.lookup value) .unsupported
  let stop ← instructionEnd shape.code start shape.assembly.rows
  let named ← shape.namedVariable value operandStart
  refuseIf (named.any fun named => (if named.1 = true then shape.arguments else shape.locals) ≤ named.2) .bounds
  let method ← shape.calledShape value operandStart
  let popped ← shape.popped opcode value method
  refuseIf (height < popped) .format
  let pushed ← pushed opcode method
  refuseIf (shape.maxStack < height - popped + pushed) .quota
  shape.mergeFlow opcode value operandStart stop (height - popped + pushed) heights

def heightStep (heights : Heights) : Checked (Heights ⊕ Unit) :=
  match heights.pending with
  | [] => pure (.inr ())
  | start :: pending => do
      let next ← shape.visitHeight start ⟨heights.states, pending⟩
      pure (.inl next)

/-- The first instruction begins with an empty stack. -/
def validate : Checked Unit := do
  validateCil shape.assembly.rows shape.code
  let _ ← Halting.index shape.code 0
  loop shape.heightStep (shape.code.length + 2) ⟨(List.replicate shape.code.length none).set 0 (some 0), [0]⟩

end CilShape

end Heights

section Stacks

/-- Whether a value may stand where another type is asked for. -/
def compatible (actual expected : StackType) : Bool :=
  actual = expected || (actual = .null && expected.reference) ||
    match actual, expected with
    | .ref _, .ref 0 => true
    | _, _ => false

/-- The top of a stack is at the head of the list. -/
def popAny : List StackType → Checked (StackType × List StackType)
  | [] => throw (.refused .format)
  | top :: stack => pure (top, stack)

def popType (stack : List StackType) (expected : StackType) : Checked (List StackType) := do
  let (actual, stack) ← popAny stack
  refuseIf (compatible actual expected = false) .format
  pure stack

/-- Parameters leave the stack in the order opposite to their own. -/
def popParameters (stack : List StackType) (parameters : List StackType) : Checked (List StackType) :=
  parameters.reverse.foldlM popType stack

def arrayElement (assembly : Assembly) (table : Table) (index : Nat) : Checked Nat :=
  match table with
  | .typeDef => pure (2 ^ 28 + StackType.token .typeDef index)
  | .typeRef => do
      let bytes ← assembly.row .typeRef index
      let (_, row) ← (Row.new bytes).u16
      let (name, row) ← row.index assembly.stringWidth
      let (namespace', _) ← row.index assembly.stringWidth
      let namespace' ← assembly.string namespace'
      if namespace' = "System" then do
        let name ← assembly.string name
        pure (if name = "Byte" then 1 else if name = "Int32" then 2 else 2 ^ 28 + StackType.token .typeRef index)
      else pure (2 ^ 28 + StackType.token .typeRef index)
  | _ => throw (.refused .bounds)

/-- The stacks before the instructions that are reached from elsewhere, the instructions
to look at, and how many slots the stacks have together. -/
structure KnownStacks where
  states : List (Nat × List StackType)
  pending : List Nat
  cells : Nat

/-- Merge one slot; a null becomes the reference it meets. -/
def mergeSlot (stored value : StackType) : Checked StackType :=
  if stored = value then pure stored
  else if stored = .null ∧ value.reference = true then pure value
  else do
    refuseIf (value ≠ .null ∨ stored.reference = false) .format
    pure stored

def mergeStack : List StackType → List StackType → Checked (List StackType)
  | stored :: storeds, value :: values => do
      let merged ← mergeSlot stored value
      let rest ← mergeStack storeds values
      pure (merged :: rest)
  | _, _ => pure []

def KnownStacks.find (known : KnownStacks) (target : Nat) : Option (List StackType) :=
  (known.states.find? fun state => state.1 = target).map Prod.snd

/-- Replace the first stack of a target. -/
def replaceStack (target : Nat) (stack : List StackType) : List (Nat × List StackType) → List (Nat × List StackType)
  | [] => []
  | state :: states => if state.1 = target then (target, stack) :: states else state :: replaceStack target stack states

def mergeTypes (known : KnownStacks) (target : Nat) (incoming : List StackType) : Checked KnownStacks :=
  match known.find target with
  | some current => do
      refuseIf (current.length ≠ incoming.length) .format
      let merged ← mergeStack current incoming
      pure (if merged = current then known
        else ⟨replaceStack target merged known.states, target :: known.pending, known.cells⟩)
  | none => do
      refuseIf (4096 < known.cells + incoming.length ∨ 257 ≤ known.states.length) .quota
      pure ⟨known.states ++ [(target, incoming)], target :: known.pending, known.cells + incoming.length⟩

/-- What an instruction does to the types on the stack. -/
inductive TypeRule where
  | nop
  | loadArgument (index : Nat)
  | loadLocal (index : Nat)
  | storeLocal (index : Nat)
  | loadArgumentShort
  | loadLocalShort
  | storeLocalShort
  | loadNull
  | loadInt
  | dup
  | pop
  | call
  | return
  | branch (short : Bool)
  | branchTruth (short : Bool)
  | branchEqual (short : Bool)
  | branchCompare (short : Bool)
  | switch
  | binary
  | unary
  | newObject
  | loadField
  | storeField
  | newArray
  | arrayLength
  | loadElement (element : Nat)
  | storeElement (element : Nat)
  | equal
  | compare
  deriving DecidableEq

/-- Whether a value lies in one of some ranges. -/
def inRanges (ranges : List (Nat × Nat)) (value : Nat) : Bool := ranges.any fun range => range.1 ≤ value ∧ value ≤ range.2

def typeRule (value : Nat) : Option TypeRule :=
  if value = 0x00 then some .nop
  else if inRanges [(0x02, 0x05)] value then some (.loadArgument (value - 0x02))
  else if inRanges [(0x06, 0x09)] value then some (.loadLocal (value - 0x06))
  else if inRanges [(0x0a, 0x0d)] value then some (.storeLocal (value - 0x0a))
  else if value = 0x0e then some .loadArgumentShort
  else if value = 0x11 then some .loadLocalShort
  else if value = 0x13 then some .storeLocalShort
  else if value = 0x14 then some .loadNull
  else if inRanges [(0x15, 0x20)] value then some .loadInt
  else if value = 0x25 then some .dup
  else if value = 0x26 then some .pop
  else if value ∈ [0x28, 0x6f] then some .call
  else if value = 0x2a then some .return
  else if value ∈ [0x2b, 0x38] then some (.branch (value = 0x2b))
  else if value ∈ [0x2c, 0x2d, 0x39, 0x3a] then some (.branchTruth (value ∈ [0x2c, 0x2d]))
  else if value ∈ [0x2e, 0x33, 0x3b, 0x40] then some (.branchEqual (value ∈ [0x2e, 0x33]))
  else if inRanges [(0x2f, 0x32), (0x34, 0x37), (0x3c, 0x3f), (0x41, 0x44)] value then some (.branchCompare (value ≤ 0x37))
  else if value = 0x45 then some .switch
  else if inRanges [(0x58, 0x64), (0xd6, 0xdb)] value then some .binary
  else if inRanges [(0x65, 0x69), (0x6d, 0x6d), (0x82, 0x88), (0xb3, 0xb8), (0xd1, 0xd2)] value then some .unary
  else if value = 0x73 then some .newObject
  else if value = 0x7b then some .loadField
  else if value = 0x7d then some .storeField
  else if value = 0x8d then some .newArray
  else if value = 0x8e then some .arrayLength
  else if value = 0x91 then some (.loadElement 1)
  else if value = 0x94 then some (.loadElement 2)
  else if value = 0x9c then some (.storeElement 1)
  else if value = 0x9e then some (.storeElement 2)
  else if value = 0xfe01 then some .equal
  else if inRanges [(0xfe02, 0xfe05)] value then some .compare
  else none

/-- What is checked of a body besides its code. -/
structure CilTypes where
  assembly : Assembly
  code : List Byte
  receiver : Option StackType
  parameters : List StackType
  locals : List StackType
  result : Option StackType

namespace CilTypes

variable (types : CilTypes)

/-- The receiver is the first argument. -/
def argument (index : Nat) : Checked StackType :=
  match types.receiver with
  | some receiver => if index = 0 then pure receiver else orRefuse types.parameters[index - 1]? .bounds
  | none => orRefuse types.parameters[index]? .bounds

def localType (index : Nat) : Checked StackType := orRefuse types.locals[index]? .bounds

/-- The row that an instruction names. -/
def tokenAt (operand : Nat) : Checked (Table × Nat) := do
  let table ← Halting.index types.code operand
  let index ← u16At types.code (operand + 1)
  let table ← orRefuse (Table.ofId table.toNat) .bounds
  pure (table, index)

def deltaAt (short : Bool) (operand : Nat) : Checked Int :=
  if short = true then shortDelta types.code operand else longDelta types.code operand

/-- The stack goes to the target of a branch. -/
def mergeTarget (stop : Nat) (delta : Int) (stack : List StackType) (known : KnownStacks) : Checked KnownStacks := do
  let target ← branchTarget stop delta types.code.length
  mergeTypes known target stack

/-- The method that is called: its parameters leave the stack, and its receiver is
yet to. -/
def callParameters (operand : Nat) (stack : List StackType) : Checked (MethodTypes × List StackType) := do
  let (table, index) ← types.tokenAt operand
  let called ← referencedMethodTypes types.assembly table index
  let stack ← popParameters stack called.parameters
  pure (called, stack)

def popReceiver (stack : List StackType) : Option StackType → Checked (List StackType)
  | some receiver => popType stack receiver
  | none => pure stack

/-- Two operands, of which one may stand for the other. -/
def popEqual (stack : List StackType) : Checked (List StackType) := do
  let (right, stack) ← popAny stack
  let (left, stack) ← popAny stack
  refuseIf (compatible left right = false ∧ compatible right left = false) .format
  pure stack

def popTruth (stack : List StackType) : Checked (List StackType) := do
  let (condition, stack) ← popAny stack
  refuseIf (condition ≠ .int ∧ condition.reference = false) .format
  pure stack

def popInts (stack : List StackType) : Checked (List StackType) := do
  let stack ← popType stack .int
  popType stack .int

/-- The stack after an instruction, unless control never falls through it. -/
def applyRule (rule : TypeRule) (operand stop : Nat) (stack : List StackType) (known : KnownStacks) :
    Checked (Option (List StackType) × KnownStacks) :=
  match rule with
  | .nop => pure (some stack, known)
  | .loadArgument index => do
      let argument ← types.argument index
      pure (some (argument :: stack), known)
  | .loadLocal index => do
      let value ← types.localType index
      pure (some (value :: stack), known)
  | .storeLocal index => do
      let value ← types.localType index
      let stack ← popType stack value
      pure (some stack, known)
  | .loadArgumentShort => do
      let index ← Halting.index types.code operand
      let argument ← types.argument index.toNat
      pure (some (argument :: stack), known)
  | .loadLocalShort => do
      let index ← Halting.index types.code operand
      let value ← types.localType index.toNat
      pure (some (value :: stack), known)
  | .storeLocalShort => do
      let index ← Halting.index types.code operand
      let value ← types.localType index.toNat
      let stack ← popType stack value
      pure (some stack, known)
  | .loadNull => pure (some (.null :: stack), known)
  | .loadInt => pure (some (.int :: stack), known)
  | .dup => do
      let (top, _) ← popAny stack
      pure (some (top :: stack), known)
  | .pop => do
      let (_, stack) ← popAny stack
      pure (some stack, known)
  | .call => do
      let (called, stack) ← types.callParameters operand stack
      let stack ← popReceiver stack called.receiver
      pure (some (called.result.toList ++ stack), known)
  | .return => do
      let stack ← popReceiver stack types.result
      refuseIf (stack ≠ []) .format
      pure (none, known)
  | .branch short => do
      let delta ← types.deltaAt short operand
      let known ← types.mergeTarget stop delta stack known
      pure (none, known)
  | .branchTruth short => do
      let stack ← popTruth stack
      let delta ← types.deltaAt short operand
      let known ← types.mergeTarget stop delta stack known
      pure (some stack, known)
  | .branchEqual short => do
      let stack ← popEqual stack
      let delta ← types.deltaAt short operand
      let known ← types.mergeTarget stop delta stack known
      pure (some stack, known)
  | .branchCompare short => do
      let stack ← popInts stack
      let delta ← types.deltaAt short operand
      let known ← types.mergeTarget stop delta stack known
      pure (some stack, known)
  | .switch => do
      let stack ← popType stack .int
      let count ← u32At types.code operand
      let known ← (List.range count).foldlM (fun known index => do
        let delta ← switchDelta types.code operand index
        types.mergeTarget stop delta stack known) known
      pure (some stack, known)
  | .binary => do
      let stack ← popInts stack
      pure (some (.int :: stack), known)
  | .unary => do
      let stack ← popType stack .int
      pure (some (.int :: stack), known)
  | .newObject => do
      let (called, stack) ← types.callParameters operand stack
      let receiver ← orRefuse called.receiver .format
      pure (some (receiver :: stack), known)
  | .loadField => do
      let index ← u16At types.code (operand + 1)
      let (owner, field) ← fieldType types.assembly index
      let stack ← popType stack owner
      pure (some (field :: stack), known)
  | .storeField => do
      let index ← u16At types.code (operand + 1)
      let (owner, field) ← fieldType types.assembly index
      let stack ← popType stack field
      let stack ← popType stack owner
      pure (some stack, known)
  | .newArray => do
      let stack ← popType stack .int
      let (table, index) ← types.tokenAt operand
      let element ← arrayElement types.assembly table index
      pure (some (.array element :: stack), known)
  | .arrayLength => do
      let (array, stack) ← popAny stack
      match array with
      | .array _ => pure (some (.int :: stack), known)
      | _ => throw (.refused .format)
  | .loadElement element => do
      let stack ← popType stack .int
      let stack ← popType stack (.array element)
      pure (some (.int :: stack), known)
  | .storeElement element => do
      let stack ← popInts stack
      let stack ← popType stack (.array element)
      pure (some stack, known)
  | .equal => do
      let stack ← popEqual stack
      pure (some (.int :: stack), known)
  | .compare => do
      let stack ← popInts stack
      pure (some (.int :: stack), known)

/-- Where control is, the stack there, and what is known of the other instructions. -/
abbrev Walk := Nat × List StackType × KnownStacks

/-- After an instruction, unless control never falls through it. -/
def resume (stop : Nat) : Option (List StackType) × KnownStacks → Checked (Walk ⊕ KnownStacks)
  | (none, known) => pure (.inr known)
  | (some stack, known) => do
      refuseIf (types.code.length ≤ stop) .bounds
      pure (.inl (stop, stack, known))

/-- One instruction of a walk that began at `start`. -/
def walkStep (start : Nat) (walk : Walk) : Checked (Walk ⊕ KnownStacks) :=
  if walk.1 ≠ start ∧ (walk.2.2.find walk.1).isSome then do
    let known ← mergeTypes walk.2.2 walk.1 walk.2.1
    pure (.inr known)
  else do
    let (value, operand) ← opcodeAt types.code walk.1 .panic .panic
    let stop ← instructionEnd types.code walk.1 types.assembly.rows
    let rule ← orRefuse (typeRule value) .unsupported
    let outcome ← types.applyRule rule operand stop walk.2.1 walk.2.2
    types.resume stop outcome

/-- Follow the instructions from one that is reached from elsewhere. -/
def typesStep (known : KnownStacks) : Checked (KnownStacks ⊕ Unit) :=
  match known.pending with
  | [] => pure (.inr ())
  | start :: pending => do
      let initial ← orRefuse (known.find start) .format
      let next ← loop (types.walkStep start) (types.code.length + 1) (start, initial, ⟨known.states, pending, known.cells⟩)
      pure (.inl next)

/-- At most 257 stacks and 4096 slots bound the number of walks. -/
def validate : Checked Unit := loop types.typesStep (2 * (257 + 4096) + 2) ⟨[(0, [])], [0], 0⟩

end CilTypes

end Stacks

end MicroCard.Mc04
