import MicroCard.Mc04.Heap
import MicroCard.Mc04.Imports

/-! The virtual machine: it runs the bodies of verified methods, one instruction at a time,
over one stack of values for all frames. -/
namespace MicroCard.Mc04

open Bytes Halting

def maxActiveLocals : Nat := 32 * 64

def maxEvaluationStack : Nat := 256

def maxCallFrames : Nat := 32

/-- How many instructions an execution may take. -/
def instructionBudget : Nat := 100000

/-- What a member of another assembly was linked to. -/
inductive LinkedTarget where
  | objectConstructor
  | currentDomain
  | domainStorage
  | domainKeys
  | native (id : UInt8)
  | managed (unit method : Nat)
  deriving DecidableEq

structure Frame where
  unit : Nat
  method : Nat
  pc : Nat
  argumentBase : Nat
  evaluationBase : Nat
  returnBase : Nat
  returns : Bool
  localBase : Nat
  localCount : Nat
  deriving DecidableEq

def defaultValue : StackType → RuntimeValue
  | .int | .value _ => .int 0
  | .ref _ | .array _ | .null => .ref 0

/-- The values of all frames, the oldest first, and the greatest number of them that there
ever were. -/
structure EvaluationStack where
  values : List RuntimeValue
  peak : Nat
  deriving DecidableEq

namespace EvaluationStack

def push (stack : EvaluationStack) (value : RuntimeValue) : EvaluationStack :=
  ⟨stack.values ++ [value], max stack.peak (stack.values.length + 1)⟩

def insert (stack : EvaluationStack) (index : Nat) (value : RuntimeValue) : EvaluationStack :=
  ⟨stack.values.insertIdx index value, max stack.peak (stack.values.length + 1)⟩

/-- Drop all values from an index on. -/
def clear (stack : EvaluationStack) (start : Nat) : EvaluationStack := { stack with values := stack.values.take start }

/-- A frame takes nothing from below its own values. -/
def pop (stack : EvaluationStack) (floor : Nat) : Checked (RuntimeValue × EvaluationStack) := do
  refuseIf (stack.values.length ≤ floor) .stack
  let value ← orRefuse stack.values.getLast? .stack
  pure (value, { stack with values := stack.values.dropLast })

def popInt (stack : EvaluationStack) (floor : Nat) : Checked (Int32 × EvaluationStack) := do
  let (value, stack) ← stack.pop floor
  let value ← value.toInt
  pure (value, stack)

end EvaluationStack

structure Machine where
  stack : EvaluationStack
  locals : List RuntimeValue
  /-- The innermost frame comes first. -/
  frames : List Frame
  heap : Heap
  fuel : Nat
  /-- Instructions until the next poll for cancellation, and how many polls there were. -/
  countdown : Nat
  polls : Nat

/-- A native operation, with the values that it is called with. -/
structure NativeCall where
  unit : Nat
  member : Nat
  id : UInt8
  arguments : List RuntimeValue
  start : Nat
  returns : Bool
  deriving DecidableEq

/-- How an instruction leaves the machine: the next one follows, with or without the check
of the stack, a native operation runs first, or the entry method returned. -/
inductive Progress where
  | next (machine : Machine)
  | continue' (machine : Machine)
  | native (call : NativeCall) (machine : Machine)
  | returned (result : Option Int32)

section Operations

/-- The instructions of the interpreter. -/
inductive Operation where
  | nop
  | loadArgument (index : Nat)
  | loadLocal (index : Nat)
  | storeLocal (index : Nat)
  | loadArgumentShort
  | loadLocalShort
  | storeLocalShort
  | loadNull
  | loadConstant (value : Int)
  | loadByte
  | loadWord
  | dup
  | pop
  | call (virtual : Bool)
  | newObject
  | loadField
  | storeField
  | return
  | branch (kind : Nat) (short : Bool)
  | switch
  | binary
  | unary
  | newArray
  | arrayLength
  | loadElement (bytes : Bool)
  | storeElement (bytes : Bool)
  | compare
  deriving DecidableEq

/-- What the first byte of an instruction selects. -/
def operation (opcode : Nat) : Option Operation :=
  if opcode = 0x00 then some .nop
  else if inRanges [(0x02, 0x05)] opcode then some (.loadArgument (opcode - 0x02))
  else if inRanges [(0x06, 0x09)] opcode then some (.loadLocal (opcode - 0x06))
  else if inRanges [(0x0a, 0x0d)] opcode then some (.storeLocal (opcode - 0x0a))
  else if opcode = 0x0e then some .loadArgumentShort
  else if opcode = 0x11 then some .loadLocalShort
  else if opcode = 0x13 then some .storeLocalShort
  else if opcode = 0x14 then some .loadNull
  else if inRanges [(0x15, 0x1e)] opcode then some (.loadConstant ((opcode : Int) - 0x16))
  else if opcode = 0x1f then some .loadByte
  else if opcode = 0x20 then some .loadWord
  else if opcode = 0x25 then some .dup
  else if opcode = 0x26 then some .pop
  else if opcode ∈ [0x28, 0x6f] then some (.call (opcode = 0x6f))
  else if opcode = 0x73 then some .newObject
  else if opcode = 0x7b then some .loadField
  else if opcode = 0x7d then some .storeField
  else if opcode = 0x2a then some .return
  else if inRanges [(0x2b, 0x37)] opcode then some (.branch (opcode - 0x2b) true)
  else if inRanges [(0x38, 0x44)] opcode then some (.branch (opcode - 0x38) false)
  else if opcode = 0x45 then some .switch
  else if inRanges [(0x58, 0x64), (0xd6, 0xdb)] opcode then some .binary
  else if inRanges [(0x65, 0x69), (0x6d, 0x6d), (0x82, 0x84), (0x86, 0x88), (0xb3, 0xb8), (0xd1, 0xd2)] opcode then
    some .unary
  else if opcode = 0x8d then some .newArray
  else if opcode = 0x8e then some .arrayLength
  else if opcode ∈ [0x91, 0x94] then some (.loadElement (opcode = 0x91))
  else if opcode ∈ [0x9c, 0x9e] then some (.storeElement (opcode = 0x9c))
  else if opcode = 0xfe then some .compare
  else none

end Operations

section Decoding

/-- A signed word of an operand. -/
def i32At (code : List Byte) (offset : Nat) : Checked Int := do
  let word ← orRefuse (range? code offset (offset + 4)) .bounds
  pure (signed32 (fromLE word))

/-- How long an instruction is, which has to be inside of the code. -/
def instructionWidth (code : List Byte) (pc value : Nat) : Checked Nat := do
  let opcode ← orRefuse (Opcode.lookup value) .unsupported
  let width ← if opcode.fixedLength ≠ 0 then pure opcode.fixedLength
    else do
      let count ← i32At code (pc + 1)
      refuseIf (count < 0) .bounds
      pure (5 + count.toNat * 4)
  refuseIf (code.length < pc + width) .bounds
  pure width

/-- The table and the row that an instruction names. -/
def tokenOperand (code : List Byte) (pc : Nat) : Checked (Nat × Nat) := do
  let table ← Halting.index code (pc + 1)
  let low ← Halting.index code (pc + 2)
  let high ← Halting.index code (pc + 3)
  pure (table.toNat, fromLE [low, high])

def branchTo (next : Nat) (delta : Int) : Checked Nat := do
  refuseIf ((next : Int) + delta < 0) .bounds
  pure ((next : Int) + delta).toNat

def localIndex (frame : Frame) (index : Nat) : Checked Nat := do
  refuseIf (frame.localCount ≤ index) .bounds
  pure (frame.localBase + index)

end Decoding

section Frames

variable (units : List Assembly)

/-- A frame for a method, with its locals behind those of the other frames. -/
def newFrame (unit method argumentBase returnBase : Nat) (locals : List RuntimeValue) : Checked (Frame × List RuntimeValue) := do
  let assembly ← orRefuse units[unit]? .bounds
  let types ← assembly.methodTypes method
  let arguments := types.parameters.length + if types.receiver.isSome = true then 1 else 0
  let localTypes ← assembly.methodLocalTypes method
  refuseIf (maxActiveLocals < locals.length + localTypes.length) .quota
  pure (⟨unit, method, 0, argumentBase, argumentBase + arguments, returnBase, types.result.isSome, locals.length,
    localTypes.length⟩, locals ++ localTypes.map defaultValue)

/-- Enter a method. -/
def enter (machine : Machine) (unit method argumentBase returnBase : Nat) : Checked Machine := do
  let (frame, locals) ← newFrame units unit method argumentBase returnBase machine.locals
  pure { machine with frames := frame :: machine.frames, locals := locals }

def argumentCount (types : MethodTypes) : Nat := types.parameters.length + if types.receiver.isSome = true then 1 else 0

end Frames

section Calls

variable (units : List Assembly) (resolve : Nat → Nat → Checked LinkedTarget)

/-- The value of a call that the machine answers itself, if there is one. -/
def answered (machine : Machine) (start : Nat) (returns : Bool) (result : Option RuntimeValue) : Checked Progress := do
  refuseIf (result.isSome ≠ returns) .native
  let stack := machine.stack.clear start
  pure (.continue' { machine with stack := result.elim stack stack.push })

/-- A call of a member: of the framework, or of a method in another unit. -/
def callMember (machine : Machine) (frame : Frame) (assembly : Assembly) (member : Nat) : Checked Progress := do
  let types ← assembly.memberTypes member
  refuseIf (machine.stack.values.length < argumentCount types) .stack
  let start := machine.stack.values.length - argumentCount types
  refuseIf (start < frame.evaluationBase) .stack
  let target ← resolve frame.unit member
  let arguments := machine.stack.values.drop start
  match target with
  | .objectConstructor =>
      if types.receiver.isSome = true ∧ types.parameters = [] ∧ types.result.isNone = true then
        answered machine start types.result.isSome none
      else throw (.refused .format)
  | .currentDomain =>
      if arguments = [] then answered machine start types.result.isSome (some (.opaque' 1)) else throw (.refused .format)
  | .domainStorage =>
      if arguments = [.opaque' 1] then answered machine start types.result.isSome (some (.opaque' 3))
      else throw (.refused .format)
  | .domainKeys =>
      if arguments = [.opaque' 1] then answered machine start types.result.isSome (some (.opaque' 2))
      else throw (.refused .format)
  | .native id => pure (.native ⟨frame.unit, member, id, arguments, start, types.result.isSome⟩ machine)
  | .managed targetUnit targetMethod => do
      refuseIf (maxCallFrames ≤ machine.frames.length) .quota
      let target ← CrashTriple.orFail units[targetUnit]? .panic
      let targetTypes ← target.methodTypes targetMethod
      refuseIf (argumentCount targetTypes ≠ argumentCount types ∨ targetTypes.result.isSome ≠ types.result.isSome) .format
      let machine ← enter units machine targetUnit targetMethod start start
      pure (.continue' machine)

/-- A call of a method of the same unit. -/
def callMethod (machine : Machine) (frame : Frame) (assembly : Assembly) (virtual : Bool) (row : Nat) : Checked Progress := do
  refuseIf (row = 0) .bounds
  let types ← assembly.methodTypes (row - 1)
  refuseIf (virtual ≠ types.receiver.isSome) .format
  refuseIf (machine.stack.values.length < argumentCount types) .stack
  let base := machine.stack.values.length - argumentCount types
  refuseIf (base < frame.evaluationBase ∨ maxCallFrames ≤ machine.frames.length) .quota
  let machine ← enter units machine frame.unit (row - 1) base base
  pure (.next machine)

def call (machine : Machine) (frame : Frame) (assembly : Assembly) (code : List Byte) (pc : Nat) (virtual : Bool) :
    Checked Progress := do
  let (table, row) ← tokenOperand code pc
  if table = Table.memberRef.id then callMember units resolve machine frame assembly row
  else if table ≠ Table.methodDef.id then throw (.refused .unsupported)
  else callMethod units machine frame assembly virtual row

/-- Put a new object below the arguments of a constructor twice: once as the receiver, and
once as the result. The constructor comes back with the place of its receiver. -/
def placeObject (allocator : Nat → Bool) (machine : Machine) (frame : Frame) (assembly : Assembly) (code : List Byte)
    (pc : Nat) : Checked ((Nat × Nat) × Machine) := do
  let (table, row) ← tokenOperand code pc
  refuseIf (table ≠ Table.methodDef.id) .unsupported
  refuseIf (row = 0) .bounds
  let types ← assembly.methodTypes (row - 1)
  refuseIf (types.receiver.isNone = true ∨ types.result.isSome = true) .format
  refuseIf (machine.stack.values.length < types.parameters.length) .stack
  let base := machine.stack.values.length - types.parameters.length
  refuseIf (base < frame.evaluationBase ∨ maxCallFrames ≤ machine.frames.length) .quota
  let owner ← assembly.methodOwner (row - 1)
  let fields ← assembly.typeFieldCount owner
  let (object, heap) := machine.heap.allocateStruct allocator frame.unit owner fields
  let object ← object.mapError .refused
  let stack := (machine.stack.insert base object).insert (base + 1) object
  pure ((row - 1, base + 1), { machine with heap := heap, stack := stack })

/-- A constructor is entered with the new object. -/
def construct (allocator : Nat → Bool) (machine : Machine) (frame : Frame) (assembly : Assembly) (code : List Byte)
    (pc : Nat) : Checked Progress := do
  let ((constructor', base), machine) ← placeObject allocator machine frame assembly code pc
  let machine ← enter units machine frame.unit constructor' base base
  pure (.next machine)

end Calls

section Execution

variable (machine : Machine) (frame : Frame) (assembly : Assembly) (code : List Byte) (pc next : Nat)

/-- The machine with another stack. -/
def Machine.withStack (machine : Machine) (stack : EvaluationStack) : Machine := { machine with stack := stack }

/-- The current frame goes on elsewhere. -/
def Machine.jump (machine : Machine) (pc : Nat) : Machine :=
  { machine with frames := match machine.frames with
      | [] => []
      | frame :: rest => { frame with pc := pc } :: rest }

def loadArgument (index : Nat) : Checked Progress := do
  let value ← Halting.index machine.stack.values (frame.argumentBase + index)
  pure (.next (machine.withStack (machine.stack.push value)))

def loadLocal (index : Nat) : Checked Progress := do
  let index ← localIndex frame index
  let value ← orRefuse machine.locals[index]? .bounds
  pure (.next (machine.withStack (machine.stack.push value)))

def storeLocal (index : Nat) : Checked Progress := do
  let index ← localIndex frame index
  let (value, stack) ← machine.stack.pop frame.evaluationBase
  refuseIf (machine.locals.length ≤ index) .bounds
  pure (.next { machine with stack := stack, locals := machine.locals.set index value })

def pushInt (stack : EvaluationStack) (value : Int32) : Progress := .next (machine.withStack (stack.push (.int value)))

/-- The result of a method, if it has one. -/
def popResult : Checked (Option RuntimeValue × EvaluationStack) :=
  if frame.returns = true then do
    let (value, stack) ← machine.stack.pop frame.evaluationBase
    pure (some value, stack)
  else pure (none, machine.stack)

/-- Leave a method; the entry method leaves the machine. -/
def leave : Checked Progress := do
  let (result, stack) ← popResult machine frame
  refuseIf (stack.values.length ≠ frame.evaluationBase) .stack
  let stack := stack.clear frame.returnBase
  let frames := machine.frames.tail
  if frames = [] then
    match result with
    | none => pure (.returned none)
    | some value => do
        let value ← value.toInt
        pure (.returned (some value))
  else
    pure (.next { machine with
      stack := result.elim stack stack.push
      locals := machine.locals.take frame.localBase
      frames := frames })

/-- Whether a branch is taken. -/
def takes (stack : EvaluationStack) (floor kind : Nat) : Checked (Bool × EvaluationStack) :=
  if kind = 0 then pure (true, stack)
  else if kind = 1 ∨ kind = 2 then do
    let (value, stack) ← stack.pop floor
    pure (if kind = 2 then value.truth else !value.truth, stack)
  else do
    let (right, stack) ← stack.pop floor
    let (left, stack) ← stack.pop floor
    let take ← branchComparison kind left right
    pure (take, stack)

def branchDelta (short : Bool) : Checked Int :=
  if short = true then do
    let byte ← Halting.index code (pc + 1)
    pure (signed8 byte.toNat)
  else i32At code (pc + 1)

def branch (kind : Nat) (short : Bool) : Checked Progress := do
  let delta ← branchDelta code pc short
  let (take, stack) ← takes machine.stack frame.evaluationBase kind
  if take = true then do
    let target ← branchTo next delta
    pure (.next ((machine.withStack stack).jump target))
  else pure (.next (machine.withStack stack))

def switchBranch : Checked Progress := do
  let (index, stack) ← machine.stack.popInt frame.evaluationBase
  let count ← i32At code (pc + 1)
  refuseIf (count < 0) .bounds
  if 0 ≤ index.toInt ∧ index.toInt < count then do
    let delta ← i32At code (pc + 5 + index.toInt.toNat * 4)
    let target ← branchTo next delta
    pure (.next ((machine.withStack stack).jump target))
  else pure (.next (machine.withStack stack))

def binary (opcode : Nat) : Checked Progress := do
  let (right, stack) ← machine.stack.popInt frame.evaluationBase
  let (left, stack) ← stack.popInt frame.evaluationBase
  let value ← binaryOp opcode left right
  pure (pushInt machine stack value)

def unary (opcode : Nat) : Checked Progress := do
  let (value, stack) ← machine.stack.popInt frame.evaluationBase
  let value ← unaryOp opcode value
  pure (pushInt machine stack value)

def compare (value : Nat) : Checked Progress := do
  let (right, stack) ← machine.stack.pop frame.evaluationBase
  let (left, stack) ← stack.pop frame.evaluationBase
  let result ← compareOp value left right
  pure (pushInt machine stack (if result = true then 1 else 0))

def fieldOperand : Checked (Nat × Nat) := do
  let (table, row) ← tokenOperand code pc
  refuseIf (table ≠ Table.field.id) .format
  assembly.fieldLayout row

def loadField : Checked Progress := do
  let (owner, offset) ← fieldOperand assembly code pc
  let (object, stack) ← machine.stack.pop frame.evaluationBase
  let value ← machine.heap.fieldGet object frame.unit owner offset
  pure (.next (machine.withStack (stack.push value)))

def storeField : Checked Progress := do
  let (owner, offset) ← fieldOperand assembly code pc
  let (value, stack) ← machine.stack.pop frame.evaluationBase
  let (object, stack) ← stack.pop frame.evaluationBase
  let heap ← machine.heap.fieldSet object frame.unit owner offset value
  pure (.next { machine with stack := stack, heap := heap })

/-- A length or an index, which may not be negative. -/
def popIndex (stack : EvaluationStack) (floor : Nat) : Checked (Nat × EvaluationStack) := do
  let (value, stack) ← stack.popInt floor
  refuseIf (value.toInt < 0) .bounds
  pure (value.toInt.toNat, stack)

def newArray (allocator : Nat → Bool) : Checked Progress := do
  let (length, stack) ← popIndex machine.stack frame.evaluationBase
  let (table, row) ← tokenOperand code pc
  refuseIf (table ≠ Table.typeRef.id) .unsupported
  let kind ← assembly.typeRef row
  refuseIf (¬(kind.namespace' = "System" ∧ (kind.name = "Byte" ∨ kind.name = "Int32"))) .unsupported
  let (array, heap) := machine.heap.allocate allocator (kind.name = "Byte") length
  let array ← array.mapError .refused
  pure (.next { machine with stack := stack.push array, heap := heap })

def arrayLength : Checked Progress := do
  let (array, stack) ← machine.stack.pop frame.evaluationBase
  let length ← machine.heap.arrayLength array
  refuseIf (2 ^ 31 ≤ length) .quota
  pure (pushInt machine stack (Int32.ofNat length))

def loadElement (bytes : Bool) : Checked Progress := do
  let (index, stack) ← popIndex machine.stack frame.evaluationBase
  let (array, stack) ← stack.pop frame.evaluationBase
  let value ← machine.heap.arrayGet array index bytes
  pure (pushInt machine stack value)

def storeElement (bytes : Bool) : Checked Progress := do
  let (value, stack) ← machine.stack.popInt frame.evaluationBase
  let (index, stack) ← popIndex stack frame.evaluationBase
  let (array, stack) ← stack.pop frame.evaluationBase
  let heap ← machine.heap.arraySet array index bytes value
  pure (.next { machine with stack := stack, heap := heap })

def dup : Checked Progress := do
  let value ← orRefuse machine.stack.values.getLast? .stack
  pure (.next (machine.withStack (machine.stack.push value)))

end Execution

section Steps

variable (units : List Assembly) (resolve : Nat → Nat → Checked LinkedTarget) (allocator : Nat → Bool)

/-- Run one instruction. The frame already points to the next one. -/
def execute (operation : Operation) (machine : Machine) (frame : Frame) (assembly : Assembly) (code : List Byte)
    (pc next value : Nat) : Checked Progress :=
  match operation with
  | .nop => pure (.next machine)
  | .loadArgument index => loadArgument machine frame index
  | .loadLocal index => loadLocal machine frame index
  | .storeLocal index => storeLocal machine frame index
  | .loadArgumentShort => do
      let index ← Halting.index code (pc + 1)
      loadArgument machine frame index.toNat
  | .loadLocalShort => do
      let index ← Halting.index code (pc + 1)
      loadLocal machine frame index.toNat
  | .storeLocalShort => do
      let index ← Halting.index code (pc + 1)
      storeLocal machine frame index.toNat
  | .loadNull => pure (.next (machine.withStack (machine.stack.push (.ref 0))))
  | .loadConstant value => pure (pushInt machine machine.stack (Int32.ofInt value))
  | .loadByte => do
      let byte ← Halting.index code (pc + 1)
      pure (pushInt machine machine.stack (Int32.ofInt (signed8 byte.toNat)))
  | .loadWord => do
      let word ← i32At code (pc + 1)
      pure (pushInt machine machine.stack (Int32.ofInt word))
  | .dup => dup machine
  | .pop => do
      let (_, stack) ← machine.stack.pop frame.evaluationBase
      pure (.next (machine.withStack stack))
  | .call virtual => call units resolve machine frame assembly code pc virtual
  | .newObject => construct units allocator machine frame assembly code pc
  | .loadField => loadField machine frame assembly code pc
  | .storeField => storeField machine frame assembly code pc
  | .return => leave machine frame
  | .branch kind short => branch machine frame code pc next kind short
  | .switch => switchBranch machine frame code pc next
  | .binary => binary machine frame value
  | .unary => unary machine frame value
  | .newArray => newArray machine frame assembly code pc allocator
  | .arrayLength => arrayLength machine frame
  | .loadElement bytes => loadElement machine frame bytes
  | .storeElement bytes => storeElement machine frame bytes
  | .compare => compare machine frame value

/-- Poll for cancellation every 64 instructions, and count the instruction. -/
def account (cancelled : Nat → Bool) (machine : Machine) : Checked Machine := do
  let machine ← if machine.countdown = 0 then do
      refuseIf (cancelled machine.polls = true) .cancelled
      pure { machine with countdown := 63, polls := machine.polls + 1 }
    else pure { machine with countdown := machine.countdown - 1 }
  refuseIf (machine.fuel = 0) .budget
  pure { machine with fuel := machine.fuel - 1 }

/-- An instruction as it was read. -/
structure Fetched where
  frame : Frame
  assembly : Assembly
  code : List Byte
  opcode : Nat
  value : Nat
  next : Nat

/-- The value of an opcode, with the second byte of a long one. -/
def opcodeValue (code : List Byte) (pc opcode : Nat) : Checked Nat :=
  if opcode = 0xfe then do
    let second ← orRefuse code[pc + 1]? .bounds
    pure (0xfe00 + second.toNat)
  else pure opcode

/-- Read the current instruction. -/
def fetch (machine : Machine) : Checked Fetched := do
  let frame ← orRefuse machine.frames.head? .stack
  let assembly ← CrashTriple.orFail units[frame.unit]? .panic
  let method ← assembly.method frame.method
  let opcode ← orRefuse method.code[frame.pc]? .bounds
  let value ← opcodeValue method.code frame.pc opcode.toNat
  let width ← instructionWidth method.code frame.pc value
  pure ⟨frame, assembly, method.code, opcode.toNat, value, frame.pc + width⟩

/-- What is checked behind an instruction, unless it went on by itself. -/
def checkStack : Progress → Checked Progress
  | .next machine => do
      refuseIf (maxEvaluationStack < machine.stack.values.length) .quota
      pure (.next machine)
  | progress => pure progress

def step (cancelled : Nat → Bool) (machine : Machine) : Checked Progress := do
  let machine ← account cancelled machine
  let fetched ← fetch units machine
  let operation ← orRefuse (operation fetched.opcode) .unsupported
  let progress ← execute units resolve allocator operation (machine.jump fetched.next) fetched.frame fetched.assembly
    fetched.code fetched.frame.pc fetched.next fetched.value
  checkStack progress

/-- Go on behind a native operation, with its result and the heap that it leaves. -/
def resume (call : NativeCall) (machine : Machine) (result : Option RuntimeValue) (heap : Heap) : Checked Progress :=
  answered { machine with heap := heap } call.start call.returns result

/-- The machine at the start of an entry method. -/
def start (entryUnit entry : Nat) (arguments : List Int32) : Checked Machine := do
  let assembly ← orRefuse units[entryUnit]? .bounds
  let types ← assembly.methodTypes entry
  refuseIf (types.receiver.isSome = true ∨ types.parameters.length ≠ arguments.length ∨
    types.parameters.any (fun kind => kind ≠ .int) = true) .format
  refuseIf (maxEvaluationStack < arguments.length) .quota
  let values := arguments.map RuntimeValue.int
  let (frame, locals) ← newFrame units entryUnit entry 0 0 []
  pure ⟨⟨values, values.length⟩, locals, [frame], Heap.new, instructionBudget, 0, 0⟩

end Steps

section Runs

/-- What executes native operations, over a state of its own. -/
structure External (σ : Type) where
  resolve : Nat → Nat → Checked LinkedTarget
  invoke : NativeCall → Heap → σ → (Checked (Option RuntimeValue) × Heap) × σ

/-- How a run goes on: with another instruction, or it is over. -/
inductive Status where
  | running (machine : Machine)
  | returned (result : Option Int32)
  | failed (halt : Halt Error)

variable {σ : Type} (units : List Assembly) (external : External σ)

/-- What follows a native operation. -/
def afterNative (call : NativeCall) (machine : Machine) (answer : Checked (Option RuntimeValue) × Heap) : Status :=
  match answer.1 with
  | .error halt => .failed halt
  | .ok result =>
      match resume call machine result answer.2 with
      | .ok (.continue' machine) => .running machine
      | .ok _ => .failed .panic
      | .error halt => .failed halt

/-- One instruction, with the native operation that it calls. -/
def advance (allocator : Nat → Bool) (cancelled : Nat → Bool) (machine : Machine) (state : σ) : Status × σ :=
  match step units external.resolve allocator cancelled machine with
  | .error halt => (.failed halt, state)
  | .ok (.next machine) => (.running machine, state)
  | .ok (.continue' machine) => (.running machine, state)
  | .ok (.returned result) => (.returned result, state)
  | .ok (.native call machine) =>
      let (answer, state) := external.invoke call machine.heap state
      (afterNative call machine answer, state)

/-- Run to the end. Each instruction has its own allocator. -/
def runMachine (allocator : Nat → Nat → Bool) (cancelled : Nat → Bool) : Nat → Machine → σ → Status × σ
  | 0, machine, state => (.running machine, state)
  | fuel + 1, machine, state =>
      match advance units external (allocator machine.fuel) cancelled machine state with
      | (.running machine, state) => runMachine allocator cancelled fuel machine state
      | (status, state) => (status, state)

/-- `execute_program_with_metrics_and_cancel`. -/
def executeProgram (allocator : Nat → Nat → Bool) (cancelled : Nat → Bool) (entryUnit entry : Nat) (arguments : List Int32)
    (state : σ) : Status × σ :=
  match start units entryUnit entry arguments with
  | .error halt => (.failed halt, state)
  | .ok machine => runMachine units external allocator cancelled (instructionBudget + 1) machine state

end Runs

end MicroCard.Mc04
