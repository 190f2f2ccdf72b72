import MicroCard.Mc04.Machine

/-! What one instruction can do to the frames, the locals and the stack of the virtual
machine. -/
namespace MicroCard.Mc04

open Bytes Halting

section Stack

variable {stack stack' : EvaluationStack} {value : RuntimeValue} {floor : Nat}

namespace EvaluationStack

@[simp] theorem push_peak (stack : EvaluationStack) (value : RuntimeValue) :
    (stack.push value).peak = max stack.peak (stack.values.length + 1) := rfl

@[simp] theorem push_length (stack : EvaluationStack) (value : RuntimeValue) :
    (stack.push value).values.length = stack.values.length + 1 := by
  simp [push]

@[simp] theorem clear_length (stack : EvaluationStack) (start : Nat) :
    (stack.clear start).values.length = min start stack.values.length := by
  simp [clear]

theorem insert_length (stack : EvaluationStack) {index : Nat} (value : RuntimeValue) (h : index ≤ stack.values.length) :
    (stack.insert index value).values.length = stack.values.length + 1 :=
  List.length_insertIdx_of_le_length h value

/-- A stack that some values of another were taken from. -/
structure Lower (stack' stack : EvaluationStack) : Prop where
  length : stack'.values.length ≤ stack.values.length
  peak : stack'.peak = stack.peak

theorem Lower.trans {stack'' : EvaluationStack} (h : Lower stack' stack) (h' : Lower stack'' stack') : Lower stack'' stack :=
  ⟨h'.length.trans h.length, h'.peak.trans h.peak⟩

theorem Lower.rfl : Lower stack stack := ⟨le_rfl, Eq.refl _⟩

theorem clear_lower (stack : EvaluationStack) (start : Nat) : Lower (stack.clear start) stack :=
  ⟨List.length_take_le' _ _, Eq.refl _⟩

/-- A stack with at most so many values more than another, which never had more either. -/
structure Grown (stack : EvaluationStack) (count : Nat) (stack' : EvaluationStack) : Prop where
  length : stack'.values.length ≤ stack.values.length + count
  peak : stack'.peak ≤ max stack.peak (stack.values.length + count)

theorem Lower.push (h : Lower stack' stack) (value : RuntimeValue) : stack.Grown 1 (stack'.push value) := by
  have hLength := h.length
  have hPeak := h.peak
  constructor
  · rw [push_length]
    omega
  · rw [push_peak]
    omega

theorem Lower.grown (h : Lower stack' stack) (count : Nat) : stack.Grown count stack' :=
  ⟨h.length.trans (Nat.le_add_right _ _), h.peak.le.trans (le_max_left _ _)⟩

theorem pop_lower (h : stack.pop floor = .ok (value, stack')) : Lower stack' stack := by
  simp only [pop, Checks.bind_ok, Checks.pure_ok] at h
  obtain ⟨-, -, last, -, hResult⟩ := h
  cases hResult
  constructor
  · rw [List.length_dropLast]
    exact Nat.sub_le _ _
  · rfl

theorem popInt_lower {word : Int32} (h : stack.popInt floor = .ok (word, stack')) : Lower stack' stack := by
  simp only [popInt, Checks.bind_ok, Checks.pure_ok] at h
  obtain ⟨⟨value, popped⟩, hPop, word', -, hResult⟩ := h
  cases hResult
  exact pop_lower hPop

end EvaluationStack

end Stack

section Effects

/-- An instruction that works within its frame: it leaves the others and the number of
locals alone, and has at most one value more on the stack than before. -/
structure Quiet (machine machine' : Machine) : Prop where
  frames : machine'.frames = machine.frames
  locals : machine'.locals.length = machine.locals.length
  stack : machine.stack.Grown 1 machine'.stack

variable {machine machine' : Machine} {frame : Frame} {assembly : Assembly} {code : List Byte} {pc next : Nat}
  {progress : Progress}

theorem Quiet.push {stack : EvaluationStack} (h : stack.Lower machine.stack) (value : RuntimeValue) :
    Quiet machine (machine.withStack (stack.push value)) := ⟨rfl, rfl, h.push value⟩

theorem Quiet.lower {stack : EvaluationStack} (h : stack.Lower machine.stack) : Quiet machine (machine.withStack stack) :=
  ⟨rfl, rfl, h.grown 1⟩

/-- What an instruction does to the heap and to values of locals does not matter. -/
theorem Quiet.hold (h : Quiet machine machine') {locals : List RuntimeValue} (hLocals : locals.length = machine'.locals.length)
    (heap : Heap) : Quiet machine { machine' with locals := locals, heap := heap } :=
  ⟨h.frames, hLocals.trans h.locals, h.stack⟩

open EvaluationStack

theorem loadArgument_ok {index : Nat} (h : loadArgument machine frame index = .ok progress) :
    ∃ machine', progress = .next machine' ∧ Quiet machine machine' := by
  simp only [loadArgument, Checks.bind_ok, Checks.pure_ok] at h
  obtain ⟨value, -, rfl⟩ := h
  exact ⟨_, rfl, .push .rfl value⟩

theorem loadLocal_ok {index : Nat} (h : loadLocal machine frame index = .ok progress) :
    ∃ machine', progress = .next machine' ∧ Quiet machine machine' := by
  simp only [loadLocal, Checks.bind_ok, Checks.pure_ok] at h
  obtain ⟨slot, -, value, -, rfl⟩ := h
  exact ⟨_, rfl, .push .rfl value⟩

theorem storeLocal_ok {index : Nat} (h : storeLocal machine frame index = .ok progress) :
    ∃ machine', progress = .next machine' ∧ Quiet machine machine' := by
  simp only [storeLocal, Checks.bind_ok, Checks.pure_ok] at h
  obtain ⟨slot, -, ⟨value, stack⟩, hPop, -, -, rfl⟩ := h
  exact ⟨_, rfl, (Quiet.lower (pop_lower hPop)).hold List.length_set machine.heap⟩

theorem binary_ok {opcode : Nat} (h : binary machine frame opcode = .ok progress) :
    ∃ machine', progress = .next machine' ∧ Quiet machine machine' := by
  simp only [binary, Checks.bind_ok, Checks.pure_ok] at h
  obtain ⟨⟨right, stack⟩, hRight, ⟨left, stack'⟩, hLeft, value, -, rfl⟩ := h
  exact ⟨_, rfl, .push ((popInt_lower hRight).trans (popInt_lower hLeft)) _⟩

theorem unary_ok {opcode : Nat} (h : unary machine frame opcode = .ok progress) :
    ∃ machine', progress = .next machine' ∧ Quiet machine machine' := by
  simp only [unary, Checks.bind_ok, Checks.pure_ok] at h
  obtain ⟨⟨value, stack⟩, hPop, result, -, rfl⟩ := h
  exact ⟨_, rfl, .push (popInt_lower hPop) _⟩

theorem compare_ok {value : Nat} (h : compare machine frame value = .ok progress) :
    ∃ machine', progress = .next machine' ∧ Quiet machine machine' := by
  simp only [compare, Checks.bind_ok, Checks.pure_ok] at h
  obtain ⟨⟨right, stack⟩, hRight, ⟨left, stack'⟩, hLeft, result, -, rfl⟩ := h
  exact ⟨_, rfl, .push ((pop_lower hRight).trans (pop_lower hLeft)) _⟩

theorem loadField_ok (h : loadField machine frame assembly code pc = .ok progress) :
    ∃ machine', progress = .next machine' ∧ Quiet machine machine' := by
  simp only [loadField, Checks.bind_ok, Checks.pure_ok] at h
  obtain ⟨⟨owner, offset⟩, -, ⟨object, stack⟩, hPop, value, -, rfl⟩ := h
  exact ⟨_, rfl, .push (pop_lower hPop) value⟩

theorem storeField_ok (h : storeField machine frame assembly code pc = .ok progress) :
    ∃ machine', progress = .next machine' ∧ Quiet machine machine' := by
  simp only [storeField, Checks.bind_ok, Checks.pure_ok] at h
  obtain ⟨⟨owner, offset⟩, -, ⟨value, stack⟩, hValue, ⟨object, stack'⟩, hObject, heap, -, rfl⟩ := h
  exact ⟨_, rfl, (Quiet.lower ((pop_lower hValue).trans (pop_lower hObject))).hold rfl heap⟩

theorem popIndex_lower {stack stack' : EvaluationStack} {floor index : Nat}
    (h : popIndex stack floor = .ok (index, stack')) : stack'.Lower stack := by
  simp only [popIndex, Checks.bind_ok, Checks.pure_ok] at h
  obtain ⟨⟨value, popped⟩, hPop, -, -, hResult⟩ := h
  cases hResult
  exact popInt_lower hPop

theorem newArray_ok {allocator : Nat → Bool} (h : newArray machine frame assembly code pc allocator = .ok progress) :
    ∃ machine', progress = .next machine' ∧ Quiet machine machine' := by
  simp only [newArray, Checks.bind_ok, Checks.pure_ok] at h
  obtain ⟨⟨length, stack⟩, hPop, ⟨table, row⟩, -, -, -, kind, -, -, -, array, -, rfl⟩ := h
  exact ⟨_, rfl, (Quiet.push (popIndex_lower hPop) array).hold rfl _⟩

theorem arrayLength_ok (h : arrayLength machine frame = .ok progress) :
    ∃ machine', progress = .next machine' ∧ Quiet machine machine' := by
  simp only [arrayLength, Checks.bind_ok, Checks.pure_ok] at h
  obtain ⟨⟨array, stack⟩, hPop, length, -, -, -, rfl⟩ := h
  exact ⟨_, rfl, .push (pop_lower hPop) _⟩

theorem loadElement_ok {bytes : Bool} (h : loadElement machine frame bytes = .ok progress) :
    ∃ machine', progress = .next machine' ∧ Quiet machine machine' := by
  simp only [loadElement, Checks.bind_ok, Checks.pure_ok] at h
  obtain ⟨⟨index, stack⟩, hIndex, ⟨array, stack'⟩, hArray, value, -, rfl⟩ := h
  exact ⟨_, rfl, .push ((popIndex_lower hIndex).trans (pop_lower hArray)) _⟩

theorem storeElement_ok {bytes : Bool} (h : storeElement machine frame bytes = .ok progress) :
    ∃ machine', progress = .next machine' ∧ Quiet machine machine' := by
  simp only [storeElement, Checks.bind_ok, Checks.pure_ok] at h
  obtain ⟨⟨value, stack⟩, hValue, ⟨index, stack'⟩, hIndex, ⟨array, stack''⟩, hArray, heap, -, rfl⟩ := h
  have hLower := ((popInt_lower hValue).trans (popIndex_lower hIndex)).trans (pop_lower hArray)
  exact ⟨_, rfl, (Quiet.lower hLower).hold rfl heap⟩

theorem dup_ok (h : dup machine = .ok progress) : ∃ machine', progress = .next machine' ∧ Quiet machine machine' := by
  simp only [dup, Checks.bind_ok, Checks.pure_ok] at h
  obtain ⟨value, -, rfl⟩ := h
  exact ⟨_, rfl, .push .rfl value⟩

/-- Where an instruction may send its frame, other than to the next one. -/
def Operation.Sends (code : List Byte) (pc : Nat) (delta : Int) : Operation → Prop
  | .branch _ short => branchDelta code pc short = .ok delta
  | .switch => ∃ (count : Int) (index : Nat), i32At code (pc + 1) = .ok count ∧ (index : Int) < count ∧
      i32At code (pc + 5 + index * 4) = .ok delta
  | _ => False

/-- An instruction that stays in its frame goes on behind itself or to a place that its
operand gives. -/
inductive Continues (machine : Machine) (operation : Operation) (code : List Byte) (pc next : Nat) (machine' : Machine) : Prop
  | on (hQuiet : Quiet machine machine')
  | jumps {delta : Int} {target : Nat} (hSends : operation.Sends code pc delta) (hTarget : branchTo next delta = .ok target)
      (hQuiet : Quiet (machine.jump target) machine')

theorem takes_lower {stack stack' : EvaluationStack} {floor kind : Nat} {take : Bool}
    (h : takes stack floor kind = .ok (take, stack')) : stack'.Lower stack := by
  unfold takes at h
  split at h
  · cases h
    exact .rfl
  · split at h
    · simp only [Checks.bind_ok, Checks.pure_ok] at h
      obtain ⟨⟨value, popped⟩, hPop, hResult⟩ := h
      cases hResult
      exact pop_lower hPop
    · simp only [Checks.bind_ok, Checks.pure_ok] at h
      obtain ⟨⟨right, popped⟩, hRight, ⟨left, popped'⟩, hLeft, decision, -, hResult⟩ := h
      cases hResult
      exact (pop_lower hRight).trans (pop_lower hLeft)

theorem Quiet.jumped {stack : EvaluationStack} (h : stack.Lower machine.stack) (target : Nat) :
    Quiet (machine.jump target) ((machine.withStack stack).jump target) :=
  ⟨rfl, rfl, h.grown 1⟩

theorem branch_ok {kind : Nat} {short : Bool} (h : branch machine frame code pc next kind short = .ok progress) :
    ∃ machine', progress = .next machine' ∧ Continues machine (.branch kind short) code pc next machine' := by
  simp only [branch, Checks.bind_ok] at h
  obtain ⟨delta, hDelta, ⟨take, stack⟩, hTakes, h⟩ := h
  have hLower := takes_lower hTakes
  dsimp only at h
  split at h
  · simp only [Checks.bind_ok, Checks.pure_ok] at h
    obtain ⟨target, hTarget, rfl⟩ := h
    exact ⟨_, rfl, .jumps hDelta hTarget (.jumped hLower target)⟩
  · cases h
    exact ⟨_, rfl, .on (.lower hLower)⟩

theorem switchBranch_ok (h : switchBranch machine frame code pc next = .ok progress) :
    ∃ machine', progress = .next machine' ∧ Continues machine .switch code pc next machine' := by
  simp only [switchBranch, Checks.bind_ok] at h
  obtain ⟨⟨index, stack⟩, hPop, count, hCount, -, -, h⟩ := h
  have hLower := popInt_lower hPop
  dsimp only at h
  split at h
  · rename_i hIndex
    simp only [Checks.bind_ok, Checks.pure_ok] at h
    obtain ⟨delta, hDelta, target, hTarget, rfl⟩ := h
    exact ⟨_, rfl, .jumps ⟨count, index.toInt.toNat, hCount, by omega, hDelta⟩ hTarget (.jumped hLower target)⟩
  · cases h
    exact ⟨_, rfl, .on (.lower hLower)⟩

end Effects

section Calls

variable {units : List Assembly} {resolve : Nat → Nat → Checked LinkedTarget} {machine machine' : Machine} {frame : Frame}
  {assembly : Assembly} {code : List Byte} {pc next unit method : Nat} {progress : Progress}

/-- A method of a unit has a body. -/
def HasBody (units : List Assembly) (unit method : Nat) : Prop :=
  ∃ assembly view, units[unit]? = some assembly ∧ assembly.method method = .ok view

/-- A method was entered: its frame is on top of the others, at its first instruction. -/
structure Entered (units : List Assembly) (machine : Machine) (unit method : Nat) (machine' : Machine) : Prop where
  body : HasBody units unit method
  frames : ∃ frame', machine'.frames = frame' :: machine.frames ∧ frame'.unit = unit ∧ frame'.method = method ∧ frame'.pc = 0
  room : machine.frames.length < maxCallFrames
  locals : machine'.locals.length ≤ maxActiveLocals

theorem newFrame_ok {argumentBase returnBase : Nat} {locals locals' : List RuntimeValue} {frame' : Frame}
    (h : newFrame units unit method argumentBase returnBase locals = .ok (frame', locals')) :
    (frame'.unit = unit ∧ frame'.method = method ∧ frame'.pc = 0) ∧ locals'.length ≤ maxActiveLocals ∧
      HasBody units unit method := by
  simp only [newFrame, Checks.bind_ok, Checks.pure_ok, refuseIf, Checks.failIf_ok, orRefuse, Checks.orFail_ok] at h
  obtain ⟨assembly, hAssembly, types, -, localTypes, hLocals, -, hRoom, hResult⟩ := h
  cases hResult
  refine ⟨⟨rfl, rfl, rfl⟩, ?_, ?_⟩
  · rw [List.length_append, List.length_map]
    exact Nat.le_of_not_lt hRoom
  · simp only [Assembly.methodLocalTypes, Checks.bind_ok] at hLocals
    obtain ⟨view, hView, -⟩ := hLocals
    exact ⟨assembly, view, hAssembly, hView⟩

theorem enter_ok {argumentBase returnBase : Nat} (h : enter units machine unit method argumentBase returnBase = .ok machine')
    (hRoom : machine.frames.length < maxCallFrames) : Entered units machine unit method machine' ∧ machine'.stack = machine.stack := by
  simp only [enter, Checks.bind_ok, Checks.pure_ok] at h
  obtain ⟨⟨frame', locals⟩, hFrame, rfl⟩ := h
  have hNew := newFrame_ok hFrame
  exact ⟨⟨hNew.2.2, ⟨frame', rfl, hNew.1⟩, hRoom, hNew.2.1⟩, rfl⟩

/-- The methods that an instruction may enter. -/
inductive Operation.Enters (resolve : Nat → Nat → Checked LinkedTarget) (caller : Nat) (code : List Byte) (pc : Nat) :
    Operation → Nat → Nat → Prop
  | member {virtual : Bool} {row unit method : Nat} (hToken : tokenOperand code pc = .ok (Table.memberRef.id, row))
      (hTarget : resolve caller row = .ok (.managed unit method)) : Enters resolve caller code pc (.call virtual) unit method
  | method {operation : Operation} {row : Nat} (hOperation : operation = .newObject ∨ ∃ virtual, operation = .call virtual)
      (hToken : tokenOperand code pc = .ok (Table.methodDef.id, row)) (hRow : row ≠ 0) :
      Enters resolve caller code pc operation caller (row - 1)

/-- The types of a member that an instruction calls. -/
structure Asks (assembly : Assembly) (code : List Byte) (pc : Nat) (machine : Machine) (row : Nat) (types : MethodTypes) :
    Prop where
  token : tokenOperand code pc = .ok (Table.memberRef.id, row)
  known : assembly.memberTypes row = .ok types
  arguments : argumentCount types ≤ machine.stack.values.length

/-- What an instruction did. -/
inductive Effect (units : List Assembly) (resolve : Nat → Nat → Checked LinkedTarget) (machine : Machine) (frame : Frame)
    (assembly : Assembly) (code : List Byte) (pc next : Nat) (operation : Operation) : Progress → Prop
  | continues {machine' : Machine} (h : Continues machine operation code pc next machine') :
      Effect units resolve machine frame assembly code pc next operation (.next machine')
  | enters {unit method : Nat} {machine' : Machine} (hEnters : operation.Enters resolve frame.unit code pc unit method)
      (hEntered : Entered units machine unit method machine')
      (hStack : machine.stack.Grown 2 machine'.stack) :
      Effect units resolve machine frame assembly code pc next operation (.next machine')
  | entersMember {unit method : Nat} {machine' : Machine} (hEnters : operation.Enters resolve frame.unit code pc unit method)
      (hEntered : Entered units machine unit method machine') (hStack : machine'.stack = machine.stack) :
      Effect units resolve machine frame assembly code pc next operation (.continue' machine')
  | leaves {machine' : Machine} (hFrames : machine'.frames = machine.frames.tail)
      (hLocals : machine'.locals.length ≤ machine.locals.length)
      (hStack : machine.stack.Grown 1 machine'.stack) :
      Effect units resolve machine frame assembly code pc next operation (.next machine')
  | answers {virtual : Bool} {row : Nat} {types : MethodTypes} {target : LinkedTarget} (hOperation : operation = .call virtual)
      (hAsks : Asks assembly code pc machine row types)
      (hTarget : resolve frame.unit row = .ok target) (hHost : ∀ unit method, target ≠ .managed unit method)
      {result : Option RuntimeValue} {progress : Progress} (hAnswered : answered machine (machine.stack.values.length - argumentCount types)
        types.result.isSome result = .ok progress) :
      Effect units resolve machine frame assembly code pc next operation progress
  | native {virtual : Bool} {row : Nat} {types : MethodTypes} {id : UInt8} (hOperation : operation = .call virtual)
      (hAsks : Asks assembly code pc machine row types) (hTarget : resolve frame.unit row = .ok (.native id)) :
      Effect units resolve machine frame assembly code pc next operation (.native ⟨frame.unit, row, id,
        machine.stack.values.drop (machine.stack.values.length - argumentCount types),
        machine.stack.values.length - argumentCount types, types.result.isSome⟩ machine)
  | returns {result : Option Int32} : Effect units resolve machine frame assembly code pc next operation (.returned result)

theorem callMember_effect {virtual : Bool} {row : Nat} (hToken : tokenOperand code pc = .ok (Table.memberRef.id, row))
    (h : callMember units resolve machine frame assembly row = .ok progress) :
    Effect units resolve machine frame assembly code pc next (.call virtual) progress := by
  simp only [callMember, Checks.bind_ok, refuseIf, Checks.failIf_ok] at h
  obtain ⟨types, hTypes, -, hArguments, -, -, target, hTarget, h⟩ := h
  have hAsks : Asks assembly code pc machine row types := ⟨hToken, hTypes, Nat.le_of_not_lt hArguments⟩
  cases target with
  | objectConstructor =>
      dsimp only at h
      split at h
      · exact .answers rfl hAsks hTarget (fun _ _ => LinkedTarget.noConfusion) h
      · cases h
  | currentDomain =>
      dsimp only at h
      split at h
      · exact .answers rfl hAsks hTarget (fun _ _ => LinkedTarget.noConfusion) h
      · cases h
  | domainStorage =>
      dsimp only at h
      split at h
      · exact .answers rfl hAsks hTarget (fun _ _ => LinkedTarget.noConfusion) h
      · cases h
  | domainKeys =>
      dsimp only at h
      split at h
      · exact .answers rfl hAsks hTarget (fun _ _ => LinkedTarget.noConfusion) h
      · cases h
  | native id =>
      cases h
      exact .native rfl hAsks hTarget
  | managed unit method =>
      simp only [Checks.bind_ok, Checks.pure_ok, Checks.failIf_ok] at h
      obtain ⟨-, hRoom, target, -, targetTypes, -, -, -, machine', hEnter, rfl⟩ := h
      have hEntered := enter_ok hEnter (Nat.lt_of_not_le hRoom)
      exact .entersMember (.member hToken hTarget) hEntered.1 hEntered.2

theorem callMethod_effect {virtual : Bool} {row : Nat} (hToken : tokenOperand code pc = .ok (Table.methodDef.id, row))
    (h : callMethod units machine frame assembly virtual row = .ok progress) :
    Effect units resolve machine frame assembly code pc next (.call virtual) progress := by
  simp only [callMethod, Checks.bind_ok, Checks.pure_ok, refuseIf, Checks.failIf_ok] at h
  obtain ⟨-, hRow, types, -, -, -, -, -, -, hRoom, machine', hEnter, rfl⟩ := h
  have hEntered := enter_ok hEnter (Nat.lt_of_not_le fun hFull => hRoom (.inr hFull))
  exact .enters (.method (.inr ⟨virtual, rfl⟩) hToken hRow) hEntered.1 (hEntered.2 ▸ EvaluationStack.Lower.rfl.grown 2)

theorem call_effect {virtual : Bool} (h : call units resolve machine frame assembly code pc virtual = .ok progress) :
    Effect units resolve machine frame assembly code pc next (.call virtual) progress := by
  simp only [call, Checks.bind_ok] at h
  obtain ⟨⟨table, row⟩, hToken, h⟩ := h
  dsimp only at h
  split at h
  · rename_i hTable
    exact callMember_effect (hTable ▸ hToken) h
  · split at h
    · cases h
    · rename_i hTable
      exact callMethod_effect (Decidable.not_not.1 hTable ▸ hToken) h

/-- The object is there twice, and nothing else has changed but the heap. -/
theorem placeObject_ok {allocator : Nat → Bool} {constructor' base : Nat}
    (h : placeObject allocator machine frame assembly code pc = .ok ((constructor', base), machine')) :
    (∃ row, tokenOperand code pc = .ok (Table.methodDef.id, row) ∧ row ≠ 0 ∧ constructor' = row - 1) ∧
      machine'.frames = machine.frames ∧ machine.frames.length < maxCallFrames ∧ machine'.locals = machine.locals ∧
      machine.stack.Grown 2 machine'.stack := by
  simp only [placeObject, Checks.bind_ok, Checks.pure_ok, refuseIf, Checks.failIf_ok] at h
  obtain ⟨⟨table, row⟩, hToken, -, hTable, -, hRow, types, -, -, -, -, hArguments, -, hRoom, owner, -, fields, -, object, -,
    hResult⟩ := h
  cases hResult
  generalize hBase : machine.stack.values.length - types.parameters.length = base
  have hFirst : (machine.stack.insert base object).values.length = machine.stack.values.length + 1 :=
    machine.stack.insert_length object (by omega)
  have hSecond : ((machine.stack.insert base object).insert (base + 1) object).values.length =
      (machine.stack.insert base object).values.length + 1 := EvaluationStack.insert_length _ object (by omega)
  refine ⟨⟨row, Decidable.not_not.1 hTable ▸ hToken, hRow, rfl⟩, rfl, ?_, rfl, ?_, ?_⟩
  · exact Nat.lt_of_not_le fun hFull => hRoom (.inr hFull)
  · exact (hSecond.trans (congrArg Nat.succ hFirst)).le
  · show max (max machine.stack.peak (machine.stack.values.length + 1)) ((machine.stack.insert base object).values.length + 1) ≤ _
    rw [hFirst]
    omega

theorem construct_effect {allocator : Nat → Bool} (h : construct units allocator machine frame assembly code pc = .ok progress) :
    Effect units resolve machine frame assembly code pc next .newObject progress := by
  simp only [construct, Checks.bind_ok, Checks.pure_ok] at h
  obtain ⟨⟨⟨constructor', base⟩, placed⟩, hPlaced, machine', hEnter, rfl⟩ := h
  obtain ⟨⟨row, hToken, hRow, rfl⟩, hFrames, hRoom, -, hStack⟩ := placeObject_ok hPlaced
  have hEntered := enter_ok hEnter (hFrames ▸ hRoom)
  apply Effect.enters (.method (.inl rfl) hToken hRow)
  · exact ⟨hEntered.1.body, hFrames ▸ hEntered.1.frames, hRoom, hEntered.1.locals⟩
  · rw [hEntered.2]
    exact hStack

theorem leave_effect {operation : Operation} (h : leave machine frame = .ok progress) :
    Effect units resolve machine frame assembly code pc next operation progress := by
  simp only [leave, Checks.bind_ok] at h
  obtain ⟨⟨result, stack⟩, hResult, -, -, h⟩ := h
  have hLower : stack.Lower machine.stack := by
    unfold popResult at hResult
    split at hResult
    · simp only [Checks.bind_ok, Checks.pure_ok] at hResult
      obtain ⟨⟨value, popped⟩, hPop, hResult⟩ := hResult
      cases hResult
      exact EvaluationStack.pop_lower hPop
    · cases hResult
      exact .rfl
  split at h
  · cases result with
    | none =>
        cases h
        exact .returns
    | some value =>
        simp only [Checks.bind_ok, Checks.pure_ok] at h
        obtain ⟨value, -, rfl⟩ := h
        exact .returns
  · cases h
    apply Effect.leaves
    · rfl
    · exact List.length_take_le' _ _
    · have hCleared := hLower.trans (stack.clear_lower frame.returnBase)
      cases result with
      | none => exact hCleared.grown 1
      | some value => exact hCleared.push value

variable {allocator : Nat → Bool} {operation : Operation} {value : Nat}

theorem Effect.of_quiet (h : ∃ machine', progress = .next machine' ∧ Quiet machine machine') :
    Effect units resolve machine frame assembly code pc next operation progress := by
  obtain ⟨machine', rfl, hQuiet⟩ := h
  exact .continues (.on hQuiet)

/-- Whatever an instruction does, it is one of the effects. -/
theorem execute_effect (h : execute units resolve allocator operation machine frame assembly code pc next value = .ok progress) :
    Effect units resolve machine frame assembly code pc next operation progress := by
  cases operation with
  | nop =>
      cases h
      exact .of_quiet ⟨_, rfl, .lower .rfl⟩
  | loadArgument index => exact .of_quiet (loadArgument_ok h)
  | loadLocal index => exact .of_quiet (loadLocal_ok h)
  | storeLocal index => exact .of_quiet (storeLocal_ok h)
  | loadArgumentShort =>
      obtain ⟨index, -, h⟩ := Checks.bind_ok.1 h
      exact .of_quiet (loadArgument_ok h)
  | loadLocalShort =>
      obtain ⟨index, -, h⟩ := Checks.bind_ok.1 h
      exact .of_quiet (loadLocal_ok h)
  | storeLocalShort =>
      obtain ⟨index, -, h⟩ := Checks.bind_ok.1 h
      exact .of_quiet (storeLocal_ok h)
  | loadNull =>
      cases h
      exact .of_quiet ⟨_, rfl, .push .rfl _⟩
  | loadConstant value =>
      cases h
      exact .of_quiet ⟨_, rfl, .push .rfl _⟩
  | loadByte =>
      obtain ⟨byte, -, h⟩ := Checks.bind_ok.1 h
      cases h
      exact .of_quiet ⟨_, rfl, .push .rfl _⟩
  | loadWord =>
      obtain ⟨word, -, h⟩ := Checks.bind_ok.1 h
      cases h
      exact .of_quiet ⟨_, rfl, .push .rfl _⟩
  | dup => exact .of_quiet (dup_ok h)
  | pop =>
      obtain ⟨⟨value, stack⟩, hPop, h⟩ := Checks.bind_ok.1 h
      cases h
      exact .of_quiet ⟨_, rfl, .lower (EvaluationStack.pop_lower hPop)⟩
  | call virtual => exact call_effect h
  | newObject => exact construct_effect h
  | loadField => exact .of_quiet (loadField_ok h)
  | storeField => exact .of_quiet (storeField_ok h)
  | «return» => exact leave_effect h
  | branch kind short =>
      obtain ⟨machine', rfl, hContinues⟩ := branch_ok h
      exact .continues hContinues
  | switch =>
      obtain ⟨machine', rfl, hContinues⟩ := switchBranch_ok h
      exact .continues hContinues
  | binary => exact .of_quiet (binary_ok h)
  | unary => exact .of_quiet (unary_ok h)
  | newArray => exact .of_quiet (newArray_ok h)
  | arrayLength => exact .of_quiet (arrayLength_ok h)
  | loadElement bytes => exact .of_quiet (loadElement_ok h)
  | storeElement bytes => exact .of_quiet (storeElement_ok h)
  | compare => exact .of_quiet (compare_ok h)

end Calls

end MicroCard.Mc04
