import MicroCard.Mc04.Host
import MicroCard.Mc04.MachineSpec

/-! What a run may take: values on the stack, frames, locals and objects. -/
namespace MicroCard.Mc04

open Bytes Halting

/-- The limits of a run. The stack reserves its room for two values more than a method may
hold, and a value above that would move it. -/
structure Bounded (machine : Machine) : Prop where
  values : machine.stack.values.length ≤ maxEvaluationStack + 2
  peak : machine.stack.peak ≤ maxEvaluationStack + 2
  frames : machine.frames.length ≤ maxCallFrames
  locals : machine.locals.length ≤ maxActiveLocals
  bytes : machine.heap.used ≤ maxTransientBytes
  objects : machine.heap.objects.length ≤ maxTransientObjects

section Steps

variable {units : List Assembly} {resolve : Nat → Nat → Checked LinkedTarget} {allocator : Nat → Bool}
  {cancelled : Nat → Bool} {machine machine' counted : Machine} {progress : Progress}

/-- Counting an instruction changes nothing else. -/
theorem account_ok (h : account cancelled machine = .ok counted) : counted.stack = machine.stack ∧
    counted.locals = machine.locals ∧ counted.frames = machine.frames ∧ counted.heap = machine.heap := by
  unfold account at h
  split at h
  · simp only [Checks.bind_ok, Checks.pure_ok] at h
    obtain ⟨-, -, polled, rfl, -, -, rfl⟩ := h
    exact ⟨rfl, rfl, rfl, rfl⟩
  · simp only [Checks.bind_ok, Checks.pure_ok] at h
    obtain ⟨polled, rfl, -, -, rfl⟩ := h
    exact ⟨rfl, rfl, rfl, rfl⟩

/-- What a step did: the instruction that it read had an effect, and the stack was checked
behind it. -/
theorem step_ok (h : step units resolve allocator cancelled machine = .ok progress) :
    ∃ counted fetched operation', account cancelled machine = .ok counted ∧ fetch units counted = .ok fetched ∧
      operation fetched.opcode = some operation' ∧
      execute units resolve allocator operation' (counted.jump fetched.next) fetched.frame fetched.assembly fetched.code
        fetched.frame.pc fetched.next fetched.value = .ok progress ∧
      ∀ machine', progress = .next machine' → machine'.stack.values.length ≤ maxEvaluationStack := by
  simp only [step, Checks.bind_ok, orRefuse, Checks.orFail_ok] at h
  obtain ⟨counted, hCount, fetched, hFetch, operation', hOperation, executed, hExecute, hCheck⟩ := h
  have hSame : executed = progress ∧ ∀ machine', executed = .next machine' →
      machine'.stack.values.length ≤ maxEvaluationStack := by
    cases executed with
    | next machine' =>
        simp only [checkStack, Checks.bind_ok, Checks.pure_ok, refuseIf, Checks.failIf_ok] at hCheck
        obtain ⟨-, hLength, rfl⟩ := hCheck
        exact ⟨rfl, fun _ hNext => Progress.next.inj hNext ▸ Nat.le_of_not_lt hLength⟩
    | continue' machine' => exact ⟨Except.ok.inj hCheck, fun _ hNext => by cases hNext⟩
    | native call machine' => exact ⟨Except.ok.inj hCheck, fun _ hNext => by cases hNext⟩
    | returned result => exact ⟨Except.ok.inj hCheck, fun _ hNext => by cases hNext⟩
  obtain ⟨rfl, hLength⟩ := hSame
  exact ⟨counted, fetched, operation', hCount, hFetch, hOperation, hExecute, hLength⟩

@[simp] theorem jump_stack (machine : Machine) (target : Nat) : (machine.jump target).stack = machine.stack := rfl

@[simp] theorem jump_frames_length (machine : Machine) (target : Nat) :
    (machine.jump target).frames.length = machine.frames.length := by
  cases machine with
  | mk stack locals frames =>
      cases frames with
      | nil => rfl
      | cons frame rest => rfl

/-- What holds between two instructions. -/
structure Settled (machine : Machine) : Prop where
  values : machine.stack.values.length ≤ maxEvaluationStack
  peak : machine.stack.peak ≤ maxEvaluationStack + 2
  frames : machine.frames.length ≤ maxCallFrames
  locals : machine.locals.length ≤ maxActiveLocals

theorem Settled.bounded (h : Settled machine) : Bounded machine :=
  ⟨h.values.trans (Nat.le_add_right _ _), h.peak, h.frames, h.locals, machine.heap.small, machine.heap.few⟩

/-- The next instruction calls a member that the host answers. -/
structure CallsHost (units : List Assembly) (resolve : Nat → Nat → Checked LinkedTarget) (machine : Machine)
    (types : MethodTypes) : Prop where
  call : ∃ fetched virtual row target, fetch units machine = .ok fetched ∧
    operation fetched.opcode = some (.call virtual) ∧
    tokenOperand fetched.code fetched.frame.pc = .ok (Table.memberRef.id, row) ∧
    fetched.assembly.memberTypes row = .ok types ∧
    resolve fetched.frame.unit row = .ok target ∧ ∀ unit method, target ≠ .managed unit method

/-- The stack is full, and the next instruction calls a member that takes no values from it
and puts one on it. -/
def Spills (units : List Assembly) (resolve : Nat → Nat → Checked LinkedTarget) (machine : Machine) : Prop :=
  maxEvaluationStack ≤ machine.stack.values.length ∧
    ∃ types, CallsHost units resolve machine types ∧ argumentCount types = 0 ∧ types.result.isSome = true

theorem fetch_frames (h : counted.frames = machine.frames) : fetch units counted = fetch units machine := by
  unfold fetch
  rw [h]

theorem answered_ok {start : Nat} {returns : Bool} {result : Option RuntimeValue}
    (h : answered machine start returns result = .ok progress) : ∃ machine', progress = .continue' machine' ∧
      machine'.frames = machine.frames ∧ machine'.locals = machine.locals ∧
      machine'.stack.values.length ≤ start + (if returns = true then 1 else 0) ∧
      machine'.stack.peak ≤ max machine.stack.peak (start + 1) := by
  simp only [answered, Checks.bind_ok, Checks.pure_ok, refuseIf, Checks.failIf_ok] at h
  obtain ⟨-, hReturns, rfl⟩ := h
  rw [Decidable.not_not] at hReturns
  subst hReturns
  refine ⟨_, rfl, rfl, rfl, ?_, ?_⟩
  · cases result with
    | none => exact (EvaluationStack.clear_length _ _).le.trans (min_le_left _ _)
    | some value =>
        show (EvaluationStack.push _ value).values.length ≤ start + 1
        rw [EvaluationStack.push_length, EvaluationStack.clear_length]
        omega
  · cases result with
    | none => exact le_max_left _ _
    | some value =>
        show max machine.stack.peak ((machine.stack.clear start).values.length + 1) ≤ _
        rw [EvaluationStack.clear_length]
        omega

/-- The answer of the host leaves the stack within its limit, unless the call spills. -/
theorem Settled.answered (h : Settled machine) {types : MethodTypes} {result : Option RuntimeValue}
    (hArguments : argumentCount types ≤ machine.stack.values.length)
    (hFits : argumentCount types = 0 → types.result.isSome = true → machine.stack.values.length < maxEvaluationStack)
    {heap : Heap} (hAnswered : answered { machine with heap := heap } (machine.stack.values.length - argumentCount types)
      types.result.isSome result = .ok progress) : ∃ machine', progress = .continue' machine' ∧ Settled machine' := by
  obtain ⟨machine', rfl, hFrames, hLocals, hLength, hPeak⟩ := answered_ok hAnswered
  have hValues := h.values
  have hHighest := h.peak
  refine ⟨machine', rfl, ?_, ?_, hFrames ▸ h.frames, hLocals ▸ h.locals⟩
  · split at hLength
    · rename_i hReturns
      by_cases hNone : argumentCount types = 0
      · have hRoom := hFits hNone hReturns
        omega
      · omega
    · omega
  · exact hPeak.trans (max_le hHighest (by omega))

/-- A property of the machine behind an instruction; a native operation may leave any heap. -/
def Progress.Holds (P : Machine → Prop) : Progress → Prop
  | .next machine => P machine
  | .continue' machine => P machine
  | .native call machine => ∀ result heap resumed, resume call machine result heap = .ok resumed →
      ∃ machine', resumed = .continue' machine' ∧ P machine'
  | .returned _ => True

variable {frame : Frame} {assembly : Assembly} {code : List Byte} {pc next : Nat} {operation' : Operation}

theorem Settled.grown (h : Settled machine) {stack : EvaluationStack} {count : Nat} (hCount : count ≤ 2)
    (hGrown : machine.stack.Grown count stack) :
    stack.values.length ≤ maxEvaluationStack + 2 ∧ stack.peak ≤ maxEvaluationStack + 2 := by
  have hValues := h.values
  have hLength := hGrown.length
  exact ⟨by omega, hGrown.peak.trans (max_le h.peak (by omega))⟩

theorem Entered.frames_length {unit method : Nat} (h : Entered units machine unit method machine') :
    machine'.frames.length ≤ maxCallFrames := by
  obtain ⟨frame', hTop, -⟩ := h.frames
  rw [hTop]
  exact h.room

/-- Behind an instruction and before the check of the stack there are at most two values too
many. -/
theorem Settled.behind (h : Settled machine)
    (hEffect : Effect units resolve machine frame assembly code pc next operation' (.next machine')) : Bounded machine' := by
  cases hEffect with
  | continues hContinues =>
      cases hContinues with
      | on hQuiet =>
          have hStack := h.grown (by decide) hQuiet.stack
          exact ⟨hStack.1, hStack.2, hQuiet.frames ▸ h.frames, hQuiet.locals ▸ h.locals, machine'.heap.small, machine'.heap.few⟩
      | jumps hSends hTarget hQuiet =>
          have hStack := h.grown (by decide) hQuiet.stack
          have hFrames := congrArg List.length hQuiet.frames
          rw [jump_frames_length] at hFrames
          exact ⟨hStack.1, hStack.2, hFrames ▸ h.frames, hQuiet.locals ▸ h.locals, machine'.heap.small, machine'.heap.few⟩
  | enters hEnters hEntered hGrown =>
      have hStack := h.grown le_rfl hGrown
      exact ⟨hStack.1, hStack.2, hEntered.frames_length, hEntered.locals, machine'.heap.small, machine'.heap.few⟩
  | leaves hTail hShorter hGrown =>
      have hStack := h.grown (by decide) hGrown
      have hFrames : machine'.frames.length ≤ maxCallFrames := by
        rw [hTail, List.length_tail]
        exact (Nat.sub_le _ _).trans h.frames
      exact ⟨hStack.1, hStack.2, hFrames, hShorter.trans h.locals, machine'.heap.small, machine'.heap.few⟩
  | answers hCall hAsks hTarget hHost hAnswered =>
      obtain ⟨machine'', hNext, -⟩ := answered_ok hAnswered
      cases hNext

/-- An effect from within the limits stays within them if no answer of the host is one value
too many. -/
theorem Settled.effect (h : Settled machine)
    (hEffect : Effect units resolve machine frame assembly code pc next operation' progress)
    (hChecked : ∀ machine', progress = .next machine' → machine'.stack.values.length ≤ maxEvaluationStack)
    (hRoom : ∀ virtual row types target, operation' = .call virtual → Asks assembly code pc machine row types →
      resolve frame.unit row = .ok target → (∀ unit method, target ≠ .managed unit method) →
      argumentCount types = 0 → types.result.isSome = true → machine.stack.values.length < maxEvaluationStack) :
    progress.Holds Settled := by
  cases progress with
  | next machine' =>
      have hBounded := h.behind hEffect
      exact ⟨hChecked machine' rfl, hBounded.peak, hBounded.frames, hBounded.locals⟩
  | continue' machine' =>
      cases hEffect with
      | entersMember hEnters hEntered hSame =>
          exact ⟨hSame ▸ h.values, hSame ▸ h.peak, hEntered.frames_length, hEntered.locals⟩
      | answers hCall hAsks hTarget hHost hAnswered =>
          have hSettled : ∃ machine'', Progress.continue' machine' = .continue' machine'' ∧ Settled machine'' :=
            h.answered hAsks.arguments (hRoom _ _ _ _ hCall hAsks hTarget hHost) hAnswered
          obtain ⟨machine'', hNext, hSettled⟩ := hSettled
          cases hNext
          exact hSettled
  | native call machine' =>
      cases hEffect with
      | answers hCall hAsks hTarget hHost hAnswered =>
          obtain ⟨machine'', hNext, -⟩ := answered_ok hAnswered
          cases hNext
      | native hCall hAsks hTarget =>
          intro result heap resumed hResume
          exact h.answered hAsks.arguments (hRoom _ _ _ _ hCall hAsks hTarget fun _ _ => LinkedTarget.noConfusion) hResume
  | returned result => trivial

/-- Counting an instruction and going on behind it keeps the limits. -/
theorem Settled.fetched (h : Settled machine) (hCount : account cancelled machine = .ok counted) (target : Nat) :
    Settled (counted.jump target) := by
  obtain ⟨hStack, hLocals, hFrames, -⟩ := account_ok hCount
  constructor
  · exact hStack ▸ h.values
  · exact hStack ▸ h.peak
  · rw [jump_frames_length, hFrames]
    exact h.frames
  · exact hLocals ▸ h.locals

/-- A step from within the limits stays within them if it does not spill. -/
theorem Settled.step (h : Settled machine) (hFits : ¬Spills units resolve machine)
    (hStep : step units resolve allocator cancelled machine = .ok progress) : progress.Holds Settled := by
  obtain ⟨counted, fetched, operation', hCount, hFetch, hOperation, hExecute, hChecked⟩ := step_ok hStep
  obtain ⟨hStack, -, hFrames, -⟩ := account_ok hCount
  apply (h.fetched hCount fetched.next).effect (execute_effect hExecute) hChecked
  intro virtual row types target hCall hAsks hTarget hHost hNone hSome
  apply Nat.lt_of_not_le
  intro hFull
  rw [jump_stack, hStack] at hFull
  rw [fetch_frames hFrames] at hFetch
  exact hFits ⟨hFull, types, ⟨fetched, virtual, row, target, hFetch, hCall ▸ hOperation, hAsks.token, hAsks.known, hTarget,
    hHost⟩, hNone, hSome⟩

end Steps

section Runs

variable {σ : Type} (units : List Assembly) (external : External σ) (allocator : Nat → Nat → Bool) (cancelled : Nat → Bool)
  (entryUnit entry : Nat) (arguments : List Int32)

/-- The machines between the instructions of a run from an entry method, as long as every
one that the run left had a property. -/
inductive Reached (P : Machine → Prop) (initial : σ) : Machine → σ → Prop
  | start {machine : Machine} (hStart : start units entryUnit entry arguments = .ok machine) : Reached P initial machine initial
  | advance {machine machine' : Machine} {state state' : σ} (hBefore : Reached P initial machine state) (hLeft : P machine)
      (hAdvance : advance units external (allocator machine.fuel) cancelled machine state = (.running machine', state')) :
      Reached P initial machine' state'

variable {units external allocator cancelled entryUnit entry arguments}

/-- What holds behind every outcome of a step holds of the machine that the run goes on with. -/
theorem advance_holds {P : Machine → Prop} {machine machine' : Machine} {state state' : σ} {allocator : Nat → Bool}
    (hHolds : ∀ progress, step units external.resolve allocator cancelled machine = .ok progress → progress.Holds P)
    (hAdvance : advance units external allocator cancelled machine state = (.running machine', state')) : P machine' := by
  unfold advance at hAdvance
  split at hAdvance
  · cases hAdvance
  · rename_i hStep
    cases hAdvance
    exact hHolds _ hStep
  · rename_i hStep
    cases hAdvance
    exact hHolds _ hStep
  · cases hAdvance
  · rename_i call called hStep
    obtain ⟨hStatus, -⟩ := Prod.mk.inj hAdvance
    unfold afterNative at hStatus
    split at hStatus
    · cases hStatus
    · split at hStatus
      · rename_i hResume
        obtain ⟨machine'', hNext, hHere⟩ := hHolds _ hStep _ _ _ hResume
        cases hNext
        cases hStatus
        exact hHere
      · cases hStatus
      · cases hStatus

end Runs

section Zeros

variable {σ : Type} {units : List Assembly} {external : External σ} {allocator : Nat → Nat → Bool} {machine machine' : Machine}
  {frame : Frame} {rest : List Frame} {assembly : Assembly} {method : MethodView} {state : σ}

/-- The instructions until the next poll, and the polls, one instruction later. -/
def tick (clock : Nat × Nat) : Nat × Nat := if clock.1 = 0 then (63, clock.2 + 1) else (clock.1 - 1, clock.2)

/-- A machine behind so many instructions that each put a zero on the stack. -/
def Machine.zeros (machine : Machine) (frame : Frame) (rest : List Frame) (count : Nat) : Machine where
  stack := ⟨machine.stack.values ++ List.replicate count (.int 0), max machine.stack.peak (machine.stack.values.length + count)⟩
  locals := machine.locals
  frames := { frame with pc := frame.pc + count } :: rest
  heap := machine.heap
  fuel := machine.fuel - count
  countdown := (tick^[count] (machine.countdown, machine.polls)).1
  polls := (tick^[count] (machine.countdown, machine.polls)).2

end Zeros

section Spilling

theorem loneVersion_size : (#[1, 0, 0, 0] : Array UInt16).size = 4 := rfl

/-- A package that runs by itself. -/
def loneUnit (image : List Byte) (calls : List ResolvedCall) : ExecutionUnit where
  package := {
    manifest := ⟨"ISD", Cbor.Fixed.replicate 16 0, "M", ⟨#[1, 0, 0, 0], loneVersion_size⟩, 1, ⟨0, none⟩, [], [], [], [], ⟨0, 0, 0, 0⟩⟩
    image := image
    signer := Cbor.Fixed.replicate 32 0
    digest := Cbor.Fixed.replicate 32 0 }
  bindings := []
  calls := calls

theorem isOkAnd_ok {α : Type} {x : Checked α} {p : α → Bool} (h : isOkAnd x p = true) : ∃ a, x = .ok a ∧ p a = true := by
  cases x with
  | ok a => exact ⟨a, rfl, h⟩
  | error halt => cases h

end Spilling

end MicroCard.Mc04
