import MicroCard.Mc04.ReadingSpec

/-! The checks of a method body end, and what they establish of its instructions. -/
namespace MicroCard.Mc04

open Bytes Halting Checks

section Decoding

variable {code : List Byte} {rows : Rows}

/-- Prefixed opcodes have no operand. -/
theorem lookup_extended {value : Nat} {opcode : Opcode} (h : Opcode.lookup value = some opcode) (hPrefix : 0xff < value) :
    opcode.operand = .none ∧ opcode.fixedLength = 2 := by
  unfold Opcode.lookup at h
  rw [if_neg (by omega)] at h
  split at h
  · cases h
  · obtain ⟨index, hIndex, hProfile⟩ := Option.bind_eq_some_iff.1 h
    have hAll : ∀ index ∈ extended, ∀ opcode, Opcode.profile index = some opcode →
        opcode.operand = .none ∧ opcode.fixedLength = 2 := by decide
    exact hAll index (List.mem_of_getElem? hIndex) opcode hProfile

/-- The values that an opcode can have. -/
def opcodeValues : List Nat := List.range 0x100 ++ (List.range 6).map fun index => 0xfe00 + index

theorem lookup_value {value : Nat} {opcode : Opcode} (h : Opcode.lookup value = some opcode) : value ∈ opcodeValues := by
  unfold Opcode.lookup at h
  apply List.mem_append.2
  split at h
  · exact .inl (List.mem_range.2 (by omega))
  · split at h
    · cases h
    · obtain ⟨index, hIndex, -⟩ := Option.bind_eq_some_iff.1 h
      have hSmall : value - 0xfe00 < 6 := (List.getElem?_eq_some_iff.1 hIndex).1
      exact .inr (List.mem_map.2 ⟨value - 0xfe00, List.mem_range.2 hSmall, by omega⟩)

/-- How many bytes the operand of an opcode takes at least. -/
def Operand.room : Operand → Nat
  | .none => 0
  | .i8 | .varU8 | .branchI8 => 1
  | .i32 | .branchI32 | .switchI32 => 4
  | .methodToken | .fieldToken | .typeToken => 3

/-- Opcodes whose length is fixed count their operand and themselves. -/
theorem fixedLength_room {opcode : Opcode} (h : opcode ∈ profiles)
    (hFixed : opcode.operand ∉ [.switchI32, .methodToken, .fieldToken, .typeToken]) :
    opcode.operand.room + 1 ≤ opcode.fixedLength := by
  have hAll : ∀ opcode ∈ profiles, opcode.operand ∉ [.switchI32, .methodToken, .fieldToken, .typeToken] →
      opcode.operand.room + 1 ≤ opcode.fixedLength := by decide
  exact hAll opcode h hFixed

theorem opcodeAt_ok {missing truncated : Halt Error} {pc value operand : Nat}
    (h : opcodeAt code pc missing truncated = .ok (value, operand)) :
    pc < code.length ∧ (value ≤ 0xff ∧ operand = pc + 1 ∨ 0xff < value ∧ operand = pc + 2) ∧
      ∀ missing truncated, opcodeAt code pc missing truncated = .ok (value, operand) := by
  unfold opcodeAt at h ⊢
  simp only [bind_ok, orFail_ok] at h
  obtain ⟨first, hFirst, hRest⟩ := h
  have hInside : pc < code.length := (List.getElem?_eq_some_iff.1 hFirst).1
  refine ⟨hInside, ?_⟩
  split at hRest
  · rename_i hPrefix
    simp only [bind_ok, orFail_ok, pure_ok, Prod.mk.injEq] at hRest
    obtain ⟨second, hSecond, rfl, rfl⟩ := hRest
    refine ⟨.inr ⟨by omega, rfl⟩, ?_⟩
    intro missing truncated
    simp [CrashTriple.orFail, hFirst, hSecond, hPrefix]
    rfl
  · rename_i hPlain
    simp only [pure_ok, Prod.mk.injEq] at hRest
    obtain ⟨rfl, rfl⟩ := hRest
    refine ⟨.inl ⟨Nat.le_of_lt_succ first.toNat_lt, rfl⟩, ?_⟩
    intro missing truncated
    simp [CrashTriple.orFail, hFirst, hPlain]
    rfl

@[simp] theorem opcodeAt_ends (pc : Nat) (first second : Error) :
    Ends (opcodeAt code pc (.refused first) (.refused second)) := by
  change Ends (orRefuse code[pc]? first >>= fun first' => if first'.toNat = 0xfe then
    (orRefuse code[pc + 1]? second >>= fun second' => pure (0xfe00 + second'.toNat, pc + 2)) else pure (first'.toNat, pc + 1))
  simp

/-- An instruction as the sweep over a body reads it. -/
structure Decoded (rows : Rows) (code : List Byte) (start value operand : Nat) (opcode : Opcode) (stop : Nat) : Prop where
  at' : ∀ missing truncated, opcodeAt code start missing truncated = .ok (value, operand)
  lookup : Opcode.lookup value = some opcode
  (end' : operandEnd code start operand rows opcode = .ok stop)
  /-- The operand comes after the opcode, and fits. -/
  forward : start < operand
  room : operand + opcode.operand.room ≤ stop
  inside : stop ≤ code.length

theorem operandEnd_room {start cursor stop : Nat} {opcode : Opcode} (h : operandEnd code start cursor rows opcode = .ok stop)
    (hOpcode : opcode ∈ profiles)
    (hCursor : cursor = start + 1 ∨ (opcode.operand = .none ∧ opcode.fixedLength = 2) ∧ cursor = start + 2) :
    cursor + opcode.operand.room ≤ stop := by
  have hSized := fixedLength_room hOpcode
  unfold operandEnd at h
  cases hOperand : opcode.operand <;> rw [hOperand] at h hSized hCursor
  case switchI32 =>
    simp only [bind_ok, pure_ok] at h
    obtain ⟨count, -, _, -, rfl⟩ := h
    simp only [Operand.room]
    omega
  case methodToken | fieldToken | typeToken =>
    simp only [bind_ok, pure_ok] at h
    obtain ⟨table, -, row, -, _, -, rfl⟩ := h
    exact le_rfl
  all_goals
    simp only [pure_ok] at h
    simp only [Operand.room, List.mem_cons, reduceCtorEq, List.not_mem_nil, or_self, not_false_eq_true, forall_const, false_and,
      or_false, true_and] at hSized hCursor ⊢
    omega

theorem instructionEnd_ok {start stop : Nat} (h : instructionEnd code start rows = .ok stop) :
    ∃ value operand opcode, Decoded rows code start value operand opcode stop := by
  unfold instructionEnd at h
  simp only [bind_ok, pure_ok, Prod.exists] at h
  obtain ⟨value, cursor, hAt, opcode, hLookup, end', hEnd, _, hInside, rfl⟩ := h
  have hLookup := orFail_ok.1 hLookup
  have hInside := failIf_ok.1 hInside
  obtain ⟨hStart, hCursor, hAnywhere⟩ := opcodeAt_ok hAt
  have hMem := Opcode.lookup_mem hLookup
  have hOperand : cursor = start + 1 ∨ (opcode.operand = .none ∧ opcode.fixedLength = 2) ∧ cursor = start + 2 := by
    rcases hCursor with ⟨-, hCursor⟩ | ⟨hPrefix, hCursor⟩
    · exact .inl hCursor
    · exact .inr ⟨lookup_extended hLookup hPrefix, hCursor⟩
  refine ⟨value, cursor, opcode, hAnywhere, hLookup, hEnd, by omega, operandEnd_room hEnd hMem hOperand,
    by omega⟩

@[simp] theorem operandEnd_ends (start cursor : Nat) (opcode : Opcode) :
    Ends (operandEnd code start cursor rows opcode) := by
  unfold operandEnd
  split <;> simp

@[simp] theorem instructionEnd_ends (start : Nat) : Ends (instructionEnd code start rows) := by
  simp [instructionEnd]

theorem Decoded.next {start value operand stop : Nat} {opcode : Opcode} (h : Decoded rows code start value operand opcode stop) :
    start < stop := lt_of_lt_of_le h.forward (le_trans (Nat.le_add_right _ _) h.room)

theorem instructionEnd_forward {start stop : Nat} (h : instructionEnd code start rows = .ok stop) :
    start < stop ∧ stop ≤ code.length := by
  obtain ⟨value, operand, opcode, hDecoded⟩ := instructionEnd_ok h
  exact ⟨hDecoded.next, hDecoded.inside⟩

@[simp] theorem branchTarget_ends (base : Nat) (delta : Int) (codeLength : Nat) : Ends (branchTarget base delta codeLength) := by
  simp [branchTarget]

theorem branchTarget_less {base codeLength target : Nat} {delta : Int} (h : branchTarget base delta codeLength = .ok target) :
    target < codeLength := by
  simp only [branchTarget, bind_ok, pure_ok] at h
  obtain ⟨_, hBounds, rfl⟩ := h
  have hBounds := failIf_ok.1 hBounds
  omega

@[simp] theorem longDelta_ends (operand : Nat) : Ends (longDelta code operand) := by
  simp [longDelta]

@[simp] theorem switchDelta_ends (operand index : Nat) : Ends (switchDelta code operand index) := longDelta_ends _

theorem shortDelta_ends {operand : Nat} (h : operand < code.length) : Ends (shortDelta code operand) :=
  (Settles.index h).bind fun _ _ _ => trivial

end Decoding

section Instructions

variable {rows : Rows} {code : List Byte}

/-- Where the instructions of a body start, one after the other. -/
inductive Starts (rows : Rows) (code : List Byte) : Nat → Prop where
  | zero : Starts rows code 0
  | next {pc stop : Nat} (start : Starts rows code pc) (ends : instructionEnd code pc rows = .ok stop) : Starts rows code stop

@[simp] theorem isInstructionStart_ends (target : Nat) : Ends (isInstructionStart code target rows) := by
  apply Settles.loop (I := fun _ => True) (fun cursor => code.length - cursor) _ trivial (by omega)
  intro cursor _
  unfold instructionStartStep
  split
  · apply Settles.bind (instructionEnd_ends cursor)
    intro stop hStop _
    obtain ⟨hForward, hInside⟩ := instructionEnd_forward hStop
    exact ⟨trivial, by omega⟩
  · trivial

theorem isInstructionStart_ok {target : Nat} (h : isInstructionStart code target rows = .ok true) : Starts rows code target := by
  obtain ⟨cursor, hStart, hLast⟩ := loop_ok (I := Starts rows code) (by
    intro cursor next hCursor hStep
    unfold instructionStartStep at hStep
    split at hStep
    · simp only [bind_ok, pure_ok, Sum.inl.injEq] at hStep
      obtain ⟨stop, hStop, rfl⟩ := hStep
      exact hCursor.next hStop
    · cases hStep) Starts.zero h
  unfold instructionStartStep at hLast
  split at hLast
  · simp only [bind_ok, pure_ok, reduceCtorEq, and_false, exists_false] at hLast
  · have hEqual : cursor = target := by simpa [pure_ok] using hLast
    exact hEqual ▸ hStart

/-- Every instruction of a body can be decoded. -/
def Swept (rows : Rows) (code : List Byte) : Prop :=
  ∀ pc, Starts rows code pc → pc < code.length → ∃ stop, instructionEnd code pc rows = .ok stop

theorem sweep_ends : Ends (loop (sweepStep rows code) (code.length + 1) 0) := by
  apply Settles.loop (I := fun _ => True) (fun cursor => code.length - cursor) _ trivial (by omega)
  intro cursor _
  unfold sweepStep
  split
  · apply Settles.bind (instructionEnd_ends cursor)
    intro stop hStop _
    obtain ⟨hForward, hInside⟩ := instructionEnd_forward hStop
    exact ⟨trivial, by omega⟩
  · trivial

theorem sweep_ok {cursor : Nat} (h : loop (sweepStep rows code) (code.length + 1) 0 = .ok cursor) : Swept rows code := by
  have hReached : ∀ pc, Starts rows code pc →
      Relation.ReflTransGen (fun s next => sweepStep rows code s = .ok (.inl next)) 0 pc := by
    intro pc hStart
    induction hStart with
    | zero => exact Relation.ReflTransGen.refl
    | @next pc stop start ends ih =>
        have hForward := instructionEnd_forward ends
        apply ih.tail
        unfold sweepStep
        rw [if_pos (by omega), ends]
        rfl
  intro pc hStart hInside
  obtain ⟨next, hStep⟩ := loop_reached h (hReached pc hStart)
  unfold sweepStep at hStep
  rw [if_pos hInside] at hStep
  obtain ⟨stop, hStop, -⟩ := bind_ok.1 hStep
  exact ⟨stop, hStop⟩

theorem Swept.decoded (h : Swept rows code) {pc : Nat} (hStart : Starts rows code pc) (hInside : pc < code.length) :
    ∃ value operand opcode stop, instructionEnd code pc rows = .ok stop ∧ Decoded rows code pc value operand opcode stop := by
  obtain ⟨stop, hStop⟩ := h pc hStart hInside
  obtain ⟨value, operand, opcode, hDecoded⟩ := instructionEnd_ok hStop
  exact ⟨value, operand, opcode, stop, hStop, hDecoded⟩

@[simp] theorem checkTarget_ends (stop : Nat) (delta : Int) : Ends (checkTarget rows code stop delta) := by
  simp [checkTarget]

/-- Where a branch goes, an instruction starts. -/
def Lands (rows : Rows) (code : List Byte) (stop : Nat) (delta : Int) : Prop :=
  ∃ target, branchTarget stop delta code.length = .ok target ∧ Starts rows code target ∧ target < code.length

theorem checkTarget_ok {stop : Nat} {delta : Int} {u : Unit} (h : checkTarget rows code stop delta = .ok u) :
    Lands rows code stop delta := by
  simp only [checkTarget, bind_ok] at h
  obtain ⟨target, hTarget, started, hStarted, hYes⟩ := h
  have hYes := failIf_ok.1 hYes
  rw [Bool.not_eq_false] at hYes
  rw [hYes] at hStarted
  exact ⟨target, hTarget, isInstructionStart_ok hStarted, branchTarget_less hTarget⟩

/-- The branches of an instruction land. -/
def Branches (rows : Rows) (code : List Byte) (operand : Operand) (operandStart stop : Nat) : Prop :=
  match operand with
  | .branchI8 => ∀ delta, shortDelta code operandStart = .ok delta → Lands rows code stop delta
  | .branchI32 => ∀ delta, longDelta code operandStart = .ok delta → Lands rows code stop delta
  | .switchI32 => ∀ count, u32At code operandStart = .ok count → ∀ index < count,
      ∀ delta, switchDelta code operandStart index = .ok delta → Lands rows code stop delta
  | _ => True

theorem checkBranches_ok {operand : Operand} {operandStart stop branches branches' : Nat}
    (h : checkBranches rows code operand operandStart stop branches = .ok branches') :
    Branches rows code operand operandStart stop := by
  cases operand with
  | branchI8 =>
      intro delta hDelta
      simp only [checkBranches, hDelta, bind_ok] at h
      obtain ⟨_, hSame, _, hTarget, -⟩ := h
      cases hSame
      exact checkTarget_ok hTarget
  | branchI32 =>
      intro delta hDelta
      simp only [checkBranches, hDelta, bind_ok] at h
      obtain ⟨_, hSame, _, hTarget, -⟩ := h
      cases hSame
      exact checkTarget_ok hTarget
  | switchI32 =>
      intro count hCount index hIndex delta hDelta
      simp only [checkBranches, hCount, bind_ok] at h
      obtain ⟨_, hSame, _, hTargets, -⟩ := h
      cases hSame
      have hOne := forM_each hTargets (List.mem_range.2 hIndex)
      simp only [hDelta, bind_ok] at hOne
      obtain ⟨_, hSame, hTarget⟩ := hOne
      cases hSame
      exact checkTarget_ok hTarget
  | _ => trivial

theorem checkBranches_ends {start value operandStart stop branches : Nat} {opcode : Opcode}
    (h : Decoded rows code start value operandStart opcode stop) :
    Ends (checkBranches rows code opcode.operand operandStart stop branches) := by
  have hRoom := h.room
  have hInside := h.inside
  cases hOperand : opcode.operand with
  | branchI8 =>
      rw [hOperand, Operand.room] at hRoom
      simp [checkBranches, shortDelta_ends (show operandStart < code.length by omega)]
  | branchI32 => simp [checkBranches]
  | switchI32 =>
      simp only [checkBranches, ends_bind, u32At_ends]
      intro count _
      have hTargets : Ends ((List.range count).forM fun index => do
          let delta ← switchDelta code operandStart index
          checkTarget rows code stop delta) := by
        apply Settles.toEnds (P := fun _ => ∀ index ∈ List.range count, True)
        apply Settles.forM
        intro index _
        change Ends _
        simp
      exact Settles.bind hTargets fun _ _ _ => trivial
  | _ => simp [checkBranches]

/-- A body whose instructions can be decoded and whose branches land. -/
structure Framed (rows : Rows) (code : List Byte) : Prop where
  swept : Swept rows code
  branches : ∀ pc value operand opcode stop, Starts rows code pc → Decoded rows code pc value operand opcode stop →
    Branches rows code opcode.operand operand stop

theorem Decoded.ends {pc value operand stop : Nat} {opcode : Opcode} (h : Decoded rows code pc value operand opcode stop) :
    instructionEnd code pc rows = .ok stop := by
  have hInside := h.inside
  simp [instructionEnd, h.at', h.lookup, h.end', orRefuse, CrashTriple.orFail, refuseIf, CrashTriple.failIf,
    Nat.not_lt.2 hInside, bind, Except.bind, pure, Except.pure]

theorem branches_ok (hSwept : Swept rows code) {u : Unit} (h : loop (branchesStep rows code) (code.length + 1) (0, 0) = .ok u) :
    Framed rows code := by
  have hStep : ∀ pc branches value operand opcode stop, Decoded rows code pc value operand opcode stop →
      branchesStep rows code (pc, branches) = (checkBranches rows code opcode.operand operand stop branches >>= fun branches =>
        refuseIf (256 < branches) .quota >>= fun _ => pure (.inl (stop, branches))) := by
    intro pc branches value operand opcode stop hDecoded
    have hInside := lt_of_lt_of_le hDecoded.next hDecoded.inside
    unfold branchesStep
    rw [if_pos hInside, hDecoded.at', hDecoded.ends]
    change (orRefuse (Opcode.lookup value) Error.unsupported >>= fun opcode => _) = _
    rw [hDecoded.lookup]
    rfl
  have hReached : ∀ pc, Starts rows code pc →
      ∃ branches, Relation.ReflTransGen (fun s next => branchesStep rows code s = .ok (.inl next)) (0, 0) (pc, branches) := by
    intro pc hStart
    induction hStart with
    | zero => exact ⟨0, Relation.ReflTransGen.refl⟩
    | @next pc stop start ends ih =>
        obtain ⟨branches, hReached⟩ := ih
        obtain ⟨value, operand, opcode, hDecoded⟩ := instructionEnd_ok ends
        obtain ⟨next, hNext⟩ := loop_reached h hReached
        rw [hStep _ _ _ _ _ _ hDecoded] at hNext
        have hSame := hNext
        simp only [bind_ok] at hNext
        obtain ⟨branches', _, _, _, hLast⟩ := hNext
        cases hLast
        exact ⟨branches', hReached.tail (by rw [hStep _ _ _ _ _ _ hDecoded, hSame])⟩
  refine ⟨hSwept, ?_⟩
  intro pc value operand opcode stop hStart hDecoded
  obtain ⟨branches, hAt⟩ := hReached pc hStart
  obtain ⟨next, hNext⟩ := loop_reached h hAt
  rw [hStep _ _ _ _ _ _ hDecoded] at hNext
  obtain ⟨branches', hBranches, -⟩ := bind_ok.1 hNext
  exact checkBranches_ok hBranches

theorem branches_ends (hSwept : Swept rows code) : Ends (loop (branchesStep rows code) (code.length + 1) (0, 0)) := by
  apply Settles.loop (I := fun state => Starts rows code state.1) (fun state => code.length - state.1) _ Starts.zero (by
    show code.length - 0 < code.length + 1
    omega)
  intro state hStart
  unfold branchesStep
  split
  · rename_i hInside
    obtain ⟨value, operand, opcode, stop, hStop, hDecoded⟩ := hSwept.decoded hStart hInside
    rw [hDecoded.at', hStop]
    change Settles (orRefuse (Opcode.lookup value) Error.unsupported >>= _) _
    rw [hDecoded.lookup]
    apply Settles.bind (checkBranches_ends hDecoded)
    intro branches _ _
    apply Settles.refuseIf.bind
    intro _ _ _
    have hForward := hDecoded.next
    have hInside := hDecoded.inside
    exact ⟨hStart.next hStop, by show code.length - stop < code.length - state.1; omega⟩
  · trivial

theorem validateCil_settles : Settles (validateCil rows code) fun _ => Framed rows code := by
  apply Settles.bind sweep_ends
  intro cursor hSweep _
  apply Settles.refuseIf.bind
  intro _ _ _
  have hSwept := sweep_ok hSweep
  exact (branches_ends hSwept).and fun _ hRun => branches_ok hSwept hRun

/-- The operand of an opcode that has one is inside of the body. -/
theorem Decoded.operand_less {pc value operand stop : Nat} {opcode : Opcode}
    (h : Decoded rows code pc value operand opcode stop) (hRoom : opcode.operand.room ≠ 0) : operand < code.length := by
  have hFits := h.room
  have hInside := h.inside
  omega

/-- The opcodes that name an argument, a local or a method have an operand. -/
theorem Decoded.named {pc value operand stop : Nat} {opcode : Opcode} (h : Decoded rows code pc value operand opcode stop)
    (hValue : value ∈ [0x0e, 0x11, 0x13, 0x28, 0x6f, 0x73, 0x8d]) : operand < code.length := by
  have hAll : ∀ value ∈ [0x0e, 0x11, 0x13, 0x28, 0x6f, 0x73, 0x8d], ∀ opcode, Opcode.lookup value = some opcode →
      opcode.operand.room ≠ 0 := by decide
  exact h.operand_less (hAll value hValue opcode h.lookup)

@[simp] theorem index_ends {items : List Byte} {i : Nat} (h : i < items.length) :
    Ends (Halting.index items i : Checked Byte) := (Settles.index h).toEnds

end Instructions

namespace Heights

variable {rows : Rows} {code : List Byte} {heights : Heights}

/-- Pending instructions have a height, and there is room for one at every instruction. -/
structure Sound (rows : Rows) (code : List Byte) (heights : Heights) : Prop where
  length : heights.states.length = code.length
  pending : ∀ pc ∈ heights.pending, Starts rows code pc ∧ ∃ height, heights.states[pc]? = some (some height)

/-- Each instruction becomes pending once, when its height becomes known. -/
def left (heights : Heights) : Nat := heights.states.count none + heights.pending.length

/-- Heights that are sound, with no more left to do than before. -/
def Kept (rows : Rows) (code : List Byte) (before after : Heights) : Prop := Sound rows code after ∧ after.left ≤ before.left

theorem mergeHeight_settles (h : Sound rows code heights) {target : Nat} (hTarget : Starts rows code target) (height : Nat) :
    Settles (mergeHeight heights target height) (Kept rows code heights) := by
  unfold mergeHeight
  apply Settles.orRefuse.bind
  intro state _ hState
  have hInside := (List.getElem?_eq_some_iff.1 hState).1
  cases state with
  | none =>
      constructor
      · constructor
        · rw [List.length_set]
          exact h.length
        · intro pc hpc
          rcases List.mem_cons.1 hpc with rfl | hpc
          · exact ⟨hTarget, height, by simp [hInside]⟩
          · obtain ⟨hStart, known, hKnown⟩ := h.pending pc hpc
            refine ⟨hStart, known, ?_⟩
            rw [List.getElem?_set_ne _]
            · exact hKnown
            · rintro rfl
              rw [hState] at hKnown
              cases hKnown
      · have hOne : heights.states[target] = none := (List.getElem?_eq_some_iff.1 hState).2
        have hCount : 0 < heights.states.count none := List.count_pos_iff.2 (hOne ▸ List.getElem_mem hInside)
        have hFewer := List.count_set (a := some height) (b := (none : Option Nat)) hInside
        simp only [hOne, beq_self_eq_true, if_true] at hFewer
        show (heights.states.set target (some height)).count none + (heights.pending.length + 1) ≤ _
        rw [hFewer]
        simp only [left]
        simp
        omega
  | some known =>
      apply Settles.refuseIf.bind
      intro _ _ _
      exact ⟨h, le_rfl⟩

theorem Kept.trans {a b c : Heights} (h : Kept rows code a b) (h' : Kept rows code b c) : Kept rows code a c :=
  ⟨h'.1, le_trans h'.2 h.2⟩

end Heights

namespace CilShape

open Heights

variable {shape : CilShape} {heights : Heights}

@[simp] theorem popped_ends (opcode : Opcode) (value : Nat) (method : Option MethodShape) :
    Ends (shape.popped opcode value method) := by
  unfold popped
  split <;> simp

@[simp] theorem pushed_ends (opcode : Opcode) (method : Option MethodShape) : Ends (pushed opcode method) := by
  unfold pushed
  split <;> simp

variable {pc value operand stop : Nat} {opcode : Opcode}

theorem namedVariable_ends (h : Decoded shape.assembly.rows shape.code pc value operand opcode stop) :
    Ends (shape.namedVariable value operand) := by
  have hOperand := fun hValue => index_ends (h.named hValue)
  unfold namedVariable
  simp only [ends_ite, ends_pure, implies_true, true_and]
  intro _ _ _
  constructor
  · rintro rfl
    simp [hOperand (by decide)]
  · intro _
    constructor
    · intro hValue
      have hIndex := hOperand (by
        rcases hValue with rfl | rfl
        · decide
        · decide)
      simp [hIndex]
    · trivial

theorem calledShape_ends (h : Decoded shape.assembly.rows shape.code pc value operand opcode stop) :
    Ends (shape.calledShape value operand) := by
  unfold calledShape
  simp only [ends_ite, ends_pure, implies_true, and_true]
  intro hValue
  have hIndex := index_ends (h.named (by
    rcases hValue with rfl | rfl | rfl
    · decide
    · decide
    · decide))
  simp [hIndex]

theorem mergeTarget_settles (h : Sound shape.assembly.rows shape.code heights) {delta : Int} {height : Nat}
    (hLands : Lands shape.assembly.rows shape.code stop delta) :
    Settles (shape.mergeTarget stop delta height heights) (Kept shape.assembly.rows shape.code heights) := by
  obtain ⟨target, hTarget, hStart, -⟩ := hLands
  unfold mergeTarget
  rw [hTarget]
  exact mergeHeight_settles h hStart height

theorem mergeBranch_settles (h : Sound shape.assembly.rows shape.code heights)
    (hDecoded : Decoded shape.assembly.rows shape.code pc value operand opcode stop)
    (hBranches : Branches shape.assembly.rows shape.code opcode.operand operand stop) (height : Nat) :
    Settles (shape.mergeBranch opcode operand stop height heights) (Kept shape.assembly.rows shape.code heights) := by
  unfold mergeBranch
  cases hOperand : opcode.operand with
  | branchI8 =>
      rw [hOperand] at hBranches
      apply Settles.bind (shortDelta_ends (hDecoded.operand_less (by rw [hOperand]; decide)))
      intro delta hDelta _
      exact mergeTarget_settles h (hBranches delta hDelta)
  | branchI32 =>
      rw [hOperand] at hBranches
      apply Settles.bind (longDelta_ends operand)
      intro delta hDelta _
      exact mergeTarget_settles h (hBranches delta hDelta)
  | switchI32 =>
      rw [hOperand] at hBranches
      apply Settles.bind (u32At_ends shape.code operand)
      intro count hCount _
      apply Settles.foldlM _ ⟨h, le_rfl⟩
      intro current index hIndex hCurrent
      apply Settles.bind (switchDelta_ends operand index)
      intro delta hDelta _
      exact (mergeTarget_settles hCurrent.1 (hBranches count hCount index (List.mem_range.1 hIndex) delta hDelta)).weaken
        fun _ _ hNext => hCurrent.trans hNext
  | _ => trivial

theorem mergeNext_settles (h : Sound shape.assembly.rows shape.code heights) (hStart : Starts shape.assembly.rows shape.code stop)
    (height : Nat) : Settles (shape.mergeNext stop height heights) (Kept shape.assembly.rows shape.code heights) := by
  apply Settles.refuseIf.bind
  intro _ _ _
  exact mergeHeight_settles h hStart height

theorem mergeFlow_settles (h : Sound shape.assembly.rows shape.code heights)
    (hDecoded : Decoded shape.assembly.rows shape.code pc value operand opcode stop)
    (hBranches : Branches shape.assembly.rows shape.code opcode.operand operand stop)
    (hStart : Starts shape.assembly.rows shape.code stop) (height : Nat) :
    Settles (shape.mergeFlow opcode value operand stop height heights) (Kept shape.assembly.rows shape.code heights) := by
  unfold mergeFlow
  split
  · apply Settles.refuseIf.bind
    intro _ _ _
    exact ⟨h, le_rfl⟩
  · exact mergeBranch_settles h hDecoded hBranches height
  · apply (mergeBranch_settles h hDecoded hBranches height).bind
    intro next _ hNext
    exact (mergeNext_settles hNext.1 hStart height).weaken fun _ _ hLast => hNext.trans hLast
  · exact mergeNext_settles h hStart height
  · exact mergeNext_settles h hStart height

theorem visitHeight_settles (hFramed : Framed shape.assembly.rows shape.code) (h : Sound shape.assembly.rows shape.code heights)
    (hStart : Starts shape.assembly.rows shape.code pc) {height : Nat} (hHeight : heights.states[pc]? = some (some height)) :
    Settles (shape.visitHeight pc heights) (Kept shape.assembly.rows shape.code heights) := by
  have hInside : pc < shape.code.length := h.length ▸ (List.getElem?_eq_some_iff.1 hHeight).1
  obtain ⟨value, operand, opcode, stop, hStop, hDecoded⟩ := hFramed.swept.decoded hStart hInside
  unfold visitHeight Halting.index
  rw [hHeight, hDecoded.at', hStop]
  change Settles (orRefuse (Opcode.lookup value) Error.unsupported >>= _) _
  rw [hDecoded.lookup]
  apply Settles.bind (namedVariable_ends hDecoded)
  intro named _ _
  apply Settles.refuseIf.bind
  intro _ _ _
  apply Settles.bind (calledShape_ends hDecoded)
  intro method _ _
  apply Settles.bind (popped_ends opcode value method)
  intro popped _ _
  apply Settles.refuseIf.bind
  intro _ _ _
  apply Settles.bind (pushed_ends opcode method)
  intro pushed _ _
  apply Settles.refuseIf.bind
  intro _ _ _
  exact mergeFlow_settles h hDecoded (hFramed.branches _ _ _ _ _ hStart hDecoded) (hStart.next hStop) _

/-- The search for heights ends. -/
theorem validate_settles (hCode : shape.code ≠ []) : Settles shape.validate fun _ => Framed shape.assembly.rows shape.code := by
  have hLength := List.length_pos_iff.2 hCode
  apply validateCil_settles.bind
  intro _ _ hFramed
  apply Settles.bind (index_ends hLength)
  intro _ _ _
  apply Settles.loop (I := Sound shape.assembly.rows shape.code) Heights.left
  · intro heights h
    unfold heightStep
    split
    · exact hFramed
    · rename_i start pending hPending
      obtain ⟨hStart, height, hHeight⟩ := h.pending start (hPending ▸ List.mem_cons_self)
      have hRest : Sound shape.assembly.rows shape.code ⟨heights.states, pending⟩ :=
        ⟨h.length, fun pc hpc => h.pending pc (hPending ▸ List.mem_cons_of_mem _ hpc)⟩
      apply (visitHeight_settles hFramed hRest hStart hHeight).bind
      intro next _ hNext
      have hLess : left ⟨heights.states, pending⟩ < left heights := by simp [left, hPending]
      exact ⟨hNext.1, lt_of_le_of_lt hNext.2 hLess⟩
  · constructor
    · simp
    · intro pc hpc
      rw [List.mem_singleton.1 hpc]
      exact ⟨Starts.zero, 0, by simp [hLength]⟩
  · simp only [left, List.length_singleton]
    have hCount := List.count_le_length (a := (none : Option Nat)) (l := (List.replicate shape.code.length none).set 0 (some 0))
    rw [List.length_set, List.length_replicate] at hCount
    omega

end CilShape

namespace KnownStacks

/-- How many slots of the known stacks are null. -/
def nulls (known : KnownStacks) : Nat := (known.states.map fun state => state.2.count .null).sum

/-- A walk adds a stack, gives a null slot its type, or takes a pending instruction. -/
def left (known : KnownStacks) : Nat :=
  2 * (257 - known.states.length) + 2 * (known.nulls + (4096 - known.cells)) + known.pending.length

/-- Pending instructions are instructions, and the limits hold. -/
structure Sound (rows : Rows) (code : List Byte) (known : KnownStacks) : Prop where
  pending : ∀ pc ∈ known.pending, Starts rows code pc ∧ pc < code.length
  few : known.states.length ≤ 257
  small : known.cells ≤ 4096

/-- Stacks that are sound, with no more left to do than before. -/
def Kept (rows : Rows) (code : List Byte) (before after : KnownStacks) : Prop :=
  Sound rows code after ∧ after.left ≤ before.left

theorem Kept.trans {rows : Rows} {code : List Byte} {a b c : KnownStacks} (h : Kept rows code a b) (h' : Kept rows code b c) :
    Kept rows code a c := ⟨h'.1, le_trans h'.2 h.2⟩

end KnownStacks

section Merging

@[simp] theorem mergeSlot_ends (stored value : StackType) : Ends (mergeSlot stored value) := by
  simp [mergeSlot]

@[simp] theorem mergeStack_ends (current incoming : List StackType) : Ends (mergeStack current incoming) := by
  induction current generalizing incoming with
  | nil => simp [mergeStack]
  | cons stored storeds ih =>
      cases incoming with
      | nil => simp [mergeStack]
      | cons value values => simp [mergeStack, ih]

/-- A slot that changes was null. -/
theorem mergeSlot_ok {stored value merged : StackType} (h : mergeSlot stored value = .ok merged) :
    merged = stored ∨ stored = .null ∧ merged ≠ .null := by
  unfold mergeSlot at h
  split at h
  · exact .inl (pure_ok.1 h).symm
  · split at h
    · rename_i hDiffer hNull
      refine .inr ⟨hNull.1, ?_⟩
      rw [← pure_ok.1 h]
      exact fun hSame => hDiffer (hNull.1.trans hSame.symm)
    · simp only [bind_ok, pure_ok] at h
      obtain ⟨_, -, rfl⟩ := h
      exact .inl rfl

/-- A stack that changes has fewer nulls. -/
theorem mergeStack_ok {current incoming merged : List StackType} (hLength : current.length = incoming.length)
    (h : mergeStack current incoming = .ok merged) :
    merged.length = current.length ∧ (merged = current ∨ merged.count .null < current.count .null) := by
  induction current generalizing incoming merged with
  | nil =>
      simp only [mergeStack, pure_ok] at h
      exact ⟨h ▸ rfl, .inl h.symm⟩
  | cons stored storeds ih =>
      cases incoming with
      | nil => cases hLength
      | cons value values =>
          simp only [mergeStack, bind_ok, pure_ok] at h
          obtain ⟨slot, hSlot, rest, hRest, rfl⟩ := h
          obtain ⟨hSame, hFewer⟩ := ih (Nat.succ.inj hLength) hRest
          refine ⟨by simp [hSame], ?_⟩
          have hLe : rest.count .null ≤ storeds.count .null := by
            rcases hFewer with rfl | hFewer
            · exact le_rfl
            · exact hFewer.le
          rcases mergeSlot_ok hSlot with rfl | ⟨rfl, hNull⟩
          · rcases hFewer with rfl | hFewer
            · exact .inl rfl
            · right
              simp only [List.count_cons]
              omega
          · right
            rw [List.count_cons_of_ne hNull, List.count_cons_self]
            omega

/-- Replacing a stack by one with fewer nulls lowers their number. -/
theorem replaceStack_nulls {target : Nat} {current merged : List StackType} {states : List (Nat × List StackType)}
    (hFind : (states.find? fun state => state.1 = target).map Prod.snd = some current)
    (hFewer : merged.count .null < current.count .null) :
    ((replaceStack target merged states).map fun state => state.2.count .null).sum <
      (states.map fun state => state.2.count .null).sum := by
  induction states with
  | nil => cases hFind
  | cons state states ih =>
      unfold replaceStack
      by_cases hHere : state.1 = target
      · rw [if_pos hHere]
        simp only [List.find?_cons, hHere, decide_true, Option.map_some, Option.some.injEq] at hFind
        simp only [List.map_cons, List.sum_cons, hFind]
        omega
      · rw [if_neg hHere]
        simp only [List.find?_cons, hHere, decide_false] at hFind
        have hRest := ih hFind
        simp only [List.map_cons, List.sum_cons]
        omega

theorem replaceStack_length (target : Nat) (merged : List StackType) (states : List (Nat × List StackType)) :
    (replaceStack target merged states).length = states.length := by
  induction states with
  | nil => rfl
  | cons state states ih =>
      unfold replaceStack
      split
      · rfl
      · simp [ih]

open KnownStacks

variable {rows : Rows} {code : List Byte} {known : KnownStacks}

theorem mergeTypes_settles (h : KnownStacks.Sound rows code known) {target : Nat} (hTarget : Starts rows code target)
    (hInside : target < code.length) (incoming : List StackType) :
    Settles (mergeTypes known target incoming) (Kept rows code known) := by
  have hPending : ∀ pc ∈ target :: known.pending, Starts rows code pc ∧ pc < code.length := by
    intro pc hpc
    rcases List.mem_cons.1 hpc with rfl | hpc
    · exact ⟨hTarget, hInside⟩
    · exact h.pending pc hpc
  unfold mergeTypes
  cases hFind : known.find target with
  | some current =>
      apply Settles.refuseIf.bind
      intro _ _ hLength
      apply Settles.bind (mergeStack_ends current incoming)
      intro merged hMerge _
      obtain ⟨-, hFewer⟩ := mergeStack_ok (not_not.1 hLength) hMerge
      apply Settles.ret
      split
      · exact ⟨h, le_rfl⟩
      · rename_i hChanged
        have hNulls := replaceStack_nulls hFind (hFewer.resolve_left hChanged)
        constructor
        · exact ⟨hPending, (replaceStack_length _ _ _).trans_le h.few, h.small⟩
        · simp only [left, nulls, replaceStack_length, List.length_cons]
          omega
  | none =>
      apply Settles.refuseIf.bind
      intro _ _ hLimits
      have hCount := List.count_le_length (a := StackType.null) (l := incoming)
      constructor
      · refine ⟨hPending, ?_, ?_⟩
        · show (known.states ++ [(target, incoming)]).length ≤ 257
          simp only [List.length_append, List.length_cons, List.length_nil]
          omega
        · show known.cells + incoming.length ≤ 4096
          omega
      · simp only [left, nulls, List.length_append, List.length_cons, List.length_nil, List.map_append, List.sum_append,
          List.map_cons, List.map_nil, List.sum_cons, List.sum_nil]
        omega

end Merging

namespace CilTypes

open KnownStacks

@[simp] theorem popAny_ends (stack : List StackType) : Ends (popAny stack) := by
  cases stack <;> simp [popAny]

@[simp] theorem popType_ends (stack : List StackType) (expected : StackType) : Ends (popType stack expected) := by
  simp [popType]

@[simp] theorem popParameters_ends (stack parameters : List StackType) : Ends (popParameters stack parameters) := by
  apply Settles.foldlM (I := fun _ => True) _ trivial
  intro stack parameter _ _
  exact popType_ends stack parameter

@[simp] theorem popReceiver_ends (stack : List StackType) (receiver : Option StackType) : Ends (popReceiver stack receiver) := by
  cases receiver <;> simp [popReceiver]

@[simp] theorem popEqual_ends (stack : List StackType) : Ends (popEqual stack) := by
  simp [popEqual]

@[simp] theorem popTruth_ends (stack : List StackType) : Ends (popTruth stack) := by
  simp [popTruth]

@[simp] theorem popInts_ends (stack : List StackType) : Ends (popInts stack) := by
  simp [popInts]

variable {types : CilTypes} {known : KnownStacks}

@[simp] theorem argument_ends (index : Nat) : Ends (types.argument index) := by
  unfold argument
  split <;> simp

@[simp] theorem localType_ends (index : Nat) : Ends (types.localType index) := ends_orRefuse _ _

variable {pc value operand stop : Nat} {opcode : Opcode}

theorem tokenAt_ends (h : operand < types.code.length) : Ends (types.tokenAt operand) := by
  simp [tokenAt, index_ends h]

theorem callParameters_ends (h : operand < types.code.length) (stack : List StackType) :
    Ends (types.callParameters operand stack) := by
  simp [callParameters, tokenAt_ends h]

/-- What an opcode that branches says of its operand. -/
def TypeRule.operandOf : TypeRule → Option (List Operand)
  | .branch short | .branchTruth short | .branchEqual short | .branchCompare short =>
      some [if short = true then .branchI8 else .branchI32]
  | .switch => some [.switchI32]
  | .loadArgumentShort | .loadLocalShort | .storeLocalShort => some [.varU8]
  | .call | .newObject => some [.methodToken]
  | .newArray => some [.typeToken]
  | _ => none

/-- The type checker and the opcode table agree on the operands. -/
theorem typeRule_operand {rule : TypeRule} {operands : List Operand} (hLookup : Opcode.lookup value = some opcode)
    (hRule : typeRule value = some rule) (hOperands : TypeRule.operandOf rule = some operands) : opcode.operand ∈ operands := by
  have hAll : ∀ value ∈ opcodeValues, ∀ opcode, Opcode.lookup value = some opcode → ∀ rule, typeRule value = some rule →
      ∀ operands, TypeRule.operandOf rule = some operands → opcode.operand ∈ operands := by decide +kernel
  exact hAll value (lookup_value hLookup) opcode hLookup rule hRule operands hOperands

theorem mergeTarget_settles (h : KnownStacks.Sound types.assembly.rows types.code known) {delta : Int}
    (hLands : Lands types.assembly.rows types.code stop delta) (stack : List StackType) :
    Settles (types.mergeTarget stop delta stack known) (Kept types.assembly.rows types.code known) := by
  obtain ⟨target, hTarget, hStart, hInside⟩ := hLands
  unfold mergeTarget
  rw [hTarget]
  exact mergeTypes_settles h hStart hInside stack

/-- A branch of either width goes to an instruction. -/
theorem mergeDelta_settles (h : KnownStacks.Sound types.assembly.rows types.code known)
    (hDecoded : Decoded types.assembly.rows types.code pc value operand opcode stop)
    (hBranches : Branches types.assembly.rows types.code opcode.operand operand stop) {short : Bool}
    (hOperand : opcode.operand = if short = true then .branchI8 else .branchI32) (stack : List StackType)
    (after : Option (List StackType)) :
    Settles (types.deltaAt short operand >>= fun delta => types.mergeTarget stop delta stack known >>= fun known =>
      pure (after, known)) fun outcome => Kept types.assembly.rows types.code known outcome.2 := by
  rw [hOperand] at hBranches
  have hMerge : ∀ delta, Lands types.assembly.rows types.code stop delta →
      Settles (types.mergeTarget stop delta stack known >>= fun known => pure (after, known)) fun outcome =>
        Kept types.assembly.rows types.code known outcome.2 :=
    fun delta hLands => (mergeTarget_settles h hLands stack).bind fun _ _ hKept => hKept
  unfold deltaAt
  cases short with
  | true =>
      apply Settles.bind (shortDelta_ends (hDecoded.operand_less (by rw [hOperand]; decide)))
      intro delta hDelta _
      exact hMerge delta (hBranches delta hDelta)
  | false =>
      apply Settles.bind (longDelta_ends operand)
      intro delta hDelta _
      exact hMerge delta (hBranches delta hDelta)

theorem mergeSwitch_settles (h : KnownStacks.Sound types.assembly.rows types.code known)
    (hBranches : Branches types.assembly.rows types.code .switchI32 operand stop) {count : Nat}
    (hCount : u32At types.code operand = .ok count) (stack : List StackType) :
    Settles ((List.range count).foldlM (fun known index => do
      let delta ← switchDelta types.code operand index
      types.mergeTarget stop delta stack known) known) (Kept types.assembly.rows types.code known) := by
  apply Settles.foldlM _ ⟨h, le_rfl⟩
  intro current index hIndex hCurrent
  apply Settles.bind (switchDelta_ends operand index)
  intro delta hDelta _
  exact (mergeTarget_settles hCurrent.1 (hBranches count hCount index (List.mem_range.1 hIndex) delta hDelta) stack).weaken
    fun _ _ hNext => hCurrent.trans hNext

/-- An instruction only adds to what is known. -/
theorem applyRule_settles (h : KnownStacks.Sound types.assembly.rows types.code known)
    (hDecoded : Decoded types.assembly.rows types.code pc value operand opcode stop)
    (hBranches : Branches types.assembly.rows types.code opcode.operand operand stop) {rule : TypeRule}
    (hRule : typeRule value = some rule) (stack : List StackType) :
    Settles (types.applyRule rule operand stop stack known) fun outcome =>
      Kept types.assembly.rows types.code known outcome.2 := by
  have hSame : Kept types.assembly.rows types.code known known := ⟨h, le_rfl⟩
  have hOperand : ∀ operands, TypeRule.operandOf rule = some operands → opcode.operand ∈ operands :=
    fun _ => typeRule_operand hDecoded.lookup hRule
  have hIndex : ∀ operands, TypeRule.operandOf rule = some operands → (∀ o ∈ operands, Operand.room o ≠ 0) →
      operand < types.code.length :=
    fun operands hOperands hRoom => hDecoded.operand_less (hRoom _ (hOperand operands hOperands))
  have hMerge := fun short (hOperands : TypeRule.operandOf rule = some [if short = true then .branchI8 else .branchI32]) =>
    mergeDelta_settles h hDecoded hBranches (List.mem_singleton.1 (hOperand _ hOperands))
  cases rule with
  | branch short => exact hMerge short rfl stack none
  | branchTruth short =>
      apply Settles.bind (popTruth_ends stack)
      intro rest _ _
      exact hMerge short rfl rest (some rest)
  | branchEqual short =>
      apply Settles.bind (popEqual_ends stack)
      intro rest _ _
      exact hMerge short rfl rest (some rest)
  | branchCompare short =>
      apply Settles.bind (popInts_ends stack)
      intro rest _ _
      exact hMerge short rfl rest (some rest)
  | switch =>
      rw [List.mem_singleton.1 (hOperand _ rfl)] at hBranches
      apply Settles.bind (popType_ends stack .int)
      intro rest _ _
      apply Settles.bind (u32At_ends types.code operand)
      intro count hCount _
      exact (mergeSwitch_settles h hBranches hCount rest).bind fun _ _ hKept => hKept
  | call =>
      have hToken := hIndex _ rfl (by decide)
      simp [applyRule, settles_bind, settles_functorMap, callParameters_ends hToken, hSame]
  | newObject =>
      have hToken := hIndex _ rfl (by decide)
      simp [applyRule, settles_bind, settles_functorMap, callParameters_ends hToken, hSame]
  | newArray =>
      have hToken := hIndex _ rfl (by decide)
      simp [applyRule, settles_bind, settles_functorMap, tokenAt_ends hToken, hSame]
  | loadArgumentShort =>
      have hToken := hIndex _ rfl (by decide)
      simp [applyRule, settles_bind, settles_functorMap, index_ends hToken, hSame]
  | loadLocalShort =>
      have hToken := hIndex _ rfl (by decide)
      simp [applyRule, settles_bind, settles_functorMap, index_ends hToken, hSame]
  | storeLocalShort =>
      have hToken := hIndex _ rfl (by decide)
      simp [applyRule, settles_bind, settles_functorMap, index_ends hToken, hSame]
  | arrayLength =>
      simp only [applyRule, settles_bind (popAny_ends stack)]
      intro top _
      split
      · exact hSame
      · trivial
  | _ => simp [applyRule, settles_bind, settles_pure, settles_functorMap, hSame]

/-- A walk ends: it only goes forward, until it meets a known stack. -/
theorem walk_settles (hFramed : Framed types.assembly.rows types.code)
    (h : KnownStacks.Sound types.assembly.rows types.code known) {start : Nat}
    (hStart : Starts types.assembly.rows types.code start) (hInside : start < types.code.length) (initial : List StackType) :
    Settles (loop (types.walkStep start) (types.code.length + 1) (start, initial, known))
      (Kept types.assembly.rows types.code known) := by
  apply Settles.loop (I := fun walk => (Starts types.assembly.rows types.code walk.1 ∧ walk.1 < types.code.length) ∧
    Kept types.assembly.rows types.code known walk.2.2) (fun walk => types.code.length - walk.1) _ ⟨⟨hStart, hInside⟩, h, le_rfl⟩
  · exact Nat.lt_succ_of_le (Nat.sub_le _ _)
  · rintro ⟨pc, stack, current⟩ ⟨⟨hHere, hLess⟩, hKept⟩
    unfold walkStep
    split
    · exact (mergeTypes_settles hKept.1 hHere hLess stack).bind fun _ _ hNext => hKept.trans hNext
    · obtain ⟨value, operand, opcode, stop, hStop, hDecoded⟩ := hFramed.swept.decoded hHere hLess
      rw [hDecoded.at', hStop]
      apply Settles.orRefuse.bind
      intro rule _ hRule
      apply (applyRule_settles hKept.1 hDecoded (hFramed.branches _ _ _ _ _ hHere hDecoded) hRule stack).bind
      rintro ⟨after, next⟩ _ hNext
      cases after with
      | none => exact hKept.trans hNext
      | some rest =>
          apply Settles.refuseIf.bind
          intro _ _ hRoom
          have hForward := hDecoded.next
          refine ⟨⟨⟨hHere.next hStop, Nat.lt_of_not_le hRoom⟩, hKept.trans hNext⟩, ?_⟩
          show types.code.length - stop < types.code.length - pc
          omega

/-- The search for types ends. -/
theorem validate_ends (hFramed : Framed types.assembly.rows types.code) (hCode : types.code ≠ []) : Ends types.validate := by
  have hLength := List.length_pos_iff.2 hCode
  apply Settles.loop (I := KnownStacks.Sound types.assembly.rows types.code) KnownStacks.left
  · intro known h
    unfold typesStep
    split
    · trivial
    · rename_i start pending hPending
      obtain ⟨hStart, hInside⟩ := h.pending start (hPending ▸ List.mem_cons_self)
      have hRest : KnownStacks.Sound types.assembly.rows types.code ⟨known.states, pending, known.cells⟩ :=
        ⟨fun pc hpc => h.pending pc (hPending ▸ List.mem_cons_of_mem _ hpc), h.few, h.small⟩
      apply Settles.orRefuse.bind
      intro initial _ _
      apply (walk_settles hFramed hRest hStart hInside initial).bind
      intro next _ hNext
      have hLess : left ⟨known.states, pending, known.cells⟩ < left known := by simp [left, nulls, hPending]
      exact ⟨hNext.1, lt_of_le_of_lt hNext.2 hLess⟩
  · constructor
    · intro pc hpc
      rw [List.mem_singleton.1 hpc]
      exact ⟨Starts.zero, hLength⟩
    · exact (by decide : 1 ≤ 257)
    · exact Nat.zero_le 4096
  · decide

end CilTypes

end MicroCard.Mc04
