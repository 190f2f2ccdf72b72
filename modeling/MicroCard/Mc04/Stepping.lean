import MicroCard.Mc04.Imports
import MicroCard.Mc04.MachineSpec
import MicroCard.Mc04.ParseSpec

/-! The instructions of a verified method, as the machine reads them. It reads the same ones
as the sweep of the verifier, so a frame is always where an instruction starts. -/
namespace MicroCard.Mc04

open Bytes Halting Checks

section Parsed

variable {bytes : List Byte} {assembly : Assembly}

theorem validateBody_framed {offset next length : Nat} {shape : MethodShape} {types : MethodTypes} {code header body : List Byte}
    (hCode : assembly.part .code = .ok code) (hHeader : range? code offset (offset + 12) = some header)
    (hLength : u32At header 4 = .ok length) (hBody : range? code (offset + 12) (offset + 12 + length) = some body)
    (h : validateBody assembly offset shape types = .ok next) : Framed assembly.rows body := by
  simp only [validateBody, hCode, bind_ok, orFail_ok] at h
  obtain ⟨_, hSame, header', hHeader', _, -, _, -, _, -, _, -, _, -, length', hLength', _, -, locals, -, _, hFits, body', hBody',
    _, hShape, -⟩ := h
  cases hSame
  cases hHeader.symm.trans hHeader'
  cases hLength.symm.trans hLength'
  cases hBody.symm.trans hBody'
  have hSome : body ≠ [] := by
    have hBodyLength := range?_length hBody
    have hFits := failIf_ok.1 hFits
    rintro rfl
    rw [List.length_nil] at hBodyLength
    omega
  exact (CilShape.validate_settles hSome).of_ok hShape

/-- The instructions of every method of an accepted image can be decoded, and its branches
land. -/
theorem method_framed (hParse : Assembly.parse bytes = .ok assembly) {index : Nat} {method : MethodView}
    (hMethod : assembly.method index = .ok method) : Framed assembly.rows method.code := by
  simp only [Assembly.parse, bind_ok, pure_ok] at hParse
  obtain ⟨_, -, _, -, _, -, _, -, _, -, _, -, _, -, _, -, parsed, -, _, hValid, rfl⟩ := hParse
  simp only [validateMetadata, bind_ok] at hValid
  obtain ⟨_, hTables, -⟩ := hValid
  obtain ⟨_, _, hTable⟩ := foldlM_each hTables (Table.mem_all .methodDef)
  simp only [Assembly.method, orRefuse, Assembly.methodBody, bind_ok, pure_ok, orFail_ok] at hMethod
  obtain ⟨next, hNext, row, hRow, ⟨offset, afterOffset⟩, hOffset, _, -, _, -, _, -, _, -, _, -, ⟨header, body⟩,
    ⟨code, hCode, headerBytes, hHeader, length, hLength, body', hBody, _, -, _, -, _, -, hView⟩, _, -, _, -, _, -, rfl⟩ := hMethod
  cases hView
  have hIndex : next ∈ List.range' 1 (parsed.rows .methodDef) := by
    simp only [Assembly.row, bind_ok] at hRow
    obtain ⟨_, hBounds, -⟩ := hRow
    have hBounds := failIf_ok.1 hBounds
    rw [List.mem_range'_1]
    omega
  obtain ⟨_, _, hChecked⟩ := foldlM_each hTable hIndex
  simp only [validateRow, rowColumns, methodDefRow, hRow, bind_ok] at hChecked
  obtain ⟨_, hSame, _, ⟨_, hSame', _, -, _, -, _, -, _, -, _, -, _, -, _, -, shape, -, types, -, _, -, _, -, _, hBodyOk, -⟩, -⟩ :=
    hChecked
  cases hSame
  rw [hOffset] at hSame'
  cases hSame'
  exact validateBody_framed hCode hHeader hLength hBody hBodyOk

end Parsed

section Reading

variable {rows : Rows} {code : List Byte} {pc value width : Nat} {first : Byte}

/-- The bytes of a word, one by one. -/
theorem range?_two {offset : Nat} {low high : Byte} (hLow : code[offset]? = some low) (hHigh : code[offset + 1]? = some high) :
    range? code offset (offset + 2) = some [low, high] := by
  obtain ⟨hInside, rfl⟩ := List.getElem?_eq_some_iff.1 hHigh
  obtain ⟨hBefore, rfl⟩ := List.getElem?_eq_some_iff.1 hLow
  unfold range?
  rw [if_pos ⟨by omega, by omega⟩, List.drop_eq_getElem_cons hBefore, List.drop_eq_getElem_cons hInside]
  rw [show offset + 2 - offset = 2 by omega]
  rfl

theorem opcodeAt_value (hFirst : code[pc]? = some first) (hValue : opcodeValue code pc first.toNat = .ok value)
    (missing truncated : Halt Error) : ∃ operand, opcodeAt code pc missing truncated = .ok (value, operand) := by
  unfold opcodeAt
  rw [hFirst]
  unfold opcodeValue at hValue
  change ∃ operand, (if first.toNat = 0xfe then _ else _) = _
  split
  · rename_i hPrefix
    rw [if_pos hPrefix] at hValue
    simp only [bind_ok, pure_ok, orRefuse, orFail_ok] at hValue
    obtain ⟨second, hSecond, rfl⟩ := hValue
    rw [hSecond]
    exact ⟨_, rfl⟩
  · rename_i hPlain
    rw [if_neg hPlain] at hValue
    cases hValue
    exact ⟨_, rfl⟩

/-- Tokens are three bytes long, and only a switch has no fixed length. -/
theorem fixedLength_operand {opcode : Opcode} (h : opcode ∈ profiles) :
    (opcode.operand ∈ [.methodToken, .fieldToken, .typeToken] → opcode.fixedLength = 4) ∧
      (opcode.operand = .switchI32 ↔ opcode.fixedLength = 0) := by
  have hAll : ∀ opcode ∈ profiles, (opcode.operand ∈ [.methodToken, .fieldToken, .typeToken] → opcode.fixedLength = 4) ∧
      (opcode.operand = .switchI32 ↔ opcode.fixedLength = 0) := by decide
  exact hAll opcode h

/-- The operand of an opcode without a prefix follows it. -/
theorem Decoded.plain {operand stop : Nat} {opcode : Opcode} (h : Decoded rows code pc value operand opcode stop)
    (hOperand : opcode.operand ≠ .none) : operand = pc + 1 := by
  rcases (opcodeAt_ok (h.at' .panic .panic)).2.1 with ⟨-, hPlace⟩ | ⟨hPrefix, -⟩
  · exact hPlace
  · exact absurd (lookup_extended h.lookup hPrefix).1 hOperand

/-- The sweep and the machine agree on how long an instruction is. -/
theorem Decoded.stop_eq {operand stop : Nat} {opcode : Opcode} (h : Decoded rows code pc value operand opcode stop)
    (hWidth : instructionWidth code pc value = .ok width) : pc + width = stop := by
  have hProfile := Opcode.lookup_mem h.lookup
  have hSized := fixedLength_operand hProfile
  have hEnd := h.end'
  unfold operandEnd at hEnd
  unfold instructionWidth at hWidth
  rw [h.lookup] at hWidth
  change (if opcode.fixedLength ≠ 0 then _ else _) = _ at hWidth
  split at hWidth
  · rename_i hFixed
    have hLength : width = opcode.fixedLength := by
      simp only [bind_ok, pure_ok] at hWidth
      obtain ⟨_, rfl, _, -, rfl⟩ := hWidth
      rfl
    cases hOperand : opcode.operand with
    | switchI32 => exact absurd (hSized.2.1 hOperand) hFixed
    | methodToken | fieldToken | typeToken =>
        have hPlace := h.plain (by rw [hOperand]; exact Operand.noConfusion)
        rw [hOperand] at hEnd
        simp only [bind_ok, pure_ok] at hEnd
        obtain ⟨_, -, _, -, _, -, rfl⟩ := hEnd
        have hFour := hSized.1 (by rw [hOperand]; decide)
        omega
    | _ =>
        rw [hOperand] at hEnd
        cases hEnd
        rw [hLength]
  · rename_i hSwitch
    have hOperand := hSized.2.2 (Decidable.not_not.1 hSwitch)
    have hPlace := h.plain (by rw [hOperand]; exact Operand.noConfusion)
    rw [hOperand] at hEnd
    simp only [bind_ok, pure_ok] at hEnd
    obtain ⟨count, hCount, _, hFew, rfl⟩ := hEnd
    have hFew := failIf_ok.1 hFew
    simp only [i32At, bind_ok, pure_ok] at hWidth
    obtain ⟨_, ⟨word, hWord, rfl⟩, _, -, _, rfl, _, -, rfl⟩ := hWidth
    simp only [u32At, wordAt, bind_ok, pure_ok] at hCount
    obtain ⟨word', hWord', rfl⟩ := hCount
    rw [hPlace] at hWord'
    cases (orFail_ok.1 hWord).symm.trans (orFail_ok.1 hWord')
    rw [signed32, if_pos (by omega)]
    omega

/-- A signed word that the machine reads, the verifier read too. -/
theorem i32At_ok {offset : Nat} {delta : Int} (h : i32At code offset = .ok delta) :
    ∃ word, u32At code offset = .ok word ∧ delta = signed32 word := by
  simp only [i32At, bind_ok, pure_ok] at h
  obtain ⟨word, hWord, rfl⟩ := h
  refine ⟨fromLE word, ?_, rfl⟩
  simp only [u32At, wordAt, bind_ok, pure_ok]
  exact ⟨word, orFail_ok.2 (orFail_ok.1 hWord), rfl⟩

theorem longDelta_read {offset : Nat} {delta : Int} (h : i32At code offset = .ok delta) : longDelta code offset = .ok delta := by
  obtain ⟨word, hWord, rfl⟩ := i32At_ok h
  rw [longDelta, hWord]
  rfl

/-- What the verifier knows of the operand of an instruction that leaves the straight line. -/
def Operation.Profiled (opcode : Opcode) (value : Nat) : Operation → Bool
  | .branch _ true => opcode.operand = .branchI8
  | .branch _ false => opcode.operand = .branchI32
  | .switch => opcode.operand = .switchI32
  | .call _ | .newObject => opcode.operand = .methodToken ∧ value ∈ callOpcodes
  | _ => true

theorem operation_profiled {opcode : Opcode} {operation' : Operation} (hLookup : Opcode.lookup value = some opcode)
    (hOperation : operation value = some operation') (hSmall : value < 256) : operation'.Profiled opcode value = true := by
  have hAll : ∀ value ∈ List.range 256, ∀ opcode ∈ (Opcode.lookup value).toList, ∀ operation' ∈ (operation value).toList,
      operation'.Profiled opcode value = true := by decide +kernel
  exact hAll value (List.mem_range.2 hSmall) opcode (Option.mem_toList.2 hLookup) operation' (Option.mem_toList.2 hOperation)

/-- Only comparisons have a prefix. -/
theorem opcodeValue_plain {operation' : Operation} (hValue : opcodeValue code pc first.toNat = .ok value)
    (hOperation : operation first.toNat = some operation') (hOther : operation' ≠ .compare) : value = first.toNat := by
  unfold opcodeValue at hValue
  split at hValue
  · rename_i hPrefix
    rw [hPrefix] at hOperation
    exact absurd (Option.some.inj hOperation).symm hOther
  · exact (Except.ok.inj hValue).symm

variable {operand stop : Nat} {opcode : Opcode} {operation' : Operation}

theorem branchTo_lands {delta : Int} {target : Nat} (hLands : Lands rows code stop delta)
    (hTarget : branchTo stop delta = .ok target) : Starts rows code target := by
  obtain ⟨target', hBranch, hStart, -⟩ := hLands
  simp only [branchTarget, branchTo, bind_ok, pure_ok] at hBranch hTarget
  obtain ⟨_, -, rfl⟩ := hBranch
  obtain ⟨_, -, rfl⟩ := hTarget
  exact hStart

/-- Wherever an instruction sends its frame, an instruction starts. -/
theorem sends_starts (hFramed : Framed rows code) (hStart : Starts rows code pc)
    (hDecoded : Decoded rows code pc value operand opcode stop) (hValue : opcodeValue code pc first.toNat = .ok value)
    (hOperation : operation first.toNat = some operation') {delta : Int} {target : Nat}
    (hSends : operation'.Sends code pc delta) (hTarget : branchTo stop delta = .ok target) : Starts rows code target := by
  have hBranches := hFramed.branches pc value operand opcode stop hStart hDecoded
  have hPlain : value = first.toNat := opcodeValue_plain hValue hOperation (by rintro rfl; exact hSends)
  have hProfile := operation_profiled (hPlain ▸ hDecoded.lookup) hOperation first.toNat_lt
  cases operation' with
  | branch kind short =>
      cases short with
      | true =>
          have hOperand : opcode.operand = .branchI8 := of_decide_eq_true hProfile
          have hPlace := hDecoded.plain (hOperand ▸ Operand.noConfusion)
          rw [hOperand, hPlace] at hBranches
          exact branchTo_lands (hBranches delta hSends) hTarget
      | false =>
          have hOperand : opcode.operand = .branchI32 := of_decide_eq_true hProfile
          have hPlace := hDecoded.plain (hOperand ▸ Operand.noConfusion)
          rw [hOperand, hPlace] at hBranches
          exact branchTo_lands (hBranches delta (longDelta_read hSends)) hTarget
  | switch =>
      have hOperand : opcode.operand = .switchI32 := of_decide_eq_true hProfile
      have hPlace := hDecoded.plain (hOperand ▸ Operand.noConfusion)
      rw [hOperand, hPlace] at hBranches
      obtain ⟨count, index, hCount, hIndex, hDelta⟩ := hSends
      obtain ⟨word, hWord, rfl⟩ := i32At_ok hCount
      have hBelow : index < word := by
        unfold signed32 at hIndex
        split at hIndex <;> omega
      have hSwitch : switchDelta code (pc + 1) index = .ok delta := by
        rw [switchDelta, show pc + 1 + 4 + index * 4 = pc + 5 + index * 4 by omega]
        exact longDelta_read hDelta
      exact branchTo_lands (hBranches word hWord index hBelow delta hSwitch) hTarget
  | _ => exact hSends.elim

/-- The token that the machine reads is the one that the scan for calls reads. -/
theorem callToken_read {table : Table} {row : Nat} (hTable : table = .methodDef ∨ table = .memberRef)
    (hToken : tokenOperand code pc = .ok (table.id, row)) : callToken code (pc + 1) = .ok (some ⟨table, row⟩) := by
  simp only [tokenOperand, Halting.index, bind_ok, pure_ok, orFail_ok, Prod.mk.injEq] at hToken
  obtain ⟨byte, hByte, low, hLow, high, hHigh, hId, rfl⟩ := hToken
  have hRow : u16At code (pc + 1 + 1) = .ok (fromLE [low, high]) := by
    simp only [u16At, wordAt, bind_ok, pure_ok]
    exact ⟨[low, high], orFail_ok.2 (range?_two hLow hHigh), rfl⟩
  unfold callToken
  rw [hByte]
  apply bind_ok.2
  refine ⟨byte, rfl, ?_⟩
  rw [hId, Table.ofId_id]
  rcases hTable with rfl | rfl
  · rw [hRow]
    rfl
  · rw [hRow]
    rfl

/-- The scan of a method finds the calls of all its instructions. -/
theorem methodCalls_mem {fuel : Nat} {calls : List MetadataToken} {token : MetadataToken}
    (h : loop (methodCallsStep rows code) fuel (0, []) = .ok calls) (hStart : Starts rows code pc)
    (hDecoded : Decoded rows code pc value operand opcode stop) (hValue : value ∈ callOpcodes)
    (hToken : callToken code operand = .ok (some token)) : token ∈ calls := by
  have hStep : ∀ pc calls value operand opcode stop, Decoded rows code pc value operand opcode stop →
      methodCallsStep rows code (pc, calls) = if value ∈ callOpcodes then (callToken code operand >>= fun token =>
        pure (.inl (stop, calls ++ token.toList))) else pure (.inl (stop, calls)) := by
    intro pc calls value operand opcode stop hDecoded
    unfold methodCallsStep
    rw [if_pos (lt_of_lt_of_le hDecoded.next hDecoded.inside), hDecoded.at', hDecoded.ends]
    rfl
  have hReached : ∀ pc, Starts rows code pc →
      ∃ calls, Relation.ReflTransGen (fun s next => methodCallsStep rows code s = .ok (.inl next)) (0, []) (pc, calls) := by
    intro pc hStart
    induction hStart with
    | zero => exact ⟨[], .refl⟩
    | @next pc stop start ends ih =>
        obtain ⟨calls, hReached⟩ := ih
        obtain ⟨value, operand, opcode, hDecoded⟩ := instructionEnd_ok ends
        obtain ⟨next, hNext⟩ := loop_reached h hReached
        have hSame := hNext
        rw [hStep _ _ _ _ _ _ hDecoded] at hNext
        split at hNext
        · simp only [bind_ok, pure_ok] at hNext
          obtain ⟨token, -, rfl⟩ := hNext
          exact ⟨_, hReached.tail hSame⟩
        · cases hNext
          exact ⟨_, hReached.tail hSame⟩
  obtain ⟨before, hBefore⟩ := hReached pc hStart
  have hHere : methodCallsStep rows code (pc, before) = .ok (.inl (stop, before ++ [token])) := by
    rw [hStep _ _ _ _ _ _ hDecoded, if_pos hValue, hToken]
    rfl
  obtain ⟨rest, hRest⟩ := loop_rest h (hBefore.tail hHere)
  obtain ⟨last, hMem, hLast⟩ := loop_ok (I := fun state => token ∈ state.2) (by
    intro state next hMem hNext
    unfold methodCallsStep at hNext
    split at hNext
    · simp only [bind_ok] at hNext
      obtain ⟨⟨value, operand⟩, -, stop, -, hNext⟩ := hNext
      dsimp only at hNext
      split at hNext
      · simp only [bind_ok, pure_ok] at hNext
        obtain ⟨other, -, hNext⟩ := hNext
        cases hNext
        exact List.mem_append_left _ hMem
      · cases hNext
        exact hMem
    · cases hNext) (List.mem_append_right before List.mem_cons_self) hRest
  unfold methodCallsStep at hLast
  split at hLast
  · simp only [bind_ok] at hLast
    obtain ⟨⟨value, operand⟩, -, stop, -, hLast⟩ := hLast
    dsimp only at hLast
    split at hLast
    · simp only [bind_ok, pure_ok] at hLast
      obtain ⟨other, -, hLast⟩ := hLast
      cases hLast
    · cases hLast
  · cases hLast
    exact hMem

end Reading

section Fetching

variable {units : List Assembly} {machine : Machine} {fetched : Fetched} {rows : Rows}

/-- An instruction is read where the innermost frame is. -/
structure FetchedAt (units : List Assembly) (machine : Machine) (fetched : Fetched) : Prop where
  frame : ∃ rest, machine.frames = fetched.frame :: rest
  unit : units[fetched.frame.unit]? = some fetched.assembly
  method : ∃ view, fetched.assembly.method fetched.frame.method = .ok view ∧ fetched.code = view.code
  first : ∃ first : Byte, fetched.code[fetched.frame.pc]? = some first ∧ first.toNat = fetched.opcode ∧
    opcodeValue fetched.code fetched.frame.pc first.toNat = .ok fetched.value
  next : ∃ width, instructionWidth fetched.code fetched.frame.pc fetched.value = .ok width ∧
    fetched.next = fetched.frame.pc + width

theorem fetch_ok (h : fetch units machine = .ok fetched) : FetchedAt units machine fetched := by
  simp only [fetch, bind_ok, pure_ok, orRefuse, orFail_ok] at h
  obtain ⟨frame, hFrame, assembly, hUnit, view, hView, first, hFirst, value, hValue, width, hWidth, rfl⟩ := h
  refine ⟨?_, hUnit, ⟨view, hView, rfl⟩, ⟨first, hFirst, rfl, hValue⟩, ⟨width, hWidth, rfl⟩⟩
  exact ⟨machine.frames.tail, List.eq_cons_of_mem_head? hFrame⟩

/-- From where an instruction starts, the machine reads what the sweep read, and goes on to
where the next one starts. -/
theorem FetchedAt.decoded (h : FetchedAt units machine fetched) (hFramed : Framed rows fetched.code)
    (hStart : Starts rows fetched.code fetched.frame.pc) : ∃ operand opcode,
      Decoded rows fetched.code fetched.frame.pc fetched.value operand opcode fetched.next ∧
        Starts rows fetched.code fetched.next := by
  obtain ⟨first, hFirst, -, hValue⟩ := h.first
  obtain ⟨width, hWidth, hNext⟩ := h.next
  obtain ⟨value, operand, opcode, stop, hEnd, hDecoded⟩ :=
    hFramed.swept.decoded hStart (List.getElem?_eq_some_iff.1 hFirst).1
  obtain ⟨operand', hAt⟩ := opcodeAt_value hFirst hValue .panic .panic
  cases (hDecoded.at' .panic .panic).symm.trans hAt
  have hStop : fetched.next = stop := hNext.trans (hDecoded.stop_eq hWidth)
  rw [hStop]
  exact ⟨operand, opcode, hDecoded, hStart.next hEnd⟩

end Fetching

end MicroCard.Mc04
