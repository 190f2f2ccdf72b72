import MicroCard.Library.Acyclic
import MicroCard.Mc04.Bounds
import MicroCard.Mc04.CallEdges
import MicroCard.Mc04.ProgramGraph
import MicroCard.Mc04.Stepping

/-! The calls of a run are edges of the graph that the linker checked, so what the linker
checked holds of the frames of every run. -/
namespace MicroCard.Mc04

open Bytes Halting Checks Chains

section Static

variable {units : List ExecutionUnit} {assemblies : List Assembly} {offsets : List Nat} {graph : ProgramGraph}
  {search : ProgramSearch}

/-- A linked program: the images are accepted, all calls were collected, and the graph of
them was searched. -/
structure LinkedProgram (units : List ExecutionUnit) (assemblies : List Assembly) (offsets : List Nat) (graph : ProgramGraph)
    (search : ProgramSearch) : Prop where
  parsed : units.mapM (fun unit => Assembly.parse unit.package.image) = .ok assemblies
  collected : Collected units assemblies offsets graph
  sound : search.Sound graph.edges graph.irreversible
  known : ∀ node < offsets.getLastD 0, ∃ depth effect, search.Known node depth effect ∧
    (graph.transactional[node]? = some true → effect = false)

theorem mapM_length {α β : Type} {f : α → Checked β} {items : List α} {results : List β} (h : items.mapM f = .ok results) :
    results.length = items.length := by
  induction items generalizing results with
  | nil =>
      cases h
      rfl
  | cons a rest ih =>
      simp only [List.mapM_cons, bind_ok, pure_ok] at h
      obtain ⟨first, -, others, hOthers, rfl⟩ := h
      rw [List.length_cons, List.length_cons, ih hOthers]

/-- Every program that the linker accepts is linked. -/
theorem validateLinkedProgram_ok {u : Unit} (h : validateLinkedProgram units = .ok u) :
    ∃ assemblies offsets graph search, collectCalls units assemblies = .ok (offsets, graph) ∧
      LinkedProgram units assemblies offsets graph search := by
  simp only [validateLinkedProgram, bind_ok] at h
  obtain ⟨-, -, assemblies, hParsed, ⟨offsets, graph⟩, hCollect, hGraph⟩ := h
  obtain ⟨search, hSound, hKnown⟩ := validateProgramGraph_ok hGraph
  exact ⟨assemblies, offsets, graph, search, hCollect, hParsed, collectCalls_ok hCollect (mapM_length hParsed), hSound, hKnown⟩

/-- How deep the calls from a node nest. -/
def ProgramSearch.rank (search : ProgramSearch) (node : Nat) : Nat := search.depths.getD node 0

theorem ProgramSearch.Known.rank {node depth : Nat} {effect : Bool} (h : search.Known node depth effect) :
    search.rank node = depth := by
  unfold ProgramSearch.rank
  rw [List.getD_eq_getElem?_getD, h.depth]
  rfl

/-- What is known of a node is known of the nodes that it calls. -/
theorem LinkedProgram.edge (h : LinkedProgram units assemblies offsets graph search) {source target : Nat}
    (hEdge : (source, target) ∈ graph.edges) : ∃ depth effect depth' effect', search.Known source depth effect ∧
      search.Known target depth' effect' ∧ depth' < depth ∧ (effect' = true → effect = true) := by
  obtain ⟨depth, effect, hKnown, -⟩ := h.known source (h.collected.sized.sources _ hEdge)
  obtain ⟨depth', effect', hSame, hRanked⟩ := h.sound.ranked source hKnown.state
  cases hKnown.depth.symm.trans hSame.depth
  cases hKnown.effect.symm.trans hSame.effect
  obtain ⟨depth'', effect'', hTarget, hLess, hEffect⟩ := hRanked.calls target hEdge
  exact ⟨depth, effect, depth'', effect'', hKnown, hTarget, hLess, hEffect⟩

/-- The graph of an accepted program has no cycles. -/
theorem LinkedProgram.acyclic (h : LinkedProgram units assemblies offsets graph search) :
    Acyclic fun source target => (source, target) ∈ graph.edges := by
  have hDown : ∀ source target, (source, target) ∈ graph.edges → search.rank target < search.rank source := by
    intro source target hEdge
    obtain ⟨depth, effect, depth', effect', hSource, hTarget, hLess, -⟩ := h.edge hEdge
    rw [hSource.rank, hTarget.rank]
    exact hLess
  exact acyclic_of_rank hDown

end Static

section Frames

variable {units : List ExecutionUnit} {assemblies : List Assembly} {offsets : List Nat} {graph : ProgramGraph}
  {search : ProgramSearch} {machine machine' : Machine} {fetched : Fetched} {frame : Frame}

/-- The node of a frame's method. -/
def Frame.node (offsets : List Nat) (frame : Frame) : Nat := offsets.getD frame.unit 0 + frame.method

/-- A frame is where an instruction of its method starts. -/
structure Standing (assemblies : List Assembly) (frame : Frame) : Prop where
  body : ∃ assembly view, assemblies[frame.unit]? = some assembly ∧ assembly.method frame.method = .ok view ∧
    Starts assembly.rows view.code frame.pc

/-- Every frame was called by the one below it, over an edge of the graph. -/
structure CallsWithin (assemblies : List Assembly) (offsets : List Nat) (graph : ProgramGraph) (frames : List Frame) : Prop where
  standing : ∀ frame ∈ frames, Standing assemblies frame
  calls : frames.IsChain fun callee caller => (caller.node offsets, callee.node offsets) ∈ graph.edges

theorem Assembly.method_inside {assembly : Assembly} {index : Nat} {view : MethodView} (h : assembly.method index = .ok view) :
    index < assembly.rows .methodDef := by
  simp only [Assembly.method, Assembly.row, bind_ok, orRefuse, orFail_ok, refuseIf, failIf_ok] at h
  obtain ⟨next, hNext, row, ⟨_, hRow, -⟩, -⟩ := h
  unfold nextIndex at hNext
  split at hNext
  · cases hNext
    omega
  · cases hNext

theorem LinkedProgram.framed (h : LinkedProgram units assemblies offsets graph search) {i method : Nat} {assembly : Assembly}
    {view : MethodView} (hAssembly : assemblies[i]? = some assembly) (hMethod : assembly.method method = .ok view) :
    Framed assembly.rows view.code := by
  obtain ⟨unit, -, hParse⟩ := mapM_get h.parsed hAssembly
  exact method_framed hParse hMethod

/-- A frame's method is linked, under the frame's node. -/
theorem LinkedProgram.linked (h : LinkedProgram units assemblies offsets graph search) {assembly : Assembly} {view : MethodView}
    (hAssembly : assemblies[frame.unit]? = some assembly) (hMethod : assembly.method frame.method = .ok view) :
    ∃ unit offset, units[frame.unit]? = some unit ∧ frame.node offsets = offset + frame.method ∧
      MethodLinked units offsets frame.unit unit assembly frame.method offset graph := by
  obtain ⟨unit, hUnit, -⟩ := mapM_get h.parsed hAssembly
  obtain ⟨offset, hLinked⟩ := h.collected.linked _ _ _ _ hUnit hAssembly (Assembly.method_inside hMethod)
  refine ⟨unit, offset, hUnit, ?_, hLinked⟩
  unfold Frame.node
  rw [List.getD_eq_getElem?_getD, hLinked.place]
  rfl

/-- What is known of a frame's method. -/
theorem LinkedProgram.found (h : LinkedProgram units assemblies offsets graph search) (hStanding : Standing assemblies frame) :
    ∃ depth effect, search.Known (frame.node offsets) depth effect ∧ 1 ≤ depth ∧ depth ≤ 32 ∧
      (graph.irreversible[frame.node offsets]? = some true → effect = true) ∧
      ∀ assembly view, assemblies[frame.unit]? = some assembly → assembly.method frame.method = .ok view →
        view.bodyFlags.testBit 0 = true → effect = false := by
  obtain ⟨assembly, view, hAssembly, hMethod, -⟩ := hStanding.body
  obtain ⟨unit, offset, hUnit, hNode, hLinked⟩ := h.linked hAssembly hMethod
  have hInside := h.collected.placed.less hAssembly hLinked.place (Assembly.method_inside hMethod)
  rw [← hNode] at hInside
  obtain ⟨depth, effect, hKnown, hPure⟩ := h.known _ hInside
  obtain ⟨depth', effect', hSame, hRanked⟩ := h.sound.ranked _ hKnown.state
  cases hKnown.depth.symm.trans hSame.depth
  cases hKnown.effect.symm.trans hSame.effect
  refine ⟨depth, effect, hKnown, hRanked.positive, hRanked.bounded, hRanked.irreversible, ?_⟩
  intro assembly' view' hAssembly' hMethod' hFlag
  cases hAssembly.symm.trans hAssembly'
  cases hMethod.symm.trans hMethod'
  obtain ⟨view', calls, hMethod', -, hHere, -⟩ := hLinked.scanned
  cases hMethod.symm.trans hMethod'
  apply hPure
  rw [hNode, hHere, hFlag]

/-- The nesting of calls never gets deeper than the linker allows. -/
theorem CallsWithin.length_le (h : LinkedProgram units assemblies offsets graph search) {frames : List Frame}
    (hCalls : CallsWithin assemblies offsets graph frames) : frames.length ≤ 32 := by
  have hRanks : frames.IsChain fun callee caller => search.rank (callee.node offsets) < search.rank (caller.node offsets) := by
    apply hCalls.calls.imp
    intro callee caller hEdge
    obtain ⟨depth, effect, depth', effect', hSource, hTarget, hLess, -⟩ := h.edge hEdge
    rw [hSource.rank, hTarget.rank]
    exact hLess
  apply length_le_of_rank hRanks
  intro frame hFrame
  obtain ⟨depth, effect, hKnown, hPositive, hBounded, -⟩ := h.found (hCalls.standing frame hFrame)
  rw [hKnown.rank]
  exact ⟨hPositive, hBounded⟩

/-- An effect comes up to every frame below. -/
theorem CallsWithin.effects (h : LinkedProgram units assemblies offsets graph search) {frames : List Frame}
    (hCalls : CallsWithin assemblies offsets graph (frame :: frames)) {depth : Nat}
    (hTop : search.Known (frame.node offsets) depth true) :
    ∀ other ∈ frame :: frames, ∃ depth, search.Known (other.node offsets) depth true := by
  induction frames generalizing frame depth with
  | nil =>
      intro other hOther
      rw [List.mem_singleton.1 hOther]
      exact ⟨depth, hTop⟩
  | cons caller rest ih =>
      have hChain := List.isChain_cons_cons.1 hCalls.calls
      obtain ⟨depth', effect', depth'', effect'', hSource, hTarget, -, hUp⟩ := h.edge hChain.1
      have hEffect : effect' = true := hUp (Option.some.inj (hTarget.effect.symm.trans hTop.effect))
      have hRest : CallsWithin assemblies offsets graph (caller :: rest) :=
        ⟨fun frame hFrame => hCalls.standing frame (List.mem_cons_of_mem _ hFrame), hChain.2⟩
      intro other hOther
      rcases List.mem_cons.1 hOther with rfl | hOther
      · exact ⟨depth, hTop⟩
      · exact ih hRest (hEffect ▸ hSource) other hOther

/-- A call that the machine is at was collected. -/
theorem LinkedProgram.called (h : LinkedProgram units assemblies offsets graph search)
    (hFetched : FetchedAt assemblies machine fetched) (hStanding : Standing assemblies fetched.frame)
    {operation' : Operation} (hOperation : operation fetched.opcode = some operation')
    (hCall : operation' = .newObject ∨ ∃ virtual, operation' = .call virtual) {table : Table} {row : Nat}
    (hTable : table = .methodDef ∨ table = .memberRef)
    (hToken : tokenOperand fetched.code fetched.frame.pc = .ok (table.id, row)) :
    ∃ unit, units[fetched.frame.unit]? = some unit ∧
      CallMarked units offsets fetched.frame.unit unit (fetched.frame.node offsets) ⟨table, row⟩ graph := by
  obtain ⟨assembly, view, hAssembly, hMethod, hStart⟩ := hStanding.body
  cases hFetched.unit.symm.trans hAssembly
  obtain ⟨view', hMethod', hCode⟩ := hFetched.method
  cases hMethod.symm.trans hMethod'
  rw [← hCode] at hStart
  obtain ⟨unit, offset, hUnit, hNode, hLinked⟩ := h.linked hAssembly hMethod
  obtain ⟨view', calls, hMethod', hCalls, -, hMarked⟩ := hLinked.scanned
  cases hMethod.symm.trans hMethod'
  obtain ⟨operand, opcode, hDecoded, -⟩ := hFetched.decoded (hCode ▸ h.framed hAssembly hMethod) hStart
  obtain ⟨first, hFirst, hOpcode, hValue⟩ := hFetched.first
  rw [← hOpcode] at hOperation
  have hPlain : fetched.value = first.toNat := by
    apply opcodeValue_plain hValue hOperation
    rintro rfl
    rcases hCall with hCall | ⟨virtual, hCall⟩
    · cases hCall
    · cases hCall
  have hProfile := operation_profiled (hPlain ▸ hDecoded.lookup) hOperation first.toNat_lt
  have hMethodToken : opcode.operand = .methodToken ∧ first.toNat ∈ callOpcodes := by
    rcases hCall with rfl | ⟨virtual, rfl⟩
    · exact of_decide_eq_true hProfile
    · exact of_decide_eq_true hProfile
  have hPlace := hDecoded.plain (hMethodToken.1 ▸ Operand.noConfusion)
  have hRead := callToken_read hTable hToken
  rw [← hPlace] at hRead
  simp only [Assembly.methodCalls, hMethod, bind_ok] at hCalls
  obtain ⟨_, hSame, hCalls⟩ := hCalls
  cases hSame
  rw [← hCode] at hCalls
  have hMem := methodCalls_mem hCalls hStart hDecoded (hPlain ▸ hMethodToken.2) hRead
  rw [hNode]
  exact ⟨unit, hUnit, hMarked _ hMem⟩

/-- A method that an instruction enters is behind an edge. -/
theorem LinkedProgram.enters (h : LinkedProgram units assemblies offsets graph search)
    (hFetched : FetchedAt assemblies machine fetched) (hStanding : Standing assemblies fetched.frame)
    {operation' : Operation} (hOperation : operation fetched.opcode = some operation') {unit method : Nat}
    (hEnters : operation'.Enters (linkedTarget units) fetched.frame.unit fetched.code fetched.frame.pc unit method) :
    (fetched.frame.node offsets, offsets.getD unit 0 + method) ∈ graph.edges := by
  cases hEnters with
  | @member virtual row _ _ hToken hTarget =>
      obtain ⟨source, hSource, hMarked⟩ := h.called hFetched hStanding hOperation (.inr ⟨virtual, rfl⟩) (.inr rfl) hToken
      obtain ⟨binding, hBinding, -, hManaged⟩ := hMarked.member rfl
      simp only [linkedTarget, bind_ok, orRefuse, orFail_ok] at hTarget
      obtain ⟨source', hSource', binding', hBinding', hTarget⟩ := hTarget
      cases hSource.symm.trans hSource'
      cases hBinding.symm.trans hBinding'
      cases hKind : binding.target with
      | managed dependency method' =>
          rw [hKind] at hTarget
          simp only [bind_ok, pure_ok, orFail_ok] at hTarget
          obtain ⟨bound, hBound, index, hIndex, hSame⟩ := hTarget
          cases hSame
          obtain ⟨bound', index', offset, hBound', hIndex', hOffset, hEdge⟩ := hManaged _ _ hKind
          cases hBound.symm.trans hBound'
          cases hIndex.symm.trans hIndex'
          rw [List.getD_eq_getElem?_getD, hOffset]
          exact hEdge
      | _ =>
          rw [hKind] at hTarget
          cases hTarget
  | method hCall hToken hRow =>
      obtain ⟨source, hSource, hMarked⟩ := h.called hFetched hStanding hOperation hCall (.inl rfl) hToken
      obtain ⟨offset, hOffset, hEdge⟩ := hMarked.method rfl
      rw [List.getD_eq_getElem?_getD, hOffset]
      exact hEdge

variable {allocator : Nat → Bool} {cancelled : Nat → Bool} {progress : Progress}

theorem CallsWithin.tail {rest : List Frame} (h : CallsWithin assemblies offsets graph (frame :: rest)) :
    CallsWithin assemblies offsets graph rest :=
  ⟨fun other hOther => h.standing other (List.mem_cons_of_mem _ hOther), h.calls.tail⟩

/-- The innermost frame goes on to another instruction. -/
theorem CallsWithin.moved {rest : List Frame} (h : CallsWithin assemblies offsets graph (frame :: rest)) {pc : Nat}
    (hStanding : Standing assemblies { frame with pc := pc }) :
    CallsWithin assemblies offsets graph ({ frame with pc := pc } :: rest) where
  standing := List.forall_mem_cons.2 ⟨hStanding, h.tail.standing⟩
  calls := by
    cases rest with
    | nil => exact List.isChain_singleton _
    | cons caller rest => exact List.isChain_cons_cons.2 (List.isChain_cons_cons.1 h.calls)

/-- An entered method comes over an edge. -/
theorem CallsWithin.entered {rest : List Frame} {callee : Frame} (h : CallsWithin assemblies offsets graph (frame :: rest))
    (hStanding : Standing assemblies callee) (hEdge : (frame.node offsets, callee.node offsets) ∈ graph.edges) :
    CallsWithin assemblies offsets graph (callee :: frame :: rest) :=
  ⟨List.forall_mem_cons.2 ⟨hStanding, h.standing⟩, List.isChain_cons_cons.2 ⟨hEdge, h.calls⟩⟩

theorem HasBody.standing {unit method : Nat} (h : HasBody assemblies unit method) (hUnit : frame.unit = unit)
    (hMethod : frame.method = method) (hPc : frame.pc = 0) : Standing assemblies frame := by
  obtain ⟨assembly, view, hAssembly, hView⟩ := h
  refine ⟨assembly, view, hUnit.symm ▸ hAssembly, hMethod.symm ▸ hView, ?_⟩
  rw [hPc]
  exact .zero

/-- A step keeps to the graph. -/
theorem CallsWithin.stepped (h : LinkedProgram units assemblies offsets graph search)
    (hCalls : CallsWithin assemblies offsets graph machine.frames)
    (hStep : step assemblies (linkedTarget units) allocator cancelled machine = .ok progress) :
    progress.Holds fun machine => CallsWithin assemblies offsets graph machine.frames := by
  obtain ⟨counted, fetched, operation', hCount, hFetch, hOperation, hExecute, -⟩ := step_ok hStep
  obtain ⟨-, -, hFrames, -⟩ := account_ok hCount
  have hFetched := fetch_ok hFetch
  obtain ⟨rest, hTop⟩ := hFetched.frame
  rw [← hFrames, hTop] at hCalls
  have hStanding := hCalls.standing _ List.mem_cons_self
  obtain ⟨assembly, view, hAssembly, hMethod, hStart⟩ := hStanding.body
  obtain ⟨view', hMethod', hCode⟩ := hFetched.method
  cases hFetched.unit.symm.trans hAssembly
  cases hMethod.symm.trans hMethod'
  have hFramed := h.framed hAssembly hMethod
  rw [← hCode] at hStart hFramed
  obtain ⟨operand, opcode, hDecoded, hNext⟩ := hFetched.decoded hFramed hStart
  have hStand : ∀ pc, Starts fetched.assembly.rows fetched.code pc → Standing assemblies { fetched.frame with pc := pc } :=
    fun pc hStart => ⟨fetched.assembly, view, hAssembly, hMethod, hCode ▸ hStart⟩
  have hJumped : ∀ pc, Starts fetched.assembly.rows fetched.code pc →
      CallsWithin assemblies offsets graph (counted.jump pc).frames := by
    intro pc hStart
    unfold Machine.jump
    rw [hTop]
    exact hCalls.moved (hStand pc hStart)
  have hHere := hJumped _ hNext
  have hEnter : ∀ {unit method : Nat} {machine' : Machine},
      operation'.Enters (linkedTarget units) fetched.frame.unit fetched.code fetched.frame.pc unit method →
      Entered assemblies (counted.jump fetched.next) unit method machine' →
      CallsWithin assemblies offsets graph machine'.frames := by
    intro unit method machine' hEnters hEntered
    obtain ⟨callee, hCallee, hUnit, hMethod, hPc⟩ := hEntered.frames
    have hEdge := h.enters hFetched hStanding hOperation hEnters
    have hFrame : (counted.jump fetched.next).frames = { fetched.frame with pc := fetched.next } :: rest := by
      unfold Machine.jump
      rw [hTop]
    rw [hCallee, hFrame]
    rw [hFrame] at hHere
    apply hHere.entered (hEntered.body.standing hUnit hMethod hPc)
    rw [← hUnit, ← hMethod] at hEdge
    exact hEdge
  have hAnswer : ∀ {machine' : Machine} {start : Nat} {returns : Bool} {result : Option RuntimeValue} {progress : Progress},
      answered machine' start returns result = .ok progress → machine'.frames = (counted.jump fetched.next).frames →
      ∃ machine'', progress = .continue' machine'' ∧ CallsWithin assemblies offsets graph machine''.frames := by
    intro machine' start returns result progress hAnswered hSame
    obtain ⟨machine'', rfl, hFrames, -⟩ := answered_ok hAnswered
    refine ⟨machine'', rfl, ?_⟩
    rw [hFrames, hSame]
    exact hHere
  cases execute_effect hExecute with
  | continues hContinues =>
      cases hContinues with
      | on hQuiet =>
          show CallsWithin assemblies offsets graph _
          rw [hQuiet.frames]
          exact hHere
      | jumps hSends hTarget hQuiet =>
          obtain ⟨first, -, hOpcode, hValue⟩ := hFetched.first
          have hLands := sends_starts hFramed hStart hDecoded hValue (hOpcode ▸ hOperation) hSends hTarget
          have hThere := hJumped _ hLands
          have hSame := hQuiet.frames
          unfold Machine.jump at hSame hThere
          rw [hTop] at hSame hThere
          show CallsWithin assemblies offsets graph _
          rw [hSame]
          exact hThere
  | enters hEnters hEntered => exact hEnter hEnters hEntered
  | entersMember hEnters hEntered => exact hEnter hEnters hEntered
  | leaves hTail =>
      have hBelow : (counted.jump fetched.next).frames.tail = rest := by
        unfold Machine.jump
        rw [hTop]
        rfl
      show CallsWithin assemblies offsets graph _
      rw [hTail, hBelow]
      exact hCalls.tail
  | answers hCall hAsks hTarget hHost hAnswered =>
      obtain ⟨machine', rfl, hKept⟩ := hAnswer hAnswered rfl
      exact hKept
  | native hCall hAsks hTarget => exact fun result heap resumed hResume => hAnswer hResume rfl
  | returns => trivial

end Frames

section Runs

variable {σ : Type} {units : List ExecutionUnit} {assemblies : List Assembly} {offsets : List Nat} {graph : ProgramGraph}
  {search : ProgramSearch} {external : External σ} {allocator : Nat → Nat → Bool} {cancelled : Nat → Bool}
  {entryUnit entry : Nat} {arguments : List Int32} {initial state : σ} {machine : Machine}

theorem start_calls (h : start assemblies entryUnit entry arguments = .ok machine) :
    CallsWithin assemblies offsets graph machine.frames := by
  simp only [start, bind_ok, pure_ok] at h
  obtain ⟨_, -, _, -, _, -, _, -, ⟨frame, locals⟩, hFrame, rfl⟩ := h
  obtain ⟨⟨hUnit, hMethod, hPc⟩, -, hBody⟩ := newFrame_ok hFrame
  constructor
  · intro other hOther
    rw [List.mem_singleton.1 hOther]
    exact hBody.standing hUnit hMethod hPc
  · exact List.isChain_singleton _

theorem reached_calls (h : LinkedProgram units assemblies offsets graph search) (hResolve : external.resolve = linkedTarget units)
    (hReached : Reached assemblies external allocator cancelled entryUnit entry arguments (fun _ => True) initial machine state) :
    CallsWithin assemblies offsets graph machine.frames := by
  induction hReached with
  | start hStart => exact start_calls hStart
  | advance hBefore hLeft hAdvance ih =>
      exact advance_holds (P := fun machine => CallsWithin assemblies offsets graph machine.frames)
        (fun progress hStep => CallsWithin.stepped h ih (hResolve ▸ hStep)) hAdvance

/-- An irreversible operation is only called where no transactional method is on the stack. -/
theorem CallsWithin.irreversible (h : LinkedProgram units assemblies offsets graph search)
    (hCalls : CallsWithin assemblies offsets graph machine.frames) {allocator : Nat → Bool} {call : NativeCall} {machine' : Machine}
    (hStep : step assemblies (linkedTarget units) allocator cancelled machine = .ok (.native call machine')) (hId : call.id = 6) :
    ∀ frame ∈ machine.frames, ∀ assembly view, assemblies[frame.unit]? = some assembly →
      assembly.method frame.method = .ok view → view.bodyFlags.testBit 0 = false := by
  obtain ⟨counted, fetched, operation', hCount, hFetch, hOperation, hExecute, -⟩ := step_ok hStep
  obtain ⟨-, -, hFrames, -⟩ := account_ok hCount
  have hFetched := fetch_ok hFetch
  obtain ⟨rest, hTop⟩ := hFetched.frame
  rw [← hFrames, hTop] at hCalls ⊢
  have hStanding := hCalls.standing _ List.mem_cons_self
  cases execute_effect hExecute with
  | answers hCall hAsks hTarget hHost hAnswered =>
      obtain ⟨machine'', hNext, -⟩ := answered_ok hAnswered
      cases hNext
  | @native virtual row types id hCall hAsks hTarget =>
      obtain ⟨source, hSource, hMarked⟩ :=
        h.called hFetched hStanding hOperation (.inr ⟨virtual, hCall⟩) (.inr rfl) hAsks.token
      obtain ⟨binding, hBinding, hNative, -⟩ := hMarked.member rfl
      simp only [linkedTarget, bind_ok, orRefuse, orFail_ok] at hTarget
      obtain ⟨source', hSource', binding', hBinding', hTarget⟩ := hTarget
      cases hSource.symm.trans hSource'
      cases hBinding.symm.trans hBinding'
      have hSix : binding.target = .native 6 := by
        cases hKind : binding.target with
        | native id' =>
            rw [hKind] at hTarget
            cases hTarget
            exact congrArg CallTarget.native hId
        | managed dependency method =>
            rw [hKind] at hTarget
            simp only [bind_ok, pure_ok] at hTarget
            obtain ⟨_, -, _, -, hSame⟩ := hTarget
            cases hSame
        | _ =>
            rw [hKind] at hTarget
            cases hTarget
      obtain ⟨depth, effect, hKnown, -, -, hEffect, -⟩ := h.found hStanding
      have hTrue : effect = true := hEffect (hNative hSix)
      intro frame hFrame assembly view hAssembly hMethod
      obtain ⟨depth', hBelow⟩ := hCalls.effects h (hTrue ▸ hKnown) frame hFrame
      obtain ⟨depth'', effect'', hSame, -, -, -, hPure⟩ := h.found (hCalls.standing frame hFrame)
      cases hBelow.effect.symm.trans hSame.effect
      rw [Bool.eq_false_iff]
      intro hFlag
      exact Bool.noConfusion (hPure assembly view hAssembly hMethod hFlag)

/-- The linker bounds every run of an accepted program: its calls are edges of the graph that
was collected, which has no cycles; it nests no more than 32 frames; and it calls no
irreversible operation while a transactional method is on the stack. -/
theorem linked_calls {u : Unit} (h : validateLinkedProgram units = .ok u) : ∃ assemblies offsets graph,
    units.mapM (fun unit => Assembly.parse unit.package.image) = .ok assemblies ∧
    collectCalls units assemblies = .ok (offsets, graph) ∧ Acyclic (fun source target => (source, target) ∈ graph.edges) ∧
    ∀ (σ : Type) (invoke : NativeCall → Heap → σ → (Checked (Option RuntimeValue) × Heap) × σ) allocator cancelled entryUnit
      entry arguments initial machine state, Reached assemblies ⟨linkedTarget units, invoke⟩ allocator cancelled entryUnit entry
        arguments (fun _ => True) initial machine state →
      (machine.frames.IsChain fun callee caller => (caller.node offsets, callee.node offsets) ∈ graph.edges) ∧
      machine.frames.length ≤ 32 ∧
      ∀ allocator call machine', step assemblies (linkedTarget units) allocator cancelled machine = .ok (.native call machine') →
        call.id = 6 → ∀ frame ∈ machine.frames, ∀ assembly view, assemblies[frame.unit]? = some assembly →
          assembly.method frame.method = .ok view → view.bodyFlags.testBit 0 = false := by
  obtain ⟨assemblies, offsets, graph, search, hCollect, hLinked⟩ := validateLinkedProgram_ok h
  refine ⟨assemblies, offsets, graph, hLinked.parsed, hCollect, hLinked.acyclic, ?_⟩
  intro σ invoke allocator cancelled entryUnit entry arguments initial machine state hReached
  have hCalls := reached_calls hLinked rfl hReached
  refine ⟨hCalls.calls, hCalls.length_le hLinked, ?_⟩
  intro allocator call machine' hStep hId
  exact hCalls.irreversible hLinked hStep hId

/-- The image of a transactional method that calls another one. -/
def callingImage : List Byte := [
  0x4d, 0x43, 0x30, 0x34, 0x04, 0x00, 0x00, 0x00, 0x04, 0x02, 0x38, 0x00, 0xa4, 0x00, 0x00, 0x00, 0x01, 0x00, 0x38, 0x00, 0x00, 0x00, 0x40, 0x00,
  0x00, 0x00, 0x02, 0x00, 0x78, 0x00, 0x00, 0x00, 0x09, 0x00, 0x00, 0x00, 0x03, 0x00, 0x81, 0x00, 0x00, 0x00, 0x05, 0x00, 0x00, 0x00, 0x04, 0x00,
  0x86, 0x00, 0x00, 0x00, 0x1e, 0x00, 0x00, 0x00, 0x02, 0x00, 0x00, 0x00, 0x45, 0x00, 0x00, 0x00, 0x01, 0x00, 0x00, 0x00, 0x01, 0x00, 0x01, 0x00,
  0x02, 0x00, 0x01, 0x00, 0x01, 0x01, 0x01, 0x00, 0x00, 0x03, 0x00, 0x00, 0x00, 0x01, 0x01, 0x00, 0x00, 0x00, 0x00, 0x00, 0x00, 0x16, 0x00, 0x05,
  0x01, 0x11, 0x00, 0x00, 0x00, 0x00, 0x00, 0x16, 0x00, 0x05, 0x01, 0x01, 0x00, 0x00, 0x00, 0x00, 0x00, 0x00, 0x00, 0x00, 0x00, 0x00, 0x00, 0x01,
  0x00, 0x4d, 0x00, 0x54, 0x00, 0x52, 0x75, 0x6e, 0x00, 0x00, 0x03, 0x00, 0x00, 0x01, 0x01, 0x00, 0x01, 0x00, 0x05, 0x00, 0x00, 0x00, 0x00, 0x00,
  0x00, 0x00, 0x28, 0x06, 0x02, 0x00, 0x2a, 0x00, 0x00, 0x01, 0x00, 0x01, 0x00, 0x00, 0x00, 0x00, 0x00, 0x00, 0x00, 0x2a]

theorem linked_calls_calling : ∃ assemblies offsets graph,
    collectCalls [loneUnit callingImage []] assemblies = .ok (offsets, graph) ∧
    Acyclic fun source target => (source, target) ∈ graph.edges := by
  have hLinked : isOkAnd (validateLinkedProgram [loneUnit callingImage []]) (fun _ => true) = true := by decide +kernel
  obtain ⟨u, hLinked, -⟩ := isOkAnd_ok hLinked
  obtain ⟨assemblies, offsets, graph, -, hCollect, hAcyclic, -⟩ := linked_calls hLinked
  exact ⟨assemblies, offsets, graph, hCollect, hAcyclic⟩

end Runs

end MicroCard.Mc04
