import MicroCard.Mc04.Linking

/-! What the scan over a linked program leaves in the graph: an edge or a mark for each call
of each method. -/
namespace MicroCard.Mc04

open Bytes Halting Checks

section Offsets

/-- Where the nodes of the units begin: each unit has one for each of its methods. -/
structure Placed (assemblies : List Assembly) (offsets : List Nat) : Prop where
  length : offsets.length = assemblies.length + 1
  next : ∀ (i : Nat) (assembly : Assembly), assemblies[i]? = some assembly →
    ∃ offset, offsets[i]? = some offset ∧ offsets[i + 1]? = some (offset + assembly.rows .methodDef)

variable {assemblies : List Assembly} {offsets : List Nat}

theorem methodOffsets_ok (h : methodOffsets assemblies = .ok offsets) : Placed assemblies offsets := by
  unfold methodOffsets at h
  have hGeneral : ∀ {rest before : List Assembly} {start : List Nat}, Placed before start →
      rest.foldlM (fun offsets assembly => do
        let next := offsets.getLastD 0 + assembly.rows .methodDef
        refuseIf (maxLinkedMethods < next) .quota
        pure (offsets ++ [next])) start = (.ok offsets : Checked (List Nat)) → Placed (before ++ rest) offsets := by
    intro rest
    induction rest with
    | nil =>
        intro before start hPlaced hRun
        cases hRun
        rw [List.append_nil]
        exact hPlaced
    | cons assembly rest ih =>
        intro before start hPlaced hRun
        simp only [List.foldlM_cons, bind_ok, pure_ok] at hRun
        obtain ⟨_, ⟨_, -, rfl⟩, hRest⟩ := hRun
        have hLength := hPlaced.length
        have hLast : start[before.length]? = some (start.getLastD 0) := by
          rw [List.getLastD_eq_getLast?, List.getLast?_eq_getElem?, hLength, Nat.add_sub_cancel,
            List.getElem?_eq_getElem (by omega)]
          rfl
        have hNext : Placed (before ++ [assembly]) (start ++ [start.getLastD 0 + assembly.rows .methodDef]) := by
          constructor
          · simp [hLength]
          · intro i other hOther
            by_cases hBefore : i < before.length
            · rw [List.getElem?_append_left hBefore] at hOther
              obtain ⟨offset, hHere, hAfter⟩ := hPlaced.next i other hOther
              refine ⟨offset, ?_, ?_⟩
              · rw [List.getElem?_append_left (by omega)]
                exact hHere
              · rw [List.getElem?_append_left (by omega)]
                exact hAfter
            · have hInside := (List.getElem?_eq_some_iff.1 hOther).1
              rw [List.length_append, List.length_singleton] at hInside
              obtain rfl : i = before.length := by omega
              rw [List.getElem?_concat_length] at hOther
              cases hOther
              refine ⟨start.getLastD 0, ?_, ?_⟩
              · rw [List.getElem?_append_left (by omega)]
                exact hLast
              · rw [← hLength, List.getElem?_concat_length]
        have hRest := ih hNext hRest
        rwa [List.append_assoc] at hRest
  have hStart : Placed [] [0] := ⟨rfl, fun i assembly hNone => by cases hNone⟩
  exact hGeneral hStart h

/-- Later units have later nodes. -/
theorem Placed.le (h : Placed assemblies offsets) {i j offset offset' : Nat} (hOrder : i ≤ j) (hi : offsets[i]? = some offset)
    (hj : offsets[j]? = some offset') : offset ≤ offset' := by
  induction hOrder generalizing offset' with
  | refl => exact (Option.some.inj (hi.symm.trans hj)).le
  | @step j _ ih =>
      have hInside := (List.getElem?_eq_some_iff.1 hj).1
      rw [h.length] at hInside
      obtain ⟨before, hHere, hNext⟩ := h.next j assemblies[j] (List.getElem?_eq_getElem (by omega))
      cases hNext.symm.trans hj
      exact (ih hHere).trans (Nat.le_add_right _ _)

/-- The nodes of all units come before the last offset. -/
theorem Placed.less (h : Placed assemblies offsets) {i offset method : Nat} {assembly : Assembly}
    (hAssembly : assemblies[i]? = some assembly) (hOffset : offsets[i]? = some offset)
    (hMethod : method < assembly.rows .methodDef) : offset + method < offsets.getLastD 0 := by
  obtain ⟨offset', hHere, hNext⟩ := h.next i assembly hAssembly
  cases hOffset.symm.trans hHere
  have hInside := (List.getElem?_eq_some_iff.1 hAssembly).1
  have hLast : offsets[assemblies.length]? = some (offsets.getLastD 0) := by
    rw [List.getLastD_eq_getLast?, List.getLast?_eq_getElem?, h.length, Nat.add_sub_cancel,
      List.getElem?_eq_getElem (by rw [h.length]; omega)]
    rfl
  have hBefore := h.le hInside hNext hLast
  omega

/-- Different methods have different nodes. -/
theorem Placed.injective (h : Placed assemblies offsets) {i j offset offset' method method' : Nat} {assembly assembly' : Assembly}
    (hi : assemblies[i]? = some assembly) (hj : assemblies[j]? = some assembly') (hOffset : offsets[i]? = some offset)
    (hOffset' : offsets[j]? = some offset') (hMethod : method < assembly.rows .methodDef)
    (hMethod' : method' < assembly'.rows .methodDef) (hSame : offset + method = offset' + method') : i = j ∧ method = method' := by
  have hOrder : ∀ {i j offset offset' method method' : Nat} {assembly : Assembly}, assemblies[i]? = some assembly →
      offsets[i]? = some offset → offsets[j]? = some offset' → method < assembly.rows .methodDef →
      offset + method = offset' + method' → ¬i < j := by
    intro i j offset offset' method method' assembly hi hOffset hOffset' hMethod hSame hLess
    obtain ⟨offset'', hHere, hNext⟩ := h.next i assembly hi
    cases hOffset.symm.trans hHere
    have hBefore := h.le hLess hNext hOffset'
    omega
  have hForward := hOrder hi hOffset hOffset' hMethod hSame
  have hBackward := hOrder hj hOffset' hOffset hMethod' hSame.symm
  obtain rfl : i = j := by omega
  cases hOffset.symm.trans hOffset'
  exact ⟨rfl, by omega⟩

end Offsets

section Calls

variable (units : List ExecutionUnit) (offsets : List Nat)

/-- A call of a method has left its edge or its mark in the graph. -/
structure CallMarked (unitIndex : Nat) (unit : ExecutionUnit) (source : Nat) (token : MetadataToken) (graph : ProgramGraph) :
    Prop where
  method : token.table = .methodDef → ∃ offset, offsets[unitIndex]? = some offset ∧
    (source, offset + (token.row - 1)) ∈ graph.edges
  member : token.table = .memberRef → ∃ binding, (unit.calls.find? fun call => call.member.toNat = token.row) = some binding ∧
    (binding.target = .native 6 → graph.irreversible[source]? = some true) ∧
    ∀ dependency method, binding.target = .managed dependency method → ∃ bound index offset,
      unit.bindings[dependency.toNat]? = some bound ∧ unitWithDigest units bound.digest = .ok index ∧
        offsets[index]? = some offset ∧ (source, offset + method.toNat) ∈ graph.edges

/-- A graph with more edges and marks than another. The new edges come from the nodes that
there are. -/
structure Grows (nodeCount : Nat) (graph graph' : ProgramGraph) : Prop where
  edges : ∀ edge ∈ graph.edges, edge ∈ graph'.edges
  sources : ∀ edge ∈ graph'.edges, edge ∈ graph.edges ∨ edge.1 < nodeCount
  irreversible : ∀ node : Nat, graph.irreversible[node]? = some true → graph'.irreversible[node]? = some true
  marks : graph'.irreversible.length = graph.irreversible.length
  flags : graph'.transactional.length = graph.transactional.length

variable {units offsets} {graph graph' graph'' : ProgramGraph} {nodeCount unitIndex source : Nat} {unit : ExecutionUnit}
  {token : MetadataToken}

theorem Grows.rfl : Grows nodeCount graph graph :=
  ⟨fun _ h => h, fun _ h => .inl h, fun _ h => h, Eq.refl _, Eq.refl _⟩

theorem Grows.trans (h : Grows nodeCount graph graph') (h' : Grows nodeCount graph' graph'') : Grows nodeCount graph graph'' where
  edges := fun edge hEdge => h'.edges edge (h.edges edge hEdge)
  sources := by
    intro edge hEdge
    rcases h'.sources edge hEdge with hOld | hNew
    · exact h.sources edge hOld
    · exact .inr hNew
  irreversible := fun node hNode => h'.irreversible node (h.irreversible node hNode)
  marks := h'.marks.trans h.marks
  flags := h'.flags.trans h.flags

theorem CallMarked.grows (h : CallMarked units offsets unitIndex unit source token graph) (hGrows : Grows nodeCount graph graph') :
    CallMarked units offsets unitIndex unit source token graph' where
  method := by
    intro hTable
    obtain ⟨offset, hOffset, hEdge⟩ := h.method hTable
    exact ⟨offset, hOffset, hGrows.edges _ hEdge⟩
  member := by
    intro hTable
    obtain ⟨binding, hBinding, hMark, hManaged⟩ := h.member hTable
    refine ⟨binding, hBinding, fun hNative => hGrows.irreversible _ (hMark hNative), ?_⟩
    intro dependency method hTarget
    obtain ⟨bound, index, offset, hBound, hIndex, hOffset, hEdge⟩ := hManaged dependency method hTarget
    exact ⟨bound, index, offset, hBound, hIndex, hOffset, hGrows.edges _ hEdge⟩

theorem linkEdge_ok {targetUnit targetMethod : Nat} (hSource : source < nodeCount)
    (h : linkEdge offsets graph source targetUnit targetMethod = .ok graph') :
    ∃ offset, offsets[targetUnit]? = some offset ∧ (source, offset + targetMethod) ∈ graph'.edges ∧ Grows nodeCount graph graph' ∧
      graph'.transactional = graph.transactional := by
  simp only [linkEdge, pushLinkEdge, bind_ok, pure_ok, orRefuse, orFail_ok] at h
  obtain ⟨offset, hOffset, next, -, -, -, edges, ⟨-, -, rfl⟩, rfl⟩ := h
  refine ⟨offset, hOffset, List.mem_append_right _ List.mem_cons_self, ⟨?_, ?_, fun _ h => h, rfl, rfl⟩, rfl⟩
  · exact fun edge hEdge => List.mem_append_left _ hEdge
  · intro edge hEdge
    rcases List.mem_append.1 hEdge with hOld | hNew
    · exact .inl hOld
    · exact .inr (List.mem_singleton.1 hNew ▸ hSource)

theorem irreversible_grows : Grows nodeCount graph { graph with irreversible := graph.irreversible.set source true } := by
  refine ⟨fun _ h => h, fun _ h => .inl h, ?_, List.length_set, rfl⟩
  intro node hNode
  show (graph.irreversible.set source true)[node]? = some true
  rw [List.getElem?_set]
  split
  · rename_i hSame
    rw [if_pos (hSame ▸ (List.getElem?_eq_some_iff.1 hNode).1)]
  · exact hNode

theorem linkMember_ok {member : Nat} (hSource : source < nodeCount) (hMarks : graph.irreversible.length = nodeCount)
    (h : linkMember units offsets unit graph source member = .ok graph') :
    CallMarked units offsets unitIndex unit source ⟨.memberRef, member⟩ graph' ∧ Grows nodeCount graph graph' ∧
      graph'.transactional = graph.transactional := by
  simp only [linkMember, bind_ok, orRefuse, orFail_ok] at h
  obtain ⟨binding, hBinding, h⟩ := h
  have hMarked : ∀ {graph' : ProgramGraph}, (binding.target = .native 6 → graph'.irreversible[source]? = some true) →
      (∀ dependency method, binding.target = .managed dependency method → ∃ bound index offset,
        unit.bindings[dependency.toNat]? = some bound ∧ unitWithDigest units bound.digest = .ok index ∧
          offsets[index]? = some offset ∧ (source, offset + method.toNat) ∈ graph'.edges) →
      CallMarked units offsets unitIndex unit source ⟨.memberRef, member⟩ graph' :=
    fun hNative hManaged => ⟨fun hTable => (nomatch hTable), fun _ => ⟨binding, hBinding, hNative, hManaged⟩⟩
  cases hTarget : binding.target with
  | native id =>
      rw [hTarget] at h
      dsimp only at h
      split at h
      · cases h
        refine ⟨hMarked (fun _ => List.getElem?_set_self (hMarks.symm ▸ hSource)) ?_, irreversible_grows, rfl⟩
        intro dependency method hManaged
        cases hTarget.symm.trans hManaged
      · rename_i hOther
        cases h
        refine ⟨hMarked ?_ ?_, .rfl, rfl⟩
        · intro hNative
          exact absurd (CallTarget.native.inj (hTarget.symm.trans hNative)) hOther
        · intro dependency method hManaged
          cases hTarget.symm.trans hManaged
  | managed dependency method =>
      rw [hTarget] at h
      simp only [bind_ok, orFail_ok] at h
      obtain ⟨bound, hBound, index, hIndex, hEdge⟩ := h
      obtain ⟨offset, hOffset, hMem, hGrows, hFlags⟩ := linkEdge_ok hSource hEdge
      refine ⟨hMarked ?_ ?_, hGrows, hFlags⟩
      · intro hNative
        cases hTarget.symm.trans hNative
      · intro dependency' method' hManaged
        cases hTarget.symm.trans hManaged
        exact ⟨bound, index, offset, hBound, hIndex, hOffset, hMem⟩
  | _ =>
      rw [hTarget] at h
      cases h
      refine ⟨hMarked ?_ ?_, .rfl, rfl⟩
      · intro hNative
        cases hTarget.symm.trans hNative
      · intro dependency method hManaged
        cases hTarget.symm.trans hManaged

theorem linkCall_ok (hSource : source < nodeCount) (hMarks : graph.irreversible.length = nodeCount)
    (h : linkCall units offsets unitIndex unit source graph token = .ok graph') :
    CallMarked units offsets unitIndex unit source token graph' ∧ Grows nodeCount graph graph' ∧
      graph'.transactional = graph.transactional := by
  cases token with
  | mk table row =>
      unfold linkCall at h
      split at h
      · rename_i hTable
        simp only [bind_ok] at h
        obtain ⟨-, -, hEdge⟩ := h
        obtain ⟨offset, hOffset, hMem, hGrows, hFlags⟩ := linkEdge_ok hSource hEdge
        refine ⟨⟨fun _ => ⟨offset, hOffset, hMem⟩, ?_⟩, hGrows, hFlags⟩
        intro hMember
        cases hTable.symm.trans hMember
      · split at h
        · rename_i hTable
          cases hTable
          exact linkMember_ok hSource hMarks h
        · cases h

variable {assemblies : List Assembly} {assembly : Assembly} {offset method : Nat}

/-- The calls of a method are in the graph, and its own node says whether it is transactional. -/
structure MethodLinked (units : List ExecutionUnit) (offsets : List Nat) (unitIndex : Nat) (unit : ExecutionUnit)
    (assembly : Assembly) (method offset : Nat) (graph : ProgramGraph) : Prop where
  place : offsets[unitIndex]? = some offset
  scanned : ∃ view calls, assembly.method method = .ok view ∧ assembly.methodCalls method = .ok calls ∧
    graph.transactional[offset + method]? = some (view.bodyFlags.testBit 0) ∧
    ∀ token ∈ calls, CallMarked units offsets unitIndex unit (offset + method) token graph

theorem MethodLinked.keep (h : MethodLinked units offsets unitIndex unit assembly method offset graph) (hGrows : Grows nodeCount graph graph')
    (hFlag : graph'.transactional[offset + method]? = graph.transactional[offset + method]?) :
    MethodLinked units offsets unitIndex unit assembly method offset graph' where
  place := h.place
  scanned := by
    obtain ⟨view, calls, hView, hCalls, hHere, hMarked⟩ := h.scanned
    exact ⟨view, calls, hView, hCalls, hFlag.trans hHere, fun token hToken => (hMarked token hToken).grows hGrows⟩

/-- A graph over so many methods. -/
structure Sized (nodeCount : Nat) (graph : ProgramGraph) : Prop where
  marks : graph.irreversible.length = nodeCount
  flags : graph.transactional.length = nodeCount
  sources : ∀ edge ∈ graph.edges, edge.1 < nodeCount

theorem Sized.grows (h : Sized nodeCount graph) (hGrows : Grows nodeCount graph graph') : Sized nodeCount graph' where
  marks := hGrows.marks.trans h.marks
  flags := hGrows.flags.trans h.flags
  sources := by
    intro edge hEdge
    rcases hGrows.sources edge hEdge with hOld | hNew
    · exact h.sources edge hOld
    · exact hNew

theorem linkCalls_ok {calls : List MetadataToken}
    (h : calls.foldlM (linkCall units offsets unitIndex unit source) graph = .ok graph')
    (hSource : source < nodeCount) (hMarks : graph.irreversible.length = nodeCount) :
    (∀ token ∈ calls, CallMarked units offsets unitIndex unit source token graph') ∧ Grows nodeCount graph graph' ∧
      graph'.transactional = graph.transactional := by
  induction calls generalizing graph with
  | nil =>
      cases h
      exact ⟨fun token hToken => (nomatch hToken), .rfl, rfl⟩
  | cons token rest ih =>
      rw [List.foldlM_cons, bind_ok] at h
      obtain ⟨next, hFirst, hRest⟩ := h
      obtain ⟨hMarked, hGrows, hFlags⟩ := linkCall_ok hSource hMarks hFirst
      obtain ⟨hOthers, hGrows', hFlags'⟩ := ih hRest (hGrows.marks.trans hMarks)
      refine ⟨?_, hGrows.trans hGrows', hFlags'.trans hFlags⟩
      exact List.forall_mem_cons.2 ⟨hMarked.grows hGrows', hOthers⟩

theorem linkMethod_ok (hOffset : offsets[unitIndex]? = some offset) (hSized : Sized nodeCount graph)
    (hNode : offset + method < nodeCount) (h : linkMethod units offsets unitIndex unit assembly offset graph method = .ok graph') :
    MethodLinked units offsets unitIndex unit assembly method offset graph' ∧ Grows nodeCount graph graph' ∧
      ∀ node, node ≠ offset + method → graph'.transactional[node]? = graph.transactional[node]? := by
  simp only [linkMethod, bind_ok] at h
  obtain ⟨view, hView, calls, hCalls, h⟩ := h
  obtain ⟨hMarked, hGrows, hFlags⟩ := linkCalls_ok h hNode hSized.marks
  refine ⟨⟨hOffset, view, calls, hView, hCalls, ?_, hMarked⟩, ⟨hGrows.edges, hGrows.sources, hGrows.irreversible, hGrows.marks, ?_⟩, ?_⟩
  · rw [hFlags]
    exact List.getElem?_set_self (hSized.flags.symm ▸ hNode)
  · rw [hFlags]
    exact List.length_set
  · intro node hOther
    rw [hFlags]
    exact List.getElem?_set_ne hOther.symm

theorem linkUnit_ok (hPlaced : Placed assemblies offsets) (hSized : Sized (offsets.getLastD 0) graph)
    (hUnit : units[unitIndex]? = some unit) (hAssembly : assemblies[unitIndex]? = some assembly)
    (h : linkUnit units offsets assemblies graph unitIndex = .ok graph') :
    (∀ method < assembly.rows .methodDef, ∃ offset, MethodLinked units offsets unitIndex unit assembly method offset graph') ∧
      Grows (offsets.getLastD 0) graph graph' ∧ ∀ node, (∀ offset, offsets[unitIndex]? = some offset → ∀ method < assembly.rows .methodDef,
        node ≠ offset + method) → graph'.transactional[node]? = graph.transactional[node]? := by
  simp only [linkUnit, Halting.index, bind_ok, orFail_ok] at h
  obtain ⟨unit', hUnit', assembly', hAssembly', offset, hOffset, h⟩ := h
  cases hUnit.symm.trans hUnit'
  cases hAssembly.symm.trans hAssembly'
  have hNode : ∀ method ∈ List.range (assembly.rows .methodDef), offset + method < offsets.getLastD 0 :=
    fun method hMethod => hPlaced.less hAssembly hOffset (List.mem_range.1 hMethod)
  have hStep : ∀ {s s' : ProgramGraph} {method : Nat}, method ∈ List.range (assembly.rows .methodDef) →
      Sized (offsets.getLastD 0) s → linkMethod units offsets unitIndex unit assembly offset s method = .ok s' →
      MethodLinked units offsets unitIndex unit assembly method offset s' ∧ Grows (offsets.getLastD 0) s s' ∧
        ∀ node, node ≠ offset + method → s'.transactional[node]? = s.transactional[node]? :=
    fun hMethod hSized hLink => linkMethod_ok hOffset hSized (hNode _ hMethod) hLink
  refine ⟨?_, ?_, ?_⟩
  · intro method hMethod
    have hMem := List.mem_range.2 hMethod
    refine ⟨offset, foldlM_marks (I := Sized (offsets.getLastD 0)) ?_ ?_ ?_ hSized hMem h⟩
    · exact fun s other s' hOther hLink hSized => hSized.grows (hStep hOther hSized hLink).2.1
    · exact fun s s' hSized hLink => (hStep hMem hSized hLink).1
    · intro s other s' hOther hDifferent hSized hLink hLinked
      obtain ⟨-, hGrows, hFlags⟩ := hStep hOther hSized hLink
      exact hLinked.keep hGrows (hFlags _ (by omega))
  · refine (foldlM_invariant (I := fun s => Sized (offsets.getLastD 0) s ∧ Grows (offsets.getLastD 0) graph s) ?_ ⟨hSized, .rfl⟩ h).2
    intro s method s' hMethod hLink hState
    have hGrows := (hStep hMethod hState.1 hLink).2.1
    exact ⟨hState.1.grows hGrows, hState.2.trans hGrows⟩
  · intro node hOutside
    refine (foldlM_invariant (I := fun s => Sized (offsets.getLastD 0) s ∧
      s.transactional[node]? = graph.transactional[node]?) ?_ ⟨hSized, rfl⟩ h).2
    intro s method s' hMethod hLink hState
    obtain ⟨-, hGrows, hFlags⟩ := hStep hMethod hState.1 hLink
    exact ⟨hState.1.grows hGrows, (hFlags node (hOutside offset hOffset method (List.mem_range.1 hMethod))).trans hState.2⟩

/-- What the scan over all units left: every method of every unit is linked. -/
structure Collected (units : List ExecutionUnit) (assemblies : List Assembly) (offsets : List Nat) (graph : ProgramGraph) :
    Prop where
  placed : Placed assemblies offsets
  sized : Sized (offsets.getLastD 0) graph
  linked : ∀ (i : Nat) (unit : ExecutionUnit) (assembly : Assembly) (method : Nat), units[i]? = some unit →
    assemblies[i]? = some assembly → method < assembly.rows .methodDef →
    ∃ offset, MethodLinked units offsets i unit assembly method offset graph

theorem collectCalls_ok (h : collectCalls units assemblies = .ok (offsets, graph)) (hLength : assemblies.length = units.length) :
    Collected units assemblies offsets graph := by
  simp only [collectCalls, bind_ok, pure_ok] at h
  obtain ⟨offsets', hOffsets, graph', hGraph, hResult⟩ := h
  cases hResult
  have hPlaced := methodOffsets_ok hOffsets
  have hStart : Sized (offsets.getLastD 0)
      ⟨[], List.replicate (offsets.getLastD 0) false, List.replicate (offsets.getLastD 0) false⟩ :=
    ⟨List.length_replicate .., List.length_replicate .., fun edge hEdge => nomatch hEdge⟩
  have hStep : ∀ {s s' : ProgramGraph} {i : Nat}, i ∈ List.range units.length → Sized (offsets.getLastD 0) s →
      linkUnit units offsets assemblies s i = .ok s' → ∃ unit' assembly', assemblies[i]? = some assembly' ∧
        (∀ method < assembly'.rows .methodDef, ∃ offset, MethodLinked units offsets i unit' assembly' method offset s') ∧
        Grows (offsets.getLastD 0) s s' ∧ ∀ node, (∀ offset, offsets[i]? = some offset →
          ∀ method < assembly'.rows .methodDef, node ≠ offset + method) → s'.transactional[node]? = s.transactional[node]? := by
    intro s s' i hInside hSized hLink
    have hInside := List.mem_range.1 hInside
    have hHere := List.getElem?_eq_getElem (l := assemblies) (hLength.symm ▸ hInside)
    exact ⟨units[i], _, hHere, linkUnit_ok hPlaced hSized (List.getElem?_eq_getElem hInside) hHere hLink⟩
  have hSized : ∀ s i s', i ∈ List.range units.length → linkUnit units offsets assemblies s i = .ok s' →
      Sized (offsets.getLastD 0) s → Sized (offsets.getLastD 0) s' := by
    intro s i s' hInside hLink hSized
    obtain ⟨_, _, -, -, hGrows, -⟩ := hStep hInside hSized hLink
    exact hSized.grows hGrows
  refine ⟨hPlaced, foldlM_invariant hSized hStart hGraph, ?_⟩
  intro i unit assembly method hUnit hAssembly hMethod
  have hMem : i ∈ List.range units.length := List.mem_range.2 (List.getElem?_eq_some_iff.1 hUnit).1
  refine foldlM_marks (P := fun graph => ∃ offset, MethodLinked units offsets i unit assembly method offset graph) hSized ?_ ?_
    hStart hMem hGraph
  · intro s s' hSized hLink
    exact (linkUnit_ok hPlaced hSized hUnit hAssembly hLink).1 method hMethod
  · rintro s j s' hInside hOther hSized hLink ⟨offset, hLinked⟩
    obtain ⟨_, assembly', hAssembly', -, hGrows, hFlags⟩ := hStep hInside hSized hLink
    refine ⟨offset, hLinked.keep hGrows (hFlags _ ?_)⟩
    intro offset' hOffset' method' hMethod' hSame
    exact hOther (hPlaced.injective hAssembly' hAssembly hOffset' hLinked.place hMethod' hMethod hSame.symm).1

end Calls

end MicroCard.Mc04
