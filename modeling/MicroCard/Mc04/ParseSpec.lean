import MicroCard.Mc04.CilSpec
import MicroCard.Mc04.Parse

/-! Parsing an image ends, whatever its bytes are: the rows are read one after the other,
the bodies are framed before they are searched, and calls between the methods are followed
at most once. -/
namespace MicroCard.Mc04

open Bytes Halting Checks

section Rows

variable (assembly : Assembly)

@[simp] theorem stringColumn_ends (row : Row) (required : Bool) : Ends (stringColumn assembly row required) := by
  simp [stringColumn]

@[simp] theorem blobColumn_ends (row : Row) (required : Bool) : Ends (blobColumn assembly row required) := by
  simp [blobColumn]

@[simp] theorem validateTypeFlags_ends (name : String) (flags : Nat) : Ends (validateTypeFlags name flags) := by
  simp [validateTypeFlags]

@[simp] theorem validateBaseType_ends (name : String) (extends' : Nat) : Ends (validateBaseType assembly name extends') := by
  simp [validateBaseType]

@[simp] theorem typeRefRow_ends (row : Row) : Ends (typeRefRow assembly row) := by
  simp [typeRefRow]

@[simp] theorem typeDefRow_ends (row : Row) : Ends (typeDefRow assembly row) := by
  simp [typeDefRow]

@[simp] theorem fieldRow_ends (row : Row) : Ends (fieldRow assembly row) := by
  simp [fieldRow, validateFieldFlags]

@[simp] theorem memberRefRow_ends (row : Row) : Ends (memberRefRow assembly row) := by
  simp [memberRefRow]

@[simp] theorem attributeOrder_ends (parent attributeType : Nat) (value : List Byte) (previous : Option (Nat × Nat × Nat)) :
    Ends (attributeOrder assembly parent attributeType value previous) := by
  cases previous <;> simp [attributeOrder]

@[simp] theorem customAttributeRow_ends (row : Row) (state : RowState) : Ends (customAttributeRow assembly row state) := by
  simp [customAttributeRow]

@[simp] theorem assemblyRow_ends (row : Row) : Ends (assemblyRow assembly row) := by
  simp [assemblyRow]

@[simp] theorem assemblyRefRow_ends (row : Row) : Ends (assemblyRefRow assembly row) := by
  simp [assemblyRefRow]

@[simp] theorem headerLocals_ends (localSignature : Nat) : Ends (headerLocals assembly localSignature) := by
  simp [headerLocals]

variable {assembly}

/-- A body whose header is inside of the code is checked to the end. -/
theorem validateBody_ends {code : List Byte} {offset : Nat} (hCode : assembly.part .code = .ok code)
    (hHeader : offset + 12 ≤ code.length) (shape : MethodShape) (types : MethodTypes) :
    Ends (validateBody assembly offset shape types) := by
  obtain ⟨header, hRange⟩ : ∃ header, range? code offset (offset + 12) = some header :=
    ⟨_, if_pos ⟨Nat.le_add_right _ _, hHeader⟩⟩
  have hLength : header.length = 12 := by
    rw [range?_length hRange]
    omega
  unfold validateBody
  rw [hCode]
  change Ends (CrashTriple.orFail (range? code offset (offset + 12)) .panic >>= _)
  rw [hRange]
  apply Settles.bind (index_ends (hLength ▸ by decide))
  intro flags _ _
  apply Settles.bind (index_ends (hLength ▸ by decide))
  intro reserved _ _
  apply Settles.bind (u16At_ends header 2)
  intro maxStack _ _
  apply Settles.bind (u16At_ends header 10)
  intro last _ _
  apply Settles.refuseIf.bind
  intro _ _ _
  apply Settles.bind (u32At_ends header 4)
  intro length _ _
  apply Settles.bind (u16At_ends header 8)
  intro localSignature _ _
  apply Settles.bind (headerLocals_ends assembly localSignature)
  intro locals _ _
  apply Settles.refuseIf.bind
  intro _ _ hBody
  obtain ⟨body, hBodyRange⟩ : ∃ body, range? code (offset + 12) (offset + 12 + length) = some body :=
    ⟨_, if_pos ⟨Nat.le_add_right _ _, Nat.le_of_not_lt fun hLess => hBody (.inr hLess)⟩⟩
  have hBodyLength := range?_length hBodyRange
  have hSome : body ≠ [] := by
    intro hNil
    rw [hNil, List.length_nil] at hBodyLength
    exact hBody (.inl (by omega))
  rw [hBodyRange]
  apply (CilShape.validate_settles hSome).bind
  intro _ _ hFramed
  apply Settles.bind (CilTypes.validate_ends hFramed hSome)
  intro _ _ _
  trivial

@[simp] theorem methodDefRow_ends (index : Nat) (row : Row) (state : RowState) :
    Ends (methodDefRow assembly index row state) := by
  simp only [methodDefRow, validateMethodFlags, ends_bind, ends_refuseIf, Row.u32_ends, Row.u16_ends, Row.index_ends,
    stringColumn_ends, Assembly.blob_ends, validateSignature_ends, methodShape_ends, referencedMethodTypes_ends,
    Assembly.part_ends]
  intro _ _ _ _ _ _ _ _ _ _ _ _ _ _ _ _ shape _ types _ code hCode _ hBounds
  have hBounds := failIf_ok.1 hBounds
  rw [ends_bind (validateBody_ends hCode (by omega) shape types)]
  intro _ _
  trivial

@[simp] theorem rowColumns_ends (table : Table) (index : Nat) (row : Row) (state : RowState) :
    Ends (rowColumns assembly table index row state) := by
  cases table <;> simp [rowColumns, moduleRow]

@[simp] theorem validateRow_ends (table : Table) (state : RowState) (index : Nat) :
    Ends (validateRow assembly table state index) := by
  simp [validateRow]

@[simp] theorem validateTable_ends (state : RowState) (table : Table) : Ends (validateTable assembly state table) :=
  Settles.foldlM (fun state index _ _ => validateRow_ends table state index) trivial

end Rows

section CallGraph

namespace CallGraph

/-- The methods that are being visited. -/
def open' (graph : CallGraph) : List Bool := graph.states.map fun state => decide (state = 1)

/-- How many of them there are. -/
def depth (graph : CallGraph) : Nat := graph.open'.count true

theorem depth_le (graph : CallGraph) : graph.depth ≤ graph.open'.length := List.count_le_length

theorem open'_set (graph : CallGraph) (index value : Nat) (depths : List Nat) :
    open' ⟨graph.states.set index value, depths⟩ = graph.open'.set index (decide (value = 1)) := by
  simp [open', List.map_set]

/-- A method that is not being visited. -/
theorem open'_get {graph : CallGraph} {index state : Nat} (h : graph.states[index]? = some state) :
    graph.open'[index]? = some (decide (state = 1)) := by
  simp [open', h]

end CallGraph

open CallGraph

variable {assembly : Assembly} {graph : CallGraph}

@[simp] theorem callsMethod_ends {code : List Byte} {offset : Nat} (h : offset < code.length) :
    Ends (callsMethod code offset) := by
  simp [callsMethod, index_ends h]

/-- Opening a method makes one more of them open. -/
theorem count_set_true {flags : List Bool} {index : Nat} (h : flags[index]? = some false) :
    (flags.set index true).count true = flags.count true + 1 := by
  induction flags generalizing index with
  | nil => cases h
  | cons flag flags ih =>
      cases index with
      | zero =>
          simp only [List.getElem?_cons_zero, Option.some.injEq] at h
          simp [h]
      | succ index =>
          rw [List.getElem?_cons_succ] at h
          rw [List.set_cons_succ, List.count_cons, List.count_cons, ih h]
          omega

theorem set_set_self {flags : List Bool} {index : Nat} (h : flags[index]? = some false) :
    (flags.set index true).set index false = flags := by
  obtain ⟨hIndex, hFlag⟩ := List.getElem?_eq_some_iff.1 h
  rw [List.set_set, ← hFlag]
  exact List.set_getElem_self hIndex

/-- A visit leaves open what was open before it, and there are never more methods open
than there are methods. -/
theorem visitMethod_settles {fuel index : Nat} (hFuel : graph.open'.length < graph.depth + fuel) :
    Settles (visitMethod assembly fuel index graph) fun visited => visited.2.open' = graph.open' := by
  induction fuel generalizing index graph with
  | zero => exact absurd (depth_le graph) (by omega)
  | succ fuel ih =>
      unfold visitMethod
      apply Settles.orRefuse.bind
      intro state _ hState
      split
      · trivial
      · rename_i hClosed
        split
        · apply Settles.orRefuse.bind
          intro _ _ _
          exact rfl
        · have hHere : graph.open'[index]? = some false := by rw [open'_get hState, decide_eq_false hClosed]
          have hOpened : open' ⟨graph.states.set index 1, graph.depths⟩ = graph.open'.set index true := open'_set graph index 1 _
          apply Settles.bind (Assembly.method_ends assembly index)
          intro method _ _
          apply Settles.bind (P := fun visited => visited.2.open' = graph.open'.set index true)
          · apply Settles.loop (I := fun state => state.2.2.open' = graph.open'.set index true)
              (fun state => method.code.length - state.1) _ hOpened (Nat.lt_succ_of_le (Nat.sub_le _ _))
            rintro ⟨cursor, maxDepth, current⟩ hCurrent
            unfold callsStep
            split
            · rename_i hCursor
              apply Settles.bind (instructionEnd_ends cursor)
              intro stop hStop _
              have hForward := (instructionEnd_forward hStop).1
              have hLess : method.code.length - stop < method.code.length - cursor := by
                change cursor < method.code.length at hCursor
                omega
              apply Settles.bind (callsMethod_ends hCursor)
              intro calls _ _
              split
              · apply Settles.bind (P := fun next : Nat × CallGraph => next.2.open' = graph.open'.set index true)
                · apply Settles.bind (u16At_ends method.code (cursor + 2))
                  intro row _ _
                  apply Settles.refuseIf.bind
                  intro _ _ _
                  apply Settles.bind (P := fun next : Nat × CallGraph => next.2.open' = current.open')
                  · apply ih
                    unfold depth
                    rw [hCurrent, List.length_set, count_set_true hHere]
                    unfold depth at hFuel
                    omega
                  · intro next _ hNext
                    apply Settles.refuseIf.bind
                    intro _ _ _
                    apply Settles.refuseIf.bind
                    intro _ _ _
                    exact hNext.trans hCurrent
                · intro next _ hNext
                  exact ⟨hNext, hLess⟩
              · exact ⟨hCurrent, hLess⟩
            · exact hCurrent
          · intro visited _ hVisited
            show open' ⟨visited.2.states.set index 2, _⟩ = graph.open'
            rw [open'_set, hVisited]
            exact set_set_self hHere

theorem validateLocalCallGraph_ends : Ends (validateLocalCallGraph assembly) := by
  apply Settles.bind (P := fun graph : CallGraph => graph.open' = List.replicate (assembly.rows .methodDef) false)
  · apply Settles.foldlM
    · intro graph index _ hGraph
      apply Settles.bind (visitMethod_settles (by rw [hGraph, List.length_replicate]; omega))
      intro visited _ hVisited
      exact hVisited.trans hGraph
    · simp [open']
  · intro _ _ _
    trivial

theorem validateMetadata_ends : Ends (validateMetadata assembly) := by
  apply Settles.bind (Settles.foldlM (I := fun _ => True) (fun state table _ _ => validateTable_ends state table) trivial)
  intro state _ _
  apply Settles.bind (Assembly.part_ends assembly .code)
  intro code _ _
  apply Settles.refuseIf.bind
  intro _ _ _
  exact validateLocalCallGraph_ends

end CallGraph

namespace Assembly

theorem readSection_ends {bytes : List Byte} (h : 56 ≤ bytes.length) (state : (SectionKind → Section) × Nat) (kind : SectionKind) :
    Ends (readSection bytes state kind) := by
  have hAt : 16 + (kind.id - 1) * 10 + 1 < bytes.length := by cases kind <;> simp only [SectionKind.id] <;> omega
  simp [readSection, index_ends hAt, index_ends (Nat.lt_of_succ_lt hAt)]

@[simp] theorem readCount_ends (tables : List Byte) (valid : Nat) (state : Rows × Nat) (table : Table) :
    Ends (readCount tables valid state table) := by
  simp [readCount]

@[simp] theorem placeTable_ends (tables : List Byte) (stringWidth blobWidth : Nat) (rows : Rows) (state : (Table → Nat) × Nat)
    (table : Table) : Ends (placeTable tables stringWidth blobWidth rows state table) := by
  simp [placeTable]

@[simp] theorem parseHeader_ends (bytes : List Byte) : Ends (parseHeader bytes) := by
  apply Settles.refuseIf.bind
  intro _ _ hHeader
  have hLength : 56 ≤ bytes.length := by omega
  have hSections : Ends (SectionKind.all.foldlM (readSection bytes) (fun _ => ⟨0, 0⟩, 56)) :=
    Settles.foldlM (fun state kind _ _ => readSection_ends hLength state kind) trivial
  have hByte : ∀ i < 56, Ends (Halting.index bytes i : Checked Byte) := fun i hi => index_ends (hi.trans_le hLength)
  change Ends _
  simp [hSections, hByte]

@[simp] theorem parseTables_ends (bytes : List Byte) (sections : SectionKind → Section) (tables : List Byte)
    (stringWidth blobWidth : Nat) : Ends (parseTables bytes sections tables stringWidth blobWidth) := by
  apply Settles.refuseIf.bind
  intro _ _ hHeader
  have hByte : ∀ i < 12, Ends (Halting.index tables i : Checked Byte) :=
    fun i hi => index_ends (hi.trans_le (Nat.le_of_not_lt hHeader))
  have hCounts : ∀ valid, Ends (Table.all.foldlM (readCount tables valid) (fun _ => 0, 12)) :=
    fun valid => Settles.foldlM (fun state table _ _ => readCount_ends tables valid state table) trivial
  have hPlaces : ∀ rows cursor, Ends (Table.all.foldlM (placeTable tables stringWidth blobWidth rows) (fun _ => 0, cursor)) :=
    fun rows cursor => Settles.foldlM (fun state table _ _ => placeTable_ends tables stringWidth blobWidth rows state table) trivial
  change Ends _
  simp [hByte, hCounts, hPlaces]

/-- Parsing ends, with an assembly or with a refusal. -/
theorem parse_ends (bytes : List Byte) : Ends (parse bytes) := by
  simp [parse, (validateStrings_settles _).toEnds, (validateBlobs_settles _).toEnds, validateMetadata_ends]

end Assembly

end MicroCard.Mc04
