import MicroCard.Library.Acyclic
import MicroCard.Mc04.Linking
import MicroCard.Mc04.ParseSpec
import Mathlib.Order.Interval.Finset.Nat

/-! Comparing types by name ends for the images whose type references do not lead back to
themselves, and for no others. The parser only checks that a scope is a row of its table. -/
namespace MicroCard.Mc04

open Bytes Cbor Halting Checks Chains Relation
open Card (Descriptor)

section Rows

variable {assembly : Assembly}

theorem Assembly.row_ok {table : Table} {row : Nat} {bytes : List Byte} (h : assembly.row table row = .ok bytes) :
    0 < row ∧ row ≤ assembly.rows table := by
  simp only [Assembly.row, bind_ok] at h
  obtain ⟨_, hRow, -⟩ := h
  have hRow := failIf_ok.1 hRow
  omega

/-- A type reference is a row of its table, and its scope has a tag of two bits. -/
theorem Assembly.typeRef_ok {index : Nat} {type : TypeRefView} (h : assembly.typeRef index = .ok type) :
    (0 < index ∧ index ≤ assembly.rows .typeRef) ∧ type.scope.row < 2 ^ 14 := by
  simp only [Assembly.typeRef, bind_ok, pure_ok, Prod.exists] at h
  obtain ⟨bytes, hRow, coded, row, hCoded, scope, hScope, _, _, -, _, _, -, _, -, _, -, _, -, rfl⟩ := h
  constructor
  · exact Assembly.row_ok hRow
  · have hWord := ((Row.new bytes).word_settles 2).of_ok hCoded
    simp only [decodeCoded, bind_ok, pure_ok] at hScope
    obtain ⟨_, -, table, -, _, -, rfl⟩ := hScope
    show coded / 2 ^ 2 < 2 ^ 14
    omega

/-- How many rows were read for a table is within its bound. -/
theorem readCount_ok {tables : List Byte} {valid : Nat} {state next : Rows × Nat} {table : Table}
    (h : Assembly.readCount tables valid state table = .ok next) (hState : ∀ t, state.1 t ≤ t.maxRows) :
    ∀ t, next.1 t ≤ t.maxRows := by
  unfold Assembly.readCount at h
  split at h
  · simp only [bind_ok, pure_ok] at h
    obtain ⟨count, -, _, hCount, rfl⟩ := h
    have hCount := failIf_ok.1 hCount
    intro t
    by_cases hTable : t = table
    · simp only [hTable, Function.update_self]
      omega
    · simp only [Function.update_of_ne hTable]
      exact hState t
  · cases h
    exact hState

/-- Accepted images have no more rows than each table may have. -/
theorem Assembly.parse_rows {bytes : List Byte} (h : Assembly.parse bytes = .ok assembly) (table : Table) :
    assembly.rows table ≤ table.maxRows := by
  simp only [Assembly.parse, bind_ok, pure_ok] at h
  obtain ⟨sections, -, strings, -, blobs, -, code, -, _, -, _, -, _, -, tables, -, parsed, hTables, _, -, rfl⟩ := h
  simp only [Assembly.parseTables, bind_ok, pure_ok, Prod.exists] at hTables
  obtain ⟨_, -, _, -, _, -, heaps, -, _, -, _, -, valid, -, _, -, rows, cursor, hRows, _, -, offsets, stop, -, _, -, rfl⟩ := hTables
  have hAll := foldlM_invariant (I := fun state : Rows × Nat => ∀ t, state.1 t ≤ t.maxRows)
    (fun _ _ _ _ hStep hState => readCount_ok hStep hState) (fun t => Nat.zero_le _) hRows
  exact hAll table

end Rows

section Scopes

/-- A type reference whose scope is another one. -/
def ScopeStep (assembly : Assembly) (index next : Nat) : Prop :=
  ∃ type, assembly.typeRef index = .ok type ∧ type.scope = ⟨.typeRef, next⟩

/-- No type reference is nested in itself. -/
def ScopesAcyclic (assembly : Assembly) : Prop := Acyclic (ScopeStep assembly)

variable {assembly : Assembly}

theorem ScopeStep.next_less {index next : Nat} (h : ScopeStep assembly index next) : next < 2 ^ 14 := by
  obtain ⟨type, hType, hScope⟩ := h
  have hRow := (Assembly.typeRef_ok hType).2
  rw [hScope] at hRow
  exact hRow

theorem token_row {index : Nat} (h : index < 2 ^ 14) : StackType.token .typeRef index % 2 ^ 16 = index := by
  simp only [StackType.token, Table.id]
  omega

theorem token_table {index : Nat} (h : index < 2 ^ 14) : StackType.token .typeRef index / 2 ^ 16 % 2 ^ 8 = Table.typeRef.id := by
  simp only [StackType.token, Table.id]
  omega

/-- Naming a type ends when there is fuel for each row that the scopes have not been
through. -/
theorem namedType_path_ends (hAcyclic : ScopesAcyclic assembly) {fuel token : Nat} {path : List Nat}
    (hChain : (token % 2 ^ 16 :: path).IsChain fun next index => ScopeStep assembly index next)
    (hRows : ∀ index ∈ path, index ∈ Finset.Icc 1 (assembly.rows .typeRef))
    (hFuel : assembly.rows .typeRef < fuel + path.length) : Ends (namedType assembly fuel token) := by
  induction fuel generalizing token path with
  | zero =>
      have hReverse : Acyclic fun next index => ScopeStep assembly index next :=
        fun a hCycle => hAcyclic a (transGen_swap.1 hCycle)
      have hLength := hReverse.length_le hChain.tail hRows
      rw [List.tail_cons, Nat.card_Icc] at hLength
      omega
  | succ fuel ih =>
      unfold namedType
      split
      · simp
      · simp only [ends_bind, Assembly.typeRef_ends]
        intro type hType
        split
        · simp
        · simp
        · rename_i hScope
          have hStep : ScopeStep assembly (token % 2 ^ 16) type.scope.row := ⟨type, hType, by rw [← hScope]⟩
          have hHere : token % 2 ^ 16 ∈ Finset.Icc 1 (assembly.rows .typeRef) :=
            Finset.mem_Icc.2 (Assembly.typeRef_ok hType).1
          have hNext : Ends (namedType assembly fuel (StackType.token .typeRef type.scope.row)) := by
            apply ih
            · rw [token_row hStep.next_less]
              exact List.isChain_cons_cons.2 ⟨hStep, hChain⟩
            · exact List.forall_mem_cons.2 ⟨hHere, hRows⟩
            · rw [List.length_cons]
              omega
          simp [hNext]
        · simp
      · simp

/-- Without nested scopes that come back, naming a type takes no more steps than there are
references. -/
theorem namedType_ends (hAcyclic : ScopesAcyclic assembly) {fuel : Nat} (hFuel : assembly.rows .typeRef < fuel) (token : Nat) :
    Ends (namedType assembly fuel token) :=
  namedType_path_ends hAcyclic (List.isChain_singleton _) (fun _ hIndex => absurd hIndex List.not_mem_nil) hFuel

/-- On a cycle of scopes, naming a type never ends. -/
theorem namedType_endless {index : Nat} (hCycle : TransGen (ScopeStep assembly) index index) (fuel : Nat) :
    namedType assembly fuel (StackType.token .typeRef index) = .error .endless := by
  induction fuel generalizing index with
  | zero => rfl
  | succ fuel ih =>
      obtain ⟨last, -, hBack⟩ := TransGen.tail'_iff.1 hCycle
      obtain ⟨next, hStep, hNext⟩ := cycle_next hCycle
      obtain ⟨type, hType, hScope⟩ := hStep
      unfold namedType
      rw [token_table hBack.next_less, token_row hBack.next_less, Table.ofId_id, hType]
      simp only [bind, Except.bind, hScope, ih hNext]

end Scopes

section Comparing

variable {fuel : Nat} {left right : Assembly}

theorem sameNamedType_ends (hLeft : ∀ token, Ends (namedType left fuel token)) (hRight : ∀ token, Ends (namedType right fuel token))
    (leftToken rightToken : Nat) : Ends (sameNamedType fuel left right leftToken rightToken) := by
  simp [sameNamedType, hLeft, hRight]

theorem sameStackType_ends (hLeft : ∀ token, Ends (namedType left fuel token)) (hRight : ∀ token, Ends (namedType right fuel token))
    (leftType rightType : StackType) : Ends (sameStackType fuel left right leftType rightType) := by
  unfold sameStackType
  split <;> simp [sameNamedType_ends hLeft hRight]

theorem sameOptional_ends (hLeft : ∀ token, Ends (namedType left fuel token)) (hRight : ∀ token, Ends (namedType right fuel token))
    (leftType rightType : Option StackType) : Ends (sameOptional fuel left right leftType rightType) := by
  unfold sameOptional
  split <;> simp [sameStackType_ends hLeft hRight]

theorem sameTypes_ends (hLeft : ∀ token, Ends (namedType left fuel token)) (hRight : ∀ token, Ends (namedType right fuel token))
    (leftTypes rightTypes : List StackType) : Ends (sameTypes fuel left right leftTypes rightTypes) := by
  induction leftTypes generalizing rightTypes with
  | nil => simp [sameTypes]
  | cons leftType leftTypes ih =>
      cases rightTypes with
      | nil => simp [sameTypes]
      | cons rightType rightTypes => simp [sameTypes, sameStackType_ends hLeft hRight, ih]

theorem sameMethodTypes_ends (hLeft : ∀ token, Ends (namedType left fuel token))
    (hRight : ∀ token, Ends (namedType right fuel token)) (leftTypes rightTypes : MethodTypes) :
    Ends (sameMethodTypes fuel left right leftTypes rightTypes) := by
  simp [sameMethodTypes, sameOptional_ends hLeft hRight, sameTypes_ends hLeft hRight]

end Comparing

section Finding

variable (assembly : Assembly)

theorem findVisible_ends {namespace' typeName methodName : String} {accepts : Nat → MethodView → Checked Bool}
    (hAccepts : ∀ index method, Ends (accepts index method)) :
    Ends (assembly.findVisible namespace' typeName methodName accepts) := by
  have hEach : ∀ found index, Ends (do
      let owner ← assembly.methodOwner index
      let owner ← assembly.typeDef owner
      let method ← assembly.method index
      if Assembly.externallyVisible owner method = true ∧ owner.namespace' = namespace' ∧ owner.name = typeName ∧
          method.name = methodName then do
        let accepted ← accepts index method
        if accepted = true then do
          refuseIf (found.isSome = true) .format
          pure (some index)
        else pure found
      else pure found : Checked (Option Nat)) := by
    intro found index
    simp [hAccepts]
  apply Settles.bind (Settles.foldlM (I := fun _ => True) (fun found index _ _ => hEach found index) trivial)
  intro found _ _
  exact ends_orRefuse _ _

variable {assembly}

theorem findMethodFor_ends {fuel : Nat} {caller : Assembly} (hCaller : ∀ token, Ends (namedType caller fuel token))
    (hOwn : ∀ token, Ends (namedType assembly fuel token)) (namespace' typeName methodName : String) (memberIndex : Nat) :
    Ends (assembly.findMethodFor fuel namespace' typeName methodName caller memberIndex) := by
  simp [Assembly.findMethodFor, findVisible_ends, sameMethodTypes_ends hCaller hOwn]

end Finding

section Resolving

variable {fuel : Nat} {images : Descriptor → Except Error (List Byte)} {state : State}

@[simp] theorem checked_ends {α : Type} (x : Except Error α) : Ends (checked x) := by
  cases x <;> trivial

@[simp] theorem recordUse_ends (uses : List (Nat × Nat)) (member value : Nat) : Ends (recordUse uses member value) := by
  unfold recordUse
  split <;> simp

theorem opcodeAt_panic_ends {code : List Byte} {pc : Nat} (h : pc < code.length) (e : Error) :
    Ends (opcodeAt code pc .panic (.refused e)) := by
  unfold opcodeAt
  rw [List.getElem?_eq_getElem h]
  apply Settles.bind (Settles.ret (a := code[pc]) (P := fun _ => True) trivial)
  intro first _ _
  split
  · exact (Settles.orRefuse (o := code[pc + 1]?) (e := e)).bind fun _ _ _ => trivial
  · trivial

theorem memberRefUses_ends (assembly : Assembly) : Ends assembly.memberRefUses := by
  apply Settles.bind (P := fun _ => True)
  · apply Settles.foldlM (I := fun _ => True) _ trivial
    intro uses index _ _
    apply Settles.bind (Assembly.method_ends assembly index)
    intro method _ _
    apply Settles.loop (I := fun _ => True) (fun state => method.code.length - state.1) _ trivial
      (Nat.lt_succ_of_le (Nat.sub_le _ _))
    intro state _
    unfold usesStep
    split
    · rename_i hInside
      apply Settles.bind (opcodeAt_panic_ends hInside .bounds)
      intro decoded _ _
      apply Settles.bind (instructionEnd_ends state.1)
      intro stop hStop _
      have hForward := (instructionEnd_forward hStop).1
      have hLess : method.code.length - stop < method.code.length - state.1 := by omega
      split
      · apply Settles.bind (u16At_ends _ _)
        intro member _ _
        apply Settles.bind (recordUse_ends _ _ _)
        intro uses _ _
        exact ⟨trivial, hLess⟩
      · exact ⟨trivial, hLess⟩
    · trivial
  · intro _ _ _
    trivial

@[simp] theorem resolve_ends (assembly : Assembly) (index : Nat) : Ends (resolve assembly index) := by
  simp [resolve, resolveObject, resolveFramework]

@[simp] theorem view_ends (package : StoredPackage) (raw : List Byte) : Ends (package.view raw) := by
  simp [StoredPackage.view]

@[simp] theorem readProvider_ends (digest : Fixed 32) : Ends (readProvider images state digest) := by
  simp [readProvider]

theorem matchBinding_ends (bindings : List ResolvedDependency) (name : String) (found : Option Nat) (index : Nat) :
    Ends (matchBinding state bindings name found index) := by
  simp [matchBinding]

/-- Resolving ends when naming the types of the consumer and of its providers does. -/
theorem resolveCalls_ends {package : PackageView} {bindings : List ResolvedDependency}
    (hPackage : ∀ assembly, Assembly.parse package.image = .ok assembly → ∀ token, Ends (namedType assembly fuel token))
    (hProviders : ∀ digest provider assembly, readProvider images state digest = .ok provider →
      Assembly.parse provider.image = .ok assembly → ∀ token, Ends (namedType assembly fuel token)) :
    Ends (resolveCalls fuel images state package bindings) := by
  unfold resolveCalls
  split
  · trivial
  · apply Settles.bind (Assembly.parse_ends package.image)
    intro consumer hConsumer _
    apply Settles.bind (memberRefUses_ends consumer)
    intro uses _ _
    apply (Settles.mapM (P := fun _ => True) _).toEnds
    intro use _
    have hMatch : ∀ name, Ends ((List.range bindings.length).foldlM (matchBinding state bindings name) none) :=
      fun name => Settles.foldlM (fun found index _ _ => matchBinding_ends bindings name found index) trivial
    have hManaged : Ends (resolveManaged fuel images state bindings consumer use.1 use.2) := by
      simp only [resolveManaged, ends_bind, ends_refuseIf, ends_orRefuse, Assembly.memberRef_ends, Assembly.typeRef_ends,
        Assembly.assemblyRef_ends, hMatch, readProvider_ends, Assembly.parse_ends]
      intro _ _ view _ _ _ owner _ _ _ reference _ found _ dependency _ binding _ provider hProvider _ _ assembly hAssembly
      simp [findMethodFor_ends (hPackage consumer hConsumer) (hProviders _ provider assembly hProvider hAssembly)]
    apply Settles.bind (resolve_ends consumer use.1)
    intro import' _ _
    cases import' with
    | some import' => trivial
    | none => exact Settles.bind hManaged fun _ _ _ => trivial

end Resolving

section Termination

/-- Given enough fuel, a computation ends. -/
def Terminates {α : Type} (run : Nat → Checked α) : Prop := ∃ bound, ∀ fuel, bound ≤ fuel → Ends (run fuel)

/-- Parsing ends for all bytes; naming and comparing types, finding a method and resolving
the calls of a package end for the images of a collection. -/
structure LinkingTerminates (accepted : List Byte → Prop) : Prop where
  parse : ∀ bytes, Ends (Assembly.parse bytes)
  named : ∀ bytes assembly, accepted bytes → Assembly.parse bytes = .ok assembly → ∀ token,
    Terminates fun fuel => namedType assembly fuel token
  same : ∀ leftBytes left rightBytes right, accepted leftBytes → Assembly.parse leftBytes = .ok left →
    accepted rightBytes → Assembly.parse rightBytes = .ok right → ∀ leftType rightType,
    Terminates fun fuel => sameStackType fuel left right leftType rightType
  find : ∀ callerBytes caller bytes assembly, accepted callerBytes → Assembly.parse callerBytes = .ok caller →
    accepted bytes → Assembly.parse bytes = .ok assembly → ∀ namespace' typeName methodName memberIndex,
    Terminates fun fuel => assembly.findMethodFor fuel namespace' typeName methodName caller memberIndex
  resolve : ∀ images state package bindings, accepted package.image →
    (∀ digest provider, readProvider images state digest = .ok provider → accepted provider.image) →
    Terminates fun fuel => resolveCalls fuel images state package bindings

/-- No more fuel is needed than there can be type references. -/
theorem namedType_terminates {bytes : List Byte} {assembly : Assembly} (hParse : Assembly.parse bytes = .ok assembly)
    (hAcyclic : ScopesAcyclic assembly) {fuel : Nat} (hFuel : Table.maxRows .typeRef + 1 ≤ fuel) (token : Nat) :
    Ends (namedType assembly fuel token) :=
  namedType_ends hAcyclic (lt_of_le_of_lt (Assembly.parse_rows hParse .typeRef) hFuel) token

/-- Parsing always ends, and linking a collection of images ends exactly when no type
reference of an accepted image is nested in itself. -/
theorem linking_terminates_iff (accepted : List Byte → Prop) :
    LinkingTerminates accepted ↔
      ∀ bytes assembly, accepted bytes → Assembly.parse bytes = .ok assembly → ScopesAcyclic assembly := by
  constructor
  · intro hTerminates bytes assembly hAccepted hParse index hCycle
    obtain ⟨bound, hEnds⟩ := hTerminates.named bytes assembly hAccepted hParse (StackType.token .typeRef index)
    have hEnd : Ends (namedType assembly bound (StackType.token .typeRef index)) := hEnds bound le_rfl
    rw [namedType_endless hCycle] at hEnd
    exact hEnd
  · intro hAcyclic
    have hNamed : ∀ bytes assembly, accepted bytes → Assembly.parse bytes = .ok assembly → ∀ fuel,
        Table.maxRows .typeRef + 1 ≤ fuel → ∀ token, Ends (namedType assembly fuel token) :=
      fun bytes assembly hAccepted hParse fuel hFuel => namedType_terminates hParse (hAcyclic bytes assembly hAccepted hParse) hFuel
    constructor
    · exact Assembly.parse_ends
    · intro bytes assembly hAccepted hParse token
      exact ⟨_, fun fuel hFuel => hNamed bytes assembly hAccepted hParse fuel hFuel token⟩
    · intro leftBytes left rightBytes right hLeft hParseLeft hRight hParseRight leftType rightType
      exact ⟨_, fun fuel hFuel => sameStackType_ends (hNamed leftBytes left hLeft hParseLeft fuel hFuel)
        (hNamed rightBytes right hRight hParseRight fuel hFuel) leftType rightType⟩
    · intro callerBytes caller bytes assembly hCaller hParseCaller hBytes hParse namespace' typeName methodName memberIndex
      exact ⟨_, fun fuel hFuel => findMethodFor_ends (hNamed callerBytes caller hCaller hParseCaller fuel hFuel)
        (hNamed bytes assembly hBytes hParse fuel hFuel) namespace' typeName methodName memberIndex⟩
    · intro images state package bindings hPackage hProviders
      apply Exists.intro (Table.maxRows .typeRef + 1)
      intro fuel hFuel
      apply resolveCalls_ends
      · exact fun assembly hParse => hNamed package.image assembly hPackage hParse fuel hFuel
      · intro digest provider assembly hRead hParse
        exact hNamed provider.image assembly (hProviders digest provider hRead) hParse fuel hFuel

/-- An image whose only type reference is nested in itself. A method and a member of the
same name take that type. -/
def nestedScope : List Byte := [
  0x4d, 0x43, 0x30, 0x34, 0x04, 0x00, 0x00, 0x00, 0x04, 0x02, 0x38, 0x00, 0x97, 0x00, 0x00, 0x00, 0x01, 0x00, 0x38, 0x00, 0x00, 0x00, 0x42, 0x00,
  0x00, 0x00, 0x02, 0x00, 0x7a, 0x00, 0x00, 0x00, 0x09, 0x00, 0x00, 0x00, 0x03, 0x00, 0x83, 0x00, 0x00, 0x00, 0x07, 0x00, 0x00, 0x00, 0x04, 0x00,
  0x8a, 0x00, 0x00, 0x00, 0x0d, 0x00, 0x00, 0x00, 0x02, 0x00, 0x00, 0x00, 0x47, 0x04, 0x00, 0x00, 0x01, 0x00, 0x00, 0x00, 0x01, 0x00, 0x01, 0x00,
  0x01, 0x00, 0x01, 0x00, 0x01, 0x00, 0x01, 0x00, 0x01, 0x07, 0x00, 0x03, 0x00, 0x01, 0x01, 0x00, 0x00, 0x03, 0x00, 0x00, 0x00, 0x01, 0x01, 0x00,
  0x00, 0x00, 0x00, 0x00, 0x00, 0x16, 0x00, 0x05, 0x01, 0x09, 0x00, 0x05, 0x01, 0x01, 0x00, 0x00, 0x00, 0x00, 0x00, 0x00, 0x00, 0x00, 0x00, 0x00,
  0x00, 0x01, 0x00, 0x4d, 0x00, 0x54, 0x00, 0x52, 0x75, 0x6e, 0x00, 0x00, 0x05, 0x00, 0x01, 0x01, 0x12, 0x05, 0x00, 0x00, 0x01, 0x00, 0x01, 0x00,
  0x00, 0x00, 0x00, 0x00, 0x00, 0x00, 0x2a]

/-- What the parser makes of the image. -/
theorem nestedScope_parse : ∃ assembly, Assembly.parse nestedScope = .ok assembly ∧ assembly.rows .methodDef = 1 ∧
    assembly.typeRef 1 = .ok ⟨⟨.typeRef, 1⟩, "T", ""⟩ ∧ assembly.methodOwner 0 = .ok 1 ∧
    assembly.typeDef 1 = .ok ⟨"T", "", 0x101⟩ ∧
    assembly.method 0 = .ok ⟨"Run", [0, 1, 1, 0x12, 5], [], [0x2a], 0x16, 0, 0, 1⟩ ∧
    assembly.methodTypes 0 = .ok ⟨none, [.ref (StackType.token .typeRef 1)], none⟩ ∧
    assembly.memberTypes 1 = .ok ⟨none, [.ref (StackType.token .typeRef 1)], none⟩ := by
  have hParse : isOkAnd (Assembly.parse nestedScope) (fun assembly => decide (assembly.rows .methodDef = 1 ∧
      assembly.typeRef 1 = .ok ⟨⟨.typeRef, 1⟩, "T", ""⟩ ∧ assembly.methodOwner 0 = .ok 1 ∧
      assembly.typeDef 1 = .ok ⟨"T", "", 0x101⟩ ∧
      assembly.method 0 = .ok ⟨"Run", [0, 1, 1, 0x12, 5], [], [0x2a], 0x16, 0, 0, 1⟩ ∧
      assembly.methodTypes 0 = .ok ⟨none, [.ref (StackType.token .typeRef 1)], none⟩ ∧
      assembly.memberTypes 1 = .ok ⟨none, [.ref (StackType.token .typeRef 1)], none⟩)) = true := by decide +kernel
  unfold isOkAnd at hParse
  split at hParse
  · rename_i assembly hOk
    exact ⟨assembly, hOk, of_decide_eq_true hParse⟩
  · cases hParse

/-- The image is accepted, and neither naming its type nor looking for its method ever
ends. -/
theorem nestedScope_endless : ¬LinkingTerminates (fun bytes => bytes = nestedScope) ∧
    ∃ assembly, Assembly.parse nestedScope = .ok assembly ∧ ∀ fuel,
      namedType assembly fuel (StackType.token .typeRef 1) = .error .endless ∧
      assembly.findMethodFor fuel "" "T" "Run" assembly 1 = .error .endless := by
  obtain ⟨assembly, hParse, hRows, hType, hOwner, hDef, hMethod, hTypes, hMember⟩ := nestedScope_parse
  have hCycle : TransGen (ScopeStep assembly) 1 1 := TransGen.single ⟨_, hType, rfl⟩
  constructor
  · rw [linking_terminates_iff]
    intro hAcyclic
    exact hAcyclic nestedScope assembly rfl hParse 1 hCycle
  · apply Exists.intro assembly
    refine ⟨hParse, fun fuel => ⟨namedType_endless hCycle fuel, ?_⟩⟩
    have hName := namedType_endless hCycle fuel
    have hToken : StackType.token .typeRef 1 ≠ 0 := by decide
    have hVisible : Assembly.externallyVisible ⟨"T", "", 0x101⟩
        ⟨"Run", [0, 1, 1, 0x12, 5], [], [0x2a], 0x16, 0, 0, 1⟩ = true := by decide
    simp [Assembly.findMethodFor, Assembly.findVisible, hMember, hRows, hOwner, hDef, hMethod, hTypes, hVisible, sameMethodTypes,
      sameOptional, sameTypes, sameStackType, sameNamedType, hName, hToken, bind, Except.bind,
      pure, Except.pure]

end Termination

end MicroCard.Mc04
