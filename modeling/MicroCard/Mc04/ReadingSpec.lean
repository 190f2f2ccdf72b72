import MicroCard.Mc04.Cil

/-! Reading an assembly always ends, with a value or with a refusal: rows, heaps, names,
signatures and instructions. -/
namespace MicroCard.Mc04

open Bytes Halting

section Words

theorem range?_some {bytes part : List Byte} {start stop : Nat} (h : range? bytes start stop = some part) :
    start ≤ stop ∧ stop ≤ bytes.length ∧ part = (bytes.drop start).take (stop - start) := by
  unfold range? at h
  split at h
  · rename_i hBounds
    exact ⟨hBounds.1, hBounds.2, (Option.some.inj h).symm⟩
  · cases h

theorem range?_length {bytes part : List Byte} {start stop : Nat} (h : range? bytes start stop = some part) :
    part.length = stop - start := by
  obtain ⟨hOrder, hStop, rfl⟩ := range?_some h
  simp only [List.length_take, List.length_drop]
  omega

theorem wordAt_settles (width : Nat) (bytes : List Byte) (offset : Nat) :
    Settles (wordAt width bytes offset) fun value => value < 256 ^ width ∧ offset + width ≤ bytes.length := by
  apply Settles.orRefuse.bind
  intro word _ hWord
  have hLength := range?_length hWord
  have hLess := fromLE_lt word
  rw [hLength, Nat.add_sub_cancel_left] at hLess
  exact ⟨hLess, (range?_some hWord).2.1⟩

theorem Row.word_settles (width : Nat) (row : Row) :
    Settles (row.word width) fun read => read.1 < 256 ^ width ∧ read.2 = ⟨row.bytes, row.offset + width⟩ := by
  apply (wordAt_settles width row.bytes row.offset).bind
  intro value _ hValue
  exact ⟨hValue.1, rfl⟩

end Words

section Heaps

theorem validateStrings_settles (bytes : List Byte) : Settles (validateStrings bytes) fun _ => True := by
  apply Settles.refuseIf.bind
  intro _ _ _
  apply Settles.weaken (P := fun _ => ∀ text ∈ (bytes.tail.splitOn 0).dropLast, True)
  · apply Settles.forM
    intro text _
    exact Settles.refuseIf.weaken fun _ _ _ => trivial
  · exact fun _ _ _ => trivial

theorem blobPrefix_settles {bytes : List Byte} {cursor : Nat} (h : cursor < bytes.length) :
    Settles (blobPrefix bytes cursor) fun read => 0 < read.1 := by
  apply (Settles.index h).bind
  intro first _ _
  split
  · exact Nat.one_pos
  · split
    · apply Settles.orRefuse.bind
      intro second _ _
      exact Nat.two_pos
    · trivial

theorem validateBlobs_settles (bytes : List Byte) : Settles (validateBlobs bytes) fun _ => True := by
  apply Settles.refuseIf.bind
  intro _ _ _
  apply Settles.loop (I := fun _ => True) (fun cursor => bytes.length - cursor) _ trivial (by omega)
  intro cursor _
  unfold validateBlob
  split
  · trivial
  · rename_i hCursor
    apply (blobPrefix_settles (Nat.lt_of_not_le hCursor)).bind
    intro read _ hRead
    apply Settles.refuseIf.bind
    intro _ _ _
    apply Settles.refuseIf.bind
    intro _ _ _
    refine ⟨trivial, ?_⟩
    show bytes.length - (cursor + (read.1 + read.2)) < bytes.length - cursor
    omega

theorem blobAt_settles (bytes : List Byte) (offset : Nat) : Settles (blobAt bytes offset) fun _ => True := by
  unfold blobAt
  split
  · trivial
  · apply Settles.loop (I := fun _ => True) (fun cursor => bytes.length - cursor) _ trivial (by omega)
    intro cursor _
    unfold blobAtStep
    split
    · trivial
    · rename_i hCursor
      apply (blobPrefix_settles (Nat.lt_of_not_le hCursor)).bind
      intro read _ hRead
      apply Settles.refuseIf.bind
      intro _ _ _
      split
      · trivial
      · apply Settles.refuseIf.bind
        intro _ _ _
        refine ⟨trivial, ?_⟩
        show bytes.length - (cursor + read.1 + read.2) < bytes.length - cursor
        omega

end Heaps

section Ending

@[simp] theorem wordAt_ends (width : Nat) (bytes : List Byte) (offset : Nat) : Ends (wordAt width bytes offset) :=
  (wordAt_settles width bytes offset).toEnds

@[simp] theorem u16At_ends (bytes : List Byte) (offset : Nat) : Ends (u16At bytes offset) := wordAt_ends 2 bytes offset

@[simp] theorem u32At_ends (bytes : List Byte) (offset : Nat) : Ends (u32At bytes offset) := wordAt_ends 4 bytes offset

@[simp] theorem u64At_ends (bytes : List Byte) (offset : Nat) : Ends (u64At bytes offset) := wordAt_ends 8 bytes offset

namespace Row

@[simp] theorem word_ends (width : Nat) (row : Row) : Ends (row.word width) := (row.word_settles width).toEnds

@[simp] theorem u16_ends (row : Row) : Ends row.u16 := row.word_ends 2

@[simp] theorem u32_ends (row : Row) : Ends row.u32 := row.word_ends 4

@[simp] theorem index_ends (width : Nat) (row : Row) : Ends (row.index width) := row.word_ends width

@[simp] theorem finish_ends (row : Row) : Ends row.finish := ends_refuseIf _ _

@[simp] theorem version_ends (row : Row) : Ends row.version := by
  simp [version]

end Row

@[simp] theorem tableList_ends (row : Row) (count : Nat) : Ends (tableList row count) := by
  simp [tableList]

@[simp] theorem coded_ends (value tagBits : Nat) (tables : List (Option Table)) (rows : Rows) (nil : Bool) :
    Ends (coded value tagBits tables rows nil) := by
  simp [coded]

@[simp] theorem decodeCoded_ends (value tagBits : Nat) (tables : List (Option Table)) :
    Ends (decodeCoded value tagBits tables) := by
  simp [decodeCoded]

@[simp] theorem slice_ends (bytes : List Byte) (part : Section) : Ends (slice bytes part) := ends_orRefuse _ _

@[simp] theorem stringAt_ends (bytes : List Byte) (offset : Nat) : Ends (stringAt bytes offset) := by
  simp [stringAt]

@[simp] theorem blobAt_ends (bytes : List Byte) (offset : Nat) : Ends (blobAt bytes offset) := blobAt_settles bytes offset

end Ending

namespace Assembly

variable (assembly : Assembly)

@[simp] theorem part_ends (kind : SectionKind) : Ends (assembly.part kind) := slice_ends _ _

@[simp] theorem table_ends (table : Table) : Ends (assembly.table table) := by
  simp [Assembly.table]

@[simp] theorem row_ends (table : Table) (row : Nat) : Ends (assembly.row table row) := by
  simp [Assembly.row]

@[simp] theorem string_ends (offset : Nat) : Ends (assembly.string offset) := by
  simp [Assembly.string]

@[simp] theorem blob_ends (offset : Nat) : Ends (assembly.blob offset) := by
  simp [Assembly.blob]

@[simp] theorem methodBody_ends (offset : Nat) : Ends (assembly.methodBody offset) := by
  apply (part_ends assembly .code).bind
  intro code _ _
  apply Settles.orRefuse.bind
  intro header _ hHeader
  have hLength : header.length = 12 := by
    rw [range?_length hHeader]
    omega
  have hFlags : Ends (Halting.index header 0 : Checked Byte) := (Settles.index (by omega)).toEnds
  change Ends _
  simp [hFlags]

@[simp] theorem typeDef_ends (index : Nat) : Ends (assembly.typeDef index) := by
  simp [typeDef]

@[simp] theorem memberRef_ends (index : Nat) : Ends (assembly.memberRef index) := by
  simp [memberRef]

@[simp] theorem typeRef_ends (index : Nat) : Ends (assembly.typeRef index) := by
  simp [typeRef]

@[simp] theorem assemblyRef_ends (index : Nat) : Ends (assembly.assemblyRef index) := by
  simp [assemblyRef]

@[simp] theorem identity_ends : Ends assembly.identity := by
  simp [identity]

@[simp] theorem method_ends (index : Nat) : Ends (assembly.method index) := by
  simp [method]

end Assembly

section Lists

variable (assembly : Assembly)

@[simp] theorem typeLists_ends (index : Nat) : Ends (typeLists assembly index) := by
  simp [typeLists]

@[simp] theorem listStart_ends (table : Table) (index : Nat) : Ends (listStart assembly table index) := by
  simp [listStart]

@[simp] theorem listEnd_ends (table : Table) (index : Nat) : Ends (listEnd assembly table index) := by
  simp [listEnd]

/-- Owners are looked for among finitely many types. -/
@[simp] theorem listOwner_ends (table : Table) (target : Nat) : Ends (listOwner assembly table target) := by
  apply Settles.loop (I := fun _ => True) (fun index => assembly.rows .typeDef + 1 - index) _ trivial (by omega)
  intro index _
  apply Settles.refuseIf.bind
  intro _ _ hIndex
  apply (listStart_ends assembly table index).bind
  intro start _ _
  apply (listEnd_ends assembly table index).bind
  intro stop _ _
  apply Settles.ret
  split
  · rename_i next hNext
    split at hNext
    · cases hNext
    · cases hNext
      exact ⟨trivial, by omega⟩
  · trivial

@[simp] theorem methodOwner_ends (index : Nat) : Ends (assembly.methodOwner index) := by
  simp [Assembly.methodOwner]

end Lists

namespace Signature

variable (rows : Rows) (signature : Signature)

@[simp] theorem byte_ends : Ends signature.byte := by
  simp [byte]

@[simp] theorem compressed_ends : Ends signature.compressed := by
  simp [compressed]

@[simp] theorem classToken_ends : Ends (signature.classToken rows) := by
  simp only [classToken, ends_bind, compressed_ends]
  intro read _
  split <;> simp

@[simp] theorem arrayType_ends (depth : Nat) : Ends (signature.arrayType rows depth) := by
  simp only [arrayType, ends_bind, ends_orRefuse]
  intro kind _
  split <;> simp

@[simp] theorem stackType_ends (void : Bool) (depth : Nat) : Ends (signature.stackType rows void depth) := by
  simp only [stackType, ends_bind, ends_refuseIf, byte_ends]
  intro _ _ read _
  split <;> simp

@[simp] theorem stackTypes_ends (count : Nat) : Ends (signature.stackTypes rows count) := by
  induction count generalizing signature with
  | zero => trivial
  | succ count ih => simp [stackTypes, ih]

@[simp] theorem finish_ends : Ends signature.finish := ends_refuseIf _ _

end Signature

section Types

variable (rows : Rows) (assembly : Assembly)

@[simp] theorem methodShape_ends (bytes : List Byte) : Ends (methodShape rows bytes) := by
  simp [methodShape]

@[simp] theorem localCount_ends (bytes : List Byte) : Ends (localCount bytes) := by
  simp [localCount]

@[simp] theorem localTypes_ends (bytes : List Byte) : Ends (localTypes rows bytes) := by
  simp [localTypes]

@[simp] theorem validateSignature_ends (bytes : List Byte) (kind : SignatureKind) :
    Ends (validateSignature rows bytes kind) := by
  cases kind <;> simp [validateSignature, validateTypes]

@[simp] theorem signatureOffset_ends (table : Table) (row : Row) : Ends (signatureOffset assembly table row) := by
  cases table <;> simp [signatureOffset]

@[simp] theorem referencedMethodShape_ends (table : Table) (index : Nat) :
    Ends (referencedMethodShape assembly table index) := by
  simp [referencedMethodShape]

@[simp] theorem metadataType_ends (table : Table) (index : Nat) : Ends (metadataType assembly table index) := by
  cases table <;> simp [metadataType]

@[simp] theorem methodReceiver_ends (table : Table) (index : Nat) : Ends (methodReceiver assembly table index) := by
  cases table with
  | methodDef => simp [methodReceiver, definedReceiver]
  | memberRef =>
      simp only [methodReceiver, ends_bind, Assembly.row_ends, Row.u16_ends]
      intro bytes _ read _
      split <;> simp [definedReceiver]
  | _ => simp [methodReceiver]

@[simp] theorem referencedMethodTypes_ends (table : Table) (index : Nat) :
    Ends (referencedMethodTypes assembly table index) := by
  simp [referencedMethodTypes]

@[simp] theorem fieldType_ends (index : Nat) : Ends (fieldType assembly index) := by
  simp [fieldType]

@[simp] theorem methodTypes_ends (index : Nat) : Ends (assembly.methodTypes index) := by
  simp [Assembly.methodTypes]

@[simp] theorem memberTypes_ends (index : Nat) : Ends (assembly.memberTypes index) := by
  simp [Assembly.memberTypes]

@[simp] theorem arrayElement_ends (table : Table) (index : Nat) : Ends (arrayElement assembly table index) := by
  cases table <;> simp [arrayElement]

end Types

end MicroCard.Mc04
