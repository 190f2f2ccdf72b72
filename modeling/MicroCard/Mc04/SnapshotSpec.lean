import MicroCard.Mc04.Snapshot

/-! The snapshot codec. Decoding accepts exactly the written forms of the states that
pass its checks, and encoding a state that passes them fails only for want of room. -/
namespace MicroCard.Mc04

open Bytes CrashTriple Cbor Codec
open Card (Aid Descriptor)

section Forms

def listBytes {α : Type} (write : α → List Byte) (items : List α) : List Byte :=
  arrayBytes items.length ++ items.flatMap write

def policyBytes (policy : DomainPolicy) : List Byte :=
  arrayBytes 8 ++ stringBytes policy.capabilities ++ unsignedBytes policy.maxAssemblies.toNat ++
    unsignedBytes policy.maxInstances.toNat ++ unsignedBytes policy.maxIntRecords.toNat ++
    unsignedBytes policy.maxBlobRecords.toNat ++ unsignedBytes policy.maxBlobBytes.toNat ++
    unsignedBytes policy.maxKeySlots.toNat ++ unsignedBytes policy.maxPackageBytes.toNat

def targetBytes : CallTarget → List Byte
  | .objectConstructor => arrayBytes 1 ++ unsignedBytes 0
  | .currentDomain => arrayBytes 1 ++ unsignedBytes 1
  | .domainStorage => arrayBytes 1 ++ unsignedBytes 2
  | .domainKeys => arrayBytes 1 ++ unsignedBytes 3
  | .native id => arrayBytes 2 ++ unsignedBytes 4 ++ unsignedBytes id.toNat
  | .managed dependency method =>
      arrayBytes 3 ++ unsignedBytes 5 ++ unsignedBytes dependency.toNat ++ unsignedBytes method.toNat

def callBytes (call : ResolvedCall) : List Byte :=
  arrayBytes 2 ++ unsignedBytes call.member.toNat ++ targetBytes call.target

def descriptorBytes (descriptor : Descriptor) : List Byte :=
  arrayBytes 3 ++ unsignedBytes descriptor.slot.toNat ++ unsignedBytes descriptor.length.toNat ++
    stringBytes descriptor.digest.1

def dependencyBytes (dependency : ResolvedDependency) : List Byte := stringBytes dependency.digest.1

def versionBytes (version : UInt32 × Fixed 32) : List Byte :=
  arrayBytes 2 ++ unsignedBytes version.1.toNat ++ stringBytes version.2.1

def declarationBytes (entry : StorageDeclaration) : List Byte :=
  arrayBytes 3 ++ unsignedBytes (asU64 entry.key) ++ unsignedBytes entry.kind.toNat ++ unsignedBytes entry.maxBytes.toNat

/-- The identifier that a text stands for. -/
def aidOf (text : String) : List Byte := (decodeAid text).toOption.getD []

def aidTextBytes (text : String) : List Byte := stringBytes (aidOf text)

def namesBytes {α : Type} (write : α → List Byte) (values : NameMap α) : List Byte := mapBytes (fun name => name) 2 textBytes write values

def domainBytes (domain : Domain) : List Byte :=
  arrayBytes 14 ++ stringBytes domain.incarnation.1 ++ stringBytes domain.registryAid.bytes ++
    optionalBytes (fun key : Fixed 32 => stringBytes key.1) domain.key ++ policyBytes domain.policy ++
    namesBytes descriptorBytes domain.imageRefs ++ namesBytes (listBytes dependencyBytes) domain.bindings ++
    namesBytes (listBytes callBytes) domain.imports ++ namesBytes versionBytes domain.versions ++
    listBytes declarationBytes domain.storageSchema.entries ++
    mapBytes (fun name => name) 2 aidTextBytes textBytes domain.instances ++
    mapBytes Int32.toInt 2 signedBytes signedBytes domain.store ++
    mapBytes Int32.toInt 2 signedBytes stringBytes domain.blobs ++ domain.keys.stateBytes ++ domain.credentials.stateBytes

def headerBytes : List Byte := arrayBytes 5 ++ unsignedBytes 2 ++ unsignedBytes 0

def stateBytes (state : State) : List Byte :=
  headerBytes ++ unsignedBytes state.scp03Sequence.toNat ++ domainBytes state.isd ++ namesBytes domainBytes state.domains

end Forms

section Storable

/-- An image that a snapshot can name. -/
def StorableImage (descriptor : Descriptor) : Prop :=
  descriptor.slot.toNat < 64 ∧ descriptor.length.toNat ≠ 0 ∧ descriptor.length.toNat ≤ maxPackageBytes

/-- The text of an identifier, in the one case that is stored. -/
def CanonicalAid (text : String) : Prop := ∃ bytes : List Byte, 5 ≤ bytes.length ∧ bytes.length ≤ 16 ∧ text = encodeAid bytes

/-- Assembly names in a map: few, and identifiers. -/
def Named {α : Type} (Value : α → Prop) (values : NameMap α) : Prop :=
  values.length ≤ maxAssembliesPerDomain ∧ ∀ e ∈ values.entries, validIdentifier e.1 = true ∧ Value e.2

/-- What decoding checks of a domain. -/
structure Domain.Storable (domain : Domain) : Prop where
  policy : domain.policy.valid = true
  images : Named StorableImage domain.imageRefs
  bindings : Named (fun values => values.length ≤ 16) domain.bindings
  imports : Named (fun values => values.length ≤ maxMemberRefRows) domain.imports
  versions : Named (fun _ => True) domain.versions
  schema : domain.storageSchema.length ≤ maxDomainStorageDeclarations
  declarations : ∀ d ∈ domain.storageSchema.entries, d.valid = true
  instances : domain.instances.length ≤ maxInstancesPerDomain
  modules : ∀ e ∈ domain.instances.entries, CanonicalAid e.1 ∧ validIdentifier e.2 = true
  integers : domain.store.length ≤ maxIntRecords
  blobs : domain.blobs.length ≤ maxBlobRecords
  blob : ∀ e ∈ domain.blobs.entries, e.2.length ≤ maxDeclaredBlobBytes
  held : blobBytes domain.blobs ≤ domain.policy.maxBlobBytes.toNat
  keys : domain.keys.Valid
  credentials : domain.credentials.Valid domain.incarnation
  active : domain.namesActive = true

/-- What the images of a domain take together. -/
def Domain.imageBytes (domain : Domain) : Nat := domain.imageRefs.weight fun e => e.2.length.toNat

/-- What decoding checks of a state. -/
structure State.Storable (state : State) : Prop where
  isd : state.isd.Storable
  count : state.domains.length ≤ maxSsds
  domains : ∀ e ∈ state.domains.entries, (validIdentifier e.1 = true ∧ e.1 ≠ "ISD") ∧ e.2.Storable
  images : state.isd.imageBytes + state.domains.weight (fun e => e.2.imageBytes) ≤ maxTotalPackageBytes

/-- Packages are not stored. -/
def Domain.unloaded (domain : Domain) : Domain := { domain with packages := KeyedList.empty }

/-- The same map with other values. -/
def mapValues {α β : Type} (f : α → β) (values : NameMap α) : NameMap β where
  entries := values.entries.map fun e => (e.1, f e.2)
  sorted := by
    rw [List.pairwise_map]
    exact values.sorted

def State.unloaded (state : State) : State :=
  { state with isd := state.isd.unloaded, domains := mapValues Domain.unloaded state.domains }

end Storable

section Readers

theorem readList_exact {α : Type} {read : Decoder α} {write : α → List Byte} {Admitted : α → Prop} (maximum : Nat)
    (hMaximum : maximum < 2 ^ 64) (h : Exact read write Admitted) :
    Exact (readList maximum read) (listBytes write) fun items => items.length ≤ maximum ∧ ∀ a ∈ items, Admitted a := by
  intro input items rest
  simp only [readList, listBytes, bind_ok, array_ok maximum hMaximum, h.times _ _ _ _, List.append_assoc]
  constructor
  · rintro ⟨_, _, ⟨hCount, rfl⟩, ⟨rfl, hItems⟩, rfl⟩
    exact ⟨⟨hCount, hItems⟩, rfl⟩
  · rintro ⟨⟨hCount, hItems⟩, rfl⟩
    exact ⟨_, _, ⟨hCount, rfl⟩, ⟨rfl, hItems⟩, rfl⟩

theorem capabilities_length {policy : DomainPolicy} (h : policy.valid = true) : policy.capabilities.length ≤ 46 := by
  simp only [DomainPolicy.valid, Bool.and_eq_true] at h
  have hSorted : policy.capabilities.Pairwise fun a b => a.toNat < b.toNat := pairwise_of_adjacent (by
    simpa only [UInt8.lt_iff_toNat_lt] using h.1.1.1.1.1.1.1.1)
  have hNodup : policy.capabilities.Nodup := hSorted.imp fun hLt hEq => by rw [hEq] at hLt; exact lt_irrefl _ hLt
  have hSubset : policy.capabilities ⊆ Mc04.capabilities := by
    intro id hid
    simpa [validCapability] using List.all_eq_true.1 h.1.1.1.1.1.1.1.2 id hid
  exact (List.subperm_of_subset hNodup hSubset).length_le.trans (by decide)

theorem readPolicy_exact : Exact readPolicy policyBytes fun policy => policy.valid = true := by
  intro input policy rest
  simp only [readPolicy, policyBytes, bind_ok, record_ok 8 (by decide), bytes_ok 46 (by decide), u8_ok, u16_ok, failIf_ok,
    pure_ok, Bool.not_eq_false, List.append_assoc]
  constructor
  · rintro ⟨_, _, rfl, _, _, ⟨-, rfl⟩, _, _, rfl, _, _, rfl, _, _, rfl, _, _, rfl, _, _, rfl, _, _, rfl, _, _, rfl, _, _,
      ⟨hValid, rfl⟩, rfl, rfl⟩
    exact ⟨hValid, rfl⟩
  · rintro ⟨hValid, rfl⟩
    exact ⟨(), _, rfl, _, _, ⟨capabilities_length hValid, rfl⟩, _, _, rfl, _, _, rfl, _, _, rfl, _, _, rfl, _, _, rfl, _, _,
      rfl, _, _, rfl, (), _, ⟨hValid, rfl⟩, rfl, rfl⟩

/-- The kind of a target and the length of its record. -/
def targetKind : CallTarget → Nat × Nat
  | .objectConstructor => (0, 1)
  | .currentDomain => (1, 1)
  | .domainStorage => (2, 1)
  | .domainKeys => (3, 1)
  | .native _ => (4, 2)
  | .managed _ _ => (5, 3)

/-- What follows the kind of a target. -/
def targetRest : CallTarget → List Byte
  | .native id => unsignedBytes id.toNat
  | .managed dependency method => unsignedBytes dependency.toNat ++ unsignedBytes method.toNat
  | _ => []

theorem targetBytes_eq (target : CallTarget) :
    targetBytes target = arrayBytes (targetKind target).2 ++ unsignedBytes (targetKind target).1 ++ targetRest target := by
  cases target <;> simp [targetBytes, targetKind, targetRest]

theorem targetKind_le (target : CallTarget) : (targetKind target).1 ≤ 5 ∧ (targetKind target).2 ≤ 3 := by
  cases target <;> simp [targetKind]

theorem readTarget_ok {kind fields : Nat} {target : CallTarget} {input rest : List Byte} :
    readTarget kind fields input = .ok target rest ↔ targetKind target = (kind, fields) ∧ input = targetRest target ++ rest := by
  constructor
  · intro h
    unfold readTarget at h
    split_ifs at h with h0 h1 h2 h3 h4 h5
    · obtain ⟨rfl, rfl⟩ := pure_ok.1 h
      simp [targetKind, targetRest, h0]
    · obtain ⟨rfl, rfl⟩ := pure_ok.1 h
      simp [targetKind, targetRest, h1]
    · obtain ⟨rfl, rfl⟩ := pure_ok.1 h
      simp [targetKind, targetRest, h2]
    · obtain ⟨rfl, rfl⟩ := pure_ok.1 h
      simp [targetKind, targetRest, h3]
    · simp only [bind_ok, u8_ok, pure_ok] at h
      obtain ⟨_, _, rfl, rfl, rfl⟩ := h
      simp [targetKind, targetRest, h4]
    · simp only [bind_ok, u8_ok, u16_ok, pure_ok] at h
      obtain ⟨_, _, rfl, _, _, rfl, rfl, rfl⟩ := h
      simp [targetKind, targetRest, h5]
    · exact (throw_ok.1 h).elim
  · rintro ⟨hKind, rfl⟩
    obtain ⟨rfl, rfl⟩ : kind = (targetKind target).1 ∧ fields = (targetKind target).2 := by rw [hKind]; exact ⟨rfl, rfl⟩
    cases target with
    | native id =>
        show (u8 >>= fun id => pure (CallTarget.native id)) (unsignedBytes id.toNat ++ rest) = _
        simp only [bind_ok, u8_ok, pure_ok]
        exact ⟨_, _, rfl, rfl, rfl⟩
    | managed dependency method =>
        show (u8 >>= fun dependency => u16 >>= fun method => pure (CallTarget.managed dependency method))
          (unsignedBytes dependency.toNat ++ unsignedBytes method.toNat ++ rest) = _
        simp only [bind_ok, u8_ok, u16_ok, pure_ok, List.append_assoc]
        exact ⟨_, _, rfl, _, _, rfl, rfl, rfl⟩
    | _ => rfl

theorem readCall_exact : Exact readCall callBytes fun _ => True := by
  intro input call rest
  simp only [readCall, callBytes, targetBytes_eq, bind_ok, record_ok 2 (by decide), u16_ok, array_ok 3 (by decide),
    unsigned_ok, readTarget_ok, pure_ok, true_and, List.append_assoc]
  constructor
  · rintro ⟨_, _, rfl, _, _, rfl, _, _, ⟨-, rfl⟩, _, _, ⟨-, rfl⟩, _, _, ⟨hKind, rfl⟩, rfl, rfl⟩
    rw [hKind]
  · rintro rfl
    refine ⟨(), _, rfl, _, _, rfl, _, _, ⟨?_, rfl⟩, _, _, ⟨?_, rfl⟩, call.target, _, ⟨rfl, rfl⟩, rfl, rfl⟩
    · exact (targetKind_le _).2
    · exact (targetKind_le _).1.trans_lt (by decide)

/-- Images add up, and never pass the limit. -/
abbrev DescriptorStep (_ : String) (total : Nat) (descriptor : Descriptor) (total' : Nat) : Prop :=
  StorableImage descriptor ∧ total' = total + descriptor.length.toNat ∧ total' ≤ maxTotalPackageBytes

theorem readDescriptor_exact : ExactWith readDescriptor descriptorBytes DescriptorStep := by
  intro name total input descriptor total' rest
  simp only [readDescriptor, descriptorBytes, DescriptorStep, StorableImage, bind_ok, record_ok 3 (by decide), u8_ok, u32_ok,
    fixed_ok 32 (by decide), failIf_ok, pure_ok, Prod.mk.injEq, not_or, not_le, not_lt, List.append_assoc]
  constructor
  · rintro ⟨_, _, rfl, _, _, rfl, _, _, rfl, _, _, rfl, _, _, ⟨hShape, rfl⟩, _, _, ⟨hRoom, rfl⟩, ⟨rfl, rfl⟩, rfl⟩
    exact ⟨⟨hShape, rfl, hRoom⟩, rfl⟩
  · rintro ⟨⟨hShape, rfl, hRoom⟩, rfl⟩
    exact ⟨(), _, rfl, _, _, rfl, _, _, rfl, _, _, rfl, (), _, ⟨hShape, rfl⟩, (), _, ⟨hRoom, rfl⟩, ⟨rfl, rfl⟩, rfl⟩

theorem readDependency_exact : Exact readDependency dependencyBytes fun _ => True := by
  intro input dependency rest
  simp only [readDependency, dependencyBytes, bind_ok, fixed_ok 32 (by decide), pure_ok, true_and]
  constructor
  · rintro ⟨_, _, rfl, rfl, rfl⟩
    rfl
  · rintro rfl
    exact ⟨_, _, rfl, rfl, rfl⟩

theorem readVersion_exact : Exact readVersion versionBytes fun _ => True := by
  intro input version rest
  simp only [readVersion, versionBytes, bind_ok, record_ok 2 (by decide), u32_ok, fixed_ok 32 (by decide), pure_ok, true_and,
    List.append_assoc]
  constructor
  · rintro ⟨_, _, rfl, _, _, rfl, _, _, rfl, rfl, rfl⟩
    rfl
  · rintro rfl
    exact ⟨(), _, rfl, _, _, rfl, _, _, rfl, rfl, rfl⟩

theorem readDeclaration_ok {schema schema' : Schema} {input rest : List Byte} :
    readDeclaration schema input = .ok schema' rest ↔ ∃ entry, entry.valid = true ∧
      schema'.entries = schema.entries ++ [entry] ∧ input = declarationBytes entry ++ rest := by
  simp only [readDeclaration, declarationBytes, bind_ok, record_ok 3 (by decide), i32_ok, u8_ok, u16_ok, failIf_ok,
    Bool.not_eq_false, List.append_assoc]
  constructor
  · rintro ⟨_, _, rfl, _, _, ⟨-, rfl⟩, _, _, rfl, _, _, rfl, _, _, ⟨hValid, rfl⟩, hRun⟩
    split at hRun
    · obtain ⟨rfl, rfl⟩ := pure_ok.1 hRun
      exact ⟨_, hValid, rfl, rfl⟩
    · exact (throw_ok.1 hRun).elim
  · rintro ⟨entry, hValid, hEntries, rfl⟩
    have hNonneg : 0 ≤ entry.key.toInt := by
      simp only [StorageDeclaration.valid, Bool.and_eq_true, decide_eq_true_eq] at hValid
      exact hValid.1
    have hSorted := schema'.sorted
    rw [hEntries, List.pairwise_append] at hSorted
    have hBelow : schema.Below entry.key.toInt := by
      intro last hLast
      exact hSorted.2.2 last (List.mem_of_getLast? hLast) entry (List.mem_singleton.2 rfl)
    refine ⟨(), _, rfl, _, _, ⟨hNonneg, rfl⟩, _, _, rfl, _, _, rfl, (), _, ⟨hValid, rfl⟩, ?_⟩
    rw [dif_pos hBelow]
    exact pure_ok.2 ⟨KeyedList.ext hEntries.symm, rfl⟩

theorem readDeclarations_ok {schema' : Schema} {rest : List Byte} (count : Nat) :
    ∀ {schema : Schema} {input : List Byte}, readDeclarations count schema input = .ok schema' rest ↔
      ∃ items : List StorageDeclaration, items.length = count ∧ (∀ d ∈ items, d.valid = true) ∧
        schema'.entries = schema.entries ++ items ∧ input = items.flatMap declarationBytes ++ rest := by
  induction count with
  | zero =>
      intro schema input
      simp only [readDeclarations, pure_ok, List.length_eq_zero_iff]
      constructor
      · rintro ⟨rfl, rfl⟩
        exact ⟨[], rfl, by simp, by simp, by simp⟩
      · rintro ⟨_, rfl, -, hEntries, rfl⟩
        exact ⟨KeyedList.ext (by rw [hEntries, List.append_nil]), by simp⟩
  | succ count ih =>
      intro schema input
      simp only [readDeclarations, bind_ok]
      constructor
      · rintro ⟨schema₁, _, hEntry, hRest⟩
        obtain ⟨entry, hValid, hEntries, rfl⟩ := readDeclaration_ok.1 hEntry
        obtain ⟨items, rfl, hItems, hEntries', rfl⟩ := ih.1 hRest
        refine ⟨entry :: items, rfl, List.forall_mem_cons.2 ⟨hValid, hItems⟩, ?_, ?_⟩
        · rw [hEntries', hEntries, List.append_assoc, List.singleton_append]
        · rw [List.flatMap_cons, List.append_assoc]
      · rintro ⟨items, hLength, hItems, hEntries, rfl⟩
        cases items with
        | nil => cases hLength
        | cons entry items =>
            rw [List.forall_mem_cons] at hItems
            have hSorted := schema'.sorted
            rw [hEntries, ← List.singleton_append, ← List.append_assoc, List.pairwise_append] at hSorted
            refine ⟨⟨schema.entries ++ [entry], hSorted.1⟩, items.flatMap declarationBytes ++ rest, ?_, ?_⟩
            · refine readDeclaration_ok.2 ⟨entry, hItems.1, rfl, ?_⟩
              rw [List.flatMap_cons, List.append_assoc]
            · refine ih.2 ⟨items, Nat.succ.inj hLength, hItems.2, ?_, rfl⟩
              rw [hEntries, List.append_assoc, List.singleton_append]

theorem readSchema_ok {schema : Schema} {input rest : List Byte} :
    readSchema input = .ok schema rest ↔ (schema.length ≤ maxDomainStorageDeclarations ∧
      ∀ d ∈ schema.entries, d.valid = true) ∧ input = listBytes declarationBytes schema.entries ++ rest := by
  simp only [readSchema, listBytes, bind_ok, array_ok maxDomainStorageDeclarations (by decide), readDeclarations_ok,
    KeyedList.length, List.append_assoc]
  constructor
  · rintro ⟨count, _, ⟨hCount, rfl⟩, items, rfl, hItems, hEntries, rfl⟩
    have hEntries : schema.entries = items := hEntries
    rw [hEntries]
    exact ⟨⟨hCount, hItems⟩, rfl⟩
  · rintro ⟨⟨hCount, hItems⟩, rfl⟩
    exact ⟨_, _, ⟨hCount, rfl⟩, schema.entries, rfl, hItems, rfl, rfl⟩

theorem readAidText_exact : Exact readAidText aidTextBytes CanonicalAid := by
  intro input text rest
  simp only [readAidText, aidTextBytes, bind_ok, bytes_ok 16 (by decide), readOnly_ok, pure_ok]
  constructor
  · rintro ⟨raw, _, ⟨hLength, rfl⟩, aid, _, ⟨hDecode, rfl⟩, rfl, rfl⟩
    have hLong : 5 ≤ raw.length := by
      simp only [decodeAid, utf8_encodeAid, length_hexDigits, Checks.bind_ok, Checks.failIf_ok, not_or, not_not] at hDecode
      obtain ⟨_, ⟨hBounds, -⟩, -⟩ := hDecode
      omega
    refine ⟨⟨raw, hLong, hLength, rfl⟩, ?_⟩
    rw [aidOf, decodeAid_encodeAid ⟨hLong, hLength⟩]
    rfl
  · rintro ⟨⟨raw, hLong, hLength, rfl⟩, rfl⟩
    have hDecode := decodeAid_encodeAid ⟨hLong, hLength⟩
    refine ⟨raw, rest, ⟨hLength, ?_⟩, raw, rest, ⟨hDecode, rfl⟩, rfl, rfl⟩
    rw [aidOf, hDecode]
    rfl

theorem readBlob_exact (limit : Nat) : ExactWith (readBlob limit) stringBytes
    fun _ total value total' => value.length ≤ maxDeclaredBlobBytes ∧ total' = total + value.length ∧ total' ≤ limit := by
  intro key total input value total' rest
  simp only [readBlob, bind_ok, bytes_ok maxDeclaredBlobBytes (by decide), failIf_ok, pure_ok, Prod.mk.injEq, not_lt]
  constructor
  · rintro ⟨_, _, ⟨hLength, rfl⟩, _, _, ⟨hRoom, rfl⟩, ⟨rfl, rfl⟩, rfl⟩
    exact ⟨⟨hLength, rfl, hRoom⟩, rfl⟩
  · rintro ⟨⟨hLength, rfl, hRoom⟩, rfl⟩
    exact ⟨_, _, ⟨hLength, rfl⟩, (), _, ⟨hRoom, rfl⟩, ⟨rfl, rfl⟩, rfl⟩

theorem readKey_exact : Exact (optional (fixed 32)) (optionalBytes fun key : Fixed 32 => stringBytes key.1) fun _ => True := by
  have hFixed : Exact (fixed 32) (fun key : Fixed 32 => stringBytes key.1) fun _ => True := by
    intro input key rest
    rw [fixed_ok 32 (by decide), true_and]
  intro input key rest
  rw [optional_exact hFixed (fun key => ?_) input key rest]
  · simp
  · have hLength := key.2
    exact ⟨_, _, rfl, by rw [hLength]; decide⟩

section Maps

variable {α : Type} {read : Decoder α} {write : α → List Byte} {Value : α → Prop}

theorem identifier_exact : Exact identifier textBytes fun name => validIdentifier name = true := fun _ _ _ => identifier_ok

/-- A map under assembly names is read exactly as it is written. -/
theorem readNames_ok (h : Exact read write Value) {values : NameMap α} {input rest : List Byte} :
    readPlainMap (fun name => name) maxAssembliesPerDomain 2 identifier (fun _ => read) input = .ok values rest ↔
      Named Value values ∧ input = namesBytes write values ++ rest := by
  rw [readPlainMap_ok (show maxAssembliesPerDomain < 2 ^ 64 by decide) (show 2 < 2 ^ 64 by decide) identifier_exact fun _ => h,
    ← and_assoc]
  rfl

end Maps

/-- What reading a domain checks, and what its images add to the total. -/
def DomainStep (_ : String) (total : Nat) (domain : Domain) (total' : Nat) : Prop :=
  domain.Storable ∧ domain.packages = KeyedList.empty ∧ Totals DescriptorStep domain.imageRefs.entries total total'

theorem readImages_ok {images : NameMap Descriptor} {total total' : Nat} {input rest : List Byte} :
    readMap (fun name => name) maxAssembliesPerDomain 2 identifier readDescriptor total input = .ok (images, total') rest ↔
      (Named (fun _ => True) images ∧ Totals DescriptorStep images.entries total total') ∧
        input = namesBytes descriptorBytes images ++ rest := by
  rw [readMap_ok (show maxAssembliesPerDomain < 2 ^ 64 by decide) (show 2 < 2 ^ 64 by decide) identifier_exact
    readDescriptor_exact]
  simp only [Named, and_true, and_assoc, namesBytes]

theorem storable_of_totals {items : List (String × Descriptor)} {total total' : Nat}
    (h : Totals DescriptorStep items total total') : ∀ e ∈ items, StorableImage e.2 := by
  induction items generalizing total with
  | nil => exact fun _ he => (nomatch he)
  | cons entry items ih =>
      obtain ⟨middle, hStep, hRest⟩ := h
      exact List.forall_mem_cons.2 ⟨hStep.1, ih hRest⟩

theorem readBlobs_ok {limit : Nat} {blobs : Entries Int32.toInt (List Byte)} {total : Nat} {input rest : List Byte} :
    readMap Int32.toInt maxBlobRecords 2 signed (readBlob limit) 0 input = .ok (blobs, total) rest ↔
      (blobs.length ≤ maxBlobRecords ∧ (∀ e ∈ blobs.entries, e.2.length ≤ maxDeclaredBlobBytes) ∧
        total = blobBytes blobs ∧ blobBytes blobs ≤ limit) ∧
      input = mapBytes Int32.toInt 2 signedBytes stringBytes blobs ++ rest := by
  have hKey : Exact signed signedBytes fun _ => True := by
    intro input key rest
    rw [signed_ok, true_and]
  rw [readMap_ok (show maxBlobRecords < 2 ^ 64 by decide) (show 2 < 2 ^ 64 by decide) hKey (readBlob_exact limit),
    totals_sum (fun _ value => value.length ≤ maxDeclaredBlobBytes) List.length (Nat.zero_le limit)]
  simp only [Nat.zero_add, implies_true, true_and]
  constructor
  · rintro ⟨hCount, ⟨hEach, rfl, hTotal⟩, rfl⟩
    exact ⟨⟨hCount, hEach, rfl, hTotal⟩, rfl⟩
  · rintro ⟨⟨hCount, hEach, rfl, hTotal⟩, rfl⟩
    exact ⟨hCount, ⟨hEach, rfl, hTotal⟩, rfl⟩

theorem readInstances_ok {instances : NameMap String} {input rest : List Byte} :
    readPlainMap (fun name => name) maxInstancesPerDomain 2 readAidText (fun _ => identifier) input = .ok instances rest ↔
      (instances.length ≤ maxInstancesPerDomain ∧
        ∀ e ∈ instances.entries, CanonicalAid e.1 ∧ validIdentifier e.2 = true) ∧
      input = mapBytes (fun name => name) 2 aidTextBytes textBytes instances ++ rest := by
  rw [readPlainMap_ok (show maxInstancesPerDomain < 2 ^ 64 by decide) (show 2 < 2 ^ 64 by decide) readAidText_exact
    fun _ => identifier_exact, ← and_assoc]

theorem readIntegers_ok {store : Entries Int32.toInt Int32} {input rest : List Byte} :
    readPlainMap Int32.toInt maxIntRecords 2 signed (fun _ => signed) input = .ok store rest ↔
      store.length ≤ maxIntRecords ∧ input = mapBytes Int32.toInt 2 signedBytes signedBytes store ++ rest := by
  have hExact : Exact signed signedBytes fun _ => True := by
    intro input value rest
    rw [signed_ok, true_and]
  rw [readPlainMap_ok (show maxIntRecords < 2 ^ 64 by decide) (show 2 < 2 ^ 64 by decide) hExact fun _ => hExact]
  simp

/-- A domain is read exactly as it is written, with no package loaded. -/
theorem readDomain_exact : ExactWith readDomain domainBytes DomainStep := by
  intro name total input domain total' rest
  have hBindings : ∀ {values : NameMap (List ResolvedDependency)} {input rest : List Byte},
      readPlainMap (fun name => name) maxAssembliesPerDomain 2 identifier (fun _ => readList 16 readDependency) input =
        .ok values rest ↔ _ := readNames_ok (readList_exact 16 (by decide) readDependency_exact)
  have hImports : ∀ {values : NameMap (List ResolvedCall)} {input rest : List Byte},
      readPlainMap (fun name => name) maxAssembliesPerDomain 2 identifier (fun _ => readList maxMemberRefRows readCall) input =
        .ok values rest ↔ _ := readNames_ok (readList_exact maxMemberRefRows (by decide) readCall_exact)
  have hVersions : ∀ {values : NameMap (UInt32 × Fixed 32)} {input rest : List Byte},
      readPlainMap (fun name => name) maxAssembliesPerDomain 2 identifier (fun _ => readVersion) input =
        .ok values rest ↔ _ := readNames_ok readVersion_exact
  have hCredentials := fun owner => CredentialStore.decodeState_exact owner
  simp only [readDomain, domainBytes, bind_ok, record_ok 14 (by decide), fixed_ok 16 (by decide), Card.decodeAid_ok,
    readKey_exact _ _ _, readPolicy_exact _ _ _, hBindings, hImports, hVersions, readSchema_ok, readInstances_ok,
    readIntegers_ok, KeyStore.decodeState_exact _ _ _, CredentialStore.decodeState_exact _ _ _ _, readOnly_ok, pure_ok,
    true_and, implies_true, and_true, List.append_assoc]
  constructor
  · rintro ⟨_, _, rfl, incarnation, _, rfl, aid, _, rfl, key, _, rfl, policy, _, ⟨hPolicy, rfl⟩, ⟨images, middle⟩, _, hImages,
      bindings, _, ⟨hBound, rfl⟩, imports, _, ⟨hImported, rfl⟩, versions, _, ⟨hVersioned, rfl⟩, schema, _,
      ⟨⟨hSchema, hDeclared⟩, rfl⟩, instances, _, ⟨⟨hInstances, hModules⟩, rfl⟩, store, _, ⟨hStore, rfl⟩, ⟨blobs, held⟩, _,
      hBlobs, keys, _, ⟨hKeys, rfl⟩, credentials, _, ⟨hCredentials, rfl⟩, _, _, ⟨hActive, rfl⟩, hDone, rfl⟩
    obtain ⟨⟨hNamed, hTotals⟩, rfl⟩ := readImages_ok.1 hImages
    obtain ⟨⟨hCount, hEach, -, hHeld⟩, rfl⟩ := readBlobs_ok.1 hBlobs
    obtain ⟨rfl, rfl⟩ := Prod.mk.inj hDone
    refine ⟨⟨⟨hPolicy, ⟨hNamed.1, fun e he => ⟨(hNamed.2 e he).1, storable_of_totals hTotals e he⟩⟩, hBound, hImported, hVersioned,
      hSchema, hDeclared, hInstances, hModules, hStore, hCount, hEach, hHeld, hKeys, hCredentials, ?_⟩, rfl, hTotals⟩, rfl⟩
    simpa only [Domain.internAssemblyNames, Checks.failIf_ok, Bool.not_eq_false] using hActive
  · rintro ⟨⟨h, hUnloaded, hTotals⟩, rfl⟩
    refine ⟨(), _, rfl, domain.incarnation, _, rfl, domain.registryAid, _, rfl, domain.key, _, rfl, domain.policy, _,
      ⟨h.policy, rfl⟩, (domain.imageRefs, total'), _, readImages_ok.2 ⟨⟨⟨h.images.1, fun e he => ⟨(h.images.2 e he).1, trivial⟩⟩,
      hTotals⟩, rfl⟩, domain.bindings, _, ⟨h.bindings, rfl⟩, domain.imports, _, ⟨h.imports, rfl⟩, domain.versions, _,
      ⟨h.versions, rfl⟩, domain.storageSchema, _, ⟨⟨h.schema, h.declarations⟩, rfl⟩, domain.instances, _,
      ⟨⟨h.instances, h.modules⟩, rfl⟩, domain.store, _, ⟨h.integers, rfl⟩, (domain.blobs, blobBytes domain.blobs), _,
      readBlobs_ok.2 ⟨⟨h.blobs, h.blob, rfl, h.held⟩, rfl⟩, domain.keys, _, ⟨h.keys, rfl⟩, domain.credentials, rest,
      ⟨h.credentials, rfl⟩, (), rest, ⟨?_, rfl⟩, ?_, rfl⟩
    · rw [Domain.internAssemblyNames, Checks.failIf_ok, Bool.not_eq_false]
      exact h.active
    · rw [← hUnloaded]

/-- Totals of domains are totals of their images. -/
theorem totals_domains {limit : Nat} (hLimit : limit = maxTotalPackageBytes) {items : List (String × Domain)} {total total' : Nat}
    (h : total ≤ limit) : Totals DomainStep items total total' ↔
      (∀ e ∈ items, e.2.Storable ∧ e.2.packages = KeyedList.empty) ∧
        total' = total + (items.map fun e => e.2.imageBytes).sum ∧ total' ≤ limit := by
  subst hLimit
  induction items generalizing total with
  | nil =>
      simp only [Totals, List.not_mem_nil, false_implies, implies_true, List.map_nil, List.sum_nil, Nat.add_zero, true_and]
      exact ⟨fun hTotal => ⟨hTotal, hTotal ▸ h⟩, fun hTotal => hTotal.1⟩
  | cons entry items ih =>
      simp only [Totals, List.forall_mem_cons, List.map_cons, List.sum_cons, DomainStep,
        totals_sum (fun (_ : String) => StorableImage) (fun d : Descriptor => d.length.toNat) h]
      constructor
      · rintro ⟨middle, ⟨hStorable, hUnloaded, -, rfl, hMiddle⟩, hRest⟩
        obtain ⟨hItems, rfl, hTotal⟩ := (ih hMiddle).1 hRest
        refine ⟨⟨⟨hStorable, hUnloaded⟩, hItems⟩, ?_, hTotal⟩
        simp only [Domain.imageBytes, KeyedList.weight]
        omega
      · rintro ⟨⟨⟨hStorable, hUnloaded⟩, hItems⟩, rfl, hTotal⟩
        have hSum : total + entry.2.imageBytes ≤ maxTotalPackageBytes := by omega
        refine ⟨total + entry.2.imageBytes, ⟨hStorable, hUnloaded, ?_, rfl, hSum⟩, (ih hSum).2 ⟨hItems, by omega, hTotal⟩⟩
        exact fun e he => (hStorable.images.2 e he).2

theorem readDomainName_exact : Exact readDomainName textBytes fun name => validIdentifier name = true ∧ name ≠ "ISD" := by
  intro input name rest
  simp only [readDomainName, bind_ok, identifier_ok, failIf_ok, pure_ok]
  constructor
  · rintro ⟨_, _, ⟨hValid, rfl⟩, _, _, ⟨hName, rfl⟩, rfl, rfl⟩
    exact ⟨⟨hValid, hName⟩, rfl⟩
  · rintro ⟨⟨hValid, hName⟩, rfl⟩
    exact ⟨_, _, ⟨hValid, rfl⟩, (), _, ⟨hName, rfl⟩, rfl, rfl⟩

theorem readSnapshotVersion_ok {input rest : List Byte} {u : Unit} :
    readSnapshotVersion input = .ok u rest ↔ input = unsignedBytes 2 ++ (unsignedBytes 0 ++ rest) := by
  simp only [readSnapshotVersion, bind_ok, unsigned_ok, failIf_ok, not_not]
  constructor
  · rintro ⟨_, _, ⟨-, rfl⟩, _, _, ⟨rfl, rfl⟩, _, _, ⟨-, rfl⟩, rfl, rfl⟩
    rfl
  · rintro rfl
    exact ⟨2, _, ⟨by decide, rfl⟩, (), _, ⟨rfl, rfl⟩, 0, _, ⟨by decide, rfl⟩, rfl, rfl⟩

/-- No package is loaded. -/
def State.Unloaded (state : State) : Prop :=
  state.isd.packages = KeyedList.empty ∧ ∀ e ∈ state.domains.entries, e.2.packages = KeyedList.empty

theorem readState_ok {state : State} {input rest : List Byte} :
    readState input = .ok state rest ↔ (state.Storable ∧ state.Unloaded) ∧ input = stateBytes state ∧ rest = [] := by
  have hDomains : ∀ {domains : NameMap Domain} {total total' : Nat} {input rest : List Byte},
      readMap (fun name => name) maxSsds 2 readDomainName readDomain total input = .ok (domains, total') rest ↔ _ :=
    readMap_ok (show maxSsds < 2 ^ 64 by decide) (show 2 < 2 ^ 64 by decide) readDomainName_exact readDomain_exact
  have hIsd := fun total input domain total' rest => readDomain_exact "ISD" total input domain total' rest
  simp only [readState, stateBytes, headerBytes, bind_ok, record_ok 5 (by decide), readSnapshotVersion_ok, u32_ok, finish_ok,
    pure_ok, List.append_assoc]
  constructor
  · rintro ⟨_, _, rfl, _, _, rfl, sequence, _, rfl, ⟨isd, middle⟩, _, hFirst, ⟨domains, total⟩, _, hRest, _, _, ⟨rfl, rfl⟩, rfl, rfl⟩
    obtain ⟨⟨hStorable, hUnloaded, hTotals⟩, rfl⟩ := (hIsd _ _ _ _ _).1 hFirst
    obtain ⟨hCount, hNames, hSteps, rfl⟩ := hDomains.1 hRest
    rw [totals_sum (fun (_ : String) => StorableImage) (fun d : Descriptor => d.length.toNat)
      (Nat.zero_le _)] at hTotals
    obtain ⟨-, rfl, hMiddle⟩ := hTotals
    obtain ⟨hEach, rfl, hTotal⟩ := (totals_domains rfl hMiddle).1 hSteps
    refine ⟨⟨⟨hStorable, hCount, fun e he => ⟨hNames e he, (hEach e he).1⟩, ?_⟩, hUnloaded, fun e he => (hEach e he).2⟩, ?_, rfl⟩
    · simpa only [Domain.imageBytes, KeyedList.weight, Nat.zero_add] using hTotal
    · simp [namesBytes]
  · rintro ⟨⟨h, hUnloaded⟩, rfl, rfl⟩
    have hImages := h.images
    have hFirst : state.isd.imageBytes ≤ maxTotalPackageBytes := by omega
    refine ⟨(), _, rfl, (), _, rfl, state.scp03Sequence, _, rfl, (state.isd, state.isd.imageBytes), _,
      (hIsd _ _ _ _ _).2 ⟨⟨h.isd, hUnloaded.1, ?_⟩, rfl⟩,
      (state.domains, state.isd.imageBytes + state.domains.weight fun e => e.2.imageBytes), [], hDomains.2 ⟨h.count,
      fun e he => (h.domains e he).1, ?_, ?_⟩, (), _, ⟨rfl, rfl⟩, rfl, rfl⟩
    · rw [totals_sum (fun (_ : String) => StorableImage) (fun d : Descriptor => d.length.toNat) (Nat.zero_le _)]
      exact ⟨fun e he => (h.isd.images.2 e he).2, (Nat.zero_add _).symm, hFirst⟩
    · exact (totals_domains rfl hFirst).2 ⟨fun e he => ⟨(h.domains e he).2, hUnloaded.2 e he⟩, rfl, hImages⟩
    · simp [namesBytes]

end Readers

section Writers

theorem writeList_appends {α : Type} {write : α → EncoderM Unit} {output : α → List Byte} (h : ∀ a, Appends (write a) (output a))
    (items : List α) : Appends (writeList write items) (listBytes output items) :=
  Appends.bind (Appends.array _) (Appends.forM _ fun a _ => h a)

theorem writeNames_appends {α : Type} {write : α → EncoderM Unit} {output : α → List Byte} {values : NameMap α}
    (h : ∀ e ∈ values.entries, Appends (write e.2) (output e.2)) : Appends (writeNames write values) (namesBytes output values) := by
  apply writeMap_appends
  intro e he
  rw [entryBytes, List.append_assoc]
  exact Appends.bind (Appends.array _) (Appends.bind (Appends.text _) (h e he))

theorem writePolicy_appends (policy : DomainPolicy) : Appends (writePolicy policy) (policyBytes policy) := by
  have hNumbers := Appends.forM [policy.maxAssemblies.toNat, policy.maxInstances.toNat, policy.maxIntRecords.toNat,
    policy.maxBlobRecords.toNat, policy.maxBlobBytes.toNat, policy.maxKeySlots.toNat, policy.maxPackageBytes.toNat]
    fun value _ => Appends.unsigned value
  simp only [List.flatMap_cons, List.flatMap_nil, List.append_nil] at hNumbers
  simp only [policyBytes, List.append_assoc]
  exact Appends.bind (Appends.array _) (Appends.bind (Appends.byteString _) hNumbers)

theorem writeTarget_appends (target : CallTarget) : Appends (writeTarget target) (targetBytes target) := by
  cases target with
  | native id =>
      rw [targetBytes, List.append_assoc]
      exact Appends.bind (Appends.array _) (Appends.bind (Appends.unsigned _) (Appends.unsigned _))
  | managed dependency method =>
      simp only [targetBytes, List.append_assoc]
      exact Appends.bind (Appends.array _) (Appends.bind (Appends.unsigned _) (Appends.bind (Appends.unsigned _)
        (Appends.unsigned _)))
  | _ => exact Appends.bind (Appends.array _) (Appends.unsigned _)

theorem writeDigest_appends (digest : Fixed 32) : Appends (Encoder.byteString digest.1) (stringBytes digest.1) :=
  Appends.byteString digest.1

theorem writeDependency_appends (value : ResolvedDependency) :
    Appends (Encoder.byteString value.digest.1) (dependencyBytes value) :=
  Appends.byteString value.digest.1

theorem writeCall_appends (call : ResolvedCall) : Appends (writeCall call) (callBytes call) := by
  rw [callBytes, List.append_assoc]
  exact Appends.bind (Appends.array _) (Appends.bind (Appends.unsigned _) (writeTarget_appends _))

theorem writeDescriptor_appends (descriptor : Descriptor) : Appends (writeDescriptor descriptor) (descriptorBytes descriptor) := by
  simp only [descriptorBytes, List.append_assoc]
  exact Appends.bind (Appends.array _) (Appends.bind (Appends.unsigned _) (Appends.bind (Appends.unsigned _)
    (Appends.byteString _)))

theorem writeVersion_appends (version : UInt32 × Fixed 32) : Appends (writeVersion version) (versionBytes version) := by
  rw [versionBytes, List.append_assoc]
  exact Appends.bind (Appends.array _) (Appends.bind (Appends.unsigned _) (Appends.byteString _))

theorem writeDeclaration_appends (entry : StorageDeclaration) : Appends (writeDeclaration entry) (declarationBytes entry) := by
  simp only [declarationBytes, List.append_assoc]
  exact Appends.bind (Appends.array _) (Appends.bind (Appends.unsigned _) (Appends.bind (Appends.unsigned _) (Appends.unsigned _)))

theorem writeInstance_appends {e : String × String} (h : CanonicalAid e.1) :
    Appends (writeInstance e) (entryBytes 2 aidTextBytes textBytes e) := by
  obtain ⟨raw, hLong, hLength, hText⟩ := h
  have hDecode : decodeAid e.1 = .ok raw := by rw [hText, decodeAid_encodeAid ⟨hLong, hLength⟩]
  have hRead : writeInstance e = (readOnly (decodeAid e.1) : EncoderM (List Byte)) >>= fun _ => _ := rfl
  have hPure : (readOnly (.ok raw) : EncoderM (List Byte)) = pure raw := rfl
  rw [hRead, hDecode, hPure, pure_bind, entryBytes, aidTextBytes, aidOf, hDecode, List.append_assoc]
  exact Appends.bind (Appends.array _) (Appends.bind (Appends.byteString _) (Appends.text _))

theorem writeInteger_appends (e : Int32 × Int32) : Appends (writeInteger e) (entryBytes 2 signedBytes signedBytes e) := by
  rw [entryBytes, List.append_assoc]
  exact Appends.bind (Appends.array _) (Appends.bind (Appends.integer _) (Appends.integer _))

theorem writeBlob_appends (e : Int32 × List Byte) : Appends (writeBlob e) (entryBytes 2 signedBytes stringBytes e) := by
  rw [entryBytes, List.append_assoc]
  exact Appends.bind (Appends.array _) (Appends.bind (Appends.integer _) (Appends.byteString _))

/-- Only malformed instances and credentials could be refused, and a storable domain has
none. -/
theorem writeDomain_appends {domain : Domain} (h : domain.Storable) : Appends (writeDomain domain) (domainBytes domain) := by
  simp only [domainBytes, List.append_assoc]
  apply Appends.bind (Appends.array _)
  apply Appends.bind (Appends.byteString _)
  apply Appends.bind (Appends.byteString _)
  apply Appends.bind (Appends.optional writeDigest_appends _)
  apply Appends.bind (writePolicy_appends _)
  apply Appends.bind (writeNames_appends fun e _ => writeDescriptor_appends e.2)
  apply Appends.bind (writeNames_appends fun e _ => writeList_appends writeDependency_appends e.2)
  apply Appends.bind (writeNames_appends fun e _ => writeList_appends writeCall_appends e.2)
  apply Appends.bind (writeNames_appends fun e _ => writeVersion_appends e.2)
  apply Appends.bind (writeList_appends writeDeclaration_appends _)
  apply Appends.bind (writeMap_appends fun e he => writeInstance_appends (h.modules e he).1)
  apply Appends.bind (writeMap_appends fun e _ => writeInteger_appends e)
  apply Appends.bind (writeMap_appends fun e _ => writeBlob_appends e)
  exact Appends.bind (KeyStore.encodeState_appends _) (CredentialStore.encodeState_appends h.credentials)

theorem writeState_appends {state : State} (h : state.Storable) : Appends (writeState state) (stateBytes state) := by
  simp only [stateBytes, headerBytes, List.append_assoc]
  exact Appends.bind (Appends.array _) (Appends.bind (Appends.unsigned _) (Appends.bind (Appends.unsigned _)
    (Appends.bind (Appends.unsigned _) (Appends.bind (writeDomain_appends h.isd)
    (writeNames_appends fun e he => writeDomain_appends (h.domains e he).2)))))

end Writers

section Unloading

theorem mapValues_entries {α β : Type} (f : α → β) (values : NameMap α) :
    (mapValues f values).entries = values.entries.map fun e => (e.1, f e.2) := rfl

theorem Domain.Storable.unloaded {domain : Domain} (h : domain.Storable) : domain.unloaded.Storable :=
  ⟨h.policy, h.images, h.bindings, h.imports, h.versions, h.schema, h.declarations, h.instances, h.modules, h.integers, h.blobs,
    h.blob, h.held, h.keys, h.credentials, h.active⟩

theorem State.Storable.unloaded {state : State} (h : state.Storable) : state.unloaded.Storable := by
  refine ⟨h.isd.unloaded, ?_, ?_, ?_⟩
  · simpa [State.unloaded, KeyedList.length, mapValues_entries] using h.count
  · intro e he
    obtain ⟨original, hOriginal, rfl⟩ := List.mem_map.1 he
    exact ⟨(h.domains original hOriginal).1, (h.domains original hOriginal).2.unloaded⟩
  · have hImages := h.images
    simp only [State.unloaded, KeyedList.weight, mapValues_entries, List.map_map]
    exact hImages

theorem State.unloaded_unloaded (state : State) : state.unloaded.Unloaded := by
  refine ⟨rfl, fun e he => ?_⟩
  obtain ⟨original, -, rfl⟩ := List.mem_map.1 he
  rfl

/-- The written form leaves packages out. -/
theorem stateBytes_unloaded (state : State) : stateBytes state.unloaded = stateBytes state := by
  simp only [stateBytes, State.unloaded, namesBytes, mapBytes, KeyedList.length, mapValues_entries, List.length_map,
    List.flatMap_map]
  rfl

end Unloading

section RoundTrip

variable {state : State}

/-- Decoding accepts exactly the written forms of storable states. -/
theorem State.decodeSnapshot_ok {input : List Byte} : State.decodeSnapshot input = .ok state ↔
    (state.Storable ∧ state.Unloaded) ∧ input = stateBytes state ∧ input.length ≤ maxSnapshotBytes := by
  simp only [State.decodeSnapshot, Checks.bind_ok, Checks.failIf_ok, not_lt, not_not]
  constructor
  · rintro ⟨_, hLength, _, -, hRun⟩
    split at hRun
    · rename_i decoded rest hRead
      cases hRun
      obtain ⟨hState, rfl, -⟩ := readState_ok.1 hRead
      exact ⟨hState, rfl, hLength⟩
    · cases hRun
  · rintro ⟨hState, rfl, hLength⟩
    refine ⟨(), hLength, (), ?_, ?_⟩
    · rw [stateBytes, headerBytes]
      rfl
    · rw [readState_ok.2 ⟨hState, rfl, rfl⟩]
      rfl

/-- A storable state is encoded in its written form, unless that is too long. -/
theorem State.Storable.encodeSnapshot (h : state.Storable) : state.encodeSnapshot =
    if (stateBytes state).length ≤ maxSnapshotBytes then .ok (stateBytes state) else .error .quota := by
  have hRun := writeState_appends h ⟨[], maxSnapshotBytes⟩ (Nat.zero_le _)
  unfold State.encodeSnapshot
  cases hWrite : writeState state ⟨[], maxSnapshotBytes⟩ with
  | ok u encoder =>
      rw [hWrite] at hRun
      obtain ⟨rfl, hFits⟩ := hRun
      simp only [List.nil_append] at hFits ⊢
      rw [if_pos hFits]
  | error e encoder =>
      rw [hWrite] at hRun
      obtain ⟨rfl, hFull⟩ := hRun
      simp only [List.length_nil] at hFull ⊢
      rw [if_neg (by omega)]

/-- What was encoded is decoded again, without the packages. -/
theorem State.Storable.decode_encode {output : List Byte} (h : state.Storable) (hEncode : state.encodeSnapshot = .ok output) :
    State.decodeSnapshot output = .ok state.unloaded := by
  rw [h.encodeSnapshot] at hEncode
  split at hEncode
  · rename_i hFits
    cases hEncode
    exact State.decodeSnapshot_ok.2 ⟨⟨h.unloaded, state.unloaded_unloaded⟩, (stateBytes_unloaded state).symm, hFits⟩
  · cases hEncode

/-- Whatever is accepted is what encoding writes. -/
theorem State.encode_decode {input : List Byte} (h : State.decodeSnapshot input = .ok state) : state.encodeSnapshot = .ok input := by
  obtain ⟨⟨hStorable, -⟩, rfl, hFits⟩ := State.decodeSnapshot_ok.1 h
  rw [hStorable.encodeSnapshot, if_pos hFits]

end RoundTrip

end MicroCard.Mc04
