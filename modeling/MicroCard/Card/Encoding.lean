import MicroCard.Card.Registry
import MicroCard.Library.Checks

/-! The snapshot encoding of the registry. Decoding accepts exactly the encodings of
valid registries, and every valid registry fits the snapshot limit. -/
namespace MicroCard.Card

open Bytes CrashTriple Cbor Codec

section Fields

def domainBytes (domain : Domain) : List Byte :=
  arrayBytes 2 ++ stringBytes domain.aid.bytes ++ stringBytes domain.incarnation.1

def imageBytes (image : Descriptor) : List Byte :=
  arrayBytes 3 ++ unsignedBytes image.slot.toNat ++ unsignedBytes image.length.toNat ++ stringBytes image.digest.1

def loadBytes (load : Load) : List Byte :=
  arrayBytes 4 ++ stringBytes load.domain.bytes ++ stringBytes load.aid.bytes ++ unsignedBytes load.version.toNat ++
    optionalBytes imageBytes load.image

def instanceBytes (instance' : Instance) : List Byte :=
  arrayBytes 6 ++ stringBytes instance'.domain.bytes ++ stringBytes instance'.load.bytes ++
    stringBytes instance'.module.bytes ++ stringBytes instance'.aid.bytes ++ stringBytes instance'.identity.1 ++
    unsignedBytes instance'.heapBank.toNat

def renewalBytes (renewal : Renewal) : List Byte :=
  arrayBytes 7 ++ stringBytes renewal.aid.bytes ++ unsignedBytes renewal.bank.toNat ++
    stringBytes renewal.oldIdentity.1 ++ stringBytes renewal.newIdentity.1 ++ stringBytes renewal.packageDigest.1 ++
    unsignedBytes renewal.recordLength.toNat ++ stringBytes renewal.recordDigest.1

def tableBytes {α : Type} {n : Nat} (write : α → List Byte) (table : SlotTable α n) : List Byte :=
  arrayBytes n ++ table.slots.flatMap (optionalBytes write)

def versionBytes : List Byte := arrayBytes 7 ++ unsignedBytes 2 ++ unsignedBytes 2

def registryBytes (registry : Registry) : List Byte :=
  versionBytes ++ unsignedBytes registry.sequence.toNat ++ tableBytes domainBytes registry.domains ++
    tableBytes loadBytes registry.loads ++ tableBytes instanceBytes registry.instances ++
    optionalBytes renewalBytes registry.renewal

end Fields

section Reading

theorem decodeAid_ok {aid : Aid} {input rest : List Byte} :
    decodeAid input = .ok aid rest ↔ input = stringBytes aid.bytes ++ rest := by
  simp only [decodeAid, bind_ok, bytes_ok 16 (by decide)]
  constructor
  · rintro ⟨value, _, ⟨-, rfl⟩, hRun⟩
    unfold Aid.new at hRun
    split at hRun
    · cases hRun
      rfl
    · cases hRun
  · rintro rfl
    refine ⟨_, _, ⟨aid.sized.2, rfl⟩, ?_⟩
    rw [Aid.new, dif_pos aid.sized]
    rfl

theorem fixed16_ok {value : Fixed 16} {input rest : List Byte} :
    fixed 16 input = .ok value rest ↔ input = stringBytes value.1 ++ rest := fixed_ok 16 (by decide)

theorem fixed32_ok {value : Fixed 32} {input rest : List Byte} :
    fixed 32 input = .ok value rest ↔ input = stringBytes value.1 ++ rest := fixed_ok 32 (by decide)

theorem decodeDomain_exact : Exact decodeDomain domainBytes fun _ => True := by
  intro input domain rest
  simp only [decodeDomain, domainBytes, bind_ok, record_ok 2 (by decide), decodeAid_ok, fixed16_ok, pure_ok, true_and,
    List.append_assoc]
  constructor
  · rintro ⟨_, _, rfl, _, _, rfl, _, _, rfl, rfl, rfl⟩
    rfl
  · rintro rfl
    exact ⟨(), _, rfl, _, _, rfl, _, _, rfl, rfl, rfl⟩

theorem decodeImage_exact : Exact decodeImage imageBytes fun _ => True := by
  intro input image rest
  simp only [decodeImage, imageBytes, bind_ok, record_ok 3 (by decide), u8_ok, u32_ok, fixed32_ok, pure_ok, true_and,
    List.append_assoc]
  constructor
  · rintro ⟨_, _, rfl, _, _, rfl, _, _, rfl, _, _, rfl, rfl, rfl⟩
    rfl
  · rintro rfl
    exact ⟨(), _, rfl, _, _, rfl, _, _, rfl, _, _, rfl, rfl, rfl⟩

theorem decodeOptionalImage_exact : Exact (optional decodeImage) (optionalBytes imageBytes) fun _ => True := by
  intro input image rest
  rw [optional_exact decodeImage_exact (fun image => ?_) input image rest]
  · simp
  · simp only [imageBytes, List.append_assoc]
    exact arrayBytes_first (by decide) _

theorem decodeLoad_exact : Exact decodeLoad loadBytes fun _ => True := by
  intro input load rest
  simp only [decodeLoad, loadBytes, bind_ok, record_ok 4 (by decide), decodeAid_ok, u32_ok,
    decodeOptionalImage_exact _ _ _, pure_ok, true_and, List.append_assoc]
  constructor
  · rintro ⟨_, _, rfl, _, _, rfl, _, _, rfl, _, _, rfl, _, _, rfl, rfl, rfl⟩
    rfl
  · rintro rfl
    exact ⟨(), _, rfl, _, _, rfl, _, _, rfl, _, _, rfl, _, _, rfl, rfl, rfl⟩

theorem decodeInstance_exact : Exact decodeInstance instanceBytes fun _ => True := by
  intro input instance' rest
  simp only [decodeInstance, instanceBytes, bind_ok, record_ok 6 (by decide), decodeAid_ok, u8_ok, fixed16_ok, pure_ok,
    true_and, List.append_assoc]
  constructor
  · rintro ⟨_, _, rfl, _, _, rfl, _, _, rfl, _, _, rfl, _, _, rfl, _, _, rfl, _, _, rfl, rfl, rfl⟩
    rfl
  · rintro rfl
    exact ⟨(), _, rfl, _, _, rfl, _, _, rfl, _, _, rfl, _, _, rfl, _, _, rfl, _, _, rfl, rfl, rfl⟩

theorem decodeRenewal_exact : Exact decodeRenewal renewalBytes fun _ => True := by
  intro input renewal rest
  simp only [decodeRenewal, renewalBytes, bind_ok, record_ok 7 (by decide), decodeAid_ok, u8_ok, u32_ok, fixed16_ok,
    fixed32_ok, pure_ok, true_and, List.append_assoc]
  constructor
  · rintro ⟨_, _, rfl, _, _, rfl, _, _, rfl, _, _, rfl, _, _, rfl, _, _, rfl, _, _, rfl, _, _, rfl, rfl, rfl⟩
    rfl
  · rintro rfl
    exact ⟨(), _, rfl, _, _, rfl, _, _, rfl, _, _, rfl, _, _, rfl, _, _, rfl, _, _, rfl, _, _, rfl, rfl, rfl⟩

theorem decodeTable_exact {α : Type} {count : Nat} (hCount : count < 24) {read : Decoder α} {write : α → List Byte}
    (h : Exact read write fun _ => True) (hFirst : ∀ a, ∃ b rest, write a = b :: rest ∧ b ≠ 0xf6) :
    Exact (decodeTable count read) (tableBytes write) fun _ => True := by
  intro input table rest
  simp only [decodeTable, tableBytes, bind_ok, record_ok count (by omega),
    (optional_exact h hFirst).times count _ _ _, true_and, List.append_assoc]
  constructor
  · rintro ⟨_, _, rfl, slots, _, ⟨⟨hLength, -⟩, rfl⟩, hRun⟩
    rw [dif_pos hLength] at hRun
    obtain ⟨rfl, rfl⟩ := pure_ok.1 hRun
    rfl
  · rintro rfl
    refine ⟨(), _, rfl, table.slots, rest, ⟨⟨table.length_slots, ?_⟩, rfl⟩, ?_⟩
    · exact fun _ _ _ _ => trivial
    · rw [dif_pos table.length_slots]
      exact pure_ok.2 ⟨rfl, rfl⟩

theorem decodeVersion_ok {input rest : List Byte} {u : Unit} :
    decodeVersion input = .ok u rest ↔ input = versionBytes ++ rest := by
  simp only [decodeVersion, versionBytes, bind_ok, failAs_ok, record_ok 7 (by decide), unsigned_ok, failIf_ok, not_not,
    List.append_assoc]
  constructor
  · rintro ⟨_, _, rfl, _, _, ⟨-, rfl⟩, _, _, ⟨rfl, rfl⟩, _, _, ⟨-, rfl⟩, rfl, rfl⟩
    rfl
  · rintro rfl
    exact ⟨(), _, rfl, 2, _, ⟨by decide, rfl⟩, (), _, ⟨rfl, rfl⟩, 2, _, ⟨by decide, rfl⟩, rfl, rfl⟩

theorem decodeDomains_exact : Exact (decodeTable maxDomains decodeDomain) (tableBytes domainBytes) fun _ => True := by
  apply decodeTable_exact (by decide) decodeDomain_exact
  intro domain
  simp only [domainBytes, List.append_assoc]
  exact arrayBytes_first (by decide) _

theorem decodeLoads_exact : Exact (decodeTable maxPackages decodeLoad) (tableBytes loadBytes) fun _ => True := by
  apply decodeTable_exact (by decide) decodeLoad_exact
  intro load
  simp only [loadBytes, List.append_assoc]
  exact arrayBytes_first (by decide) _

theorem decodeInstances_exact :
    Exact (decodeTable maxInstances decodeInstance) (tableBytes instanceBytes) fun _ => True := by
  apply decodeTable_exact (by decide) decodeInstance_exact
  intro instance'
  simp only [instanceBytes, List.append_assoc]
  exact arrayBytes_first (by decide) _

theorem decodeOptionalRenewal_exact : Exact (optional decodeRenewal) (optionalBytes renewalBytes) fun _ => True := by
  intro input renewal rest
  rw [optional_exact decodeRenewal_exact (fun renewal => ?_) input renewal rest]
  · simp
  · simp only [renewalBytes, List.append_assoc]
    exact arrayBytes_first (by decide) _

/-- The fields of a snapshot are read exactly as they are written. -/
theorem decodeFields_ok {registry : Registry} {input rest : List Byte} :
    decodeFields input = .ok registry rest ↔ input = registryBytes registry ∧ rest = [] := by
  simp only [decodeFields, registryBytes, bind_ok, decodeVersion_ok, u32_ok, decodeDomains_exact _ _ _,
    decodeLoads_exact _ _ _, decodeInstances_exact _ _ _, decodeOptionalRenewal_exact _ _ _, finish_ok, pure_ok,
    true_and, List.append_assoc]
  constructor
  · rintro ⟨_, _, rfl, _, _, rfl, _, _, rfl, _, _, rfl, _, _, rfl, _, _, rfl, _, _, ⟨rfl, rfl⟩, rfl, rfl⟩
    simp
  · rintro ⟨rfl, rfl⟩
    exact ⟨(), _, rfl, _, _, rfl, _, _, rfl, _, _, rfl, _, _, rfl, _, [], by simp, (), _, ⟨rfl, rfl⟩, rfl, rfl⟩

end Reading

section Writing

theorem encodeDomain_writes (domain : Domain) : Writes (encodeDomain domain) (domainBytes domain) := by
  unfold domainBytes
  rw [List.append_assoc]
  exact (Writes.array _).bind ((Writes.byteString _).bind (Writes.byteString _))

theorem encodeImage_writes (image : Descriptor) : Writes (encodeImage image) (imageBytes image) := by
  simp only [imageBytes, List.append_assoc]
  exact (Writes.array _).bind ((Writes.unsigned _).bind ((Writes.unsigned _).bind (Writes.byteString _)))

theorem encodeLoad_writes (load : Load) : Writes (encodeLoad load) (loadBytes load) := by
  simp only [loadBytes, List.append_assoc]
  exact (Writes.array _).bind ((Writes.byteString _).bind ((Writes.byteString _).bind ((Writes.unsigned _).bind
    (Writes.optional encodeImage_writes _))))

theorem encodeInstance_writes (instance' : Instance) :
    Writes (encodeInstance instance') (instanceBytes instance') := by
  simp only [instanceBytes, List.append_assoc]
  exact (Writes.array _).bind ((Writes.byteString _).bind ((Writes.byteString _).bind ((Writes.byteString _).bind
    ((Writes.byteString _).bind ((Writes.byteString _).bind (Writes.unsigned _))))))

theorem encodeRenewal_writes (renewal : Renewal) : Writes (encodeRenewal renewal) (renewalBytes renewal) := by
  simp only [renewalBytes, List.append_assoc]
  exact (Writes.array _).bind ((Writes.byteString _).bind ((Writes.unsigned _).bind ((Writes.byteString _).bind
    ((Writes.byteString _).bind ((Writes.byteString _).bind ((Writes.unsigned _).bind (Writes.byteString _)))))))

theorem encodeFields_writes (registry : Registry) : Writes (encodeFields registry) (registryBytes registry) := by
  simp only [registryBytes, versionBytes, tableBytes, List.append_assoc]
  exact (Writes.array _).bind ((Writes.unsigned _).bind ((Writes.unsigned _).bind ((Writes.unsigned _).bind
    ((Writes.array _).bind ((Writes.forM (Writes.optional encodeDomain_writes) _).bind
    ((Writes.array _).bind ((Writes.forM (Writes.optional encodeLoad_writes) _).bind
    ((Writes.array _).bind ((Writes.forM (Writes.optional encodeInstance_writes) _).bind
    (Writes.optional encodeRenewal_writes _))))))))))

end Writing

section Size

theorem length_aidBytes (aid : Aid) : (stringBytes aid.bytes).length ≤ 18 := by
  have hSized := aid.sized.2
  have := length_stringBytes (show aid.bytes.length < 256 by omega)
  omega

theorem length_fixed16 (value : Fixed 16) : (stringBytes value.1).length ≤ 18 := by
  have hLength := value.2
  have := length_stringBytes (show value.1.length < 256 by omega)
  omega

theorem length_fixed32 (value : Fixed 32) : (stringBytes value.1).length ≤ 34 := by
  have hLength := value.2
  have := length_stringBytes (show value.1.length < 256 by omega)
  omega

theorem length_domainBytes (domain : Domain) : (domainBytes domain).length ≤ 37 := by
  have hArray : (arrayBytes 2).length = 1 := length_arrayBytes (by decide)
  have hAid := length_aidBytes domain.aid
  have hIncarnation := length_fixed16 domain.incarnation
  simp only [domainBytes, List.length_append]
  omega

theorem length_imageBytes (image : Descriptor) : (imageBytes image).length ≤ 42 := by
  have hArray : (arrayBytes 3).length = 1 := length_arrayBytes (by decide)
  have hSlot := length_u8 image.slot
  have hLength := length_u32 image.length
  have hDigest := length_fixed32 image.digest
  simp only [imageBytes, List.length_append]
  omega

theorem length_loadBytes (load : Load) : (loadBytes load).length ≤ 84 := by
  have hArray : (arrayBytes 4).length = 1 := length_arrayBytes (by decide)
  have hDomain := length_aidBytes load.domain
  have hAid := length_aidBytes load.aid
  have hVersion := length_u32 load.version
  have hImage := length_optionalBytes length_imageBytes (by decide) load.image
  simp only [loadBytes, List.length_append]
  omega

theorem length_instanceBytes (instance' : Instance) : (instanceBytes instance').length ≤ 93 := by
  have hArray : (arrayBytes 6).length = 1 := length_arrayBytes (by decide)
  have hDomain := length_aidBytes instance'.domain
  have hLoad := length_aidBytes instance'.load
  have hModule := length_aidBytes instance'.module
  have hAid := length_aidBytes instance'.aid
  have hIdentity := length_fixed16 instance'.identity
  have hBank := length_u8 instance'.heapBank
  simp only [instanceBytes, List.length_append]
  omega

theorem length_renewalBytes (renewal : Renewal) : (renewalBytes renewal).length ≤ 130 := by
  have hArray : (arrayBytes 7).length = 1 := length_arrayBytes (by decide)
  have hAid := length_aidBytes renewal.aid
  have hBank := length_u8 renewal.bank
  have hOld := length_fixed16 renewal.oldIdentity
  have hNew := length_fixed16 renewal.newIdentity
  have hPackage := length_fixed32 renewal.packageDigest
  have hLength := length_u32 renewal.recordLength
  have hRecord := length_fixed32 renewal.recordDigest
  simp only [renewalBytes, List.length_append]
  omega

theorem length_tableBytes {α : Type} {n bound : Nat} {write : α → List Byte} (h : ∀ a, (write a).length ≤ bound)
    (hBound : 1 ≤ bound) (hCount : n < 24) (table : SlotTable α n) :
    (tableBytes write table).length ≤ 1 + n * bound := by
  have hSlots : ∀ slots : List (Option α), (slots.flatMap (optionalBytes write)).length ≤ slots.length * bound := by
    intro slots
    induction slots with
    | nil => simp
    | cons slot rest ih =>
        have hSlot := length_optionalBytes h hBound slot
        rw [List.flatMap_cons, List.length_append, List.length_cons, Nat.succ_mul]
        omega
  have := hSlots table.slots
  rw [table.length_slots] at this
  rw [tableBytes, List.length_append, length_arrayBytes hCount]
  omega

/-- Full tables with the longest entries stay within the snapshot limit. -/
theorem length_registryBytes (registry : Registry) : (registryBytes registry).length ≤ maxSnapshotBytes := by
  have hVersion : versionBytes.length = 3 := by decide
  have hSequence := length_u32 registry.sequence
  have hDomains : (tableBytes domainBytes registry.domains).length ≤ 1 + 4 * 37 :=
    length_tableBytes length_domainBytes (by decide) (by decide) registry.domains
  have hLoads : (tableBytes loadBytes registry.loads).length ≤ 1 + 8 * 84 :=
    length_tableBytes length_loadBytes (by decide) (by decide) registry.loads
  have hInstances : (tableBytes instanceBytes registry.instances).length ≤ 1 + 8 * 93 :=
    length_tableBytes length_instanceBytes (by decide) (by decide) registry.instances
  have hRenewal := length_optionalBytes length_renewalBytes (by decide) registry.renewal
  simp only [registryBytes, List.length_append, maxSnapshotBytes]
  omega

end Size

/-- Encoding succeeds exactly on valid registries, with their written form. -/
theorem encode_ok {registry : Registry} {output : List Byte} :
    registry.encode = .ok output ↔ registry.validate = .ok () ∧ output = registryBytes registry := by
  have hWrites := encodeFields_writes registry ⟨[], maxSnapshotBytes⟩ (by simpa using length_registryBytes registry)
  simp only [Registry.encode, Checks.bind_ok, hWrites, Checks.pure_ok, List.nil_append]
  constructor
  · rintro ⟨_, hValid, rfl⟩
    exact ⟨hValid, rfl⟩
  · rintro ⟨hValid, rfl⟩
    exact ⟨(), hValid, rfl⟩

/-- Decoding accepts exactly the written forms of valid registries. -/
theorem decode_ok {registry : Registry} {input : List Byte} :
    Registry.decode input = .ok registry ↔ registry.validate = .ok () ∧ input = registryBytes registry := by
  simp only [Registry.decode, Checks.bind_ok, Checks.failIf_ok, not_lt]
  constructor
  · rintro ⟨_, -, hRun⟩
    split at hRun
    · rename_i state rest hFields
      simp only [Checks.bind_ok, Checks.pure_ok] at hRun
      obtain ⟨_, hValid, rfl⟩ := hRun
      exact ⟨hValid, (decodeFields_ok.1 hFields).1⟩
    · cases hRun
  · rintro ⟨hValid, rfl⟩
    refine ⟨(), length_registryBytes registry, ?_⟩
    rw [decodeFields_ok.2 ⟨rfl, rfl⟩]
    simp only [Checks.bind_ok, Checks.pure_ok]
    exact ⟨(), hValid, trivial⟩

end MicroCard.Card
