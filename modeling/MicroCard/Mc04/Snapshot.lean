import MicroCard.Mc04.State
import MicroCard.Card.Encoding

/-! The metadata snapshot of the engine. Packages live in separate image slots, so a
decoded domain has none loaded. -/
namespace MicroCard.Mc04

open Bytes CrashTriple Cbor Codec
open Card (Aid Descriptor)

def maxSnapshotBytes : Nat := 48 * 1024

/-- `MAX_MEMBERREF_ROWS`. -/
def maxMemberRefRows : Nat := 256

section Reading

/-- A list of at most `maximum` values. -/
def readList {α : Type} (maximum : Nat) (read : Decoder α) : Decoder (List α) := do
  let count ← array maximum
  times read count

def readPolicy : Decoder DomainPolicy := do
  record 8
  let capabilities ← bytes 46
  let maxAssemblies ← u8
  let maxInstances ← u8
  let maxIntRecords ← u16
  let maxBlobRecords ← u8
  let maxBlobBytes ← u16
  let maxKeySlots ← u8
  let maxPackageBytes ← u16
  let policy : DomainPolicy := ⟨capabilities, maxAssemblies, maxInstances, maxIntRecords, maxBlobRecords, maxBlobBytes,
    maxKeySlots, maxPackageBytes⟩
  failIf (policy.valid = false) .format
  pure policy

/-- The target behind its kind and the length of its record. -/
def readTarget (kind fields : Nat) : Decoder CallTarget :=
  if kind = 0 ∧ fields = 1 then pure .objectConstructor
  else if kind = 1 ∧ fields = 1 then pure .currentDomain
  else if kind = 2 ∧ fields = 1 then pure .domainStorage
  else if kind = 3 ∧ fields = 1 then pure .domainKeys
  else if kind = 4 ∧ fields = 2 then do
    let id ← u8
    pure (.native id)
  else if kind = 5 ∧ fields = 3 then do
    let dependency ← u8
    let method ← u16
    pure (.managed dependency method)
  else throw .format

def readCall : Decoder ResolvedCall := do
  record 2
  let member ← u16
  let fields ← array 3
  let kind ← unsigned
  let target ← readTarget kind fields
  pure ⟨member, target⟩

/-- An image, counted against what all domains may hold together. -/
def readDescriptor (_ : String) (packageTotal : Nat) : Decoder (Descriptor × Nat) := do
  record 3
  let slot ← u8
  let length ← u32
  let digest ← fixed 32
  failIf (64 ≤ slot.toNat ∨ length.toNat = 0 ∨ maxPackageBytes < length.toNat) .format
  failIf (maxTotalPackageBytes < packageTotal + length.toNat) .quota
  pure (⟨slot, length, digest⟩, packageTotal + length.toNat)

def readDependency : Decoder ResolvedDependency := do
  let digest ← fixed 32
  pure ⟨digest⟩

def readVersion : Decoder (UInt32 × Fixed 32) := do
  record 2
  let version ← u32
  let digest ← fixed 32
  pure (version, digest)

def readDeclaration (schema : Schema) : Decoder Schema := do
  record 3
  let key ← i32
  let kind ← u8
  let maxBytes ← u16
  let entry : StorageDeclaration := ⟨key, kind, maxBytes⟩
  failIf (entry.valid = false) .format
  if h : schema.Below entry.key.toInt then pure (schema.snoc entry h) else throw .format

def readDeclarations : Nat → Schema → Decoder Schema
  | 0, schema => pure schema
  | count + 1, schema => do
      let schema ← readDeclaration schema
      readDeclarations count schema

def readSchema : Decoder Schema := do
  let count ← array maxDomainStorageDeclarations
  readDeclarations count KeyedList.empty

/-- An instance identifier, kept as text. -/
def readAidText : Decoder String := do
  let raw ← bytes 16
  let aid := encodeAid raw
  let _ ← readOnly (decodeAid aid)
  pure aid

/-- A blob, counted against what the domain may hold. -/
def readBlob (maxBlobBytes : Nat) (_ : Int32) (total : Nat) : Decoder (List Byte × Nat) := do
  let raw ← bytes maxDeclaredBlobBytes
  failIf (maxBlobBytes < total + raw.length) .quota
  pure (raw, total + raw.length)

def readDomain (_ : String) (packageTotal : Nat) : Decoder (Domain × Nat) := do
  record 14
  let incarnation ← fixed 16
  let aid ← Card.decodeAid
  let key ← optional (fixed 32)
  let policy ← readPolicy
  let images ← readMap (fun name => name) maxAssembliesPerDomain 2 identifier readDescriptor packageTotal
  let bindings ← readPlainMap (fun name => name) maxAssembliesPerDomain 2 identifier fun _ => readList 16 readDependency
  let imports ← readPlainMap (fun name => name) maxAssembliesPerDomain 2 identifier fun _ => readList maxMemberRefRows readCall
  let versions ← readPlainMap (fun name => name) maxAssembliesPerDomain 2 identifier fun _ => readVersion
  let schema ← readSchema
  let instances ← readPlainMap (fun name => name) maxInstancesPerDomain 2 readAidText fun _ => identifier
  let store ← readPlainMap Int32.toInt maxIntRecords 2 signed fun _ => signed
  let blobs ← readMap Int32.toInt maxBlobRecords 2 signed (readBlob policy.maxBlobBytes.toNat) 0
  let keys ← KeyStore.decodeState
  let credentials ← CredentialStore.decodeState incarnation
  let domain : Domain := {
    incarnation := incarnation, registryAid := aid, key := key, packages := KeyedList.empty, imageRefs := images.1
    bindings := bindings, imports := imports, versions := versions, storageSchema := schema, instances := instances
    store := store, blobs := blobs.1, keys := keys, credentials := credentials, policy := policy }
  readOnly domain.internAssemblyNames
  pure (domain, images.2)

/-- The name of a supplementary domain. -/
def readDomainName : Decoder String := do
  let name ← identifier
  failIf (name = "ISD") .format
  pure name

/-- The version of the format. -/
def readSnapshotVersion : Decoder Unit := do
  let major ← unsigned
  failIf (major ≠ 2) .incompatibleState
  let minor ← unsigned
  failIf (minor ≠ 0) .incompatibleState

def readState : Decoder State := do
  record 5
  readSnapshotVersion
  let sequence ← u32
  let isd ← readDomain "ISD" 0
  let domains ← readMap (fun name => name) maxSsds 2 readDomainName readDomain isd.2
  finish
  pure ⟨isd.1, domains.1, sequence⟩

end Reading

section Writing

def writePolicy (policy : DomainPolicy) : EncoderM Unit := do
  Encoder.array 8
  Encoder.byteString policy.capabilities
  [policy.maxAssemblies.toNat, policy.maxInstances.toNat, policy.maxIntRecords.toNat, policy.maxBlobRecords.toNat,
    policy.maxBlobBytes.toNat, policy.maxKeySlots.toNat, policy.maxPackageBytes.toNat].forM Encoder.unsigned

def writeTarget : CallTarget → EncoderM Unit
  | .objectConstructor => do
      Encoder.array 1
      Encoder.unsigned 0
  | .currentDomain => do
      Encoder.array 1
      Encoder.unsigned 1
  | .domainStorage => do
      Encoder.array 1
      Encoder.unsigned 2
  | .domainKeys => do
      Encoder.array 1
      Encoder.unsigned 3
  | .native id => do
      Encoder.array 2
      Encoder.unsigned 4
      Encoder.unsigned id.toNat
  | .managed dependency method => do
      Encoder.array 3
      Encoder.unsigned 5
      Encoder.unsigned dependency.toNat
      Encoder.unsigned method.toNat

def writeCall (call : ResolvedCall) : EncoderM Unit := do
  Encoder.array 2
  Encoder.unsigned call.member.toNat
  writeTarget call.target

def writeDescriptor (descriptor : Descriptor) : EncoderM Unit := do
  Encoder.array 3
  Encoder.unsigned descriptor.slot.toNat
  Encoder.unsigned descriptor.length.toNat
  Encoder.byteString descriptor.digest.1

def writeNames {α : Type} (write : α → EncoderM Unit) (values : NameMap α) : EncoderM Unit :=
  writeMap (fun e => do
    Encoder.array 2
    Encoder.text e.1
    write e.2) values

def writeList {α : Type} (write : α → EncoderM Unit) (items : List α) : EncoderM Unit := do
  Encoder.array items.length
  items.forM write

def writeVersion (version : UInt32 × Fixed 32) : EncoderM Unit := do
  Encoder.array 2
  Encoder.unsigned version.1.toNat
  Encoder.byteString version.2.1

def writeDeclaration (entry : StorageDeclaration) : EncoderM Unit := do
  Encoder.array 3
  Encoder.unsigned (asU64 entry.key)
  Encoder.unsigned entry.kind.toNat
  Encoder.unsigned entry.maxBytes.toNat

def writeInstance (e : String × String) : EncoderM Unit := do
  let aid ← readOnly (decodeAid e.1)
  Encoder.array 2
  Encoder.byteString aid
  Encoder.text e.2

def writeInteger (e : Int32 × Int32) : EncoderM Unit := do
  Encoder.array 2
  Encoder.integer e.1.toInt64
  Encoder.integer e.2.toInt64

def writeBlob (e : Int32 × List Byte) : EncoderM Unit := do
  Encoder.array 2
  Encoder.integer e.1.toInt64
  Encoder.byteString e.2

def writeDomain (domain : Domain) : EncoderM Unit := do
  Encoder.array 14
  Encoder.byteString domain.incarnation.1
  Encoder.byteString domain.registryAid.bytes
  Encoder.optional (fun key : Fixed 32 => Encoder.byteString key.1) domain.key
  writePolicy domain.policy
  writeNames writeDescriptor domain.imageRefs
  writeNames (writeList fun value : ResolvedDependency => Encoder.byteString value.digest.1) domain.bindings
  writeNames (writeList writeCall) domain.imports
  writeNames writeVersion domain.versions
  writeList writeDeclaration domain.storageSchema.entries
  writeMap writeInstance domain.instances
  writeMap writeInteger domain.store
  writeMap writeBlob domain.blobs
  domain.keys.encodeState
  domain.credentials.encodeState

def writeState (state : State) : EncoderM Unit := do
  Encoder.array 5
  Encoder.unsigned 2
  Encoder.unsigned 0
  Encoder.unsigned state.scp03Sequence.toNat
  writeDomain state.isd
  writeNames writeDomain state.domains

end Writing

namespace State

def encodeSnapshot (state : State) : Except Error (List Byte) :=
  match writeState state ⟨[], maxSnapshotBytes⟩ with
  | .ok _ encoder => .ok encoder.bytes
  | .error e _ => .error e

def decodeSnapshot (input : List Byte) : Except Error State := do
  failIf (maxSnapshotBytes < input.length) .storage
  failIf (input.head? ≠ some 0x85) .incompatibleState
  match readState input with
  | .ok state _ => pure state
  | .error e _ => throw e

end State

end MicroCard.Mc04
