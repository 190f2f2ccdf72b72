import MicroCard.Mc04.KeyStore
import MicroCard.Mc04.CredentialStore
import MicroCard.Mc04.Manifest
import MicroCard.Mc04.NativeAbi

/-! What the engine persists: the issuer domain, the supplementary domains and the next
counter of the secure channel. -/
namespace MicroCard.Mc04

open Bytes CrashTriple Cbor
open Card (Aid Descriptor)

def maxTotalPackageBytes : Nat := 24 * 1024
def maxSsds : Nat := 8
def maxAssembliesPerDomain : Nat := 8
def maxInstancesPerDomain : Nat := 8
def maxTotalInstances : Nat := 16
def maxIntRecords : Nat := 512
def maxBlobRecords : Nat := 64
def maxDomainStorageDeclarations : Nat := maxAssembliesPerDomain * maxStorageDeclarations

/-- An identifier derived from something stable, such as a digest. -/
def syntheticAid (kind : Byte) (stable : Fixed 32) : Aid :=
  ⟨[0xa0, 0x00, 0x00, 0x01, 0x51, kind] ++ stable.1.take 10, by simp [stable.2]⟩

structure DomainPolicy where
  capabilities : List UInt8
  maxAssemblies : UInt8
  maxInstances : UInt8
  maxIntRecords : UInt16
  maxBlobRecords : UInt8
  maxBlobBytes : UInt16
  maxKeySlots : UInt8
  maxPackageBytes : UInt16
  deriving DecidableEq

namespace DomainPolicy

def standard : DomainPolicy := ⟨Mc04.capabilities, 8, 8, 512, 64, 8192, 8, 16384⟩

def valid (policy : DomainPolicy) : Bool :=
  adjacent (fun id next => id < next) policy.capabilities && policy.capabilities.all validCapability &&
    (1 ≤ policy.maxAssemblies.toNat && policy.maxAssemblies.toNat ≤ maxAssembliesPerDomain) &&
    (1 ≤ policy.maxInstances.toNat && policy.maxInstances.toNat ≤ maxInstancesPerDomain) &&
    (1 ≤ policy.maxIntRecords.toNat && policy.maxIntRecords.toNat ≤ Mc04.maxIntRecords) &&
    (1 ≤ policy.maxBlobRecords.toNat && policy.maxBlobRecords.toNat ≤ Mc04.maxBlobRecords) &&
    (1 ≤ policy.maxBlobBytes.toNat && policy.maxBlobBytes.toNat ≤ 8192) &&
    (1 ≤ policy.maxKeySlots.toNat && policy.maxKeySlots.toNat ≤ 8) &&
    (108 ≤ policy.maxPackageBytes.toNat && policy.maxPackageBytes.toNat ≤ 16384)

theorem standard_valid : standard.valid = true := by decide

end DomainPolicy

structure ResolvedDependency where
  digest : Fixed 32
  deriving DecidableEq

inductive CallTarget where
  | objectConstructor
  | currentDomain
  | domainStorage
  | domainKeys
  | native (id : UInt8)
  | managed (dependency : UInt8) (method : UInt16)
  deriving DecidableEq

structure ResolvedCall where
  member : UInt16
  target : CallTarget
  deriving DecidableEq

/-- Values under assembly names. -/
abbrev NameMap (α : Type) := Entries (fun name : String => name) α

abbrev Schema := KeyedList fun declaration : StorageDeclaration => declaration.key.toInt

/-- The declaration of a key. -/
def Schema.declaration (schema : Schema) (key : Int32) : Option StorageDeclaration := schema.find key.toInt

structure Domain where
  incarnation : Fixed 16
  registryAid : Aid
  key : Option (Fixed 32)
  packages : NameMap StoredPackage
  imageRefs : NameMap Descriptor
  bindings : NameMap (List ResolvedDependency)
  imports : NameMap (List ResolvedCall)
  versions : NameMap (UInt32 × Fixed 32)
  storageSchema : Schema
  instances : NameMap String
  store : Entries Int32.toInt Int32
  blobs : Entries Int32.toInt (List Byte)
  keys : KeyStore
  credentials : CredentialStore
  policy : DomainPolicy
  deriving DecidableEq

structure State where
  isd : Domain
  domains : NameMap Domain
  /-- First counter value that was never handed out. It is reserved ahead of use, so a
  power cut can only skip values. -/
  scp03Sequence : UInt32
  deriving DecidableEq

/-- What the blobs of a domain hold together. -/
def blobBytes (blobs : Entries Int32.toInt (List Byte)) : Nat := blobs.weight fun e => e.2.length

namespace Domain

def new (incarnation : Fixed 16) (registryAid : Aid) (policy : DomainPolicy) : Domain where
  incarnation := incarnation
  registryAid := registryAid
  key := none
  packages := KeyedList.empty
  imageRefs := KeyedList.empty
  bindings := KeyedList.empty
  imports := KeyedList.empty
  versions := KeyedList.empty
  storageSchema := KeyedList.empty
  instances := KeyedList.empty
  store := KeyedList.empty
  blobs := KeyedList.empty
  keys := KeyStore.empty
  credentials := CredentialStore.empty
  policy := policy

def packageMetadata (domain : Domain) (name : String) : Except Error StoredPackage := do
  let found ← orFail (domain.packages.find name) .missing
  pure found.2

def storageDeclaration (domain : Domain) (key : Int32) : Option StorageDeclaration :=
  domain.storageSchema.declaration key

/-- The schema with the declarations of a package, which may not contradict it. -/
def mergedStorageSchema (domain : Domain) (declarations : List StorageDeclaration) : Except Error Schema := do
  failIf (declarations.any fun d => (domain.storageDeclaration d.key).any fun existing => existing ≠ d) .keyMismatch
  let additional := (declarations.filter fun d => (domain.storageDeclaration d.key).isNone).length
  failIf (maxDomainStorageDeclarations < domain.storageSchema.length + additional) .quota
  pure (declarations.foldl (fun merged d => if merged.contains d.key.toInt then merged else merged.insert d)
    domain.storageSchema)

/-- Bindings and imports name active assemblies only, and so do instances. -/
def namesActive (domain : Domain) : Bool :=
  domain.bindings.entries.all (fun e => domain.imageRefs.contains e.1) &&
    domain.imports.entries.all (fun e => domain.imageRefs.contains e.1) &&
    domain.instances.entries.all fun e => domain.imageRefs.contains e.2

/-- `intern_assembly_names`: sharing the names changes none of them. -/
def internAssemblyNames (domain : Domain) : Except Error Unit := failIf (domain.namesActive = false) .storage

def isUnboundAndEmpty (domain : Domain) : Bool :=
  domain.key.isNone && domain.imageRefs.isEmpty && domain.bindings.isEmpty && domain.imports.isEmpty &&
    domain.versions.isEmpty && domain.storageSchema.isEmpty && domain.instances.isEmpty && domain.store.isEmpty &&
    domain.blobs.isEmpty && domain.keys.isEmpty && domain.credentials.isEmpty

end Domain

namespace State

/-- The issuer domain and the others, with their names. -/
def allDomains (state : State) : List (String × Domain) := ("ISD", state.isd) :: state.domains.entries

def domain (state : State) (id : String) : Option Domain :=
  if id = "ISD" then some state.isd else (state.domains.find id).map Prod.snd

def isOwned (state : State) : Bool := state.isd.key.isSome && state.isd.imageRefs.contains "mscorlib"

/-- The active assemblies with a digest. -/
def assembliesWithDigest (state : State) (digest : Fixed 32) : List (String × String × Domain) :=
  state.allDomains.flatMap fun d => (d.2.versions.entries.filter fun v => v.2.2 = digest && d.2.packages.contains v.1).map
    fun v => (d.1, v.1, d.2)

/-- The one active assembly with a digest. -/
def assemblyByDigest (state : State) (digest : Fixed 32) : Except Error (String × String × Domain) :=
  match state.assembliesWithDigest digest with
  | [] => .error .missing
  | [found] => .ok found
  | _ => .error .storage

def providerInUse (state : State) (providerDomain providerAssembly : String) : Bool :=
  match (state.domain providerDomain).bind fun d => d.versions.find providerAssembly with
  | none => false
  | some version => state.allDomains.any fun d => d.2.bindings.entries.any fun e => e.2.any fun b => b.digest = version.2.2

def registryAidReservedByNonAssembly (state : State) (aid : Aid) : Bool :=
  state.allDomains.any (fun d => d.2.registryAid = aid) ||
    state.allDomains.any fun d => d.2.instances.entries.any fun e =>
      ((decodeAid e.1).toOption.bind fun bytes => (Aid.new bytes).toOption) = some aid

def registryAidInUse (state : State) (aid : Aid) : Bool :=
  state.registryAidReservedByNonAssembly aid || state.allDomains.any fun d => d.2.imageRefs.entries.any fun e =>
    (d.2.versions.find e.1).any fun version => syntheticAid 0x4c version.2.2 = aid

def domainIdentifierByRegistryAid (state : State) (aid : Aid) : Option String :=
  if aid = Aid.isd then some "ISD"
  else (state.domains.entries.find? fun d => d.2.registryAid = aid).map Prod.fst

end State

end MicroCard.Mc04
