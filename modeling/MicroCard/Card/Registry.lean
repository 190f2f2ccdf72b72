import MicroCard.Card.Package
import MicroCard.Journal.Record
import MicroCard.Library.SlotTable

/-! Bounded management metadata: security domains, loads, applet instances and the
renewal in progress. Images and applet heaps live in separate storage. -/
namespace MicroCard.Card

open Bytes CrashTriple Cbor Codec

def maxDomains : Nat := 4
def maxPackages : Nat := 8
def maxInstances : Nat := 8
def maxSnapshotBytes : Nat := 4096
def maxSequence : Nat := 0xffffff

/-- The least and the greatest length of a staged record. -/
def seedMinBytes : Nat := Journal.headerBytes + 16 + 1
def seedMaxBytes : Nat := 65536 - Journal.tailBytes

structure Domain where
  aid : Aid
  incarnation : Fixed 16
  deriving DecidableEq

structure Load where
  domain : Aid
  aid : Aid
  /-- Retained after deletion, so removing an image cannot reset rollback policy. -/
  version : UInt32
  image : Option Descriptor
  deriving DecidableEq

structure Instance where
  domain : Aid
  load : Aid
  module : Aid
  aid : Aid
  identity : Fixed 16
  heapBank : UInt8
  deriving DecidableEq

/-- Authenticated ownership of the staging region while a heap is renewed. -/
structure Renewal where
  aid : Aid
  bank : UInt8
  oldIdentity : Fixed 16
  newIdentity : Fixed 16
  packageDigest : Fixed 32
  recordLength : UInt32
  recordDigest : Fixed 32
  deriving DecidableEq

structure Registry where
  domains : SlotTable Domain maxDomains
  loads : SlotTable Load maxPackages
  instances : SlotTable Instance maxInstances
  sequence : UInt32
  renewal : Option Renewal
  deriving DecidableEq

/-- Operations change the registry in place. A failing one keeps what it wrote. -/
abbrev RegistryM := EStateM Error Registry

namespace Registry

def new (incarnation : Fixed 16) : Registry where
  domains := (SlotTable.empty Domain maxDomains).set 0 (some ⟨Aid.isd, incarnation⟩)
  loads := SlotTable.empty Load maxPackages
  instances := SlotTable.empty Instance maxInstances
  sequence := 0
  renewal := none

def inUse (registry : Registry) (aid : Aid) : Bool :=
  registry.domains.entries.any (fun d => d.aid = aid) || registry.loads.entries.any (fun p => p.aid = aid) ||
    registry.instances.entries.any fun i => i.aid = aid

end Registry

section Operations

def addDomain (aid : Aid) (incarnation : Fixed 16) : RegistryM Unit := do
  let registry ← get
  failIf (registry.inUse aid) .busy
  let slot ← orFail (registry.domains.position Option.isNone) .quota
  set { registry with domains := registry.domains.set slot (some ⟨aid, incarnation⟩) }

/-- Removing a domain removes its loads and instances with it. -/
def removeDomain (aid : Aid) : RegistryM Unit := do
  failIf (aid = Aid.isd) .unauthorized
  let registry ← get
  let (slot, _) ← orFail (registry.domains.lookup fun d => d.aid = aid) .missing
  set { registry with
    domains := registry.domains.set slot none
    loads := registry.loads.clear fun p => p.domain = aid
    instances := registry.instances.clear fun i => i.domain = aid }

/-- Commit the registry before issuing any reserved SCP03 challenge counter. -/
def reserveSequences (count : UInt32) : RegistryM (Nat × Nat) := do
  let registry ← get
  let stop ← orFail (checkedAdd32 registry.sequence.toNat count.toNat) .quota
  failIf (count = 0 ∨ maxSequence < stop) .quota
  set { registry with sequence := UInt32.ofNat stop }
  pure (registry.sequence.toNat + 1, stop)

/-- Where a package may be activated: its domain's slot, and its own slot or a free
one. The same version may only come back as the same image. -/
def Registry.activationSlots (registry : Registry) (package : Package) : Except Error (Nat × Nat) := do
  let domain ← Aid.new package.manifest.domain
  let aid ← Aid.new package.manifest.package
  let (domainSlot, entry) ← orFail (registry.domains.lookup fun d => d.aid = domain) .missing
  failIf (entry.incarnation ≠ package.manifest.incarnation) .domain
  match registry.loads.lookup fun p => p.aid = aid with
  | some (index, previous) =>
      failIf (previous.domain ≠ domain) .domain
      failIf (package.manifest.version < previous.version) .rollback
      if package.manifest.version = previous.version ∧ previous.image.isSome then
        failIf (previous.image.any fun image => image.digest ≠ package.digest) .rollback
      else
        failIf (registry.instances.entries.any fun i => i.load = aid) .busy
      pure (domainSlot, index)
  | none =>
      failIf (registry.inUse aid) .busy
      let index ← orFail (registry.loads.position Option.isNone) .quota
      pure (domainSlot, index)

/-- Call only with a verified package and a verified, staged image descriptor.
Persist the resulting metadata before reclaiming any formerly protected slot. -/
def activate (package : Package) (image : Descriptor) : RegistryM Unit := do
  let registry ← get
  let (_, index) ← readOnly (registry.activationSlots package)
  let domain ← readOnly (Aid.new package.manifest.domain)
  let aid ← readOnly (Aid.new package.manifest.package)
  failIf (image.digest ≠ package.digest ∨ image.length.toNat ≠ package.image.length ∨ 64 ≤ image.slot.toNat)
    .authentication
  failIf (registry.loads.entries.any fun p => p.aid ≠ aid && p.image.any fun old => old.slot = image.slot) .busy
  set { registry with loads := registry.loads.set index (some {
    domain := domain
    aid := aid
    version := package.manifest.version
    image := some image }) }

/-- The load keeps its entry, and with it its version. -/
def removeLoad (aid : Aid) : RegistryM Unit := do
  let registry ← get
  failIf (registry.instances.entries.any fun i => i.load = aid) .busy
  let (slot, load) ← orFail (registry.loads.lookup fun p => p.aid = aid) .missing
  set { registry with loads := registry.loads.set slot (some { load with image := none }) }
  failIf load.image.isNone .missing

/-- The applets of a load file, if it can be read. -/
def packageApplets (image : List Byte) : Except Error (List Jcvm.AppletRef) := do
  let file ← (Jcvm.LoadFile.parse image).mapError fun _ => Error.format
  file.applets.mapError fun _ => Error.format

/-- The applet heap must already have a durable snapshot bound to `identity`. -/
def register (package : Package) (module aid : Aid) (identity : Fixed 16) (heapBank : UInt8) : RegistryM Unit := do
  let registry ← get
  let load ← readOnly (Aid.new package.manifest.package)
  let domain ← readOnly (Aid.new package.manifest.domain)
  failIf (!registry.loads.entries.any fun p =>
    p.aid = load && p.domain = domain && p.image.any fun image => image.digest = package.digest) .missing
  failIf (registry.inUse aid ∨
    registry.instances.entries.any fun i => i.heapBank = heapBank || i.identity = identity) .busy
  failIf (maxInstances ≤ heapBank.toNat) .quota
  let applets ← readOnly (packageApplets package.image)
  failIf (!applets.any fun entry => entry.aid = module.bytes) .missing
  let slot ← orFail (registry.instances.position Option.isNone) .quota
  set { registry with instances := registry.instances.set slot (some {
    domain := domain
    load := load
    module := module
    aid := aid
    identity := identity
    heapBank := heapBank }) }

def removeInstance (aid : Aid) : RegistryM Unit := do
  let registry ← get
  let (slot, _) ← orFail (registry.instances.lookup fun i => i.aid = aid) .missing
  set { registry with instances := registry.instances.set slot none }

end Operations

section Validation

/-- Check each entry against those before it. -/
def validateEach {α : Type} (refused : List α → α → Bool) : List α → List α → Except Error Unit
  | _, [] => .ok ()
  | before, entry :: rest =>
      if refused before entry then .error .format else validateEach refused (before ++ [entry]) rest

namespace Registry

def refusesDomain (before : List Domain) (domain : Domain) : Bool := before.any fun d => d.aid = domain.aid

/-- Two loads may not use one image slot. -/
def sharesSlot (first second : Load) : Bool :=
  match first.image, second.image with
  | some a, some b => a.slot = b.slot
  | _, _ => false

def refusesLoad (registry : Registry) (before : List Load) (load : Load) : Bool :=
  load.version = 0 || !registry.domains.entries.any (fun d => d.aid = load.domain) ||
    registry.domains.entries.any (fun d => d.aid = load.aid) ||
    before.any (fun p => p.aid = load.aid || sharesSlot p load) ||
    load.image.any fun image => 64 ≤ image.slot.toNat || image.length = 0 || maxPackageBytes < image.length.toNat

def refusesInstance (registry : Registry) (before : List Instance) (instance' : Instance) : Bool :=
  maxInstances ≤ instance'.heapBank.toNat ||
    !registry.loads.entries.any (fun p =>
      p.aid = instance'.load && p.domain = instance'.domain && p.image.isSome) ||
    registry.domains.entries.any (fun d => d.aid = instance'.aid) ||
    registry.loads.entries.any (fun p => p.aid = instance'.aid) ||
    before.any fun i => i.aid = instance'.aid || i.heapBank = instance'.heapBank || i.identity = instance'.identity

end Registry

def Renewal.validate (renewal : Renewal) (state : Registry) : Except Error Unit := do
  let instance' ← orFail (state.instances.entries.find? fun i => i.aid = renewal.aid) .format
  failIf (instance'.heapBank ≠ renewal.bank ∨ instance'.identity ≠ renewal.oldIdentity ∨
    (state.instances.entries.any fun i => i.identity = renewal.newIdentity) ∨
    renewal.recordLength.toNat < seedMinBytes ∨ seedMaxBytes < renewal.recordLength.toNat ∨
    !state.loads.entries.any fun load =>
      load.aid = instance'.load && load.image.any fun image => image.digest = renewal.packageDigest) .format

def Registry.validate (registry : Registry) : Except Error Unit := do
  failIf ((registry.domains.slots.head?.join.all fun d => d.aid ≠ Aid.isd) ∨ maxSequence < registry.sequence.toNat)
    .format
  validateEach refusesDomain [] registry.domains.entries
  validateEach registry.refusesLoad [] registry.loads.entries
  validateEach registry.refusesInstance [] registry.instances.entries
  match registry.renewal with
  | some renewal => renewal.validate registry
  | none => pure ()

end Validation

section Encoding

def encodeDomain (domain : Domain) : EncoderM Unit := do
  Encoder.array 2
  Encoder.byteString domain.aid.bytes
  Encoder.byteString domain.incarnation

def encodeImage (image : Descriptor) : EncoderM Unit := do
  Encoder.array 3
  Encoder.unsigned image.slot.toNat
  Encoder.unsigned image.length.toNat
  Encoder.byteString image.digest

def encodeLoad (load : Load) : EncoderM Unit := do
  Encoder.array 4
  Encoder.byteString load.domain.bytes
  Encoder.byteString load.aid.bytes
  Encoder.unsigned load.version.toNat
  Encoder.optional encodeImage load.image

def encodeInstance (instance' : Instance) : EncoderM Unit := do
  Encoder.array 6
  Encoder.byteString instance'.domain.bytes
  Encoder.byteString instance'.load.bytes
  Encoder.byteString instance'.module.bytes
  Encoder.byteString instance'.aid.bytes
  Encoder.byteString instance'.identity
  Encoder.unsigned instance'.heapBank.toNat

def encodeRenewal (renewal : Renewal) : EncoderM Unit := do
  Encoder.array 7
  Encoder.byteString renewal.aid.bytes
  Encoder.unsigned renewal.bank.toNat
  Encoder.byteString renewal.oldIdentity
  Encoder.byteString renewal.newIdentity
  Encoder.byteString renewal.packageDigest
  Encoder.unsigned renewal.recordLength.toNat
  Encoder.byteString renewal.recordDigest

def encodeFields (registry : Registry) : EncoderM Unit := do
  Encoder.array 7
  Encoder.unsigned 2
  Encoder.unsigned 2
  Encoder.unsigned registry.sequence.toNat
  Encoder.array maxDomains
  registry.domains.slots.forM (Encoder.optional encodeDomain)
  Encoder.array maxPackages
  registry.loads.slots.forM (Encoder.optional encodeLoad)
  Encoder.array maxInstances
  registry.instances.slots.forM (Encoder.optional encodeInstance)
  Encoder.optional encodeRenewal registry.renewal

def Registry.encode (registry : Registry) : Except Error (List Byte) := do
  registry.validate
  match encodeFields registry ⟨[], maxSnapshotBytes⟩ with
  | .ok _ encoder => pure encoder.bytes
  | .error e _ => throw e

def decodeAid : Decoder Aid := do
  let value ← bytes 16
  readOnly (Aid.new value)

def decodeDomain : Decoder Domain := do
  record 2
  let aid ← decodeAid
  let incarnation ← fixed 16
  pure ⟨aid, incarnation⟩

def decodeImage : Decoder Descriptor := do
  record 3
  let slot ← u8
  let length ← u32
  let digest ← fixed 32
  pure ⟨slot, length, digest⟩

def decodeLoad : Decoder Load := do
  record 4
  let domain ← decodeAid
  let aid ← decodeAid
  let version ← u32
  let image ← optional decodeImage
  pure ⟨domain, aid, version, image⟩

def decodeInstance : Decoder Instance := do
  record 6
  let domain ← decodeAid
  let load ← decodeAid
  let module ← decodeAid
  let aid ← decodeAid
  let identity ← fixed 16
  let heapBank ← u8
  pure ⟨domain, load, module, aid, identity, heapBank⟩

def decodeRenewal : Decoder Renewal := do
  record 7
  let aid ← decodeAid
  let bank ← u8
  let oldIdentity ← fixed 16
  let newIdentity ← fixed 16
  let packageDigest ← fixed 32
  let recordLength ← u32
  let recordDigest ← fixed 32
  pure ⟨aid, bank, oldIdentity, newIdentity, packageDigest, recordLength, recordDigest⟩

/-- A table is an array with one item for each slot. -/
def decodeTable {α : Type} (count : Nat) (read : Decoder α) : Decoder (SlotTable α count) := do
  record count
  let slots ← times (optional read) count
  if h : slots.length = count then pure ⟨slots, h⟩ else throw .format

/-- A record of another version is refused as such, not as malformed. -/
def decodeVersion : Decoder Unit := do
  failAs .incompatibleState (record 7)
  let first ← unsigned
  failIf (first ≠ 2) .incompatibleState
  let second ← unsigned
  failIf (second ≠ 2) .incompatibleState

def decodeFields : Decoder Registry := do
  decodeVersion
  let sequence ← u32
  let domains ← decodeTable maxDomains decodeDomain
  let loads ← decodeTable maxPackages decodeLoad
  let instances ← decodeTable maxInstances decodeInstance
  let renewal ← optional decodeRenewal
  finish
  pure ⟨domains, loads, instances, sequence, renewal⟩

def Registry.decode (input : List Byte) : Except Error Registry := do
  failIf (maxSnapshotBytes < input.length) .format
  match decodeFields input with
  | .ok state _ => do
      state.validate
      pure state
  | .error e _ => throw e

end Encoding

end MicroCard.Card
