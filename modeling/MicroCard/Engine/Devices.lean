import MicroCard.Engine.Requests
import MicroCard.Transport.Endpoint

/-! The card of the Java Card engine and the devices under it. A device answers from a
script of its own, so a run is determined by the card it starts from; theorems about
every card cover every fault, every answer and every behaviour of an applet. -/
namespace MicroCard.Engine

open Bytes Cbor CrashTriple Card Transport

/-- What devices report when they fail. Whether an AID is known and whether a request
is well formed is decided by the engine, so these two are not among it. -/
abbrev Fault := { e : Error // e ≠ .missing ∧ e ≠ .format }

/-- Why the engine uses the code image, the key derivation or a bank. -/
inductive Phase where
  | beginning
  | recovering
  | handing
  | opening
  | installing
  | listing
  deriving DecidableEq, Repr

/-- What a registry record publishes: an ordinary change, the ownership of a staged
record, or the heap restored from it. -/
inductive Publication where
  | change
  | renewal
  | restoration
  deriving DecidableEq, Repr

/-- The calls at which a device may fail or has something to say. -/
inductive Site where
  | memory
  | primitive
  | entropy
  | registryCounters
  | reserveIdentity
  | reserve (publication : Publication)
  | commit (publication : Publication)
  | recoverRegistry
  | stageImage
  | stageUpload
  | takeUpload
  | image (phase : Phase)
  | pin (phase : Phase)
  | key (phase : Phase)
  | authenticate (phase : Phase)
  | prepare (phase : Phase)
  | openJournal (phase : Phase)
  | sealRecord
  | stageRecord
  | compareRecord
  | hashRecord (phase : Phase)
  | readRecord
  | installSeed
  | validateJournal
  | attach
  | adopt
  | counters
  | appendCapacity
  | compactionAddsCapacity
  | releaseIdleMemory
  | restoreIdleMemory
  | compactIdle
  | matchPackage
  | commitInstallation
  | recoverSession
  | retainVolatile
  | restoreVolatile
  deriving DecidableEq, Repr

/-- The two counters of a bank. -/
structure Counters where
  monotonic : Nat
  attempts : Nat
  deriving DecidableEq, Repr

/-- What a device does at one call: whether it fails, what a failed or uncertain write
left behind, and what it answers. -/
structure Outcome where
  fault : Option Fault
  effect : Bool
  left : Counters
  invalid : Option Error
  number : Nat
  bytes : List Byte
  slot : UInt8
  package : Package

/-- One durable point of an applet callback. -/
structure Checkpoint where
  snapshot : Bool
  anchored : Bool
  refused : Option Error
  effect : Bool

/-- An applet's answer. -/
structure Response where
  data : List Byte
  sw : Nat

/-- What an applet callback does: its checkpoints, how often it polls, whether it ends
up selected, whether it asks for a reset of the secure channel and how it returns. -/
structure Behaviour where
  checkpoints : List Checkpoint
  polls : Nat
  selected : Bool
  reset : Bool
  result : Except Error Response

/-- What does not change on a card. -/
structure Platform where
  registryGenerations : Nat
  registryAttempts : Nat
  heapGenerations : Nat
  heapAttempts : Nat
  bankCount : Nat
  slotSize : Nat
  stagingCapacity : Nat
  scratch : Nat
  scp03I : Byte
  sha256 : List Byte → Fixed 32
  aesCmacParts : Fixed 16 → List (List Byte) → Except Error (Fixed 16)
  aes128EncryptBlock : Fixed 16 → Fixed 16 → Except Error (Fixed 16)
  aesCbcDecrypt : Fixed 16 → Fixed 16 → List Byte → Except Error (Nat × List Byte)
  aesCbcEncrypt : Fixed 16 → Fixed 16 → List Byte → Except Error (Nat × List Byte)
  /-- Counter values are 64-bit words. -/
  bounded : registryAttempts < 2 ^ 64

/-- The management store: the registry in memory, and the one its journal stores. -/
structure RegistryStore where
  state : Registry
  committed : Registry
  recoveryRequired : Bool
  poisoned : Bool
  generation : Nat
  attempts : Nat

/-- A heap bank. It was prepared this often; its counters start over each time. -/
structure Bank where
  prepared : Nat
  counters : Counters

/-- What a heap key is derived from. -/
structure HeapKey where
  bank : UInt8
  identity : Fixed 16
  digest : Fixed 32
  deriving DecidableEq

/-- The live part of a session. -/
structure Applet where
  selected : Bool
  deriving DecidableEq

/-- One installed applet with durable command boundaries. `anchored` is the anchor of
the generation its journal stands at. -/
structure Session where
  key : HeapKey
  anchored : Nat
  poisoned : Bool
  applet : Option Applet
  recoveryRequired : Bool
  resetRequested : Bool

/-- Volatile contents that outlive a deselection. -/
structure Retained where
  aid : Aid
  identity : Fixed 16
  bytes : Nat
  deriving DecidableEq

structure Upload where
  load : Aid
  domain : Aid
  hash : Option (Fixed 32)
  receiver : LoadReceiver

/-- What a run did that a claim about it may need: which callbacks ran, on which
session and against which registry, and what was sealed under which key. -/
inductive Action where
  | executed (aid : Aid) (key : HeapKey) (committed : Registry)
  | installed (aid : Aid) (key : HeapKey) (committed : Registry)
  | staged (key : HeapKey)
  | seeded (key : HeapKey) (epoch : Nat)
  | sealed (key : HeapKey) (epoch : Nat)

/-- A device failed, and left the banks in this state. -/
structure Incident where
  site : Site
  banks : UInt8 → Bank

structure JcvmEngine where
  platform : Platform
  devices : Site → Nat → Outcome
  applets : Nat → Behaviour
  registry : RegistryStore
  banks : UInt8 → Bank
  staging : Staging
  upload : Option Upload
  selected : Option (Aid × Session)
  retained : List Retained
  resetRequested : Bool
  sequences : Option (Nat × Nat)
  actions : List Action
  incidents : List Incident

/-- A call of the engine under way: the answers to polls, and how many were read. -/
structure Running where
  card : JcvmEngine
  cancel : Nat → Bool
  polls : Nat

abbrev EngineM := EStateM Error Running

section Calls

variable {α : Type}

def modifyCard (update : JcvmEngine → JcvmEngine) : EngineM Unit :=
  modify fun running => { running with card := update running.card }

def modifyRegistry (update : RegistryStore → RegistryStore) : EngineM Unit :=
  modifyCard fun card => { card with registry := update card.registry }

/-- Poll for cancellation. -/
def cancelled : EngineM Bool := fun running =>
  .ok (running.cancel running.polls) { running with polls := running.polls + 1 }

def failIfCancelled : EngineM Unit := do
  let stop ← cancelled
  failIf (stop = true) .cancelled

def act (action : Action) : EngineM Unit :=
  modifyCard fun card => { card with actions := card.actions ++ [action] }

/-- The next outcome at a site. -/
def draw (site : Site) : EngineM Outcome := fun running =>
  .ok (running.card.devices site 0) { running with card := { running.card with
    devices := fun s n => if s = site then running.card.devices s (n + 1) else running.card.devices s n } }

/-- Fail at a site, once what the failure left is in place. -/
def fail (site : Site) (fault : Fault) : EngineM α := do
  modifyCard fun card => { card with incidents := card.incidents ++ [⟨site, card.banks⟩] }
  throw fault.1

/-- A call of a device that either fails or answers. -/
def device (site : Site) : EngineM Outcome := do
  let outcome ← draw site
  match outcome.fault with
  | some fault => fail site fault
  | none => pure outcome

end Calls

section Registry

/-- The registry that ordinary operations may read. -/
def RegistryStore.readState (store : RegistryStore) : Except Error Registry := do
  failIf store.recoveryRequired .storage
  failIf store.state.renewal.isSome .busy
  pure store.state

/-- Recovery may inspect the authenticated owner while ordinary operations are
blocked. -/
def RegistryStore.pendingRenewal (store : RegistryStore) : Except Error (Option Renewal) := do
  failIf store.recoveryRequired .storage
  pure store.state.renewal

def readState : EngineM Registry := do
  let running ← get
  readOnly running.card.registry.readState

/-- Remaining successful commits, bounded by both independent counters. -/
def registryRemainingCommits : EngineM Nat := do
  let running ← get
  failIf running.card.registry.poisoned .storage
  let _ ← device .registryCounters
  failIf (running.card.platform.registryGenerations < running.card.registry.generation ∨
    running.card.platform.registryAttempts < running.card.registry.attempts) .storage
  pure (min (running.card.platform.registryGenerations - running.card.registry.generation)
    (running.card.platform.registryAttempts - running.card.registry.attempts))

/-- Durably consume the next counter value. A partial reservation may be consumed. -/
def reserveNonce (site : Site) : EngineM Nat := do
  let running ← get
  failIf (running.card.platform.registryAttempts ≤ running.card.registry.attempts) .quota
  let outcome ← draw site
  onlyIf (outcome.fault.isNone = true ∨ outcome.effect = true)
    (modifyRegistry fun store => { store with attempts := store.attempts + 1 })
  match outcome.fault with
  | some fault => fail site fault
  | none => pure (running.card.registry.attempts + 1)

/-- The attempt of a snapshot: a value reserved earlier that is still the last one, or
a new one. -/
def snapshotAttempt (publication : Publication) (reserved : Option Nat) : EngineM Unit :=
  match reserved with
  | some value => do
      let running ← get
      failIf (running.card.registry.attempts ≠ value) .storage
  | none => do
      let _ ← reserveNonce (.reserve publication)

/-- The writes of a commit. A failed one may have published the new registry. -/
def replaceRegistry (publication : Publication) (next : Registry) : EngineM Unit := do
  let outcome ← draw (.commit publication)
  onlyIf (outcome.fault.isNone = true ∨ outcome.effect = true)
    (modifyRegistry fun store => { store with committed := next, generation := store.generation + 1 })
  match outcome.fault with
  | some fault => do
      modifyRegistry fun store => { store with poisoned := true }
      fail (.commit publication) fault
  | none => pure ()

def commitOwned (publication : Publication) (reserved : Option Nat) (next : Registry) : EngineM Unit := do
  let running ← get
  failIf running.card.registry.poisoned .storage
  failIf (running.card.platform.registryGenerations ≤ running.card.registry.generation) .quota
  snapshotAttempt publication reserved
  replaceRegistry publication next

/-- Read back what the journal stores. -/
def recoverRegistry : EngineM Unit := do
  modifyRegistry fun store => { store with recoveryRequired := true, poisoned := true }
  let _ ← device .recoverRegistry
  modifyRegistry fun store => { store with state := store.committed, recoveryRequired := false, poisoned := false }

def finishCommitSnapshot (next : Registry) : Except Error Unit → EngineM Unit
  | .ok _ => modifyRegistry fun store => { store with state := next }
  | .error e => do
      recoverRegistry
      throw e

/-- Commit a snapshot, under the nonce reserved for it if there is one. -/
def commitSnapshot (publication : Publication) (reserved : Option Nat) (next : Registry) : EngineM Unit := do
  let _ ← readOnly next.encode
  let result ← capture (commitOwned publication reserved next)
  finishCommitSnapshot next result

def commit (next : Registry) : EngineM Unit := do
  let _ ← readState
  commitSnapshot .change none next

def reserveHeapIdentity : EngineM (Fixed 16 × Nat) := do
  let _ ← readState
  let running ← get
  failIf running.card.registry.poisoned .storage
  let nonce ← reserveNonce .reserveIdentity
  pure (heapIdentity nonce, nonce)

/-- Storage that answers with something else than what the registry names has failed. -/
def mismatch {α : Type} (site : Site) : EngineM α := fail site ⟨.authentication, by decide⟩

/-- A package verified for a domain. -/
def boundTo (domain : Domain) (package : Package) : Package :=
  { package with manifest.domain := domain.aid.bytes, manifest.incarnation := domain.incarnation }

/-- The registry names this package. -/
def checkBinding (phase : Phase) (state : Registry) (load : Load) (image : Descriptor) (package : Package) :
    EngineM Package :=
  if package.manifest.package ≠ load.aid.bytes ∨ package.manifest.version ≠ load.version ∨
      package.digest ≠ image.digest then mismatch (.image phase)
  else do
    let _ ← readOnly (state.activationSlots package)
    pure package

/-- Verify the persisted image and its current registry binding before using it. The
stored bytes verify as the package the device answers with. -/
def withPackage (phase : Phase) (state : Registry) (aid : Aid) : EngineM Package := do
  let load ← orFail (state.loads.entries.find? fun p => p.aid = aid) .missing
  let image ← orFail load.image .missing
  let outcome ← device (.image phase)
  let domain ← orFail (state.domains.entries.find? fun d => d.aid = load.domain) .storage
  checkBinding phase state load image (boundTo domain outcome.package)

/-- The package of a load, with its image pinned for a session. -/
def sessionImage (phase : Phase) (state : Registry) (load : Aid) : EngineM Package := do
  let package ← withPackage phase state load
  let entry ← orFail (state.loads.entries.find? fun p => p.aid = load) .storage
  let descriptor ← orFail entry.image .storage
  if descriptor.length.toNat ≠ package.image.length then mismatch (.pin phase)
  else do
    let _ ← device (.pin phase)
    pure package

def heapKey (phase : Phase) (bank : UInt8) (identity : Fixed 16) (digest : Fixed 32) : EngineM HeapKey := do
  let _ ← device (.key phase)
  pure ⟨bank, identity, digest⟩

end Registry

section Banks

def setBank (bank : UInt8) (update : Bank → Bank) : EngineM Unit :=
  modifyCard fun card => { card with banks := fun b => if b = bank then update (card.banks b) else card.banks b }

/-- Erase a bank with its counters. A partial preparation fails and may have erased
any part of them. -/
def prepareBank (phase : Phase) (bank : UInt8) : EngineM Unit := do
  let running ← get
  failIf (running.card.platform.bankCount ≤ bank.toNat) .bounds
  let outcome ← draw (.prepare phase)
  match outcome.fault with
  | some fault => do
      setBank bank fun b => ⟨b.prepared + 1, outcome.left⟩
      fail (.prepare phase) fault
  | none => setBank bank fun b => ⟨b.prepared + 1, ⟨0, 0⟩⟩

end Banks

end MicroCard.Engine
