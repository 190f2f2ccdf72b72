import MicroCard.Mc04.SnapshotSpec
import MicroCard.Journal.Atomicity

/-! The engine's live state and the journal that makes it durable. A mutation changes
the live state first and is taken back when its commit fails; for application data,
recovery decides what a failed commit has left. -/
namespace MicroCard.Mc04

open Bytes CrashTriple Cbor
open Card (Aid Descriptor)
open Journal (CryptoProvider JournalM recorder commitOwnedWithNonce recoverWithReplayMode)

def sequenceWindow : Nat := 64

/-- The counter travels in three bytes, so this is the last value it can express. -/
def sequenceCeiling : Nat := 0xffffff

section State

/-- Mutable application data, staged independently of the other metadata. -/
structure StagedApplication where
  store : Entries Int32.toInt Int32
  blobs : Entries Int32.toInt (List Byte)
  keys : KeyStore
  credentials : CredentialStore
  deriving DecidableEq

namespace Domain

def application (domain : Domain) : StagedApplication := ⟨domain.store, domain.blobs, domain.keys, domain.credentials⟩

/-- `StagedApplication::install`. -/
def install (domain : Domain) (application : StagedApplication) : Domain :=
  { domain with
    store := application.store
    blobs := application.blobs
    keys := application.keys
    credentials := application.credentials }

/-- The metadata of each active assembly, from its image. -/
def loadPackages (package : Descriptor → Except Error StoredPackage) (domain : Domain) : Except Error Domain := do
  let packages ← domain.imageRefs.entries.foldlM (fun (packages : NameMap StoredPackage) e => do
    let verified ← package e.2
    pure (packages.insert (e.1, verified))) domain.packages
  pure { domain with packages := packages }

end Domain

/-- A transaction that later commands may continue. -/
structure PendingTransaction where
  owner : Aid × Fixed 16 × String
  state : StagedApplication
  commandsLeft : UInt8

/-- Replace the value of a name. -/
def adjust {α : Type} (values : NameMap α) (name : String) (f : α → α) : NameMap α where
  entries := values.entries.map fun e => if e.1 = name then (e.1, f e.2) else e
  sorted := by
    rw [List.pairwise_map]
    refine values.sorted.imp fun hLt => ?_
    split_ifs <;> exact hLt

/-- Where a domain is. The position among the supplementary domains is that of its name. -/
inductive Owner where
  | isd
  | ssd (name : String)

namespace Owner

def resolve (state : State) (aid : Aid) : Except Error Owner :=
  if state.isd.registryAid = aid then .ok .isd
  else match state.domains.entries.find? fun e => e.2.registryAid = aid with
  | some e => .ok (.ssd e.1)
  | none => .error .domain

def domain (state : State) : Owner → Option Domain
  | .isd => some state.isd
  | .ssd name => (state.domains.find name).map Prod.snd

def update (f : Domain → Domain) (state : State) : Owner → State
  | .isd => { state with isd := f state.isd }
  | .ssd name => { state with domains := adjust state.domains name f }

end Owner

/-- The metadata of every active assembly of every domain. -/
def State.loadPackages (package : Descriptor → Except Error StoredPackage) (state : State) : Except Error State := do
  let isd ← state.isd.loadPackages package
  let domains ← state.domains.entries.foldlM (fun (domains : NameMap Domain) e => do
    let domain ← e.2.loadPackages package
    pure (domains.insert (e.1, domain))) state.domains
  pure { state with isd := isd, domains := domains }

/-- `application_domain_index`: only supplementary domains run applications. -/
def State.applicationDomain (state : State) (aid : Aid) : Except Error (String × Domain) :=
  match state.domains.entries.find? fun e => e.2.registryAid = aid with
  | some e => .ok e
  | none => .error .domain

end State

/-- What is live, what is durable, and the block of counters that is held back. -/
structure Store where
  journal : Journal.Journal
  state : State
  /-- A failed commit may have published these, so they stay protected. -/
  uncommittedImages : List Descriptor
  transaction : Option PendingTransaction
  /-- The next counter to issue, and the reserved value it stops at. -/
  sequence : Nat × Nat

abbrev StoreM := EStateM Error Store

/-- Run a journal operation on the journal of the store; a failure keeps what it wrote. -/
def onJournal {α : Type} (operation : JournalM α) : StoreM α := fun store =>
  match operation store.journal with
  | .ok a journal => .ok a { store with journal := journal }
  | .error e journal => .error e { store with journal := journal }

def modifyState (update : State → State) : StoreM Unit := modify fun store => { store with state := update store.state }

/-- Why a recovered state was refused. -/
def decodingError : Error → Error
  | .incompatibleState => .incompatibleState
  | _ => .storage

def decodeRecovered (data : List Byte) : Except Error State := (State.decodeSnapshot data).mapError decodingError

/-- What a power cut in the middle of an operation leaves the flash to do afterwards. -/
def restorePower (budget : Option Nat) : JournalM Unit := modify fun journal => journal.withBudget budget

section Metadata

variable (provider : CryptoProvider)

/-- Publishes existing image descriptors; this never stages or erases code. -/
def commitMetadataSnapshot : StoreM Unit := do
  let store ← get
  let data ← readOnly store.state.encodeSnapshot
  let _ ← onJournal (commitOwnedWithNonce data .anchored provider none)
  modify fun store => { store with uncommittedImages := [] }

def finishPublication (undo : State → State) : Except Error Unit → StoreM Unit
  | .ok _ => pure ()
  | .error e => do
      modifyState undo
      throw e

/-- Change the live state and commit it; a failure takes the change back. -/
def publish (change undo : State → State) : StoreM Unit := do
  modifyState change
  let result ← capture (commitMetadataSnapshot provider)
  finishPublication undo result

def insertDomain (id : String) (domain : Domain) : StoreM Unit := do
  let store ← get
  failIf (store.state.domains.contains id) .domain
  publish provider (fun state => { state with domains := state.domains.insert (id, domain) })
    fun state => { state with domains := state.domains.erase id }

def removeDomain (index : Nat) : StoreM Unit := do
  let store ← get
  let previous ← orFail store.state.domains.entries[index]? .missing
  publish provider (fun state => { state with domains := state.domains.erase previous.1 })
    fun state => { state with domains := state.domains.insert previous }

def updateDomainPolicy (id : String) (policy : DomainPolicy) : StoreM Unit := do
  let store ← get
  let found ← orFail (store.state.domains.find id) .domain
  failIf (found.2.key.isSome ∨ ¬found.2.imageRefs.isEmpty ∨ ¬found.2.instances.isEmpty ∨ ¬found.2.store.isEmpty ∨
    ¬found.2.blobs.isEmpty ∨ ¬found.2.keys.isEmpty) .busy
  onlyIf (found.2.policy ≠ policy) (publish provider
    (fun state => { state with domains := adjust state.domains id fun domain => { domain with policy := policy } })
    fun state => { state with domains := adjust state.domains id fun domain => { domain with policy := found.2.policy } })

def reserveSequenceWindow (reserved : UInt32) : StoreM Unit := do
  let store ← get
  publish provider (fun state => { state with scp03Sequence := reserved })
    fun state => { state with scp03Sequence := store.state.scp03Sequence }

/-- Hand out the next counter. A block of values is made durable before any of them is
used, so a power cut loses the unused remainder. -/
def nextSecureChannelSequence : StoreM Nat := do
  let store ← get
  onlyIf (store.sequence.2 ≤ store.sequence.1) (do
    failIf (sequenceCeiling < store.state.scp03Sequence.toNat) .unauthorized
    let reserved := min (min (store.state.scp03Sequence.toNat + sequenceWindow) (2 ^ 32 - 1)) (sequenceCeiling + 1)
    reserveSequenceWindow provider (UInt32.ofNat reserved)
    modify fun store => { store with sequence := (store.sequence.1, reserved) })
  let store ← get
  failIf (sequenceCeiling < store.sequence.1) .unauthorized
  modify fun store => { store with sequence := (store.sequence.1 + 1, store.sequence.2) }
  pure store.sequence.1

end Metadata

section Packages

variable (provider : CryptoProvider)

structure PackageActivation where
  name : String
  metadata : StoredPackage
  raw : List Byte
  bindings : List ResolvedDependency
  imports : List ResolvedCall
  schema : Schema

/-- Both generations' images stay protected until a later successful commit. -/
def Store.protectedImages (store : Store) : Except Error (List Descriptor) :=
  (store.state.allDomains.flatMap fun d => d.2.imageRefs.entries.map Prod.snd).foldlM (fun protected' descriptor => do
    if descriptor ∈ protected' then pure protected'
    else do
      failIf (protected'.length = 64) .quota
      pure (protected' ++ [descriptor])) store.uncommittedImages

/-- The maps of a domain that an activation publishes before the image. -/
def PackageActivation.activated (candidate : PackageActivation) (domain : Domain) : Domain :=
  { domain with
    packages := domain.packages.insert (candidate.name, candidate.metadata)
    versions := domain.versions.insert (candidate.name, candidate.metadata.manifest.version, candidate.metadata.digest)
    bindings := domain.bindings.insert (candidate.name, candidate.bindings)
    imports := domain.imports.insert (candidate.name, candidate.imports)
    key := some candidate.metadata.signer
    storageSchema := candidate.schema }

/-- Restore what an activation had published. -/
def PackageActivation.restored (previous domain : Domain) : Domain :=
  { domain with
    packages := previous.packages
    versions := previous.versions
    bindings := previous.bindings
    imports := previous.imports
    key := previous.key
    storageSchema := previous.storageSchema }

/-- Link the candidate, write its image next to the protected ones and publish it. -/
def activateImage (owner : Owner) (previous : Domain) (candidate : PackageActivation) (protected' : List Descriptor)
    (linked : State → Except Error Unit) (cancelled : Bool) (stage : List Descriptor → Except Error Descriptor) :
    StoreM Unit := do
  let store ← get
  readOnly (linked store.state)
  failIf (cancelled = true) .cancelled
  let descriptor ← readOnly (stage protected')
  failIf (descriptor ∉ protected' ∧ protected'.length = 64) .quota
  modify fun store => { store with
    uncommittedImages := if descriptor ∈ protected' then protected' else protected' ++ [descriptor] }
  publish provider
    (fun state => owner.update (fun domain => { domain with imageRefs := domain.imageRefs.insert (candidate.name, descriptor) })
      state)
    fun state => owner.update (fun domain => { domain with imageRefs := previous.imageRefs }) state

def finishActivation (owner : Owner) (previous : Domain) : Except Error Unit → StoreM Unit
  | .ok _ => pure ()
  | .error e => do
      modifyState fun state => owner.update (PackageActivation.restored previous) state
      throw e

def activatePackage (candidate : PackageActivation) (linked : State → Except Error Unit) (cancelled : Bool)
    (stage : List Descriptor → Except Error Descriptor) : StoreM Unit := do
  let store ← get
  let domain ← orFail (store.state.domain candidate.metadata.manifest.domain) .domain
  let owner ← readOnly (Owner.resolve store.state domain.registryAid)
  let protected' ← readOnly store.protectedImages
  let previous ← orFail (owner.domain store.state) .domain
  modifyState fun state => owner.update candidate.activated state
  let result ← capture (activateImage provider owner previous candidate protected' linked cancelled stage)
  finishActivation owner previous result

def removePackage (id name : String) : StoreM Unit := do
  let store ← get
  failIf (id = "ISD" ∧ name = "mscorlib") .unauthorized
  failIf (store.state.providerInUse id name) .busy
  let domain ← orFail (store.state.domain id) .domain
  failIf (domain.instances.entries.any fun e => e.2 = name) .busy
  let owner ← readOnly (Owner.resolve store.state domain.registryAid)
  let package ← orFail (domain.packages.find name) .missing
  let image ← orFail (domain.imageRefs.find name) .storage
  let binding ← orFail (domain.bindings.find name) .storage
  let imports ← orFail (domain.imports.find name) .storage
  publish provider
    (fun state => owner.update (fun domain => { domain with
      packages := domain.packages.erase name, imageRefs := domain.imageRefs.erase name
      bindings := domain.bindings.erase name, imports := domain.imports.erase name }) state)
    fun state => owner.update (fun domain => { domain with
      packages := domain.packages.insert package, imageRefs := domain.imageRefs.insert image
      bindings := domain.bindings.insert binding, imports := domain.imports.insert imports }) state

/-- Replace the instances of a domain, and its application data if a callback ran. -/
def commitInstanceLifecycle (aid : Aid) (instances : NameMap String) (application : Option StagedApplication) :
    StoreM Unit := do
  let store ← get
  let owner ← readOnly (Owner.resolve store.state aid)
  let previous ← orFail (owner.domain store.state) .domain
  publish provider
    (fun state => owner.update (fun domain => { domain.install (application.getD domain.application) with
      instances := instances }) state)
    fun state => owner.update (fun domain => { domain.install (application.elim domain.application fun _ =>
      previous.application) with instances := previous.instances }) state

end Packages

section Application

variable (provider : CryptoProvider) (package : Descriptor → Except Error StoredPackage)

/-- Recover the record that a reboot would select. -/
def recoverCommittedStateMode (allowUnanchored : Bool) : StoreM (List Byte) := do
  let contents ← onJournal (recoverWithReplayMode provider recorder allowUnanchored)
  let data ← orFail contents .storage
  let recovered ← readOnly (decodeRecovered data.snapshot)
  let recovered ← readOnly (recovered.loadPackages package)
  modify fun store => { store with state := recovered, transaction := none }
  pure data.snapshot

def recoverCommittedState : StoreM (List Byte) := recoverCommittedStateMode provider package false

/-- The marker of a failed commit may be durable; only recovery can tell. -/
def resolvePublication (later : Option Nat) : Except Error Unit → StoreM Unit
  | .ok _ => pure ()
  | .error e => do
      let store ← get
      onJournal (restorePower later)
      let recovered ← recoverCommittedStateMode provider package true
      failIf (store.state.encodeSnapshot.toOption ≠ some recovered) e

def commitApplicationSnapshot (later : Option Nat) : StoreM Unit := do
  let result ← capture (commitMetadataSnapshot provider)
  resolvePublication provider package later result

def installApplication (name : String) (application : StagedApplication) (state : State) : State :=
  { state with domains := adjust state.domains name fun domain => domain.install application }

def restoreApplication (aid : Aid) (application : StagedApplication) : StoreM Unit := do
  let store ← get
  let found ← readOnly (store.state.applicationDomain aid)
  modifyState (installApplication found.1 application)

def commitOrdinaryApplication (aid : Aid) (application : StagedApplication) (dirty : Bool) (later : Option Nat) :
    StoreM Unit := do
  restoreApplication aid application
  onlyIf (dirty = true) (commitApplicationSnapshot provider package later)

/-- Resolve every owner before anything is swapped. -/
def resolveChanges (state : State) (changes : List (Aid × StagedApplication)) :
    Except Error (List (String × Domain × StagedApplication)) :=
  changes.mapM fun change => do
    let found ← state.applicationDomain change.1
    pure (found.1, found.2, change.2)

def commitApplicationChanges (changes : List (Aid × StagedApplication)) (later : Option Nat) : StoreM Unit := do
  let store ← get
  let resolved ← readOnly (resolveChanges store.state changes)
  onlyIf (resolved.any fun change => change.2.2 ≠ change.2.1.application) (do
    modifyState fun state => resolved.foldl (fun state change => installApplication change.1 change.2.2 state) state
    commitApplicationSnapshot provider package later)

def commitApplication (aid : Aid) (next : StagedApplication) (later : Option Nat) : StoreM Unit :=
  commitApplicationChanges provider package [(aid, next)] later

def setCredentials (owner : Owner) (credentials : CredentialStore) (state : State) : State :=
  owner.update (fun domain => { domain with credentials := credentials }) state

def commitCredentialRetryFloor (aid : Aid) (floors : List (Int32 × (UInt8 × UInt8))) (later : Option Nat) : StoreM Unit := do
  let store ← get
  let owner ← readOnly (Owner.resolve store.state aid)
  let domain ← orFail (owner.domain store.state) .domain
  let next ← readOnly (domain.credentials.applyRetryFloor domain.incarnation floors)
  onlyIf (next.1 = true) (do
    modifyState (setCredentials owner next.2)
    commitApplicationSnapshot provider package later)

/-- The floors that were applied before one was refused. -/
def lowerInPlace (incarnation : Fixed 16) (floors : List (Int32 × (UInt8 × UInt8))) : EStateM Error (Bool × CredentialStore) Unit :=
  floors.forM fun floor state =>
    match CredentialStore.applyFloor incarnation state floor with
    | .ok next => .ok () next
    | .error e => .error e state

def applyCredentialRetryFloor (aid : Aid) (floors : List (Int32 × (UInt8 × UInt8))) : StoreM Unit := do
  let store ← get
  let owner ← readOnly (Owner.resolve store.state aid)
  let domain ← orFail (owner.domain store.state) .domain
  match lowerInPlace domain.incarnation floors (false, domain.credentials) with
  | .ok _ next => modifyState (setCredentials owner next.2)
  | .error e next => do
      modifyState (setCredentials owner next.2)
      throw e

/-- What an uncertain checkpoint has left. -/
def resolveCheckpoint (intended : List Byte) (later : Option Nat) : Except Error (List Byte) → JournalM Unit
  | .ok _ => pure ()
  | .error e => do
      restorePower later
      let contents ← recoverWithReplayMode provider recorder true
      let recovered ← orFail contents .storage
      failIf (recovered.snapshot ≠ intended) e

/-- `JournalCredentialCheckpoint`: make used retries durable while the application data
is still staged. The live state takes no part in it. -/
def checkpoint (aid : Aid) (floors : List (Int32 × (UInt8 × UInt8))) (later : Option Nat) : JournalM Unit := do
  let contents ← recoverWithReplayMode provider recorder false
  let data ← orFail contents .storage
  let durable ← readOnly (decodeRecovered data.snapshot)
  let owner ← readOnly (Owner.resolve durable aid)
  let domain ← orFail (owner.domain durable) .domain
  let next ← readOnly (domain.credentials.applyRetryFloor domain.incarnation floors)
  onlyIf (next.1 = true) (do
    let intended ← readOnly (setCredentials owner next.2 durable).encodeSnapshot
    let result ← capture (commitOwnedWithNonce intended .anchored provider none)
    resolveCheckpoint provider intended later result)

end Application

section Opening

variable (provider : CryptoProvider)

/-- The state of a card that holds nothing yet. -/
def State.initial (incarnation : Fixed 16) : State where
  isd := Domain.new incarnation Aid.isd DomainPolicy.standard
  domains := KeyedList.empty
  scp03Sequence := 0

/-- What the journal holds, or a new state that is committed first. -/
def openState (incarnation : Except Error (Fixed 16)) : Option Journal.Contents → JournalM State
  | some data => readOnly (decodeRecovered data.snapshot)
  | none => do
      let incarnation ← readOnly incarnation
      let encoded ← readOnly (State.initial incarnation).encodeSnapshot
      let _ ← commitOwnedWithNonce encoded .anchored provider none
      pure (State.initial incarnation)

/-- `open_with_staging` on a journal that knows nothing yet; `check` is what it asks of
the state it has read. -/
def openStore (incarnation : Except Error (Fixed 16)) (package : Descriptor → Except Error StoredPackage)
    (check : State → Except Error Unit) : JournalM State := do
  let contents ← recoverWithReplayMode provider recorder false
  let state ← openState provider incarnation contents
  let state ← readOnly (state.loadPackages package)
  readOnly (check state)
  pure state

/-- The store of an engine that has just been opened. -/
def Store.opened (journal : Journal.Journal) (state : State) : Store where
  journal := journal
  state := state
  uncommittedImages := []
  transaction := none
  sequence := (state.scp03Sequence.toNat, state.scp03Sequence.toNat)

end Opening

section Runs

/-- What the engine asks of its store, with what it has computed before. -/
inductive StoreOperation where
  | insertDomain (id : String) (domain : Domain)
  | removeDomain (index : Nat)
  | updateDomainPolicy (id : String) (policy : DomainPolicy)
  | activatePackage (candidate : PackageActivation) (linked : State → Except Error Unit) (cancelled : Bool)
      (stage : List Descriptor → Except Error Descriptor)
  | removePackage (id name : String)
  | commitInstanceLifecycle (aid : Aid) (instances : NameMap String) (application : Option StagedApplication)
  | restoreApplication (aid : Aid) (application : StagedApplication)
  | commitOrdinaryApplication (aid : Aid) (application : StagedApplication) (dirty : Bool) (later : Option Nat)
  | commitApplicationChanges (changes : List (Aid × StagedApplication)) (later : Option Nat)
  | commitCredentialRetryFloor (aid : Aid) (floors : List (Int32 × (UInt8 × UInt8))) (later : Option Nat)
  | applyCredentialRetryFloor (aid : Aid) (floors : List (Int32 × (UInt8 × UInt8)))
  | checkpoint (aid : Aid) (floors : List (Int32 × (UInt8 × UInt8))) (later : Option Nat)
  | recoverCommittedState
  | setTransaction (transaction : Option PendingTransaction)

def StoreOperation.run (provider : CryptoProvider) (package : Descriptor → Except Error StoredPackage) :
    StoreOperation → StoreM Unit
  | insertDomain id domain => Mc04.insertDomain provider id domain
  | removeDomain index => Mc04.removeDomain provider index
  | updateDomainPolicy id policy => Mc04.updateDomainPolicy provider id policy
  | activatePackage candidate linked cancelled stage => Mc04.activatePackage provider candidate linked cancelled stage
  | removePackage id name => Mc04.removePackage provider id name
  | commitInstanceLifecycle aid instances application => Mc04.commitInstanceLifecycle provider aid instances application
  | restoreApplication aid application => Mc04.restoreApplication aid application
  | commitOrdinaryApplication aid application dirty later =>
      Mc04.commitOrdinaryApplication provider package aid application dirty later
  | commitApplicationChanges changes later => Mc04.commitApplicationChanges provider package changes later
  | commitCredentialRetryFloor aid floors later => Mc04.commitCredentialRetryFloor provider package aid floors later
  | applyCredentialRetryFloor aid floors => Mc04.applyCredentialRetryFloor aid floors
  | checkpoint aid floors later => onJournal (Mc04.checkpoint provider aid floors later)
  | recoverCommittedState => do
      let _ ← Mc04.recoverCommittedState provider package
  | setTransaction transaction => modify fun store => { store with transaction := transaction }

/-- The store with its power failing after `budget` more flash steps. -/
def Store.withBudget (store : Store) (budget : Option Nat) : Store :=
  { store with journal := store.journal.withBudget budget }

end Runs

end MicroCard.Mc04
