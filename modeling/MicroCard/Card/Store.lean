import MicroCard.Card.Changes
import MicroCard.Journal.Atomicity

/-! The management store: a registry in memory and a journal that owns activation. A
failed write may have committed; recovery resolves it before the caller can query
state or stage another image. -/
namespace MicroCard.Card

open Bytes CrashTriple Cbor Codec
open Journal (CryptoProvider JournalM Keeps Epoch Logical MemoryFlash Contents recorder commitOwnedWithNonce
  recoverWithReplay reserveIdentityNonce)

structure Store where
  journal : Journal.Journal
  state : Registry
  recoveryRequired : Bool

abbrev StoreM := EStateM Error Store

/-- Run a journal operation on the store's journal; a failure keeps what it wrote. -/
def onJournal {α : Type} (operation : JournalM α) : StoreM α := fun store =>
  match operation store.journal with
  | .ok a journal => .ok a { store with journal := journal }
  | .error e journal => .error e { store with journal := journal }

/-- The registry that ordinary operations may read. -/
def Store.readState (store : Store) : Except Error Registry := do
  failIf store.recoveryRequired .storage
  failIf store.state.renewal.isSome .busy
  pure store.state

/-- Recovery may inspect the authenticated owner while ordinary operations are
blocked. -/
def Store.pendingRenewal (store : Store) : Except Error (Option Renewal) := do
  failIf store.recoveryRequired .storage
  pure store.state.renewal

section Operations

variable (provider : CryptoProvider)

def recover : StoreM Unit := do
  modify fun store => { store with recoveryRequired := true }
  let contents ← onJournal (recoverWithReplay provider recorder)
  let contents ← orFail contents .storage
  let state ← readOnly (Registry.decode contents.snapshot)
  modify fun store => { store with state := state, recoveryRequired := false }

def finishCommitSnapshot (next : Registry) : Except Error (List Byte) → StoreM Unit
  | .ok _ => modify fun store => { store with state := next }
  | .error e => do
      recover provider
      throw e

/-- Commit a snapshot, under the nonce reserved for it if there is one. -/
def commitSnapshot (token : Option Nat) (next : Registry) : StoreM Unit := do
  let encoded ← readOnly next.encode
  let result ← capture (onJournal (commitOwnedWithNonce encoded .anchored provider token))
  finishCommitSnapshot provider next result

def commit (next : Registry) : StoreM Unit := do
  let store ← get
  let _ ← readOnly store.readState
  commitSnapshot provider none next

/-- Compute a change on a copy of the registry and commit the copy. -/
def manage (change : Change) (cancelled : Bool) : StoreM Unit := do
  let store ← get
  let registry ← readOnly store.readState
  match change.run registry with
  | .error e _ => throw e
  | .ok _ next => do
      failIf cancelled .cancelled
      commit provider next

structure LoadRequest where
  loadAid : List Byte
  domainAid : List Byte
  hash : Option (Fixed 32)

/-- The request named another load, another domain or another image. -/
def LoadRequest.contradicts (request : LoadRequest) (package : Package) : Bool :=
  request.loadAid ≠ package.manifest.package || request.domainAid ≠ package.manifest.domain ||
    request.hash.any fun hash => hash ≠ package.digest

/-- Bind authenticated reception to the requested load and security domain, stage
the image next to the protected ones and commit its activation. -/
def loadRequested (request : LoadRequest) (raw : List Byte) (sha256 : List Byte → Except Error (Fixed 32))
    (scratch : Nat) (stage : List Descriptor → Except Error Descriptor) (cancelEarly cancelLate : Bool) :
    StoreM Descriptor := do
  let store ← get
  let registry ← readOnly store.readState
  failIf cancelEarly .cancelled
  let domain ← readOnly (Aid.new request.domainAid)
  let authority ← orFail (registry.domains.entries.find? fun d => d.aid = domain) .missing
  let package ← readOnly (Package.verify raw domain.bytes authority.incarnation sha256 scratch)
  failIf (request.contradicts package) .signature
  let _ ← readOnly (registry.activationSlots package)
  let image ← readOnly (stage (registry.loads.entries.filterMap Load.image))
  match activate package image registry with
  | .error e _ => throw e
  | .ok _ next => do
      failIf cancelLate .cancelled
      onlyIf (next ≠ registry) (commit provider next)
      pure image

/-- An identity that carries its counter value. -/
def heapIdentity (nonce : Nat) : Fixed 16 :=
  ⟨toLE 8 nonce ++ [0x4a, 0x43, 0x56, 0x4d, 0x76, 0x31, 0, 0], by simp⟩

def reserveHeapIdentity : StoreM (Fixed 16 × Nat) := do
  let store ← get
  let _ ← readOnly store.readState
  let nonce ← onJournal reserveIdentityNonce
  pure (heapIdentity nonce, nonce)

/-- Reserve an identity, do what has to be durable under it first, and publish a
change that names it under the nonce that was reserved. -/
def publish (change : Fixed 16 → Change) (prepared : Fixed 16 → Except Error Unit) : StoreM Unit := do
  let store ← get
  let registry ← readOnly store.readState
  let (identity, nonce) ← reserveHeapIdentity
  readOnly (prepared identity)
  match (change identity).run registry with
  | .error e _ => throw e
  | .ok _ next => commitSnapshot provider (some nonce) next

/-- Resolve a pending renewal once its heap has been restored. -/
def resolve (restored : Except Error Unit) : StoreM Unit := do
  let store ← get
  match ← readOnly store.pendingRenewal with
  | none => pure ()
  | some _ => do
      readOnly restored
      match finishRenewal store.state with
      | .error e _ => throw e
      | .ok _ next => commitSnapshot provider none next

end Operations

section Runs

/-- What a caller may ask of the store. -/
inductive StoreOperation where
  | manage (change : Change) (cancelled : Bool)
  | load (request : LoadRequest) (raw : List Byte) (sha256 : List Byte → Except Error (Fixed 32)) (scratch : Nat)
      (stage : List Descriptor → Except Error Descriptor) (cancelEarly cancelLate : Bool)
  | install (package : Package) (module aid : Aid) (heapBank : UInt8) (prepared : Fixed 16 → Except Error Unit)
  | beginRenewal (renewal : Fixed 16 → Renewal) (prepared : Fixed 16 → Except Error Unit)
  | recoverRenewal (restored : Except Error Unit)
  | recover

namespace StoreOperation

/-- Management changes metadata only; a load is activated by `load`. -/
def Offered : StoreOperation → Prop
  | manage change _ => (∃ aid incarnation, change = .addDomain aid incarnation) ∨ (∃ aid, change = .removeDomain aid) ∨
      (∃ count, change = .reserveSequences count) ∨ (∃ aid, change = .removeLoad aid) ∨
      ∃ aid, change = .removeInstance aid
  | _ => True

def run (provider : CryptoProvider) : StoreOperation → StoreM Unit
  | manage change cancelled => Card.manage provider change cancelled
  | load request raw sha256 scratch stage cancelEarly cancelLate => do
      let _ ← loadRequested provider request raw sha256 scratch stage cancelEarly cancelLate
  | install package module aid heapBank prepared =>
      publish provider (fun identity => .register package module aid identity heapBank) prepared
  | beginRenewal renewal prepared => publish provider (fun identity => .publishRenewal (renewal identity)) prepared
  | recoverRenewal restored => resolve provider restored
  | recover => Card.recover provider

end StoreOperation

/-- The store a run reached, whether it succeeded or not. -/
def finalStore {α : Type} : EStateM.Result Error Store α → Store
  | .ok _ store => store
  | .error _ store => store

def Store.withBudget (store : Store) (budget : Option Nat) : Store :=
  { store with journal := store.journal.withBudget budget }

/-- Open the store of a fresh flash: nothing is recovered, so the initial registry
is committed. -/
def openFresh (provider : CryptoProvider) (flash : MemoryFlash) (key : List Byte) (initial : Registry) :
    Except Error Store := do
  match Journal.openMode flash key provider false recorder with
  | .error e _ => throw e
  | .ok (some contents) journal => do
      let state ← Registry.decode contents.snapshot
      pure ⟨journal, state, false⟩
  | .ok none journal => do
      let encoded ← initial.encode
      match commitOwnedWithNonce encoded .anchored provider none journal with
      | .error e _ => throw e
      | .ok _ journal => pure ⟨journal, initial, false⟩

/-- Open the flash of a store again. A failure leaves a store that needs recovery. -/
def reopen (provider : CryptoProvider) (store : Store) (budget : Option Nat) : Store :=
  match Journal.reopen provider store.journal budget with
  | .error _ journal => { store with journal := journal, recoveryRequired := true }
  | .ok contents journal =>
      match contents.map fun contents => Registry.decode contents.snapshot with
      | some (.ok state) => ⟨journal, state, false⟩
      | _ => { store with journal := journal, recoveryRequired := true }

/-- Stores reached by any sequence of operations and reopenings, with the power cut
at any step of any of them. -/
inductive Store.Reachable (provider : CryptoProvider) : Store → Prop where
  | fresh {size slotCount : Nat} {bounded : size < 2 ^ 63} {key : List Byte} {incarnation : Fixed 16} {store : Store}
      (opened : openFresh provider (MemoryFlash.withSlots size slotCount bounded) key (Registry.new incarnation) =
        .ok store) : Store.Reachable provider store
  | operate {store : Store} {operation : StoreOperation} (reachable : Store.Reachable provider store)
      (offered : operation.Offered) (budget : Option Nat) :
      Store.Reachable provider (finalStore (operation.run provider (store.withBudget budget)))
  | reopen {store : Store} (reachable : Store.Reachable provider store) (budget : Option Nat) :
      Store.Reachable provider (Card.reopen provider store budget)

end Runs

end MicroCard.Card
