import MicroCard.Engine.Sessions

/-! Heap renewal. A live committed heap is staged under a newly reserved identity, the
registry takes ownership of the staged record, and only then is the old bank prepared
and seeded with it. The session in hand moves to the renewed journal last. -/
namespace MicroCard.Engine

open Bytes Cbor CrashTriple Card Transport

section Begin

def modifyStaging (update : Staging → Staging) : EngineM Unit :=
  modifyCard fun card => { card with staging := update card.staging }

/-- The geometry of a bank. -/
def bankSize (bank : UInt8) : EngineM Nat := do
  let running ← get
  failIf (running.card.platform.bankCount ≤ bank.toNat) .bounds
  pure running.card.platform.slotSize

/-- Seal the live state as the first record of a new epoch. Failure consumes the key. -/
def prepareEpochRecord (oldIdentity : Fixed 16) (key : HeapKey) : SessionM (List Byte) := do
  let _ ← installed
  let working ← get
  failIf (working.session.key.identity ≠ oldIdentity ∨ working.session.key.digest ≠ key.digest) .keyMismatch
  let _ ← liveApplet
  let outcome ← onEngine (draw .sealRecord)
  -- The snapshot in the record fits a slot behind all of its framing.
  failIf (working.running.card.platform.slotSize - Journal.overhead + (Journal.headerBytes + 16) <
    outcome.bytes.length) .quota
  failIf (outcome.bytes.length < seedMinBytes ∨ seedMaxBytes < outcome.bytes.length) .quota
  unlessInvalid outcome.invalid
  onEngine (act (.staged key))
  match outcome.fault with
  | some fault => onEngine (fail .sealRecord fault)
  | none => pure outcome.bytes

/-- Write the record to the staging region. A failed write leaves something else. -/
def stageRecord (record : List Byte) : EngineM Unit := do
  let outcome ← draw .stageRecord
  match outcome.fault with
  | some fault => do
      modifyStaging fun staging => { staging with bytes := outcome.bytes }
      fail .stageRecord fault
  | none => modifyStaging fun staging => staging.append record

/-- Read the staged record back, authenticate it and let the applet's validator judge
its contents. -/
def checkRecord (key : HeapKey) : EngineM Unit := do
  let _ ← device .compareRecord
  let _ ← device (.hashRecord .beginning)
  let _ ← heapKey .beginning key.bank key.identity key.digest
  let outcome ← device (.authenticate .beginning)
  match outcome.invalid with
  | some e => throw e
  | none => pure ()

/-- Reserve an identity and stage the record under it; what is to be published. -/
def stageRenewal (state : Registry) (aid : Aid) (instance' : Instance) : SessionM (Renewal × Registry × Nat) := do
  let package ← onEngine (sessionImage .beginning state instance'.load)
  let (identity, nonce) ← onEngine reserveHeapIdentity
  let key ← onEngine (heapKey .beginning instance'.heapBank identity package.digest)
  let record ← prepareEpochRecord instance'.identity key
  let working ← get
  failIf (working.running.card.platform.slotSize - 3 < record.length ∨
    working.running.card.platform.stagingCapacity < record.length) .quota
  onEngine (stageRecord record)
  onEngine (checkRecord key)
  let renewal : Renewal := ⟨aid, instance'.heapBank, instance'.identity, identity, package.digest,
    UInt32.ofNat record.length, working.running.card.platform.sha256 record⟩
  match publishRenewal renewal state with
  | .error e _ => throw e
  | .ok _ next => pure (renewal, next, nonce)

/-- Publication can succeed even when its acknowledgment fails. -/
def publishStaged (next : Registry) (nonce : Nat) : EngineM Unit := do
  match ← capture (commitSnapshot .renewal (some nonce) next) with
  | .ok _ => pure ()
  | .error e => do
      let running ← get
      onlyIf (running.card.registry.pendingRenewal = .ok none) (modifyStaging Staging.reset)
      throw e

/-- The old bank is untouched; after publication only recovery may prepare it. -/
def beginRenewal (aid : Aid) : SessionM Renewal := do
  let state ← onEngine readState
  let instance' ← orFail (state.instances.entries.find? fun i => i.aid = aid) .missing
  let working ← get
  failIf (working.running.card.staging.isEmpty = false) .busy
  failIf (working.running.card.platform.stagingCapacity = 0) .unsupported
  -- Publication and recovery each need one registry record.
  let remaining ← onEngine registryRemainingCommits
  failIf (remaining < 2) .quota
  let size ← onEngine (bankSize instance'.heapBank)
  failIf (size < Journal.overhead) .bounds
  match ← capture (stageRenewal state aid instance') with
  | .error e => do
      onEngine (modifyStaging Staging.reset)
      throw e
  | .ok (renewal, next, nonce) => do
      onEngine (publishStaged next nonce)
      pure renewal

end Begin

section Recover

/-- The staged record, if it is the one the registry owns. -/
def readRecord (renewal : Renewal) : EngineM Unit := do
  let running ← get
  let length := renewal.recordLength.toNat
  failIf (running.card.platform.stagingCapacity = 0) .unsupported
  failIf (running.card.platform.stagingCapacity < length) .bounds
  let remaining ← registryRemainingCommits
  failIf (remaining = 0) .quota
  let _ ← device .readRecord
  let record := running.card.staging.bytes.take length
  failIf (record.length ≠ length) .bounds
  let _ ← device (.hashRecord .recovering)
  failIf (running.card.platform.sha256 record ≠ renewal.recordDigest) .authentication

/-- The key of the new epoch, once the staged record authenticates under it. -/
def authenticateRecord (state : Registry) (renewal : Renewal) : EngineM HeapKey := do
  let instance' ← orFail (state.instances.entries.find? fun i => i.aid = renewal.aid) .storage
  let package ← sessionImage .recovering state instance'.load
  let key ← heapKey .recovering renewal.bank renewal.newIdentity package.digest
  let outcome ← device (.authenticate .recovering)
  match outcome.invalid with
  | some e => throw e
  | none => pure key

/-- Copy the record into a prepared bank. A failure may leave either counter behind. -/
def installEmptyBank (key : HeapKey) (length : Nat) : EngineM Unit := do
  let running ← get
  failIf (running.card.platform.slotSize - Journal.tailBytes < length) .bounds
  failIf (running.card.platform.heapGenerations = 0 ∨ running.card.platform.heapAttempts = 0) .quota
  let counters := (running.card.banks key.bank).counters
  failIf (counters.monotonic ≠ 0 ∨ counters.attempts ≠ 0) .storage
  act (.seeded key (running.card.banks key.bank).prepared)
  let outcome ← draw .installSeed
  match outcome.fault with
  | some fault => do
      setBank key.bank fun b => { b with counters := ⟨min outcome.left.monotonic 1, min outcome.left.attempts 1⟩ }
      fail .installSeed fault
  | none => setBank key.bank fun b => { b with counters := ⟨1, 1⟩ }

/-- Copying the heap does not authorize execution. Publication does. -/
def restoreHeap (key : HeapKey) (length : Nat) (next : Registry) : EngineM Unit := do
  prepareBank .recovering key.bank
  installEmptyBank key length
  let _ ← device .validateJournal
  commitSnapshot .restoration none next

/-- Resolve the ownership of a staged record. Failure retains the pending descriptor. -/
def resolveRenewal (state : Registry) (renewal : Renewal) : EngineM Unit := do
  readOnly (renewal.validate state)
  let size ← bankSize renewal.bank
  failIf (size < Journal.overhead ∨ size - 3 < renewal.recordLength.toNat) .bounds
  readRecord renewal
  let key ← authenticateRecord state renewal
  -- Everything needed for recovery is authenticated before the first erase.
  match finishRenewal state with
  | .error e _ => throw e
  | .ok _ next => restoreHeap key renewal.recordLength.toNat next

def recoverRenewal : EngineM Unit := do
  let running ← get
  match ← readOnly running.card.registry.pendingRenewal with
  | none => pure ()
  | some renewal => resolveRenewal running.card.registry.state renewal

end Recover

section Handoff

/-- Keep the live applet while its journal is replaced. A failed handoff forbids stale
execution. -/
def adoptRenewedStore (key : HeapKey) : SessionM Unit := do
  let _ ← installed
  modifySession fun session => { session with recoveryRequired := true }
  let working ← get
  failIf (working.session.key.identity = key.identity) .keyMismatch
  let _ ← orFail working.session.applet .missing
  let outcome ← onEngine (device .adopt)
  unlessInvalid outcome.invalid
  let anchored ← onEngine (reconcile key.bank outcome.effect)
  modifySession fun session => { session with
    key := key, anchored := anchored, poisoned := false, recoveryRequired := false }

def handoffRenewedSession (aid : Aid) : SessionM Unit := do
  let state ← onEngine readState
  let instance' ← orFail (state.instances.entries.find? fun i => i.aid = aid) .missing
  let package ← onEngine (sessionImage .handing state instance'.load)
  let key ← onEngine (heapKey .handing instance'.heapBank instance'.identity package.digest)
  let _ ← onEngine (device .attach)
  adoptRenewedStore key

def renewEpoch (aid : Aid) : SessionM Unit := do
  let _ ← beginRenewal aid
  onEngine failIfCancelled
  onEngine recoverRenewal
  onEngine failIfCancelled
  handoffRenewedSession aid
  onEngine (modifyStaging Staging.reset)

end Handoff

end MicroCard.Engine
