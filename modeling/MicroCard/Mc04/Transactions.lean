import MicroCard.Mc04.Store
import MicroCard.Mc04.Linking

/-! One command of an application: the native calls that reach the staged data of its
domain, the transaction that it may open, and the retry floors that outlive it. -/
namespace MicroCard.Mc04

open Bytes CrashTriple Cbor
open Card (Aid Descriptor)
open Journal (CryptoProvider)

def maxTransactionCommands : Nat := 16

/-- What a command may spend on native calls. -/
def nativeBudget : Nat := 1024

def maxCredentialBytes : Nat := 96
def maxKeyServiceArgumentBytes : Nat := 1024
def maxKeyServiceTotalBytes : Nat := 2048

/-- A byte array that an application passes, with an offset and a length in it. -/
structure ArrayRange where
  bytes : List Byte
  offset : Int32
  length : Int32

/-- `native_range`: the bytes that are meant. -/
def ArrayRange.read (range : ArrayRange) : Except Error (List Byte) := do
  failIf (range.offset.toInt < 0 ∨ range.length.toInt < 0) .bounds
  let offset := range.offset.toInt.toNat
  orFail (range? range.bytes offset (offset + range.length.toInt.toNat)) .bounds

section Transactions

inductive TransactionDisposition where
  | inactive
  | active
  | begun
  | commit
  | abort
  deriving DecidableEq

namespace TransactionDisposition

def begin' : TransactionDisposition → Except Error TransactionDisposition
  | inactive => .ok begun
  | _ => .error .busy

def commit' : TransactionDisposition → Except Error TransactionDisposition
  | active | begun => .ok commit
  | _ => .error .missing

def abort' : TransactionDisposition → Except Error TransactionDisposition
  | active | begun => .ok abort
  | _ => .error .missing

/-- `transaction_involved`. -/
def involved (transaction : TransactionDisposition) : Bool := transaction ≠ inactive

end TransactionDisposition

end Transactions

section Credentials

/-- `CredentialAuthorizations`: the slots that were verified during the command. -/
def authorize (slots : List Int32) (slot : Int32) : Except Error (List Int32) :=
  if slot ∈ slots then .ok slots
  else if slots.length < maxCredentialSlots then .ok (slots ++ [slot])
  else .error .quota

/-- The lowest counters that each slot had during the command. -/
abbrev CredentialRetryFloors := List (Int32 × (UInt8 × UInt8))

def CredentialRetryFloors.record (floors : CredentialRetryFloors) (slot : Int32) (remaining : UInt8 × UInt8) :
    Except Error CredentialRetryFloors :=
  if floors.any fun floor => floor.1 = slot then
    .ok (floors.map fun floor =>
      if floor.1 = slot then (slot, min floor.2.1 remaining.1, min floor.2.2 remaining.2) else floor)
  else if floors.length < maxCredentialSlots then .ok (floors ++ [(slot, remaining)])
  else .error .quota

/-- A comparison of a candidate with a stored digest: of the PIN or of the PUK of a slot, and
whether they matched. -/
structure SecretComparison where
  slot : Int32
  puk : Bool
  matched : Bool
  deriving DecidableEq

end Credentials

/-- Application data that holds nothing. -/
def StagedApplication.empty : StagedApplication := ⟨KeyedList.empty, KeyedList.empty, KeyStore.empty, CredentialStore.empty⟩

/-- What native calls work on during a command. -/
structure Host where
  application : StagedApplication
  authorizedCredentials : List Int32
  credentialRetryFloor : CredentialRetryFloors
  /-- The incarnation of the domain. -/
  owner : Fixed 16
  budget : Nat
  capabilities : List UInt8
  domainSchema : Schema
  maxIntRecords : Nat
  maxBlobRecords : Nat
  maxBlobBytes : Nat
  maxKeySlots : Nat
  units : List ExecutionUnit
  transaction : TransactionDisposition
  transactionSnapshot : Option StagedApplication
  persistentDirty : Bool
  irreversibleOutput : Bool

/-- The host of a command that has not made a call yet. -/
def Host.start (domain : Domain) (application : StagedApplication) (units : List ExecutionUnit)
    (transaction : TransactionDisposition) : Host where
  application := application
  authorizedCredentials := []
  credentialRetryFloor := []
  owner := domain.incarnation
  budget := nativeBudget
  capabilities := (units.head?.map fun unit => unit.package.manifest.capabilities).getD []
  domainSchema := domain.storageSchema
  maxIntRecords := domain.policy.maxIntRecords.toNat
  maxBlobRecords := domain.policy.maxBlobRecords.toNat
  maxBlobBytes := domain.policy.maxBlobBytes.toNat
  maxKeySlots := domain.policy.maxKeySlots.toNat
  units := units
  transaction := transaction
  transactionSnapshot := none
  persistentDirty := false
  irreversibleOutput := false

/-- A command in progress. The comparisons it made and the pins it has written are kept for
the proofs: no call reads them. -/
structure Running where
  host : Host
  journal : Journal.Journal
  comparisons : List SecretComparison
  hardware : List (Int32 × Int32)

abbrev HostM := EStateM Error Running

/-- What the board answers during a call, and the power that is left after a failed write. -/
structure Moment where
  platform : Platform
  later : Option Nat

/-- What a native call returns. -/
inductive Reply where
  | void
  | scalar (value : Int32)
  | bytes (value : List Byte)
  deriving DecidableEq

/-- The native calls. Those that only read keys share one form, and so do those that reach
neither the data of the domain nor a pin. -/
inductive HostCall where
  | getInt32 (key : Int32)
  | setInt32 (key value : Int32)
  | getBytes (key : Int32)
  | setBytes (key : Int32) (value : List Byte)
  | setBytesRange (key : Int32) (value : ArrayRange)
  | deleteBytes (key : Int32)
  | containsBytes (key : Int32)
  | generateKey (slot algorithm : Int32)
  | deleteKey (slot : Int32)
  | useKey (native : Native) (cost : Nat) (use : KeyStore → Fixed 16 → Except Error (List Byte))
  | createCredential (slot : Int32) (pin puk : ArrayRange) (retries : Int32 × Int32)
  | verify (slot : Int32) (candidate : ArrayRange)
  | isVerified (slot : Int32)
  | change (slot : Int32) (newPin : ArrayRange)
  | unblock (slot : Int32) (puk newPin : ArrayRange)
  | retriesRemaining (slot kind : Int32)
  | begin'
  | commit'
  | abort'
  | writeHardware (resource value : Int32)
  | service (native : Native) (cost : Nat) (answer : Except Error Reply)

/-- The native operation behind a call. -/
def HostCall.native : HostCall → Native
  | getInt32 _ => .storageServiceGetInt32
  | setInt32 _ _ => .storageServiceSetInt32
  | getBytes _ => .storageServiceGetBytes
  | setBytes _ _ => .storageServiceSetBytes2Args
  | setBytesRange _ _ => .storageServiceSetBytes4Args
  | deleteBytes _ => .storageServiceDeleteBytes
  | containsBytes _ => .storageServiceContainsBytes
  | generateKey _ _ => .keyServiceGenerate
  | deleteKey _ => .keyServiceDelete
  | useKey native _ _ => native
  | createCredential _ _ _ _ => .credentialServiceCreate
  | verify _ _ => .credentialServiceVerify
  | isVerified _ => .credentialServiceIsVerified
  | change _ _ => .credentialServiceChange
  | unblock _ _ _ => .credentialServiceUnblock
  | retriesRemaining _ _ => .credentialServiceRetriesRemaining
  | begin' => .transactionScopeRuntimeBegin
  | commit' => .transactionScopeRuntimeCommit
  | abort' => .transactionScopeRuntimeAbort
  | writeHardware _ _ => .runtimeServiceWriteHardware
  | service native _ _ => native

namespace Host

def modifyHost (f : Host → Host) : HostM Unit := modify fun running => { running with host := f running.host }

/-- Replace the data that the command has staged. -/
def setApplication (f : StagedApplication → StagedApplication) : HostM Unit :=
  modifyHost fun host => { host with application := f host.application }

def setDirty (changed : Bool) : HostM Unit :=
  modifyHost fun host => { host with persistentDirty := host.persistentDirty || changed }

/-- Replace the data, which have to be written then. -/
def stage (f : StagedApplication → StagedApplication) : HostM Unit := do
  setApplication f
  setDirty true

def requireCapability (native : Native) : HostM Unit := do
  let running ← get
  failIf (native.id ∉ running.host.capabilities) .unauthorized

def spend (cost : Nat) : HostM Unit := do
  let running ← get
  failIf (running.host.budget < cost) .budget
  modifyHost fun host => { host with budget := host.budget - cost }

/-- The capability of a call first, then its price. -/
def charge (native : Native) (cost : Nat) : HostM Unit := do
  requireCapability native
  spend cost

section Storage

/-- The part of `authorize_storage` that asks the package. -/
def declared (host : Host) (unit : Nat) (key : Int32) (kind : UInt8) (length : Option Nat) : Except Error Unit := do
  let source ← orFail host.units[unit]? .unauthorized
  failIf (source.package.manifest.incarnation ≠ host.owner) .unauthorized
  let declaration ← orFail (source.package.manifest.storage.find? fun declaration => declaration.key = key) .unauthorized
  failIf (declaration.kind ≠ kind ∨ host.domainSchema.declaration key ≠ some declaration) .unauthorized
  failIf (length.any (fun length => declaration.maxBytes.toNat < length) = true) .quota

/-- The calls whose key the package has to declare. -/
def authorizeStorage (host : Host) (unit : Nat) : HostCall → Except Error Unit
  | .getInt32 key | .setInt32 key _ => host.declared unit key 1 none
  | .getBytes key | .deleteBytes key | .containsBytes key => host.declared unit key 2 none
  | .setBytes key value => host.declared unit key 2 (some value.length)
  | _ => .ok ()

def getInt32 (key : Int32) : HostM Reply := do
  charge .storageServiceGetInt32 1
  let running ← get
  pure (.scalar ((running.host.application.store.find key.toInt).elim 0 Prod.snd))

def setInt32 (key value : Int32) : HostM Reply := do
  charge .storageServiceSetInt32 1
  let running ← get
  let store := running.host.application.store
  failIf (store.contains key.toInt = false ∧ running.host.maxIntRecords ≤ store.length) .quota
  onlyIf ((store.find key.toInt).map Prod.snd ≠ some value)
    (stage fun application => { application with store := application.store.insert (key, value) })
  pure .void

def keyCost (bytes : Nat) : Nat := 32 + bytes / 16

def getBytes (key : Int32) : HostM Reply := do
  charge .storageServiceGetBytes (keyCost 0)
  let running ← get
  pure (.bytes ((running.host.application.blobs.find key.toInt).elim [] Prod.snd))

/-- What both ways to store bytes do, once the length of their argument is checked. -/
def storeBytes (key : Int32) (value : List Byte) : HostM Reply := do
  failIf (maxKeyServiceTotalBytes < value.length) .quota
  spend (keyCost value.length)
  let running ← get
  let blobs := running.host.application.blobs
  let total := blobBytes blobs - blobs.weightOf (fun e => e.2.length) key.toInt + value.length
  failIf (maxDeclaredBlobBytes < value.length) .quota
  failIf ((blobs.contains key.toInt = false ∧ running.host.maxBlobRecords ≤ blobs.length) ∨ running.host.maxBlobBytes < total)
    .quota
  onlyIf ((blobs.find key.toInt).map Prod.snd ≠ some value)
    (stage fun application => { application with blobs := application.blobs.insert (key, value) })
  pure .void

def setBytes (key : Int32) (value : List Byte) : HostM Reply := do
  requireCapability .storageServiceSetBytes2Args
  failIf (maxDeclaredBlobBytes < value.length) .quota
  storeBytes key value

def setBytesRange (key : Int32) (value : ArrayRange) : HostM Reply := do
  requireCapability .storageServiceSetBytes4Args
  failIf (maxKeyServiceArgumentBytes < value.bytes.length) .quota
  let value ← readOnly value.read
  storeBytes key value

def deleteBytes (key : Int32) : HostM Reply := do
  charge .storageServiceDeleteBytes (keyCost 0)
  let running ← get
  failIf (running.host.application.blobs.contains key.toInt = false) .missing
  stage fun application => { application with blobs := application.blobs.erase key.toInt }
  pure .void

def containsBytes (key : Int32) : HostM Reply := do
  charge .storageServiceContainsBytes (keyCost 0)
  let running ← get
  pure (.scalar (if running.host.application.blobs.contains key.toInt then 1 else 0))

end Storage

section Keys

def generateKey (platform : Platform) (slot algorithm : Int32) : HostM Reply := do
  charge .keyServiceGenerate (keyCost 0)
  let running ← get
  failIf (running.host.maxKeySlots ≤ running.host.application.keys.length) .quota
  let generated ← readOnly (running.host.application.keys.generate running.host.owner slot algorithm platform.random)
  stage fun application => { application with keys := generated.2 }
  pure (.bytes generated.1)

def deleteKey (slot : Int32) : HostM Reply := do
  charge .keyServiceDelete (keyCost 0)
  let running ← get
  let keys ← readOnly (running.host.application.keys.delete slot)
  stage fun application => { application with keys := keys }
  pure .void

def useKey (service : Native) (cost : Nat) (use : KeyStore → Fixed 16 → Except Error (List Byte)) : HostM Reply := do
  charge service cost
  let running ← get
  let output ← readOnly (use running.host.application.keys running.host.owner)
  pure (.bytes output)

end Keys

section Credentials

/-- What credential calls spend: their secrets are bounded together. -/
def spendSecrets (bytes : Nat) : HostM Unit := do
  failIf (maxCredentialBytes < bytes) .quota
  spend (64 + bytes)

def setCredentials (credentials : CredentialStore) : HostM Unit :=
  setApplication fun application => { application with credentials := credentials }

/-- Note a comparison, if there was one: an exhausted counter makes none. -/
def compared (slot : Int32) (puk : Bool) (result : Bool × Bool) : HostM Unit :=
  onlyIf (result.1 = true ∨ result.2 = true)
    (modify fun running => { running with comparisons := running.comparisons ++ [⟨slot, puk, result.1⟩] })

def authorizeSlot (slot : Int32) : HostM Unit := do
  let running ← get
  let slots ← readOnly (authorize running.host.authorizedCredentials slot)
  modifyHost fun host => { host with authorizedCredentials := slots }

def revokeSlot (slot : Int32) : HostM Unit :=
  modifyHost fun host => { host with authorizedCredentials := host.authorizedCredentials.filter (· ≠ slot) }

def recordCredentialRetryFloor (slot : Int32) : HostM Unit := do
  let running ← get
  let remaining ← readOnly (running.host.application.credentials.retries running.host.owner slot)
  let floors ← readOnly (running.host.credentialRetryFloor.record slot remaining)
  modifyHost fun host => { host with credentialRetryFloor := floors }

/-- Run an operation on the journal while the command keeps its host. -/
def onJournal {α : Type} (operation : Journal.JournalM α) : HostM α := fun running =>
  match operation running.journal with
  | .ok a journal => .ok a { running with journal := journal }
  | .error e journal => .error e { running with journal := journal }

variable (provider : CryptoProvider) (aid : Aid)

/-- A failed checkpoint must take the unsafe-exit recovery path, so the command counts as
dirty until it is done. -/
def checkpointCredentialRetryFloor (later : Option Nat) (slot : Int32) : HostM Unit := do
  recordCredentialRetryFloor slot
  let running ← get
  let ordinaryDirty := running.host.persistentDirty
  modifyHost fun host => { host with persistentDirty := true }
  let running ← get
  onJournal (checkpoint provider aid running.host.credentialRetryFloor later)
  modifyHost fun host => { host with persistentDirty := ordinaryDirty }

def createCredential (platform : Platform) (slot : Int32) (pin puk : ArrayRange) (retries : Int32 × Int32) : HostM Reply := do
  requireCapability .credentialServiceCreate
  let pin ← readOnly pin.read
  let puk ← readOnly puk.read
  spendSecrets (pin.length + puk.length)
  let running ← get
  let credentials ← readOnly (running.host.application.credentials.create platform running.host.owner slot pin puk retries)
  stage fun application => { application with credentials := credentials }
  pure .void

/-- What follows a comparison with the PIN. -/
def finishVerify (later : Option Nat) (slot : Int32) (result : Bool × Bool) : HostM Unit :=
  if result.1 then do
    authorizeSlot slot
    setDirty result.2
  else do
    revokeSlot slot
    onlyIf (result.2 = true) (checkpointCredentialRetryFloor provider aid later slot)

def verify (moment : Moment) (slot : Int32) (candidate : ArrayRange) : HostM Reply := do
  requireCapability .credentialServiceVerify
  let candidate ← readOnly candidate.read
  spendSecrets candidate.length
  let running ← get
  let verified ← readOnly
    (running.host.application.credentials.verifyPin moment.platform running.host.owner slot candidate)
  setCredentials verified.2
  compared slot false verified.1
  finishVerify provider aid moment.later slot verified.1
  pure (.scalar (if verified.1.1 then 1 else 0))

def isVerified (slot : Int32) : HostM Reply := do
  requireCapability .credentialServiceIsVerified
  spendSecrets 0
  let running ← get
  pure (.scalar (if slot ∈ running.host.authorizedCredentials then 1 else 0))

def change (platform : Platform) (slot : Int32) (newPin : ArrayRange) : HostM Reply := do
  requireCapability .credentialServiceChange
  let newPin ← readOnly newPin.read
  spendSecrets newPin.length
  let running ← get
  failIf (slot ∉ running.host.authorizedCredentials) .unauthorized
  let changed ← readOnly (running.host.application.credentials.changePin platform running.host.owner slot newPin)
  setCredentials changed.2
  setDirty changed.1
  pure .void

/-- What follows a comparison with the PUK. -/
def finishUnblock (later : Option Nat) (slot : Int32) (result : Bool × Bool) : HostM Unit :=
  if result.1 then do
    authorizeSlot slot
    setDirty result.2
  else onlyIf (result.2 = true) (checkpointCredentialRetryFloor provider aid later slot)

def unblock (moment : Moment) (slot : Int32) (puk newPin : ArrayRange) : HostM Reply := do
  requireCapability .credentialServiceUnblock
  let puk ← readOnly puk.read
  let newPin ← readOnly newPin.read
  spendSecrets (puk.length + newPin.length)
  let running ← get
  let unblocked ← readOnly
    (running.host.application.credentials.unblock moment.platform running.host.owner slot puk newPin)
  setCredentials unblocked.2
  compared slot true unblocked.1
  finishUnblock provider aid moment.later slot unblocked.1
  pure (.scalar (if unblocked.1.1 then 1 else 0))

def retriesRemaining (slot kind : Int32) : HostM Reply := do
  requireCapability .credentialServiceRetriesRemaining
  spendSecrets 0
  let running ← get
  let remaining ← readOnly (running.host.application.credentials.retries running.host.owner slot)
  failIf (kind ≠ 0 ∧ kind ≠ 1) .bounds
  pure (.scalar (if kind = 0 then remaining.1.toNat.toInt32 else remaining.2.toNat.toInt32))

end Credentials

section Transactions

def beginTransaction : HostM Reply := do
  let running ← get
  failIf (running.host.irreversibleOutput = true ∨ running.host.persistentDirty = true) .unauthorized
  let transaction ← readOnly running.host.transaction.begin'
  modifyHost fun host => { host with
    transaction := transaction
    transactionSnapshot := some host.application }
  pure .void

def commitTransaction : HostM Reply := do
  let running ← get
  let transaction ← readOnly running.host.transaction.commit'
  modifyHost fun host => { host with transaction := transaction }
  pure .void

def abortTransaction : HostM Reply := do
  let running ← get
  let transaction ← readOnly running.host.transaction.abort'
  modifyHost fun host => { host with transaction := transaction }
  pure .void

/-- A pin is written outside of transactions only, and none can be opened after it. -/
def writeHardware (platform : Platform) (resource value : Int32) : HostM Reply := do
  let running ← get
  failIf (running.host.transaction.involved = true) .unauthorized
  charge .runtimeServiceWriteHardware 1
  readOnly (platform.gpio resource value)
  modify fun running => { running with hardware := running.hardware ++ [(resource, value)] }
  modifyHost fun host => { host with irreversibleOutput := true }
  pure .void

end Transactions

section Invocation

variable (provider : CryptoProvider) (aid : Aid)

def dispatch (moment : Moment) : HostCall → HostM Reply
  | .getInt32 key => getInt32 key
  | .setInt32 key value => setInt32 key value
  | .getBytes key => getBytes key
  | .setBytes key value => setBytes key value
  | .setBytesRange key value => setBytesRange key value
  | .deleteBytes key => deleteBytes key
  | .containsBytes key => containsBytes key
  | .generateKey slot algorithm => generateKey moment.platform slot algorithm
  | .deleteKey slot => deleteKey slot
  | .useKey service cost use => useKey service cost use
  | .createCredential slot pin puk retries => createCredential moment.platform slot pin puk retries
  | .verify slot candidate => verify provider aid moment slot candidate
  | .isVerified slot => isVerified slot
  | .change slot newPin => change moment.platform slot newPin
  | .unblock slot puk newPin => unblock provider aid moment slot puk newPin
  | .retriesRemaining slot kind => retriesRemaining slot kind
  | .begin' => beginTransaction
  | .commit' => commitTransaction
  | .abort' => abortTransaction
  | .writeHardware resource value => writeHardware moment.platform resource value
  | .service _ cost answer => do
      spend cost
      readOnly answer

/-- What is left to an application whose transaction has been committed or aborted. -/
def afterTransaction (native : Native) : Bool :=
  native = .responseServiceSetStatus || native = .responseServiceWrite || native = .transactionRuntimeCurrent

/-- A native call from a member of a linked unit. -/
def invoke (moment : Moment) (unit member : Nat) (call : HostCall) : HostM Reply := do
  let running ← get
  let source ← orFail running.host.units[unit]? .unauthorized
  failIf (¬source.calls.any fun binding => binding.member.toNat = member && binding.target = .native call.native.id)
    .unauthorized
  failIf ((running.host.transaction = .commit ∨ running.host.transaction = .abort) ∧
    afterTransaction call.native = false) .unauthorized
  modifyHost fun host => { host with capabilities := source.package.manifest.capabilities }
  readOnly (running.host.authorizeStorage unit call)
  dispatch provider aid moment call

end Invocation

end Host

/-- What an application does, as far as its domain can tell: native calls whose replies decide
how it goes on, and an end. A failed call ends it; so do a fault of the interpreter, a
cancellation and an exhausted budget, at any place. -/
inductive Application where
  | done (outcome : Except Error Unit)
  | call (moment : Moment) (unit member : Nat) (operation : HostCall) (next : Reply → Application)

section Runs

variable (provider : CryptoProvider) (aid : Aid)

def Application.run : Application → HostM Unit
  | .done outcome => readOnly outcome
  | .call moment unit member operation next => do
      let reply ← Host.invoke provider aid moment unit member operation
      (next reply).run

/-- What a finished command leaves behind, next to how it ended. -/
structure Execution where
  outcome : Except Error Unit
  host : Host
  comparisons : List SecretComparison
  hardware : List (Int32 × Int32)

/-- `run_application_with_metrics_and_retry_floor`: whatever comes of it, the host is there. -/
def runApplication (domain : Domain) (application : StagedApplication) (units : List ExecutionUnit)
    (transaction : TransactionDisposition) (program : Application) : Journal.JournalM Execution := fun journal =>
  match program.run provider aid ⟨Host.start domain application units transaction, journal, [], []⟩ with
  | .ok _ running => .ok ⟨.ok (), running.host, running.comparisons, running.hardware⟩ running.journal
  | .error e running => .ok ⟨.error e, running.host, running.comparisons, running.hardware⟩ running.journal

end Runs

end MicroCard.Mc04
