import MicroCard.Engine.Renewal

/-! Java Card management and execution behind the authenticated transport. -/
namespace MicroCard.Engine

open Bytes Cbor CrashTriple Card Transport

section Selection

/-- A card-wide quota of volatile memory, independent of the heap journals. -/
def maxRetainedVolatile : Nat := 65536

def setSelected (selected : Option (Aid × Session)) : EngineM Unit :=
  modifyCard fun card => { card with selected := selected }

def requestReset : EngineM Unit := modifyCard fun card => { card with resetRequested := true }

/-- Reclaim append space, or renew a bank whose counters are exhausted. -/
def maintainEpochIfNeeded (aid : Aid) : SessionM Unit := do
  onEngine failIfCancelled
  let remaining ← remainingCommits
  let capacity ← appendCapacity
  let working ← get
  onlyIf (¬(0 < capacity ∧ 1 < remaining) ∧ working.running.card.upload.isNone = true) do
    let worthwhile ← if 1 < remaining then compactionAddsCapacity else pure true
    onlyIf (worthwhile = true) do
      releaseIdleMemory
      let maintenance ← capture (if 1 < remaining then compactIdle else renewEpoch aid)
      let restored ← capture restoreIdleMemory
      readOnly maintenance
      readOnly restored
      onEngine failIfCancelled

/-- The session is the one that the registry in memory names. -/
def JcvmEngine.names (card : JcvmEngine) (aid : Aid) (session : Session) : Bool :=
  match card.registry.readState with
  | .ok state => (state.instances.entries.find? fun i => i.aid = aid).any fun i => i.identity = session.key.identity
  | .error _ => false

/-- Whether a session whose maintenance failed is authenticated again. -/
def recovers (aid : Aid) : SessionM Bool := do
  match ← capture recoverSession with
  | .error _ => pure false
  | .ok _ => do
      let working ← get
      pure (working.session.applet.isSome && working.running.card.names aid working.session)

/-- Idle work. A session it fails on is given up. -/
def maintainSelected : EngineM Unit := do
  let running ← get
  match running.card.selected with
  | none => pure ()
  | some (aid, session) => do
      setSelected none
      let (result, session) ← holding session (maintainEpochIfNeeded aid)
      match result with
      | .ok _ => setSelected (some (aid, session))
      | .error e => do
          let (recovered, _) ← holding session (recovers aid)
          modifyCard fun card => { card with retained := [], resetRequested := true }
          failIf (recovered.toOption ≠ some true) e

/-- Use the selected session; it stays selected whatever comes of it. -/
def onSelected {α : Type} (aid : Aid) (session : Session) (action : SessionM α) : EngineM α := do
  let (result, session) ← holding session action
  setSelected (some (aid, session))
  readOnly result

/-- Leave room for one durable checkpoint. -/
def prepareSession (aid : Aid) : SessionM Unit := do
  maintainEpochIfNeeded aid
  let remaining ← remainingCommits
  failIf (remaining = 0) .quota

def prepareSelected : EngineM Unit := do
  let running ← get
  match running.card.selected with
  | none => pure ()
  | some (aid, session) => onSelected aid session (prepareSession aid)

/-- What volatile contents may still take. -/
def availableVolatile : EngineM Nat := do
  let running ← get
  let used := (running.card.retained.map Retained.bytes).sum
  failIf (maxRetainedVolatile < used) .quota
  let _ ← device .memory
  pure (maxRetainedVolatile - used)

def retain (entry : Retained) : EngineM Unit :=
  onlyIf (entry.bytes ≠ 0) (modifyCard fun card => { card with retained := card.retained ++ [entry] })

/-- Only an applet of the issuer's domain may reset the secure channel. -/
def noteReset (domain : Aid) : SessionM Unit := do
  let reset ← takeSecurityReset
  onEngine (onlyIf (reset = true ∧ domain = Aid.isd) requestReset)

def parkSession (instance' : Instance) (available : Nat) : SessionM Unit := do
  deselect instance'.aid
  noteReset instance'.domain
  let bytes ← retainVolatile available
  onEngine (retain ⟨instance'.aid, instance'.identity, bytes⟩)

def parkSelected : EngineM Unit := do
  prepareSelected
  let running ← get
  match running.card.selected with
  | none => pure ()
  | some (aid, session) => do
      let state ← readState
      let instance' ← orFail (state.instances.entries.find? fun i => i.aid = aid) .storage
      let available ← availableVolatile
      onSelected aid session (parkSession instance' available)
      setSelected none

/-- The first of two candidates in bytewise order. -/
def earlier (best : Option Instance) (candidate : Instance) : Option Instance :=
  match best with
  | none => some candidate
  | some instance' => if candidate.aid.bytes < instance'.aid.bytes then some candidate else some instance'

/-- An exact match precedes its extensions. -/
def matching (state : Registry) (requested : Aid) : Option Instance :=
  (state.instances.entries.filter fun i => requested.bytes.isPrefixOf i.aid.bytes).foldl earlier none

/-- An ISD applet that asked for a reset gets it once its domain was looked up. -/
def noteInstanceReset (aid : Aid) : SessionM Unit := do
  let reset ← takeSecurityReset
  onlyIf (reset = true) do
    let state ← onEngine readState
    onEngine (onlyIf (state.instances.entries.any fun i => i.aid = aid && i.domain = Aid.isd) requestReset)

def reselectSession (aid : Aid) : SessionM (Response × Bool) := do
  let response ← process aid
  noteInstanceReset aid
  let active ← selected
  pure (response, active)

/-- Put retained volatile contents back into the instance they belong to. -/
def restoreRetained (aid : Aid) (identity : Fixed 16) : SessionM Unit := do
  let working ← get
  match working.running.card.retained.find? fun entry => entry.aid = aid with
  | none => pure ()
  | some cached => do
      failIf (cached.identity ≠ identity) .storage
      restoreVolatile
      onEngine (modifyCard fun card => { card with retained := card.retained.erase cached })

def startSession (aid : Aid) (identity : Fixed 16) : SessionM (Response × Bool) := do
  restoreRetained aid identity
  prepareSession aid
  let response ← process aid
  let active ← selected
  pure (response, active)

/-- Reopen exactly the heap named by committed metadata. -/
def openSession (aid : Aid) : EngineM Session := do
  let state ← readState
  let instance' ← orFail (state.instances.entries.find? fun i => i.aid = aid) .missing
  let running ← get
  failIf (running.card.platform.bankCount ≤ instance'.heapBank.toNat) .storage
  let package ← sessionImage .opening state instance'.load
  let key ← heapKey .opening instance'.heapBank instance'.identity package.digest
  let session ← openJournal .opening key
  failIf (session.applet.isNone = true) .storage
  pure session

def responseWire (response : Response) : EngineM (List Byte) := do
  let _ ← device .memory
  pure (response.data ++ toBE 2 response.sw)

def reselect (aid : Aid) (session : Session) : EngineM (List Byte) := do
  let (response, active) ← onSelected aid session (reselectSession aid)
  onlyIf (active = false) parkSelected
  responseWire response

def selectOther (aid : Aid) : EngineM (List Byte) := do
  parkSelected
  let state ← readState
  let instance' ← orFail (state.instances.entries.find? fun i => i.aid = aid) .missing
  let session ← openSession aid
  let (result, session) ← holding session (startSession aid instance'.identity)
  let (response, active) ← readOnly result
  setSelected (some (aid, session))
  onlyIf (active = false) parkSelected
  responseWire response

def selectApplicationInner (request : Command) : EngineM (List Byte) := do
  failIfCancelled
  failIf (¬(request.p1 = 0 ∨ request.p1 = 4) ∨ ¬(request.p2 = 0 ∨ request.p2 = 0x0c)) .format
  let requested ← readOnly (Aid.new request.data)
  let state ← readState
  let instance' ← orFail (matching state requested) .missing
  let command : Command := ⟨0, 0xa4, 4, request.p2, requested.bytes, request.le.or (some 256)⟩
  let _ ← readOnly command.encode
  let running ← get
  if running.card.selected.any fun s => s.1 = instance'.aid then do
    prepareSelected
    let running ← get
    match running.card.selected with
    | none => throw .missing
    | some (aid, session) => reselect aid session
  else selectOther instance'.aid

/-- A missing application and a malformed request leave the selection alone. -/
def selectApplication (request : Command) : EngineM (List Byte) := do
  match ← capture (selectApplicationInner request) with
  | .ok response => pure response
  | .error e => do
      onlyIf (¬(e = .missing ∨ e = .format)) (setSelected none)
      throw e

/-- Use the selected session for a command; one that fails is given up. -/
def processSelected (action : Aid → SessionM Response) (note : Aid → SessionM Unit) : EngineM (List Byte) := do
  let running ← get
  match running.card.selected with
  | none => throw .missing
  | some (aid, session) => do
      let result ← capture (onSelected aid session (do
        let result ← capture (action aid)
        note aid
        pure result))
      match result with
      | .error e => throw e
      | .ok (.ok response) => responseWire response
      | .ok (.error e) => do
          setSelected none
          throw e

def processPlain (_ : List Byte) : EngineM (List Byte) := do
  prepareSelected
  processSelected process noteInstanceReset

/-- The transport authenticates the issuer's domain, not any other. -/
def commandFor (domain : Aid) (verified : Verified) : EngineM (Aid → SessionM Response) :=
  if domain = Aid.isd then pure fun aid => processVerified aid verified
  else do
    let _ ← readOnly verified.command.encode
    pure process

def processCommand (verified : Verified) : EngineM (List Byte) := do
  prepareSelected
  let running ← get
  match running.card.selected with
  | none => throw .missing
  | some (aid, _) => do
      let state ← readState
      let instance' ← orFail (state.instances.entries.find? fun i => i.aid = aid) .storage
      let action ← commandFor instance'.domain verified
      processSelected action fun _ => noteReset instance'.domain

end Selection

section Management

def receipt : EngineM (List Byte) := do
  let _ ← device .memory
  pure [0]

/-- Drop an upload. A staged renewal record outlives it. -/
def abortStaging (card : JcvmEngine) : JcvmEngine :=
  { card with
    staging := if card.registry.pendingRenewal = .ok none then card.staging.reset else card.staging
    upload := none }

def abortTransaction (card : JcvmEngine) : JcvmEngine :=
  { card with selected := none, retained := [], resetRequested := false }

def commitUnlessCancelled (next : Registry) : EngineM Unit := do
  failIfCancelled
  commit next

/-- Store an image next to those that are protected. -/
def stageImage (raw : List Byte) : EngineM Descriptor := do
  let outcome ← device .stageImage
  let stop ← polls outcome.number
  failIf (stop = true) .cancelled
  let running ← get
  pure ⟨outcome.slot, UInt32.ofNat raw.length, running.card.platform.sha256 raw⟩

/-- Bind authenticated reception to the requested load and domain, store the image and
commit its activation. -/
def loadRequested (request : LoadRequest) (raw : List Byte) : EngineM Unit := do
  let state ← readState
  failIfCancelled
  let domain ← readOnly (Aid.new request.domainAid)
  let authority ← orFail (state.domains.entries.find? fun d => d.aid = domain) .missing
  let running ← get
  let package ← readOnly (Package.verify raw domain.bytes authority.incarnation
    (fun bytes => .ok (running.card.platform.sha256 bytes)) running.card.platform.scratch)
  failIf (request.contradicts package) .signature
  let _ ← readOnly (state.activationSlots package)
  let image ← stageImage raw
  match activate package image state with
  | .error e _ => throw e
  | .ok _ next => do
      failIfCancelled
      onlyIf (next ≠ state) (commit next)

/-- Add a block to the upload. Any error invalidates the receiver and discards what was
staged. -/
def receiveBlock (upload : Upload) (command : Command) : EngineM LoadReceiver := do
  let running ← get
  match upload.receiver.accept command running.card.staging.length with
  | .error e => do
      modifyStaging Staging.reset
      throw e
  | .ok (chunk, receiver) => do
      let outcome ← draw .stageUpload
      match outcome.fault with
      | some fault => do
          modifyStaging fun _ => ⟨outcome.bytes, 0⟩
          fail .stageUpload fault
      | none => do
          modifyStaging fun staging => staging.append chunk
          pure receiver

def setUpload (upload : Option Upload) : EngineM Unit := modifyCard fun card => { card with upload := upload }

/-- The upload as one piece of memory. -/
def takeUpload : EngineM (List Byte) := do
  let _ ← device .takeUpload
  let running ← get
  modifyStaging Staging.reset
  pure (running.card.staging.bytes.take running.card.staging.length)

def receive (command : Command) : EngineM (List Byte) := do
  let running ← get
  let upload ← orFail running.card.upload .format
  match ← capture (receiveBlock upload command) with
  | .error e => do
      setUpload (some { upload with receiver.closed := true })
      throw e
  | .ok receiver =>
      if receiver.closed then do
        setUpload none
        let raw ← takeUpload
        loadRequested ⟨upload.load.bytes, upload.domain.bytes, upload.hash⟩ raw
        receipt
      else do
        setUpload (some { upload with receiver := receiver })
        receipt

def beginLoad (command : Command) : EngineM (List Byte) := do
  let request ← readOnly (loadRequest command)
  let domain ← readOnly (Aid.new request.domainAid)
  let load ← readOnly (Aid.new request.loadAid)
  let state ← readState
  failIf (!state.domains.entries.any fun d => d.aid = domain) .missing
  failIf ((state.domains.entries.any fun d => d.aid = load) ∨ state.instances.entries.any fun i => i.aid = load) .busy
  setUpload (some ⟨load, domain, request.hash, LoadReceiver.new .javaCard maxPackageBytes⟩)
  receipt

/-- Sixteen bytes of entropy. -/
def incarnation : EngineM (Fixed 16) := do
  let outcome ← device .entropy
  pure ⟨(outcome.bytes ++ List.replicate 16 0).take 16, by simp⟩

/-- Commit a change computed on a copy of the registry. -/
def manageRegistry (change : Change) (state : Registry) : EngineM Registry :=
  match change.run state with
  | .error e _ => throw e
  | .ok _ next => do
      commitUnlessCancelled next
      pure next

def installDomain (aid : List Byte) : EngineM (List Byte) := do
  let state ← readState
  let fresh ← incarnation
  let aid ← readOnly (Aid.new aid)
  let _ ← manageRegistry (.addDomain aid fresh) state
  pure []

/-- The first bank that no instance uses. -/
def freeBank (platform : Platform) (state : Registry) : Option UInt8 :=
  ((List.range platform.bankCount).map UInt8.ofNat).find? fun bank =>
    !state.instances.entries.any fun i => i.heapBank = bank

/-- Prepare and commit an unreferenced heap, and publish its instance. On any failure
the heap remains an orphan that a later installation reclaims. -/
def installInstance (request : ApplicationInstall) (available : Nat) : EngineM (Instance × Nat) := do
  let state ← readState
  failIfCancelled
  let load ← readOnly (Aid.new request.loadAid)
  let module ← readOnly (Aid.new request.moduleAid)
  let aid ← readOnly (Aid.new request.instanceAid)
  failIf (state.inUse aid) .busy
  let running ← get
  failIf (¬(1 ≤ running.card.platform.bankCount ∧ running.card.platform.bankCount ≤ maxInstances)) .storage
  let bank ← orFail (freeBank running.card.platform state) .quota
  let (identity, nonce) ← reserveHeapIdentity
  let package ← sessionImage .installing state load
  match register package module aid identity bank state with
  | .error e _ => throw e
  | .ok _ next => do
      let key ← heapKey .installing bank identity package.digest
      failIfCancelled
      prepareBank .installing bank
      let session ← openJournal .installing key
      let (result, _) ← holding session (do
        installGlobalplatform aid request
        retainVolatile available)
      let volatile ← readOnly result
      failIfCancelled
      commitSnapshot .change (some nonce) next
      let state ← readState
      let instance' ← orFail (state.instances.entries.find? fun i => i.aid = aid) .storage
      pure (instance', volatile)

def installApplication (command : Command) : EngineM (List Byte) := do
  let request ← readOnly (applicationInstall command)
  let available ← availableVolatile
  let (instance', bytes) ← installInstance request available
  retain ⟨instance'.aid, instance'.identity, bytes⟩
  receipt

/-- What a deletion of an AID removes. -/
def deletion (state : Registry) (aid : Aid) : Change :=
  if state.domains.entries.any fun d => d.aid = aid then .removeDomain aid
  else if state.instances.entries.any fun i => i.aid = aid then .removeInstance aid
  else .removeLoad aid

/-- The instance that these contents belong to is still there. -/
def Retained.isHeld (state : Registry) (entry : Retained) : Bool :=
  state.instances.entries.any fun i => i.aid = entry.aid && i.identity = entry.identity

def delete (command : Command) : EngineM (List Byte) := do
  let bytes ← readOnly (deleteAid command)
  let aid ← readOnly (Aid.new bytes)
  let state ← readState
  let next ← manageRegistry (deletion state aid) state
  modifyCard fun card => { card with retained := card.retained.filter (Retained.isHeld next) }
  pure []

def manageGp (command : Command) : EngineM (List Byte) := do
  failIfCancelled
  if command.ins = 0xe8 then receive command
  else do
    modifyCard abortStaging
    let running ← get
    if command.ins = 0xe6 ∧ command.p1 = 2 then beginLoad command
    else if command.ins = 0xe6 ∧ command.p1 = 0x0c then
      match ssdInstallAid running.card.platform.scp03I command with
      | .ok aid => installDomain aid
      | .error _ => installApplication command
    else delete command

def selectIsd : EngineM Unit := do
  parkSelected
  failIfCancelled

def manageGlobalplatform (verified : Verified) : EngineM (List Byte) := do
  failIf (verified.mayManage = false) .unauthorized
  selectIsd
  match ← capture (manageGp verified.command) with
  | .ok response => pure response
  | .error e => do
      modifyCard abortStaging
      throw e

/-- The description of a domain, with the number of its loads and instances. -/
def domainRecord (state : Registry) (index : Nat) (domain : Domain) : EncoderM Unit := do
  Encoder.array 9
  [2, 2, state.domains.entries.length, index].forM Encoder.unsigned
  Encoder.byteString domain.aid.bytes
  Encoder.byteString domain.incarnation
  Encoder.null
  Encoder.unsigned (state.loads.entries.filter fun p => p.domain = domain.aid && p.image.isSome).length
  Encoder.unsigned (state.instances.entries.filter fun i => i.domain = domain.aid).length

def manage (verified : Verified) : EngineM (List Byte) := do
  failIf (verified.mayManage = false) .unauthorized
  failIfCancelled
  let command := verified.command
  failIf (command.ins ≠ 0xe2 ∨ command.p1 ≠ 0 ∨ command.p2 ≠ 0 ∨ command.data.length ≠ 1) .unsupported
  let state ← readState
  let index := (command.data.getD 0 0).toNat
  let domain ← orFail state.domains.entries[index]? .missing
  match domainRecord state index domain ⟨[], 128⟩ with
  | .error e _ => throw e
  | .ok _ encoder => pure encoder.bytes

end Management

section Status

def pushTlv (out tag value : List Byte) : Except Error (List Byte) := do
  failIf (255 < value.length) .quota
  pure (out ++ tag ++ (if value.length < 0x80 then [UInt8.ofNat value.length] else [0x81, UInt8.ofNat value.length]) ++
    value)

def template (body : List Byte) : Except Error (List Byte) := do
  failIf (220 < 1 + (if body.length < 0x80 then 1 else 2) + body.length) .quota
  pushTlv [] [0xe3] body

/-- The AIDs an enumeration of this kind visits, in table order. -/
def visited (state : Registry) (kind : Byte) (filter : List Byte) : Except Error (List Aid) :=
  let listed := fun (aids : List Aid) => aids.filter fun aid => filter.isPrefixOf aid.bytes
  if kind = 0x80 then .ok [Aid.isd]
  else if kind = 0x40 then
    .ok (listed (((state.domains.entries.map Domain.aid).filter (· ≠ Aid.isd)) ++ state.instances.entries.map Instance.aid))
  else if kind = 0x20 ∨ kind = 0x10 then
    .ok (listed ((state.loads.entries.filter fun p => p.image.isSome).map Load.aid))
  else .error .format

def domainStatus (aid : Aid) (body : List Byte) : Except Error (List Byte) := do
  let body ← pushTlv body [0x9f, 0x70] [0x0f]
  let body ← pushTlv body [0xc5] [0x80, 0, 0]
  if aid ≠ Aid.isd then pushTlv body [0xcc] isdAid else pure body

def instanceStatus (instance' : Instance) (body : List Byte) : Except Error (List Byte) := do
  let body ← pushTlv body [0x9f, 0x70] [7]
  let body ← pushTlv body [0xc5] [0, 0, 0]
  let body ← pushTlv body [0xc4] instance'.load.bytes
  pushTlv body [0xcc] instance'.domain.bytes

def loadStatus (kind : Byte) (package : Package) (body : List Byte) : Except Error (List Byte) := do
  let body ← pushTlv body [0x9f, 0x70] [1]
  let body ← pushTlv body [0xce]
    [UInt8.ofNat package.manifest.packageVersion.1, UInt8.ofNat package.manifest.packageVersion.2]
  let body ← if kind = 0x10 then do
      let applets ← (packageApplets package.image).mapError fun _ => .storage
      applets.foldlM (fun body entry => pushTlv body [0x84] entry.aid) body
    else pure body
  pushTlv body [0xcc] package.manifest.domain

def statusBody (state : Registry) (kind : Byte) (aid : Aid) : EngineM (List Byte) := do
  let body ← readOnly (pushTlv [] [0x4f] aid.bytes)
  if state.domains.entries.any fun d => d.aid = aid then readOnly (domainStatus aid body)
  else
    match state.instances.entries.find? fun i => i.aid = aid with
    | some instance' => readOnly (instanceStatus instance' body)
    | none => do
        let package ← withPackage .listing state aid
        readOnly (loadStatus kind package body)

def getStatusRecord (kind : Byte) (index : Nat) (filter : List Byte) : EngineM (List Byte × Bool) := do
  let state ← readState
  let aids ← readOnly (visited state kind filter)
  let aid ← orFail aids[index]? .missing
  let body ← statusBody state kind aid
  let record ← readOnly (template body)
  pure (record, index + 1 < aids.length)

end Status

section Channel

/-- The next counter value of a range that was reserved. -/
def nextInRange (range : Option (Nat × Nat)) : Option Nat :=
  range.bind fun (first, last) => if first ≤ last then some first else none

def spendSequence (value : Nat) : EngineM Nat := do
  modifyCard fun card => { card with sequences := card.sequences.map fun range => (range.1 + 1, range.2) }
  pure value

def nextSecureChannelSequence : EngineM Nat := do
  let running ← get
  match nextInRange running.card.sequences with
  | some value => spendSequence value
  | none => do
      let state ← readState
      match reserveSequences 32 state with
      | .error e _ => throw e
      | .ok range next => do
          commit next
          modifyCard fun card => { card with sequences := some range }
          let value ← orFail (nextInRange (some range)) .storage
          spendSequence value

/-- Reloading the selected applet clears its credentials. -/
def restartSecureChannel : EngineM Unit := do
  let running ← get
  modifyCard abortStaging
  modifyCard abortTransaction
  match running.card.selected with
  | none => pure ()
  | some (aid, _) => do
      let response ← selectApplication ⟨0, 0xa4, 4, 0, aid.bytes, some 256⟩
      failIf (response.drop (response.length - 2) ≠ [0x90, 0]) .unauthorized
      modifyCard fun card => { card with resetRequested := false }

end Channel

section Platform

variable {α : Type}

/-- Run a call of the engine with the answers to its polls. -/
def polled (action : EngineM α) : Polled JcvmEngine α := fun cancel card =>
  match action ⟨card, cancel, 0⟩ with
  | .ok a running => ⟨.ok a, running.card, running.polls⟩
  | .error e running => ⟨.error e, running.card, running.polls⟩

/-- Run a call that does not poll. -/
def unpolled (action : EngineM α) : EStateM Error JcvmEngine α := fun card =>
  match action ⟨card, fun _ => false, 0⟩ with
  | .ok a running => .ok a running.card
  | .error e running => .error e running.card

/-- A primitive of the platform, unless the platform fails. -/
def primitive (value : Platform → Except Error α) : EngineM α := do
  let _ ← device .primitive
  let running ← get
  readOnly (value running.card.platform)

/-- Whether there is memory for a buffer. -/
def reserveMemory (length : Nat) (card : JcvmEngine) : Except Error Unit :=
  if length ≤ (card.devices .memory 0).number then .ok () else .error .quota

def provider : Provider JcvmEngine where
  reserve := reserveMemory
  aesCmacParts key parts := unpolled (primitive fun platform => platform.aesCmacParts key parts)
  aes128EncryptBlock key block := unpolled (primitive fun platform => platform.aes128EncryptBlock key block)
  aesCbcDecrypt key iv data := unpolled (primitive fun platform => platform.aesCbcDecrypt key iv data)
  aesCbcEncrypt key iv data := unpolled (primitive fun platform => platform.aesCbcEncrypt key iv data)

def random (count : Nat) : EngineM (List Byte) := do
  let outcome ← device .entropy
  pure ((outcome.bytes ++ List.replicate count 0).take count)

/-- The engine behind the transport. -/
def jcvmEngine : CardEngine JcvmEngine where
  directApdus := true
  provider := provider
  isApplicationCommand card command :=
    command.cla = 0 || command.ins = 0xa4 || card.selected.isSome && command.ins ≠ 0xe2
  selectPlain command := polled (selectApplication command)
  processPlain raw := polled (processPlain raw)
  takeSecurityReset card := (card.resetRequested, { card with resetRequested := false })
  random count := unpolled (random count)
  nextSecureChannelSequence := unpolled nextSecureChannelSequence
  abortStaging := abortStaging
  abortTransaction := abortTransaction
  maintenance := polled maintainSelected
  restartSecureChannel := polled restartSecureChannel
  globalplatformLoadActive card := card.upload.isSome
  getStatusRecord kind index filter := unpolled (getStatusRecord kind index filter)
  selectIsd := polled selectIsd
  selectVerified verified := polled (selectApplication verified.command)
  manageGlobalplatform verified := polled (manageGlobalplatform verified)
  manage verified := polled (manage verified)
  processVerified verified := polled (processCommand verified)

end Platform

section Boot

/-- Check that every installed heap opens; each session is dropped again. -/
def openInstances : List Instance → EngineM Unit
  | [] => pure ()
  | instance' :: rest => do
      let _ ← openSession instance'.aid
      openInstances rest

def checkLoads (state : Registry) : List Load → EngineM Unit
  | [] => pure ()
  | load :: rest => do
      let _ ← withPackage .opening state load.aid
      checkLoads state rest

/-- Verify all committed references on boot. Recovery never repairs a missing heap. -/
def openEngine : EngineM Unit := do
  recoverRenewal
  modifyStaging Staging.reset
  let state ← readState
  checkLoads state (state.loads.entries.filter fun p => p.image.isSome)
  openInstances state.instances.entries

/-- What is left of a card without power. -/
def JcvmEngine.unpowered (card : JcvmEngine) : JcvmEngine :=
  { card with
    registry.recoveryRequired := true, registry.poisoned := true
    staging := card.staging.reset
    upload := none, selected := none, retained := [], resetRequested := false, sequences := none }

/-- Power on: the registry is read back, and the engine is opened over it. -/
def powerOn : EngineM Unit := do
  modifyCard JcvmEngine.unpowered
  recoverRegistry
  openEngine

end Boot

end MicroCard.Engine
