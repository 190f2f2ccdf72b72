import MicroCard.Transport.Scp03

/-! The dispatcher of the basic channel. It multiplexes selection, the secure channel,
management, enumeration and applet traffic onto an engine, and drops all authority
when an exchange fails or is cancelled. -/
namespace MicroCard.Transport

open Bytes Cbor CrashTriple

/-- What an engine call returned, the card it left and how often it polled for
cancellation. -/
structure Reply (κ α : Type) where
  result : Except Error α
  card : κ
  polls : Nat

/-- An engine call that may poll: the n-th poll from its start answers `cancel n`. -/
abbrev Polled (κ α : Type) := (Nat → Bool) → κ → Reply κ α

/-- The contract between the authenticated transport and an engine's card state. -/
structure CardEngine (κ : Type) where
  directApdus : Bool
  provider : Provider κ
  isApplicationCommand : κ → Command → Bool
  selectPlain : Command → Polled κ (List Byte)
  processPlain : List Byte → Polled κ (List Byte)
  takeSecurityReset : κ → Bool × κ
  random : Nat → EStateM Error κ (List Byte)
  nextSecureChannelSequence : EStateM Error κ Nat
  abortStaging : κ → κ
  abortTransaction : κ → κ
  maintenance : Polled κ Unit
  restartSecureChannel : Polled κ Unit
  globalplatformLoadActive : κ → Bool
  getStatusRecord : Byte → Nat → List Byte → EStateM Error κ (List Byte × Bool)
  selectIsd : Polled κ Unit
  selectVerified : Verified → Polled κ (List Byte)
  manageGlobalplatform : Verified → Polled κ (List Byte)
  manage : Verified → Polled κ (List Byte)
  processVerified : Verified → Polled κ (List Byte)

/-- The call that a plain command is for. -/
def CardEngine.plain {κ : Type} (engine : CardEngine κ) (command : Command) (raw : List Byte) : Polled κ (List Byte) :=
  if command.ins = 0xa4 ∧ command.p1 = 4 then engine.selectPlain command else engine.processPlain raw

/-- The call that a management command is for. -/
def CardEngine.management {κ : Type} (engine : CardEngine κ) (globalplatform : Bool) (verified : Verified) :
    Polled κ (List Byte) :=
  if globalplatform then engine.manageGlobalplatform verified else engine.manage verified

structure Endpoint (κ : Type) where
  card : κ
  keys : Keys
  session : Option Session
  statusCursor : Option StatusCursor
  bootloaderRequested : Bool
  trace : List (Event κ)

/-- An exchange under way: the answers that are left for polls, and whether one of
them was yes. -/
structure Exchange (κ : Type) where
  endpoint : Endpoint κ
  cancel : Nat → Bool
  cancelled : Bool

abbrev ExchangeM (κ : Type) := EStateM Error (Exchange κ)

namespace Endpoint

variable {κ α : Type}

def new (card : κ) (keys : Keys) : Endpoint κ := ⟨card, keys, none, none, false, []⟩

def takeBootloaderRequest (endpoint : Endpoint κ) : Bool × Endpoint κ :=
  (endpoint.bootloaderRequested, { endpoint with bootloaderRequested := false })

/-- Drop all transport-scoped authority and volatile application work. -/
def reset (engine : CardEngine κ) (endpoint : Endpoint κ) : Endpoint κ :=
  { endpoint with
    session := none
    statusCursor := none
    card := engine.abortTransaction (engine.abortStaging endpoint.card) }

end Endpoint

section Steps

variable {κ α : Type}

def modifyEndpoint (update : Endpoint κ → Endpoint κ) : ExchangeM κ Unit :=
  modify fun exchange => { exchange with endpoint := update exchange.endpoint }

def modifyCard (update : κ → κ) : ExchangeM κ Unit :=
  modifyEndpoint fun endpoint => { endpoint with card := update endpoint.card }

def note (event : Event κ) : ExchangeM κ Unit :=
  modifyEndpoint fun endpoint => { endpoint with trace := endpoint.trace ++ [event] }

/-- An engine call without polls. -/
def call (action : EStateM Error κ α) : ExchangeM κ α := fun exchange =>
  match action exchange.endpoint.card with
  | .ok a card => .ok a { exchange with endpoint := { exchange.endpoint with card := card } }
  | .error e card => .error e { exchange with endpoint := { exchange.endpoint with card := card } }

/-- What an exchange is after an engine call. -/
def Exchange.after (exchange : Exchange κ) (reply : Reply κ α) : Exchange κ :=
  { endpoint := { exchange.endpoint with card := reply.card }
    cancel := fun n => exchange.cancel (reply.polls + n)
    cancelled := exchange.cancelled || (List.range reply.polls).any exchange.cancel }

/-- An engine call that may poll for cancellation. -/
def poll (action : Polled κ α) : ExchangeM κ α := fun exchange =>
  match (action exchange.cancel exchange.endpoint.card).result with
  | .ok a => .ok a (exchange.after (action exchange.cancel exchange.endpoint.card))
  | .error e => .error e (exchange.after (action exchange.cancel exchange.endpoint.card))

/-- A call of the session, which needs one. -/
def onSession (action : ChannelM κ α) : ExchangeM κ α := fun exchange =>
  match exchange.endpoint.session with
  | none => .error .unauthorized exchange
  | some session =>
      match action ⟨session, exchange.endpoint.card, exchange.endpoint.trace⟩ with
      | .ok a channel => .ok a { exchange with endpoint := { exchange.endpoint with
          session := some channel.session, card := channel.card, trace := channel.trace } }
      | .error e channel => .error e { exchange with endpoint := { exchange.endpoint with
          session := some channel.session, card := channel.card, trace := channel.trace } }

def clearSession : ExchangeM κ Unit := modifyEndpoint fun endpoint => { endpoint with session := none }

def setCursor (cursor : Option StatusCursor) : ExchangeM κ Unit :=
  modifyEndpoint fun endpoint => { endpoint with statusCursor := cursor }

end Steps

section Handlers

variable {κ : Type} (scp03 : Scp03) (engine : CardEngine κ)

/-- Memory for a response. -/
def makeRoom (length : Nat) : ExchangeM κ Unit := do
  let exchange ← get
  readOnly (engine.provider.reserve length exchange.endpoint.card)

def fixedResponse (bytes : List Byte) : ExchangeM κ (List Byte) := do
  makeRoom engine bytes.length
  pure bytes

def takeSecurityReset : ExchangeM κ Bool := do
  let exchange ← get
  modifyCard fun card => (engine.takeSecurityReset card).2
  pure (engine.takeSecurityReset exchange.endpoint.card).1

/-- The protected answer to the command being processed. -/
def answer (data : List Byte) (sw : Nat) : ExchangeM κ (List Byte) :=
  onSession (response scp03 engine.provider data sw)

def handleIsdSelect : ExchangeM κ (List Byte) := do
  let result ← capture (poll engine.selectIsd)
  modifyEndpoint (Endpoint.reset engine)
  readOnly result
  makeRoom engine 62
  pure (isdFci scp03.i)

/-- A missing application is an answer, not a failure. -/
def plainAnswer : Except Error (List Byte) → ExchangeM κ (List Byte)
  | .ok response => pure response
  | .error .missing => fixedResponse engine [0x6a, 0x82]
  | .error e => throw e

/-- Plain applet traffic carries no authority. -/
def handlePlain (command : Command) (raw : List Byte) : ExchangeM κ (List Byte) := do
  modifyCard engine.abortStaging
  setCursor none
  let result ← capture (poll (engine.plain command raw))
  let requested ← takeSecurityReset engine
  onlyIf (requested = true) clearSession
  plainAnswer engine result

def handleGetData (command : Command) : ExchangeM κ (List Byte) :=
  match getData scp03.i command with
  | some data => do
      makeRoom engine data.length
      pure (data ++ [0x90, 0x00])
  | none => fixedResponse engine [0x6a, 0x88]

/-- Spend a sequence value and derive the challenge from it. -/
def deriveChallenge (sequence : Nat) : ExchangeM κ (List Byte × List Byte) := do
  let exchange ← get
  let challenge ← call (pseudoRandomChallenge scp03 engine.provider exchange.endpoint.keys (toBE 3 sequence) isdAid)
  pure (challenge, toBE 3 sequence)

def openSession (host : List Byte) (challenge sequence : List Byte) : ExchangeM κ (List Byte) := do
  let exchange ← get
  let (session, cryptogram) ← call (Session.initiate scp03 engine.provider exchange.endpoint.keys host challenge)
  modifyEndpoint fun endpoint => { endpoint with session := some session }
  note .initiated
  makeRoom engine (10 + 3 + 2 * scp03.challengeBytes + scp03.sequenceBytes + 2)
  pure (List.replicate 10 0 ++ [1, 3, scp03.i] ++ challenge ++ cryptogram ++ sequence ++ [0x90, 0])

/-- With derived challenges a spent counter value precedes everything that can fail. -/
def issueChallenge (host : List Byte) : ExchangeM κ (List Byte) :=
  if scp03.pseudoRandom then do
    match ← capture (call engine.nextSecureChannelSequence) with
    | .error _ => fixedResponse engine [0x69, 0x85]
    | .ok issued => do
        let (challenge, sequence) ← deriveChallenge scp03 engine issued
        openSession scp03 engine host challenge sequence
  else do
    let challenge ← call (engine.random scp03.challengeBytes)
    openSession scp03 engine host challenge []

def handleInitializeUpdate (command : Command) : ExchangeM κ (List Byte) := do
  clearSession
  setCursor none
  poll engine.restartSecureChannel
  failIf (command.p2 ≠ 0 ∨ ¬(command.p1 = 0 ∨ command.p1 = 1)) .format
  if command.data.length ≠ scp03.challengeBytes then fixedResponse engine [0x67, 0x00]
  else issueChallenge scp03 engine command.data

def terminalStatus : Error → Nat
  | .storage | .incompatibleState => 0x6581
  | .quota => 0x6a84
  | .native | .stack | .arithmetic | .budget => 0x6f00
  | _ => 0x6982

def globalplatformManagementStatus : Error → Nat
  | .unauthorized | .keyMismatch | .signature => 0x6982
  | .missing | .domain => 0x6a88
  | .quota => 0x6a84
  | .format | .bounds | .unsupported => 0x6a80
  | _ => 0x6985

/-- Run a management call and record what it did to the card. -/
def management (globalplatform : Bool) (verified : Verified) : ExchangeM κ (Except Error (List Byte)) := do
  let before ← get
  let result ← capture (poll (engine.management globalplatform verified))
  let after ← get
  note (.managed globalplatform verified before.endpoint.card after.endpoint.card)
  pure result

def managementOutcome : Except Error (List Byte) → List Byte × Nat
  | .ok data => (data, 0x9000)
  | .error e => ([], globalplatformManagementStatus e)

def handleGlobalplatform (verified : Verified) : ExchangeM κ (List Byte) := do
  setCursor none
  let result ← management engine true verified
  let (data, status) := managementOutcome result
  let requested ← takeSecurityReset engine
  if requested then do
    clearSession
    makeRoom engine 2
    pure (data ++ toBE 2 status)
  else answer scp03 engine data status

def handleVerifiedGetData (command : Command) : ExchangeM κ (List Byte) := do
  setCursor none
  match getData scp03.i command with
  | some data => do
      makeRoom engine data.length
      answer scp03 engine data 0x9000
  | none => answer scp03 engine [] 0x6a88

def enterBootloaderApdu : List Byte := [0x80, 0xfe, 0x55, 0xaa]

def acceptBootloader (verified : Verified) : ExchangeM κ (List Byte) := do
  let response ← answer scp03 engine [] 0x9000
  modifyEndpoint fun endpoint => { endpoint with bootloaderRequested := true }
  note (.bootloader verified)
  pure response

def handleBootloader (verified : Verified) : ExchangeM κ (List Byte) :=
  if verified.mayManage = false then answer scp03 engine [] 0x6985
  else if verified.command.p1 ≠ 0x55 ∨ verified.command.p2 ≠ 0xaa ∨ verified.command.data ≠ [] ∨
      verified.command.le.isSome then answer scp03 engine [] 0x6a80
  else acceptBootloader scp03 engine verified

/-- The cursor a GET STATUS continues from: a new one, or the stored one if it
belongs to the same enumeration. -/
def statusCursor (command : Command) (stored : Option StatusCursor) : Except Error StatusCursor :=
  if command.p2 = 0x02 then StatusCursor.first command.p1 command.p2 command.data
  else orFail (stored.filter fun cursor => cursor.matchesNext command.p1 command.p2 command.data) .format

def statusRecord (verified : Verified) (cursor : StatusCursor) : ExchangeM κ (List Byte) := do
  note (.status verified)
  match ← capture (call (engine.getStatusRecord cursor.p1 cursor.next cursor.filter)) with
  | .ok (record, more) => do
      setCursor (if more then some { cursor with next := cursor.next + 1 } else none)
      answer scp03 engine record (if more then 0x6310 else 0x9000)
  | .error .missing => do
      setCursor none
      answer scp03 engine [] 0x6a88
  | .error _ => do
      setCursor none
      answer scp03 engine [] 0x6a80

def continueStatus (verified : Verified) : ExchangeM κ (List Byte) := do
  let exchange ← get
  onlyIf (verified.command.p2 ≠ 0x02) (setCursor none)
  match statusCursor verified.command exchange.endpoint.statusCursor with
  | .ok cursor => statusRecord scp03 engine verified cursor
  | .error _ => do
      setCursor none
      answer scp03 engine [] 0x6a80

def handleStatus (verified : Verified) : ExchangeM κ (List Byte) :=
  if verified.mayManage = false then answer scp03 engine [] 0x6985
  else if verified.command.p1 = 0x80 ∧ verified.command.p2 = 0x03 then do
    setCursor none
    answer scp03 engine [] 0x6a80
  else continueStatus scp03 engine verified

/-- Return an application's response: its data, protected, under its status word. -/
def applicationAnswer (response : List Byte) : ExchangeM κ (List Byte) := do
  let requested ← takeSecurityReset engine
  if requested then do
    clearSession
    setCursor none
    pure response
  else do
    failIf (response.length < 2) .format
    answer scp03 engine (response.take (response.length - 2)) (fromBE (response.drop (response.length - 2)))

def handleApplication (verified : Verified) : ExchangeM κ (List Byte) :=
  if verified.command.ins = 0xa4 then do
    match ← capture (poll (engine.selectVerified verified)) with
    | .ok response => applicationAnswer scp03 engine response
    | .error _ => answer scp03 engine [] 0x6985
  else do
    let response ← poll (engine.processVerified verified)
    applicationAnswer scp03 engine response

def handleManagement (verified : Verified) : ExchangeM κ (List Byte) := do
  match ← management engine false verified with
  | .ok data => answer scp03 engine data 0x9000
  | .error _ => answer scp03 engine [] 0x6985

/-- Whether a command of the management class goes to the GlobalPlatform handler. -/
def isGlobalplatform (command : Command) (loadActive : Bool) : Bool :=
  command.cla = 0x80 ∧ (command.ins = 0xe6 ∧ (command.p1 = 0x02 ∨ command.p1 = 0x0c) ∨
    command.ins = 0xe8 ∧ loadActive = true ∨ command.ins = 0xe4 ∧ command.data.head? = some 0x4f)

/-- Any verified command but the next block of a load ends the load. -/
def interruptLoad (command : Command) : ExchangeM κ Unit := do
  let exchange ← get
  onlyIf (engine.globalplatformLoadActive exchange.endpoint.card = true ∧ ¬(command.cla = 0x80 ∧ command.ins = 0xe8))
    (modifyCard engine.abortStaging)

def dispatch (verified : Verified) : ExchangeM κ (List Byte) := do
  let exchange ← get
  if isGlobalplatform verified.command (engine.globalplatformLoadActive exchange.endpoint.card) then
    handleGlobalplatform scp03 engine verified
  else if verified.command.cla = 0x80 ∧ verified.command.ins = 0xca then
    handleVerifiedGetData scp03 engine verified.command
  else if verified.command.cla = 0x80 ∧ verified.command.ins = 0xfe then handleBootloader scp03 engine verified
  else if verified.command.cla = 0x80 ∧ verified.command.ins = 0xf2 then handleStatus scp03 engine verified
  else do
    setCursor none
    if engine.isApplicationCommand exchange.endpoint.card verified.command then
      handleApplication scp03 engine verified
    else handleManagement scp03 engine verified

def handleExternalAuthenticate (command : Command) : ExchangeM κ (List Byte) := do
  onSession (authenticate scp03 engine.provider command)
  setCursor none
  fixedResponse engine [0x90, 0]

/-- Traffic of the secure channel. -/
def handleSecured (command : Command) : ExchangeM κ (List Byte) := do
  let exchange ← get
  failIf (exchange.endpoint.session.isNone = true) .unauthorized
  if command.cla = 0x84 ∧ command.ins = 0x82 then handleExternalAuthenticate scp03 engine command
  else do
    failIf (engine.directApdus = false ∧ command.cla ≠ 0x84) .authentication
    let verified ← onSession (unwrap scp03 engine.provider command)
    interruptLoad engine verified.command
    dispatch scp03 engine verified

def handleCommand (command : Command) (raw : List Byte) : ExchangeM κ (List Byte) := do
  let exchange ← get
  if isIsdSelect command then handleIsdSelect scp03 engine
  else if engine.directApdus = true ∧ command.cla ∈ [0x00, 0x10, 0xb0] then handlePlain engine command raw
  else if command.cla = 0x00 ∧ command.ins = 0xa4 ∧ command.p1 = 0x04 then fixedResponse engine [0x6a, 0x82]
  else if exchange.endpoint.session.isNone = true ∧ command.cla = 0x80 ∧ command.ins = 0xca then
    handleGetData scp03 engine command
  else if command.cla = 0x80 ∧ command.ins = 0x50 then handleInitializeUpdate scp03 engine command
  else handleSecured scp03 engine command

def handle (raw : List Byte) : ExchangeM κ (List Byte) := do
  note (.received raw)
  let command ← readOnly (Command.parse raw)
  handleCommand scp03 engine command raw

end Handlers

namespace Endpoint

variable {κ : Type} (scp03 : Scp03) (engine : CardEngine κ)

/-- A fixed answer, or none when there is no memory for it. -/
def fixedResponseOrEmpty (bytes : List Byte) (endpoint : Endpoint κ) : List Byte × Endpoint κ :=
  match engine.provider.reserve bytes.length endpoint.card with
  | .ok _ => (bytes, endpoint)
  | .error _ => ([], endpoint)

/-- The result of a handled command; a cancellation that was observed outweighs it. -/
def conclude : EStateM.Result Error (Exchange κ) (List Byte) → List Byte × Endpoint κ
  | .ok response exchange =>
      if exchange.cancelled then fixedResponseOrEmpty engine [0x69, 0x82] (exchange.endpoint.reset engine)
      else (response, exchange.endpoint)
  | .error e exchange =>
      if exchange.cancelled then fixedResponseOrEmpty engine [0x69, 0x82] (exchange.endpoint.reset engine)
      else fixedResponseOrEmpty engine (toBE 2 (terminalStatus e)) (exchange.endpoint.reset engine)

def exchange (raw : List Byte) (cancel : Nat → Bool) (endpoint : Endpoint κ) : List Byte × Endpoint κ :=
  conclude engine (handle scp03 engine raw ⟨endpoint, cancel, false⟩)

/-- Deferred storage work between commands. -/
def maintenance (cancel : Nat → Bool) (endpoint : Endpoint κ) : Endpoint κ :=
  let reply := engine.maintenance cancel endpoint.card
  match reply.result with
  | .error _ => reset engine { endpoint with card := reply.card }
  | .ok _ =>
      let (requested, card) := engine.takeSecurityReset reply.card
      if requested then reset engine { endpoint with card := card } else { endpoint with card := card }

/-- Endpoints reached by any sequence of commands, cancellations and idle work. -/
inductive Reachable (scp03 : Scp03) (engine : CardEngine κ) (card : κ) (keys : Keys) : Endpoint κ → Prop where
  | new : Reachable scp03 engine card keys (Endpoint.new card keys)
  | exchange {endpoint : Endpoint κ} (reachable : Reachable scp03 engine card keys endpoint) (raw : List Byte)
      (cancel : Nat → Bool) : Reachable scp03 engine card keys (endpoint.exchange scp03 engine raw cancel).2
  | maintenance {endpoint : Endpoint κ} (reachable : Reachable scp03 engine card keys endpoint) (cancel : Nat → Bool) :
      Reachable scp03 engine card keys (endpoint.maintenance engine cancel)
  | takeBootloaderRequest {endpoint : Endpoint κ} (reachable : Reachable scp03 engine card keys endpoint) :
      Reachable scp03 engine card keys endpoint.takeBootloaderRequest.2
  | reset {endpoint : Endpoint κ} (reachable : Reachable scp03 engine card keys endpoint) :
      Reachable scp03 engine card keys (endpoint.reset engine)

end Endpoint

end MicroCard.Transport
