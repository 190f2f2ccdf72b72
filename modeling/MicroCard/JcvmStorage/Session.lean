import MicroCard.JcvmStorage.Store

/-! One installed applet with durable command boundaries. A call that fails after it may
have changed the card is followed by recovery; as long as recovery has not succeeded the
session answers no command. -/
namespace MicroCard.JcvmStorage

open Bytes CrashTriple Slices
open Jcvm (LoadFile PersistentView Sizes)
open Journal (MemoryFlash)

structure Session (C : Type) where
  store : Store
  sizes : Sizes
  card : Option C
  recoveryRequired : Bool
  resetRequested : Bool

abbrev SessionM (C : Type) := EStateM Error (Session C)

/-- What a call finds around it: the code of the applet, if it can be read, and the host. -/
structure Surroundings where
  code : Except Error (List Byte)
  provider : Provider

inductive CheckpointRequest where
  | capacity (count : Nat)
  | commit (view : PersistentView) (reason : CheckpointReason)

/-- What the engine makes of a command: the checkpoints it asks for, one after the other,
and the card and the outcome it ends with. It ends with the first request that is refused. -/
structure Execution (C α : Type) where
  requests : List CheckpointRequest
  card : C
  outcome : Except Error α
  resetRequested : Bool

/-- What the engine makes of an installation on a fresh card. -/
structure Installing (C : Type) where
  card : C
  outcome : Except Jcvm.Error Unit

/-- `engine_error`. -/
def sessionError : Jcvm.Error → Error
  | .cancelled => .cancelled
  | .quota => .quota
  | .storage => .storage
  | .incompatibleState => .incompatibleState
  | .bounds => .bounds
  | .missing => .missing
  | .unsupported => .unsupported
  | .unauthorized => .unauthorized
  | .firewall => .unauthorized
  | _ => .format

/-- The answer to a request of the engine. -/
def checkpoint (provider : Provider) : CheckpointRequest → StoreM Unit
  | .capacity count => do
      let store ← get
      readOnly (store.journal.ensureCheckpointCapacity count)
  | .commit view reason => Store.commitView view reason provider

/-- The bytes of a command that the security of the channel covers. -/
def protectedLength (command : List Byte) : Nat :=
  match command with
  | _ :: _ :: _ :: _ :: length :: _ :: _ => 5 + length.toNat
  | _ => min 5 command.length

/-- The committed heap is the live one. Windows of 1024 bytes are compared. -/
def compareHeap (live : PersistentView) (saved : List Byte) : Except Error Unit :=
  (List.range ((saved.length + 1023) / 1024)).forM fun index =>
    let chunk := slice saved (index * 1024) (min 1024 (saved.length - index * 1024))
    match live.saveRange (index * 1024) (List.replicate chunk.length 0) with
    | .ok () window => failIf (window ≠ chunk) .keyMismatch
    | .error e _ => .error (sessionError e)

namespace Session

variable {C α : Type} (engine : Engine C)

/-- `Session::open`. -/
def opened (flash : MemoryFlash) (key : List Byte) (installation : Cbor.Fixed 16) (sizes : Sizes)
    (surroundings : Surroundings) : Except Error (Session C) := do
  let code ← surroundings.code
  let (store, card) ← Store.opened engine flash key code installation sizes surroundings.provider
  pure { store, sizes := { sizes with heapBytes := store.heapLimit }, card, recoveryRequired := false,
         resetRequested := false }

/-- A store operation on the store of the session. -/
def onStore (operation : StoreM α) : SessionM C α := fun session =>
  match operation session.store with
  | .ok a store => .ok a { session with store }
  | .error e store => .error e { session with store }

def installed : SessionM C Bool := do
  let session ← get
  failIf (session.recoveryRequired = true) .storage
  pure session.card.isSome

/-- The load file of the applet. -/
def loadFile (surroundings : Surroundings) : Except Error LoadFile := surroundings.code >>= parseImage

def recover (surroundings : Surroundings) : SessionM C Unit := do
  modify fun session => { session with recoveryRequired := true, card := none }
  let code ← readOnly surroundings.code
  let session ← get
  let card ← onStore (Store.recover engine code session.sizes surroundings.provider)
  modify fun session => { session with card, recoveryRequired := false }

/-- A failed call is reported once recovery has succeeded. -/
def finishApdu (result : Except Error α) (surroundings : Surroundings) : SessionM C α := do
  match result with
  | .ok a => pure a
  | .error e => do
      recover engine surroundings
      throw e

/-- Run a command on the card. -/
def executed (execution : Execution C α) (provider : Provider) : SessionM C α := do
  let granted ← capture (onStore (execution.requests.forM (checkpoint provider)))
  modify fun session => { session with
    card := some execution.card
    resetRequested := session.resetRequested || execution.resetRequested }
  readOnly (granted >>= fun () => execution.outcome)

/-- `process_command`. -/
def processCommand (command : List Byte) (security : Option Byte) (execution : Execution C α) (cancelled : Bool)
    (surroundings : Surroundings) : SessionM C α := do
  let present ← installed
  failIf (present = false) .missing
  failIf (cancelled = true) .cancelled
  let result ← capture do
    let _ ← readOnly (loadFile surroundings)
    failIf (security.isSome = true ∧ command.length < protectedLength command) .format
    executed execution surroundings.provider
  finishApdu engine result surroundings

def selected : SessionM C Bool := do
  let _ ← installed
  let session ← get
  pure (session.card.any engine.selected)

def deselect (execution : Execution C Unit) (surroundings : Surroundings) : SessionM C Unit := do
  let chosen ← selected engine
  onlyIf (chosen = true) do
    let result ← capture do
      let _ ← readOnly (loadFile surroundings)
      executed execution surroundings.provider
    finishApdu engine result surroundings

/-- `Store::commit`. -/
def commit (card : C) (provider : Provider) : StoreM Unit := do
  let view ← readOnly (engineCheck .format (engine.persistentView card))
  Store.commitView view .installation provider

/-- A completed installation is committed, also when it is cancelled then. -/
def finishInstall (result : Except Error Unit) (late : Bool) (surroundings : Surroundings) : SessionM C Unit := do
  let result ← capture do
    readOnly result
    let session ← get
    let card ← orFail session.card .missing
    onStore (commit engine card surroundings.provider)
    failIf (late = true) .cancelled
  finishApdu engine result surroundings

/-- `install_inner`. -/
def install (installing : Except Jcvm.Error (Installing C)) (cancelled late : Bool) (surroundings : Surroundings) :
    SessionM C Unit := do
  let present ← installed
  failIf (present = true) .busy
  failIf (cancelled = true) .cancelled
  let result ← capture do
    let _ ← readOnly (loadFile surroundings)
    let installing ← readOnly (installing.mapError sessionError)
    modify fun session => { session with card := some installing.card }
    readOnly (installing.outcome.mapError sessionError)
  finishInstall engine result late surroundings

/-- The live state of the card. -/
def liveView : SessionM C PersistentView := do
  let session ← get
  let card ← orFail session.card .missing
  readOnly ((engine.persistentView card).mapError sessionError)

def compactIdle (provider : Provider) : SessionM C Unit := do
  let _ ← installed
  let view ← liveView engine
  onStore (Store.compactView view provider)

/-- `release_idle_memory`, `restore_idle_memory`, `retain_volatile` and `restore_volatile`:
a change of the card alone. -/
def onCard (change : EStateM Jcvm.Error C α) : SessionM C α := do
  let _ ← installed
  let session ← get
  let card ← orFail session.card .missing
  match change card with
  | .ok a card => do
      modify fun session => { session with card := some card }
      pure a
  | .error e card => do
      modify fun session => { session with card := some card }
      throw (sessionError e)

def prepareEpochRecord (oldIdentity : Cbor.Fixed 16) (image : Cbor.Fixed 32) (newIdentity : Cbor.Fixed 16)
    (key : List Byte) (provider : Provider) : SessionM C (List Byte) := do
  let _ ← installed
  let session ← get
  failIf (session.store.installation ≠ oldIdentity ∨ session.store.image ≠ image) .keyMismatch
  let view ← liveView engine
  onStore (Store.prepareEpochRecord view newIdentity key provider)

/-- The store on a renewed bank, if that holds the live state of the card. -/
def renewedStore (session : Session C) (live : PersistentView) (flash : MemoryFlash) (key : List Byte)
    (installation : Cbor.Fixed 16) (surroundings : Surroundings) : Except Error Store := do
  let code ← surroundings.code
  let file ← parseImage code
  let (renewed, snapshot) ← Store.openSnapshot flash key code installation surroundings.provider
  failIf (session.store.image ≠ renewed.image ∨ session.store.maximum ≠ renewed.maximum) .keyMismatch
  let snapshot ← orFail snapshot .storage
  let saved ← decodeSnapshot snapshot file session.sizes renewed.image installation
  failIf (live.metadata ≠ (saved.instance', saved.statics) ∨ live.heapBytes ≠ saved.heap.length) .keyMismatch
  compareHeap live saved.heap
  pure { renewed with heapLength := some saved.heap.length }

/-- Keep the live card, and replace its journal. A failed handoff forbids its use. -/
def adoptRenewedStore (flash : MemoryFlash) (key : List Byte) (installation : Cbor.Fixed 16)
    (surroundings : Surroundings) : SessionM C Unit := do
  let _ ← installed
  modify fun session => { session with recoveryRequired := true }
  let session ← get
  failIf (session.store.installation = installation) .keyMismatch
  let live ← liveView engine
  let renewed ← readOnly (renewedStore session live flash key installation surroundings)
  modify fun session => { session with
    store := { renewed with heapLimit := session.store.heapLimit }
    recoveryRequired := false }

def takeSecurityReset : SessionM C Bool := fun session =>
  .ok session.resetRequested { session with resetRequested := false }

end Session

section Runs

variable {C : Type} (engine : Engine C)

/-- One call of a session. The last one is no call: it sets after how many writes the
flash loses power. -/
inductive Operation (C : Type) where
  | processCommand (command : List Byte) (security : Option Byte) (execution : Execution C Unit) (cancelled : Bool)
  | deselect (execution : Execution C Unit)
  | install (installing : Except Jcvm.Error (Installing C)) (cancelled late : Bool)
  | recover
  | compactIdle
  | onCard (change : EStateM Jcvm.Error C Unit)
  | prepareEpochRecord (oldIdentity : Cbor.Fixed 16) (image : Cbor.Fixed 32) (newIdentity : Cbor.Fixed 16)
      (key : List Byte)
  | adoptRenewedStore (flash : MemoryFlash) (key : List Byte) (installation : Cbor.Fixed 16)
  | takeSecurityReset
  | losePowerAfter (writes : Option Nat)

def Operation.run (surroundings : Surroundings) : Operation C → SessionM C Unit
  | .processCommand command security execution cancelled =>
      Session.processCommand engine command security execution cancelled surroundings
  | .deselect execution => Session.deselect engine execution surroundings
  | .install installing cancelled late => Session.install engine installing cancelled late surroundings
  | .recover => Session.recover engine surroundings
  | .compactIdle => Session.compactIdle engine surroundings.provider
  | .onCard change => Session.onCard change
  | .prepareEpochRecord oldIdentity image newIdentity key => do
      let _ ← Session.prepareEpochRecord engine oldIdentity image newIdentity key surroundings.provider
  | .adoptRenewedStore flash key installation => Session.adoptRenewedStore engine flash key installation surroundings
  | .takeSecurityReset => do
      let _ ← Session.takeSecurityReset
  | .losePowerAfter writes => modify fun session => { session with
      store := { session.store with journal := session.store.journal.withBudget writes } }

/-- A call, with what it finds around it. -/
structure Call (C : Type) where
  surroundings : Surroundings
  operation : Operation C

/-- The session behind a call, however that ended. -/
def Session.after (session : Session C) (call : Call C) : Session C :=
  final (call.operation.run engine call.surroundings session)

def Session.afterAll (session : Session C) (calls : List (Call C)) : Session C := calls.foldl (Session.after engine) session

end Runs

end MicroCard.JcvmStorage
