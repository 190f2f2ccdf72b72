import MicroCard.Engine.Devices

/-! Applet sessions: one open heap journal with the applet it restored. A command that
fails drops the live applet and restores it from the journal. -/
namespace MicroCard.Engine

open Bytes Cbor CrashTriple Card Transport

/-- A call of the engine with a session in hand. -/
structure Working where
  running : Running
  session : Session

abbrev SessionM := EStateM Error Working

section Lifting

variable {α : Type}

/-- A step of the engine; it does not touch the session in hand. -/
def onEngine (action : EngineM α) : SessionM α := fun working =>
  match action working.running with
  | .ok a running => .ok a { working with running := running }
  | .error e running => .error e { working with running := running }

/-- Use a session; its outcome, and the session as the use left it. -/
def holding (session : Session) (action : SessionM α) : EngineM (Except Error α × Session) := fun running =>
  match action ⟨running, session⟩ with
  | .ok a working => .ok (.ok a, working.session) working.running
  | .error e working => .ok (.error e, working.session) working.running

def modifySession (update : Session → Session) : SessionM Unit :=
  modify fun working => { working with session := update working.session }

/-- A check or a value that may be refused. -/
def unlessInvalid (invalid : Option Error) : SessionM Unit :=
  match invalid with
  | some e => throw e
  | none => pure ()

end Lifting

section Reading

def Session.installed (session : Session) : Except Error Bool := do
  failIf session.recoveryRequired .storage
  pure session.applet.isSome

def installed : SessionM Bool := do
  let working ← get
  readOnly working.session.installed

/-- The live applet. -/
def liveApplet : SessionM Applet := do
  let _ ← installed
  let working ← get
  orFail working.session.applet .missing

def selected : SessionM Bool := do
  let _ ← installed
  let working ← get
  pure (working.session.applet.any Applet.selected)

def takeSecurityReset : SessionM Bool := do
  let working ← get
  modifySession fun session => { session with resetRequested := false }
  pure working.session.resetRequested

/-- The bank a session works on. -/
def Working.bank (working : Working) : Bank := working.running.card.banks working.session.key.bank

/-- Remaining successful commits of a journal that stands at this anchor. The flash
must stand there, too. -/
def Counters.remaining (platform : Platform) (counters : Counters) (anchored : Nat) : Except Error Nat := do
  failIf (counters.monotonic ≠ anchored) .storage
  failIf (platform.heapGenerations < anchored ∨ platform.heapAttempts < counters.attempts) .storage
  pure (min (platform.heapGenerations - anchored) (platform.heapAttempts - counters.attempts))

def remainingCommits : SessionM Nat := do
  let _ ← installed
  let working ← get
  failIf working.session.poisoned .storage
  let _ ← onEngine (device .counters)
  readOnly (working.bank.counters.remaining working.running.card.platform working.session.anchored)

/-- Room for appended frames; a full slot has none. -/
def appendCapacity : SessionM Nat := do
  let _ ← installed
  let working ← get
  failIf working.session.poisoned .storage
  let outcome ← onEngine (device .appendCapacity)
  pure outcome.number

def compactionAddsCapacity : SessionM Bool := do
  let _ ← liveApplet
  let outcome ← onEngine (device .compactionAddsCapacity)
  unlessInvalid outcome.invalid
  pure outcome.effect

def releaseIdleMemory : SessionM Unit := do
  let _ ← liveApplet

def restoreIdleMemory : SessionM Unit := do
  let _ ← liveApplet
  let _ ← onEngine (device .restoreIdleMemory)

def retainVolatile (maximum : Nat) : SessionM Nat := do
  let _ ← liveApplet
  let outcome ← onEngine (device .retainVolatile)
  unlessInvalid outcome.invalid
  failIf (maximum < outcome.number) .quota
  pure outcome.number

def restoreVolatile : SessionM Unit := do
  let _ ← liveApplet
  let outcome ← onEngine (device .restoreVolatile)
  unlessInvalid outcome.invalid

end Reading

section Journal

/-- The live applet of a journal: it exists once something is committed, and a
restored one is not selected. -/
def restored (monotonic : Nat) : Option Applet := if monotonic = 0 then none else some ⟨false⟩

/-- Opening a journal finishes an anchor advance that was interrupted. -/
def reconcile (bank : UInt8) (advance : Bool) : EngineM Nat := do
  onlyIf (advance = true) (setBank bank fun b => { b with counters.monotonic := b.counters.monotonic + 1 })
  let running ← get
  pure (running.card.banks bank).counters.monotonic

def openJournal (phase : Phase) (key : HeapKey) : EngineM Session := do
  let outcome ← device (.openJournal phase)
  match outcome.invalid with
  | some e => throw e
  | none => do
      let anchored ← reconcile key.bank outcome.effect
      pure ⟨key, anchored, false, restored anchored, false, false⟩

/-- Also clears volatile applet data. -/
def recoverSession : SessionM Unit := do
  modifySession fun session => { session with recoveryRequired := true, applet := none }
  let outcome ← onEngine (device .recoverSession)
  unlessInvalid outcome.invalid
  let working ← get
  let anchored ← onEngine (reconcile working.session.key.bank outcome.effect)
  modifySession fun session => { session with
    anchored := anchored, poisoned := false, applet := restored anchored, recoveryRequired := false }

/-- The effect of a checkpoint on the counters: a snapshot takes a new attempt. -/
def checkpointAttempt (checkpoint : Checkpoint) : SessionM Unit := do
  let working ← get
  failIf working.session.poisoned .storage
  failIf (checkpoint.anchored = true ∧ working.running.card.platform.heapGenerations ≤ working.session.anchored) .quota
  failIf (checkpoint.snapshot = true ∧ working.running.card.platform.heapAttempts ≤ working.bank.counters.attempts)
    .quota
  onEngine (onlyIf (checkpoint.snapshot = true)
    (setBank working.session.key.bank fun b => { b with counters.attempts := b.counters.attempts + 1 }))
  onEngine (act (.sealed working.session.key working.bank.prepared))

/-- Advance the anchor of the session's bank. -/
def advanceAnchor : SessionM Unit := do
  let working ← get
  onEngine (setBank working.session.key.bank fun b =>
    { b with counters.monotonic := working.session.anchored + 1 })

/-- Seal the live state under the key of the session. -/
def commitView (checkpoint : Checkpoint) : SessionM Unit := do
  checkpointAttempt checkpoint
  match checkpoint.refused with
  | some e => do
      onlyIf (checkpoint.anchored = true ∧ checkpoint.effect = true) advanceAnchor
      modifySession fun session => { session with poisoned := true }
      throw e
  | none => onlyIf (checkpoint.anchored = true) do
      advanceAnchor
      modifySession fun session => { session with anchored := session.anchored + 1 }

def compactIdle : SessionM Unit := do
  let _ ← liveApplet
  let outcome ← onEngine (draw .compactIdle)
  commitView ⟨true, false, outcome.invalid.or (outcome.fault.map Subtype.val), outcome.effect⟩

end Journal

section Callbacks

def nextBehaviour : EngineM Behaviour := fun running =>
  .ok (running.card.applets 0) { running with card := { running.card with
    applets := fun n => running.card.applets (n + 1) } }

/-- Poll this often; whether one of the answers was yes. -/
def polls (count : Nat) : EngineM Bool := fun running =>
  .ok ((List.range count).any fun n => running.cancel (running.polls + n)) { running with polls := running.polls + count }

/-- Run a callback: what the applet does with its command is up to its behaviour. A
refused checkpoint or a cancellation ends it. -/
def callback (action : HeapKey → Registry → Action) : SessionM Response := do
  let working ← get
  let behaviour ← onEngine nextBehaviour
  onEngine (act (action working.session.key working.running.card.registry.committed))
  modifySession fun session => { session with resetRequested := session.resetRequested || behaviour.reset }
  behaviour.checkpoints.forM commitView
  let stop ← onEngine (polls behaviour.polls)
  failIf (stop = true) .cancelled
  let response ← readOnly behaviour.result
  modifySession fun session => { session with applet := some ⟨behaviour.selected⟩ }
  pure response

/-- A failed command restores the applet from its journal. -/
def finishApdu {α : Type} : Except Error α → SessionM α
  | .ok a => pure a
  | .error e => do
      recoverSession
      throw e

def process (aid : Aid) : SessionM Response := do
  let present ← installed
  failIf (present = false) .missing
  onEngine failIfCancelled
  let result ← capture (callback (.executed aid))
  finishApdu result

def processVerified (aid : Aid) (verified : Verified) : SessionM Response := do
  let _ ← readOnly verified.command.encode
  process aid

def deselect (aid : Aid) : SessionM Unit := do
  let active ← selected
  onlyIf (active = true) do
    let result ← capture (callback (.executed aid))
    let _ ← finishApdu result

/-- Run the installation of an applet. It has no durable points of its own. -/
def installation (aid : Aid) : SessionM Unit := do
  let working ← get
  let behaviour ← onEngine nextBehaviour
  onEngine (act (.installed aid working.session.key working.running.card.registry.committed))
  let stop ← onEngine (polls behaviour.polls)
  failIf (stop = true) .cancelled
  let _ ← readOnly behaviour.result
  modifySession fun session => { session with applet := some ⟨false⟩ }

/-- Late cancellation suppresses the response, not the durability. -/
def commitInstallation : SessionM Unit := do
  let outcome ← onEngine (draw .commitInstallation)
  commitView ⟨true, true, outcome.invalid.or (outcome.fault.map Subtype.val), outcome.effect⟩
  onEngine failIfCancelled

/-- Create the applet and commit its first snapshot. -/
def installGlobalplatform (aid : Aid) (request : ApplicationInstall) : SessionM Unit := do
  let outcome ← onEngine (device .matchPackage)
  unlessInvalid outcome.invalid
  let _ ← readOnly request.jcvmParameters
  let present ← installed
  failIf (present = true) .busy
  onEngine failIfCancelled
  let result ← capture do
    installation aid
    commitInstallation
  finishApdu result

end Callbacks

end MicroCard.Engine
