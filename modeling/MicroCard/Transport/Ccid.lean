import MicroCard.Transport.Scp03

/-! The one-slot CCID reader: the bulk-message codec, the slot with its two-part abort
handshake and the controller over both. Functions that write into the caller's buffer
return the bytes they leave at its start. -/
namespace MicroCard.Ccid

open Bytes CrashTriple Transport

def headerBytes : Nat := 10
def maxShortCommandBytes : Nat := 261
def maxCommandMessageBytes : Nat := headerBytes + maxShortCommandBytes
def maxResponseMessageBytes : Nat := headerBytes + maxShortResponseBytes
def maxSlotIndex : Byte := 0

/-- Direct convention, T=1, no historical bytes. -/
def atr : List Byte := [0x3b, 0x80, 0x01, 0x81]

def pcToRdrIccPowerOn : Byte := 0x62
def pcToRdrIccPowerOff : Byte := 0x63
def pcToRdrGetSlotStatus : Byte := 0x65
def pcToRdrXfrBlock : Byte := 0x6f
def pcToRdrAbort : Byte := 0x72
def rdrToPcDataBlock : Byte := 0x80
def rdrToPcSlotStatus : Byte := 0x81
def errorBadLength : Byte := 1
def errorBadSlot : Byte := 5
def errorBadPowerSelect : Byte := 7
def errorBadLevelParameter : Byte := 8
def errorCommandNotSupported : Byte := 0
def errorCommandAborted : Byte := 0xff
def errorIccMute : Byte := 0xfe
def powerSelect1V8 : Byte := 0x03
def errorSlotBusy : Byte := 0xe0

structure Header where
  messageType : Byte
  dataLength : Nat
  slot : Byte
  sequence : Byte
  parameters : Byte × Byte × Byte

inductive Command where
  | powerOn (sequence : Byte)
  | powerOff (sequence : Byte)
  | getSlotStatus (sequence : Byte)
  | transferBlock (sequence : Byte) (apdu : List Byte)
  | abort (sequence : Byte)
  deriving DecidableEq

def Command.sequence : Command → Byte
  | .powerOn sequence | .powerOff sequence | .getSlotStatus sequence | .transferBlock sequence _ | .abort sequence => sequence

def Command.isAbort : Command → Bool
  | .abort _ => true
  | _ => false

inductive IccStatus where
  | active
  | inactive
  | notPresent

def IccStatus.code : IccStatus → Byte
  | .active => 0
  | .inactive => 1
  | .notPresent => 2

inductive CommandStatus where
  | success
  | failed

def CommandStatus.code : CommandStatus → Byte
  | .success => 0
  | .failed => 0x40

inductive ResponseKind where
  | dataBlock
  | slotStatus

/-- A validated action for the USB backend. -/
inductive SlotAction where
  | dataBlock (sequence : Byte) (data : List Byte)
  | slotStatus (sequence : Byte)
  | dispatch (sequence : Byte) (apdu : List Byte)
  | failed (sequence : Byte) (response : ResponseKind) (error : Byte)
  | awaitAbortPair (sequence : Byte)

def responseKind : Command → ResponseKind
  | .powerOn _ | .transferBlock .. => .dataBlock
  | .powerOff _ | .getSlotStatus _ | .abort _ => .slotStatus

def status (icc : IccStatus) (command : CommandStatus) : Byte := icc.code ||| command.code

/-- Parse the fixed header without trusting the declared payload. -/
def parseHeader : List Byte → Except Error Header
  | messageType :: l0 :: l1 :: l2 :: l3 :: slot :: sequence :: p0 :: p1 :: p2 :: _ =>
      .ok ⟨messageType, fromLE [l0, l1, l2, l3], slot, sequence, (p0, p1, p2)⟩
  | _ => .error .bounds

/-- The command of a message whose length and slot are right. -/
def commandOf (header : Header) (data : List Byte) : Except Error Command :=
  if header.messageType = pcToRdrIccPowerOn then
    if data = [] ∧ header.parameters.1 ≤ powerSelect1V8 ∧ header.parameters.2 = (0, 0) then .ok (.powerOn header.sequence)
    else .error .format
  else if header.messageType = pcToRdrIccPowerOff then
    if data = [] ∧ header.parameters = (0, 0, 0) then .ok (.powerOff header.sequence) else .error .format
  else if header.messageType = pcToRdrGetSlotStatus then
    if data = [] ∧ header.parameters = (0, 0, 0) then .ok (.getSlotStatus header.sequence) else .error .format
  else if header.messageType = pcToRdrXfrBlock then
    if header.parameters = (0, 0, 0) then .ok (.transferBlock header.sequence data) else .error .format
  else if header.messageType = pcToRdrAbort then
    if data = [] ∧ header.parameters = (0, 0, 0) then .ok (.abort header.sequence) else .error .format
  else .error .unsupported

/-- Decode exactly one complete bulk-OUT message. -/
def decode (input : List Byte) : Except Error Command := do
  let header ← parseHeader input
  failIf (maxCommandMessageBytes < input.length) .bounds
  failIf (maxShortCommandBytes < header.dataLength ∨ header.dataLength ≠ input.length - headerBytes) .bounds
  failIf (header.slot ≠ 0) .missing
  commandOf header (input.drop headerBytes)

/-- The CCID error byte of a decode failure. -/
def errorCode (header : Header) : Error → Byte
  | .bounds => errorBadLength
  | .missing => errorBadSlot
  | .format =>
      if header.messageType = pcToRdrIccPowerOn then errorBadPowerSelect
      else if header.messageType = pcToRdrXfrBlock then errorBadLevelParameter
      else errorCommandNotSupported
  | _ => errorCommandNotSupported

def writeDataBlock (capacity : Nat) (slot sequence : Byte) (icc : IccStatus) (command : CommandStatus) (error : Byte)
    (data : List Byte) : Except Error (List Byte) :=
  if maxShortResponseBytes < data.length ∨ capacity < headerBytes + data.length then .error .bounds
  else .ok ([rdrToPcDataBlock] ++ toLE 4 data.length ++ [slot, sequence, status icc command, error, 0] ++ data)

def writeSlotStatus (capacity : Nat) (slot sequence : Byte) (icc : IccStatus) (command : CommandStatus) (error : Byte) :
    Except Error (List Byte) :=
  if capacity < headerBytes then .error .bounds
  else .ok [rdrToPcSlotStatus, 0, 0, 0, 0, slot, sequence, status icc command, error, 0]

/-- The state of the single, permanently present card. -/
structure SlotState where
  powered : Bool
  inFlight : Option Byte
  controlAbort : Option Byte
  bulkAbort : Option Byte

namespace SlotState

def new : SlotState := ⟨false, none, none, none⟩

def iccStatus (slot : SlotState) : IccStatus := if slot.powered then .active else .inactive

def finishAbort (slot : SlotState) (sequence : Byte) : SlotAction × SlotState :=
  (.slotStatus sequence, { slot with inFlight := none, controlAbort := none, bulkAbort := none })

/-- Accept one decoded command. A second command fails without disturbing the first. -/
def accept (slot : SlotState) (command : Command) : SlotAction × SlotState :=
  match slot.controlAbort with
  | some abortSequence =>
      if command.isAbort ∧ command.sequence = abortSequence then slot.finishAbort command.sequence
      else (.failed command.sequence (responseKind command) errorCommandAborted, slot)
  | none =>
      if command.isAbort then
        match slot.bulkAbort with
        | some abortSequence =>
            if command.sequence = abortSequence then (.awaitAbortPair command.sequence, slot)
            else (.failed command.sequence .slotStatus errorSlotBusy, slot)
        | none =>
            if slot.inFlight = none then (.failed command.sequence .slotStatus errorCommandNotSupported, slot)
            else (.awaitAbortPair command.sequence, { slot with bulkAbort := some command.sequence })
      else if slot.inFlight.isSome then (.failed command.sequence (responseKind command) errorSlotBusy, slot)
      else match command with
        | .powerOn sequence => (.dataBlock sequence atr, { slot with powered := true })
        | .powerOff sequence => (.slotStatus sequence, { slot with powered := false })
        | .getSlotStatus sequence => (.slotStatus sequence, slot)
        | .transferBlock sequence apdu =>
            if slot.powered then (.dispatch sequence apdu, { slot with inFlight := some sequence })
            else (.failed sequence .dataBlock errorIccMute, slot)
        -- Not reached: an abort was answered above.
        | .abort sequence => (.awaitAbortPair sequence, slot)

/-- Register the control-pipe half of an abort. A matching bulk half may have arrived
first because the two pipes are asynchronous. -/
def abortByControl (slot : SlotState) (index sequence : Byte) : Except Error (Option SlotAction) × SlotState :=
  if index ≠ maxSlotIndex then (.error .missing, slot)
  else if slot.bulkAbort = some sequence then
    let finished := slot.finishAbort sequence
    (.ok (some finished.1), finished.2)
  else if slot.inFlight = none then (.error .missing, slot)
  else (.ok none, { slot with controlAbort := some sequence })

/-- Complete the APDU in flight. The data block is written only after this succeeds. -/
def complete (slot : SlotState) (sequence : Byte) : Except Error Unit × SlotState :=
  if slot.inFlight ≠ some sequence ∨ slot.controlAbort.isSome ∨ slot.bulkAbort.isSome then (.error .missing, slot)
  else (.ok (), { slot with inFlight := none })

end SlotState

inductive ControllerAction where
  | response (bytes : List Byte)
  | dispatch (sequence : Byte) (apdu : List Byte)
  | awaitAbortPair (sequence : Byte)

structure Controller where
  slot : SlotState

def responseKindForMessage (messageType : Byte) : ResponseKind :=
  if messageType = pcToRdrIccPowerOn ∨ messageType = pcToRdrXfrBlock then .dataBlock else .slotStatus

namespace Controller

def new : Controller := ⟨.new⟩

def writeFailure (controller : Controller) (sequence : Byte) (response : ResponseKind) (error : Byte) : Except Error (List Byte) :=
  match response with
  | .dataBlock => writeDataBlock maxResponseMessageBytes 0 sequence controller.slot.iccStatus .failed error []
  | .slotStatus => writeSlotStatus maxResponseMessageBytes 0 sequence controller.slot.iccStatus .failed error

/-- The answer to a message that no command can be read from. -/
def rejectBulk (controller : Controller) (input : List Byte) (error : Error) : Except Error ControllerAction := do
  let header ← parseHeader input
  let icc := if header.slot = maxSlotIndex then controller.slot.iccStatus else .notPresent
  let error := errorCode header error
  (match responseKindForMessage header.messageType with
    | .dataBlock => writeDataBlock maxResponseMessageBytes header.slot header.sequence icc .failed error []
    | .slotStatus => writeSlotStatus maxResponseMessageBytes header.slot header.sequence icc .failed error).map .response

/-- Write the answer of an action of the slot. -/
def perform (controller : Controller) : SlotAction → Except Error ControllerAction
  | .dataBlock sequence data =>
      (writeDataBlock maxResponseMessageBytes 0 sequence controller.slot.iccStatus .success 0 data).map .response
  | .slotStatus sequence => (writeSlotStatus maxResponseMessageBytes 0 sequence controller.slot.iccStatus .success 0).map .response
  | .dispatch sequence apdu => .ok (.dispatch sequence apdu)
  | .failed sequence response error => (controller.writeFailure sequence response error).map .response
  | .awaitAbortPair sequence => .ok (.awaitAbortPair sequence)

def handleBulk (controller : Controller) (input : List Byte) : Except Error ControllerAction × Controller :=
  match decode input with
  | .error error => (controller.rejectBulk input error, controller)
  | .ok command =>
      let accepted := controller.slot.accept command
      (perform ⟨accepted.2⟩ accepted.1, ⟨accepted.2⟩)

def complete (controller : Controller) (sequence : Byte) (response : List Byte) : Except Error (List Byte) × Controller :=
  if maxShortResponseBytes < response.length then (.error .bounds, controller)
  else
    match controller.slot.complete sequence with
    | (.error error, slot) => (.error error, ⟨slot⟩)
    | (.ok (), slot) => (writeDataBlock maxResponseMessageBytes 0 sequence slot.iccStatus .success 0 response, ⟨slot⟩)

def fail (controller : Controller) (sequence error : Byte) : Except Error (List Byte) × Controller :=
  match controller.slot.complete sequence with
  | (.error error, slot) => (.error error, ⟨slot⟩)
  | (.ok (), slot) => (writeFailure ⟨slot⟩ sequence .dataBlock error, ⟨slot⟩)

def controlAbort (controller : Controller) (index sequence : Byte) : Except Error (Option (List Byte)) × Controller :=
  match controller.slot.abortByControl index sequence with
  | (.error error, slot) => (.error error, ⟨slot⟩)
  | (.ok (some (.slotStatus sequence)), slot) =>
      ((writeSlotStatus maxResponseMessageBytes index sequence slot.iccStatus .success 0).map some, ⟨slot⟩)
  | (.ok _, slot) => (.ok none, ⟨slot⟩)

/-- Reset, suspend or disconnect requires a fresh power-on and keeps no command. -/
def disconnect (_controller : Controller) : Controller := .new

end Controller

end MicroCard.Ccid
