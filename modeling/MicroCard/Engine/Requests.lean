import MicroCard.Card.Store
import MicroCard.Transport.Scp03

/-! GlobalPlatform management requests, and the ordered, bounded reception of a load
file. Authentication and activation belong to the caller; completion alone does not
authorize code. -/
namespace MicroCard.Engine

open Bytes Cbor CrashTriple Card Transport

section Requests

/-- A value behind its length, and what follows it. -/
def takeLv (data : List Byte) : Except Error (List Byte × List Byte) :=
  match data with
  | [] => throw .format
  | length :: rest => do
      failIf (rest.length < length.toNat) .format
      pure (rest.take length.toNat, rest.drop length.toNat)

def isAidLength (value : List Byte) : Bool := 5 ≤ value.length ∧ value.length ≤ maxAidBytes

def ssdPackageAid : List Byte := [0xa0, 0x00, 0x00, 0x01, 0x51, 0x53, 0x50]

def ssdModuleAid : List Byte := [0xa0, 0x00, 0x00, 0x01, 0x51, 0x53, 0x50, 0x41]

/-- A domain has the security domain privilege and no other. -/
def isDomainPrivilege (privileges : List Byte) : Bool :=
  privileges.head? = some 0x80 ∧ privileges.length ≤ 3 ∧ privileges.tail.all (· = 0)

def ssdInstallAid (scp03I : Byte) (command : Command) : Except Error (List Byte) := do
  failIf (command.ins ≠ 0xe6 ∨ command.p1 ≠ 0x0c ∨ command.p2 ≠ 0) .format
  let (package, data) ← takeLv command.data
  let (module, data) ← takeLv data
  let (instance', data) ← takeLv data
  let (privileges, data) ← takeLv data
  let (parameters, data) ← takeLv data
  let (installToken, data) ← takeLv data
  failIf (data ≠ [] ∨ package ≠ ssdPackageAid ∨ module ≠ ssdModuleAid ∨ !isAidLength instance' ∨
    !isDomainPrivilege privileges ∨ ¬(parameters = [0xc9, 0] ∨ parameters = [0xc9, 4, 0x81, 2, 3, scp03I]) ∨
    installToken ≠ []) .format
  pure instance'

structure ApplicationInstall where
  loadAid : List Byte
  moduleAid : List Byte
  /-- The AID this instance answers to; it may differ from the module's. -/
  instanceAid : List Byte
  privileges : List Byte
  /-- Decoded application data; transport framing is excluded. -/
  parameters : List Byte

/-- Every privilege names an authority the card does not grant. -/
def isUnprivileged (privileges : List Byte) : Bool := privileges = [0] ∨ privileges = [0, 0, 0]

/-- Install input: instance AID, privileges and parameters, each behind its length. -/
def ApplicationInstall.jcvmParameters (request : ApplicationInstall) : Except Error (List Byte) := do
  failIf (!isAidLength request.instanceAid ∨ 127 < request.parameters.length) .format
  failIf (!isUnprivileged request.privileges) .unauthorized
  pure ([request.instanceAid, request.privileges, request.parameters].flatMap fun value =>
    UInt8.ofNat value.length :: value)

/-- The value of the application-specific install parameter. An absent field and an
empty one both mean no parameters. -/
def installParameterValue (parameters : List Byte) : Except Error (List Byte) :=
  match parameters with
  | [] => pure []
  | [_] => throw .format
  | tag :: length :: rest => do
      failIf (tag ≠ 0xc9) .format
      failIf (0x7f < length.toNat ∨ rest.length ≠ length.toNat) .format
      pure rest

def applicationInstall (command : Command) : Except Error ApplicationInstall := do
  failIf (command.ins ≠ 0xe6 ∨ command.p1 ≠ 0x0c ∨ command.p2 ≠ 0) .format
  let (loadAid, data) ← takeLv command.data
  let (moduleAid, data) ← takeLv data
  let (instanceAid, data) ← takeLv data
  let (privileges, data) ← takeLv data
  let (parameters, data) ← takeLv data
  let (token, data) ← takeLv data
  failIf (data ≠ [] ∨ !isAidLength loadAid ∨ !isAidLength moduleAid ∨ !isAidLength instanceAid ∨ token ≠ []) .format
  failIf (¬(privileges.length = 1 ∨ privileges.length = 3)) .format
  failIf (!isUnprivileged privileges) .unauthorized
  let parameters ← installParameterValue parameters
  pure ⟨loadAid, moduleAid, instanceAid, privileges, parameters⟩

/-- An absent hash removes a declaration rather than a check. -/
def loadHash (hash : List Byte) : Except Error (Option (Fixed 32)) :=
  if hash = [] then pure none
  else if h : hash.length = 32 then pure (some ⟨hash, h⟩)
  else throw .format

/-- Load parameters are advisory and ignored; a load token is refused. -/
def loadRequest (command : Command) : Except Error LoadRequest := do
  failIf (command.ins ≠ 0xe6 ∨ command.p1 ≠ 0x02 ∨ command.p2 ≠ 0) .format
  let (loadAid, data) ← takeLv command.data
  let (domainAid, data) ← takeLv data
  let (hash', data) ← takeLv data
  let (_, data) ← takeLv data
  let (token, data) ← takeLv data
  failIf (data ≠ [] ∨ !isAidLength loadAid ∨ !isAidLength domainAid ∨ token ≠ []) .format
  let hash' ← loadHash hash'
  pure ⟨loadAid, domainAid, hash'⟩

def deleteAid (command : Command) : Except Error (List Byte) :=
  match command.data with
  | tag :: length :: rest => do
      failIf (command.ins ≠ 0xe4 ∨ command.p1 ≠ 0 ∨ ¬(command.p2 = 0 ∨ command.p2 = 0x80)) .format
      failIf (tag ≠ 0x4f) .format
      failIf (¬(5 ≤ length.toNat ∧ length.toNat ≤ maxAidBytes) ∨ rest.length ≠ length.toNat) .format
      pure rest
  | _ => throw .format

end Requests

section Reception

/-- A TLV length in its shortest form: its value and the bytes it takes. -/
def tlvLength (input : List Byte) : Option (Nat × Nat) :=
  match input with
  | [] => none
  | first :: rest =>
      if first.toNat ≤ 0x7f then some (first.toNat, 1)
      else if first = 0x81 then
        (rest.head?.map fun low => (low.toNat, 2)).filter fun length => 128 ≤ length.1
      else if first = 0x82 then
        (if 2 ≤ rest.length then some (fromBE (rest.take 2), 3) else none).filter fun length => 256 ≤ length.1
      else none

/-- The announced length of a load file, and the first bytes of it. -/
def loadFileData (data : List Byte) : Except Error (Nat × List Byte) :=
  match data with
  | [] => throw .format
  | tag :: rest => do
      failIf (tag ≠ 0xc4) .format
      let (length, octets) ← orFail (tlvLength rest) .format
      pure (length, rest.drop octets)

inductive Payload where
  | signedPackage
  | javaCard
  deriving DecidableEq, Repr

/-- The outer container, from the first bytes of a load. -/
def payloadKind (value : List Byte) : Except Error Payload :=
  if value.take 4 = [0x4d, 0x50, 0x30, 0x35] then pure .signedPackage
  else if 7 ≤ value.length ∧ value.head? = some 0x01 ∧ (value.drop 3).take 4 = [0xde, 0xca, 0xff, 0xed] then
    pure .javaCard
  else throw .format

/-- The staging region: its flash, and how much of it belongs to the upload. -/
structure Staging where
  bytes : List Byte
  length : Nat

namespace Staging

def isEmpty (staging : Staging) : Bool := staging.length = 0

/-- Forget the upload. The flash keeps its bytes until the next upload erases it. -/
def reset (staging : Staging) : Staging := { staging with length := 0 }

/-- Add bytes behind the upload; the first of an upload replace what was there. -/
def append (staging : Staging) (bytes : List Byte) : Staging :=
  ⟨staging.bytes.take staging.length ++ bytes, staging.length + bytes.length⟩

end Staging

structure LoadReceiver where
  payload : Payload
  maximum : Nat
  total : Option Nat
  received : Nat
  nextBlock : Nat
  closed : Bool

namespace LoadReceiver

def new (payload : Payload) (maximum : Nat) : LoadReceiver := ⟨payload, maximum, none, 0, 0, false⟩

/-- The length of the whole load and the part of it in this block. -/
def chunk (receiver : LoadReceiver) (command : Command) : Except Error (Nat × List Byte) :=
  if receiver.nextBlock = 0 then do
    let (total, chunk) ← loadFileData command.data
    failIf (receiver.maximum < total) .quota
    let kind ← payloadKind chunk
    failIf (kind ≠ receiver.payload) .unsupported
    pure (total, chunk)
  else do
    let total ← orFail receiver.total .format
    pure (total, command.data)

/-- The checks of a block, in order; what is appended and the receiver after it. -/
def accept (receiver : LoadReceiver) (command : Command) (staged : Nat) : Except Error (List Byte × LoadReceiver) := do
  failIf (receiver.closed ∨ command.ins ≠ 0xe8 ∨ ¬(command.p1 = 0 ∨ command.p1 = 0x80) ∨ command.data = [] ∨
    255 < receiver.nextBlock ∨ command.p2.toNat ≠ receiver.nextBlock ∨ staged ≠ receiver.received) .format
  let (total, chunk) ← receiver.chunk command
  let stop := receiver.received + chunk.length
  failIf (total < stop) .quota
  let last := command.p1 = 0x80
  failIf ((last ∧ stop ≠ total) ∨ (¬last ∧ (stop = total ∨ command.p2 = 255))) .format
  pure (chunk, { receiver with total := some total, received := stop, nextBlock := receiver.nextBlock + 1, closed := last })

end LoadReceiver

end Reception

end MicroCard.Engine
