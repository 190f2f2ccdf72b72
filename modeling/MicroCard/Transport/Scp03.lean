import MicroCard.Transport.Apdu

/-! SCP03 sessions. A session wraps the messages of one secure channel; each of its
calls zeroizes it when it fails. The run of a session records what it did: which
blocks it encrypted as CBC counters and which messages it accepted. -/
namespace MicroCard.Transport

open Bytes Cbor CrashTriple

/-- The modes a build enables. -/
structure Scp03 where
  s16 : Bool
  pseudoRandom : Bool
  rmac : Bool
  renc : Bool

namespace Scp03

variable (scp03 : Scp03)

/-- The `i` parameter follows the enabled capabilities. -/
def i : Byte :=
  (if scp03.s16 then 0x01 else 0) ||| (if scp03.pseudoRandom then 0x10 else 0) |||
    (if scp03.rmac then 0x20 else 0) ||| (if scp03.renc then 0x40 else 0)

def supportedSecurityLevel : Byte :=
  0x03 ||| (if scp03.rmac then 0x10 else 0) ||| (if scp03.renc then 0x20 else 0)

def challengeBytes : Nat := if scp03.s16 then 16 else 8

def macBytes : Nat := if scp03.s16 then 16 else 8

def cryptogramBits : Nat := if scp03.s16 then 128 else 64

def sequenceBytes : Nat := if scp03.pseudoRandom then 3 else 0

end Scp03

/-- Management commands require at least command integrity. -/
def managementSecurityLevel : Byte := 0x01

def maxShortResponseBytes : Nat := 258

/-- The platform's memory and its primitives, each of which may fail and may change
the platform. The CBC calls fill a buffer and say how much of it they wrote. -/
structure Provider (κ : Type) where
  reserve : Nat → κ → Except Error Unit
  aesCmacParts : Fixed 16 → List (List Byte) → EStateM Error κ (Fixed 16)
  aes128EncryptBlock : Fixed 16 → Fixed 16 → EStateM Error κ (Fixed 16)
  aesCbcDecrypt : Fixed 16 → Fixed 16 → List Byte → EStateM Error κ (Nat × List Byte)
  aesCbcEncrypt : Fixed 16 → Fixed 16 → List Byte → EStateM Error κ (Nat × List Byte)

structure Keys where
  enc : Fixed 16
  mac : Fixed 16

structure Session where
  enc : Fixed 16
  mac : Fixed 16
  rmac : Fixed 16
  chain : Fixed 16
  host : List Byte
  counter : Nat
  level : Byte
  active : Bool

def zeros : Fixed 16 := Fixed.replicate 16 0

def Session.zeroize (session : Session) : Session :=
  ⟨zeros, zeros, zeros, zeros, List.replicate session.host.length 0, 0, 0, false⟩

/-- A command that passed the session's MAC, with the level it was accepted at. -/
structure Verified where
  command : Command
  level : Byte
  deriving DecidableEq

def Verified.mayManage (verified : Verified) : Bool := verified.level &&& managementSecurityLevel ≠ 0

/-- What a run of the transport records. `block` is a block encrypted under the key
of the session as a CBC counter. -/
inductive Event (κ : Type) where
  | received (raw : List Byte)
  | initiated
  | block (block : Fixed 16)
  | authenticated (level : Byte)
  | verified (session : Session) (wire : Command) (verified : Verified)
  | failed
  | managed (globalplatform : Bool) (verified : Verified) (before after : κ)
  | status (verified : Verified)
  | bootloader (verified : Verified)

/-- A session on its platform, with what was recorded so far. -/
structure Channel (κ : Type) where
  session : Session
  card : κ
  trace : List (Event κ)

abbrev ChannelM (κ : Type) := EStateM Error (Channel κ)

section Messages

variable {κ α : Type}

def onCard (action : EStateM Error κ α) : ChannelM κ α := fun channel =>
  match action channel.card with
  | .ok a card => .ok a { channel with card := card }
  | .error e card => .error e { channel with card := card }

/-- Memory for a buffer. -/
def allocate (provider : Provider κ) (length : Nat) : ChannelM κ Unit := do
  let channel ← get
  readOnly (provider.reserve length channel.card)

def record (event : Event κ) : ChannelM κ Unit :=
  modify fun channel => { channel with trace := channel.trace ++ [event] }

/-- A failed call destroys the session. -/
def orZeroize (body : ChannelM κ α) : ChannelM κ α := fun channel =>
  match body channel with
  | .ok a channel => .ok a channel
  | .error e channel =>
      .error e { channel with session := channel.session.zeroize, trace := channel.trace ++ [.failed] }

variable (scp03 : Scp03) (provider : Provider κ)

/-- Verify the MAC at the end of the data and chain it; the payload's length. -/
def checkMac (command : Command) : ChannelM κ Nat := do
  failIf (command.cla ∉ [0x04, 0x14, 0x84, 0x94] ∨ command.data.length < scp03.macBytes ∨ 255 < command.data.length)
    .authentication
  let n := command.data.length - scp03.macBytes
  let header := [command.cla, command.ins, command.p1, command.p2, UInt8.ofNat command.data.length]
  let channel ← get
  let mac ← onCard (provider.aesCmacParts channel.session.mac [channel.session.chain.1, header, command.data.take n])
  failIf (mac.1.take scp03.macBytes ≠ command.data.drop n) .authentication
  modify fun channel => { channel with session := { channel.session with chain := mac } }
  pure n

def authenticate (command : Command) : ChannelM κ Unit := orZeroize do
  let channel ← get
  failIf (channel.session.active = true ∨ command.cla ≠ 0x84 ∨ command.ins ≠ 0x82 ∨ command.p2 ≠ 0 ∨
    command.data.length ≠ scp03.challengeBytes + scp03.macBytes) .authentication
  let payload ← checkMac scp03 provider command
  failIf (command.data.take payload ≠ channel.session.host) .authentication
  failIf (command.p1 &&& ~~~scp03.supportedSecurityLevel ≠ 0) .unsupported
  modify fun channel => { channel with session := { channel.session with level := command.p1, active := true } }
  record (.authenticated command.p1)

/-- The counter block of a command. -/
def commandBlock (counter : Nat) : Fixed 16 := ⟨List.replicate 12 0 ++ toBE 4 counter, by simp⟩

/-- The counter block of the response to it, with the most significant bit set. -/
def responseBlock (counter : Nat) : Fixed 16 := ⟨0x80 :: List.replicate 11 0 ++ toBE 4 counter, by simp⟩

/-- Encrypt a counter block under the key of the session. -/
def encryptBlock (block : Fixed 16) : ChannelM κ (Fixed 16) := do
  record (.block block)
  let channel ← get
  onCard (provider.aes128EncryptBlock channel.session.enc block)

def decryptData (data : List Byte) : ChannelM κ (List Byte) := do
  let channel ← get
  let iv ← encryptBlock provider (commandBlock channel.session.counter)
  allocate provider data.length
  let (written, plaintext) ← onCard (provider.aesCbcDecrypt channel.session.enc iv data)
  failIf (data.length < written) .native
  pure (plaintext.take written)

/-- Decrypt the data of a command unless there is none or the level does not ask. -/
def openData (data : List Byte) : ChannelM κ (List Byte) := do
  let channel ← get
  if channel.session.level &&& 2 ≠ 0 ∧ data ≠ [] then decryptData provider data else pure data

def unwrap (command : Command) : ChannelM κ Verified := orZeroize do
  let before ← get
  failIf (before.session.active = false) .unauthorized
  let payload ← checkMac scp03 provider command
  let channel ← get
  let counter ← orFail (checkedAdd32 channel.session.counter 1) .authentication
  modify fun channel => { channel with session := { channel.session with counter := counter } }
  let data ← openData provider (command.data.take payload)
  let verified : Verified := ⟨{ command with cla := command.cla &&& ~~~0x04, data := data }, before.session.level⟩
  record (.verified before.session command verified)
  pure verified

/-- Status words whose responses are protected; an error carries neither a MAC nor
encryption. -/
def isProtected (sw : Nat) : Bool := sw = 0x9000 ∨ sw / 256 = 0x62 ∨ sw / 256 = 0x63

/-- The length of data after padding to whole blocks. -/
def cbcEncryptedLength (length : Nat) : Nat := (length / 16 + 1) * 16

def encryptData (data : List Byte) : ChannelM κ (List Byte) := do
  let channel ← get
  let iv ← encryptBlock provider (responseBlock channel.session.counter)
  allocate provider (cbcEncryptedLength data.length)
  let (written, buffer) ← onCard (provider.aesCbcEncrypt channel.session.enc iv data)
  pure (buffer.take written)

/-- The level asks for a MAC on this response. -/
def Session.macsResponse (session : Session) (sw : Nat) : Bool := isProtected sw ∧ session.level &&& 0x10 ≠ 0

/-- The level asks for this response to be encrypted; one without data never is. -/
def Session.encryptsResponse (session : Session) (data : List Byte) (sw : Nat) : Bool :=
  isProtected sw ∧ session.level &&& 0x20 ≠ 0 ∧ data ≠ []

def Session.macLength (session : Session) (sw : Nat) : Nat := if session.macsResponse sw then scp03.macBytes else 0

/-- The body of a response: encrypted, in the clear, or absent. -/
def responseBody (data : List Byte) (sw : Nat) : ChannelM κ (List Byte) := do
  let channel ← get
  let bodyLength :=
    if channel.session.encryptsResponse data sw then cbcEncryptedLength data.length
    else if isProtected sw then data.length else 0
  failIf (maxShortResponseBytes < bodyLength + channel.session.macLength scp03 sw + 2) .bounds
  if channel.session.encryptsResponse data sw then encryptData provider data
  else pure (if isProtected sw then data else [])

/-- The MAC of a response covers its encrypted body. -/
def responseMac (body : List Byte) (sw : Nat) : ChannelM κ (List Byte) := do
  let channel ← get
  if channel.session.macsResponse sw then do
    let mac ← onCard (provider.aesCmacParts channel.session.rmac [channel.session.chain.1, body, toBE 2 sw])
    pure (mac.1.take scp03.macBytes)
  else pure []

def response (data : List Byte) (sw : Nat) : ChannelM κ (List Byte) := orZeroize do
  let channel ← get
  failIf (channel.session.active = false) .unauthorized
  let body ← responseBody scp03 provider data sw
  allocate provider (2 + body.length + channel.session.macLength scp03 sw)
  let mac ← responseMac scp03 provider body sw
  pure (body ++ mac ++ toBE 2 sw)

end Messages

section Initiation

variable {κ : Type} (scp03 : Scp03) (provider : Provider κ)

def derive (key : Fixed 16) (constant : Byte) (bits : Nat) (first second : List Byte) : EStateM Error κ (Fixed 16) :=
  provider.aesCmacParts key
    [List.replicate 11 0 ++ [constant, 0] ++ toBE 2 bits ++ [1], first, second]

def pseudoRandomChallenge (keys : Keys) (sequence aid : List Byte) : EStateM Error κ (List Byte) := do
  let material ← derive provider keys.enc 2 scp03.cryptogramBits sequence aid
  pure (material.1.take scp03.challengeBytes)

/-- A fresh session and the card's cryptogram. -/
def Session.initiate (keys : Keys) (host card : List Byte) : EStateM Error κ (Session × List Byte) := do
  let enc ← derive provider keys.enc 4 128 host card
  let mac ← derive provider keys.mac 6 128 host card
  let rmac ← derive provider keys.mac 7 128 host card
  let cardCryptogram ← derive provider mac 0 scp03.cryptogramBits host card
  let hostCryptogram ← derive provider mac 1 scp03.cryptogramBits host card
  pure (⟨enc, mac, rmac, zeros, hostCryptogram.1.take scp03.challengeBytes, 0, 0, false⟩,
    cardCryptogram.1.take scp03.challengeBytes)

end Initiation

end MicroCard.Transport
