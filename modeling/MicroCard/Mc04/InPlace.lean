import MicroCard.Mc04.CredentialStore
import MicroCard.Mc04.KeyStore

/-! The stores as they are changed in place. A call that fails leaves in its store whatever
it had written by then, and each fallible allocation may be refused. -/
namespace MicroCard.Mc04.InPlace

open Bytes CrashTriple Cbor Codec

abbrev KeyM := EStateM Error KeyStore

abbrev CredentialM := EStateM Error CredentialStore

/-- What the allocator grants during one call: room for one more entry, and a buffer. -/
structure Grants where
  entry : Bool
  buffer : Bool

section Keys

def reserveEntry (grants : Grants) : KeyM Unit := do
  let store ← get
  failIf (maxKeyEntries ≤ store.length) .quota
  failIf (grants.entry = false) .quota

/-- Put an entry in its slot. Room for it was reserved before. -/
def insert (slot : Int32) (entry : KeyEntry) : KeyM Unit := do
  failIf (keySlot slot = false) .bounds
  let store ← get
  failIf (store.entries.contains slot.toInt = false ∧ maxKeyEntries ≤ store.length) .quota
  set (⟨store.entries.insert (slot, entry)⟩ : KeyStore)

def open' (grants : Grants) (owner : Fixed 16) (slot : Int32) : KeyM (List Byte) := do
  let store ← get
  let entry ← orFail (store.entries.find slot.toInt) .missing
  failIf (grants.buffer = false) .quota
  pure (owner.1 ++ entry.2.nonce.1)

def generate (grants : Grants) (owner : Fixed 16) (slot algorithm : Int32)
    (random : Nat → (length : Nat) → Except Error (Fixed length)) : KeyM (List Byte) := do
  failIf (keySlot slot = false) .bounds
  let store ← get
  failIf (store.entries.contains slot.toInt = true) .busy
  reserveEntry grants
  let algorithm ← orFail (Algorithm.ofCode algorithm.toInt) .unsupported
  let nonce ← readOnly (random 0 16)
  let key ← readOnly (KeyStore.drawKey algorithm random)
  failIf (nonce ∈ store.values.map KeyEntry.nonce) .native
  insert slot ⟨algorithm, nonce, key⟩
  open' grants owner slot

def delete (slot : Int32) : KeyM Unit := do
  let store ← get
  failIf (store.entries.contains slot.toInt = false) .missing
  set (⟨store.entries.erase slot.toInt⟩ : KeyStore)

end Keys

section Credentials

def entry (owner : Fixed 16) (slot : Int32) : CredentialM CredentialEntry := do
  let store ← get
  readOnly (store.entry owner slot)

/-- Write an entry that is there. -/
def put (slot : Int32) (entry : CredentialEntry) : CredentialM Unit := modify fun store => store.put slot entry

def create (grants : Grants) (platform : Platform) (owner : Fixed 16) (slot : Int32) (pin puk : List Byte)
    (retries : Int32 × Int32) : CredentialM Unit := do
  readOnly (validateSecret pin minPinBytes)
  readOnly (validateSecret puk minPukBytes)
  let pinMaxRetries ← readOnly (retryCount retries.1)
  let pukMaxRetries ← readOnly (retryCount retries.2)
  let store ← get
  failIf (slot.toInt < 0) .bounds
  failIf (store.entries.contains slot.toInt = true) .busy
  failIf (maxCredentialSlots ≤ store.length) .quota
  failIf (grants.entry = false) .quota
  let salts ← readOnly (platform.random 0 32)
  let pinSalt : Fixed 16 := ⟨salts.1.take 16, CredentialStore.length_first_salt salts⟩
  let pukSalt : Fixed 16 := ⟨salts.1.drop 16, CredentialStore.length_last_salt salts⟩
  let pinDigest ← readOnly (credentialDigest platform owner slot 1 pinSalt pin)
  let pukDigest ← readOnly (credentialDigest platform owner slot 2 pukSalt puk)
  put slot ⟨slot, owner, pinSalt, pinDigest, pukSalt, pukDigest, pinMaxRetries, pinMaxRetries, pukMaxRetries, pukMaxRetries⟩

def verifyPin (platform : Platform) (owner : Fixed 16) (slot : Int32) (candidate : List Byte) : CredentialM (Bool × Bool) := do
  readOnly (validateSecret candidate minPinBytes)
  let entry ← entry owner slot
  if entry.pinRetries = 0 then
    return (false, false)
  let digest ← readOnly (credentialDigest platform owner slot 1 entry.pinSalt candidate)
  if digest = entry.pinDigest then
    put slot { entry with pinRetries := entry.pinMaxRetries }
    return (true, entry.pinRetries ≠ entry.pinMaxRetries)
  put slot { entry with pinRetries := entry.pinRetries - 1 }
  return (false, true)

def changePin (platform : Platform) (owner : Fixed 16) (slot : Int32) (newPin : List Byte) : CredentialM Bool := do
  readOnly (validateSecret newPin minPinBytes)
  let salt ← readOnly (platform.random 0 16)
  let digest ← readOnly (credentialDigest platform owner slot 1 salt newPin)
  let entry ← entry owner slot
  put slot { entry with pinSalt := salt, pinDigest := digest, pinRetries := entry.pinMaxRetries }
  return true

def unblock (platform : Platform) (owner : Fixed 16) (slot : Int32) (puk newPin : List Byte) : CredentialM (Bool × Bool) := do
  readOnly (validateSecret puk minPukBytes)
  readOnly (validateSecret newPin minPinBytes)
  let first ← entry owner slot
  if first.pukRetries = 0 then
    return (false, false)
  let candidate ← readOnly (credentialDigest platform owner slot 2 first.pukSalt puk)
  if candidate ≠ first.pukDigest then
    put slot { first with pukRetries := first.pukRetries - 1 }
    return (false, true)
  let salt ← readOnly (platform.random 0 16)
  let digest ← readOnly (credentialDigest platform owner slot 1 salt newPin)
  let entry ← entry owner slot
  put slot { entry with
    pinSalt := salt, pinDigest := digest, pinRetries := entry.pinMaxRetries, pukRetries := entry.pukMaxRetries }
  return (true, true)

def applyFloor (owner : Fixed 16) (changed : Bool) (floor : Int32 × (UInt8 × UInt8)) : CredentialM Bool := do
  let store ← get
  match store.entries.find floor.1.toInt with
  | none => pure changed
  | some found =>
      failIf (found.2.owner ≠ owner ∨ found.2.pinMaxRetries < floor.2.1 ∨ found.2.pukMaxRetries < floor.2.2) .storage
      put floor.1 (CredentialStore.CredentialEntry.lower found.2 floor.2)
      pure (changed || floor.2.1 < found.2.pinRetries || floor.2.2 < found.2.pukRetries)

/-- Apply the floors one by one. Those before a refused one stay applied. -/
def applyRetryFloor (owner : Fixed 16) (floors : List (Int32 × (UInt8 × UInt8))) : CredentialM Bool :=
  floors.foldlM (applyFloor owner) false

end Credentials

end MicroCard.Mc04.InPlace
