import MicroCard.Jcvm.Api
import MicroCard.Jcvm.Heap

/-! Checks on the private words of saved native objects. They are not Java fields, so the
native service that owns them defines their layout. The structure of the heap and the
references in it have been checked before. -/
namespace MicroCard.Jcvm

open Bytes CrashTriple

/-- The words of a native object's state. A key or a PIN counts its kind, its size, the
array that holds its material, whether it is set, and its tries. -/
def kindWord : Nat := 0
def sizeWord : Nat := 1
def materialWord : Nat := 2
def readyWord : Nat := 3
def counterWord : Nat := 4
def pendingWord : Nat := 5

/-- Visit the words of a native object that are heap handles. -/
def visitNativeReferenceOffsets (info : Info) (payloadLength : Nat) (visit : Nat → Except Error Unit) :
    Except Error Unit :=
  if info.kind ≠ .object ∨ info.length ≠ stateWords then .ok ()
  else
    match apiClass info.cls with
    | none => .ok ()
    | some entry => do
        failIf (payloadLength ≠ stateWords * 2) .format
        visit (materialWord * 2)
        if entry.id ∈ [.cipher, .messageDigest, .signature, .keyPair, .rsaPublicKey, .ownerPINxWithPredecrement] then
          visit (pendingWord * 2)

def ClassId.isKey (id : ClassId) : Bool :=
  id ∈ [.aesKey, .desKey, .dhKey, .dhPrivateKey, .dhPublicKey, .dsaKey, .dsaPrivateKey, .dsaPublicKey, .ecKey,
    .ecPrivateKey, .ecPublicKey, .hmacKey, .key, .koreanSEEDKey, .privateKey, .publicKey, .rsaPrivateCrtKey,
    .rsaPrivateKey, .rsaPublicKey, .secretKey]

section SavedBytes

def savedBytes (heap : List Byte) (start length : Nat) : Except Error (List Byte) :=
  if start + length ≤ heap.length then .ok ((heap.drop start).take length) else .error .format

def savedWord (heap : List Byte) (start : Nat) : Except Error Nat := do
  pure (wordOr (← savedBytes heap start 2) 0)

/-- Bytes that are indexed without a check. An index past the end stops the card, and no
state is accepted. -/
def indexed (heap : List Byte) (start length : Nat) : Except Error (List Byte) :=
  if start + length ≤ heap.length then .ok ((heap.drop start).take length) else .error .bounds

/-- The header of an object in a saved heap. -/
def savedInfo (heap : List Byte) (reference : Nat) : Except Error Info :=
  Info.read (fun i => heap.getD i 0) heap.length heap.length reference

/-- The class named by a class word. -/
def savedClass (word : Nat) : Option ClassId := (apiClass word).map ApiClass.id

/-- A word of an object's payload. -/
def stateWord (payload : List Byte) (index : Nat) : Nat := wordOr payload (index * 2)

end SavedBytes

section Der

/-- The length field of an item, in its shortest form only. -/
def derLength : List Byte → Option (Nat × List Byte)
  | [] => none
  | first :: rest =>
      if first.toNat < 128 then some (first.toNat, rest)
      else
        let count := first.toNat % 128
        if count = 0 ∨ 2 < count ∨ rest.length < count then none
        else
          let length := (rest.take count).foldl (fun length byte => length * 256 + byte.toNat) 0
          if length < 128 ∨ (count = 2 ∧ length < 256) then none else some (length, rest.drop count)

/-- The contents of an item with a tag, and what follows it. -/
def derItem (tag : Byte) : List Byte → Option (List Byte × List Byte)
  | [] => none
  | first :: rest =>
      if first ≠ tag then none
      else
        match derLength rest with
        | none => none
        | some (length, rest) => if rest.length < length then none else some (rest.take length, rest.drop length)

/-- A non-negative integer in its shortest form, without its sign byte. -/
def derInteger (bytes : List Byte) : Option (List Byte × List Byte) :=
  match derItem 2 bytes with
  | none => none
  | some ([], _) => none
  | some (first :: tail, rest) =>
      if first = 0 then
        match tail with
        | [] => some ([first], rest)
        | second :: _ => if 128 ≤ second.toNat then some (tail, rest) else none
      else if first.toNat < 128 then some (first :: tail, rest)
      else none

/-- What follows the remaining parts of a private key. -/
def derSkip : Nat → List Byte → Option (List Byte)
  | 0, bytes => some bytes
  | count + 1, bytes =>
      match derInteger bytes with
      | none => none
      | some (value, rest) => if value = [] then none else derSkip count rest

/-- The modulus and the public exponent in a private key. -/
def privatePublicParts (der : List Byte) : Option (List Byte × List Byte) := do
  let (body, outer) ← derItem 0x30 der
  if outer ≠ [] then none
  else
    let (version, rest) ← derInteger body
    if version ≠ [0] then none
    else
      let (n, rest) ← derInteger rest
      let (e, rest) ← derInteger rest
      let last ← derSkip 6 rest
      if last = [] then some (n, e) else none

end Der

section Security

-- Whether the build carries the legacy DES algorithms.
variable (desLegacy : Bool)

/-- The DES authentication codes, and whether one is of the retail kind. -/
def desMacParams (kind : Nat) : Option Bool :=
  if 2 ≤ kind ∧ kind ≤ 8 then some false
  else if kind = 19 ∨ kind = 20 ∨ kind = 47 ∨ kind = 48 then some true
  else none

def sha256StateBytes : Nat := 256

def iso9797ContextBytes : Nat := 384

/-- Whether an object is a native key of a class and satisfies a condition on its size. -/
def isKeyOf (object : List Byte) (expected : ClassId) (size : Nat → Bool) : Bool :=
  savedClass (wordOr object 0) = some expected ∧ (object.getD 4 0).toNat = Kind.object.number ∧
    wordOr object 2 = stateWords ∧ size (wordOr object (headerBytes + sizeWord * 2)) = true

/-- The class of the key an algorithm takes, in a mode. -/
def signatureKey (algorithm mode : Nat) : ClassId :=
  if algorithm = 18 ∨ algorithm = 49 then .aesKey
  else if algorithm = 40 then if mode = 1 then .rsaPrivateCrtKey else .rsaPublicKey
  else if algorithm ≠ 33 ∧ algorithm ≠ 34 then .desKey
  else if mode = 1 then .ecPrivateKey
  else .ecPublicKey

/-- Whether a key of this many bits fits an algorithm. -/
def signatureSize (algorithm bits : Nat) : Bool :=
  if algorithm = 18 ∨ algorithm = 49 then bits = 128
  else if algorithm = 40 then bits = 1024 ∨ bits = 2048
  else if algorithm = 34 then bits = 384
  else if algorithm = 33 then bits = 256
  else (bits = 64 ∨ bits = 128 ∨ bits = 192) ∧ ¬(desMacParams algorithm = some true ∧ bits = 64)

/-- Bytes of the running state an algorithm keeps. -/
def signatureState (algorithm : Nat) : Nat :=
  if algorithm = 18 ∨ algorithm = 49 then 34
  else if algorithm = 33 ∨ algorithm = 34 ∨ algorithm = 40 then sha256StateBytes
  else if desLegacy then iso9797ContextBytes
  else 0

/-- The tag of an array that is cleared on reset. -/
def resetArrayTag : Nat := Kind.byte.number + clearOnReset * 16

def validateSavedSignature (payload heap : List Byte) : Except Error Unit := do
  let material := stateWord payload materialWord
  let algorithm := stateWord payload kindWord
  let pending := stateWord payload pendingWord
  failIf ((algorithm ∉ [18, 33, 34, 40, 49] ∧ ¬(desLegacy = true ∧ (desMacParams algorithm).isSome = true)) ∨
    1 < stateWord payload readyWord ∨
    (stateWord payload readyWord = 1 ∧
      (material = 0 ∨ pending = 0 ∨ stateWord payload counterWord ∉ [1, 2]))) .format
  if pending ≠ 0 then
    let header ← indexed heap pending headerBytes
    failIf ((header.getD 4 0).toNat ≠ resetArrayTag ∨ wordOr header 2 ≠ signatureState desLegacy algorithm) .format
  if material ≠ 0 then
    let object ← indexed heap material (headerBytes + sizeWord * 2 + 2)
    failIf (isKeyOf object (signatureKey algorithm (stateWord payload counterWord)) (signatureSize algorithm) = false)
      .type

def validateSavedPin (cls : ClassId) (payload heap : List Byte) : Except Error Unit := do
  -- a direct NEW may become durable before its constructor runs
  if payload.all (· = 0) then return
  let tries := stateWord payload kindWord
  let material := stateWord payload materialWord
  failIf (¬(1 ≤ tries ∧ tries ≤ 127) ∨ material = 0 ∨ stateWord payload readyWord ≠ 0 ∨
    tries < stateWord payload counterWord) .format
  let info ← savedInfo heap material
  failIf (info.kind ≠ .byte ∨ info.clearEvent ≠ 0 ∨ 127 < info.length ∨ info.length < stateWord payload sizeWord) .type
  let pending := stateWord payload pendingWord
  if cls = .ownerPINxWithPredecrement then
    failIf (pending = 0) .format
    let flag ← savedInfo heap pending
    failIf (flag.kind ≠ .byte ∨ flag.clearEvent ≠ clearOnReset ∨ flag.length ≠ 1) .type
  else failIf (pending ≠ 0) .format

/-- A pair is two keys of its own kind and size. -/
def validateSavedKeyPair (payload heap : List Byte) : Except Error Unit := do
  let kind := stateWord payload kindWord
  let size := stateWord payload sizeWord
  let material := stateWord payload materialWord
  let private' := stateWord payload pendingWord
  let rsa : Bool := kind = 2
  failIf (¬((rsa = true ∧ (size = 1024 ∨ size = 2048)) ∨ (kind = 5 ∧ (size = 256 ∨ size = 384))) ∨
    material = 0 ∨ private' = 0) .format
  let pairs : List (Nat × ClassId) :=
    [(material, if rsa then .rsaPublicKey else .ecPublicKey), (private', if rsa then .rsaPrivateCrtKey else .ecPrivateKey)]
  pairs.forM fun pair => do
    let object ← savedBytes heap pair.1 (headerBytes + stateWords * 2)
    failIf (isKeyOf object pair.2 (fun bits => bits = size) = false) .type

def validateSavedAgreement (payload heap : List Byte) : Except Error Unit := do
  let material := stateWord payload materialWord
  failIf (stateWord payload kindWord ≠ 3 ∨ 1 < stateWord payload readyWord ∨
    (stateWord payload readyWord = 1 ∧ material = 0)) .format
  if material ≠ 0 then
    let object ← savedBytes heap material (headerBytes + stateWords * 2)
    failIf (isKeyOf object .ecPrivateKey (fun bits => bits = 256 ∨ bits = 384) = false) .type

def isDes (kind : Nat) : Bool := 1 ≤ kind ∧ kind ≤ 8

def isChained (kind : Nat) : Bool := (1 ≤ kind ∧ kind ≤ 4) ∨ kind = 13 ∨ (22 ≤ kind ∧ kind ≤ 24) ∨ kind = 240

def cipherPadding (kind : Nat) : Nat :=
  if kind ∈ [2, 6, 22, 25] then 1
  else if kind ∈ [3, 7, 23, 26] then 2
  else if kind ∈ [4, 8, 24, 27] then 3
  else 0

def stateBytes (kind : Nat) : Nat :=
  if kind = 12 then 258
  else (if cipherPadding kind = 0 then 16 else 17) + (if isChained kind then 16 else 0)

def validateSavedCipher (payload heap : List Byte) : Except Error Unit := do
  let kind := stateWord payload kindWord
  let material := stateWord payload materialWord
  let pending := stateWord payload pendingWord
  failIf (¬(kind ∈ [13, 14, 22, 23, 24, 25, 26, 27, 240] ∨ (desLegacy = true ∧ isDes kind = true)) ∨ pending = 0 ∨
    1 < stateWord payload readyWord ∨
    (stateWord payload readyWord = 1 ∧ (material = 0 ∨ stateWord payload counterWord ∉ [1, 2]))) .format
  let header ← savedBytes heap pending headerBytes
  failIf (wordOr header 2 ≠ stateBytes kind ∨ (header.getD 4 0).toNat ≠ resetArrayTag) .format
  if material ≠ 0 then
    let object ← savedBytes heap material (headerBytes + stateWords * 2)
    failIf (isKeyOf object (if isDes kind then .desKey else .aesKey) (fun bits =>
      if isDes kind then bits = 64 ∨ bits = 128 ∨ bits = 192 else bits = 128) = false) .type

/-- Kinds of elliptic curve keys, of which two are transient. -/
def ecKeyKind (kind : Nat) : Bool := kind ∈ [11, 12, 30, 31]

def ecKeyClearEvent (kind : Nat) : Nat :=
  if kind = 30 then clearOnReset else if kind = 31 then clearOnDeselect else 0

def symmetricKeyClearEvent (kind : Nat) : Nat :=
  if kind ∈ [1, 13, 19] then clearOnReset else if kind ∈ [2, 14, 20] then clearOnDeselect else 0

/-- Bytes a private key takes, with its length. -/
def privateBytes : Nat := 1252

/-- The material of an RSA key. -/
def validateRsaMaterial (cls : ClassId) (payload heap : List Byte) (header : List Byte) : Except Error Unit := do
  let size := stateWord payload sizeWord
  let ready := stateWord payload readyWord
  let material := stateWord payload materialWord
  failIf ((size ≠ 1024 ∧ size ≠ 2048) ∨ (header.getD 4 0).toNat ≠ Kind.byte.number) .format
  failIf (wordOr header 2 ≠ (if cls = .rsaPublicKey then size / 8 else privateBytes)) .format
  if cls = .rsaPrivateCrtKey then
    let derLength ← savedWord heap (material + headerBytes)
    failIf (ready = 1 ∧ (derLength = 0 ∨ privateBytes - 2 < derLength)) .format
    if ready = 1 then
      let der ← savedBytes heap (material + headerBytes + 2) derLength
      let (n, e) ← orFail (privatePublicParts der) .format
      failIf (n.length ≠ size / 8 ∨ e ≠ [1, 0, 1]) .format

/-- The material of an elliptic curve key: its flags, and a scalar or a point. -/
def validateEcMaterial (payload heap : List Byte) (header : List Byte) : Except Error Unit := do
  let kind := stateWord payload kindWord
  let size := stateWord payload sizeWord
  let expected := if kind = 11 then (if size = 384 then 98 else 66) else if size = 384 then 49 else 33
  failIf ((header.getD 4 0).toNat / 16 ≠ ecKeyClearEvent kind ∨ wordOr header 2 ≠ expected) .format
  let flags ← savedBytes heap (stateWord payload materialWord + headerBytes) 1
  failIf (128 ≤ (flags.getD 0 0).toNat) .format

/-- The material of a symmetric key. A transient one starts with a byte of its own. -/
def validateSymmetricMaterial (payload : List Byte) (header : List Byte) : Except Error Unit := do
  let event := symmetricKeyClearEvent (stateWord payload kindWord)
  let lead := if event ≠ 0 then 1 else 0
  failIf ((header.getD 4 0).toNat / 16 ≠ event ∨ (event ≠ 0 ∧ stateWord payload readyWord ≠ 0)) .format
  failIf (wordOr header 2 ≤ lead ∨ 64 + lead < wordOr header 2) .bounds

/-- Whether the kind of an RSA key and its state fit its class. -/
def rsaStateValid (cls : ClassId) (payload : List Byte) : Bool :=
  let kind := stateWord payload kindWord
  let ready := stateWord payload readyWord
  let material := stateWord payload materialWord
  if cls = .rsaPublicKey then
    kind = 4 ∧ ready ≤ 3 ∧ (ready % 2 = 0 ∨ material ≠ 0) ∧
      (ready / 2 % 2 = 0 ∨ stateWord payload pendingWord ≠ 0)
  else if cls = .rsaPrivateCrtKey then
    (kind = 6 ∧ ready ≤ 1 ∧ (ready = 0 ∨ material ≠ 0)) ∨
      ((kind = 24 ∨ kind = 25) ∧ ready = 0 ∧ material = 0)
  else (kind = 5 ∨ kind = 22 ∨ kind = 23) ∧ ready = 0 ∧ material = 0

/-- The state of an RSA key, and the parts of a public one. -/
def validateRsaState (cls : ClassId) (payload heap : List Byte) : Except Error Unit := do
  let size := stateWord payload sizeWord
  let ready := stateWord payload readyWord
  let exponent := stateWord payload pendingWord
  failIf (rsaStateValid cls payload = false ∨ (size ≠ 1024 ∧ size ≠ 2048)) .format
  if cls = .rsaPublicKey ∧ exponent ≠ 0 then
    let header ← savedBytes heap exponent headerBytes
    failIf ((header.getD 4 0).toNat ≠ Kind.byte.number ∨ wordOr header 2 ≠ 3) .format
    if ready / 2 % 2 ≠ 0 then
      let value ← savedBytes heap (exponent + headerBytes) 3
      failIf (value ≠ [1, 0, 1]) .format
  if cls = .rsaPublicKey ∧ ready % 2 ≠ 0 then
    let bytes ← savedBytes heap (stateWord payload materialWord + headerBytes) (size / 8)
    failIf ((bytes.getD 0 0).toNat < 128 ∨ (bytes.getD (bytes.length - 1) 0).toNat % 2 = 0) .format

def isPin (cls : ClassId) : Bool := cls ∈ [.ownerPIN, .ownerPINx, .ownerPINxWithPredecrement]

def isEc (cls : ClassId) : Bool := cls ∈ [.ecPublicKey, .ecPrivateKey]

def isRsa (cls : ClassId) : Bool := cls ∈ [.rsaPublicKey, .rsaPrivateKey, .rsaPrivateCrtKey]

/-- The material of a key, when there is any. -/
def validateMaterial (cls : ClassId) (payload heap : List Byte) : Except Error Unit := do
  if stateWord payload materialWord ≠ 0 ∧ cls.isKey = true then
    let header ← savedBytes heap (stateWord payload materialWord) headerBytes
    failIf ((header.getD 4 0).toNat % 16 ≠ Kind.byte.number) .type
    if isRsa cls then validateRsaMaterial cls payload heap header
    else if isEc cls then validateEcMaterial payload heap header
    else validateSymmetricMaterial payload header

def validateSavedSecurity (cls : ClassId) (payload heap : List Byte) : Except Error Unit := do
  -- a pair may be durable before its constructor runs; only the zero state is unconstructed
  if cls = .keyPair ∧ payload.all (· = 0) = true then return
  if cls = .signature then validateSavedSignature desLegacy payload heap
  if cls = .keyPair then validateSavedKeyPair payload heap
  if cls = .keyAgreement then validateSavedAgreement payload heap
  if cls = .cipher then validateSavedCipher desLegacy payload heap
  if isPin cls then validateSavedPin cls payload heap
  let kind := stateWord payload kindWord
  failIf (isEc cls = true ∧ (ecKeyKind kind = false ∨
    (stateWord payload sizeWord ≠ 256 ∧ stateWord payload sizeWord ≠ 384) ∨ stateWord payload readyWord ≠ 0 ∨
    decide (cls = .ecPublicKey) ≠ decide (kind = 11))) .format
  validateMaterial cls payload heap
  if isRsa cls then validateRsaState cls payload heap

/-- Check one native object. -/
def validateSavedNative (info : Info) (payload heap : List Byte) (validReference : Nat → Except Error Unit) :
    Except Error Unit := do
  let entry ← orFail (apiClass info.cls) .format
  let exception := isExceptionClass entry
  failIf (exception = true ∧ info.length = 1 ∧ ¬payload.all (· = 0) = true) .format
  failIf (info.length ≠ stateWords ∧ ¬(info.length = 1 ∧ (exception = true ∨ entry.id = .apdu))) .format
  failIf (entry.id = .secureChannel ∧ (info.length ≠ stateWords ∨ ¬payload.all (· = 0) = true)) .format
  if info.length = stateWords then
    visitNativeReferenceOffsets info payload.length fun at' => validReference (wordOr payload at')
    validateSavedSecurity desLegacy entry.id payload heap

end Security

end MicroCard.Jcvm
