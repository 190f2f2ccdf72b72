import MicroCard.Jcvm.Basic

/-! The classes the card provides, from the export files of the packages an applet may
import. A method is named by its token; constructors share the namespace of the static
methods. -/
namespace MicroCard.Jcvm

open Bytes

inductive ClassId where
  | arithmeticException | arrayIndexOutOfBoundsException | arrayStoreException | classCastException | exception
  | indexOutOfBoundsException | negativeArraySizeException | nullPointerException | object | runtimeException
  | securityException | throwable | aid | apdu | apduException | applet | appletEvent | cardException
  | cardRuntimeException | iso7816 | isoException | jcSystem | multiSelectable | ownerPIN | ownerPINBuilder
  | ownerPINx | ownerPINxWithPredecrement | pin | pinException | sensitiveArrays | shareable | systemException
  | transactionException | userException | util | aesKey | checksum | cryptoException | desKey | dhKey | dhPrivateKey
  | dhPublicKey | dsaKey | dsaPrivateKey | dsaPublicKey | ecKey | ecPrivateKey | ecPublicKey | hmacKey
  | initializedMessageDigest | initializedMessageDigestOneShot | key | keyAgreement | keyBuilder | keyPair
  | koreanSEEDKey | messageDigest | messageDigestOneShot | privateKey | publicKey | rsaPrivateCrtKey | rsaPrivateKey
  | rsaPublicKey | randomData | randomDataOneShot | secretKey | signature | signatureOneShot
  | signatureMessageRecovery | extendedLength | aeadCipher | cipher | cipherOneShot | keyEncryption | application
  | authority | cvm | gpRegistryEntry | gpSystem | globalService | httpAdministration | httpReportListener
  | personalization | secureChannel | secureChannelx | secureChannelx2
  deriving DecidableEq, Repr

/-- One class an imported package declares. -/
structure ApiClass where
  token : Nat
  id : ClassId
  /-- The classes and interfaces this one extends. -/
  supers : List ClassId
  /-- Tokens of its static methods and constructors. -/
  statics : List Nat
  /-- Tokens of its virtual methods. -/
  virtuals : List Nat
  deriving DecidableEq, Repr

/-- One package an applet may import. -/
structure ApiPackage where
  aid : List Byte
  major : Nat
  minor : Nat
  classes : List ApiClass
  deriving DecidableEq, Repr

def javaLang : List ApiClass :=
  [⟨0, .object, [], [0], [0]⟩,
   ⟨1, .throwable, [.object], [0], [0]⟩,
   ⟨2, .exception, [.object, .throwable], [0], [0]⟩,
   ⟨3, .runtimeException, [.object, .throwable, .exception], [0], [0]⟩,
   ⟨4, .indexOutOfBoundsException, [.object, .throwable, .exception, .runtimeException], [0], [0]⟩,
   ⟨5, .arrayIndexOutOfBoundsException,
     [.object, .throwable, .exception, .runtimeException, .indexOutOfBoundsException], [0], [0]⟩,
   ⟨6, .negativeArraySizeException, [.object, .throwable, .exception, .runtimeException], [0], [0]⟩,
   ⟨7, .nullPointerException, [.object, .throwable, .exception, .runtimeException], [0], [0]⟩,
   ⟨8, .classCastException, [.object, .throwable, .exception, .runtimeException], [0], [0]⟩,
   ⟨9, .arithmeticException, [.object, .throwable, .exception, .runtimeException], [0], [0]⟩,
   ⟨10, .securityException, [.object, .throwable, .exception, .runtimeException], [0], [0]⟩,
   ⟨11, .arrayStoreException, [.object, .throwable, .exception, .runtimeException], [0], [0]⟩]

def javacardFramework : List ApiClass :=
  [⟨0, .iso7816, [.object], [], []⟩,
   ⟨1, .pin, [.object], [], List.range 4⟩,
   ⟨2, .shareable, [.object], [], []⟩,
   ⟨3, .applet, [.object], [0, 1, 2], List.range 8⟩,
   ⟨4, .cardException, [.object, .throwable, .exception], [0, 1], [0, 1, 2]⟩,
   ⟨5, .cardRuntimeException, [.object, .throwable, .exception, .runtimeException], [0, 1], [0, 1, 2]⟩,
   ⟨6, .aid, [.object], [0], List.range 6⟩,
   ⟨7, .isoException, [.object, .throwable, .exception, .runtimeException, .cardRuntimeException], [0, 1], [0, 1, 2]⟩,
   ⟨8, .jcSystem, [.object], List.range 23, [0]⟩,
   ⟨9, .ownerPIN, [.object, .pin], [0], List.range 9⟩,
   ⟨10, .apdu, [.object], List.range 7, List.range 18⟩,
   ⟨11, .pinException, [.object, .throwable, .exception, .runtimeException, .cardRuntimeException], [0, 1],
     [0, 1, 2]⟩,
   ⟨12, .apduException, [.object, .throwable, .exception, .runtimeException, .cardRuntimeException], [0, 1],
     [0, 1, 2]⟩,
   ⟨13, .systemException, [.object, .throwable, .exception, .runtimeException, .cardRuntimeException], [0, 1],
     [0, 1, 2]⟩,
   ⟨14, .transactionException, [.object, .throwable, .exception, .runtimeException, .cardRuntimeException], [0, 1],
     [0, 1, 2]⟩,
   ⟨15, .userException, [.object, .throwable, .exception, .cardException], [0, 1, 2], [0, 1, 2]⟩,
   ⟨16, .util, [.object], List.range 8, [0]⟩,
   ⟨17, .multiSelectable, [.object], [], [0, 1]⟩,
   ⟨18, .appletEvent, [.object], [], [0]⟩,
   ⟨19, .ownerPINx, [.object, .pin], [], List.range 8⟩,
   ⟨20, .ownerPINxWithPredecrement, [.object, .pin, .ownerPINx], [], List.range 9⟩,
   ⟨21, .ownerPINBuilder, [.object], [0], [0]⟩,
   ⟨22, .sensitiveArrays, [.object], List.range 5, [0]⟩]

def javacardSecurity : List ApiClass :=
  [⟨0, .key, [.object], [], List.range 4⟩,
   ⟨1, .dsaKey, [.object], [], List.range 6⟩,
   ⟨2, .privateKey, [.object, .key], [], List.range 4⟩,
   ⟨3, .publicKey, [.object, .key], [], List.range 4⟩,
   ⟨4, .secretKey, [.object, .key], [], List.range 4⟩,
   ⟨5, .dsaPrivateKey, [.object, .key, .privateKey, .dsaKey], [], List.range 12⟩,
   ⟨6, .dsaPublicKey, [.object, .key, .publicKey, .dsaKey], [], List.range 12⟩,
   ⟨7, .rsaPrivateCrtKey, [.object, .key, .privateKey], [], List.range 14⟩,
   ⟨8, .rsaPrivateKey, [.object, .key, .privateKey], [], List.range 8⟩,
   ⟨9, .rsaPublicKey, [.object, .key, .publicKey], [], List.range 8⟩,
   ⟨10, .desKey, [.object, .key, .secretKey], [], List.range 6⟩,
   ⟨11, .messageDigest, [.object], [0, 1, 2], List.range 6⟩,
   ⟨12, .cryptoException, [.object, .throwable, .exception, .runtimeException, .cardRuntimeException], [0, 1],
     [0, 1, 2]⟩,
   ⟨13, .keyBuilder, [.object], [0, 1, 2], [0]⟩,
   ⟨14, .randomData, [.object], [0, 1], List.range 5⟩,
   ⟨15, .signature, [.object], [0, 1, 2], List.range 14⟩,
   ⟨16, .keyPair, [.object], [0, 1], List.range 4⟩,
   ⟨17, .ecKey, [.object], [], List.range 15⟩,
   ⟨18, .ecPrivateKey, [.object, .key, .privateKey, .ecKey], [], List.range 21⟩,
   ⟨19, .ecPublicKey, [.object, .key, .publicKey, .ecKey], [], List.range 21⟩,
   ⟨20, .aesKey, [.object, .key, .secretKey], [], List.range 6⟩,
   ⟨21, .checksum, [.object], [0, 1], List.range 5⟩,
   ⟨22, .keyAgreement, [.object], [0, 1], List.range 4⟩,
   ⟨23, .hmacKey, [.object, .key, .secretKey], [], List.range 6⟩,
   ⟨24, .koreanSEEDKey, [.object, .key, .secretKey], [], List.range 6⟩,
   ⟨25, .signatureMessageRecovery, [.object], [], List.range 7⟩,
   ⟨26, .initializedMessageDigest, [.object, .messageDigest], [0], List.range 7⟩,
   ⟨27, .dhKey, [.object], [], List.range 6⟩,
   ⟨28, .dhPrivateKey, [.object, .key, .privateKey, .dhKey], [], List.range 12⟩,
   ⟨29, .dhPublicKey, [.object, .key, .publicKey, .dhKey], [], List.range 12⟩,
   ⟨30, .messageDigestOneShot, [.object, .messageDigest], [0], List.range 7⟩,
   ⟨31, .initializedMessageDigestOneShot, [.object, .messageDigest, .initializedMessageDigest], [0], List.range 8⟩,
   ⟨32, .randomDataOneShot, [.object, .randomData], [0], List.range 6⟩,
   ⟨33, .signatureOneShot, [.object, .signature], [0], List.range 15⟩]

def javacardxCrypto : List ApiClass :=
  [⟨0, .keyEncryption, [.object], [], [0, 1]⟩,
   ⟨1, .cipher, [.object], [0, 1, 2], List.range 8⟩,
   ⟨2, .cipherOneShot, [.object, .cipher], [0], List.range 9⟩,
   ⟨3, .aeadCipher, [.object, .cipher], [0], List.range 12⟩]

def javacardxApdu : List ApiClass :=
  [⟨0, .extendedLength, [.object], [], []⟩]

def orgGlobalplatform : List ApiClass :=
  [⟨0, .application, [.object, .shareable], [], [0]⟩,
   ⟨1, .cvm, [.object, .shareable], [], List.range 11⟩,
   ⟨2, .secureChannel, [.object, .shareable], [], List.range 7⟩,
   ⟨3, .gpSystem, [.object], List.range 11, [0]⟩,
   ⟨4, .gpRegistryEntry, [.object, .shareable], [], List.range 8⟩,
   ⟨5, .globalService, [.object, .shareable], [], [0]⟩,
   ⟨6, .secureChannelx, [.object, .shareable, .secureChannel], [], List.range 8⟩,
   ⟨7, .authority, [.object, .shareable], [], List.range 4⟩,
   ⟨8, .personalization, [.object, .shareable], [], [0]⟩,
   ⟨9, .httpAdministration, [.object, .shareable], [], [0]⟩,
   ⟨10, .httpReportListener, [.object, .shareable], [], [0]⟩,
   ⟨11, .secureChannelx2, [.object, .shareable, .secureChannel], [], List.range 8⟩]

def packages : List ApiPackage :=
  [⟨[0xa0, 0x00, 0x00, 0x00, 0x62, 0x00, 0x01], 1, 0, javaLang⟩,
   ⟨[0xa0, 0x00, 0x00, 0x00, 0x62, 0x01, 0x01], 1, 6, javacardFramework⟩,
   ⟨[0xa0, 0x00, 0x00, 0x00, 0x62, 0x01, 0x02], 1, 6, javacardSecurity⟩,
   ⟨[0xa0, 0x00, 0x00, 0x00, 0x62, 0x02, 0x01], 1, 6, javacardxCrypto⟩,
   ⟨[0xa0, 0x00, 0x00, 0x00, 0x62, 0x02, 0x09], 1, 0, javacardxApdu⟩,
   ⟨[0xa0, 0x00, 0x00, 0x01, 0x51, 0x00], 1, 5, orgGlobalplatform⟩]

/-- A class the card provides, encoded so it cannot collide with a class in a package. -/
def nativeClass (package token : Nat) : Nat := 0x8000 + package * 256 + token

def isNativeClass (word : Nat) : Bool := 0x8000 ≤ word

/-- The API class a native class word names. -/
def apiClass (word : Nat) : Option ApiClass :=
  if !isNativeClass word then none
  else (packages[word / 256 % 128]?).bind fun package => package.classes.find? fun entry => entry.token = word % 256

/-- Where the card's class stands, as a class word. -/
def classWord (id : ClassId) : Option Nat :=
  packages.zipIdx.findSome? fun package =>
    (package.1.classes.find? fun entry => entry.id = id).map fun entry => nativeClass package.2 entry.token

/-- Whether an object of the one class can be caught as the other. -/
def nativeIsA (thrown caught : Nat) : Bool :=
  if thrown = caught then true
  else
    match apiClass thrown, apiClass caught with
    | some thrown, some caught => caught.id ∈ thrown.supers
    | _, _ => false

def isExceptionClass (entry : ApiClass) : Bool := entry.id = .throwable ∨ ClassId.throwable ∈ entry.supers

/-- Words every stateful native object carries. -/
def stateWords : Nat := 6

/-- Runtime APDU and exception objects may be used locally but never retained. -/
def isTemporaryNative (word words : Nat) : Bool :=
  match apiClass word with
  | none => false
  | some entry => (words = 1 ∧ (entry.id = .apdu ∨ isExceptionClass entry)) ∨
      (words = stateWords ∧ entry.id = .messageDigestOneShot)

end MicroCard.Jcvm
