import MicroCard.Mc04.MethodTypes

/-! The framework as the device knows it: the members that an assembly may import, with
their types and what they become. -/
namespace MicroCard.Mc04

def frameworkAssembly : String := "MicroCard.Framework"

def frameworkNamespace : String := "MicroCard.Framework"

def frameworkHash : List UInt8 := [
  0x89, 0x31, 0x19, 0x54, 0x34, 0x5f, 0x86, 0x52, 0x19, 0x0c, 0xf4, 0xef, 0x9f, 0x24, 0xf0, 0x4a,
  0xe5, 0xef, 0x77, 0x1e, 0x6f, 0x48, 0x40, 0xb8, 0x31, 0xec, 0x44, 0xfc, 0x4f, 0xff, 0xa7, 0xf7]

def systemRuntimeToken : List UInt8 := [0xb0, 0x3f, 0x5f, 0x7f, 0x11, 0xd5, 0x0a, 0x3a]

/-- Types in the signatures of the framework. References carry their full name. -/
inductive AbiType where
  | bool
  | int32
  | byteArray
  | int32Array
  | reference (fullName : String)
  deriving DecidableEq

/-- What a member of the framework becomes. -/
inductive Lowering where
  | native (id : UInt8)
  | currentDomain
  | domainKeys
  | domainStorage
  deriving DecidableEq

structure Member where
  assembly : String
  (namespace' : String)
  owner : String
  name : String
  receiver : Bool
  parameters : List AbiType
  result : Option AbiType
  lowering : Lowering
  deriving DecidableEq

/-- A member of the framework's own assembly. -/
def framework (owner name : String) (receiver : Bool) (parameters : List AbiType) (result : Option AbiType)
    (lowering : Lowering) : Member :=
  ⟨frameworkAssembly, frameworkNamespace, owner, name, receiver, parameters, result, lowering⟩

def members : List Member := [
  framework "AssemblyContext" "get_Current" false [] (some (.reference "MicroCard.Framework.AssemblyContext")) .currentDomain,
  framework "AssemblyContext" "get_Command" true [] (some (.reference "MicroCard.Framework.CommandService")) .domainKeys,
  framework "AssemblyContext" "get_Response" true [] (some (.reference "MicroCard.Framework.ResponseService")) .domainKeys,
  framework "AssemblyContext" "get_Storage" true [] (some (.reference "MicroCard.Framework.StorageService")) .domainStorage,
  framework "AssemblyContext" "get_Keys" true [] (some (.reference "MicroCard.Framework.KeyService")) .domainKeys,
  framework "AssemblyContext" "get_Random" true [] (some (.reference "MicroCard.Framework.RandomService")) .domainKeys,
  framework "AssemblyContext" "get_SecureChannel" true [] (some (.reference "MicroCard.Framework.SecureChannelService")) .domainKeys,
  framework "AssemblyContext" "get_Credentials" true [] (some (.reference "MicroCard.Framework.CredentialService")) .domainKeys,
  framework "AssemblyContext" "get_Runtime" true [] (some (.reference "MicroCard.Framework.RuntimeService")) .domainKeys,
  framework "ResponseService" "SetStatus" true [.int32] none (.native 2),
  framework "RandomService" "GetInt32" true [] (some .int32) (.native 5),
  framework "RuntimeService" "WriteHardware" true [.int32, .int32] none (.native 6),
  framework "StorageService" "GetInt32" true [.int32] (some .int32) (.native 7),
  framework "StorageService" "SetInt32" true [.int32, .int32] none (.native 8),
  framework "SecureChannelService" "get_SecurityLevel" true [] (some .int32) (.native 9),
  framework "SecureChannelService" "get_IsAuthenticated" true [] (some .bool) (.native 10),
  framework "CommandService" "get_Length" true [] (some .int32) (.native 11),
  framework "CommandService" "CopyTo" true [.byteArray, .int32, .int32, .int32] none (.native 12),
  framework "ResponseService" "Write" true [.byteArray, .int32, .int32] none (.native 13),
  framework "RuntimeService" "Sha256" true [.byteArray] (some .byteArray) (.native 20),
  framework "KeyService" "Generate" true [.int32, .int32] (some (.reference "MicroCard.Framework.KeyHandle")) (.native 22),
  framework "KeyService" "Open" true [.int32] (some (.reference "MicroCard.Framework.KeyHandle")) (.native 23),
  framework "KeyService" "Delete" true [.int32] none (.native 24),
  framework "KeyHandle" "HmacSha256" true [.byteArray] (some .byteArray) (.native 25),
  framework "KeyHandle" "AesCmac" true [.byteArray] (some .byteArray) (.native 26),
  framework "KeyHandle" "EncryptCbc" true [.byteArray, .byteArray] (some .byteArray) (.native 27),
  framework "KeyHandle" "DecryptCbc" true [.byteArray, .byteArray] (some .byteArray) (.native 28),
  framework "KeyHandle" "EncryptCcm" true [.byteArray, .byteArray, .byteArray] (some .byteArray) (.native 29),
  framework "KeyHandle" "DecryptCcm" true [.byteArray, .byteArray, .byteArray] (some .byteArray) (.native 30),
  framework "StorageService" "GetBytes" true [.int32] (some .byteArray) (.native 31),
  framework "StorageService" "SetBytes" true [.int32, .byteArray] none (.native 32),
  framework "StorageService" "DeleteBytes" true [.int32] none (.native 33),
  framework "StorageService" "ContainsBytes" true [.int32] (some .bool) (.native 34),
  framework "KeyHandle" "ExportP256PublicKey" true [] (some .byteArray) (.native 35),
  framework "KeyHandle" "SignP256" true [.byteArray, .int32, .int32] (some .byteArray) (.native 36),
  framework "RuntimeService" "VerifyP256" true [.byteArray, .byteArray, .byteArray] (some .bool) (.native 37),
  framework "KeyHandle" "DeriveP256" true [.byteArray] (some .byteArray) (.native 38),
  framework "RandomService" "Fill" true [.byteArray, .int32, .int32] none (.native 39),
  framework "CredentialService" "Create" true [.int32, .byteArray, .int32, .int32, .int32, .byteArray, .int32, .int32, .int32] none (.native 40),
  framework "CredentialService" "Verify" true [.int32, .byteArray, .int32, .int32] (some .bool) (.native 41),
  framework "CredentialService" "IsVerified" true [.int32] (some .bool) (.native 42),
  framework "CredentialService" "Change" true [.int32, .byteArray, .int32, .int32] none (.native 43),
  framework "CredentialService" "Unblock" true [.int32, .byteArray, .int32, .int32, .byteArray, .int32, .int32] (some .bool) (.native 44),
  framework "CredentialService" "RetriesRemaining" true [.int32, .int32] (some .int32) (.native 45),
  framework "RuntimeService" "Sha256Into" true [.byteArray, .int32, .int32, .byteArray, .int32] (some .int32) (.native 49),
  framework "RandomService" "GetBytes" true [.int32] (some .byteArray) (.native 50),
  framework "RuntimeService" "FixedTimeEquals" true [.byteArray, .int32, .int32, .byteArray, .int32, .int32] (some .bool) (.native 51),
  framework "StorageService" "SetBytes" true [.int32, .byteArray, .int32, .int32] none (.native 52),
  framework "Buffers" "Copy" false [.byteArray, .int32, .byteArray, .int32, .int32] (some .bool) (.native 53),
  framework "Tlv" "TryRead" false [.byteArray, .int32, .int32, .int32Array, .int32, .bool] (some .bool) (.native 54),
  framework "TransactionScopeRuntime" "Begin" false [] none (.native 55),
  framework "TransactionScopeRuntime" "Commit" false [] none (.native 56),
  framework "TransactionScopeRuntime" "Abort" false [] none (.native 57),
  framework "TransactionRuntime" "Current" false [] (some (.reference "MicroCard.Framework.TransactionRuntime")) (.native 58),
  framework "TransactionRuntime" "Information" true [] (some (.reference "MicroCard.Framework.TransactionInformationRuntime")) (.native 59),
  framework "TransactionInformationRuntime" "Status" true [] (some .int32) (.native 60),
  framework "RuntimeIntrinsics" "Sha256" false [.byteArray] (some .byteArray) (.native 20),
  framework "RuntimeIntrinsics" "RandomBytes" false [.int32] (some .byteArray) (.native 50),
  ⟨"System.Security.Cryptography", "System.Security.Cryptography", "SHA256", "HashData", false, [.byteArray], some .byteArray, .native 20⟩,
  ⟨"System.Security.Cryptography", "System.Security.Cryptography", "RandomNumberGenerator", "GetBytes", false, [.int32], some .byteArray, .native 50⟩]

/-- The members of an owner with a name, in the order of the table. -/
def named (assembly namespace' owner name : String) : List Member :=
  members.filter fun member =>
    member.assembly = assembly && member.namespace' = namespace' && member.owner = owner && member.name = name

/-- `rsplit_once('.')`. -/
def rsplitOnce (text : String) : Option (String × String) :=
  match text.toList.reverse.span fun c => c ≠ '.' with
  | (_, []) => none
  | (name, _ :: namespace') => some (String.ofList namespace'.reverse, String.ofList name.reverse)

end MicroCard.Mc04
