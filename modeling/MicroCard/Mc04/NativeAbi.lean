import MicroCard.Basic

/-! Native operations of the virtual machine: their identifiers, the capability a
manifest lists for each, and how many arguments they take. -/
namespace MicroCard.Mc04

/-- Native operations of the catalog. -/
inductive Native where
  | responseServiceSetStatus
  | randomServiceGetInt32
  | runtimeServiceWriteHardware
  | storageServiceGetInt32
  | storageServiceSetInt32
  | secureChannelServiceSecurityLevel
  | secureChannelServiceIsAuthenticated
  | commandServiceLength
  | commandServiceCopyTo
  | responseServiceWrite
  | runtimeServiceSha256
  | keyServiceGenerate
  | keyServiceOpen
  | keyServiceDelete
  | keyHandleHmacSha256
  | keyHandleAesCmac
  | keyHandleEncryptCbc
  | keyHandleDecryptCbc
  | keyHandleEncryptCcm
  | keyHandleDecryptCcm
  | storageServiceGetBytes
  | storageServiceSetBytes2Args
  | storageServiceDeleteBytes
  | storageServiceContainsBytes
  | keyHandleExportP256PublicKey
  | keyHandleSignP256
  | runtimeServiceVerifyP256
  | keyHandleDeriveP256
  | randomServiceFill
  | credentialServiceCreate
  | credentialServiceVerify
  | credentialServiceIsVerified
  | credentialServiceChange
  | credentialServiceUnblock
  | credentialServiceRetriesRemaining
  | runtimeServiceSha256Into
  | randomServiceGetBytes
  | runtimeServiceFixedTimeEquals
  | storageServiceSetBytes4Args
  | buffersCopy
  | tlvTryRead
  | transactionScopeRuntimeBegin
  | transactionScopeRuntimeCommit
  | transactionScopeRuntimeAbort
  | transactionRuntimeCurrent
  | transactionRuntimeInformation
  | transactionInformationRuntimeStatus
  deriving DecidableEq

namespace Native

def id : Native → UInt8
  | responseServiceSetStatus => 2
  | randomServiceGetInt32 => 5
  | runtimeServiceWriteHardware => 6
  | storageServiceGetInt32 => 7
  | storageServiceSetInt32 => 8
  | secureChannelServiceSecurityLevel => 9
  | secureChannelServiceIsAuthenticated => 10
  | commandServiceLength => 11
  | commandServiceCopyTo => 12
  | responseServiceWrite => 13
  | runtimeServiceSha256 => 20
  | keyServiceGenerate => 22
  | keyServiceOpen => 23
  | keyServiceDelete => 24
  | keyHandleHmacSha256 => 25
  | keyHandleAesCmac => 26
  | keyHandleEncryptCbc => 27
  | keyHandleDecryptCbc => 28
  | keyHandleEncryptCcm => 29
  | keyHandleDecryptCcm => 30
  | storageServiceGetBytes => 31
  | storageServiceSetBytes2Args => 32
  | storageServiceDeleteBytes => 33
  | storageServiceContainsBytes => 34
  | keyHandleExportP256PublicKey => 35
  | keyHandleSignP256 => 36
  | runtimeServiceVerifyP256 => 37
  | keyHandleDeriveP256 => 38
  | randomServiceFill => 39
  | credentialServiceCreate => 40
  | credentialServiceVerify => 41
  | credentialServiceIsVerified => 42
  | credentialServiceChange => 43
  | credentialServiceUnblock => 44
  | credentialServiceRetriesRemaining => 45
  | runtimeServiceSha256Into => 49
  | randomServiceGetBytes => 50
  | runtimeServiceFixedTimeEquals => 51
  | storageServiceSetBytes4Args => 52
  | buffersCopy => 53
  | tlvTryRead => 54
  | transactionScopeRuntimeBegin => 55
  | transactionScopeRuntimeCommit => 56
  | transactionScopeRuntimeAbort => 57
  | transactionRuntimeCurrent => 58
  | transactionRuntimeInformation => 59
  | transactionInformationRuntimeStatus => 60

def ofId : UInt8 → Option Native
  | 2 => some responseServiceSetStatus
  | 5 => some randomServiceGetInt32
  | 6 => some runtimeServiceWriteHardware
  | 7 => some storageServiceGetInt32
  | 8 => some storageServiceSetInt32
  | 9 => some secureChannelServiceSecurityLevel
  | 10 => some secureChannelServiceIsAuthenticated
  | 11 => some commandServiceLength
  | 12 => some commandServiceCopyTo
  | 13 => some responseServiceWrite
  | 20 => some runtimeServiceSha256
  | 22 => some keyServiceGenerate
  | 23 => some keyServiceOpen
  | 24 => some keyServiceDelete
  | 25 => some keyHandleHmacSha256
  | 26 => some keyHandleAesCmac
  | 27 => some keyHandleEncryptCbc
  | 28 => some keyHandleDecryptCbc
  | 29 => some keyHandleEncryptCcm
  | 30 => some keyHandleDecryptCcm
  | 31 => some storageServiceGetBytes
  | 32 => some storageServiceSetBytes2Args
  | 33 => some storageServiceDeleteBytes
  | 34 => some storageServiceContainsBytes
  | 35 => some keyHandleExportP256PublicKey
  | 36 => some keyHandleSignP256
  | 37 => some runtimeServiceVerifyP256
  | 38 => some keyHandleDeriveP256
  | 39 => some randomServiceFill
  | 40 => some credentialServiceCreate
  | 41 => some credentialServiceVerify
  | 42 => some credentialServiceIsVerified
  | 43 => some credentialServiceChange
  | 44 => some credentialServiceUnblock
  | 45 => some credentialServiceRetriesRemaining
  | 49 => some runtimeServiceSha256Into
  | 50 => some randomServiceGetBytes
  | 51 => some runtimeServiceFixedTimeEquals
  | 52 => some storageServiceSetBytes4Args
  | 53 => some buffersCopy
  | 54 => some tlvTryRead
  | 55 => some transactionScopeRuntimeBegin
  | 56 => some transactionScopeRuntimeCommit
  | 57 => some transactionScopeRuntimeAbort
  | 58 => some transactionRuntimeCurrent
  | 59 => some transactionRuntimeInformation
  | 60 => some transactionInformationRuntimeStatus
  | _ => none

/-- How many arguments an operation takes and whether it returns a value. -/
def signature : Native → Nat × Bool
  | responseServiceSetStatus => (1, false)
  | randomServiceGetInt32 => (0, true)
  | runtimeServiceWriteHardware => (2, false)
  | storageServiceGetInt32 => (1, true)
  | storageServiceSetInt32 => (2, false)
  | secureChannelServiceSecurityLevel => (0, true)
  | secureChannelServiceIsAuthenticated => (0, true)
  | commandServiceLength => (0, true)
  | commandServiceCopyTo => (4, false)
  | responseServiceWrite => (3, false)
  | runtimeServiceSha256 => (1, true)
  | keyServiceGenerate => (2, true)
  | keyServiceOpen => (1, true)
  | keyServiceDelete => (1, false)
  | keyHandleHmacSha256 => (2, true)
  | keyHandleAesCmac => (2, true)
  | keyHandleEncryptCbc => (3, true)
  | keyHandleDecryptCbc => (3, true)
  | keyHandleEncryptCcm => (4, true)
  | keyHandleDecryptCcm => (4, true)
  | storageServiceGetBytes => (1, true)
  | storageServiceSetBytes2Args => (2, false)
  | storageServiceDeleteBytes => (1, false)
  | storageServiceContainsBytes => (1, true)
  | keyHandleExportP256PublicKey => (1, true)
  | keyHandleSignP256 => (4, true)
  | runtimeServiceVerifyP256 => (3, true)
  | keyHandleDeriveP256 => (2, true)
  | randomServiceFill => (3, false)
  | credentialServiceCreate => (9, false)
  | credentialServiceVerify => (4, true)
  | credentialServiceIsVerified => (1, true)
  | credentialServiceChange => (4, false)
  | credentialServiceUnblock => (7, true)
  | credentialServiceRetriesRemaining => (2, true)
  | runtimeServiceSha256Into => (5, true)
  | randomServiceGetBytes => (1, true)
  | runtimeServiceFixedTimeEquals => (6, true)
  | storageServiceSetBytes4Args => (4, false)
  | buffersCopy => (5, true)
  | tlvTryRead => (6, true)
  | transactionScopeRuntimeBegin => (0, false)
  | transactionScopeRuntimeCommit => (0, false)
  | transactionScopeRuntimeAbort => (0, false)
  | transactionRuntimeCurrent => (0, true)
  | transactionRuntimeInformation => (1, true)
  | transactionInformationRuntimeStatus => (1, true)

end Native

def capabilities : List UInt8 := [
  2, 5, 6, 7, 8, 9, 10, 11, 12, 13, 20, 22, 23, 24, 25, 26, 27, 28, 29, 30, 31, 32, 33, 34, 35,
  36, 37, 38, 39, 40, 41, 42, 43, 44, 45, 46, 47, 48, 49, 50, 51, 52, 53, 54]

def validCapability (id : UInt8) : Bool := id ∈ capabilities

/-- The capability that a manifest lists for an operation: transactions share three. -/
def capability (id : UInt8) : UInt8 :=
  if id = 55 ∨ id = 58 ∨ id = 59 ∨ id = 60 then 46
  else if id = 56 then 47
  else if id = 57 then 48
  else id

end MicroCard.Mc04
