import MicroCard.Mc04.SnapshotSpec

/-! Manifests in the package envelope: twelve fields in a fixed order. The decoder takes
the written form of every manifest that has the required shape, and nothing else. -/
namespace MicroCard.Mc04

open Bytes CrashTriple Cbor Codec

namespace ManifestCbor

section Decoding

def version : Decoder Version := do
  record 4
  let major ← u16
  let minor ← u16
  let build ← u16
  let revision ← u16
  pure #v[major, minor, build, revision]

/-- An identifier of at least five bytes, as capital digits. -/
def aid : Decoder String := do
  let value ← bytes 16
  failIf (value.length < 5) .format
  pure (encodeAid value)

def dependencyExport : Decoder DependencyExport := do
  record 2
  let access ← u8
  let key ← optional (fixed 32)
  pure ⟨access, key⟩

def entry : Decoder AssemblyEntry := do
  record 6
  let aid ← aid
  let process ← u16
  let install ← optional u16
  let uninstall ← optional u16
  let select ← optional u16
  let deselect ← optional u16
  pure ⟨aid, process, install, uninstall, select, deselect⟩

def range : Decoder VersionRange := do
  record 4
  let min ← optional version
  let minInclusive ← boolean
  let max ← optional version
  let maxInclusive ← boolean
  pure ⟨min, minInclusive, max, maxInclusive⟩

def dependency : Decoder Dependency := do
  record 6
  let assembly ← identifier
  let ranges ← readList 8 range
  let packageVersion ← u32
  let signer ← optional (fixed 32)
  let digest ← optional (fixed 32)
  let scope ← u8
  pure ⟨assembly, ranges, packageVersion, signer, digest, scope⟩

def declaration : Decoder StorageDeclaration := do
  record 3
  let key ← i32
  let kind ← u8
  let maxBytes ← u16
  pure ⟨key, kind, maxBytes⟩

def limits : Decoder Limits := do
  record 4
  let arena ← u32
  let stack ← u16
  let frames ← u8
  let instructions ← u32
  pure ⟨arena, stack, frames, instructions⟩

/-- The fields of version one, to the end of the input. -/
def fields : Decoder Manifest := do
  record 12
  let format ← unsigned
  failIf (format ≠ 1) .format
  let domain ← identifier
  let incarnation ← fixed 16
  let assembly ← identifier
  let assemblyVersion ← version
  let packageVersion ← u32
  let export' ← dependencyExport
  let entryPoints ← readList 4 entry
  let dependencies ← readList 16 dependency
  let capabilities ← bytes 35
  let storage ← readList maxStorageDeclarations declaration
  let limits ← limits
  finish
  pure ⟨domain, incarnation, assembly, assemblyVersion, packageVersion, export', entryPoints, dependencies, capabilities,
    storage, limits⟩

end Decoding

section Encoding

def writeVersion (value : Version) : EncoderM Unit := do
  Encoder.array 4
  value.toList.forM fun part => Encoder.unsigned part.toNat

/-- A capital digit. -/
def digit (c : Byte) : Except Error Byte :=
  if 0x30 ≤ c ∧ c ≤ 0x39 then pure (c - 0x30)
  else if 0x41 ≤ c ∧ c ≤ 0x46 then pure (c - 0x41 + 10)
  else throw .format

/-- `chunks_exact(2)`, with each pair made a byte. -/
def digitPairs : List Byte → Except Error (List Byte)
  | high :: low :: rest => do
      let high ← digit high
      let low ← digit low
      let others ← digitPairs rest
      pure ((high <<< 4 ||| low) :: others)
  | _ => pure []

def writeAid (value : String) : EncoderM Unit := do
  failIf (¬(10 ≤ (utf8 value).length ∧ (utf8 value).length ≤ 32) ∨ (utf8 value).length % 2 ≠ 0) .format
  let bytes ← readOnly (digitPairs (utf8 value))
  Encoder.byteString bytes

def writeKey (key : Fixed 32) : EncoderM Unit := Encoder.byteString key.1

def writeMethod (method : UInt16) : EncoderM Unit := Encoder.unsigned method.toNat

def writeExport (export' : DependencyExport) : EncoderM Unit := do
  Encoder.array 2
  Encoder.unsigned export'.access.toNat
  Encoder.optional writeKey export'.key

def writeEntry (entry : AssemblyEntry) : EncoderM Unit := do
  Encoder.array 6
  writeAid entry.aid
  Encoder.unsigned entry.process.toNat
  [entry.install, entry.uninstall, entry.select, entry.deselect].forM (Encoder.optional writeMethod)

def writeRange (range : VersionRange) : EncoderM Unit := do
  Encoder.array 4
  Encoder.optional writeVersion range.min
  Encoder.boolean range.minInclusive
  Encoder.optional writeVersion range.max
  Encoder.boolean range.maxInclusive

def writeDependency (dependency : Dependency) : EncoderM Unit := do
  Encoder.array 6
  Encoder.text dependency.assembly
  writeList writeRange dependency.ranges
  Encoder.unsigned dependency.packageVersion.toNat
  Encoder.optional writeKey dependency.signer
  Encoder.optional writeKey dependency.digest
  Encoder.unsigned dependency.scope.toNat

def writeLimits (limits : Limits) : EncoderM Unit := do
  Encoder.array 4
  Encoder.unsigned limits.arena.toNat
  Encoder.unsigned limits.stack.toNat
  Encoder.unsigned limits.frames.toNat
  Encoder.unsigned limits.instructions.toNat

def writeFields (manifest : Manifest) : EncoderM Unit := do
  Encoder.array 12
  Encoder.unsigned 1
  Encoder.text manifest.domain
  Encoder.byteString manifest.incarnation.1
  Encoder.text manifest.assembly
  writeVersion manifest.assemblyVersion
  Encoder.unsigned manifest.version.toNat
  writeExport manifest.export'
  writeList writeEntry manifest.entryPoints
  writeList writeDependency manifest.dependencies
  Encoder.byteString manifest.capabilities
  writeList writeDeclaration manifest.storage
  writeLimits manifest.limits

end Encoding

end ManifestCbor

namespace Manifest

/-- A bounded version-1 manifest. -/
def decodeCbor (bytes : List Byte) : Except Error Manifest := do
  failIf (maxPackageBytes < bytes.length) .format
  match ManifestCbor.fields bytes with
  | .ok manifest _ => do
      manifest.validateShape
      pure manifest
  | .error e _ => throw e

def encodeCborFields (manifest : Manifest) : Except Error (List Byte) :=
  match ManifestCbor.writeFields manifest ⟨[], maxPackageBytes⟩ with
  | .ok _ encoder => .ok encoder.bytes
  | .error e _ => .error e

def encodeCbor (manifest : Manifest) : Except Error (List Byte) := do
  manifest.validateShape
  manifest.encodeCborFields

end Manifest

end MicroCard.Mc04
