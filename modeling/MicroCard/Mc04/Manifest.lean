import MicroCard.Library.KeyedList
import MicroCard.Mc04.Names

/-! Package manifests: what an assembly declares, needs and offers. -/
namespace MicroCard.Mc04

open Bytes CrashTriple Cbor

def maxDeclaredBlobBytes : Nat := 2048
def maxStorageDeclarations : Nat := 64
def maxPackageBytes : Nat := 16 * 1024

/-- The four components of an assembly version. -/
abbrev Version := Vector UInt16 4

theorem size_parts (major minor build revision : UInt16) : #[major, minor, build, revision].size = 4 := rfl

structure AssemblyEntry where
  aid : String
  process : UInt16
  install : Option UInt16
  uninstall : Option UInt16
  select : Option UInt16
  deselect : Option UInt16
  deriving DecidableEq

structure StorageDeclaration where
  key : Int32
  /-- One for integers, two for byte strings. -/
  kind : UInt8
  maxBytes : UInt16
  deriving DecidableEq

def StorageDeclaration.valid (declaration : StorageDeclaration) : Bool :=
  0 ≤ declaration.key.toInt && (declaration.kind = 1 && declaration.maxBytes = 0 ||
    declaration.kind = 2 && (1 ≤ declaration.maxBytes.toNat && declaration.maxBytes.toNat ≤ maxDeclaredBlobBytes))

structure DependencyExport where
  access : UInt8
  key : Option (Fixed 32)
  deriving DecidableEq

def DependencyExport.allows (export' : DependencyExport) (provider consumer : Fixed 32) : Bool :=
  if export'.access = 1 then true
  else if export'.access = 2 then provider = consumer
  else if export'.access = 3 then export'.key = some consumer
  else false

def DependencyExport.valid (export' : DependencyExport) : Bool :=
  export'.access ≤ 2 && export'.key.isNone || export'.access = 3 && export'.key.isSome

structure VersionRange where
  min : Option Version
  minInclusive : Bool
  max : Option Version
  maxInclusive : Bool
  deriving DecidableEq

namespace VersionRange

def matches' (range : VersionRange) (version : Version) : Bool :=
  range.min.all (fun min => min.toList < version.toList || range.minInclusive && version = min) &&
    range.max.all fun max => version.toList < max.toList || range.maxInclusive && version = max

def valid (range : VersionRange) : Bool :=
  if range.min.isNone && range.minInclusive || range.max.isNone && range.maxInclusive then false
  else match range.min, range.max with
  | some min, some max => min.toList < max.toList || min = max && range.minInclusive && range.maxInclusive
  | _, _ => true

def strictlyBefore (range next : VersionRange) : Bool :=
  match range.max, next.min with
  | some max, some min => max.toList < min.toList || max = min && !range.maxInclusive && !next.minInclusive
  | _, _ => false

end VersionRange

structure Dependency where
  assembly : String
  ranges : List VersionRange
  packageVersion : UInt32
  signer : Option (Fixed 32)
  digest : Option (Fixed 32)
  scope : UInt8
  deriving DecidableEq

/-- Each element stands in a relation to the next one. -/
def adjacent {α : Type} (related : α → α → Bool) (items : List α) : Bool := (items.zip items.tail).all fun pair => related pair.1 pair.2

def Dependency.valid (dependency : Dependency) (consumer : String) : Bool :=
  validIdentifier dependency.assembly && dependency.assembly ≠ consumer && dependency.scope ≤ 2 &&
    dependency.ranges ≠ [] && dependency.ranges.length ≤ 8 && dependency.ranges.all VersionRange.valid &&
    adjacent VersionRange.strictlyBefore dependency.ranges

structure Limits where
  arena : UInt32
  stack : UInt16
  frames : UInt8
  instructions : UInt32
  deriving DecidableEq

structure Manifest where
  domain : String
  incarnation : Fixed 16
  assembly : String
  assemblyVersion : Version
  version : UInt32
  export' : DependencyExport
  entryPoints : List AssemblyEntry
  dependencies : List Dependency
  capabilities : List UInt8
  storage : List StorageDeclaration
  limits : Limits
  deriving DecidableEq

namespace Manifest

/-- Whether what was decoded has the shape of a manifest. -/
def shaped (manifest : Manifest) : Bool :=
  validIdentifier manifest.domain && validIdentifier manifest.assembly && manifest.version ≠ 0 &&
    manifest.assemblyVersion.toList ≠ [0, 0, 0, 0] && manifest.export'.valid && manifest.entryPoints.length ≤ 4 &&
    manifest.dependencies.length ≤ 16 && manifest.dependencies.all (fun d => d.valid manifest.assembly) &&
    adjacent (fun d next => d.assembly < next.assembly) manifest.dependencies &&
    manifest.capabilities.length ≤ 35 && adjacent (fun c next => c < next) manifest.capabilities &&
    manifest.storage.length ≤ maxStorageDeclarations && manifest.storage.all StorageDeclaration.valid &&
    adjacent (fun d next => d.key.toInt < next.key.toInt) manifest.storage &&
    (manifest.entryPoints.map AssemblyEntry.aid).Nodup

def validateShape (manifest : Manifest) : Except Error Unit := failIf (manifest.shaped = false) .format

end Manifest

/-- A verified package, as a domain keeps it. The image is a range of the raw bytes. -/
structure StoredPackage where
  manifest : Manifest
  image : Nat × Nat
  signer : Fixed 32
  digest : Fixed 32
  deriving DecidableEq

/-- Neighbours in ascending order are in ascending order throughout. -/
theorem pairwise_of_adjacent {α κ : Type} [LinearOrder κ] {key : α → κ} {items : List α}
    (h : adjacent (fun a b => key a < key b) items = true) : items.Pairwise fun a b => key a < key b := by
  induction items with
  | nil => exact List.Pairwise.nil
  | cons a rest ih =>
      cases rest with
      | nil => exact List.pairwise_singleton _ _
      | cons b others =>
          simp only [adjacent, List.tail_cons, List.zip_cons_cons, List.all_cons, Bool.and_eq_true,
            decide_eq_true_eq] at h
          have hRest : (b :: others).Pairwise fun a b => key a < key b := ih h.2
          refine List.pairwise_cons.2 ⟨fun c hc => ?_, hRest⟩
          rcases List.mem_cons.1 hc with rfl | hc
          · exact h.1
          · exact h.1.trans ((List.pairwise_cons.1 hRest).1 c hc)

end MicroCard.Mc04
