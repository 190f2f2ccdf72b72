import MicroCard.Card.Cbor
import MicroCard.Jcvm.Api
import MicroCard.Jcvm.Verify

/-! Application identifiers and verified load files. SCP03 authorizes loading; the
verifier and the authenticated registry authorize execution. -/
namespace MicroCard.Card

open Bytes CrashTriple Cbor

/-- An application identifier of five to sixteen bytes. -/
structure Aid where
  bytes : List Byte
  sized : 5 ≤ bytes.length ∧ bytes.length ≤ 16
  deriving DecidableEq

def Aid.new (value : List Byte) : Except Error Aid :=
  if h : 5 ≤ value.length ∧ value.length ≤ 16 then .ok ⟨value, h⟩ else .error .format

/-- The issuer security domain. -/
def Aid.isd : Aid := ⟨[0xa0, 0x00, 0x00, 0x01, 0x51, 0x00, 0x00, 0x00], by decide⟩

/-- Where a staged image lies and what it hashes to. -/
structure Descriptor where
  slot : UInt8
  length : UInt32
  digest : Fixed 32
  deriving DecidableEq

structure Sizes where
  heapBytes : Nat
  frameWords : Nat
  bufferBytes : Nat
  budget : Nat
  deriving DecidableEq

structure Manifest where
  domain : List Byte
  incarnation : Fixed 16
  package : List Byte
  packageVersion : Nat × Nat
  /-- Monotonic replacement version derived from the CAP header. -/
  version : UInt32
  sizes : Sizes
  deriving DecidableEq

structure Package where
  image : List Byte
  digest : Fixed 32
  manifest : Manifest
  report : Jcvm.Report
  deriving DecidableEq

def maxPackageBytes : Nat := 60 * 1024

def maxExecutionWork : Nat := 4000000

def engineError : Jcvm.Error → Error
  | .unsupported => .unsupported
  | .quota => .quota
  | _ => .format

/-- Run an engine check and report its failure in the platform's terms. -/
def engine {α : Type} (result : Except Jcvm.Error α) : Except Error α := result.mapError engineError

/-- A newer minor version of the package still answers every token. -/
def satisfiedBy (import' : Jcvm.PackageRef) (package : Jcvm.ApiPackage) : Bool :=
  package.major = import'.major ∧ import'.minor ≤ package.minor

/-- Whether every imported package is one the engine provides, at a version it can
satisfy. -/
def importsResolve (file : Jcvm.LoadFile) : Except Jcvm.Error Unit := do
  let _ ← file.classes
  let imports ← file.imports
  imports.forM fun import' => do
    let package ← orFail (Jcvm.packages.find? fun entry => entry.aid = import'.aid) .unsupported
    failIf (!satisfiedBy import' package) .unsupported

/-- Board-profile maxima; an unsigned load file cannot raise them. -/
def boardSizes : Sizes where
  heapBytes := 65536
  frameWords := 8192
  bufferBytes := 261
  budget := maxExecutionWork

/-- Verify a raw load file before activation. Domain and quotas come from the
authenticated management context, never from applet-controlled bytes. -/
def Package.verify (raw domain : List Byte) (incarnation : Fixed 16)
    (sha256 : List Byte → Except Error (Fixed 32)) (scratch : Nat) : Except Error Package := do
  failIf (raw = [] ∨ maxPackageBytes < raw.length) .quota
  failIf (¬(5 ≤ domain.length ∧ domain.length ≤ 16)) .format
  let file ← engine (Jcvm.LoadFile.parse raw)
  let header ← engine file.header
  engine (importsResolve file)
  let report ← engine (Jcvm.verify file scratch)
  failIf (boardSizes.frameWords < report.maxFrameWords) .quota
  let digest ← sha256 raw
  pure {
    image := raw
    digest := digest
    manifest := {
      domain := domain
      incarnation := incarnation
      package := header.packageAid
      packageVersion := (header.packageMajor, header.packageMinor)
      version := UInt32.ofNat (header.packageMajor * 256 + header.packageMinor + 1)
      sizes := boardSizes }
    report := report }

end MicroCard.Card
