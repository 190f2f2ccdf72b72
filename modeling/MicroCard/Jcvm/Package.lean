import MicroCard.Jcvm.LoadFile

/-! A builder for small packages. It fills in every size and count so that a block
agrees with itself. -/
namespace MicroCard.Jcvm

open Bytes

/-- Two big-endian bytes. -/
def toBE16 (value : Nat) : List Byte := [UInt8.ofNat (value / 256), UInt8.ofNat value]

/-- One class in the built package. -/
structure ClassSpec where
  superClass : Nat := 0xffff
  declaredSize : Byte := 0
  firstReference : Byte := 0
  referenceCount : Byte := 0
  publicMethods : List Nat := []
  packageMethods : List Nat := []
  isInterface : Bool := false
  implements : List (Nat × List Byte) := []

def ClassSpec.build (spec : ClassSpec) : List Byte :=
  if spec.isInterface then [0x80]
  else
    [UInt8.ofNat spec.implements.length] ++ toBE16 spec.superClass ++
      [spec.declaredSize, spec.firstReference, spec.referenceCount, 0, UInt8.ofNat spec.publicMethods.length, 0,
        UInt8.ofNat spec.packageMethods.length] ++
      (spec.publicMethods ++ spec.packageMethods).flatMap toBE16 ++
      spec.implements.flatMap fun entry => toBE16 entry.1 ++ [UInt8.ofNat entry.2.length] ++ entry.2

/-- A package with one install method, and others behind it. -/
structure Package where
  flags : Byte := 0x04
  code : List Byte := [0x7a]
  maxStack : Byte := 2
  nargs : Byte := 3
  maxLocals : Byte := 0
  extra : List (Byte × Byte × List Byte) := []
  staticBytes : Nat := 0
  staticReferences : Nat := 0
  constants : List (List Byte) := []
  handlers : List (List Byte) := []
  classes : List ClassSpec := [{}]
  imports : List (List Byte × Byte × Byte) := []

namespace Package

def method (package : Package) : List Byte :=
  [UInt8.ofNat package.handlers.length] ++ package.handlers.flatten ++
    [package.maxStack &&& 0x0f, package.nargs * 16 ||| package.maxLocals &&& 0x0f] ++ package.code ++
    package.extra.flatMap fun entry =>
      [package.maxStack &&& 0x0f, entry.1 * 16 ||| entry.2.1 &&& 0x0f] ++ entry.2.2

/-- Where the install method starts. -/
def installOffset (package : Package) : Nat := 1 + package.handlers.length * 8

def parts (package : Package) : List (Tag × List Byte) :=
  [(.applet, [1, 6, 0xf0, 1, 2, 3, 4, 1] ++ toBE16 package.installOffset),
   (.import, [UInt8.ofNat package.imports.length] ++ package.imports.flatMap fun entry =>
      [entry.2.2, entry.2.1, UInt8.ofNat entry.1.length] ++ entry.1),
   (.constantPool, toBE16 package.constants.length ++ package.constants.flatten),
   (.class, package.classes.flatMap ClassSpec.build),
   (.method, package.method),
   (.staticField, toBE16 package.staticBytes ++ toBE16 package.staticReferences ++ [0, 0] ++
      toBE16 (package.staticBytes - package.staticReferences * 2) ++ [0, 0]),
   (.refLocation, [0, 0, 0, 0])]

def header (package : Package) : List Byte :=
  [0xde, 0xca, 0xff, 0xed, 1, 2, package.flags, 0, 1, 5, 0xf0, 1, 2, 3, 4]

def directory (package : Package) : List Byte :=
  let sizes := [package.header.length, 31] ++ package.parts.map (fun part => part.2.length) ++ [0, 0]
  sizes.flatMap toBE16 ++ toBE16 package.staticBytes ++ [0, 0, 0, 0, UInt8.ofNat package.imports.length, 1, 0]

def component (tag : Tag) (info : List Byte) : List Byte := UInt8.ofNat tag.number :: (toBE16 info.length ++ info)

/-- Assemble the block. -/
def build (package : Package) : List Byte :=
  component .header package.header ++ component .directory package.directory ++
    package.parts.flatMap fun part => component part.1 part.2

end Package

end MicroCard.Jcvm
