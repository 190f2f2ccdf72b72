import MicroCard.Jcvm.Api
import MicroCard.Jcvm.Class

/-! Turning class references and tokens into what they name. Nothing is rewritten: every
resolution is computed from the components as they arrived. -/
namespace MicroCard.Jcvm

open Bytes CrashTriple

/-- A package, with the resolutions its bytecode needs. -/
structure Linked where
  file : LoadFile
  classes : Class
  deriving DecidableEq, Repr

/-- Whether a package the card provides can stand in for this import. -/
def PackageRef.satisfiedBy (import' : PackageRef) (major minor : Nat) : Bool :=
  major = import'.major ∧ import'.minor ≤ minor

/-- The entry a token names in one of a class's two method tables, if it is in range. -/
def tableEntry (info : ClassInfo) (token : Nat) (package : Bool) : Option Nat :=
  let base := if package then info.packageMethodTableBase else info.publicMethodTableBase
  let table := if package then info.packageMethods else info.publicMethods
  if token < base then none
  else if table.length < (token - base) * 2 + 2 then none
  else some (wordOr table ((token - base) * 2))

namespace Linked

def new (file : LoadFile) : Except Error Linked := do
  pure ⟨file, ← file.classes⟩

/-- Steps a walk up the superclasses may take. -/
def chainSteps : Nat := 256

/-- Words from this class on up, added to those already counted. -/
def wordsFrom (linked : Linked) : Nat → Nat → ClassRef → Except Error Nat
  | 0, _, _ => .error .format
  | fuel + 1, total, .internal offset => do
      let info ← linked.classes.at offset
      failIf (65535 < total + info.declaredInstanceSize) .quota
      linked.wordsFrom fuel (total + info.declaredInstanceSize) info.superClass
  | _ + 1, total, _ => .ok total

/-- Words an instance of this class occupies, including what it inherits. -/
def instanceWords (linked : Linked) (cls : Nat) : Except Error Nat :=
  linked.wordsFrom chainSteps 0 (.internal cls)

/-- Visit the reference fields one class declares. -/
def visitDeclared (inherited payloadLength : Nat) (declaration : ClassInfo) (visit : Nat → Except Error Unit) :
    Except Error Unit :=
  (List.range declaration.referenceCount).forM fun index => do
    let at' := (inherited + declaration.firstReferenceToken + index) * 2
    failIf (payloadLength < at' + 2) .bounds
    visit at'

/-- Visit the reference fields from this class on up, which hold the first `words` words. -/
def visitFrom (linked : Linked) (payloadLength : Nat) (visit : Nat → Except Error Unit) :
    Nat → Nat → ClassRef → Except Error Unit
  | 0, _, _ => .error .format
  | fuel + 1, words, .internal offset => do
      let declaration ← linked.classes.at offset
      failIf (declaration.isInterface = true) .format
      failIf (words < declaration.declaredInstanceSize) .format
      let inherited := words - declaration.declaredInstanceSize
      visitDeclared inherited payloadLength declaration visit
      linked.visitFrom payloadLength visit fuel inherited declaration.superClass
  | _ + 1, _, _ => .ok ()

/-- Visit exactly the reference fields described by each class in the hierarchy. -/
def visitInstanceReferenceOffsets (linked : Linked) (cls payloadLength : Nat) (visit : Nat → Except Error Unit) :
    Except Error Unit := do
  let words ← linked.instanceWords cls
  failIf (payloadLength ≠ words * 2) .format
  linked.visitFrom payloadLength visit chainSteps words (.internal cls)

/-- The name of the package a token stands for. -/
def importAid (linked : Linked) (packageToken : Nat) : Except Error (List Byte) := do
  let imports ← linked.file.imports
  let import' ← orFail imports[packageToken]? .bounds
  pure import'.aid

/-- The package the card provides under a name. -/
def providedPackage (aid : List Byte) : Option ApiPackage := packages.find? fun entry => entry.aid = aid

/-- An imported class, for a cast or an array of one. -/
def apiClass (linked : Linked) (packageToken cls : Nat) : Except Error ApiClass := do
  let aid ← linked.importAid packageToken
  let package ← orFail (providedPackage aid) .unsupported
  orFail (package.classes.find? fun entry => entry.token = cls) .missing

/-- Whether a class reached by a walk up the superclasses answers for the target. -/
def matchesFrom (linked : Linked) (target : ClassRef) : Nat → ClassRef → Except Error Bool
  | 0, _ => .ok false
  | fuel + 1, .internal offset =>
      if target = .internal offset then .ok true
      else do
        let entry ← linked.classes.at offset
        if entry.implemented.any fun implemented => implemented.1 = target then return true
        linked.matchesFrom target fuel entry.superClass
  | _ + 1, at' => .ok (at' = target)

/-- Whether a class is assignment-compatible with a class reference. -/
def classMatchesTarget (linked : Linked) (cls : Nat) (target : ClassRef) : Except Error Bool := do
  failIf (target = .none) .format
  if isNativeClass cls then
    match target with
    | .external package token => do
        let wanted ← linked.apiClass package token
        let position ← orFail (packages.findIdx? fun entry => wanted ∈ entry.classes) .missing
        pure (nativeIsA cls (nativeClass position wanted.token))
    | _ => pure false
  else linked.matchesFrom target chainSteps (.internal cls)

def classReferenceIsObject (linked : Linked) (target : ClassRef) : Except Error Bool :=
  match target with
  | .none => .ok true
  | .internal _ => .ok false
  | .external package cls => do
      let entry ← linked.apiClass package cls
      pure (entry.id = .object)

/-- Whether every package this one imports is one the card provides, at a version it can
satisfy. -/
def importsResolve (linked : Linked) : Except Error Unit := do
  let imports ← linked.file.imports
  imports.forM fun import' => do
    let package ← orFail (providedPackage import'.aid) .unsupported
    failIf (import'.satisfiedBy package.major package.minor = false) .unsupported

/-- Walk the class chain for the body of a virtual method. -/
def lookupFrom (linked : Linked) (token : Nat) (package : Bool) : Nat → ClassRef → Except Error Nat
  | 0, _ => .error .format
  | fuel + 1, .internal offset => do
      let info ← linked.classes.at offset
      match tableEntry info token package with
      | some method =>
          if method ≠ 0xffff then return method
          linked.lookupFrom token package fuel info.superClass
      | none => linked.lookupFrom token package fuel info.superClass
  | _ + 1, _ => .error .missing

/-- The high bit of a token picks the package-visible methods. -/
def lookup (linked : Linked) (cls token : Nat) : Except Error Nat :=
  linked.lookupFrom (token % 128) (128 ≤ token) chainSteps (.internal cls)

end Linked

end MicroCard.Jcvm
