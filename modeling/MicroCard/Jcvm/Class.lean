import MicroCard.Jcvm.LoadFile

/-! The Class component. Interfaces first, then classes, laid end to end with no
index. A class is addressed by its byte offset into the component, so the layout is
walked rather than looked up. -/
namespace MicroCard.Jcvm

open Bytes CrashTriple

/-- A reference to a class or interface. -/
inductive ClassRef where
  | internal (offset : Nat)
  | external (package cls : Nat)
  | none
  deriving DecidableEq, Repr

def ClassRef.decode (value : Nat) : ClassRef :=
  if value = 0xffff then .none
  else if 0x8000 ≤ value then .external (value / 256 % 128) (value % 256)
  else .internal value

structure ClassInfo where
  offset : Nat
  flags : Nat
  superClass : ClassRef
  declaredInstanceSize : Nat
  firstReferenceToken : Nat
  referenceCount : Nat
  publicMethodTableBase : Nat
  packageMethodTableBase : Nat
  publicMethods : List Byte
  packageMethods : List Byte
  interfaces : List Byte
  interfaceCount : Nat
  length : Nat
  deriving DecidableEq, Repr

def ClassInfo.isInterface (info : ClassInfo) : Bool := info.flags / 8 % 2 = 1

/-- The two-byte entries of a method table. -/
def tableEntries : List Byte → List Nat
  | high :: low :: rest => be16 high low :: tableEntries rest
  | _ => []

/-- Method component offsets this class names, skipping the ones it inherits. -/
def ClassInfo.methodOffsets (info : ClassInfo) : List Nat :=
  (tableEntries info.publicMethods ++ tableEntries info.packageMethods).filter (· ≠ 0xffff)

/-- The interfaces a class implements, with the token mapping each one needs. -/
def interfaceEntries : Nat → List Byte → List (ClassRef × List Byte)
  | 0, _ => []
  | count + 1, rest =>
      match slice rest 0 3 with
      | .error _ => interfaceEntries count rest
      | .ok head =>
          let tokens := (head.getD 2 0).toNat
          match slice rest 3 (3 + tokens) with
          | .error _ => interfaceEntries count rest
          | .ok mapping => (ClassRef.decode (wordOr head 0), mapping) :: interfaceEntries count (rest.drop (3 + tokens))

def ClassInfo.implemented (info : ClassInfo) : List (ClassRef × List Byte) :=
  interfaceEntries info.interfaceCount info.interfaces

/-- Every class and interface of one package. `entries` is where the first starts. -/
structure Class where
  info : List Byte
  entries : Nat
  deriving DecidableEq, Repr

/-- Where the implemented interface table ends: each entry carries its own count. -/
def interfacesEnd (info : List Byte) : Nat → Nat → Except Error Nat
  | 0, stop => .ok stop
  | count + 1, stop => do
      let tokens ← byteAt info (stop + 2)
      interfacesEnd info count (stop + (3 + tokens.toNat))

/-- Where an interface entry ends: behind its superinterfaces and, when it is remote,
its name. -/
def interfaceEnd (info : List Byte) (at' flags count : Nat) : Except Error Nat :=
  let stop := at' + 1 + count * 2
  if flags / 2 % 2 = 1 then do
    let length ← byteAt info stop
    pure (stop + (1 + length.toNat))
  else pure stop

/-- Decode the entry at a byte offset, whatever lies there. -/
def Class.entry (classes : Class) (at' : Nat) : Except Error ClassInfo := do
  let info := classes.info
  let first ← byteAt info at'
  let flags := first.toNat / 16
  let interfaceCount := first.toNat % 16
  if flags / 8 % 2 = 1 then
    let stop ← interfaceEnd info at' flags interfaceCount
    failIf (info.length < stop) .bounds
    pure {
      offset := at', flags := flags, superClass := .none, declaredInstanceSize := 0, firstReferenceToken := 0
      referenceCount := 0, publicMethodTableBase := 0, packageMethodTableBase := 0, publicMethods := []
      packageMethods := [], interfaces := [], interfaceCount := 0, length := stop - at' }
  else
    let fixed ← slice info at' (at' + 10)
    let publicStart := at' + 10
    let packageStart := publicStart + (fixed.getD 7 0).toNat * 2
    let interfacesStart := packageStart + (fixed.getD 9 0).toNat * 2
    let publicMethods ← slice info publicStart packageStart
    let packageMethods ← slice info packageStart interfacesStart
    let stop ← interfacesEnd info interfaceCount interfacesStart
    failIf (info.length < stop) .bounds
    let interfaces ← slice info interfacesStart stop
    pure {
      offset := at'
      flags := flags
      superClass := ClassRef.decode (wordOr fixed 1)
      declaredInstanceSize := (fixed.getD 3 0).toNat
      firstReferenceToken := (fixed.getD 4 0).toNat
      referenceCount := (fixed.getD 5 0).toNat
      publicMethodTableBase := (fixed.getD 6 0).toNat
      packageMethodTableBase := (fixed.getD 8 0).toNat
      publicMethods := publicMethods
      packageMethods := packageMethods
      interfaces := interfaces
      interfaceCount := interfaceCount
      length := stop - at' }

/-- The class or interface at a byte offset, which is what a class reference carries. -/
def Class.at (classes : Class) (offset : Nat) : Except Error ClassInfo := do
  failIf (offset < classes.entries) .bounds
  classes.entry offset

/-- The entries laid end to end from an offset. -/
def Class.walk (classes : Class) : Nat → Nat → Except Error (List ClassInfo)
  | 0, at' => if at' < classes.info.length then .error .bounds else .ok []
  | fuel + 1, at' =>
      if at' < classes.info.length then do
        let entry ← classes.entry at'
        let rest ← classes.walk fuel (at' + entry.length)
        pure (entry :: rest)
      else .ok []

/-- Every entry takes at least its first byte, so a walk over the component ends. -/
def Class.iterate (classes : Class) : Except Error (List ClassInfo) :=
  classes.walk (classes.info.length + 1) classes.entries

/-- Every class and interface, in the order they appear. -/
def Class.iter (classes : Class) : List ClassInfo := (classes.iterate.toOption).getD []

/-- Parse the component. The signature pool exists only from CAP format 2.2. -/
def Class.parse (info : List Byte) (header : Header) : Except Error Class := do
  let entries ←
    if 2 < header.capMajor ∨ (header.capMajor = 2 ∧ 2 ≤ header.capMinor) then do
      pure (2 + (← wordAt info 0))
    else pure 0
  failIf (info.length < entries) .bounds
  let classes : Class := ⟨info, entries⟩
  let _ ← classes.iterate
  pure classes

def LoadFile.classes (file : LoadFile) : Except Error Class := do
  Class.parse (← file.required .class) (← file.header)

section Walk

variable {classes : Class}

end Walk

end MicroCard.Jcvm
