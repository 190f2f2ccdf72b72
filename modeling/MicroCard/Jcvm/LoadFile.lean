import MicroCard.Jcvm.Basic

/-! The Load File Data Block and its smaller components. The block tiles exactly
into components in order; each component is read in place, and a malformed length
costs a refusal. -/
namespace MicroCard.Jcvm

open Bytes CrashTriple

/-- Component tags. The tag doubles as the position in the Directory table. -/
inductive Tag where
  | header
  | directory
  | applet
  | import
  | constantPool
  | class : Tag
  | method
  | staticField
  | refLocation
  | export
  | descriptor
  | debug
  deriving DecidableEq, Repr

def Tag.number : Tag → Nat
  | header => 1
  | directory => 2
  | applet => 3
  | .import => 4
  | constantPool => 5
  | .class => 6
  | method => 7
  | staticField => 8
  | refLocation => 9
  | .export => 10
  | descriptor => 11
  | debug => 12

def Tag.all : List Tag :=
  [header, directory, applet, .import, constantPool, .class, method, staticField, refLocation, .export, descriptor,
    debug]

def Tag.fromByte (value : Nat) : Except Error Tag :=
  match Tag.all.find? fun tag => tag.number = value with
  | some tag => .ok tag
  | none => .error .format

/-- Whether a Load File Data Block may carry this component. -/
def Tag.inLoadFile (tag : Tag) : Bool := tag ≠ descriptor ∧ tag ≠ debug

structure Component where
  tag : Tag
  info : List Byte
  deriving DecidableEq, Repr

/-- Read one component and return it with whatever follows it. -/
def Component.split (bytes : List Byte) : Except Error (Component × List Byte) := do
  let head ← slice bytes 0 3
  let rest := bytes.drop 3
  let size := wordOr head 1
  let info ← slice rest 0 size
  let tag ← Tag.fromByte (head.getD 0 0).toNat
  pure (⟨tag, info⟩, rest.drop size)

section Header

structure Header where
  capMajor : Nat
  capMinor : Nat
  flags : Byte
  packageMajor : Nat
  packageMinor : Nat
  packageAid : List Byte
  deriving DecidableEq, Repr

def Header.magic : List Byte := [0xde, 0xca, 0xff, 0xed]

def Header.parse (info : List Byte) : Except Error Header := do
  failIf (info.length < 10) .bounds
  failIf (info.take 4 ≠ Header.magic) .format
  let length := (info.getD 9 0).toNat
  failIf (¬(5 ≤ length ∧ length ≤ 16) ∨ info.length ≠ 10 + length) .format
  pure {
    capMinor := (info.getD 4 0).toNat
    capMajor := (info.getD 5 0).toNat
    flags := info.getD 6 0
    packageMinor := (info.getD 7 0).toNat
    packageMajor := (info.getD 8 0).toNat
    packageAid := info.drop 10 }

/-- Whether the package declares 32-bit integers. -/
def Header.int (header : Header) : Bool := header.flags &&& 0x01 ≠ 0

/-- Whether this build can run the package. -/
def Header.supported (header : Header) : Except Error Unit := do
  failIf ((header.capMajor, header.capMinor) ≠ (2, 1)) .unsupported
  failIf (header.flags &&& 0x04 = 0) .unsupported
  failIf (header.flags &&& (0x02 ||| 0x08) ≠ 0) .unsupported

end Header

section Directory

structure Directory where
  sizes : List Byte
  imageSize : Nat
  arrayInitCount : Nat
  arrayInitSize : Nat
  importCount : Nat
  appletCount : Nat
  customCount : Nat
  deriving DecidableEq, Repr

def Directory.sizedComponents : Nat := 11

def Directory.parse (info : List Byte) : Except Error Directory := do
  let tail := sizedComponents * 2
  failIf (info.length < tail + 9) .bounds
  let directory : Directory := {
    sizes := info.take tail
    imageSize := wordOr info tail
    arrayInitCount := wordOr info (tail + 2)
    arrayInitSize := wordOr info (tail + 4)
    importCount := (info.getD (tail + 6) 0).toNat
    appletCount := (info.getD (tail + 7) 0).toNat
    customCount := (info.getD (tail + 8) 0).toNat }
  failIf (directory.customCount ≠ 0) .unsupported
  failIf (info.length ≠ tail + 9) .format
  pure directory

/-- The size the Directory records for a component, counting its info bytes alone. -/
def Directory.size (directory : Directory) (tag : Tag) : Nat :=
  let index := tag.number - 1
  if sizedComponents ≤ index then 0 else wordOr directory.sizes (index * 2)

end Directory

section Tables

structure AppletRef where
  aid : List Byte
  installMethodOffset : Nat
  deriving DecidableEq, Repr

def readApplet (bytes : List Byte) : Except Error (AppletRef × List Byte) := do
  let length := (← byteAt bytes 0).toNat
  let rest := bytes.drop 1
  failIf (¬(5 ≤ length ∧ length ≤ 16)) .format
  let aid ← slice rest 0 length
  let offset ← slice (rest.drop length) 0 2
  pure (⟨aid, wordOr offset 0⟩, (rest.drop length).drop 2)

/-- Read `count` entries laid end to end, and what follows them. -/
def readEntries {α : Type} (read : List Byte → Except Error (α × List Byte)) :
    Nat → List Byte → Except Error (List α × List Byte)
  | 0, rest => .ok ([], rest)
  | count + 1, rest => do
      let (entry, remainder) ← read rest
      let (entries, last) ← readEntries read count remainder
      pure (entry :: entries, last)

/-- The applets a package declares. -/
def parseApplets (info : List Byte) : Except Error (List AppletRef) := do
  let count := (← byteAt info 0).toNat
  failIf (count = 0) .format
  let (entries, rest) ← readEntries readApplet count (info.drop 1)
  failIf (rest ≠ []) .format
  pure entries

/-- One package the file borrows from, with the version it was linked against. -/
structure PackageRef where
  major : Nat
  minor : Nat
  aid : List Byte
  deriving DecidableEq, Repr

def readPackage (bytes : List Byte) : Except Error (PackageRef × List Byte) := do
  let head ← slice bytes 0 3
  let rest := bytes.drop 3
  let length := (head.getD 2 0).toNat
  failIf (¬(5 ≤ length ∧ length ≤ 16)) .format
  let aid ← slice rest 0 length
  pure ({ minor := (head.getD 0 0).toNat, major := (head.getD 1 0).toNat, aid := aid }, rest.drop length)

/-- The imports, in the order the package numbers them. -/
def parseImports (info : List Byte) : Except Error (List PackageRef) := do
  let count := (← byteAt info 0).toNat
  let (entries, rest) ← readEntries readPackage count (info.drop 1)
  failIf (rest ≠ []) .format
  pure entries

/-- One constant pool entry, left in the form the component stores it. -/
structure Entry where
  tag : Byte
  info0 : Byte
  info1 : Byte
  info2 : Byte
  deriving DecidableEq, Repr

def constantClassref : Byte := 1
def constantInstanceFieldref : Byte := 2
def constantVirtualMethodref : Byte := 3
def constantSuperMethodref : Byte := 4
def constantStaticFieldref : Byte := 5
def constantStaticMethodref : Byte := 6

/-- The Method component offset of a static method defined in this package. -/
def Entry.internalStaticMethod (entry : Entry) : Option Nat :=
  if entry.tag ≠ constantStaticMethodref ∨ entry.info0 &&& 0x80 ≠ 0 then none
  else some (be16 entry.info1 entry.info2)

/-- The class this entry names, when it names one in this package. -/
def Entry.internalClass (entry : Entry) : Option Nat :=
  if entry.tag ≠ constantClassref then none
  else
    let value := be16 entry.info0 entry.info1
    if value < 0x8000 then some value else none

def readEntry (bytes : List Byte) : Except Error (Entry × List Byte) := do
  let entry ← slice bytes 0 4
  let tag := entry.getD 0 0
  failIf (¬(constantClassref ≤ tag ∧ tag ≤ constantStaticMethodref)) .format
  pure (⟨tag, entry.getD 1 0, entry.getD 2 0, entry.getD 3 0⟩, bytes.drop 4)

def parseConstants (info : List Byte) : Except Error (List Entry) := do
  let head ← slice info 0 2
  let count := wordOr head 0
  failIf ((info.drop 2).length ≠ count * 4) .format
  let (entries, _) ← readEntries readEntry count (info.drop 2)
  pure entries

end Tables

section StaticFields

/-- One primitive array a static field starts out holding. -/
structure ArrayInit where
  elementType : Nat
  values : List Byte
  deriving DecidableEq, Repr

def ArrayInit.elementSize (array : ArrayInit) : Nat :=
  if array.elementType = 2 ∨ array.elementType = 3 then 1
  else if array.elementType = 4 then 2
  else 4

def ArrayInit.length (array : ArrayInit) : Nat := array.values.length / array.elementSize

structure StaticField where
  imageSize : Nat
  referenceCount : Nat
  arrayInits : List ArrayInit
  defaultValueCount : Nat
  nonDefaultValues : List Byte
  deriving DecidableEq, Repr

def readArrayInit (bytes : List Byte) : Except Error (ArrayInit × List Byte) := do
  let entry ← slice bytes 0 3
  let elementType := (entry.getD 0 0).toNat
  failIf (¬(2 ≤ elementType ∧ elementType ≤ 5)) .format
  let count := wordOr entry 1
  let values ← slice (bytes.drop 3) 0 count
  pure (⟨elementType, values⟩, (bytes.drop 3).drop count)

def StaticField.parse (info : List Byte) : Except Error StaticField := do
  let head ← slice info 0 6
  let arrayInitCount := wordOr head 4
  let (arrayInits, rest) ← readEntries readArrayInit arrayInitCount (info.drop 6)
  let tail ← slice rest 0 4
  let defaultValueCount := wordOr tail 0
  let nonDefaultValueCount := wordOr tail 2
  let nonDefaultValues ← slice (rest.drop 4) 0 nonDefaultValueCount
  failIf ((rest.drop 4).length ≠ nonDefaultValueCount) .format
  let imageSize := wordOr head 0
  let referenceCount := wordOr head 2
  failIf (referenceCount * 2 + defaultValueCount + nonDefaultValueCount ≠ imageSize ∨
    referenceCount < arrayInitCount) .inconsistent
  failIf (arrayInits.any fun array => array.values.length % array.elementSize ≠ 0 ∨ 32767 < array.length ∨
    (array.elementType = 2 ∧ array.values.any (1 < ·))) .format
  pure ⟨imageSize, referenceCount, arrayInits, defaultValueCount, nonDefaultValues⟩

end StaticFields

section RefLocation

/-- The offsets a jump list stands for. A jump of 255 continues into the next one. -/
def refOffsets : Nat → Nat → List Byte → List Nat
  | _, _, [] => []
  | from', distance, jump :: rest =>
      if jump = 255 then refOffsets from' (distance + 255) rest
      else (from' + (distance + jump.toNat)) :: refOffsets (from' + (distance + jump.toNat)) 0 rest

def checkOffsets (methodSize width : Nat) : Option Nat → List Nat → Except Error Unit
  | _, [] => .ok ()
  | previous, offset :: rest => do
      failIf (previous.any fun last => offset ≤ last) .format
      failIf (methodSize < offset + width) .bounds
      checkOffsets methodSize width (some offset) rest

def validateOffsets (jumps : List Byte) (methodSize width : Nat) : Except Error Unit := do
  failIf (jumps.getLast? = some 255) .format
  checkOffsets methodSize width none (refOffsets 0 0 jumps)

/-- Validate the Reference Location component. -/
def validateRefLocation (info : List Byte) (methodSize : Nat) : Except Error Unit := do
  let head ← slice info 0 2
  let oneByteEnd := 2 + wordOr head 0
  let oneByte ← slice info 2 oneByteEnd
  let tail ← slice info oneByteEnd (oneByteEnd + 2)
  let twoByteEnd := oneByteEnd + 2 + wordOr tail 0
  let twoByte ← slice info (oneByteEnd + 2) twoByteEnd
  failIf (twoByteEnd ≠ info.length) .format
  validateOffsets oneByte methodSize 1
  validateOffsets twoByte methodSize 2

end RefLocation

/-- The components of one Load File Data Block, in the order they arrived. -/
structure LoadFile where
  components : List Component
  deriving DecidableEq, Repr

def LoadFile.component (file : LoadFile) (tag : Tag) : Option (List Byte) :=
  (file.components.find? fun component => component.tag = tag).map Component.info

/-- The info of a component the caller cannot do without. -/
def LoadFile.required (file : LoadFile) (tag : Tag) : Except Error (List Byte) :=
  orFail (file.component tag) .format

/-- Read components until the block is used up. Each is larger than the last. -/
def splitAll : Nat → Option Tag → List Byte → Except Error (List Component)
  | _, _, [] => .ok []
  | 0, _, _ :: _ => .error .bounds
  | fuel + 1, previous, byte :: bytes => do
      let (component, rest) ← Component.split (byte :: bytes)
      failIf (!component.tag.inLoadFile) .format
      failIf (previous.any fun last => component.tag.number ≤ last.number) .format
      let components ← splitAll fuel (some component.tag) rest
      pure (component :: components)

namespace LoadFile

def header (file : LoadFile) : Except Error Header := do
  Header.parse (← file.required .header)

def directory (file : LoadFile) : Except Error Directory := do
  Directory.parse (← file.required .directory)

def applets (file : LoadFile) : Except Error (List AppletRef) := do
  parseApplets (← file.required .applet)

def staticFields (file : LoadFile) : Except Error StaticField := do
  StaticField.parse (← file.required .staticField)

/-- The constant pool, or an empty one when the package references nothing. -/
def constants (file : LoadFile) : Except Error (List Entry) :=
  parseConstants ((file.component .constantPool).getD [0, 0])

def imports (file : LoadFile) : Except Error (List PackageRef) :=
  parseImports ((file.component .import).getD [0])

/-- Parse a whole Load File Data Block and check it against itself. -/
def parse (bytes : List Byte) : Except Error LoadFile := do
  let components ← splitAll bytes.length none bytes
  let file : LoadFile := ⟨components⟩
  failIf ((file.component .header).isNone ∨ (file.component .directory).isNone) .format
  let directory ← file.directory
  failIf ((Tag.all.filter Tag.inLoadFile).any fun tag =>
    directory.size tag ≠ ((file.component tag).getD []).length) .inconsistent
  let method ← file.required .method
  match file.component .refLocation with
  | none => pure file
  | some info => do
      validateRefLocation info method.length
      -- the converter's relocation table is dropped once it has been checked
      pure ⟨components.filter fun component => component.tag ≠ .refLocation⟩

end LoadFile

end MicroCard.Jcvm
