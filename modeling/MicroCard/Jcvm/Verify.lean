import MicroCard.Jcvm.Class
import MicroCard.Jcvm.Code
import MicroCard.Jcvm.Method
import Mathlib.Data.List.Sort
import Mathlib.Data.List.Dedup

/-! Structural verification of a whole package, in one pass at load. -/
namespace MicroCard.Jcvm

open Bytes CrashTriple

/-- What a package looked like once it verified. -/
structure Report where
  methods : Nat
  staticImageBytes : Nat
  maxFrameWords : Nat
  maxStackWords : Nat
  deriving DecidableEq, Repr

/-- Every offset in the Method component that the package names as a method, in
ascending order and once each. -/
def methodOffsets (file : LoadFile) : Except Error (List Nat) := do
  let classes ← file.classes
  let constants ← file.constants
  let applets ← file.applets
  let offsets := classes.iter.flatMap ClassInfo.methodOffsets ++ constants.filterMap Entry.internalStaticMethod ++
    applets.map AppletRef.installMethodOffset
  pure ((offsets.insertionSort (· ≤ ·)).dedup)

/-- The local an instruction names and the words it takes, if it names one. -/
def localAccess (code : List Byte) (at' : Nat) : Option (Nat × Nat) :=
  let opcode := (code.getD at' 0).toNat
  let operand := (code.getD (at' + 1) 0).toNat
  if (21 ≤ opcode ∧ opcode ≤ 23) ∨ (40 ≤ opcode ∧ opcode ≤ 42) ∨ (89 ≤ opcode ∧ opcode ≤ 90) ∨
      (150 ≤ opcode ∧ opcode ≤ 151) then
    some (operand, if opcode = 23 ∨ opcode = 42 ∨ opcode = 90 ∨ opcode = 151 then 2 else 1)
  else if 24 ≤ opcode ∧ opcode ≤ 35 then some ((opcode - 24) % 4, if 32 ≤ opcode then 2 else 1)
  else if 43 ≤ opcode ∧ opcode ≤ 54 then some ((opcode - 43) % 4, if 51 ≤ opcode then 2 else 1)
  else none

/-- A local operand must fit the frame declared by this method. -/
def verifyLocalAccess (code : List Byte) (at' frameWords : Nat) : Except Error Unit :=
  match localAccess code at' with
  | none => .ok ()
  | some (index, width) => failIf (frameWords < index + width) .bounds

/-- Where control enters a method: its first instruction, and every handler that
lies in its body. -/
def methodEntries (methods : Method) (start stop : Nat) : List Nat :=
  0 :: (methods.handlers.filterMap fun handler =>
    if start ≤ handler.handlerOffset ∧ handler.handlerOffset < stop then some (handler.handlerOffset - start) else none)

/-- What is checked of each visited instruction besides its targets. -/
def verifyOperands (code : List Byte) (constantCount frameWords at' : Nat) : Except Error Unit := do
  match ← constantPoolIndex code at' with
  | some (_, index) => failIf (constantCount ≤ index) .bounds
  | none => pure ()
  verifyLocalAccess code at' frameWords

/-- Verify one method's bytecode. -/
def verifyMethod (code : List Byte) (entries : List Nat) (frameWords scratch : Nat) (limits : Limits)
    (constantCount : Nat) : Except Error Unit := do
  let map ← Boundaries.reachable code limits scratch entries
  verifyTargets code map
  walkBoundaries code map (verifyOperands code constantCount frameWords) code.length 0

/-- A class may not inherit from itself, directly or in a cycle. -/
def superChain (classes : Class) : Nat → ClassRef → Except Error ClassRef
  | 0, superClass => .ok superClass
  | fuel + 1, .internal offset => do
      let info ← classes.at offset
      superChain classes fuel info.superClass
  | _ + 1, superClass => .ok superClass

def verifyClass (classes : Class) (count : Nat) (info : ClassInfo) : Except Error Unit := do
  match ← superChain classes (count + 1) info.superClass with
  | .internal _ => throw .format
  | _ => pure ()

/-- The methods with their ends: a method ends where the next named one begins. -/
def methodRegions (offsets : List Nat) (componentLength : Nat) : List (Nat × Nat) :=
  offsets.zip (offsets.drop 1 ++ [componentLength])

def verifyRegion (methods : Method) (scratch : Nat) (limits : Limits) (constantCount : Nat) (report : Report)
    (region : Nat × Nat) : Except Error Report := do
  let (method, code) ← methods.method region.1 region.2
  if method.abstractMethod then return report
  verifyMethod code (methodEntries methods (region.1 + method.length) region.2) method.frameWords scratch limits
    constantCount
  pure { report with
    methods := report.methods + 1
    maxFrameWords := max report.maxFrameWords method.frameWords
    maxStackWords := max report.maxStackWords method.maxStack }

/-- Verify a Load File Data Block. -/
def verify (file : LoadFile) (scratch : Nat) : Except Error Report := do
  let header ← file.header
  header.supported
  let directory ← file.directory
  let constants ← file.constants
  let methods ← file.methods
  let applets ← file.applets
  let classes ← file.classes
  let statics ← file.staticFields
  failIf (statics.imageSize ≠ directory.imageSize ∨ statics.arrayInits.length ≠ directory.arrayInitCount) .inconsistent
  failIf (applets.length ≠ directory.appletCount) .inconsistent
  failIf ((← file.imports).length ≠ directory.importCount) .inconsistent
  failIf (methods.handlers.any fun handler => handler.catchTypeIndex ≠ 0 ∧ constants.length ≤ handler.catchTypeIndex)
    .bounds
  classes.iter.forM (verifyClass classes classes.iter.length)
  let offsets ← methodOffsets file
  let report ← (methodRegions offsets methods.info.length).foldlM
    (verifyRegion methods scratch ⟨header.int, false⟩ constants.length) ⟨0, statics.imageSize, 0, 0⟩
  failIf (report.methods = 0) .format
  pure report

end MicroCard.Jcvm
