import MicroCard.Jcvm.Opcodes

/-! Decoding a method's bytecode. The boundary map holds every offset the search for
reachable instructions decoded; the later checks walk it by instruction length. -/
namespace MicroCard.Jcvm

open Bytes CrashTriple

def jsr : Byte := 113
def ret : Byte := 114
def stableswitch : Byte := 115
def itableswitch : Byte := 116
def slookupswitch : Byte := 117
def ilookupswitch : Byte := 118
def checkcast : Byte := 148
def instanceof : Byte := 149

/-- What a given package is allowed to contain. -/
structure Limits where
  int : Bool
  subroutines : Bool
  deriving DecidableEq, Repr

/-- Whether an opcode may appear in a package with these limits. -/
def Limits.allows (limits : Limits) (opcode : Byte) : Except Error Unit := do
  failIf (!defined opcode) .format
  failIf ((opcode = jsr ∨ opcode = ret) ∧ !limits.subroutines) .unsupported
  failIf (intOnly opcode ∧ !limits.int) .unsupported

/-- The signed word at an offset. -/
def word (code : List Byte) (at' : Nat) : Except Error Int := do
  pure (signed16 (← wordAt code at'))

/-- The signed double word at an offset. -/
def long (code : List Byte) (at' : Nat) : Except Error Int := do
  let high ← wordAt code at'
  let low ← wordAt code (at' + 2)
  pure (signed32 (high * 65536 + low))

/-- A switch value, in the width of its instruction. -/
def switchValue (code : List Byte) (wide : Bool) (at' : Nat) : Except Error Int :=
  if wide then long code at' else word code at'

/-- The size of a switch whose table has one offset for each value of a range. -/
def tableLength (code : List Byte) (at' : Nat) (wide : Bool) : Except Error Nat := do
  let low ← switchValue code wide (at' + 3)
  let high ← switchValue code wide (at' + if wide then 7 else 5)
  failIf (high < low) .format
  pure ((if wide then 11 else 7) + (high - low + 1).toNat * 2)

/-- The size of a switch with a counted list of match and offset pairs. -/
def lookupLength (code : List Byte) (at' : Nat) (wide : Bool) : Except Error Nat := do
  let pairs ← wordAt code (at' + 3)
  pure (5 + pairs * (if wide then 6 else 4))

/-- What the specification defines as the size, before the method bounds it. -/
def declaredLength (code : List Byte) (at' : Nat) (opcode : Byte) : Except Error Nat :=
  if fixedLength opcode ≠ 0 then .ok (fixedLength opcode)
  else if opcode = stableswitch ∨ opcode = itableswitch then tableLength code at' (opcode = itableswitch)
  else if opcode = slookupswitch ∨ opcode = ilookupswitch then lookupLength code at' (opcode = ilookupswitch)
  else .error .format

/-- The size of the instruction starting at an offset, including its opcode. -/
def instructionLength (code : List Byte) (at' : Nat) : Except Error Nat := do
  let opcode ← byteAt code at'
  failIf (!defined opcode) .format
  let length ← declaredLength code at' opcode
  failIf (code.length < at' + length) .bounds
  pure length

/-- The offset a branch carries. -/
def branchTargets (code : List Byte) (at' : Nat) (opcode : Byte) : List (Except Error Int) :=
  if branchWidth opcode = 0 then []
  else if branchWidth opcode = 1 then [(byteAt code (at' + 1)).map fun b => (at' : Int) + signed8 b.toNat]
  else [(word code (at' + 1)).map fun offset => (at' : Int) + offset]

/-- Pairs are sorted by match value; one out of order ends the visit with an error. -/
def pairTargets (code : List Byte) (at' matchWidth : Nat) : Nat → Nat → Option Int → List (Except Error Int)
  | 0, _, _ => []
  | count + 1, entry, previous =>
      match switchValue code (matchWidth = 4) entry with
      | .error e => [.error e]
      | .ok key =>
          if previous.any fun last => key ≤ last then [.error .format]
          else (word code (entry + matchWidth)).map (fun offset => (at' : Int) + offset) ::
            pairTargets code at' matchWidth count (entry + matchWidth + 2) (some key)

def switchTargets (code : List Byte) (at' length : Nat) (opcode : Byte) : List (Except Error Int) :=
  let fallback := (word code (at' + 1)).map fun offset => (at' : Int) + offset
  if opcode = stableswitch ∨ opcode = itableswitch then
    let header := if opcode = itableswitch then 11 else 7
    fallback :: (List.range' (at' + header) ((length - header + 1) / 2) 2).map fun entry =>
      (word code entry).map fun offset => (at' : Int) + offset
  else if opcode = slookupswitch ∨ opcode = ilookupswitch then
    let matchWidth := if opcode = ilookupswitch then 4 else 2
    fallback :: pairTargets code at' matchWidth ((length - 5 + (matchWidth + 1)) / (matchWidth + 2)) (at' + 5) none
  else []

/-- Every target the instruction can transfer control to, in the order it is read. An
error stands where reading failed. -/
def targets (code : List Byte) (at' length : Nat) : List (Except Error Int) :=
  let opcode := code.getD at' 0
  branchTargets code at' opcode ++ switchTargets code at' length opcode

def forEachTarget {σ : Type} (code : List Byte) (at' length : Nat) (visit : σ → Int → Except Error σ) (state : σ) :
    Except Error σ :=
  (targets code at' length).foldlM (fun state target => target >>= visit state) state

/-- An absolute target, checked against the method it has to stay inside. -/
def bounded (target : Int) (length : Nat) : Except Error Nat :=
  if target < 0 ∨ (length : Int) ≤ target then .error .bounds else .ok target.toNat

/-- Where the instructions of one method start, and which offsets are still to be
visited. -/
structure Boundaries where
  length : Nat
  marked : Nat → Bool
  pending : Nat → Bool

namespace Boundaries

/-- Bytes of scratch needed for a method of this size. -/
def scratchFor (codeLength : Nat) : Nat := (codeLength + 7) / 8 * 2

def empty (code : List Byte) (scratch : Nat) : Except Error Boundaries :=
  if scratch < scratchFor code.length then .error .bounds
  else .ok ⟨code.length, fun _ => false, fun _ => false⟩

def isBoundary (map : Boundaries) (offset : Nat) : Bool := offset < map.length && map.marked offset

def mark (map : Boundaries) (at' : Nat) : Boundaries :=
  { map with marked := fun i => i = at' || map.marked i }

def enqueue (map : Boundaries) (at' : Nat) : Boundaries :=
  if map.isBoundary at' then map else { map with pending := fun i => i = at' || map.pending i }

def takePending (map : Boundaries) : Option (Nat × Boundaries) :=
  match (List.range map.length).find? map.pending with
  | some at' => some (at', { map with pending := fun i => i ≠ at' && map.pending i })
  | none => none

variable (code : List Byte) (limits : Limits)

def enqueueEntry (map : Boundaries) (entry : Nat) : Except Error Boundaries := do
  failIf (code.length ≤ entry) .bounds
  pure (map.enqueue entry)

def enqueueTarget (map : Boundaries) (target : Int) : Except Error Boundaries := do
  pure (map.enqueue (← bounded target code.length))

/-- Follow one path until it leaves the method, stops, or meets a decoded
instruction. Each step moves forward, so `code.length` of them pass the end. -/
def follow : Nat → Boundaries → Nat → Except Error Boundaries
  | 0, _, _ => .error .bounds
  | fuel + 1, map, at' =>
      if code.length ≤ at' then .error .bounds
      else if map.marked at' then .ok map
      else do
        limits.allows (code.getD at' 0)
        let length ← instructionLength code at'
        let map ← forEachTarget code at' length (enqueueTarget code) (map.mark at')
        if !fallsThrough (code.getD at' 0) then pure map
        else follow fuel map (at' + length)

/-- Follow every pending path. -/
def sweep : Nat → Boundaries → Except Error Boundaries
  | 0, map => .ok map
  | fuel + 1, map =>
      match map.takePending with
      | none => .ok map
      | some (start, map) => do
          let map ← follow code limits code.length map start
          sweep fuel map

/-- Decode every instruction control can reach from the given entry points. A path
either marks an instruction or uses up a pending offset, which bounds the sweeps. -/
def reachable (scratch : Nat) (entries : List Nat) : Except Error Boundaries := do
  let map ← empty code scratch
  let map ← entries.foldlM (enqueueEntry code) map
  sweep code limits ((code.length + 1) * (code.length + 1)) map

end Boundaries

/-- The constant pool entry the instruction names, if it names one. -/
def constantPoolIndex (code : List Byte) (at' : Nat) : Except Error (Option (Nat × Nat)) := do
  let opcode ← byteAt code at'
  let width := cpIndexWidth opcode
  if width = 0 then return none
  let offset := at' + cpIndexOffset opcode
  if opcode = checkcast ∨ opcode = instanceof then
    let atype ← byteAt code (at' + 1)
    if 10 ≤ atype ∧ atype ≤ 13 then
      failIf ((← wordAt code offset) ≠ 0) .format
      return none
  if width = 1 then return some (offset, (← byteAt code offset).toNat)
  else return some (offset, ← wordAt code offset)

/-- Visit the boundaries in steps of an instruction, and other bytes one by one. -/
def walkBoundaries (code : List Byte) (map : Boundaries) (check : Nat → Except Error Unit) :
    Nat → Nat → Except Error Unit
  | 0, _ => .ok ()
  | fuel + 1, at' =>
      if code.length ≤ at' then .ok ()
      else if !map.isBoundary at' then walkBoundaries code map check fuel (at' + 1)
      else do
        check at'
        let length ← instructionLength code at'
        walkBoundaries code map check fuel (at' + length)

/-- Check that every target of every visited instruction lands on a boundary. -/
def verifyTargets (code : List Byte) (map : Boundaries) : Except Error Unit :=
  walkBoundaries code map (fun at' => do
    let length ← instructionLength code at'
    forEachTarget code at' length (fun _ target => do
      let target ← bounded target map.length
      failIf (!map.isBoundary target) .format) ()) code.length 0

end MicroCard.Jcvm
