import MicroCard.Basic
import MicroCard.Library.Bytes
import MicroCard.Library.CrashTriple

/-! The host flash and its fault model. An erase may stop after any byte and a
word counter may be torn, but a slot word is programmed in one step. A power cut
is a number of byte mutations after which every further mutation fails; what was
written before it stays. -/
namespace MicroCard.Journal

open Bytes CrashTriple

/-- One word of a program call that changed the flash. `label` is the nonce the
bytes were sealed under, absent for marker words. -/
structure Programmed where
  label : Option (List Byte)
  slot : Nat
  offset : Nat
  bytes : List Byte
  word : Nat
  deriving DecidableEq, Repr

/-- What reached the flash and the cipher, kept to reason about; the card never
reads it. `records` are the sealed strings programmed to their last word and
`attempts` the reserved nonces handed to the cipher for a snapshot. -/
structure Trace where
  words : List Programmed
  records : List (List Byte × List Byte)
  attempts : List Nat
  deriving DecidableEq, Repr

/-- Journal slots and the two word counters. All three regions have the length
of one slot, and no vector is longer than the address space allows. -/
structure MemoryFlash where
  slotCount : Nat
  slotSize : Nat
  slots : Nat → Nat → Byte
  slotWordWrites : Nat → Nat → Nat
  monotonic : Nat → Byte
  nonces : Nat → Byte
  failAfter : Option Nat
  trace : Trace
  bounded : slotSize < 2 ^ 63

abbrev FlashM := EStateM Error MemoryFlash

theorem shortSlot_bounded : 112 < 2 ^ 63 := by decide

theorem longSlot_bounded : 512 < 2 ^ 63 := by decide

/-- Fully erased storage with fresh counters. -/
def MemoryFlash.withSlots (size slotCount : Nat) (bounded : size < 2 ^ 63) : MemoryFlash where
  slotCount := slotCount
  slotSize := size
  slots := fun _ _ => 0xff
  slotWordWrites := fun _ _ => 0
  monotonic := fun _ => 0xff
  nonces := fun _ => 0xff
  failAfter := none
  trace := ⟨[], [], []⟩
  bounded := bounded

def tick : FlashM Unit := fun flash =>
  match flash.failAfter with
  | none => .ok () flash
  | some 0 => .error .storage flash
  | some (n + 1) => .ok () { flash with failAfter := some n }

def decodeMonotonicWordsFrom : List Byte → Nat → Bool → Except Error Nat
  | a :: b :: c :: d :: rest, generation, sawErased =>
      if [a, b, c, d].any (· != 0xff) then
        if sawErased then .error .storage
        else match checkedAdd64 generation 1 with
          | none => .error .storage
          | some next => decodeMonotonicWordsFrom rest next sawErased
      else decodeMonotonicWordsFrom rest generation true
  | _, generation, _ => .ok generation

/-- Each non-erased word consumes one generation, torn words included. -/
def decodeMonotonicWords (bytes : List Byte) : Except Error Nat :=
  if bytes.length % 4 ≠ 0 then .error .storage
  else decodeMonotonicWordsFrom bytes 0 false

namespace MemoryFlash

def monotonicCapacity (flash : MemoryFlash) : Nat := flash.slotSize / 4

def nonceCapacity (flash : MemoryFlash) : Nat := flash.monotonicCapacity

def monotonicGeneration (flash : MemoryFlash) : Except Error Nat :=
  decodeMonotonicWords (range flash.monotonic 0 flash.slotSize)

def nonceGeneration (flash : MemoryFlash) : Except Error Nat :=
  decodeMonotonicWords (range flash.nonces 0 flash.slotSize)

def isErased (flash : MemoryFlash) (slot : Nat) : Except Error Bool :=
  if slot < flash.slotCount then
    .ok ((range (flash.slots slot) 0 flash.slotSize).all (· == 0xff))
  else .error .bounds

def read (flash : MemoryFlash) (slot offset count : Nat) : Except Error (List Byte) :=
  if slot < flash.slotCount ∧ offset + count ≤ flash.slotSize then
    .ok (range (flash.slots slot) offset count)
  else .error .bounds

/-- The byte a program call leaves at one location of its word. -/
def merged (flash : MemoryFlash) (slot offset : Nat) (bytes : List Byte) (location : Nat) : Byte :=
  if offset ≤ location ∧ location < offset + bytes.length then bytes.getD (location - offset) 0
  else flash.slots slot location

/-- Programming can only clear bits. -/
def conflicts (flash : MemoryFlash) (slot offset : Nat) (bytes : List Byte) (location : Nat) : Bool :=
  flash.slots slot location &&& flash.merged slot offset bytes location !=
    flash.merged slot offset bytes location

end MemoryFlash

/-- Set one counter byte; the nonce counter and the anchor share this path. -/
def clearCounterByte (nonce : Bool) (location : Nat) (flash : MemoryFlash) : MemoryFlash :=
  if nonce then
    { flash with nonces := fun i => if i = location then 0 else flash.nonces i }
  else
    { flash with monotonic := fun i => if i = location then 0 else flash.monotonic i }

def advanceWordCounter (generation : Nat) (nonce : Bool) : FlashM Unit := do
  failIf (generation = 0) .storage
  let offset := (generation - 1) * 4
  failIf (2 ^ 64 ≤ offset) .storage
  let flash ← get
  failIf (flash.slotSize < offset + 4) .quota
  let counter := if nonce then flash.nonces else flash.monotonic
  failIf ((range counter offset 4).any (· != 0xff)) .storage
  (List.range' offset 4).forM fun location => do
    tick
    modify (clearCounterByte nonce location)

def advanceMonotonic (generation : Nat) : FlashM Unit := advanceWordCounter generation false

def reserveNonce : FlashM Nat := do
  let flash ← get
  let current ← readOnly flash.nonceGeneration
  let next ← orFail (checkedAdd64 current 1) .quota
  advanceWordCounter next true
  pure next

def eraseByte (slot location : Nat) (flash : MemoryFlash) : MemoryFlash :=
  { flash with slots := fun t i => if t = slot ∧ i = location then 0xff else flash.slots t i }

def erase (slot : Nat) : FlashM Unit := do
  let flash ← get
  (List.range flash.slotSize).forM fun location => do
    tick
    modify (eraseByte slot location)
  modify fun flash =>
    { flash with slotWordWrites := fun t w => if t = slot then 0 else flash.slotWordWrites t w }

/-- Store one merged word and note that it was written. -/
def storeWord (label : Option (List Byte)) (slot offset : Nat) (bytes : List Byte) (pos : Nat)
    (flash : MemoryFlash) : MemoryFlash :=
  { flash with
    slots := fun t i =>
      if t = slot ∧ pos ≤ i ∧ i < pos + 4 then flash.merged slot offset bytes i else flash.slots t i
    slotWordWrites := fun t w =>
      if t = slot ∧ w = pos / 4 then flash.slotWordWrites t w + 1 else flash.slotWordWrites t w
    trace := { flash.trace with words := ⟨label, slot, offset, bytes, pos⟩ :: flash.trace.words } }

def noteRecord (label bytes : List Byte) (flash : MemoryFlash) : MemoryFlash :=
  { flash with trace := { flash.trace with records := (label, bytes) :: flash.trace.records } }

def noteAttempt (attempt : Nat) (flash : MemoryFlash) : MemoryFlash :=
  { flash with trace := { flash.trace with attempts := attempt :: flash.trace.attempts } }

/-- One aligned word of a program call. A word that would not change costs
nothing, and no word is written more than twice between erases. -/
def programWord (label : Option (List Byte)) (slot offset : Nat) (bytes : List Byte) (pos : Nat) :
    FlashM Unit := do
  let flash ← get
  let word := List.range' pos (min (pos + 4) flash.slotSize - pos)
  failIf (word.any (flash.conflicts slot offset bytes)) .storage
  if word.all (fun i => flash.merged slot offset bytes i == flash.slots slot i) then return ()
  failIf (2 ≤ flash.slotWordWrites slot (pos / 4)) .storage
  word.forM fun _ => tick
  modify (storeWord label slot offset bytes pos)

def program (label : Option (List Byte)) (slot offset : Nat) (bytes : List Byte) : FlashM Unit := do
  let flash ← get
  failIf (flash.slotSize < offset + bytes.length) .bounds
  (List.range' (offset / 4 * 4) ((offset + bytes.length + 3) / 4 - offset / 4) 4).forM
    (programWord label slot offset bytes)
  match label with
  | some label => modify (noteRecord label bytes)
  | none => pure ()

end MicroCard.Journal
