import MicroCard.Journal.Flash

/-! The word counters of the nRF52840. Each counter is a page of its own; a
step programs one erased word to zero, and a word program that is interrupted
leaves any of its bits cleared. -/
namespace MicroCard.Board

open Bytes CrashTriple

/-- An erased word, `u32::MAX`. -/
def u32Max : Nat := 2 ^ 32 - 1

/-- The decoder of programmed-once counters from one word on. -/
def decodeProgramOnceWordsFrom : List Byte → Nat → Bool → Except Error Nat
  | a :: b :: c :: d :: rest, generation, sawErased =>
      if fromLE [a, b, c, d] = 0 then
        if sawErased then .error .storage
        else match checkedAdd64 generation 1 with
          | none => .error .storage
          | some next => decodeProgramOnceWordsFrom rest next sawErased
      else if fromLE [a, b, c, d] = u32Max then decodeProgramOnceWordsFrom rest generation true
      else .error .storage
  | _, generation, _ => .ok generation

/-- Every consumed word must be fully programmed, and all consumed words must
precede all erased words. -/
def decodeProgramOnceWords (bytes : List Byte) : Except Error Nat :=
  if bytes.length % 4 ≠ 0 then .error .storage
  else decodeProgramOnceWordsFrom bytes 0 false

/-- The erased word that advances a counter by exactly one. Addresses have 32
bits on this board. -/
def nextProgramOnceWord (bytes : List Byte) (generation : Nat) : Except Error Nat := do
  let current ← decodeProgramOnceWords bytes
  failIf (checkedAdd64 current 1 ≠ some generation) .storage
  failIf (generation = 0) .storage
  let index := generation - 1
  failIf (2 ^ 32 ≤ index) .storage
  let offset := index * 4
  failIf (2 ^ 32 ≤ offset) .storage
  failIf (2 ^ 32 ≤ offset + 4 ∨ bytes.length < offset + 4) .quota
  pure offset

/-- How programming one word ends. An interrupted pulse keeps the bits of its
mask, whatever they are. -/
inductive Pulse where
  | complete
  | interrupted (kept : Nat → Byte)

def Pulse.isInterrupted : Pulse → Bool
  | .complete => false
  | .interrupted _ => true

/-- The pulse leaves its word neither erased nor fully programmed. -/
def Pulse.Tears : Pulse → Prop
  | .complete => False
  | .interrupted kept => ¬(∀ i < 4, kept i = 0) ∧ ¬∀ i < 4, kept i = 0xff

/-- The flash page of one counter. -/
structure Page where
  bytes : Nat → Byte

abbrev PageM := EStateM Error Page

/-- Program the word at `offset` to zero. -/
def writeZero (pulse : Pulse) (offset : Nat) (counter : Nat → Byte) : Nat → Byte := fun i =>
  if offset ≤ i ∧ i < offset + 4 then
    match pulse with
    | .complete => 0
    | .interrupted kept => counter i &&& kept (i - offset)
  else counter i

/-- The size of a counter's page. -/
@[irreducible] def counterBytes : Nat := 4096

theorem counterBytes_eq : counterBytes = 4096 := by
  simp only [counterBytes]

def wordCounter (counter : Nat → Byte) : Except Error Nat :=
  decodeProgramOnceWords (range counter 0 counterBytes)

/-- A step of a counter. A pulse that does not end leaves the call without a
result, whether the power is lost or the controller stays busy. -/
def advanceWordCounter (generation : Nat) (pulse : Pulse) : PageM Unit := do
  let page ← get
  let wordOffset ← readOnly (nextProgramOnceWord (range page.bytes 0 counterBytes) generation)
  failIf (fromLE (range page.bytes wordOffset 4) ≠ u32Max) .storage
  modify fun page => ⟨writeZero pulse wordOffset page.bytes⟩
  failIf pulse.isInterrupted .native
  let page ← get
  failIf (fromLE (range page.bytes wordOffset 4) ≠ 0) .storage

/-- The two counter pages. -/
structure Nvm where
  monotonic : Page
  nonces : Page

namespace Nvm

abbrev NvmM := EStateM Error Nvm

def erased : Nvm := ⟨⟨fun _ => 0xff⟩, ⟨fun _ => 0xff⟩⟩

def monotonicCapacity : Nat := counterBytes / 4

def nonceCapacity : Nat := counterBytes / 4

def monotonicGeneration (nvm : Nvm) : Except Error Nat := wordCounter nvm.monotonic.bytes

def nonceGeneration (nvm : Nvm) : Except Error Nat := wordCounter nvm.nonces.bytes

/-- Run a step on the anchor's page. -/
def onMonotonic {α : Type} (step : PageM α) : NvmM α := fun nvm =>
  match step nvm.monotonic with
  | .ok a page => .ok a { nvm with monotonic := page }
  | .error e page => .error e { nvm with monotonic := page }

/-- Run a step on the nonce page. -/
def onNonces {α : Type} (step : PageM α) : NvmM α := fun nvm =>
  match step nvm.nonces with
  | .ok a page => .ok a { nvm with nonces := page }
  | .error e page => .error e { nvm with nonces := page }

def advanceMonotonic (generation : Nat) (pulse : Pulse) : NvmM Unit :=
  onMonotonic (advanceWordCounter generation pulse)

def reserveNonce (pulse : Pulse) : NvmM Nat := do
  let nvm ← get
  let current ← readOnly nvm.nonceGeneration
  let next ← orFail (checkedAdd64 current 1) .quota
  onNonces (advanceWordCounter next pulse)
  pure next

end Nvm

end MicroCard.Board
