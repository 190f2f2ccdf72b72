import MicroCard.Card.Registry
import MicroCard.Library.Checks
import Mathlib.Data.List.Count

/-! Immutable image slots. Only an authenticated metadata commit activates a descriptor;
staging writes to a slot that neither committed metadata nor a pinned image names. -/
namespace MicroCard.Card

open Bytes Cbor CrashTriple Codec

section Flash

/-- What one call of the image flash does: nothing special, or fail and leave the slot it
addresses in some state. -/
abbrev SlotFault := Option (Error × (Nat → Byte))

/-- Independently erasable slots. `touched` records every slot that was erased or
programmed. -/
structure ImageFlash where
  slotCount : Nat
  slotSize : Nat
  slots : Nat → Nat → Byte
  faults : Nat → SlotFault
  touched : List Nat

namespace ImageFlash

/-- The flash after one more call. -/
def next (flash : ImageFlash) : ImageFlash := { flash with faults := fun n => flash.faults (n + 1) }

/-- The flash after a write to a slot. -/
def wrote (flash : ImageFlash) (slot : Nat) (content : Nat → Byte) : ImageFlash :=
  { flash.next with
    slots := fun s => if s = slot then content else flash.slots s
    touched := flash.touched ++ [slot] }

/-- A write to one slot. A failed one leaves that slot in any state. -/
def write (slot : Nat) (update : (Nat → Byte) → Nat → Byte) : EStateM Error ImageFlash Unit := fun flash =>
  match flash.faults 0 with
  | some (e, left) => .error e (flash.wrote slot left)
  | none => .ok () (flash.wrote slot (update (flash.slots slot)))

def erase (slot : Nat) : EStateM Error ImageFlash Unit := write slot fun _ _ => 0xff

/-- Programming only clears bits. -/
def programmed (offset : Nat) (bytes : List Byte) (content : Nat → Byte) : Nat → Byte := fun i =>
  if offset ≤ i ∧ i < offset + bytes.length then content i &&& bytes.getD (i - offset) 0 else content i

def program (slot offset : Nat) (bytes : List Byte) : EStateM Error ImageFlash Unit :=
  write slot (programmed offset bytes)

/-- Reads reflect completed writes, or fail. -/
def readRange (slot start stop : Nat) : EStateM Error ImageFlash (List Byte) := fun flash =>
  match flash.faults 0 with
  | some (e, _) => .error e flash.next
  | none =>
      if slot < flash.slotCount ∧ start ≤ stop ∧ stop ≤ flash.slotSize then
        .ok (range (flash.slots slot) start (stop - start)) flash.next
      else .error .bounds flash.next

end ImageFlash

end Flash

section Store

/-- The store: its flash, how often each slot is pinned, and how many borrows of the
flash are out. -/
structure Images where
  flash : ImageFlash
  pins : Nat → Nat
  borrowed : Nat

/-- A call of the store: which hashes fail, and the answers to polls. -/
structure ImageCall where
  images : Images
  hashFaults : Nat → Option Error
  cancel : Nat → Bool

abbrev ImageM := EStateM Error ImageCall

variable {α : Type} (sha256 : List Byte → Fixed 32)

def onFlash (action : EStateM Error ImageFlash α) : ImageM α := fun call =>
  match action call.images.flash with
  | .ok a flash => .ok a { call with images.flash := flash }
  | .error e flash => .error e { call with images.flash := flash }

/-- Borrow the flash for writing; that needs the only borrow. -/
def withFlashMut (action : EStateM Error ImageFlash α) : ImageM α := do
  let call ← get
  failIf (call.images.borrowed ≠ 0) .busy
  onFlash action

/-- The provider's hash, unless it fails. -/
def hash (bytes : List Byte) : ImageM (Fixed 32) := fun call =>
  match call.hashFaults 0 with
  | some e => .error e { call with hashFaults := fun n => call.hashFaults (n + 1) }
  | none => .ok (sha256 bytes) { call with hashFaults := fun n => call.hashFaults (n + 1) }

def stopIfCancelled : ImageM Unit := fun call =>
  if call.cancel 0 then .error .cancelled { call with cancel := fun n => call.cancel (n + 1) }
  else .ok () { call with cancel := fun n => call.cancel (n + 1) }

def Descriptor.validate (descriptor : Descriptor) (slotCount slotSize : Nat) : Except Error Unit :=
  failIf (¬(2 ≤ slotCount ∧ slotCount ≤ 64) ∨ slotCount ≤ descriptor.slot.toNat ∨ descriptor.length = 0 ∨
    slotSize < descriptor.length.toNat) .bounds

/-- Authenticate the complete descriptor before lending its bytes. -/
def Descriptor.readVerified (descriptor : Descriptor) : ImageM (List Byte) := do
  let call ← get
  readOnly (descriptor.validate call.images.flash.slotCount call.images.flash.slotSize)
  let bytes ← onFlash (ImageFlash.readRange descriptor.slot.toNat 0 descriptor.length.toNat)
  failIf (bytes.length ≠ descriptor.length.toNat) .storage
  let digest ← hash sha256 bytes
  failIf (digest ≠ descriptor.digest) .authentication
  pure bytes

end Store

section Staging

variable (sha256 : List Byte → Fixed 32)

/-- The bit of a slot. -/
def slotBit (slot : Nat) : BitVec 64 := 1#64 <<< slot

def pinnedSlots (images : Images) : BitVec 64 :=
  (List.range 64).foldl (fun occupied slot => if images.pins slot ≠ 0 then occupied ||| slotBit slot else occupied) 0#64

def protectSlot (images : Images) (occupied : BitVec 64) (descriptor : Descriptor) : Except Error (BitVec 64) := do
  descriptor.validate images.flash.slotCount images.flash.slotSize
  pure (occupied ||| slotBit descriptor.slot.toNat)

/-- The slots that staging must leave alone. -/
def occupiedSlots (images : Images) (protected' : List Descriptor) : Except Error (BitVec 64) :=
  protected'.foldlM (protectSlot images) (pinnedSlots images)

/-- The first slot that is free and large enough. -/
def candidate (images : Images) (occupied : BitVec 64) (length : Nat) : Option Nat :=
  (List.range images.flash.slotCount).find? fun slot =>
    occupied &&& slotBit slot = 0#64 ∧ length ≤ images.flash.slotSize

def programChunk (slot : Nat) (image : List Byte) (chunk : Nat) : ImageM Unit := do
  stopIfCancelled
  withFlashMut (ImageFlash.program slot (chunk * 256) ((image.drop (chunk * 256)).take 256))

/-- Reuse a protected image, once its physical bytes are verified. -/
def reuseImage (descriptor : Descriptor) (image : List Byte) : ImageM Descriptor := do
  let bytes ← descriptor.readVerified sha256
  failIf (bytes ≠ image) .authentication
  stopIfCancelled
  pure descriptor

/-- Write an image to a free slot and verify it there. -/
def writeImage (slot : Nat) (image : List Byte) (digest : Fixed 32) : ImageM Descriptor := do
  stopIfCancelled
  withFlashMut (ImageFlash.erase slot)
  (List.range ((image.length + 255) / 256)).forM (programChunk slot image)
  let descriptor : Descriptor := ⟨UInt8.ofNat slot, UInt32.ofNat image.length, digest⟩
  let _ ← descriptor.readVerified sha256
  stopIfCancelled
  pure descriptor

/-- Cancellation can abandon an unreferenced candidate, never a protected image. -/
def stageWithCancel (image : List Byte) (protected' : List Descriptor) : ImageM Descriptor := do
  stopIfCancelled
  failIf (2 ^ 32 ≤ image.length) .quota
  failIf (image = []) .format
  let call ← get
  let occupied ← readOnly (occupiedSlots call.images protected')
  let digest ← hash sha256 image
  match protected'.find? fun d => d.length.toNat = image.length ∧ d.digest = digest with
  | some descriptor => reuseImage sha256 descriptor image
  | none => do
      let slot ← orFail (candidate call.images occupied image.length) .quota
      writeImage sha256 slot image digest

end Staging

section Pins

variable (sha256 : List Byte → Fixed 32)

/-- A retained image prevents reclamation. `bytes` is what it held when it was
pinned. -/
structure PinnedImage where
  descriptor : Descriptor
  start : Nat
  stop : Nat
  bytes : List Byte
  deriving DecidableEq

def setPins (slot count : Nat) : ImageM Unit :=
  modify fun call => { call with images.pins := fun s => if s = slot then count else call.images.pins s }

def pin (descriptor : Descriptor) (start stop : Nat) : ImageM PinnedImage := do
  let bytes ← descriptor.readVerified sha256
  failIf (stop ≤ start ∨ bytes.length < stop) .bounds
  let call ← get
  failIf (2 ^ 16 ≤ call.images.pins descriptor.slot.toNat + 1) .quota
  setPins descriptor.slot.toNat (call.images.pins descriptor.slot.toNat + 1)
  pure ⟨descriptor, start, stop, (bytes.drop start).take (stop - start)⟩

/-- Dropping a pinned image. -/
def unpin (pinned : PinnedImage) : ImageM Unit := do
  let call ← get
  setPins pinned.descriptor.slot.toNat (call.images.pins pinned.descriptor.slot.toNat - 1)

end Pins

section Runs

variable (sha256 : List Byte → Fixed 32)

/-- The store with its live pins, after any operations. Between any two of them the
environment decides anew which calls will fail, and borrows come and go. -/
inductive Images.Reachable : ImageCall → List PinnedImage → Prop where
  | new (flash : ImageFlash) (hashFaults : Nat → Option Error) (cancel : Nat → Bool)
      (slots : 2 ≤ flash.slotCount ∧ flash.slotCount ≤ 64) :
      Reachable ⟨⟨flash, fun _ => 0, 0⟩, hashFaults, cancel⟩ []
  | environment {call : ImageCall} {live : List PinnedImage} (reachable : Reachable call live)
      (faults : Nat → SlotFault) (hashFaults : Nat → Option Error) (cancel : Nat → Bool) (borrowed : Nat) :
      Reachable ⟨{ call.images with flash.faults := faults, borrowed := borrowed }, hashFaults, cancel⟩ live
  | pin {call after : ImageCall} {live : List PinnedImage} (reachable : Reachable call live) {descriptor : Descriptor}
      {start stop : Nat} {pinned : PinnedImage}
      (run : Card.pin sha256 descriptor start stop call = .ok pinned after) : Reachable after (pinned :: live)
  | refused {call after : ImageCall} {live : List PinnedImage} (reachable : Reachable call live)
      {descriptor : Descriptor} {start stop : Nat} {e : Error}
      (run : Card.pin sha256 descriptor start stop call = .error e after) : Reachable after live
  | unpin {call : ImageCall} {live : List PinnedImage} (reachable : Reachable call live) {pinned : PinnedImage}
      (held : pinned ∈ live) : Reachable (final (Card.unpin pinned call)) (live.erase pinned)
  | stage {call : ImageCall} {live : List PinnedImage} (reachable : Reachable call live) (image : List Byte)
      (protected' : List Descriptor) : Reachable (final (stageWithCancel sha256 image protected' call)) live

end Runs

section Occupied

theorem slotBit_self {slot : Nat} (h : slot < 64) : (slotBit slot).getLsbD slot = true := by
  simp [slotBit, h]

theorem pinnedSlots_bit {images : Images} {slot : Nat} (h : slot < 64) (hPinned : images.pins slot ≠ 0) :
    (pinnedSlots images).getLsbD slot = true := by
  have hFold : ∀ (slots : List Nat) (occupied : BitVec 64), (occupied.getLsbD slot = true ∨ slot ∈ slots) →
      (slots.foldl (fun occupied slot => if images.pins slot ≠ 0 then occupied ||| slotBit slot else occupied)
        occupied).getLsbD slot = true := by
    intro slots
    induction slots with
    | nil => exact fun occupied hEither => hEither.resolve_right (by simp)
    | cons s rest ih =>
        intro occupied hEither
        rw [List.foldl_cons]
        apply ih
        by_cases hs : s = slot
        · subst hs
          rw [if_pos hPinned, BitVec.getLsbD_or, slotBit_self h, Bool.or_true]
          exact .inl rfl
        · rcases hEither with hBit | hMem
          · split
            · rw [BitVec.getLsbD_or, hBit, Bool.true_or]
              exact .inl rfl
            · exact .inl hBit
          · exact .inr ((List.mem_cons.1 hMem).resolve_left fun hEq => hs hEq.symm)
  exact hFold _ _ (.inr (List.mem_range.2 h))

theorem descriptor_ok {descriptor : Descriptor} {slotCount slotSize : Nat} {u : Unit}
    (h : descriptor.validate slotCount slotSize = .ok u) :
    slotCount ≤ 64 ∧ descriptor.slot.toNat < slotCount ∧ 0 < descriptor.length.toNat ∧
      descriptor.length.toNat ≤ slotSize := by
  simp only [Descriptor.validate, Checks.failIf_ok, not_or, not_not, not_le, not_lt] at h
  obtain ⟨hCount, hSlot, hLength, hFits⟩ := h
  refine ⟨hCount.2, hSlot, Nat.pos_of_ne_zero fun hZero => hLength ?_, hFits⟩
  exact UInt32.toNat_inj.1 hZero

/-- Staging knows of every protected and every pinned slot. -/
theorem occupiedSlots_ok {images : Images} {protected' : List Descriptor} {occupied : BitVec 64}
    (h : occupiedSlots images protected' = .ok occupied) :
    (∀ d ∈ protected', occupied.getLsbD d.slot.toNat = true) ∧
      ∀ slot < 64, images.pins slot ≠ 0 → occupied.getLsbD slot = true := by
  have hFold : ∀ (descriptors : List Descriptor) (start : BitVec 64),
      descriptors.foldlM (protectSlot images) start = .ok occupied →
      (∀ d ∈ descriptors, occupied.getLsbD d.slot.toNat = true) ∧
        ∀ slot, start.getLsbD slot = true → occupied.getLsbD slot = true := by
    intro descriptors
    induction descriptors with
    | nil =>
        intro start hRun
        rw [List.foldlM_nil, Checks.pure_ok] at hRun
        subst hRun
        exact ⟨fun _ hd => (nomatch hd), fun _ hBit => hBit⟩
    | cons d rest ih =>
        intro start hRun
        simp only [List.foldlM_cons, protectSlot, Checks.bind_ok, Checks.pure_ok] at hRun
        obtain ⟨_, ⟨_, hValid, rfl⟩, hRest⟩ := hRun
        obtain ⟨hOthers, hKept⟩ := ih _ hRest
        obtain ⟨hCount, hSlot, -⟩ := descriptor_ok hValid
        constructor
        · intro d' hd'
          rcases List.mem_cons.1 hd' with rfl | hd'
          · apply hKept
            rw [BitVec.getLsbD_or, slotBit_self (by omega), Bool.or_true]
          · exact hOthers d' hd'
        · intro slot hBit
          apply hKept
          rw [BitVec.getLsbD_or, hBit, Bool.true_or]
  obtain ⟨hProtected, hKept⟩ := hFold _ _ h
  exact ⟨hProtected, fun slot hSlot hPinned => hKept slot (pinnedSlots_bit hSlot hPinned)⟩

/-- The slot that is chosen is none of them. -/
theorem candidate_free {images : Images} {occupied : BitVec 64} {length slot : Nat}
    (h : candidate images occupied length = some slot) (hCount : images.flash.slotCount ≤ 64) :
    slot < images.flash.slotCount ∧ length ≤ images.flash.slotSize ∧ occupied.getLsbD slot = false := by
  have hMem := List.mem_range.1 (List.mem_of_find?_eq_some h)
  obtain ⟨hBit, hLength⟩ : occupied &&& slotBit slot = 0#64 ∧ length ≤ images.flash.slotSize := by
    simpa using List.find?_some h
  refine ⟨hMem, hLength, ?_⟩
  have hAnd := congrArg (fun mask => BitVec.getLsbD mask slot) hBit
  simpa [slotBit_self (show slot < 64 by omega)] using hAnd

end Occupied

section Spared

/-- Only free slots were written to, and the store is the same otherwise. -/
structure Spares (Free : Nat → Prop) (before after : ImageCall) : Prop where
  count : after.images.flash.slotCount = before.images.flash.slotCount
  size : after.images.flash.slotSize = before.images.flash.slotSize
  pins : after.images.pins = before.images.pins
  slots : ∀ slot, ¬Free slot → after.images.flash.slots slot = before.images.flash.slots slot
  touched : ∃ more, after.images.flash.touched = before.images.flash.touched ++ more ∧
    ∀ slot ∈ more, Free slot

variable {Free : Nat → Prop} {before middle after : ImageCall} {α β : Type}

theorem Spares.refl (call : ImageCall) : Spares Free call call :=
  ⟨rfl, rfl, rfl, fun _ _ => rfl, [], (List.append_nil _).symm, fun _ h => (nomatch h)⟩

theorem Spares.trans (h : Spares Free before middle) (h' : Spares Free middle after) :
    Spares Free before after := by
  obtain ⟨more, hMore, hFree⟩ := h.touched
  obtain ⟨more', hMore', hFree'⟩ := h'.touched
  refine ⟨h'.count.trans h.count, h'.size.trans h.size, h'.pins.trans h.pins, ?_, more ++ more', ?_, ?_⟩
  · exact fun slot hBit => (h'.slots slot hBit).trans (h.slots slot hBit)
  · rw [hMore', hMore, List.append_assoc]
  · exact fun slot hMem => (List.mem_append.1 hMem).elim (hFree slot) (hFree' slot)

/-- A program of the store that writes to free slots only, wherever it starts. -/
def Sparing (Free : Nat → Prop) (program : ImageM α) : Prop :=
  ∀ call, Triple (fun c => c = call) program (fun _ => Spares Free call) fun _ => Spares Free call

theorem Sparing.bind {first : ImageM α} {next : α → ImageM β} (hFirst : Sparing Free first)
    (hNext : ∀ a, Sparing Free (next a)) : Sparing Free (first >>= next) := by
  intro call
  apply Triple.bind (hFirst call)
  intro a
  apply Triple.of_state
  intro middle hMiddle
  exact (hNext a middle).conseq (fun _ h => h) (fun _ _ h => hMiddle.trans h) fun _ _ h => hMiddle.trans h

theorem Sparing.ret (a : α) : Sparing Free (pure a : ImageM α) := fun _ _ h => h ▸ Spares.refl _

theorem Sparing.get {next : ImageCall → ImageM α} (h : ∀ call, Sparing Free (next call)) :
    Sparing Free (get >>= next) :=
  fun call => Triple.get fun _ hEq => hEq ▸ h _ call

theorem Sparing.readOnly (result : Except Error α) : Sparing Free (readOnly result : ImageM α) := by
  intro call
  apply Triple.readOnly
  · exact fun _ _ _ h => h ▸ Spares.refl _
  · exact fun _ _ _ h => h ▸ Spares.refl _

theorem Sparing.failIf (c : Prop) [Decidable c] (e : Error) :
    Sparing Free (CrashTriple.failIf c e : ImageM Unit) := by
  unfold CrashTriple.failIf
  split
  · exact fun _ _ h => h ▸ Spares.refl _
  · exact Sparing.ret ()

theorem hash_spares (sha256 : List Byte → Fixed 32) (bytes : List Byte) : Sparing Free (hash sha256 bytes) := by
  intro call c hc
  subst hc
  unfold hash
  cases c.hashFaults 0 with
  | some e => exact ⟨rfl, rfl, rfl, fun _ _ => rfl, [], (List.append_nil _).symm, fun _ h => (nomatch h)⟩
  | none => exact ⟨rfl, rfl, rfl, fun _ _ => rfl, [], (List.append_nil _).symm, fun _ h => (nomatch h)⟩

theorem stopIfCancelled_spares : Sparing Free stopIfCancelled := by
  intro call c hc
  subst hc
  unfold stopIfCancelled
  by_cases hStop : c.cancel 0 = true
  · rw [if_pos hStop]
    exact ⟨rfl, rfl, rfl, fun _ _ => rfl, [], (List.append_nil _).symm, fun _ h => (nomatch h)⟩
  · rw [if_neg hStop]
    exact ⟨rfl, rfl, rfl, fun _ _ => rfl, [], (List.append_nil _).symm, fun _ h => (nomatch h)⟩

theorem readRange_spares (slot start stop : Nat) :
    Sparing Free (onFlash (ImageFlash.readRange slot start stop)) := by
  intro call c hc
  subst hc
  have hNext : Spares Free c { c with images.flash := c.images.flash.next } :=
    ⟨rfl, rfl, rfl, fun _ _ => rfl, [], (List.append_nil _).symm, fun _ h => (nomatch h)⟩
  unfold onFlash ImageFlash.readRange
  cases c.images.flash.faults 0 with
  | some fault => exact hNext
  | none =>
      simp only
      split_ifs
      · exact hNext
      · exact hNext

/-- A write to a free slot. -/
theorem write_spares {slot : Nat} (hFree : Free slot) (update : (Nat → Byte) → Nat → Byte) :
    Sparing Free (withFlashMut (ImageFlash.write slot update)) := by
  have hWrote : ∀ (call : ImageCall) (content : Nat → Byte),
      Spares Free call { call with images.flash := call.images.flash.wrote slot content } := by
    intro call content
    refine ⟨rfl, rfl, rfl, fun s hs => ?_, [slot], rfl, fun s hs => ?_⟩
    · apply if_neg
      rintro rfl
      exact hs hFree
    · rw [List.mem_singleton.1 hs]
      exact hFree
  apply Sparing.get
  intro call
  apply Sparing.bind (Sparing.failIf _ _)
  intro _ call c hc
  subst hc
  unfold onFlash ImageFlash.write
  cases c.images.flash.faults 0 with
  | some fault => exact hWrote c _
  | none => exact hWrote c _

theorem readVerified_spares (sha256 : List Byte → Fixed 32) (descriptor : Descriptor) :
    Sparing Free (descriptor.readVerified sha256) := by
  apply Sparing.get
  intro call
  apply Sparing.bind (Sparing.readOnly _)
  intro _
  apply Sparing.bind (readRange_spares _ _ _)
  intro bytes
  apply Sparing.bind (Sparing.failIf _ _)
  intro _
  apply Sparing.bind (hash_spares _ _)
  intro digest
  apply Sparing.bind (Sparing.failIf _ _)
  intro _
  exact Sparing.ret _

theorem reuseImage_spares (sha256 : List Byte → Fixed 32) (descriptor : Descriptor) (image : List Byte) :
    Sparing Free (reuseImage sha256 descriptor image) := by
  apply Sparing.bind (readVerified_spares _ _)
  intro bytes
  apply Sparing.bind (Sparing.failIf _ _)
  intro _
  exact Sparing.bind stopIfCancelled_spares fun _ => Sparing.ret _

theorem Sparing.forM {items : List α} {body : α → ImageM PUnit} (h : ∀ a, Sparing Free (body a)) :
    Sparing Free (items.forM body) := by
  induction items with
  | nil => exact Sparing.ret _
  | cons item rest ih => exact Sparing.bind (h item) fun _ => ih

theorem writeImage_spares (sha256 : List Byte → Fixed 32) {slot : Nat} (hFree : Free slot)
    (image : List Byte) (digest : Fixed 32) : Sparing Free (writeImage sha256 slot image digest) := by
  apply Sparing.bind stopIfCancelled_spares
  intro _
  apply Sparing.bind (write_spares hFree _)
  intro _
  apply Sparing.bind (Sparing.forM fun chunk => ?_)
  · intro _
    apply Sparing.bind (readVerified_spares _ _)
    intro _
    exact Sparing.bind stopIfCancelled_spares fun _ => Sparing.ret _
  · exact Sparing.bind stopIfCancelled_spares fun _ => write_spares hFree _

/-- No protected descriptor and no pin names this slot. -/
def IsFree (pins : Nat → Nat) (protected' : List Descriptor) (slot : Nat) : Prop :=
  (∀ d ∈ protected', d.slot.toNat ≠ slot) ∧ pins slot = 0

/-- The slot that staging chooses is free. -/
theorem candidate_isFree {images : Images} {protected' : List Descriptor} {occupied : BitVec 64} {length slot : Nat}
    (hOccupied : occupiedSlots images protected' = .ok occupied) (h : candidate images occupied length = some slot)
    (hCount : images.flash.slotCount ≤ 64) : IsFree images.pins protected' slot := by
  obtain ⟨hProtected, hPinned⟩ := occupiedSlots_ok hOccupied
  obtain ⟨hSlot, -, hFree⟩ := candidate_free h hCount
  constructor
  · rintro d hd rfl
    rw [hProtected d hd] at hFree
    cases hFree
  · by_contra hPins
    rw [hPinned slot (by omega) hPins] at hFree
    cases hFree

/-- Staging writes only to slots that no protected descriptor and no pin names. -/
theorem stageWithCancel_spares (sha256 : List Byte → Fixed 32) (image : List Byte) (protected' : List Descriptor)
    {call : ImageCall} (hCount : call.images.flash.slotCount ≤ 64) :
    Triple (fun c => c = call) (stageWithCancel sha256 image protected')
      (fun _ => Spares (IsFree call.images.pins protected') call)
      fun _ => Spares (IsFree call.images.pins protected') call := by
  have hAfter : ∀ {α : Type} {program : ImageM α}, Sparing (IsFree call.images.pins protected') program →
      Triple (Spares (IsFree call.images.pins protected') call) program
        (fun _ => Spares (IsFree call.images.pins protected') call)
        fun _ => Spares (IsFree call.images.pins protected') call := by
    intro α program hProgram
    apply Triple.of_state
    intro middle hMiddle
    exact (hProgram middle).conseq (fun _ h => h) (fun _ _ h => hMiddle.trans h) fun _ _ h => hMiddle.trans h
  apply Triple.bind (stopIfCancelled_spares call)
  intro _
  apply Triple.bind (hAfter (Sparing.failIf _ _))
  intro _
  apply Triple.bind (hAfter (Sparing.failIf _ _))
  intro _
  apply Triple.get
  intro middle hMiddle
  apply Triple.readOnly_bind
  · intro occupied hOccupied
    apply Triple.bind (((hAfter (hash_spares sha256 image))).at hMiddle)
    intro digest
    split
    · exact hAfter (reuseImage_spares _ _ _)
    · apply Triple.orFail_bind
      · exact fun _ _ h => h
      intro slot hSlot
      apply hAfter
      apply writeImage_spares
      rw [← hMiddle.pins]
      exact candidate_isFree hOccupied hSlot (by rw [hMiddle.count]; exact hCount)
  · intro e _ c hc
    rw [hc]
    exact hMiddle

end Spared

section Content

variable {α : Type} {sha256 : List Byte → Fixed 32}

/-- What a program that writes nowhere keeps: a condition on the slots. -/
theorem Sparing.keeps {program : ImageM α} (h : Sparing (fun _ => False) program) (P : (Nat → Nat → Byte) → Prop) :
    Invariant (fun c => P c.images.flash.slots) program := by
  apply Triple.of_state
  intro call hCall
  have hSame : ∀ c, Spares (fun _ => False) call c → P c.images.flash.slots := by
    intro c hc
    rw [show c.images.flash.slots = call.images.flash.slots from funext fun slot => hc.slots slot id]
    exact hCall
  exact (h call).conseq (fun _ h => h) (fun _ c hc => hSame c hc) fun _ c hc => hSame c hc

/-- A verified read returns what the slot holds, and that has the descriptor's digest. -/
theorem readVerified_ok {descriptor : Descriptor} {call after : ImageCall} {bytes : List Byte}
    (h : descriptor.readVerified sha256 call = .ok bytes after) :
    after.images.flash.slots = call.images.flash.slots ∧ after.images.pins = call.images.pins ∧
      descriptor.slot.toNat < call.images.flash.slotCount ∧
      bytes = range (call.images.flash.slots descriptor.slot.toNat) 0 descriptor.length.toNat ∧
      sha256 bytes = descriptor.digest := by
  simp only [Descriptor.readVerified, bind_ok, get_ok, readOnly_ok, failIf_ok, pure_ok, not_not] at h
  obtain ⟨_, call, ⟨rfl, rfl⟩, _, _, ⟨hValid, rfl⟩, read, middle, hRead, _, _, ⟨-, rfl⟩, digest, _, hHash, _, _,
    ⟨hDigest, rfl⟩, rfl, rfl⟩ := h
  obtain ⟨-, hSlot, -⟩ := descriptor_ok hValid
  have hBytes : read = range (call.images.flash.slots descriptor.slot.toNat) 0 descriptor.length.toNat ∧
      middle = { call with images.flash := call.images.flash.next } := by
    unfold onFlash ImageFlash.readRange at hRead
    cases hFault : call.images.flash.faults 0 with
    | some fault =>
        rw [hFault] at hRead
        cases hRead
    | none =>
        rw [hFault] at hRead
        simp only at hRead
        split_ifs at hRead
        cases hRead
        exact ⟨rfl, rfl⟩
  obtain ⟨rfl, rfl⟩ := hBytes
  unfold hash at hHash
  split at hHash
  · cases hHash
  · cases hHash
    exact ⟨rfl, rfl, hSlot, rfl, hDigest⟩

/-- The slot holds the first part of the image and is erased behind it. -/
def WrittenTo (slot : Nat) (image : List Byte) (chunks : Nat) (slots : Nat → Nat → Byte) : Prop :=
  ∀ i, slots slot i = if i < chunks * 256 ∧ i < image.length then image.getD i 0 else 0xff

theorem programmed_chunk {slot chunk : Nat} {image : List Byte} {slots : Nat → Nat → Byte}
    (h : WrittenTo slot image chunk slots) (i : Nat) :
    ImageFlash.programmed (chunk * 256) ((image.drop (chunk * 256)).take 256) (slots slot) i =
      if i < (chunk + 1) * 256 ∧ i < image.length then image.getD i 0 else 0xff := by
  have hLength : ((image.drop (chunk * 256)).take 256).length = min 256 (image.length - chunk * 256) := by
    rw [List.length_take, List.length_drop]
  unfold ImageFlash.programmed
  rw [hLength, h i]
  by_cases hInside : chunk * 256 ≤ i ∧ i < chunk * 256 + min 256 (image.length - chunk * 256)
  · have hByte : ((image.drop (chunk * 256)).take 256).getD (i - chunk * 256) 0 = image.getD i 0 := by
      rw [List.getD_eq_getElem _ _ (by omega), List.getElem_take, List.getElem_drop,
        List.getD_eq_getElem _ _ (by omega)]
      congr 1
      omega
    have hOld : ¬(i < chunk * 256 ∧ i < image.length) := by omega
    have hNew : i < (chunk + 1) * 256 ∧ i < image.length := by omega
    rw [if_pos hInside, if_neg hOld, if_pos hNew, hByte]
    exact UInt8.neg_one_and
  · have hSame : (i < chunk * 256 ∧ i < image.length) ↔ (i < (chunk + 1) * 256 ∧ i < image.length) := by omega
    rw [if_neg hInside]
    exact if_congr hSame rfl rfl

theorem write_content (slot : Nat) (update : (Nat → Byte) → Nat → Byte) (P Q : (Nat → Nat → Byte) → Prop)
    (h : ∀ slots, P slots → Q fun s => if s = slot then update (slots slot) else slots s) :
    Triple (fun c => P c.images.flash.slots) (withFlashMut (ImageFlash.write slot update))
      (fun _ c => Q c.images.flash.slots) fun _ _ => True := by
  apply Triple.get
  intro call hCall
  apply Triple.failIf_bind fun _ _ _ => trivial
  intro _ c hc
  subst hc
  unfold onFlash ImageFlash.write
  cases c.images.flash.faults 0 with
  | some fault => trivial
  | none => exact h _ hCall

/-- After the last chunk the slot holds the image. -/
theorem programChunks_content (slot : Nat) (image : List Byte) (count : Nat) :
    Triple (fun c => WrittenTo slot image 0 c.images.flash.slots)
      ((List.range count).forM (programChunk slot image))
      (fun _ c => WrittenTo slot image count c.images.flash.slots) fun _ _ => True := by
  have hLoop : Triple (fun c => WrittenTo slot image 0 c.images.flash.slots)
      ((List.range count).forM (programChunk slot image))
      (fun _ c => WrittenTo slot image (List.range count).length c.images.flash.slots) fun _ _ => True := by
    apply Triple.forM fun k (c : ImageCall) => WrittenTo slot image k c.images.flash.slots
    intro k hk
    rw [List.getElem_range]
    apply Triple.bind (Q := fun _ c => WrittenTo slot image k c.images.flash.slots)
    · exact (stopIfCancelled_spares.keeps (WrittenTo slot image k)).conseq (fun _ h => h) (fun _ _ h => h)
        fun _ _ _ => trivial
    · intro _
      apply write_content
      intro slots hSlots i
      simp only [reduceIte]
      exact programmed_chunk hSlots i
  rwa [List.length_range] at hLoop

/-- What the slot holds once all of its chunks are written. -/
theorem WrittenTo.range {slot : Nat} {image : List Byte} {slots : Nat → Nat → Byte}
    (h : WrittenTo slot image ((image.length + 255) / 256) slots) : range (slots slot) 0 image.length = image := by
  rw [range_eq_iff]
  refine ⟨rfl, fun i hi => ?_⟩
  rw [Nat.zero_add, h i, if_pos ⟨by omega, hi⟩, List.getD_eq_getElem _ _ hi]

/-- Reading the slot of this descriptor yields the image, of its length and with its
digest. -/
structure Stored (sha256 : List Byte → Fixed 32) (image : List Byte) (descriptor : Descriptor) (call : ImageCall) : Prop
    where
  slot : descriptor.slot.toNat < call.images.flash.slotCount
  content : range (call.images.flash.slots descriptor.slot.toNat) 0 descriptor.length.toNat = image
  length : descriptor.length.toNat = image.length
  digest : descriptor.digest = sha256 image

theorem Stored.of_spares {image : List Byte} {descriptor : Descriptor} {call after : ImageCall}
    (h : Stored sha256 image descriptor call) (hSpares : Spares (fun _ => False) call after) :
    Stored sha256 image descriptor after := by
  refine ⟨by rw [hSpares.count]; exact h.slot, ?_, h.length, h.digest⟩
  rw [hSpares.slots _ id]
  exact h.content

/-- A program that writes nowhere keeps what is stored. -/
theorem Sparing.stored {program : ImageM α} (h : Sparing (fun _ => False) program) (image : List Byte)
    (descriptor : Descriptor) :
    Triple (Stored sha256 image descriptor) program (fun _ => Stored sha256 image descriptor) fun _ _ => True := by
  apply Triple.of_state
  intro call hCall
  exact (h call).conseq (fun _ h => h) (fun _ c hc => hCall.of_spares hc) fun _ _ _ => trivial

theorem reuseImage_stored (descriptor : Descriptor) {image : List Byte}
    (hLength : descriptor.length.toNat = image.length) :
    Triple (fun _ => True) (reuseImage sha256 descriptor image)
      (fun d c => Stored sha256 image d c) fun _ _ => True := by
  apply Triple.bind (Q := fun bytes c => bytes = image → Stored sha256 image descriptor c)
  · intro call _
    cases hRun : descriptor.readVerified sha256 call with
    | error e after => trivial
    | ok bytes after =>
        obtain ⟨hSlots, -, hSlot, hBytes, hDigest⟩ := readVerified_ok hRun
        rintro rfl
        have hCount : after.images.flash.slotCount = call.images.flash.slotCount :=
          (((readVerified_spares sha256 descriptor : Sparing (fun _ => False) _) call).ok rfl hRun).count
        exact ⟨by rw [hCount]; exact hSlot, by rw [hSlots]; exact hBytes.symm, hLength, hDigest.symm⟩
  intro bytes
  apply Triple.failIf_bind fun _ _ _ => trivial
  intro hSame
  have hStored : Triple (Stored sha256 image descriptor) (do stopIfCancelled; pure descriptor : ImageM Descriptor)
      (fun d c => Stored sha256 image d c) fun _ _ => True :=
    Triple.bind (stopIfCancelled_spares.stored image descriptor) fun _ => Triple.ret fun _ h => h
  exact hStored.conseq (fun _ h => h (not_not.1 hSame)) (fun _ _ h => h) fun _ _ h => h

theorem writeImage_content (slot : Nat) (image : List Byte) (digest : Fixed 32) :
    Triple (fun _ => True) (writeImage sha256 slot image digest)
      (fun d c => d = ⟨UInt8.ofNat slot, UInt32.ofNat image.length, digest⟩ ∧
        WrittenTo slot image ((image.length + 255) / 256) c.images.flash.slots) fun _ _ => True := by
  apply Triple.bind (Q := fun _ _ => True)
  · exact (stopIfCancelled_spares.keeps fun _ => True).conseq (fun _ h => h) (fun _ _ h => h) fun _ _ h => h
  intro _
  apply Triple.bind (write_content slot _ (fun _ => True) (WrittenTo slot image 0) ?_)
  · intro _
    apply Triple.bind (programChunks_content slot image _)
    intro _
    apply Triple.bind (Q := fun _ c => WrittenTo slot image ((image.length + 255) / 256) c.images.flash.slots)
    · exact ((readVerified_spares sha256 _).keeps _).conseq (fun _ h => h) (fun _ _ h => h) fun _ _ _ => trivial
    intro _
    apply Triple.bind (Q := fun _ c => WrittenTo slot image ((image.length + 255) / 256) c.images.flash.slots)
    · exact (stopIfCancelled_spares.keeps _).conseq (fun _ h => h) (fun _ _ h => h) fun _ _ _ => trivial
    intro _
    exact Triple.ret fun _ h => ⟨rfl, h⟩
  · intro slots _ i
    simp

/-- An image that was written completely. -/
theorem writeImage_stored {slot : Nat} {image : List Byte} {digest : Fixed 32} (hDigest : digest = sha256 image)
    (hLength : image.length < 2 ^ 32) {call after : ImageCall} {d : Descriptor}
    (hSlot : slot < call.images.flash.slotCount) (hCount : call.images.flash.slotCount ≤ 64)
    (h : writeImage sha256 slot image digest call = .ok d after) : Stored sha256 image d after := by
  have hSpares : Sparing (fun s => slot = s) (writeImage sha256 slot image digest) :=
    writeImage_spares sha256 rfl image digest
  have hCounts := ((hSpares call).ok rfl h).count
  obtain ⟨rfl, hWritten⟩ := (writeImage_content slot image digest).ok trivial h
  have hSlotNat : (UInt8.ofNat slot).toNat = slot := by
    rw [UInt8.toNat_ofNat']
    omega
  have hLengthNat : (UInt32.ofNat image.length).toNat = image.length := by
    rw [UInt32.toNat_ofNat']
    omega
  refine ⟨?_, ?_, hLengthNat, hDigest⟩
  · rw [hSlotNat, hCounts]
    exact hSlot
  · rw [hSlotNat, hLengthNat]
    exact hWritten.range

/-- Whatever staging returns is stored. -/
theorem stageWithCancel_stored {image : List Byte} {protected' : List Descriptor} {call after : ImageCall}
    {d : Descriptor} (hCount : call.images.flash.slotCount ≤ 64)
    (h : stageWithCancel sha256 image protected' call = .ok d after) : Stored sha256 image d after := by
  simp only [stageWithCancel, bind_ok, failIf_ok, get_ok, readOnly_ok, not_le] at h
  obtain ⟨_, first, hFirst, _, _, ⟨hLength, rfl⟩, _, _, ⟨-, rfl⟩, _, first, ⟨rfl, rfl⟩, occupied, _, ⟨hOccupied, rfl⟩,
    digest, second, hHash, hRun⟩ := h
  have hSpares : Spares (fun _ => False) call second :=
    ((stopIfCancelled_spares call).ok rfl hFirst).trans ((hash_spares sha256 image first).ok rfl hHash)
  have hFirstCount : first.images.flash.slotCount = call.images.flash.slotCount :=
    (((stopIfCancelled_spares : Sparing (fun _ => False) _) call).ok rfl hFirst).count
  have hDigest : digest = sha256 image := by
    unfold hash at hHash
    split at hHash
    · cases hHash
    · cases hHash
      rfl
  cases hFound : protected'.find? fun d => d.length.toNat = image.length ∧ d.digest = digest with
  | some descriptor =>
      rw [hFound] at hRun
      have hMatch : descriptor.length.toNat = image.length ∧ descriptor.digest = digest := by
        simpa using List.find?_some hFound
      exact (reuseImage_stored descriptor hMatch.1).ok trivial hRun
  | none =>
      rw [hFound] at hRun
      simp only [bind_ok, orFail_ok] at hRun
      obtain ⟨slot, _, ⟨hSlot, rfl⟩, hWrite⟩ := hRun
      obtain ⟨hFree, -⟩ := candidate_free hSlot (by rw [hFirstCount]; exact hCount)
      apply writeImage_stored hDigest hLength ?_ ?_ hWrite
      · rw [hSpares.count, ← hFirstCount]
        exact hFree
      · rw [hSpares.count]
        exact hCount

end Content

section Live

variable {sha256 : List Byte → Fixed 32}

/-- The pins of a slot count its live images, and each of them is as it was when it was
pinned. -/
structure LiveHeld (sha256 : List Byte → Fixed 32) (call : ImageCall) (live : List PinnedImage) : Prop where
  slots : call.images.flash.slotCount ≤ 64
  counted : ∀ slot, call.images.pins slot = live.countP fun p => p.descriptor.slot.toNat = slot
  intact : ∀ p ∈ live, p.descriptor.slot.toNat < 64 ∧
    sha256 (range (call.images.flash.slots p.descriptor.slot.toNat) 0 p.descriptor.length.toNat) = p.descriptor.digest ∧
    range (call.images.flash.slots p.descriptor.slot.toNat) p.start (p.stop - p.start) = p.bytes

theorem LiveHeld.pinned {call : ImageCall} {live : List PinnedImage} (h : LiveHeld sha256 call live) {p : PinnedImage}
    (hp : p ∈ live) : call.images.pins p.descriptor.slot.toNat ≠ 0 := by
  rw [h.counted]
  apply Nat.pos_iff_ne_zero.1
  rw [List.countP_pos_iff]
  exact ⟨p, hp, by simp⟩

/-- Writes to free slots leave the pinned images alone. -/
theorem LiveHeld.spared {call after : ImageCall} {live : List PinnedImage} (h : LiveHeld sha256 call live) {Free : Nat → Prop}
    (hSpares : Spares Free call after) (hFree : ∀ p ∈ live, ¬Free p.descriptor.slot.toNat) :
    LiveHeld sha256 after live := by
  refine ⟨by rw [hSpares.count]; exact h.slots, fun slot => by rw [hSpares.pins]; exact h.counted slot, ?_⟩
  intro p hp
  rw [hSpares.slots _ (hFree p hp)]
  exact h.intact p hp

/-- A pin: the image it holds is verified. -/
theorem pin_ok {descriptor : Descriptor} {start stop : Nat} {call after : ImageCall} {pinned : PinnedImage}
    (h : pin sha256 descriptor start stop call = .ok pinned after) :
    pinned.descriptor = descriptor ∧ descriptor.slot.toNat < call.images.flash.slotCount ∧
      after.images.flash.slotCount = call.images.flash.slotCount ∧
      after.images.flash.slots = call.images.flash.slots ∧
      (after.images.pins = fun s => if s = descriptor.slot.toNat then call.images.pins s + 1 else call.images.pins s) ∧
      sha256 (range (call.images.flash.slots descriptor.slot.toNat) 0 descriptor.length.toNat) = descriptor.digest ∧
      range (call.images.flash.slots descriptor.slot.toNat) pinned.start (pinned.stop - pinned.start) = pinned.bytes := by
  simp only [pin, bind_ok, failIf_ok, get_ok, pure_ok, not_or, not_le, not_lt] at h
  obtain ⟨bytes, middle, hRead, _, _, ⟨⟨hStart, hStop⟩, rfl⟩, _, middle, ⟨rfl, rfl⟩, _, _, ⟨-, rfl⟩, _, _, hSet, rfl, rfl⟩ := h
  obtain ⟨hSlots, hPins, hSlot, hBytes, hDigest⟩ := readVerified_ok hRead
  have hCount : middle.images.flash.slotCount = call.images.flash.slotCount :=
    (((readVerified_spares sha256 descriptor : Sparing (fun _ => False) _) call).ok rfl hRead).count
  cases hSet
  refine ⟨rfl, hSlot, hCount, hSlots, ?_, hBytes ▸ hDigest, ?_⟩
  · funext s
    by_cases hs : s = descriptor.slot.toNat
    · simp [hs, hPins]
    · simp [hs, hPins]
  · have hLength : descriptor.length.toNat = bytes.length := by rw [hBytes, length_range]
    simp only
    rw [hBytes, range_drop _ (show start ≤ descriptor.length.toNat by omega), Nat.zero_add, range_take _ (by omega)]

/-- A pin that is refused changes nothing. -/
theorem pin_error {descriptor : Descriptor} {start stop : Nat} {call after : ImageCall} {e : Error}
    (h : pin sha256 descriptor start stop call = .error e after) : Spares (fun _ => False) call after := by
  have hPin : Triple (fun c => c = call) (pin sha256 descriptor start stop) (fun _ _ => True)
      fun _ => Spares (fun _ => False) call := by
    apply Triple.bind (readVerified_spares sha256 descriptor call)
    intro bytes
    apply Triple.failIf_bind
    · exact fun _ _ h => h
    intro _
    apply Triple.get
    intro middle hMiddle
    apply Triple.failIf_bind
    · intro _ c hc
      rw [hc]
      exact hMiddle
    intro _ c _
    trivial
  exact hPin.error rfl h

theorem unpin_eq (pinned : PinnedImage) (call : ImageCall) :
    (final (unpin pinned call)).images.flash = call.images.flash ∧
      (final (unpin pinned call)).images.pins = fun s =>
        if s = pinned.descriptor.slot.toNat then call.images.pins s - 1 else call.images.pins s := by
  refine ⟨rfl, funext fun s => ?_⟩
  by_cases hs : s = pinned.descriptor.slot.toNat
  · subst hs
    rfl
  · simp [unpin, setPins, final, hs, bind, EStateM.bind, get, getThe, MonadStateOf.get, EStateM.get, modify, modifyGet,
      MonadStateOf.modifyGet, EStateM.modifyGet]

/-- Every reachable store holds its pinned images. -/
theorem Images.Reachable.held {call : ImageCall} {live : List PinnedImage} (h : Images.Reachable sha256 call live) :
    LiveHeld sha256 call live := by
  induction h with
  | new flash hashFaults cancel slots => exact ⟨slots.2, fun _ => rfl, fun _ hp => (nomatch hp)⟩
  | environment _ faults hashFaults cancel borrowed ih => exact ⟨ih.slots, ih.counted, ih.intact⟩
  | @pin call after live _ descriptor start stop pinned run ih =>
      obtain ⟨hDescriptor, hSlot, hCount, hSlots, hPins, hDigest, hBytes⟩ := pin_ok run
      refine ⟨by rw [hCount]; exact ih.slots, fun slot => ?_, fun p hp => ?_⟩
      · rw [hPins, List.countP_cons, hDescriptor, ← ih.counted]
        by_cases hs : slot = descriptor.slot.toNat
        · simp [hs]
        · simp [hs, Ne.symm hs]
      · rw [hSlots]
        rcases List.mem_cons.1 hp with rfl | hp
        · rw [hDescriptor]
          exact ⟨Nat.lt_of_lt_of_le hSlot ih.slots, hDigest, hBytes⟩
        · exact ih.intact p hp
  | @refused call after live _ descriptor start stop e run ih => exact ih.spared (pin_error run) fun _ _ h => h
  | @unpin call live _ pinned held ih =>
      obtain ⟨hFlash, hPins⟩ := unpin_eq pinned call
      refine ⟨by rw [hFlash]; exact ih.slots, fun slot => ?_, fun p hp => ?_⟩
      · simp only [hPins, List.countP_erase, ih.counted]
        by_cases hs : slot = pinned.descriptor.slot.toNat
        · simp [hs, held]
        · simp [hs, Ne.symm hs]
      · rw [hFlash]
        exact ih.intact p (List.mem_of_mem_erase hp)
  | @stage call live _ image protected' ih =>
      have hSpares : Spares (IsFree call.images.pins protected') call
          (final (stageWithCancel sha256 image protected' call)) :=
        (stageWithCancel_spares sha256 image protected' ih.slots).final rfl
      exact ih.spared hSpares fun p hp hFree => ih.pinned hp hFree.2

/-- Staging never damages live images: whatever fails and whenever it is cancelled, no
slot that a protected descriptor or a pinned image names is erased or programmed, the
pinned images stay what they were, and a descriptor that is returned names the staged
bytes. -/
theorem staging_spares_live {call : ImageCall} {live : List PinnedImage} (h : Images.Reachable sha256 call live)
    (image : List Byte) (protected' : List Descriptor) :
    let result := stageWithCancel sha256 image protected' call
    (∃ more, (final result).images.flash.touched = call.images.flash.touched ++ more ∧ ∀ slot ∈ more,
      (∀ d ∈ protected', d.slot.toNat ≠ slot) ∧ ∀ p ∈ live, p.descriptor.slot.toNat ≠ slot) ∧
    (∀ slot, (∃ d ∈ protected', d.slot.toNat = slot) ∨ (∃ p ∈ live, p.descriptor.slot.toNat = slot) →
      (final result).images.flash.slots slot = call.images.flash.slots slot) ∧
    LiveHeld sha256 (final result) live ∧
    ∀ d after, result = .ok d after → Stored sha256 image d after := by
  intro result
  have hHeld := h.held
  have hSpares : Spares (IsFree call.images.pins protected') call (final result) :=
    (stageWithCancel_spares sha256 image protected' hHeld.slots).final rfl
  refine ⟨?_, ?_, (h.stage image protected').held, ?_⟩
  · obtain ⟨more, hMore, hFree⟩ := hSpares.touched
    refine ⟨more, hMore, fun slot hSlot => ⟨(hFree slot hSlot).1, ?_⟩⟩
    rintro p hp rfl
    exact hHeld.pinned hp (hFree _ hSlot).2
  · intro slot hNamed
    apply hSpares.slots
    intro hFree
    rcases hNamed with ⟨d, hd, hSlot⟩ | ⟨p, hp, rfl⟩
    · exact hFree.1 d hd hSlot
    · exact hHeld.pinned hp hFree.2
  · intro d after hRun
    exact stageWithCancel_stored hHeld.slots hRun

/-- The SHA-256 digest of the text "a". -/
def digestOfA : Fixed 32 :=
  ⟨[0xca, 0x97, 0x81, 0x12, 0xca, 0x1b, 0xbd, 0xca, 0xfa, 0xc2, 0x31, 0xb3, 0x9a, 0x23, 0xdc, 0x4d,
    0xa7, 0x86, 0xef, 0xf8, 0x14, 0x7c, 0x4e, 0x72, 0xb9, 0x80, 0x77, 0x85, 0xaf, 0xee, 0x48, 0xbb], rfl⟩

/-- Two erased slots, and nothing that fails. -/
def erasedStore : ImageCall :=
  ⟨⟨⟨2, 8, fun _ _ => 0xff, fun _ => none, []⟩, fun _ => 0, 0⟩, fun _ => none, fun _ => false⟩

theorem staging_spares_live_erased : ∃ d after,
    stageWithCancel (fun _ => digestOfA) [0x61] [] erasedStore = .ok d after ∧
      after.images.flash.touched = [0, 0] ∧ Stored (fun _ => digestOfA) [0x61] d after := by
  have hNew : Images.Reachable (fun _ => digestOfA) erasedStore [] := .new _ _ _ (by decide)
  refine ⟨⟨0, 1, digestOfA⟩, _, rfl, rfl, ?_⟩
  exact (staging_spares_live hNew [0x61] []).2.2.2 _ _ rfl

end Live

end MicroCard.Card
