import MicroCard.Engine.Requests
import Mathlib.Data.List.Induction

/-! Reception of a load file into bounded staging. The receiver orders the blocks and
bounds them; staging is memory or flash, and either may fail between any two blocks. -/
namespace MicroCard.Engine

open Bytes Cbor CrashTriple Card Transport Codec

section Staging

/-- Bounded staging for one upload. `Sound` holds of every staging region that was
reset and then only appended to. -/
structure PackageStaging (σ : Type) where
  length : σ → Nat
  content : σ → List Byte
  append : List Byte → EStateM Error σ Unit
  reset : σ → σ
  Sound : σ → Prop
  length_eq : ∀ s, Sound s → length s = (content s).length
  reset_sound : ∀ s, Sound (reset s)
  reset_empty : ∀ s, content (reset s) = []
  append_ok : ∀ {bytes s s'}, Sound s → append bytes s = .ok () s' → Sound s' ∧ content s' = content s ++ bytes

/-- Volatile staging. Each allocation succeeds or not. -/
structure RamStaging where
  bytes : List Byte
  allocations : Nat → Bool

/-- Take the answer to the next allocation. -/
def RamStaging.allocate (staging : RamStaging) : RamStaging :=
  { staging with allocations := fun n => staging.allocations (n + 1) }

def RamStaging.append (maximum : Nat) (bytes : List Byte) : EStateM Error RamStaging Unit := do
  let staging ← get
  failIf (maximum < staging.bytes.length + bytes.length) .quota
  set staging.allocate
  failIf (staging.allocations 0 = false) .quota
  modify fun staging => { staging with bytes := staging.bytes ++ bytes }

/-- What one call of the staging flash does: nothing, or fail and leave the region in
some state. -/
abbrev FlashFault := Option (Error × (Nat → Byte))

structure StagingFlash where
  capacity : Nat
  memory : Nat → Byte
  faults : Nat → FlashFault

namespace StagingFlash

/-- The flash after one more call that left this memory. -/
def after (flash : StagingFlash) (memory : Nat → Byte) : StagingFlash :=
  { flash with memory := memory, faults := fun n => flash.faults (n + 1) }

/-- A call that brings the memory into this state, unless it fails. -/
def write (update : (Nat → Byte) → Nat → Byte) : EStateM Error StagingFlash Unit := fun flash =>
  match flash.faults 0 with
  | some (e, left) => .error e (flash.after left)
  | none => .ok () (flash.after (update flash.memory))

def erase : EStateM Error StagingFlash Unit := write fun _ _ => 0xff

/-- Programming may only clear bits. -/
def programmed (offset : Nat) (bytes : List Byte) (memory : Nat → Byte) : Nat → Byte := fun i =>
  if offset ≤ i ∧ i < offset + bytes.length then memory i &&& bytes.getD (i - offset) 0 else memory i

def program (offset : Nat) (bytes : List Byte) : EStateM Error StagingFlash Unit := do
  let flash ← get
  failIf (flash.capacity < offset + bytes.length) .bounds
  write (programmed offset bytes)

end StagingFlash

structure FlashStaging where
  flash : StagingFlash
  length : Nat
  prepared : Bool

namespace FlashStaging

variable {α : Type}

def onFlash (action : EStateM Error StagingFlash α) : EStateM Error FlashStaging α := fun staging =>
  match action staging.flash with
  | .ok a flash => .ok a { staging with flash := flash }
  | .error e flash => .error e { staging with flash := flash }

/-- The first append of an upload erases the region. -/
def prepare : EStateM Error FlashStaging Unit := do
  let staging ← get
  onlyIf (staging.prepared = false) do
    onFlash StagingFlash.erase
    modify fun staging => { staging with prepared := true }

def append (maximum : Nat) (bytes : List Byte) : EStateM Error FlashStaging Unit := do
  let staging ← get
  failIf (maximum < staging.length + bytes.length ∨ staging.flash.capacity < staging.length + bytes.length) .quota
  prepare
  onFlash (StagingFlash.program staging.length bytes)
  modify fun staging => { staging with length := staging.length + bytes.length }

def reset (staging : FlashStaging) : FlashStaging := { staging with length := 0, prepared := false }

/-- What was appended. -/
def content (staging : FlashStaging) : List Byte := range staging.flash.memory 0 staging.length

/-- Behind what was appended the region is erased, once it is prepared. -/
structure Sound (staging : FlashStaging) : Prop where
  idle : staging.prepared = false → staging.length = 0
  erased : staging.prepared = true → ∀ i, staging.length ≤ i → staging.flash.memory i = 0xff

theorem reset_sound (staging : FlashStaging) : staging.reset.Sound := by
  constructor
  · exact fun _ => rfl
  · intro hPrepared
    cases hPrepared

theorem write_ok {update : (Nat → Byte) → Nat → Byte} {flash flash' : StagingFlash}
    (h : StagingFlash.write update flash = .ok () flash') :
    flash'.memory = update flash.memory ∧ flash'.capacity = flash.capacity := by
  unfold StagingFlash.write at h
  split at h
  · cases h
  · cases h
    exact ⟨rfl, rfl⟩

theorem onFlash_ok {action : EStateM Error StagingFlash α} {staging staging' : FlashStaging} {a : α}
    (h : onFlash action staging = .ok a staging') :
    ∃ flash, action staging.flash = .ok a flash ∧ staging' = { staging with flash := flash } := by
  unfold onFlash at h
  split at h
  · rename_i b flash hRun
    cases h
    exact ⟨flash, hRun, rfl⟩
  · cases h

/-- A prepared region is erased behind what was appended to it. -/
theorem prepare_ok {staging staging' : FlashStaging} (h : prepare staging = .ok () staging') (hSound : staging.Sound) :
    staging'.Sound ∧ staging'.prepared = true ∧ staging'.length = staging.length ∧
      staging'.content = staging.content := by
  simp only [prepare, bind_ok, get_ok] at h
  obtain ⟨_, staging, ⟨rfl, rfl⟩, hRun⟩ := h
  cases hPrepared : staging.prepared with
  | true =>
      rw [onlyIf, if_neg (by simp [hPrepared]), pure_ok] at hRun
      obtain ⟨-, rfl⟩ := hRun
      exact ⟨hSound, hPrepared, rfl, rfl⟩
  | false =>
      rw [onlyIf, if_pos hPrepared, bind_ok] at hRun
      obtain ⟨_, _, hErase, hSet⟩ := hRun
      obtain ⟨flash, hWrite, rfl⟩ := onFlash_ok hErase
      cases hSet
      have hEmpty := hSound.idle hPrepared
      refine ⟨⟨fun hNo => (by cases hNo), fun _ i _ => ?_⟩, rfl, rfl, ?_⟩
      · show flash.memory i = 0xff
        rw [(write_ok hWrite).1]
      · show range flash.memory 0 staging.length = range staging.flash.memory 0 staging.length
        rw [hEmpty]
        rfl

/-- Programming an erased range writes the bytes and nothing else. -/
theorem programmed_erased {memory : Nat → Byte} {offset : Nat} {bytes : List Byte}
    (h : ∀ i, offset ≤ i → memory i = 0xff) :
    range (StagingFlash.programmed offset bytes memory) 0 (offset + bytes.length) = range memory 0 offset ++ bytes := by
  rw [range_add, Nat.zero_add]
  congr 1
  · apply range_congr
    intro i hi
    rw [StagingFlash.programmed, if_neg (by omega)]
  · rw [range_eq_iff]
    refine ⟨rfl, fun i hi => ?_⟩
    rw [StagingFlash.programmed, if_pos (by omega), h _ (by omega), Nat.add_sub_cancel_left,
      List.getD_eq_getElem _ _ hi]
    exact UInt8.neg_one_and

theorem append_ok {maximum : Nat} {bytes : List Byte} {staging staging' : FlashStaging} (hSound : staging.Sound)
    (h : append maximum bytes staging = .ok () staging') :
    staging'.Sound ∧ staging'.content = staging.content ++ bytes := by
  simp only [append, bind_ok, get_ok, failIf_ok] at h
  obtain ⟨_, staging, ⟨rfl, rfl⟩, _, _, ⟨-, rfl⟩, _, middle, hPrepare, _, _, hProgram, hSet⟩ := h
  obtain ⟨hMiddle, hPrepared, hLength, hContent⟩ := prepare_ok hPrepare hSound
  obtain ⟨flash, hRun, rfl⟩ := onFlash_ok hProgram
  simp only [StagingFlash.program, bind_ok, get_ok, failIf_ok] at hRun
  obtain ⟨_, _, ⟨rfl, rfl⟩, _, _, ⟨-, rfl⟩, hWrite⟩ := hRun
  cases hSet
  obtain ⟨hMemory, -⟩ := write_ok hWrite
  have hErased := hMiddle.erased hPrepared
  rw [hLength] at hErased
  refine ⟨⟨fun hNo => ?_, fun _ i hi => ?_⟩, ?_⟩
  · exact absurd (hNo.symm.trans hPrepared) (by decide)
  · simp only [hLength] at hi
    rw [hMemory, StagingFlash.programmed, if_neg (by omega)]
    exact hErased i (by omega)
  · show range flash.memory 0 (middle.length + bytes.length) = _
    rw [hMemory, hLength, programmed_erased hErased, ← hContent, content, hLength]

end FlashStaging

/-- `BoundedRamStaging`. -/
def ramStaging (maximum : Nat) : PackageStaging RamStaging where
  length staging := staging.bytes.length
  content := RamStaging.bytes
  append := RamStaging.append maximum
  reset staging := { staging with bytes := [] }
  Sound _ := True
  length_eq _ _ := rfl
  reset_sound _ := trivial
  reset_empty _ := rfl
  append_ok := by
    intro bytes s s' _ h
    simp only [RamStaging.append, bind_ok, get_ok, set_ok, failIf_ok] at h
    obtain ⟨_, _, ⟨rfl, rfl⟩, _, _, ⟨-, rfl⟩, _, _, rfl, _, _, ⟨-, rfl⟩, hSet⟩ := h
    cases hSet
    exact ⟨trivial, rfl⟩

/-- `BoundedFlashStaging`. -/
def flashStaging (maximum : Nat) : PackageStaging FlashStaging where
  length := FlashStaging.length
  content := FlashStaging.content
  append := FlashStaging.append maximum
  reset := FlashStaging.reset
  Sound := FlashStaging.Sound
  length_eq _ _ := (length_range ..).symm
  reset_sound := FlashStaging.reset_sound
  reset_empty _ := rfl
  append_ok := FlashStaging.append_ok

end Staging

section Receiver

variable {σ : Type} (staging : PackageStaging σ)

/-- An upload under way. -/
structure Reception (σ : Type) where
  receiver : LoadReceiver
  staging : σ

namespace Reception

def onStaging (action : EStateM Error σ Unit) : EStateM Error (Reception σ) Unit := fun reception =>
  match action reception.staging with
  | .ok _ region => .ok () { reception with staging := region }
  | .error e region => .error e { reception with staging := region }

def receiveBlock (command : Command) : EStateM Error (Reception σ) Bool := do
  let reception ← get
  let (chunk, receiver) ← readOnly (reception.receiver.accept command (staging.length reception.staging))
  onStaging (staging.append chunk)
  modify fun reception => { reception with receiver := receiver }
  pure receiver.closed

/-- Any error invalidates the receiver and discards what was staged. -/
def receive (command : Command) (reception : Reception σ) : Except Error Bool × Reception σ :=
  match receiveBlock staging command reception with
  | .ok complete next => (.ok complete, next)
  | .error e next => (.error e, ⟨{ next.receiver with closed := true }, staging.reset next.staging⟩)

/-- INSTALL [for load]: whatever was staged is discarded and a new receiver takes its
place. -/
def start (payload : Payload) (maximum : Nat) (region : σ) : Reception σ :=
  ⟨LoadReceiver.new payload maximum, staging.reset region⟩

/-- The upload after these commands. -/
def after (reception : Reception σ) (commands : List Command) : Reception σ :=
  commands.foldl (fun reception command => (receive staging command reception).2) reception

/-- What the receiver answers to a command after these commands. -/
def answer (reception : Reception σ) (commands : List Command) (command : Command) : Except Error Bool :=
  (receive staging command (after staging reception commands)).1

theorem after_append (reception : Reception σ) (commands more : List Command) :
    after staging reception (commands ++ more) = after staging (after staging reception commands) more :=
  List.foldl_append

theorem after_concat (reception : Reception σ) (commands : List Command) (command : Command) :
    after staging reception (commands ++ [command]) =
      (receive staging command (after staging reception commands)).2 := by
  rw [after_append]
  rfl

end Reception

end Receiver

section Blocks

/-- What the first of these blocks announces: the length of the load, and its own part
of it. -/
def announced : List Command → Option (Nat × List Byte)
  | [] => none
  | first :: _ => (loadFileData first.data).toOption

/-- The data of these blocks behind the header of the first. -/
def carried : List Command → List Byte
  | [] => []
  | first :: rest => ((announced [first]).map Prod.snd).getD [] ++ rest.flatMap Command.data

/-- Blocks in order. Only the last one may be flagged as such. -/
structure InOrder (commands : List Command) : Prop where
  blocks : ∀ (i : Nat) (c : Command), commands[i]? = some c → c.ins = 0xe8 ∧ c.p2.toNat = i
  flags : ∀ (i : Nat) (c : Command), commands[i]? = some c → i + 1 < commands.length → c.p1 = 0

theorem announced_concat {commands : List Command} (h : commands ≠ []) (command : Command) :
    announced (commands ++ [command]) = announced commands := by
  cases commands with
  | nil => exact absurd rfl h
  | cons first rest => rfl

theorem carried_concat {commands : List Command} (h : commands ≠ []) (command : Command) :
    carried (commands ++ [command]) = carried commands ++ command.data := by
  cases commands with
  | nil => exact absurd rfl h
  | cons first rest => simp [carried]

theorem InOrder.concat {commands : List Command} (h : InOrder commands) (hOpen : ∀ c ∈ commands, c.p1 = 0)
    {command : Command} (hIns : command.ins = 0xe8) (hNumber : command.p2.toNat = commands.length) :
    InOrder (commands ++ [command]) := by
  have hSplit : ∀ i c, (commands ++ [command])[i]? = some c →
      commands[i]? = some c ∨ (i = commands.length ∧ c = command) := by
    intro i c hGet
    rcases Nat.lt_trichotomy i commands.length with hLt | rfl | hGt
    · rw [List.getElem?_append_left hLt] at hGet
      exact .inl hGet
    · simp only [List.getElem?_concat_length, Option.some.injEq] at hGet
      exact .inr ⟨rfl, hGet.symm⟩
    · rw [List.getElem?_eq_none (by simp; omega)] at hGet
      cases hGet
  constructor
  · intro i c hGet
    rcases hSplit i c hGet with hOld | ⟨rfl, rfl⟩
    · exact h.blocks i c hOld
    · exact ⟨hIns, hNumber⟩
  · intro i c hGet hLater
    rcases hSplit i c hGet with hOld | ⟨rfl, rfl⟩
    · exact hOpen c (List.mem_of_getElem? hOld)
    · simp at hLater

end Blocks

section Accepted

variable {receiver next : LoadReceiver} {command : Command} {staged : Nat} {chunk : List Byte}

/-- The facts behind an accepted block. -/
structure Accepted (receiver : LoadReceiver) (command : Command) (staged : Nat) (chunk : List Byte) (total : Nat)
    (next : LoadReceiver) : Prop where
  opened : receiver.closed = false
  ins : command.ins = 0xe8
  flag : command.p1 = 0 ∨ command.p1 = 0x80
  number : command.p2.toNat = receiver.nextBlock
  agrees : staged = receiver.received
  part : receiver.chunk command = .ok (total, chunk)
  fits : receiver.received + chunk.length ≤ total
  last : command.p1 = 0x80 → receiver.received + chunk.length = total
  next : next = { receiver with
    total := some total, received := receiver.received + chunk.length, nextBlock := receiver.nextBlock + 1,
    closed := command.p1 = 0x80 }

theorem accept_ok (h : receiver.accept command staged = .ok (chunk, next)) :
    ∃ total, Accepted receiver command staged chunk total next := by
  simp only [LoadReceiver.accept, Checks.bind_ok, Checks.failIf_ok, Checks.pure_ok, Prod.mk.injEq] at h
  obtain ⟨_, hFirst, ⟨total, chunk'⟩, hChunk, _, hFits, _, hLast, rfl, hNext⟩ := h
  simp only [not_or, Bool.not_eq_true, not_not, not_lt] at hFirst hFits hLast
  obtain ⟨hOpen, hIns, hFlag, -, -, hNumber, hStaged⟩ := hFirst
  refine ⟨total, hOpen, hIns, by tauto, hNumber, hStaged, hChunk, hFits, ?_, hNext.symm⟩
  intro hFlagged
  by_contra hNe
  exact hLast.1 ⟨hFlagged, hNe⟩

/-- The first block announces the length of the load within the limit. -/
theorem chunk_first {total : Nat} (hFirst : receiver.nextBlock = 0) (h : receiver.chunk command = .ok (total, chunk)) :
    loadFileData command.data = .ok (total, chunk) ∧ total ≤ receiver.maximum := by
  simp only [LoadReceiver.chunk, if_pos hFirst, Checks.bind_ok, Checks.failIf_ok, Checks.pure_ok, not_lt] at h
  obtain ⟨⟨total', chunk'⟩, hData, _, hMaximum, kind, hKind, _, -, hEq⟩ := h
  cases hEq
  exact ⟨hData, hMaximum⟩

theorem chunk_later {total : Nat} (hLater : receiver.nextBlock ≠ 0) (h : receiver.chunk command = .ok (total, chunk)) :
    receiver.total = some total ∧ chunk = command.data := by
  simp only [LoadReceiver.chunk, if_neg hLater, Checks.bind_ok, Checks.orFail_ok, Checks.pure_ok] at h
  obtain ⟨total', hTotal, hEq⟩ := h
  cases hEq
  exact ⟨hTotal, rfl⟩

end Accepted

section Runs

variable {σ : Type} {staging : PackageStaging σ} {maximum : Nat} {commands : List Command} {reception : Reception σ}

/-- What is received stays within what was announced, and that within the limit. -/
structure WithinLimits (maximum : Nat) (receiver : LoadReceiver) : Prop where
  announced : ∀ total ∈ receiver.total, receiver.received ≤ total ∧ total ≤ maximum
  nothing : receiver.total = none → receiver.received = 0

/-- An upload that these blocks brought forward. -/
structure Receiving (staging : PackageStaging σ) (maximum : Nat) (commands : List Command) (reception : Reception σ) :
    Prop where
  sound : staging.Sound reception.staging
  limit : reception.receiver.maximum = maximum
  within : WithinLimits maximum reception.receiver
  content : staging.content reception.staging = carried commands
  received : reception.receiver.received = (carried commands).length
  number : reception.receiver.nextBlock = commands.length
  total : reception.receiver.total = (announced commands).map Prod.fst
  order : InOrder commands
  opened : reception.receiver.closed = false → ∀ c ∈ commands, c.p1 = 0
  complete : reception.receiver.closed = true →
    reception.receiver.total = some reception.receiver.received ∧ ∃ c ∈ commands.getLast?, c.p1 = 0x80

/-- An upload that was given up. -/
structure Refused (staging : PackageStaging σ) (maximum : Nat) (reception : Reception σ) : Prop where
  closed : reception.receiver.closed = true
  within : WithinLimits maximum reception.receiver
  sound : staging.Sound reception.staging
  empty : staging.content reception.staging = []

theorem start_receiving (payload : Payload) (maximum : Nat) (region : σ) :
    Receiving staging maximum [] (Reception.start staging payload maximum region) where
  sound := staging.reset_sound region
  limit := rfl
  within := ⟨fun _ h => (nomatch h), fun _ => rfl⟩
  content := staging.reset_empty region
  received := rfl
  number := rfl
  total := rfl
  order := ⟨fun _ _ h => (nomatch h), fun _ _ h => (nomatch h)⟩
  opened _ _ h := nomatch h
  complete h := nomatch h

/-- A step of staging leaves the receiver as it was. -/
theorem onStaging_ok {action : EStateM Error σ Unit} {next : Reception σ} {u : Unit}
    (h : Reception.onStaging action reception = .ok u next) :
    ∃ region, action reception.staging = .ok () region ∧ next = { reception with staging := region } := by
  unfold Reception.onStaging at h
  split at h
  · rename_i v region hRun
    cases h
    exact ⟨region, hRun, rfl⟩
  · cases h

/-- An accepted block: staging has taken its data. -/
theorem receiveBlock_ok {command : Command} {b : Bool} {next : Reception σ}
    (h : Reception.receiveBlock staging command reception = .ok b next) :
    ∃ chunk total, Accepted reception.receiver command (staging.length reception.staging) chunk total next.receiver ∧
      staging.append chunk reception.staging = .ok () next.staging ∧ b = next.receiver.closed := by
  simp only [Reception.receiveBlock, bind_ok, get_ok, readOnly_ok] at h
  obtain ⟨_, reception, ⟨rfl, rfl⟩, ⟨chunk, receiver⟩, _, ⟨hAccept, rfl⟩, _, _, hAppend, _, _, hSet, hPure⟩ := h
  obtain ⟨region, hRun, rfl⟩ := onStaging_ok hAppend
  cases hSet
  obtain ⟨rfl, rfl⟩ := pure_ok.1 hPure
  obtain ⟨total, hAccepted⟩ := accept_ok hAccept
  exact ⟨chunk, total, hAccepted, hRun, rfl⟩

/-- The checks of a block, and the staging of its data, leave the receiver's progress
alone when they fail. -/
theorem receiveBlock_error {command : Command} {e : Error} {next : Reception σ}
    (h : Reception.receiveBlock staging command reception = .error e next) : next.receiver = reception.receiver := by
  have hTriple : Triple (fun r : Reception σ => r = reception) (Reception.receiveBlock staging command)
      (fun _ _ => True) fun _ r => r.receiver = reception.receiver := by
    apply Triple.get
    intro r hr
    subst hr
    apply Triple.readOnly_bind
    · intro accepted _
      apply Triple.bind (Q := fun _ _ => True)
      · intro r' hr'
        subst hr'
        unfold Reception.onStaging
        cases staging.append accepted.1 r'.staging with
        | ok _ region => trivial
        | error e region => rfl
      · intro _ r' _
        trivial
    · intro e _ r' hr'
      rw [hr']
  exact hTriple.error rfl h

/-- The data of an accepted block, and the total it is part of. -/
theorem Receiving.part (h : Receiving staging maximum commands reception) {command : Command} {chunk : List Byte}
    {total : Nat} (hPart : reception.receiver.chunk command = .ok (total, chunk)) :
    total ≤ maximum ∧ (announced (commands ++ [command])).map Prod.fst = some total ∧
      carried (commands ++ [command]) = carried commands ++ chunk := by
  by_cases hFirst : commands = []
  · subst hFirst
    obtain ⟨hData, hMaximum⟩ := chunk_first h.number hPart
    rw [h.limit] at hMaximum
    simp [announced, carried, hData, hMaximum, Except.toOption]
  · have hNumber : reception.receiver.nextBlock ≠ 0 := by
      rw [h.number]
      exact fun hZero => hFirst (List.length_eq_zero_iff.1 hZero)
    obtain ⟨hTotal, rfl⟩ := chunk_later hNumber hPart
    refine ⟨(h.within.announced total hTotal).2, ?_, carried_concat hFirst command⟩
    rw [announced_concat hFirst, ← h.total, hTotal]

/-- A block that was accepted and staged. -/
theorem Receiving.accepted (h : Receiving staging maximum commands reception) {command : Command} {chunk : List Byte}
    {total : Nat} {next : Reception σ}
    (hAccepted : Accepted reception.receiver command (staging.length reception.staging) chunk total next.receiver)
    (hAppend : staging.append chunk reception.staging = .ok () next.staging) :
    Receiving staging maximum (commands ++ [command]) next := by
  obtain ⟨hSound, hContent⟩ := staging.append_ok h.sound hAppend
  obtain ⟨hMaximum, hTotal, hCarried⟩ := h.part hAccepted.part
  have hOpen := h.opened hAccepted.opened
  have hReceived : next.receiver.received = (carried (commands ++ [command])).length := by
    rw [hAccepted.next, hCarried, List.length_append, ← h.received]
  exact {
    sound := hSound
    limit := by rw [hAccepted.next]; exact h.limit
    within := by
      rw [hAccepted.next]
      constructor
      · intro t ht
        cases ht
        exact ⟨hAccepted.fits, hMaximum⟩
      · exact fun hNone => (nomatch hNone)
    content := by rw [hContent, hCarried, h.content]
    received := hReceived
    number := by rw [hAccepted.next, List.length_append, ← h.number]; rfl
    total := by rw [hAccepted.next, hTotal]
    order := h.order.concat hOpen hAccepted.ins (hAccepted.number.trans h.number)
    opened := by
      intro hStillOpen c hc
      rw [hAccepted.next] at hStillOpen
      rcases List.mem_append.1 hc with hc | hc
      · exact hOpen c hc
      · rw [List.mem_singleton.1 hc]
        exact hAccepted.flag.resolve_right (by simpa using hStillOpen)
    complete := by
      intro hClosed
      rw [hAccepted.next] at hClosed ⊢
      have hFlag : command.p1 = 0x80 := by simpa using hClosed
      exact ⟨congrArg some (hAccepted.last hFlag).symm, command, by simp, hFlag⟩ }

/-- One block: it brings the upload forward, or the upload is given up. -/
theorem receive_step (h : Receiving staging maximum commands reception) (command : Command) :
    (∃ b next, Reception.receive staging command reception = (.ok b, next) ∧ b = next.receiver.closed ∧
      Receiving staging maximum (commands ++ [command]) next) ∨
    ∃ e next, Reception.receive staging command reception = (.error e, next) ∧ Refused staging maximum next := by
  unfold Reception.receive
  cases hRun : Reception.receiveBlock staging command reception with
  | error e next =>
      have hKept := receiveBlock_error hRun
      refine .inr ⟨e, _, rfl, ⟨rfl, ?_, staging.reset_sound _, staging.reset_empty _⟩⟩
      simp only [hKept]
      exact ⟨h.within.announced, h.within.nothing⟩
  | ok b next =>
      obtain ⟨chunk, total, hAccepted, hAppend, hClosed⟩ := receiveBlock_ok hRun
      exact .inl ⟨b, next, rfl, hClosed, h.accepted hAccepted hAppend⟩

/-- An upload that was given up refuses every block. -/
theorem refused_step (h : Refused staging maximum reception) (command : Command) :
    ∃ e next, Reception.receive staging command reception = (.error e, next) ∧ Refused staging maximum next := by
  unfold Reception.receive
  cases hRun : Reception.receiveBlock staging command reception with
  | error e next =>
      have hKept := receiveBlock_error hRun
      refine ⟨e, _, rfl, ⟨rfl, ?_, staging.reset_sound _, staging.reset_empty _⟩⟩
      simp only [hKept]
      exact ⟨h.within.announced, h.within.nothing⟩
  | ok b next =>
      obtain ⟨chunk, total, hAccepted, -, -⟩ := receiveBlock_ok hRun
      exact absurd (h.closed.symm.trans hAccepted.opened) (by decide)

theorem refused_after (h : Refused staging maximum reception) (more : List Command) :
    Refused staging maximum (Reception.after staging reception more) := by
  induction more generalizing reception with
  | nil => exact h
  | cons command rest ih =>
      obtain ⟨e, next, hReceive, hNext⟩ := refused_step h command
      change Refused staging maximum
        (Reception.after staging (Reception.receive staging command reception).2 rest)
      rw [hReceive]
      exact ih hNext

/-- The upload after any commands: brought forward by all of them, or given up at one. -/
theorem receiving_after (payload : Payload) (maximum : Nat) (region : σ) (commands : List Command) :
    Receiving staging maximum commands
        (Reception.after staging (Reception.start staging payload maximum region) commands) ∨
      (Refused staging maximum (Reception.after staging (Reception.start staging payload maximum region) commands) ∧
        ∃ front command rest e, commands = front ++ command :: rest ∧
          Reception.answer staging (Reception.start staging payload maximum region) front command = .error e) := by
  induction commands using List.reverseRecOn with
  | nil => exact .inl (start_receiving payload maximum region)
  | append_singleton commands command ih =>
      rw [Reception.after_concat]
      rcases ih with hReceiving | ⟨hRefused, front, c, rest, e, rfl, hError⟩
      · rcases receive_step hReceiving command with ⟨b, next, hReceive, -, hNext⟩ | ⟨e, next, hReceive, hNext⟩
        · rw [hReceive]
          exact .inl hNext
        · refine .inr ⟨by rw [hReceive]; exact hNext, commands, command, [], e, rfl, ?_⟩
          rw [Reception.answer, hReceive]
      · obtain ⟨e', next, hReceive, hNext⟩ := refused_step hRefused command
        refine .inr ⟨by rw [hReceive]; exact hNext, front, c, rest ++ [command], e, by simp, hError⟩

end Runs

section Protocol

variable {σ : Type} (staging : PackageStaging σ)

/-- No block so far was refused. -/
def Flawless (upload : Reception σ) (commands : List Command) : Prop :=
  ∀ front command rest, commands = front ++ command :: rest →
    ∃ complete, Reception.answer staging upload front command = .ok complete

/-- These blocks are a whole load: they came in order with the last one flagged, and
what is staged is the data behind the header of the first, of the announced length. -/
structure Complete (commands : List Command) (staged : List Byte) : Prop where
  order : InOrder commands
  flagged : ∃ c ∈ commands.getLast?, c.p1 = 0x80
  content : staged = carried commands
  length : (announced commands).map Prod.fst = some staged.length

/-- The load protocol, for every kind of staging and every sequence of commands behind
an INSTALL [for load]. -/
theorem load_protocol (payload : Payload) (maximum : Nat) (region : σ) (commands : List Command) :
    let upload := Reception.start staging payload maximum region
    let now := Reception.after staging upload commands
    WithinLimits maximum now.receiver ∧
      (Flawless staging upload commands → staging.length now.staging = now.receiver.received) ∧
      (∀ command, Reception.answer staging upload commands command = .ok true →
        Complete (commands ++ [command])
          (staging.content (Reception.after staging upload (commands ++ [command])).staging)) ∧
      ∀ command e, Reception.answer staging upload commands command = .error e → ∀ later,
        let failed := Reception.after staging upload (commands ++ command :: later)
        staging.content failed.staging = [] ∧ staging.length failed.staging = 0 ∧
          ∀ c, ∃ e', Reception.answer staging upload (commands ++ command :: later) c = .error e' := by
  intro upload now
  have hNow : Receiving staging maximum commands now ∨ _ := receiving_after payload maximum region commands
  refine ⟨?_, ?_, ?_, ?_⟩
  · exact hNow.elim Receiving.within fun h => h.1.within
  · intro hFlawless
    rcases hNow with hReceiving | ⟨-, front, command, rest, e, hSplit, hError⟩
    · rw [staging.length_eq _ hReceiving.sound, hReceiving.content, hReceiving.received]
    · obtain ⟨complete, hOk⟩ := hFlawless front command rest hSplit
      rw [hOk] at hError
      cases hError
  · intro command hAnswer
    rw [Reception.after_concat]
    rcases hNow with hReceiving | ⟨hRefused, -⟩
    · rcases receive_step hReceiving command with ⟨b, next, hReceive, hClosed, hNext⟩ | ⟨e, next, hReceive, -⟩
      · rw [Reception.answer, hReceive] at hAnswer
        cases hAnswer
        obtain ⟨hTotal, hFlagged⟩ := hNext.complete hClosed.symm
        rw [hReceive]
        refine ⟨hNext.order, hFlagged, hNext.content, ?_⟩
        rw [← hNext.total, hTotal, hNext.received, ← hNext.content]
      · rw [Reception.answer, hReceive] at hAnswer
        cases hAnswer
    · obtain ⟨e, next, hReceive, -⟩ := refused_step hRefused command
      rw [Reception.answer, hReceive] at hAnswer
      cases hAnswer
  · intro command e hAnswer later
    have hRefused : Refused staging maximum (Reception.after staging upload (commands ++ command :: later)) := by
      rw [List.append_cons, Reception.after_append, Reception.after_concat]
      apply refused_after
      rcases hNow with hReceiving | ⟨hRefused, -⟩
      · rcases receive_step hReceiving command with ⟨b, next, hReceive, -⟩ | ⟨e', next, hReceive, hNext⟩
        · rw [Reception.answer, hReceive] at hAnswer
          cases hAnswer
        · rw [hReceive]
          exact hNext
      · obtain ⟨e', next, hReceive, hNext⟩ := refused_step hRefused command
        rw [hReceive]
        exact hNext
    refine ⟨hRefused.empty, ?_, fun c => ?_⟩
    · rw [staging.length_eq _ hRefused.sound, hRefused.empty]
      rfl
    · obtain ⟨e', next, hReceive, -⟩ := refused_step hRefused c
      exact ⟨e', by rw [Reception.answer, hReceive]⟩

/-- Two blocks of which the second repeats the number of the first. -/
def repeatedBlocks : List Command :=
  [⟨0x80, 0xe8, 0, 0, [0xc4, 6, 0x4d, 0x50, 0x30, 0x35], none⟩, ⟨0x80, 0xe8, 0, 0, [0x78], none⟩]

/-- After a refused block staging is empty, but the receiver still counts what came
before it. -/
theorem received_outlives_staging :
    let upload := Reception.start (ramStaging 6) .signedPackage 6 ⟨[], fun _ => true⟩
    ¬∀ commands, (ramStaging 6).length (Reception.after (ramStaging 6) upload commands).staging =
      (Reception.after (ramStaging 6) upload commands).receiver.received := by
  intro upload h
  exact absurd (h repeatedBlocks) (by decide)

end Protocol

end MicroCard.Engine
