import MicroCard.Journal.Capacity
import MicroCard.Journal.Holding

/-! A journal in use and the journal that opening its flash again gives. The live
journal moves its append offset from frame to frame, recovery finds it by reading the
frames; both report the same generation, the same contents and the same room. -/
namespace MicroCard.Journal

set_option linter.dupNamespace false

open Bytes CrashTriple

variable {provider : CryptoProvider} {j next : Journal} {past : Past} {contents : Option Contents}

section Sessions

/-- A journal opened with replay, fresh or on the flash that any earlier history left,
and then used without a failure, with what was written into it so far. The recorder
keeps every plaintext, so what another replay computes is a function of it. -/
inductive Session (provider : CryptoProvider) : Journal → Option Contents → Prop where
  | first {size slotCount : Nat} {bounded : size < 2 ^ 63} {key : List Byte} {contents : Option Contents} {opened : Journal}
      (ok : openMode (MemoryFlash.withSlots size slotCount bounded) key provider true recorder = .ok contents opened) :
      Session provider opened contents
  | opened {j : Journal} {past : Past} (history : History provider j past) (mode : j.appendEnabled = true)
      (budget : Option Nat) {contents : Option Contents} {opened : Journal}
      (ok : reopen provider j budget = .ok contents opened) : Session provider opened contents
  | committed {j : Journal} {contents : Option Contents} (session : Session provider j contents) (data : List Byte)
      (durability : Durability) (token budget : Option Nat) {record : List Byte} {next : Journal}
      (ok : commitOwnedWithNonce data durability provider token (j.withBudget budget) = .ok record next) :
      Session provider next (some ⟨data, []⟩)
  | appended {j : Journal} {contents : Option Contents} (session : Session provider j contents) (data : List Byte)
      (durability : Durability) (budget : Option Nat) {next : Journal}
      (ok : appendWith data durability provider (j.withBudget budget) = .ok () next) :
      Session provider next (contents.map fun held => ⟨held.snapshot, held.appended ++ [data]⟩)
  | reserved {j : Journal} {contents : Option Contents} (session : Session provider j contents) (budget : Option Nat)
      {value : Nat} {next : Journal} (ok : reserveIdentityNonce (j.withBudget budget) = .ok value next) :
      Session provider next contents

/-- What an opening and a successful operation leave: nothing written yet, or a live
chain whose append offset is its end, or the place that recovery would offer. -/
structure Settled (provider : CryptoProvider) (j : Journal) (contents : Option Contents) : Prop where
  mode : j.appendEnabled = true
  holds : (contents = none ∧ j.baseAttempt = none ∧ ∃ reserved, Unwritten j reserved) ∨
    ∃ e active started reserved, contents = some e.contents ∧ Live provider j active e started reserved ∧
      ((j.appendOffset = some e.stop ∧ e.free = true ∧ started = false) ∨
        j.appendOffset = if started then none else offered j.flash.slotSize e.stop e.free)

end Sessions

section Recovered

variable {active reserved : Nat} {started : Bool} {e : Epoch}

/-- An anchor that agrees with its chain is left alone. -/
theorem reconcileGeneration_settled {f : MemoryFlash} {generation : Nat} (hAnchored : f.monotonicGeneration = .ok generation)
    (hFits : 4 * generation ≤ f.slotSize) : reconcileGeneration generation f = .ok () f := by
  have hBounded := f.bounded
  have hNext : checkedAdd64 generation 1 = some (generation + 1) := if_pos (by omega)
  have hCapacity : ¬f.monotonicCapacity < generation := by
    simp only [MemoryFlash.monotonicCapacity]
    omega
  unfold reconcileGeneration
  simp [bind, EStateM.bind, get, getThe, MonadStateOf.get, EStateM.get, readOnly, hAnchored, failIf, hCapacity, orFail,
    hNext, onlyIf, pure, EStateM.pure]

/-- Recovery of a chain whose anchor agrees with it writes nothing. -/
theorem Stored.recovers (hStored : Stored provider j.key j.appendEnabled j.flash active e started reserved
    (anchor e.generation j.appendEnabled)) (budget : Option Nat) :
    reopen provider j budget = .ok (some e.contents)
      { flash := { j.flash with failAfter := budget }
        generation := e.generation
        baseAttempt := some e.attempt
        active := some active
        appendOffset := if started then none else if j.appendEnabled then offered j.flash.slotSize e.stop e.free else none
        appendEnabled := j.appendEnabled
        slotCount := j.flash.slotCount
        poisoned := false
        key := j.key } := by
  have hCharged : Stored provider j.key j.appendEnabled { j.flash with failAfter := budget } active e started reserved
      (anchor e.generation j.appendEnabled) := { hStored with }
  have hReconcile := reconcileGeneration_settled hCharged.monotonicGeneration hCharged.anchor_le
  unfold reopen openMode recoverWithReplay recoverWithReplayMode
  simp only [bind, EStateM.bind, modify, modifyGet, MonadStateOf.modifyGet, EStateM.modifyGet, get, getThe,
    MonadStateOf.get, EStateM.get, readOnly, Journal.unopened, hCharged.selectCandidate, capture, onFlash, Epoch.candidate,
    hReconcile]
  rfl

/-- An opening that succeeds is live, with the place that the frames leave. -/
theorem Stored.opens {anchored : Nat} {budget : Option Nat} {opened : Journal} (hStored : Stored provider j.key
    j.appendEnabled j.flash active e started reserved anchored) (hOpen : reopen provider j budget = .ok contents opened) :
    contents = some e.contents ∧ Live provider opened active e started reserved ∧ opened.appendEnabled = j.appendEnabled ∧
      opened.appendOffset =
        if started then none else if opened.appendEnabled then offered opened.flash.slotSize e.stop e.free else none := by
  have hCharged : Stored provider j.key j.appendEnabled { j.flash with failAfter := budget } active e started reserved
      anchored := { hStored with }
  have hWorn := (worn_stable { j.flash with failAfter := budget }).reconcileGeneration (anchor e.generation j.appendEnabled)
    { j.flash with failAfter := budget } ⟨rfl, fun _ h => h⟩
  have hReconcile := reconcileGeneration_spec hCharged { j.flash with failAfter := budget } rfl
  unfold reopen openMode recoverWithReplay recoverWithReplayMode at hOpen
  simp only [bind, EStateM.bind, modify, modifyGet, MonadStateOf.modifyGet, EStateM.modifyGet, get, getThe,
    MonadStateOf.get, EStateM.get, readOnly, Journal.unopened, hCharged.selectCandidate, capture, onFlash,
    Epoch.candidate] at hOpen
  cases hRun : reconcileGeneration (anchor e.generation j.appendEnabled) { j.flash with failAfter := budget } with
  | error err flash =>
      rw [hRun] at hOpen
      cases hOpen
  | ok _ flash =>
      rw [hRun] at hOpen hReconcile hWorn
      cases hOpen
      have hSize : flash.slotSize = j.flash.slotSize := hWorn.1
      apply And.intro rfl
      apply And.intro
      · apply Live.mk hReconcile.2 rfl rfl rfl rfl rfl
        intro hMode offset hOffset
        simp only at hMode hOffset
        cases started with
        | true => cases hOffset
        | false =>
            simp only [Bool.false_eq_true, if_false, hMode, if_true] at hOffset
            obtain ⟨hEq, hFree⟩ := offered_eq_some hOffset
            exact ⟨hEq, hFree, rfl⟩
      apply And.intro rfl
      simp only [hSize]
      rfl

end Recovered

section Invariant

/-- A commit on a journal without a record ends without one, or with its own. -/
theorem commit_begins (hCorrect : provider.Correct) {data : List Byte} {durability : Durability} {token : Option Nat}
    (hMode : j.appendEnabled = false → durability = .anchored) (hYoung : Young j) :
    Triple (fun s => s = j) (commitOwnedWithNonce data durability provider token)
      (fun _ j' => Young j' ∨ ∃ e, Keeps provider j' e) (fun _ j' => Young j' ∨ ∃ e, Keeps provider j' e) := by
  cases hIntact : j.poisoned with
  | true =>
      rintro s rfl
      rw [commit_refused hIntact]
      exact .inl hYoung
  | false =>
      obtain ⟨reserved, -, hUnwritten⟩ := hYoung
      apply (commit_first_spec hCorrect (hUnwritten hIntact) hMode).conseq (fun _ h => h)
      · rintro _ j' ⟨-, attempt, generation, reserved', -, -, hLive⟩
        exact .inr ⟨_, hLive.keeps⟩
      · rintro _ j' ⟨-, ⟨hStill, -⟩ | ⟨attempt, generation, -, -, ⟨hStill, -⟩ | hKeeps⟩⟩
        · exact .inl hStill
        · exact .inl hStill
        · exact .inr ⟨_, hKeeps⟩

/-- One operation on a journal without a record. -/
theorem Young.operates (hCorrect : provider.Correct) (hYoung : Young j) {operation : Operation}
    (hOffered : operation.Offered j.appendEnabled) :
    Triple (fun s => s = j) (operation.run provider) (fun _ j' => Young j' ∨ ∃ e, Keeps provider j' e)
      (fun _ j' => Young j' ∨ ∃ e, Keeps provider j' e) := by
  have hKeep : ∀ {α : Type} {program : JournalM α}, Triple (fun s => s = j) program
      (fun _ j' => Young j' ∨ ∃ e, Keeps provider j' e) (fun _ j' => Young j' ∨ ∃ e, Keeps provider j' e) →
      Triple (fun s => s = j) (do let _ ← program) (fun _ j' => Young j' ∨ ∃ e, Keeps provider j' e)
        (fun _ j' => Young j' ∨ ∃ e, Keeps provider j' e) :=
    fun h => Triple.bind h fun _ => Triple.ret fun _ h => h
  cases operation with
  | commit data token => exact hKeep (commit_begins hCorrect (fun _ => rfl) hYoung)
  | compact data durability =>
      apply hKeep (commit_begins hCorrect _ hYoung)
      intro hLegacy
      exact absurd (hOffered.symm.trans hLegacy) (by decide)
  | append data durability =>
      have hRefused : j.poisoned = true ∨ j.appendOffset = none := by
        cases hIntact : j.poisoned with
        | true => exact .inl rfl
        | false =>
            obtain ⟨reserved, -, hUnwritten⟩ := hYoung
            exact .inr (hUnwritten hIntact).appendOffset
      obtain ⟨e, hRun⟩ := @append_refused provider j data durability hRefused
      rintro s rfl
      simp only [Operation.run, hRun]
      exact .inl hYoung
  | recover allowUnreconciled =>
      obtain ⟨reserved, hNascent, -⟩ := hYoung
      apply hKeep
      exact (recover_young hNascent).conseq (fun _ h => h) (fun _ _ h => .inl h.2) fun _ _ h => .inl h
  | reserve =>
      apply hKeep
      exact (reserve_young hYoung).conseq (fun _ h => h) (fun _ _ h => .inl h) fun _ _ h => .inl h

/-- Whatever a history did, its journal has no finished commit or keeps a chain. -/
theorem History.young_or_keeps (hCorrect : provider.Correct) (h : History provider j past) :
    Young j ∨ ∃ e, Keeps provider j e := by
  induction h with
  | opened ok => exact .inl (openMode_fresh (withSlots_fresh ok) ok).2.1.young
  | @operate j past history operation offered held budget ih =>
      rcases ih with hYoung | ⟨e, hKeeps⟩
      · exact Triple.finalState (Young.operates hCorrect (hYoung.withBudget budget) offered)
      · apply Triple.finalState (P := fun j' => Young j' ∨ ∃ e, Keeps provider j' e)
        apply (Operation.run_spec hCorrect (hKeeps.withBudget budget) offered).conseq (fun _ h => h)
        · rintro _ j' ⟨e', hKept, -⟩
          exact .inr ⟨e', hKept⟩
        · rintro _ j' ⟨e', hKept, -⟩
          exact .inr ⟨e', hKept⟩
  | @reopen j past history budget ih =>
      rcases ih with hYoung | ⟨e, hKeeps⟩
      · left
        obtain ⟨reserved, hNascent, -⟩ := hYoung.unopened budget
        apply Triple.finalState (P := Young)
        exact (recover_young hNascent).conseq (fun _ h => h) (fun _ _ h => h.2) fun _ _ h => h
      · exact .inr ⟨e, hKeeps.reopen_cut budget⟩

theorem Settled.ofUnwritten {reserved : Nat} (hMode : j.appendEnabled = true) (hBase : j.baseAttempt = none)
    (h : Unwritten j reserved) : Settled provider j none :=
  ⟨hMode, .inl ⟨rfl, hBase, reserved, h⟩⟩

theorem fresh_settled {f : MemoryFlash} {key : List Byte} {reserved : Nat} {opened : Journal} (h : FreshFlash f reserved)
    (hOpen : openMode f key provider true recorder = .ok contents opened) : Settled provider opened contents := by
  obtain ⟨rfl, hUnwritten, -, hMode, -⟩ := openMode_fresh h hOpen
  apply Settled.ofUnwritten hMode _ hUnwritten
  rw [h.openMode] at hOpen
  cases hOpen
  rfl

theorem Settled.withBudget (h : Settled provider j contents) (budget : Option Nat) :
    Settled provider (j.withBudget budget) contents := by
  refine ⟨h.mode, ?_⟩
  rcases h.holds with ⟨hNone, hBase, reserved, hUnwritten⟩ | ⟨e, active, started, reserved, hContents, hLive, hOffset⟩
  · exact .inl ⟨hNone, hBase, reserved, { hUnwritten with flash := { hUnwritten.flash with } }⟩
  · exact .inr ⟨e, active, started, reserved, hContents, { hLive with stored := { hLive.stored with } }, hOffset⟩

/-- A live journal that offers a frame offers the end of its chain. -/
theorem Settled.ofLive {e : Epoch} {active reserved start : Nat} {started : Bool} (hMode : j.appendEnabled = true)
    (hLive : Live provider j active e started reserved) (hOffset : j.appendOffset = some start) :
    Settled provider j (some e.contents) := by
  obtain ⟨hStop, hFree, hStarted⟩ := hLive.appendOffset hMode start hOffset
  exact ⟨hMode, .inr ⟨e, active, started, reserved, rfl, hLive, .inl ⟨hStop ▸ hOffset, hFree, hStarted⟩⟩⟩

/-- A commit leaves its snapshot. -/
theorem Settled.commits (hCorrect : provider.Correct) (h : Settled provider j contents) {data record : List Byte}
    {durability : Durability} {token : Option Nat}
    (hCommit : commitOwnedWithNonce data durability provider token j = .ok record next) :
    Settled provider next (some ⟨data, []⟩) := by
  have hLegacy : j.appendEnabled = false → durability = .anchored := by
    intro hFalse
    exact absurd (h.mode.symm.trans hFalse) (by decide)
  obtain ⟨hOffers, -⟩ := Triple.ok (commit_offers data durability token) rfl hCommit
  rcases h.holds with ⟨-, -, reserved, hUnwritten⟩ | ⟨e, active, started, reserved, -, hLive, -⟩
  · obtain ⟨-, attempt, generation, reserved', -, -, hNew⟩ :=
      Triple.ok (commit_first_spec hCorrect hUnwritten hLegacy) rfl hCommit
    exact Settled.ofLive (hOffers.appendEnabled.trans h.mode) hNew hOffers.appendOffset
  · obtain ⟨-, attempt, generation, reserved', -, -, hNew⟩ :=
      Triple.ok (commitOwnedWithNonce_spec hCorrect hLive hLegacy) rfl hCommit
    exact Settled.ofLive (hOffers.appendEnabled.trans h.mode) hNew hOffers.appendOffset

/-- After an append the next frame has a place. -/
theorem append_offers (data : List Byte) (durability : Durability) :
    Triple (fun s => s = j) (appendWith data durability provider)
      (fun _ j' => ∃ start, j'.appendOffset = some start) fun _ _ => True := by
  apply Triple.get
  rintro s rfl
  apply Triple.failIf_bind (fun _ _ _ => trivial)
  intro _
  apply Triple.orFail_bind (fun _ _ _ => trivial)
  intro start _
  apply Triple.bind (Q := fun _ j' => j' = s ∧ ∃ stop, frameEnd s.flash start data.length = .ok stop)
  · apply Triple.get
    rintro _ rfl
    apply Triple.failIf_bind (fun _ _ _ => trivial)
    intro _
    apply Triple.failIf_bind (fun _ _ _ => trivial)
    intro _
    apply Triple.orFail_bind (fun _ _ _ => trivial)
    intro slot _
    apply Triple.readOnly_bind _ (fun _ _ _ _ => trivial)
    intro stop hStop
    apply Triple.readOnly_bind _ (fun _ _ _ _ => trivial)
    intro generation _
    apply Triple.failIf_bind (fun _ _ _ => trivial)
    intro _
    apply Triple.readOnly_bind _ (fun _ _ _ _ => trivial)
    intro free _
    apply Triple.failIf_bind (fun _ _ _ => trivial)
    intro _
    exact Triple.ret fun _ hs => ⟨hs, stop, hStop⟩
  intro prepared
  apply Triple.of_state
  rintro s' ⟨hSame, stop, hStop⟩
  subst hSame
  apply Triple.orFail_bind (fun _ _ _ => trivial)
  intro attempt _
  apply Triple.readOnly_bind _ (fun _ _ _ _ => trivial)
  intro payloadLength _
  apply Triple.readOnly_bind _ (fun _ _ _ _ => trivial)
  intro label _
  apply Triple.readOnly_bind _ (fun _ _ _ _ => trivial)
  intro record _
  apply Triple.bind (Q := fun _ j' => Worn s'.flash j'.flash)
  · apply (((worn_anchorStable s'.flash).publish _ _ _ _ _ _ _).at ⟨rfl, fun _ h => h⟩).conseq (fun _ h => h)
    · exact fun _ _ h => h
    · exact fun _ _ _ => trivial
  intro _
  apply Triple.update
  intro j' hWorn
  have hSame : frameEnd j'.flash start data.length = frameEnd s'.flash start data.length := by
    simp only [frameEnd, hWorn.1]
  exact ⟨stop, by rw [hSame, hStop]; rfl⟩

/-- An append leaves its data behind what was there. -/
theorem Settled.appends (hCorrect : provider.Correct) (h : Settled provider j contents) {data : List Byte}
    {durability : Durability} (hAppend : appendWith data durability provider j = .ok () next) :
    Settled provider next (contents.map fun held => ⟨held.snapshot, held.appended ++ [data]⟩) := by
  rcases h.holds with ⟨-, -, reserved, hUnwritten⟩ | ⟨e, active, started, reserved, rfl, hLive, -⟩
  · obtain ⟨e, hRefused⟩ := @append_refused provider j data durability
      (.inr hUnwritten.appendOffset)
    rw [hRefused] at hAppend
    cases hAppend
  · obtain ⟨hSame, generation, stop, -, -, hNew⟩ := Triple.ok (appendWith_spec hCorrect hLive) rfl hAppend
    obtain ⟨start, hOffset⟩ := Triple.ok (append_offers data durability) rfl hAppend
    exact Settled.ofLive (hSame.appendEnabled.trans h.mode) hNew hOffset

/-- A reservation moves the nonce counter and nothing else. -/
theorem Settled.reserves (h : Settled provider j contents) {value : Nat}
    (hReserve : reserveIdentityNonce j = .ok value next) : Settled provider next contents := by
  rcases h.holds with ⟨hNone, hBase, reserved, hUnwritten⟩ | ⟨e, active, started, reserved, hContents, hLive, hOffset⟩
  · have hMoved := Triple.ok (reserveIdentityNonce_moves hUnwritten.flash.nonces hUnwritten.flash.whole) rfl hReserve
    have hStill := hUnwritten.reserves hMoved
    obtain ⟨c, x, rfl, -⟩ := hMoved
    exact ⟨h.mode, .inl ⟨hNone, hBase, _, hStill⟩⟩
  · obtain ⟨c, x, rfl, hCounter⟩ :=
      Triple.ok (reserveIdentityNonce_moves hLive.stored.nonces hLive.stored.whole) rfl hReserve
    have hStill := hLive.stored.withNonces x hCounter (Nat.le_succ _)
    exact ⟨h.mode, .inr ⟨e, active, started, reserved + 1, hContents, { hLive with stored := hStill }, hOffset⟩⟩

theorem Session.settled (hCorrect : provider.Correct) (h : Session provider j contents) : Settled provider j contents := by
  induction h with
  | first ok => exact fresh_settled (withSlots_fresh ok) ok
  | @opened j past history mode budget contents opened ok =>
      rcases history.young_or_keeps hCorrect with hYoung | ⟨e, active, started, reserved, anchored, hStored, -⟩
      · obtain ⟨reserved, hNascent, -⟩ := hYoung.unopened budget
        rcases @Nascent.selectCandidate provider j.key j.appendEnabled _ _ hNascent with
          ⟨hFresh, -⟩ | ⟨e, hRefused⟩
        · rw [reopen, mode] at ok
          exact fresh_settled hFresh ok
        · obtain ⟨selected, hSelected⟩ := openMode_selects ok
          exact absurd (hRefused.symm.trans hSelected) (by simp)
      · obtain ⟨rfl, hLive, hSame, hOffset⟩ := hStored.opens ok
        have hMode := hSame.trans mode
        rw [hMode, if_pos rfl] at hOffset
        exact ⟨hMode, .inr ⟨e, active, started, reserved, rfl, hLive, .inr hOffset⟩⟩
  | committed session data durability token budget ok ih => exact (ih.withBudget budget).commits hCorrect ok
  | appended session data durability budget ok ih => exact (ih.withBudget budget).appends hCorrect ok
  | reserved session budget ok ih => exact (ih.withBudget budget).reserves ok

end Invariant

section Reopened

/-- Two journals that report the same and have room for the same frames. -/
structure Agrees (opened j : Journal) : Prop where
  generation : opened.generation = j.generation
  baseAttempt : opened.baseAttempt = j.baseAttempt
  active : opened.active = j.active
  appendCapacity : opened.appendCapacity = j.appendCapacity
  remainingAppendFrames : opened.remainingAppendFrames = j.remainingAppendFrames
  remainingCommits : opened.remainingCommits = j.remainingCommits
  fits : ∀ length, opened.Fits length ↔ j.Fits length

/-- A place behind which no frame fits is as good as none. -/
theorem no_room {flash : MemoryFlash} {stop length : Nat}
    (hFull : ¬(stop + minFrameBytes + 0 + 3) / 4 * 4 ≤ flash.slotSize - tailBytes) :
    (flash.slotSize - tailBytes - stop) / 4 * 4 - minFrameBytes = 0 ∧
      (flash.slotSize - tailBytes - stop) / maxFrameBytes = 0 ∧ ∀ found, frameEnd flash stop length ≠ .ok found := by
  simp only [minFrameBytes, headerBytes, markerBytes, tailBytes, maxFrameBytes] at hFull ⊢
  refine ⟨by omega, by omega, fun found hFound => ?_⟩
  unfold frameEnd at hFound
  split at hFound
  · cases hFound
  split at hFound
  · cases hFound
  simp only at hFound
  split at hFound
  · rename_i hFits
    simp only [minFrameBytes, headerBytes, markerBytes, tailBytes] at hFits
    omega
  · cases hFound

/-- Journals over one flash agree as soon as their next frames start at one place, or
one of them has a place without room where the other has none. -/
theorem Agrees.of_offset {opened : Journal} {budget : Option Nat} (hFlash : opened.flash = { j.flash with failAfter := budget })
    (hMode : opened.appendEnabled = j.appendEnabled) (hOpened : opened.poisoned = false) (hIntact : j.poisoned = false)
    (hGeneration : opened.generation = j.generation) (hBase : opened.baseAttempt = j.baseAttempt)
    (hActive : opened.active = j.active)
    (hOffset : opened.appendOffset = j.appendOffset ∨ opened.appendOffset = none ∧ ∃ stop, j.appendOffset = some stop ∧
      ¬(stop + minFrameBytes + 0 + 3) / 4 * 4 ≤ j.flash.slotSize - tailBytes)
    (hEnabled : j.appendEnabled = true) : Agrees opened j := by
  have hCommits : opened.remainingCommits = j.remainingCommits := by
    simp only [Journal.remainingCommits, hFlash, hMode, hOpened, hIntact, hGeneration]
    rfl
  rcases hOffset with hSame | ⟨hNone, stop, hSome, hFull⟩
  · apply Agrees.mk hGeneration hBase hActive _ _ hCommits
    · intro length
      simp only [Journal.Fits, hSame, hFlash]
      rfl
    · simp only [Journal.appendCapacity, hFlash, hMode, hOpened, hIntact, hSame]
    · simp only [Journal.remainingAppendFrames, hFlash, hMode, hOpened, hIntact, hSame]
  · apply Agrees.mk hGeneration hBase hActive _ _ hCommits
    · intro length
      simp only [Journal.Fits, hNone, hSome, reduceCtorEq, false_and, exists_false, Option.some.injEq, false_iff]
      rintro ⟨start, found, rfl, hFound⟩
      exact (no_room hFull).2.2 found hFound
    · obtain ⟨hRoom, -⟩ := @no_room _ _ 0 hFull
      simp only [Journal.appendCapacity, hNone, hSome, hOpened, hIntact, hEnabled, failIf, orFail, pure_bind, hRoom, if_true]
      rfl
    · obtain ⟨-, hFrames, -⟩ := @no_room _ _ 0 hFull
      simp only [Journal.remainingAppendFrames, hNone, hSome, hOpened, hIntact, hMode, hEnabled, hFrames]

/-- Opening the flash of a settled journal again gives the same journal. -/
theorem Settled.reopens (h : Settled provider j contents) (budget : Option Nat) :
    ∃ opened, reopen provider j budget = .ok contents opened ∧ Agrees opened j := by
  rcases h.holds with ⟨rfl, hBase, reserved, hUnwritten⟩ | ⟨e, active, started, reserved, rfl, hLive, hOffset⟩
  · have hFresh : FreshFlash { j.flash with failAfter := budget } reserved := { hUnwritten.flash with }
    refine ⟨_, hFresh.openMode, Agrees.of_offset rfl rfl rfl hUnwritten.intact ?_ ?_ ?_ (.inl ?_) h.mode⟩
    · exact hUnwritten.generation.symm
    · exact hBase.symm
    · exact hUnwritten.active.symm
    · exact hUnwritten.appendOffset.symm
  · refine ⟨_, hLive.stored.recovers budget, Agrees.of_offset rfl rfl rfl hLive.poisoned ?_ ?_ ?_ ?_ h.mode⟩
    · exact hLive.generation.symm
    · exact hLive.baseAttempt.symm
    · exact hLive.active.symm
    · simp only [h.mode, if_true]
      rcases hOffset with ⟨hStop, hFree, rfl⟩ | hSame
      · rw [hStop, hFree]
        unfold offered
        by_cases hRoom : (e.stop + minFrameBytes + 0 + 3) / 4 * 4 ≤ j.flash.slotSize - tailBytes
        · left
          simp [hRoom]
        · right
          exact ⟨by simp [hRoom], _, rfl, hRoom⟩
      · exact .inl hSame.symm

/-- Reopening equals the live journal. However a journal was opened and used without a
failure since, opening its flash again yields what was written, and a journal that
reports the same and has room for the same frames. -/
theorem reopening_equals_live (hCorrect : provider.Correct) (hSession : Session provider j contents)
    (budget : Option Nat) : ∃ opened, reopen provider j budget = .ok contents opened ∧ Agrees opened j :=
  (hSession.settled hCorrect).reopens budget

theorem ok_of_succeeded {α : Type} {result : EStateM.Result Error Journal α} (h : succeeded result = true) :
    ∃ a, result = .ok a (finalState result) := by
  cases result with
  | ok a j => exact ⟨a, rfl⟩
  | error e j => cases h

/-- Two slots of 112 bytes, opened with replay. -/
def blankJournal : Journal :=
  finalState (openMode (MemoryFlash.withSlots 112 2 shortSlot_bounded) [] plainProvider true recorder)

def framedJournal : Journal :=
  finalState (appendWith [2] .anchored plainProvider
    ((finalState (commitOwnedWithNonce [1] .anchored plainProvider none (blankJournal.withBudget none))).withBudget none))

/-- One snapshot and one frame behind it. -/
theorem reopening_equals_live_framed : ∃ opened,
    reopen plainProvider framedJournal none = .ok (some ⟨[1], [[2]]⟩) opened ∧ Agrees opened framedJournal := by
  have hRuns : succeeded (commitOwnedWithNonce [1] .anchored plainProvider none (blankJournal.withBudget none)) = true ∧
      succeeded (appendWith [2] .anchored plainProvider
        ((finalState (commitOwnedWithNonce [1] .anchored plainProvider none (blankJournal.withBudget none))).withBudget none)) =
        true := by
    decide +kernel
  obtain ⟨hCommitted, hAppended⟩ := hRuns
  obtain ⟨contents, hFirst⟩ := ok_of_succeeded erasedFlash_opens
  obtain ⟨record, hSecond⟩ := ok_of_succeeded hCommitted
  obtain ⟨_, hThird⟩ := ok_of_succeeded hAppended
  have hSession : Session plainProvider framedJournal (some ⟨[1], [[2]]⟩) :=
    Session.appended (Session.committed (Session.first hFirst) [1] .anchored none none hSecond) [2] .anchored none hThird
  exact reopening_equals_live plainProvider_correct hSession none

end Reopened

end MicroCard.Journal
