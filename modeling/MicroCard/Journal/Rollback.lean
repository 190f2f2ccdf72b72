import MicroCard.Journal.Chains

/-! Rollback resistance. The anchor counter excludes every chain whose anchor lies
below it, so what an attacker can still make a journal read is a chain of the
highest anchor. As long as no anchored operation is interrupted between its record
and its marker, that chain contains every acknowledged anchored operation. -/
namespace MicroCard.Journal

open Bytes CrashTriple Relation Lineage

section Wear

/-- A flash whose anchor counter has kept every word used in `f`. -/
def Worn (f g : MemoryFlash) : Prop :=
  g.slotSize = f.slotSize ∧ ∀ i, f.monotonic i ≠ 0xff → g.monotonic i ≠ 0xff

variable {f g : MemoryFlash}

theorem Worn.le {m m' : Nat} (h : Worn f g) (hBefore : CounterIs f.monotonic f.slotSize m)
    (hAfter : CounterIs g.monotonic g.slotSize m') : m ≤ m' := by
  by_contra hLess
  have hFits := hBefore.fits
  obtain ⟨i, hLow, hHigh, hUsed⟩ := hBefore.used (m - 1) (by omega)
  refine h.2 i hUsed (hAfter.free i (by omega) ?_)
  rw [h.1]
  omega

/-- A condition that losing power budget and wearing a counter cannot break. -/
structure CounterStable (P : MemoryFlash → Prop) : Prop where
  budget : ∀ f x, P f → P { f with failAfter := x }
  clear : ∀ nonce location f, P f → P (clearCounterByte nonce location f)

theorem worn_stable (f : MemoryFlash) : CounterStable (Worn f) where
  budget := fun _ _ hg => hg
  clear := by
    intro nonce location g hg
    cases nonce with
    | true => exact hg
    | false =>
        refine ⟨hg.1, fun i hi => ?_⟩
        simp only [clearCounterByte, Bool.false_eq_true, if_false]
        split
        · decide
        · exact hg.2 i hi

theorem trace_stable (trace : Trace) : CounterStable fun f => f.trace = trace where
  budget := fun _ _ hg => hg
  clear := by
    intro nonce location g hg
    cases nonce <;> exact hg

section Counter

variable {P : MemoryFlash → Prop}

theorem CounterStable.tick (h : CounterStable P) : Invariant P tick := by
  intro g hg
  unfold Journal.tick
  cases hBudget : g.failAfter with
  | none => exact hg
  | some n =>
      cases n with
      | zero => exact hg
      | succ n => exact h.budget g (some n) hg

theorem CounterStable.advanceWordCounter (h : CounterStable P) (generation : Nat) (nonce : Bool) :
    Invariant P (advanceWordCounter generation nonce) := by
  refine Invariant.bind (Invariant.failIf _ _) fun _ => ?_
  refine Invariant.bind (Invariant.failIf _ _) fun _ => ?_
  apply Invariant.get
  intro s
  refine Invariant.bind (Invariant.failIf _ _) fun _ => ?_
  refine Invariant.bind (Invariant.failIf _ _) fun _ => ?_
  apply Invariant.forM
  intro location
  exact Invariant.bind h.tick fun _ => Invariant.update (h.clear nonce location)

theorem CounterStable.reserveNonce (h : CounterStable P) : Invariant P reserveNonce := by
  apply Invariant.get
  intro s
  refine Invariant.bind (Invariant.readOnly _) fun _ => ?_
  refine Invariant.bind (Invariant.orFail _ _) fun next => ?_
  exact Invariant.bind (h.advanceWordCounter next true) fun _ => Invariant.ret _

theorem CounterStable.reconcileGeneration (h : CounterStable P) (generation : Nat) :
    Invariant P (reconcileGeneration generation) := by
  apply Invariant.get
  intro s
  refine Invariant.bind (Invariant.readOnly _) fun _ => ?_
  refine Invariant.bind (Invariant.failIf _ _) fun _ => ?_
  refine Invariant.bind (Invariant.orFail _ _) fun next => ?_
  refine Invariant.bind (Invariant.failIf _ _) fun _ => ?_
  exact Invariant.onlyIf (h.advanceWordCounter generation false)

theorem onFlash_invariant {α : Type} {operation : FlashM α} (h : Invariant P operation) :
    Invariant (fun j : Journal => P j.flash) (onFlash operation) := by
  intro j hj
  have hRun := h j.flash hj
  simp only [onFlash]
  cases hResult : operation j.flash with
  | ok a g =>
      rw [hResult] at hRun
      exact hRun
  | error e g =>
      rw [hResult] at hRun
      exact hRun

/-- Recovery wears the anchor counter and nothing else. -/
theorem CounterStable.recover (h : CounterStable P) {σ : Type} (provider : CryptoProvider) (replay : Replay σ)
    (allowUnreconciled : Bool) :
    Invariant (fun j : Journal => P j.flash) (recoverWithReplayMode provider replay allowUnreconciled) := by
  refine Invariant.bind (Invariant.update fun j hj => hj) fun _ => ?_
  apply Invariant.get
  intro s
  refine Invariant.bind (Invariant.readOnly _) fun selected => ?_
  refine Invariant.bind (Triple.capture (onFlash_invariant (h.reconcileGeneration _))) fun reconciled => ?_
  refine Invariant.bind (Invariant.update fun j hj => hj) fun _ => ?_
  cases reconciled with
  | ok _ => exact Invariant.ret _
  | error e =>
      cases allowUnreconciled with
      | true => exact Invariant.ret _
      | false => exact Triple.raise fun j hj => hj

theorem CounterStable.reserveIdentityNonce (h : CounterStable P) :
    Invariant (fun j : Journal => P j.flash) reserveIdentityNonce := by
  apply Invariant.get
  intro s
  refine Invariant.bind (Invariant.failIf _ _) fun _ => ?_
  refine Invariant.bind (onFlash_invariant h.reserveNonce) fun value => ?_
  apply Invariant.get
  intro s'
  exact Invariant.bind (Invariant.failIf _ _) fun _ => Invariant.ret _

end Counter

/-- A condition on the counters that leaves the slots out and that advancing the anchor
cannot break. -/
structure AnchorStable (P : MemoryFlash → Prop) : Prop where
  slots : ∀ f g, g.slotSize = f.slotSize → g.monotonic = f.monotonic → g.nonces = f.nonces → P f → P g
  clear : ∀ location f, P f → P (clearCounterByte false location f)

theorem worn_anchorStable (f : MemoryFlash) : AnchorStable (Worn f) where
  slots := by
    intro g h hSize hMonotonic _ hWorn
    rw [Worn, hSize, hMonotonic]
    exact hWorn
  clear := (worn_stable f).clear false

section Programs

variable {P : MemoryFlash → Prop}

theorem AnchorStable.tick (h : AnchorStable P) : Invariant P tick := by
  intro g hg
  unfold Journal.tick
  cases hBudget : g.failAfter with
  | none => exact hg
  | some n =>
      cases n with
      | zero => exact hg
      | succ n => exact h.slots g _ rfl rfl rfl hg

theorem AnchorStable.advanceMonotonic (h : AnchorStable P) (generation : Nat) :
    Invariant P (advanceMonotonic generation) := by
  refine Invariant.bind (Invariant.failIf _ _) fun _ => ?_
  refine Invariant.bind (Invariant.failIf _ _) fun _ => ?_
  apply Invariant.get
  intro s
  refine Invariant.bind (Invariant.failIf _ _) fun _ => ?_
  refine Invariant.bind (Invariant.failIf _ _) fun _ => ?_
  apply Invariant.forM
  intro location
  exact Invariant.bind h.tick fun _ => Invariant.update (h.clear location)

theorem AnchorStable.erase (h : AnchorStable P) (slot : Nat) : Invariant P (erase slot) := by
  apply Invariant.get
  intro s
  refine Invariant.bind (Invariant.forM fun location => ?_) fun _ => Invariant.update fun g => h.slots g _ rfl rfl rfl
  exact Invariant.bind h.tick fun _ => Invariant.update fun g => h.slots g _ rfl rfl rfl

theorem AnchorStable.program (h : AnchorStable P) (label : Option (List Byte)) (slot offset : Nat) (bytes : List Byte) :
    Invariant P (program label slot offset bytes) := by
  apply Invariant.get
  intro s
  refine Invariant.bind (Invariant.failIf _ _) fun _ => ?_
  refine Invariant.bind (Invariant.forM fun pos => ?_) fun _ => ?_
  · apply Invariant.get
    intro s'
    refine Invariant.bind (Invariant.failIf _ _) fun _ => ?_
    split
    · exact Invariant.ret _
    · refine Invariant.bind (Invariant.failIf _ _) fun _ => ?_
      refine Invariant.bind (Invariant.forM fun _ => h.tick) fun _ => ?_
      exact Invariant.update fun g => h.slots g _ rfl rfl rfl
  · cases label with
    | none => exact Invariant.ret _
    | some label => exact Invariant.update fun g => h.slots g _ rfl rfl rfl

theorem AnchorStable.replaceRecord (h : AnchorStable P) (active : Option Nat) (slot size generation attempt : Nat)
    (durability : Durability) (record : List Byte) :
    Invariant (fun j : Journal => P j.flash) (replaceRecord active slot size generation attempt durability record) := by
  have hMark : ∀ offset, Invariant (fun j : Journal => P j.flash) (markReclaim active offset) := by
    intro offset
    cases active with
    | none => exact Invariant.ret _
    | some active => exact onFlash_invariant (h.program _ _ _ _)
  refine Invariant.bind (Invariant.update fun j hj => hj) fun _ => ?_
  refine Invariant.bind (hMark _) fun _ => ?_
  refine Invariant.bind (onFlash_invariant (h.erase _)) fun _ => ?_
  refine Invariant.bind (onFlash_invariant (h.program _ _ _ _)) fun _ => ?_
  refine Invariant.bind (onFlash_invariant (h.program _ _ _ _)) fun _ => ?_
  refine Invariant.bind (hMark _) fun _ => ?_
  refine Invariant.bind (Invariant.update fun j hj => hj) fun _ => ?_
  apply Invariant.get
  intro s
  refine Invariant.bind (Invariant.onlyIf (onFlash_invariant (h.advanceMonotonic _))) fun _ => ?_
  exact Invariant.update fun j hj => hj

theorem AnchorStable.publish (h : AnchorStable P) (label : List Byte) (slot start stop generation : Nat)
    (durability : Durability) (record : List Byte) :
    Invariant (fun j : Journal => P j.flash) (publish label slot start stop generation durability record) := by
  refine Invariant.bind (Invariant.update fun j hj => hj) fun _ => ?_
  refine Invariant.bind (onFlash_invariant (h.program _ _ _ _)) fun _ => ?_
  refine Invariant.bind (onFlash_invariant (h.program _ _ _ _)) fun _ => ?_
  refine Invariant.bind (Invariant.onlyIf (onFlash_invariant (h.advanceMonotonic _))) fun _ => ?_
  exact Invariant.update fun j hj => hj

/-- An append moves no counter but the anchor. -/
theorem AnchorStable.appendWith (h : AnchorStable P) (data : List Byte) (durability : Durability)
    (provider : CryptoProvider) : Invariant (fun j : Journal => P j.flash) (appendWith data durability provider) := by
  apply Invariant.get
  intro s
  refine Invariant.bind (Invariant.failIf _ _) fun _ => ?_
  refine Invariant.bind (Invariant.orFail _ _) fun start => ?_
  refine Invariant.bind ?_ fun prepared => ?_
  · apply Invariant.get
    intro s'
    refine Invariant.bind (Invariant.failIf _ _) fun _ => ?_
    refine Invariant.bind (Invariant.failIf _ _) fun _ => ?_
    refine Invariant.bind (Invariant.orFail _ _) fun _ => ?_
    refine Invariant.bind (Invariant.readOnly _) fun _ => ?_
    refine Invariant.bind (Invariant.readOnly _) fun _ => ?_
    refine Invariant.bind (Invariant.failIf _ _) fun _ => ?_
    refine Invariant.bind (Invariant.readOnly _) fun _ => ?_
    exact Invariant.bind (Invariant.failIf _ _) fun _ => Invariant.ret _
  · refine Invariant.bind (Invariant.orFail _ _) fun _ => ?_
    refine Invariant.bind (Invariant.readOnly _) fun _ => ?_
    refine Invariant.bind (Invariant.readOnly _) fun _ => ?_
    refine Invariant.bind (Invariant.readOnly _) fun _ => ?_
    exact Invariant.bind (h.publish _ _ _ _ _ _ _) fun _ => Invariant.update fun j hj => hj

end Programs

theorem commitOwnedWithNonce_worn (data : List Byte) (durability : Durability) (provider : CryptoProvider)
    (token : Option Nat) :
    Invariant (fun j : Journal => Worn f j.flash) (commitOwnedWithNonce data durability provider token) := by
  apply Invariant.get
  intro s
  refine Invariant.bind (Invariant.failIf _ _) fun _ => ?_
  refine Invariant.bind (Invariant.failIf _ _) fun _ => ?_
  refine Invariant.bind (Invariant.readOnly _) fun _ => ?_
  refine Invariant.bind (Invariant.failIf _ _) fun _ => ?_
  refine Invariant.bind ?_ fun sealed =>
    Invariant.bind ((worn_anchorStable f).replaceRecord _ _ _ _ _ _ _) fun _ => Invariant.ret _
  refine Invariant.bind (Invariant.readOnly _) fun _ => ?_
  apply Invariant.get
  intro s'
  refine Invariant.bind ?_ fun attempt => ?_
  · cases token with
    | none => exact onFlash_invariant (worn_stable f).reserveNonce
    | some value =>
        refine Invariant.bind (Invariant.failIf _ _) fun _ => ?_
        apply Invariant.get
        intro s''
        refine Invariant.bind (Invariant.readOnly _) fun _ => ?_
        exact Invariant.bind (Invariant.failIf _ _) fun _ => Invariant.ret _
  · refine Invariant.bind (onFlash_invariant (Invariant.update fun g hg => hg)) fun _ => ?_
    exact Invariant.bind (Invariant.readOnly _) fun _ => Invariant.ret _

end Wear

section Beginning

variable {provider : CryptoProvider} {key : List Byte} {appendEnabled : Bool} {f : MemoryFlash} {j : Journal}
  {reserved : Nat}

theorem Nascent.fresh (h : Nascent f reserved) (hErased : ∀ i < f.slotSize, f.slots 0 i = 0xff) : FreshFlash f reserved where
  two_le := h.two_le
  le_eight := h.le_eight
  whole := h.whole
  large := h.large
  nonces := h.nonces
  monotonic := h.monotonic
  erased := by
    intro slot hSlot
    by_cases hFirst : slot = 0
    · rw [hFirst]
      exact hErased
    · exact h.others slot hSlot hFirst

/-- A begun slot zero is noticed by the scan, and nothing is selected. -/
theorem Nascent.scan (h : Nascent f reserved) (hBegun : ¬∀ i < f.slotSize, f.slots 0 i = 0xff) :
    ∀ k, k < f.slotCount → ∃ corrupt, (List.range (k + 1)).foldlM
      (scanSlot f key appendEnabled provider recorder reserved) ⟨none, false, false⟩ = .ok ⟨none, true, corrupt⟩
  | 0, hk => by
      have hErased : f.isErased 0 = .ok false := by
        rw [MemoryFlash.isErased, if_pos hk]
        congr 1
        rw [Bool.eq_false_iff]
        intro hAll
        rw [range_all_iff] at hAll
        exact hBegun fun i hi => by simpa using hAll i hi
      have hRead : readCandidate f key appendEnabled provider recorder 0 f.slotSize reserved = .ok .absent ∨
          readCandidate f key appendEnabled provider recorder 0 f.slotSize reserved = .ok .corrupt := by
        rcases h.first with hAll | hWiped | hVacant
        · exact absurd hAll hBegun
        · exact readCandidate_wiped (h.readable hk) hWiped
        · exact .inl (readCandidate_vacant (h.readable hk) hVacant.notOld hVacant.uncommitted)
      rcases hRead with hRead | hRead
      · exact ⟨false, by simp [List.range_succ, scanSlot, hErased, hRead, bind, Except.bind, pure, Except.pure]⟩
      · exact ⟨true, by simp [List.range_succ, scanSlot, hErased, hRead, bind, Except.bind, pure, Except.pure]⟩
  | k + 1, hk => by
      obtain ⟨corrupt, hFold⟩ := h.scan hBegun k (by omega)
      have hBlank := h.others (k + 1) hk (by omega)
      have hErased : f.isErased (k + 1) = .ok true := by
        rw [MemoryFlash.isErased, if_pos hk]
        congr 1
        rw [range_all_iff]
        exact fun i hi => hBlank _ (by omega)
      have hVacant := vacant_of_erased hBlank h.large
      refine ⟨corrupt, ?_⟩
      rw [List.range_succ, List.foldlM_append, hFold]
      simp only [bind, Except.bind, List.foldlM_cons, List.foldlM_nil, scanSlot, hErased,
        readCandidate_vacant (h.readable hk) hVacant.notOld hVacant.uncommitted, pure, Except.pure, if_true]

/-- Recovery refuses a slot zero that was begun and not committed. -/
theorem Nascent.selectCandidate (h : Nascent f reserved) :
    (FreshFlash f reserved ∧ selectCandidate f key appendEnabled provider recorder = .ok none) ∨
      ∃ e, selectCandidate f key appendEnabled provider recorder = .error e := by
  by_cases hErased : ∀ i < f.slotSize, f.slots 0 i = 0xff
  · have hFresh := h.fresh hErased
    exact .inl ⟨hFresh, hFresh.selectCandidate⟩
  · right
    have hTwo := h.two_le
    have hEight := h.le_eight
    have hLarge := h.large
    have hRead : Readable f 0 (f.slots 0) f.slotSize reserved := h.readable (by omega)
    have hScan : ∃ corrupt, (List.range (f.slotCount - 1 + 1)).foldlM
        (scanSlot f key appendEnabled provider recorder reserved) ⟨none, false, false⟩ = .ok ⟨none, true, corrupt⟩ :=
      h.scan hErased _ (by omega)
    obtain ⟨corrupt, hFold⟩ := hScan
    rw [show f.slotCount - 1 + 1 = f.slotCount by omega] at hFold
    refine ⟨.storage, ?_⟩
    unfold Journal.selectCandidate
    simp only [bind, Except.bind, failIf, hRead.nonces, hFold]
    rw [if_neg (by omega)]
    simp only [pure, Except.pure]
    rw [if_neg (by omega)]
    simp only
    rw [if_neg (by have := hRead.capacity; omega)]
    simp [Scan.interruptedReclaim, throw, throwThe, MonadExceptOf.throw]

theorem FreshFlash.reconcile (h : FreshFlash f reserved) (appendEnabled : Bool) :
    reconcileGeneration (anchor 0 appendEnabled) f = .ok () f := by
  have hAnchor : anchor 0 appendEnabled = 0 := by cases appendEnabled <;> rfl
  have hGeneration : f.monotonicGeneration = .ok 0 := h.monotonic.decode h.whole f.bounded
  rw [hAnchor]
  unfold reconcileGeneration
  simp [bind, EStateM.bind, get, getThe, MonadStateOf.get, EStateM.get, readOnly, hGeneration, failIf, orFail,
    checkedAdd64, onlyIf, pure, EStateM.pure]

/-- Before the first commit is done, recovery finds a fresh flash or refuses. -/
theorem recover_young {allowUnreconciled : Bool} (h : Nascent j.flash reserved) :
    Triple (fun s => s = j) (recoverWithReplayMode provider recorder allowUnreconciled)
      (fun contents j' => contents = none ∧ Young j') (fun _ j' => Young j') := by
  intro s hs
  rw [hs]
  unfold recoverWithReplayMode
  simp only [bind, EStateM.bind, modify, modifyGet, MonadStateOf.modifyGet, EStateM.modifyGet, get, getThe,
    MonadStateOf.get, EStateM.get, readOnly]
  have hCases : (FreshFlash j.flash reserved ∧
      selectCandidate j.flash j.key j.appendEnabled provider recorder = .ok none) ∨
        ∃ e, selectCandidate j.flash j.key j.appendEnabled provider recorder = .error e := h.selectCandidate
  rcases hCases with ⟨hFresh, hSelect⟩ | ⟨e, hSelect⟩
  · simp only [hSelect, capture, onFlash, hFresh.reconcile]
    exact ⟨rfl, reserved, hFresh.nascent, fun _ => ⟨hFresh, rfl, rfl, rfl, rfl, rfl⟩⟩
  · simp only [hSelect]
    exact ⟨reserved, h, fun hIntact => by cases hIntact⟩

end Beginning


section Histories

/-- The state of a journal that has committed nothing. -/
def Logical.initial : Logical := ⟨0, [], []⟩

def Operation.anchored : Operation → Bool
  | .commit _ _ => true
  | .compact _ durability => durability = .anchored
  | .append _ durability => durability = .anchored
  | .recover _ => false
  | .reserve => false

def Operation.token : Operation → Option Nat
  | .commit _ token => token
  | _ => none

/-- What happened so far, kept to reason about: the identity reservations still
held, the moves that were attempted, the states that anchored operations returned
`Ok` for, and every operation with the journal and power budget it started from. -/
structure Past where
  held : List Nat
  edges : List (Logical × Logical)
  acknowledged : List Logical
  steps : List (Journal × Operation × Option Nat)

def Operation.heldAfter (operation : Operation) (j : Journal) (held : List Nat) : List Nat :=
  match operation with
  | .reserve =>
      match reserveIdentityNonce j with
      | .ok value _ => value :: held
      | .error _ _ => held
  | operation => spend operation.token held

def Past.next (provider : CryptoProvider) (past : Past) (j : Journal) (operation : Operation) (budget : Option Nat) :
    Past :=
  let before := (durable provider j).getD .initial
  let after := operation.after j.appendEnabled before
  { held := operation.heldAfter (j.withBudget budget) past.held
    edges := (after.map fun state => (before, state)).toList ++ past.edges
    acknowledged :=
      if operation.anchored && succeeded (operation.run provider (j.withBudget budget)) then
        after.toList ++ past.acknowledged
      else past.acknowledged
    steps := (j, operation, budget) :: past.steps }

/-- Every history of a journal: any sequence of operations and reopenings, each
cut at any flash step or not at all. -/
inductive History (provider : CryptoProvider) : Journal → Past → Prop where
  | opened {size slotCount : Nat} {bounded : size < 2 ^ 63} {key : List Byte} {appendEnabled : Bool}
      {contents : Option Contents} {j : Journal}
      (ok : openMode (MemoryFlash.withSlots size slotCount bounded) key provider appendEnabled recorder =
        .ok contents j) : History provider j ⟨[], [], [], []⟩
  | operate {j : Journal} {past : Past} (history : History provider j past) (operation : Operation)
      (offered : operation.Offered j.appendEnabled) (held : ∀ value, operation.token = some value → value ∈ past.held)
      (budget : Option Nat) :
      History provider (finalState (operation.run provider (j.withBudget budget)))
        (past.next provider j operation budget)
  | reopen {j : Journal} {past : Past} (history : History provider j past) (budget : Option Nat) :
      History provider (finalState (reopen provider j budget)) past

/-- An anchored operation lost power after the last word of its sealed record and
before its marker word. -/
def Interrupted (provider : CryptoProvider) (step : Journal × Operation × Option Nat) : Prop :=
  step.2.1.anchored = true ∧
    (finalState (step.2.1.run provider (step.1.withBudget step.2.2))).flash.trace.records ≠
      step.1.flash.trace.records ∧
    Dangling (finalState (step.2.1.run provider (step.1.withBudget step.2.2))).flash

/-- What is readable and what was acknowledged, seen from the current state. -/
structure Standing (provider : CryptoProvider) (j : Journal) (edges : List (Logical × Logical))
    (acknowledged : List Logical) (current : Logical) : Prop where
  guarded : Guarded (fun state => anchor state.generation j.appendEnabled) (fun x y => (x, y) ∈ edges)
    (· ∈ acknowledged) (ReadableState provider j.key j.appendEnabled j.flash.slotSize j.flash.trace.records) current
  counted : ∃ m, CounterIs j.flash.monotonic j.flash.slotSize m ∧ ∀ state ∈ acknowledged,
    0 < anchor state.generation j.appendEnabled ∧ anchor state.generation j.appendEnabled ≤ m

/-- The chain a journal keeps is one that can be read from its records. -/
def Chain (provider : CryptoProvider) (j : Journal) (e : Epoch) : Prop :=
  Chained provider j.key j.appendEnabled j.flash.slotSize j.flash.trace.records e.attempt (e.stop, e.logical)

/-- The invariant behind rollback resistance. -/
structure Secured (provider : CryptoProvider) (j : Journal) (held : List Nat) (edges : List (Logical × Logical))
    (acknowledged : List Logical) : Prop where
  safe : Safe held j
  chain : (Young j ∧ j.flash.trace.records = [] ∧ acknowledged = []) ∨
    ∃ e, Keeps provider j e ∧ Chain provider j e ∧ Standing provider j edges acknowledged e.logical

/-- The same device after an operation. -/
structure Later (j j' : Journal) : Prop where
  key : j'.key = j.key
  appendEnabled : j'.appendEnabled = j.appendEnabled
  worn : Worn j.flash j'.flash

variable {provider : CryptoProvider} {j j' : Journal} {e e' : Epoch} {edges : List (Logical × Logical)}
  {acknowledged : List Logical} {current next : Logical} {held : List Nat}

theorem Keeps.counter (h : Keeps provider j e) : ∃ m, CounterIs j.flash.monotonic j.flash.slotSize m := by
  obtain ⟨_, _, _, m, hStored, -⟩ := h
  exact ⟨m, hStored.monotonic⟩

/-- Acknowledged anchors stay below the counter while it is worn further. -/
theorem Standing.counted_later (h : Standing provider j edges acknowledged current) (hLater : Later j j')
    (hCounter : ∃ m, CounterIs j'.flash.monotonic j'.flash.slotSize m) :
    ∃ m, CounterIs j'.flash.monotonic j'.flash.slotSize m ∧ ∀ state ∈ acknowledged,
      0 < anchor state.generation j'.appendEnabled ∧ anchor state.generation j'.appendEnabled ≤ m := by
  obtain ⟨m, hBefore, hBelow⟩ := h.counted
  obtain ⟨m', hAfter⟩ := hCounter
  refine ⟨m', hAfter, fun state hState => ?_⟩
  rw [hLater.appendEnabled]
  exact ⟨(hBelow state hState).1, (hBelow state hState).2.trans (hLater.worn.le hBefore hAfter)⟩

/-- An operation that completed no record. -/
theorem Standing.unchanged (h : Standing provider j edges acknowledged current) (hLater : Later j j')
    (hCounter : ∃ m, CounterIs j'.flash.monotonic j'.flash.slotSize m)
    (hRecords : j'.flash.trace.records = j.flash.trace.records) (more : List (Logical × Logical)) :
    Standing provider j' (more ++ edges) acknowledged current where
  guarded := by
    rw [hLater.key, hLater.appendEnabled, hLater.worn.1, hRecords]
    exact h.guarded.weaken (fun x y hEdge => List.mem_append_right _ hEdge) fun x hx => hx
  counted := h.counted_later hLater hCounter

/-- What one completed record adds to the readable states. -/
def Adds (provider : CryptoProvider) (j j' : Journal) (next : Logical) : Prop :=
  ∀ state, ReadableState provider j'.key j'.appendEnabled j'.flash.slotSize j'.flash.trace.records state →
    ReadableState provider j.key j.appendEnabled j.flash.slotSize j.flash.trace.records state ∨ state = next

theorem Standing.guarded_edge (h : Standing provider j edges acknowledged current) (hLater : Later j j') :
    Guarded (fun state => anchor state.generation j'.appendEnabled) (fun x y => (x, y) ∈ (current, next) :: edges)
      (· ∈ acknowledged) (ReadableState provider j.key j.appendEnabled j.flash.slotSize j.flash.trace.records)
      current := by
  rw [hLater.appendEnabled]
  exact h.guarded.weaken (fun x y hEdge => List.mem_cons_of_mem _ hEdge) fun x hx => hx

/-- A record of the same anchor was completed but not published. -/
theorem Standing.exposed (h : Standing provider j edges acknowledged current) (hLater : Later j j')
    (hCounter : ∃ m, CounterIs j'.flash.monotonic j'.flash.slotSize m) (hAdds : Adds provider j j' next)
    (hRank : anchor next.generation j.appendEnabled = anchor current.generation j.appendEnabled) :
    Standing provider j' ((current, next) :: edges) acknowledged current where
  guarded := by
    rw [← hLater.appendEnabled] at hRank
    exact (h.guarded_edge hLater).expose (List.mem_cons_self ..) hRank hAdds
  counted := h.counted_later hLater hCounter

theorem Standing.published (h : Standing provider j edges acknowledged current) (hLater : Later j j')
    (hCounter : ∃ m, CounterIs j'.flash.monotonic j'.flash.slotSize m) (hAdds : Adds provider j j' next)
    (hRank : anchor current.generation j.appendEnabled ≤ anchor next.generation j.appendEnabled) :
    Standing provider j' ((current, next) :: edges) acknowledged next where
  guarded := by
    rw [← hLater.appendEnabled] at hRank
    exact (h.guarded_edge hLater).advance (List.mem_cons_self ..) hRank hAdds
  counted := h.counted_later hLater hCounter

theorem Standing.acknowledge (h : Standing provider j edges acknowledged current) (hLater : Later j j')
    (hCounter : CounterIs j'.flash.monotonic j'.flash.slotSize (anchor next.generation j.appendEnabled))
    (hAdds : Adds provider j j' next)
    (hRank : anchor current.generation j.appendEnabled < anchor next.generation j.appendEnabled) :
    Standing provider j' ((current, next) :: edges) (next :: acknowledged) next where
  guarded := by
    rw [← hLater.appendEnabled] at hRank
    refine (h.guarded_edge hLater).acknowledge (List.mem_cons_self ..) hRank hAdds fun state hState => ?_
    rcases List.mem_cons.1 hState with hNew | hOld
    · exact .inr hNew
    · exact .inl hOld
  counted := by
    obtain ⟨m, hBefore, hBelow⟩ := h.counted
    refine ⟨_, hCounter, fun state hState => ?_⟩
    rw [hLater.appendEnabled]
    rcases List.mem_cons.1 hState with hNew | hOld
    · rw [hNew]
      exact ⟨by omega, Nat.le_refl _⟩
    · exact ⟨(hBelow state hOld).1, (hBelow state hOld).2.trans (hLater.worn.le hBefore hCounter)⟩

theorem NonceSafe.uniqueLabels {f : MemoryFlash} {reserved : Nat} (h : NonceSafe f reserved held) :
    UniqueLabels f.trace.records := by
  intro label first second hFirst hSecond
  obtain ⟨x, hx, hxLabel, hxBytes⟩ := h.noted _ hFirst
  obtain ⟨y, hy, hyLabel, hyBytes⟩ := h.noted _ hSecond
  exact hxBytes.symm.trans ((h.words_agree hx hy hxLabel hyLabel).2.2.trans hyBytes)

/-- The word behind a completed frame. -/
theorem NonceSafe.frame_noted {f : MemoryFlash} {reserved attempt offset : Nat} {label bytes : List Byte}
    (h : NonceSafe f reserved held) (hAttempt : attempt < 2 ^ 64) (hLabel : appendNonce attempt offset = .ok label)
    (hMem : (label, bytes) ∈ f.trace.records) :
    attempt ∈ f.trace.attempts ∧ ∃ w ∈ f.trace.words, w.label = some label ∧ w.offset = offset := by
  obtain ⟨w, hw, hTag, -⟩ := h.noted _ hMem
  obtain ⟨a, ha, ⟨hEq, -⟩ | ⟨hFrame, -⟩⟩ := h.belongs w hw label hTag
  · rw [hEq] at hLabel
    exact absurd hLabel (appendNonce_ne_nonce _ _ _)
  · obtain ⟨hSame, hOffset⟩ := appendNonce_injective ((h.attempts_le a ha).trans_lt h.reserved_lt) hAttempt hFrame hLabel
    exact ⟨hSame ▸ ha, w, hw, hTag, hOffset⟩

/-- A completed snapshot adds its own state and nothing else. -/
theorem SnapshotLogged.adds {attempt generation : Nat} {data : List Byte} {held' : List Nat}
    (h : SnapshotLogged provider j j' attempt generation data) (hLater : Later j j') (hBefore : Safe held j)
    (hAfter : Safe held' j') (hBounded : generation < 2 ^ 64) :
    Adds provider j j' ⟨generation, data, []⟩ ∧ Chain provider j' (newEpoch attempt generation data) := by
  obtain ⟨record, hSealed, hRecords⟩ := h.record
  obtain ⟨⟨reserved, hSafe⟩, -⟩ := hBefore
  obtain ⟨⟨reserved', hSafe'⟩, -⟩ := hAfter
  have hUsed : attempt ∈ j'.flash.trace.attempts := by
    rw [h.attempts]
    exact List.mem_cons_self
  have hLt : attempt < 2 ^ 64 := (hSafe'.attempts_le attempt hUsed).trans_lt hSafe'.reserved_lt
  have hFresh : attempt ∉ j.flash.trace.attempts := by
    have hNodup := hSafe'.attempts_nodup
    rw [h.attempts] at hNodup
    exact (List.nodup_cons.1 hNodup).1
  constructor
  · rintro state ⟨a, stop, hChained⟩
    rw [hLater.key, hLater.appendEnabled, hLater.worn.1, hRecords] at hChained
    rcases chained_cons_snapshot hLt hBounded hSealed (fun offset label bytes hLabel hMem =>
      hFresh (hSafe.frame_noted hLt hLabel hMem).1) hChained with hOld | hNew
    · exact .inl ⟨a, stop, hOld⟩
    · exact .inr hNew
  · refine ⟨_, ⟨record, generation, data, hLt, hBounded, ?_, ?_, rfl⟩, ReflTransGen.refl⟩
    · rw [hRecords]
      exact List.mem_cons_self
    · rw [hLater.key, hLater.appendEnabled]
      exact hSealed

/-- A completed frame adds the state behind it and nothing else. -/
theorem FrameLogged.adds {active reserved generation stop : Nat} {started : Bool} {data : List Byte}
    (h : FrameLogged provider j j' active e generation stop data) (hLater : Later j j')
    (hLive : Live provider j active e started reserved) (hBefore : Safe held j) (hChain : Chain provider j e)
    (hBounded : generation < 2 ^ 64) :
    Adds provider j j' (e.extend generation stop data).logical ∧ Chain provider j' (e.extend generation stop data) := by
  obtain ⟨label, record, hLabel, hSealed, hRecords⟩ := h.record
  obtain ⟨⟨n, hSafe⟩, hMemory⟩ := hBefore
  obtain ⟨attempt, hAttempt, hHosts⟩ := (hMemory hLive.poisoned).host active hLive.active
  rw [hLive.baseAttempt] at hAttempt
  injection hAttempt with hAttempt
  subst hAttempt
  have hLast : ∀ offset label bytes, e.stop ≤ offset → offset + minFrameBytes ≤ j.flash.slotSize - tailBytes →
      appendNonce e.attempt offset = .ok label → (label, bytes) ∉ j.flash.trace.records := by
    intro offset label bytes hLow hRoom hLabel hMem
    obtain ⟨-, w, hw, hTag, hOffset⟩ := hSafe.frame_noted hHosts.bounded hLabel hMem
    obtain ⟨i, hi, hi', hUsed⟩ := hSafe.frames w hw e.attempt label hHosts.bounded (hOffset ▸ hLabel) hTag active hHosts
    simp only [minFrameBytes, headerBytes, markerBytes] at hRoom
    exact hUsed (h.blank i (by omega) (by omega))
  have hStop := h.stop_eq
  subst hStop
  constructor
  · rintro state ⟨a, stop, hChained⟩
    rw [hLater.key, hLater.appendEnabled, hLater.worn.1, hRecords] at hChained
    rcases chained_cons_frame hSafe.uniqueLabels hHosts.bounded hBounded hLabel hSealed hLast hChain hChained with
      hOld | hNew
    · exact .inl ⟨a, stop, hOld⟩
    · exact .inr hNew
  · have hMore : Chained provider j.key j.appendEnabled j.flash.slotSize j'.flash.trace.records e.attempt
        (e.stop, e.logical) := by
      refine hChain.mono fun r hr => ?_
      rw [hRecords]
      exact List.mem_cons_of_mem _ hr
    obtain ⟨base, hBase, hReach⟩ := hMore
    rw [Chain, hLater.key, hLater.appendEnabled, hLater.worn.1]
    refine ⟨base, hBase, hReach.tail ⟨label, record, generation, data, hLabel, hBounded, ?_, hSealed, h.inBounds, rfl⟩⟩
    rw [hRecords]
    exact List.mem_cons_self

/-- The move an operation attempts, if there is a generation for it. -/
def attempted (before : Logical) (after : Option Logical) : List (Logical × Logical) :=
  (after.map fun state => (before, state)).toList

variable {data : List Byte} {durability : Durability} {token : Option Nat}

theorem anchor_granted {generation next : Nat} {mode : Bool} (h : Granted generation next mode durability)
    (hMode : mode = false → durability = .anchored) :
    (durability = .anchored → anchor generation mode < anchor next mode) ∧
      (durability ≠ .anchored → anchor next mode = anchor generation mode) := by
  rw [h.anchor_eq]
  constructor
  · intro hAnchored
    rw [if_pos (.inr hAnchored)]
    exact Nat.lt_succ_self _
  · intro hOrdinary
    rw [if_neg fun hEither => hEither.elim (fun hLegacy => hOrdinary (hMode hLegacy)) hOrdinary]
    exact Nat.add_zero _

/-- What a write leaves behind, whichever record it seals: the current state
moves on, stays, or stays with an unpublished record of its own anchor. -/
theorem Standing.wrote (h : Standing provider j edges acknowledged current) (hLater : Later j j')
    (hAdds : Adds provider j j' next) (hGranted : Granted current.generation next.generation j.appendEnabled durability)
    (hMode : j.appendEnabled = false → durability = .anchored)
    (hRecords : j'.flash.trace.records ≠ j.flash.trace.records)
    (hCounter : ∃ m, CounterIs j'.flash.monotonic j'.flash.slotSize m) :
    ((durability = .anchored → j'.flash.trace.records ≠ j.flash.trace.records → ¬Dangling j'.flash) →
      Dangling j'.flash → Standing provider j' (attempted current (some next) ++ edges) acknowledged current) ∧
    Standing provider j' (attempted current (some next) ++ edges) acknowledged next := by
  obtain ⟨hUp, hSame⟩ := anchor_granted hGranted hMode
  constructor
  · intro hWhole hDangling
    refine h.exposed hLater hCounter hAdds (hSame fun hAnchored => ?_)
    exact hWhole hAnchored hRecords hDangling
  · refine h.published hLater hCounter hAdds ?_
    by_cases hDurable : durability = .anchored
    · exact (hUp hDurable).le
    · exact (hSame hDurable).ge

/-- A successful write is acknowledged when it is anchored. -/
theorem Standing.succeeded {active reserved : Nat} {started : Bool} (h : Standing provider j edges acknowledged current)
    (hLater : Later j j') (hLive : Live provider j' active e' started reserved) (hAdds : Adds provider j j' e'.logical)
    (hGranted : Granted current.generation e'.generation j.appendEnabled durability)
    (hMode : j.appendEnabled = false → durability = .anchored) :
    Standing provider j' (attempted current (some e'.logical) ++ edges)
      (if durability = .anchored then e'.logical :: acknowledged else acknowledged) e'.logical := by
  obtain ⟨hUp, hSame⟩ := anchor_granted hGranted hMode
  by_cases hDurable : durability = .anchored
  · rw [if_pos hDurable]
    refine h.acknowledge hLater ?_ hAdds (hUp hDurable)
    rw [← hLater.appendEnabled]
    exact hLive.stored.monotonic
  · rw [if_neg hDurable]
    exact h.published hLater hLive.keeps.counter hAdds (hSame hDurable).ge

theorem SnapshotLogged.records_ne {attempt generation : Nat} (h : SnapshotLogged provider j j' attempt generation data) :
    j'.flash.trace.records ≠ j.flash.trace.records := by
  obtain ⟨record, -, hRecords⟩ := h.record
  rw [hRecords]
  exact fun hEq => by simpa using congrArg List.length hEq

theorem FrameLogged.records_ne {active generation stop : Nat} (h : FrameLogged provider j j' active e generation stop data) :
    j'.flash.trace.records ≠ j.flash.trace.records := by
  obtain ⟨label, record, -, -, hRecords⟩ := h.record
  rw [hRecords]
  exact fun hEq => by simpa using congrArg List.length hEq

theorem SnapshotLogged.records_sub {attempt generation : Nat} (h : SnapshotLogged provider j j' attempt generation data) :
    ∀ r ∈ j.flash.trace.records, r ∈ j'.flash.trace.records := by
  obtain ⟨record, -, hRecords⟩ := h.record
  intro r hr
  rw [hRecords]
  exact List.mem_cons_of_mem _ hr

theorem FrameLogged.records_sub {active generation stop : Nat}
    (h : FrameLogged provider j j' active e generation stop data) :
    ∀ r ∈ j.flash.trace.records, r ∈ j'.flash.trace.records := by
  obtain ⟨label, record, -, -, hRecords⟩ := h.record
  intro r hr
  rw [hRecords]
  exact List.mem_cons_of_mem _ hr

theorem Chain.later (h : Chain provider j e) (hLater : Later j j')
    (hSub : ∀ r ∈ j.flash.trace.records, r ∈ j'.flash.trace.records) : Chain provider j' e := by
  rw [Chain, hLater.key, hLater.appendEnabled, hLater.worn.1]
  exact h.mono hSub

/-- The state a commit of `data` moves to. -/
def committedState (generation : Nat) (mode : Bool) (durability : Durability) (data : List Byte) : Option Logical :=
  (nextGeneration generation mode durability).toOption.map fun g => ⟨g, data, []⟩

theorem committedState_eq {generation next : Nat} {mode : Bool}
    (h : nextGeneration generation mode durability = .ok next) :
    committedState generation mode durability data = some ⟨next, data, []⟩ := by
  rw [committedState, h]
  rfl

/-- A commit over a kept chain. -/
theorem commit_secured (hCorrect : provider.Correct) (hSafe : Safe held j) (hToken : ∀ v, token = some v → v ∈ held)
    (hMode : j.appendEnabled = false → durability = .anchored) (hKeeps : Keeps provider j e) (hChain : Chain provider j e)
    (hStanding : Standing provider j edges acknowledged e.logical) :
    Triple (fun s => s = j) (commitOwnedWithNonce data durability provider token)
      (fun _ j' => Secured provider j' (spend token held)
        (attempted e.logical (committedState e.generation j.appendEnabled durability data) ++ edges)
        (if durability = .anchored then
          (committedState e.generation j.appendEnabled durability data).toList ++ acknowledged else acknowledged))
      (fun _ j' => (durability = .anchored → j'.flash.trace.records ≠ j.flash.trace.records → ¬Dangling j'.flash) →
        Secured provider j' (spend token held)
          (attempted e.logical (committedState e.generation j.appendEnabled durability data) ++ edges) acknowledged) := by
  have hNonces : Triple (fun s => s = j) (commitOwnedWithNonce data durability provider token)
      (fun _ j' => Safe (spend token held) j') (fun _ j' => Safe (spend token held) j') :=
    commitOwnedWithNonce_safe hSafe hToken
  by_cases hPoisoned : j.poisoned = true
  · intro s hs
    have hEnd := hNonces j rfl
    rw [hs, commit_refused hPoisoned]
    rw [commit_refused hPoisoned] at hEnd
    intro _
    exact ⟨hEnd, .inr ⟨e, hKeeps, hChain, hStanding.unchanged ⟨rfl, rfl, rfl, fun _ h => h⟩ hKeeps.counter rfl _⟩⟩
  have hIntact : j.poisoned = false := by simpa using hPoisoned
  obtain ⟨active, started, reserved, anchored, -, hLive⟩ := hKeeps
  have hLive := hLive hIntact
  have hWorn : Worn j.flash j.flash := ⟨rfl, fun _ h => h⟩
  refine (((commitOwnedWithNonce_spec hCorrect hLive hMode).and hNonces).and
    ((commitOwnedWithNonce_worn data durability provider token).at hWorn)).conseq (fun _ h => h) ?_ ?_
  · rintro _ j' ⟨⟨⟨hDevice, attempt, generation, reserved', hNext, hLogged, hNew⟩, hAfter⟩, hWear⟩
    have hLater : Later j j' := ⟨hDevice.key, hDevice.appendEnabled, hWear⟩
    have hGranted := nextGeneration_spec hNext
    obtain ⟨hAdds, hNewChain⟩ := hLogged.adds hLater hSafe hAfter hGranted.bounded
    rw [committedState_eq hNext]
    exact ⟨hAfter, .inr ⟨_, hNew.keeps, hNewChain, hStanding.succeeded hLater hNew hAdds hGranted hMode⟩⟩
  · rintro _ j' ⟨⟨⟨hDevice, hKept, -⟩, hAfter⟩, hWear⟩ hWhole
    have hLater : Later j j' := ⟨hDevice.key, hDevice.appendEnabled, hWear⟩
    refine ⟨hAfter, .inr ?_⟩
    rcases hKept with ⟨hOld, hRecords⟩ | ⟨attempt, generation, hNext, hLogged, hEither⟩
    · exact ⟨e, hOld, hChain.later hLater fun r hr => hRecords ▸ hr,
        hStanding.unchanged hLater hOld.counter hRecords _⟩
    · have hGranted := nextGeneration_spec hNext
      obtain ⟨hAdds, hNewChain⟩ := hLogged.adds hLater hSafe hAfter hGranted.bounded
      rw [committedState_eq hNext]
      rcases hEither with ⟨hOld, hDangling⟩ | hNew
      · exact ⟨e, hOld, hChain.later hLater hLogged.records_sub,
          (hStanding.wrote hLater hAdds hGranted hMode hLogged.records_ne hOld.counter).1 hWhole hDangling⟩
      · exact ⟨_, hNew, hNewChain,
          (hStanding.wrote hLater hAdds hGranted hMode hLogged.records_ne hNew.counter).2⟩

/-- Nothing is readable before the first record. -/
theorem standing_initial (hYoung : Young j) (hRecords : j.flash.trace.records = []) :
    Standing provider j edges [] .initial := by
  obtain ⟨reserved, hNascent, -⟩ := hYoung
  refine ⟨⟨?_, ?_, ?_⟩, 0, hNascent.monotonic, fun state hState => (nomatch hState)⟩
  · rintro state ⟨attempt, stop, base, ⟨record, generation, data, -, -, hMem, -⟩, -⟩
    rw [hRecords] at hMem
    cases hMem
  · exact fun o ho => (nomatch ho)
  · exact fun o x ho => (nomatch ho)

/-- The first commit has to be anchored. -/
theorem durability_first {generation : Nat} {mode : Bool} (hMode : mode = false → durability = .anchored)
    (h : nextGeneration 0 mode durability = .ok generation) : durability = .anchored := by
  cases mode with
  | false => exact hMode rfl
  | true =>
      have hGranted := nextGeneration_spec h
      have hPositive := (hGranted.anchored rfl).1
      by_contra hOrdinary
      apply hPositive
      rw [hGranted.anchor_eq, if_neg (by simp [hOrdinary])]
      rfl

/-- A commit before any other was done. -/
theorem commit_secured_first (hCorrect : provider.Correct) (hSafe : Safe held j)
    (hToken : ∀ v, token = some v → v ∈ held) (hMode : j.appendEnabled = false → durability = .anchored)
    (hYoung : Young j) (hEmpty : j.flash.trace.records = []) :
    Triple (fun s => s = j) (commitOwnedWithNonce data durability provider token)
      (fun _ j' => Secured provider j' (spend token held)
        (attempted .initial (committedState 0 j.appendEnabled durability data) ++ edges)
        (if durability = .anchored then (committedState 0 j.appendEnabled durability data).toList ++ [] else []))
      (fun _ j' => (durability = .anchored → j'.flash.trace.records ≠ j.flash.trace.records → ¬Dangling j'.flash) →
        Secured provider j' (spend token held)
          (attempted .initial (committedState 0 j.appendEnabled durability data) ++ edges) []) := by
  have hNonces : Triple (fun s => s = j) (commitOwnedWithNonce data durability provider token)
      (fun _ j' => Safe (spend token held) j') (fun _ j' => Safe (spend token held) j') :=
    commitOwnedWithNonce_safe hSafe hToken
  have hStanding : Standing provider j edges [] .initial := standing_initial hYoung hEmpty
  by_cases hPoisoned : j.poisoned = true
  · intro s hs
    have hEnd := hNonces j rfl
    rw [hs, commit_refused hPoisoned]
    rw [commit_refused hPoisoned] at hEnd
    intro _
    exact ⟨hEnd, .inl ⟨hYoung, hEmpty, rfl⟩⟩
  have hIntact : j.poisoned = false := by simpa using hPoisoned
  obtain ⟨reserved, -, hUnwritten⟩ := hYoung
  have hWorn : Worn j.flash j.flash := ⟨rfl, fun _ h => h⟩
  refine (((commit_first_spec hCorrect (hUnwritten hIntact) hMode).and hNonces).and
    ((commitOwnedWithNonce_worn data durability provider token).at hWorn)).conseq (fun _ h => h) ?_ ?_
  · rintro _ j' ⟨⟨⟨hDevice, attempt, generation, reserved', hNext, hLogged, hNew⟩, hAfter⟩, hWear⟩
    have hLater : Later j j' := ⟨hDevice.key, hDevice.appendEnabled, hWear⟩
    have hGranted := nextGeneration_spec hNext
    obtain ⟨hAdds, hNewChain⟩ := hLogged.adds hLater hSafe hAfter hGranted.bounded
    rw [committedState_eq hNext]
    exact ⟨hAfter, .inr ⟨_, hNew.keeps, hNewChain, hStanding.succeeded hLater hNew hAdds hGranted hMode⟩⟩
  · rintro _ j' ⟨⟨⟨hDevice, hKept⟩, hAfter⟩, hWear⟩ hWhole
    have hLater : Later j j' := ⟨hDevice.key, hDevice.appendEnabled, hWear⟩
    rcases hKept with ⟨hStill, hRecords⟩ | ⟨attempt, generation, hNext, hLogged, hEither⟩
    · exact ⟨hAfter, .inl ⟨hStill, hRecords.trans hEmpty, rfl⟩⟩
    · rcases hEither with ⟨hStill, hDangling⟩ | hNew
      · exact absurd hDangling (hWhole (durability_first hMode hNext) hLogged.records_ne)
      · have hGranted := nextGeneration_spec hNext
        obtain ⟨hAdds, hNewChain⟩ := hLogged.adds hLater hSafe hAfter hGranted.bounded
        rw [committedState_eq hNext]
        refine ⟨hAfter, .inr ⟨_, hNew, hNewChain, ?_⟩⟩
        exact hStanding.published hLater hNew.counter hAdds (Nat.zero_le _ |>.trans_eq' (by cases j.appendEnabled <;> rfl))

theorem append_refused (h : j.poisoned = true ∨ j.appendOffset = none) :
    ∃ e, appendWith data durability provider j = .error e j := by
  rcases h with hPoisoned | hNone
  · exact ⟨.storage, by simp only [appendWith, bind, EStateM.bind, get, getThe, MonadStateOf.get, EStateM.get, failIf,
      hPoisoned, if_true, throw, throwThe, MonadExceptOf.throw, EStateM.throw]⟩
  · cases hPoisoned : j.poisoned with
    | true =>
        exact ⟨.storage, by simp only [appendWith, bind, EStateM.bind, get, getThe, MonadStateOf.get, EStateM.get, failIf,
          hPoisoned, if_true, throw, throwThe, MonadExceptOf.throw, EStateM.throw]⟩
    | false =>
        exact ⟨.quota, by simp [appendWith, bind, EStateM.bind, get, getThe, MonadStateOf.get, EStateM.get, failIf,
          hPoisoned, orFail, hNone, throw, throwThe, MonadExceptOf.throw, EStateM.throw, pure, EStateM.pure]⟩

/-- The state an append of `data` moves to. -/
def appendedState (before : Logical) (mode : Bool) (durability : Durability) (data : List Byte) : Option Logical :=
  (nextGeneration before.generation mode durability).toOption.map fun g =>
    ⟨g, before.contents.snapshot, before.contents.appended ++ [data]⟩

theorem append_secured (hCorrect : provider.Correct) (hSafe : Safe held j) (hKeeps : Keeps provider j e)
    (hChain : Chain provider j e) (hStanding : Standing provider j edges acknowledged e.logical) :
    Triple (fun s => s = j) (appendWith data durability provider)
      (fun _ j' => Secured provider j' held
        (attempted e.logical (appendedState e.logical j.appendEnabled durability data) ++ edges)
        (if durability = .anchored then
          (appendedState e.logical j.appendEnabled durability data).toList ++ acknowledged else acknowledged))
      (fun _ j' => (durability = .anchored → j'.flash.trace.records ≠ j.flash.trace.records → ¬Dangling j'.flash) →
        Secured provider j' held
          (attempted e.logical (appendedState e.logical j.appendEnabled durability data) ++ edges) acknowledged) := by
  by_cases hPoisoned : j.poisoned = true
  · intro s hs
    obtain ⟨error, hRefused⟩ : ∃ error, appendWith data durability provider j = .error error j :=
      append_refused (.inl hPoisoned)
    rw [hs, hRefused]
    intro _
    exact ⟨hSafe, .inr ⟨e, hKeeps, hChain, hStanding.unchanged ⟨rfl, rfl, rfl, fun _ h => h⟩ hKeeps.counter rfl _⟩⟩
  have hIntact : j.poisoned = false := by simpa using hPoisoned
  obtain ⟨active, started, reserved, anchored, -, hLive⟩ := hKeeps
  have hLive := hLive hIntact
  have hWorn : Worn j.flash j.flash := ⟨rfl, fun _ h => h⟩
  have hNextState : ∀ {generation stop}, nextGeneration e.generation j.appendEnabled durability = .ok generation →
      appendedState e.logical j.appendEnabled durability data = some (e.extend generation stop data).logical := by
    intro generation stop hNext
    rw [appendedState, show e.logical.generation = e.generation from rfl, hNext]
    rfl
  refine (((appendWith_spec hCorrect hLive).and (appendWith_safe hSafe)).and
    (((worn_anchorStable j.flash).appendWith data durability provider).at hWorn)).conseq (fun _ h => h) ?_ ?_
  · rintro _ j' ⟨⟨⟨hDevice, generation, stop, hNext, hLogged, hNew⟩, hAfter⟩, hWear⟩
    have hLater : Later j j' := ⟨hDevice.key, hDevice.appendEnabled, hWear⟩
    have hGranted := nextGeneration_spec hNext
    obtain ⟨hAdds, hNewChain⟩ := hLogged.adds hLater hLive hSafe hChain hGranted.bounded
    rw [hNextState hNext]
    refine ⟨hAfter, .inr ⟨_, hNew.keeps, hNewChain, hStanding.succeeded hLater hNew hAdds hGranted fun hLegacy => ?_⟩⟩
    rw [hLogged.mode] at hLegacy
    cases hLegacy
  · rintro _ j' ⟨⟨⟨hDevice, hKept⟩, hAfter⟩, hWear⟩ hWhole
    have hLater : Later j j' := ⟨hDevice.key, hDevice.appendEnabled, hWear⟩
    refine ⟨hAfter, .inr ?_⟩
    have hOlder : Keeps provider j' e ∨ Keeps provider j' e.closed → (∀ r ∈ j.flash.trace.records, r ∈ j'.flash.trace.records) →
        ∃ e', Keeps provider j' e' ∧ Chain provider j' e' ∧ e'.logical = e.logical := by
      intro hOld hSub
      rcases hOld with hSame | hClosed
      · exact ⟨e, hSame, hChain.later hLater hSub, rfl⟩
      · exact ⟨e.closed, hClosed, (hChain.later hLater hSub : Chain provider j' e.closed), rfl⟩
    rcases hKept with ⟨hOld, hRecords⟩ | ⟨generation, stop, hNext, hLogged, hEither⟩
    · obtain ⟨e', hStill, hStillChain, hSame⟩ := hOlder hOld fun r hr => hRecords ▸ hr
      refine ⟨e', hStill, hStillChain, ?_⟩
      rw [hSame]
      exact hStanding.unchanged hLater hStill.counter hRecords _
    · have hGranted := nextGeneration_spec hNext
      obtain ⟨hAdds, hNewChain⟩ := hLogged.adds hLater hLive hSafe hChain hGranted.bounded
      have hMode : j.appendEnabled = false → durability = .anchored := by
        intro hLegacy
        rw [hLogged.mode] at hLegacy
        cases hLegacy
      rw [hNextState hNext]
      rcases hEither with ⟨hOld, hDangling⟩ | hNew
      · obtain ⟨e', hStill, hStillChain, hSame⟩ := hOlder hOld hLogged.records_sub
        refine ⟨e', hStill, hStillChain, ?_⟩
        rw [hSame]
        exact (hStanding.wrote hLater hAdds hGranted hMode hLogged.records_ne hStill.counter).1 hWhole hDangling
      · exact ⟨_, hNew, hNewChain,
          (hStanding.wrote hLater hAdds hGranted hMode hLogged.records_ne hNew.counter).2⟩

theorem Secured.withBudget (h : Secured provider j held edges acknowledged) (budget : Option Nat) :
    Secured provider (j.withBudget budget) held edges acknowledged := by
  refine ⟨h.safe.withBudget budget, ?_⟩
  rcases h.chain with ⟨⟨reserved, hNascent, hNew⟩, hRest⟩ | ⟨e, hKeeps, hChain, hStanding⟩
  · refine .inl ⟨⟨reserved, { hNascent with }, fun hIntact => ?_⟩, hRest⟩
    exact { hNew hIntact with flash := { (hNew hIntact).flash with } }
  · exact .inr ⟨e, hKeeps.withBudget budget, hChain, { hStanding with }⟩

theorem Secured.unopened (h : Secured provider j held edges acknowledged) (budget : Option Nat) :
    Secured provider (Journal.unopened { j.flash with failAfter := budget } j.key j.appendEnabled) held edges
      acknowledged := by
  obtain ⟨⟨reserved, hSafe⟩, -⟩ := h.safe
  refine ⟨Safe.of_poisoned rfl { hSafe with }, ?_⟩
  rcases h.chain with ⟨⟨reserved, hNascent, -⟩, hRest⟩ | ⟨e, hKeeps, hChain, hStanding⟩
  · exact .inl ⟨⟨reserved, { hNascent with }, fun hIntact => nomatch hIntact⟩, hRest⟩
  · exact .inr ⟨e, hKeeps.unopened budget, hChain, { hStanding with }⟩

/-- Recovery completes no record and loses none. -/
theorem recover_secured {allowUnreconciled : Bool} (h : Secured provider j held edges acknowledged)
    (more : List (Logical × Logical)) :
    Triple (fun s => s = j) (recoverWithReplayMode provider recorder allowUnreconciled)
      (fun _ j' => Secured provider j' held (more ++ edges) acknowledged)
      (fun _ j' => Secured provider j' held (more ++ edges) acknowledged) := by
  obtain ⟨⟨reserved, hSafe⟩, -⟩ := h.safe
  have hNonces : Triple (fun s => s = j) (recoverWithReplayMode provider recorder allowUnreconciled)
      (fun _ j' => Safe held j') (fun _ j' => Safe held j') := recover_safe hSafe
  have hTrace := ((trace_stable j.flash.trace).recover provider recorder allowUnreconciled).at rfl
  rcases h.chain with ⟨⟨_, hNascent, -⟩, hRecords, hNone⟩ | ⟨e, hKeeps, hChain, hStanding⟩
  · refine (((recover_young hNascent).and hNonces).and hTrace).conseq (fun _ h => h) ?_ ?_
    · rintro _ j' ⟨⟨⟨-, hYoung⟩, hAfter⟩, hSame⟩
      exact ⟨hAfter, .inl ⟨hYoung, hSame ▸ hRecords, hNone⟩⟩
    · rintro _ j' ⟨⟨hYoung, hAfter⟩, hSame⟩
      exact ⟨hAfter, .inl ⟨hYoung, hSame ▸ hRecords, hNone⟩⟩
  · have hWorn := ((worn_stable j.flash).recover provider recorder allowUnreconciled).at
      (show Worn j.flash j.flash from ⟨rfl, fun _ h => h⟩)
    have hStay : ∀ j' : Journal, Keeps provider j' e → j'.key = j.key → j'.appendEnabled = j.appendEnabled →
        Safe held j' → j'.flash.trace = j.flash.trace → Worn j.flash j'.flash →
        Secured provider j' held (more ++ edges) acknowledged := by
      intro j' hKept hKey hMode hAfter hSame hWear
      have hLater : Later j j' := ⟨hKey, hMode, hWear⟩
      exact ⟨hAfter, .inr ⟨e, hKept, hChain.later hLater fun r hr => hSame.symm ▸ hr,
        hStanding.unchanged hLater hKept.counter (congrArg Trace.records hSame) more⟩⟩
    refine ((((recoverWithReplayMode_spec allowUnreconciled hKeeps).and hNonces).and hTrace).and hWorn).conseq
      (fun _ h => h) ?_ ?_
    · rintro _ j' ⟨⟨⟨⟨-, hKept, hKey, hMode, -⟩, hAfter⟩, hSame⟩, hWear⟩
      exact hStay j' hKept hKey hMode hAfter hSame hWear
    · rintro _ j' ⟨⟨⟨⟨hKept, hKey, hMode, -⟩, hAfter⟩, hSame⟩, hWear⟩
      exact hStay j' hKept hKey hMode hAfter hSame hWear

/-- A reservation before the first commit. -/
theorem reserve_young (h : Young j) :
    Triple (fun s => s = j) reserveIdentityNonce (fun _ j' => Young j') (fun _ j' => Young j') := by
  obtain ⟨reserved, hNascent, hNew⟩ := h
  have hMoved : ∀ {value : Nat} {j' : Journal}, Reserves j value j' → Young j' := by
    rintro value j' ⟨c, x, rfl, hCounter⟩
    refine ⟨value, { hNascent with nonces := hCounter }, fun hIntact => ?_⟩
    exact { hNew hIntact with flash := { (hNew hIntact).flash with nonces := hCounter } }
  apply (reserveIdentityNonce_moves hNascent.nonces hNascent.whole).conseq (fun _ h => h)
  · exact fun _ j' hReserved => hMoved hReserved
  · exact fun _ j' ⟨_, _, hReserved⟩ => hMoved hReserved

/-- What a reservation leaves alone. -/
theorem reserveIdentityNonce_device (j : Journal) :
    Invariant (fun s : Journal => s.key = j.key ∧ s.appendEnabled = j.appendEnabled) reserveIdentityNonce := by
  apply Invariant.get
  intro s
  refine Invariant.bind (Invariant.failIf _ _) fun _ => ?_
  refine Invariant.bind ?_ fun value => Invariant.get fun s' => ?_
  · intro s' hs'
    simp only [onFlash]
    cases reserveNonce s'.flash with
    | ok _ _ => exact hs'
    | error _ _ => exact hs'
  · exact Invariant.bind (Invariant.failIf _ _) fun _ => Invariant.ret _

theorem reserve_secured (h : Secured provider j held edges acknowledged) (more : List (Logical × Logical)) :
    Triple (fun s => s = j) reserveIdentityNonce
      (fun value j' => Secured provider j' (value :: held) (more ++ edges) acknowledged)
      (fun _ j' => Secured provider j' held (more ++ edges) acknowledged) := by
  have hTrace := ((trace_stable j.flash.trace).reserveIdentityNonce).at rfl
  rcases h.chain with ⟨hYoung, hRecords, hNone⟩ | ⟨e, hKeeps, hChain, hStanding⟩
  · refine (((reserve_young hYoung).and (reserveIdentityNonce_safe h.safe)).and hTrace).conseq (fun _ h => h) ?_ ?_
    · rintro _ j' ⟨⟨hStill, hAfter⟩, hSame⟩
      exact ⟨hAfter, .inl ⟨hStill, hSame ▸ hRecords, hNone⟩⟩
    · rintro _ j' ⟨⟨hStill, hAfter⟩, hSame⟩
      exact ⟨hAfter, .inl ⟨hStill, hSame ▸ hRecords, hNone⟩⟩
  · have hWorn := ((worn_stable j.flash).reserveIdentityNonce).at
      (show Worn j.flash j.flash from ⟨rfl, fun _ h => h⟩)
    have hDevice := (reserveIdentityNonce_device j).at ⟨rfl, rfl⟩
    have hStay : ∀ (held' : List Nat) (j' : Journal), Keeps provider j' e → j'.key = j.key ∧
        j'.appendEnabled = j.appendEnabled → Safe held' j' → j'.flash.trace = j.flash.trace → Worn j.flash j'.flash →
        Secured provider j' held' (more ++ edges) acknowledged := by
      intro held' j' hKept hSameDevice hAfter hSame hWear
      have hLater : Later j j' := ⟨hSameDevice.1, hSameDevice.2, hWear⟩
      exact ⟨hAfter, .inr ⟨e, hKept, hChain.later hLater fun r hr => hSame.symm ▸ hr,
        hStanding.unchanged hLater hKept.counter (congrArg Trace.records hSame) more⟩⟩
    refine (((((reserveIdentityNonce_spec hKeeps).and (reserveIdentityNonce_safe h.safe)).and hTrace).and hWorn).and
      hDevice).conseq (fun _ h => h) ?_ ?_
    · rintro value j' ⟨⟨⟨⟨hKept, hAfter⟩, hSame⟩, hWear⟩, hSameDevice⟩
      exact hStay _ j' hKept hSameDevice hAfter hSame hWear
    · rintro _ j' ⟨⟨⟨⟨hKept, hAfter⟩, hSame⟩, hWear⟩, hSameDevice⟩
      exact hStay _ j' hKept hSameDevice hAfter hSame hWear

theorem Young.durable (h : Young j) : durable provider j = none := by
  obtain ⟨reserved, hNascent, -⟩ := h
  have hUnopened : Nascent (Journal.unopened { j.flash with failAfter := none } j.key j.appendEnabled).flash reserved :=
    { hNascent with }
  have hSpec : Triple (fun s => s = Journal.unopened { j.flash with failAfter := none } j.key j.appendEnabled)
      (recoverWithReplayMode provider recorder false) (fun contents j' => contents = none ∧ Young j')
      (fun _ j' => Young j') := recover_young hUnopened
  have hRun := hSpec _ rfl
  rw [Journal.durable, show reopen provider j none = recoverWithReplayMode provider recorder false
    (Journal.unopened { j.flash with failAfter := none } j.key j.appendEnabled) from rfl]
  split at hRun
  · rename_i hOk
    rw [hOk, hRun.1]
  · rename_i hError
    rw [hError]

/-- The state a journal starts its next operation from. -/
def startingState (provider : CryptoProvider) (j : Journal) : Logical := (durable provider j).getD .initial

theorem Keeps.startingState (h : Keeps provider j e) : startingState provider j = e.logical := by
  rw [Journal.startingState, h.durable]
  rfl

theorem Young.startingState (h : Young j) : startingState provider j = .initial := by
  rw [Journal.startingState, h.durable]
  rfl

/-- A snapshot on any secured journal. -/
theorem commit_preserves (data : List Byte) (durability : Durability) (token : Option Nat)
    (hCorrect : provider.Correct) (h : Secured provider j held edges acknowledged) (hToken : ∀ v, token = some v → v ∈ held) (hMode : j.appendEnabled = false → durability = .anchored) :
    Triple (fun s => s = j) (commitOwnedWithNonce data durability provider token)
      (fun _ j' => Secured provider j' (spend token held)
        (attempted (startingState provider j) (committedState (startingState provider j).generation j.appendEnabled
          durability data) ++ edges)
        (if durability = .anchored then (committedState (startingState provider j).generation j.appendEnabled
          durability data).toList ++ acknowledged else acknowledged))
      (fun _ j' => (durability = .anchored → j'.flash.trace.records ≠ j.flash.trace.records → ¬Dangling j'.flash) →
        Secured provider j' (spend token held)
          (attempted (startingState provider j) (committedState (startingState provider j).generation j.appendEnabled
            durability data) ++ edges) acknowledged) := by
  rcases h.chain with ⟨hYoung, hRecords, hNone⟩ | ⟨e, hKeeps, hChain, hStanding⟩
  · rw [hYoung.startingState, hNone]
    exact commit_secured_first hCorrect h.safe hToken hMode hYoung hRecords
  · rw [hKeeps.startingState]
    exact commit_secured hCorrect h.safe hToken hMode hKeeps hChain hStanding

/-- A frame on any secured journal. -/
theorem append_preserves (data : List Byte) (durability : Durability) (hCorrect : provider.Correct)
    (h : Secured provider j held edges acknowledged) :
    Triple (fun s => s = j) (appendWith data durability provider)
      (fun _ j' => Secured provider j' held
        (attempted (startingState provider j) (appendedState (startingState provider j) j.appendEnabled durability data) ++
          edges)
        (if durability = .anchored then
          (appendedState (startingState provider j) j.appendEnabled durability data).toList ++ acknowledged
        else acknowledged))
      (fun _ j' => (durability = .anchored → j'.flash.trace.records ≠ j.flash.trace.records → ¬Dangling j'.flash) →
        Secured provider j' held
          (attempted (startingState provider j) (appendedState (startingState provider j) j.appendEnabled durability data) ++
            edges) acknowledged) := by
  rcases h.chain with ⟨hYoung, hRecords, hNone⟩ | ⟨e, hKeeps, hChain, hStanding⟩
  · intro s hs
    have hRefused : ∃ error, appendWith data durability provider j = .error error j := by
      apply append_refused
      obtain ⟨reserved, -, hNew⟩ := hYoung
      cases hPoisoned : j.poisoned with
      | true => exact .inl rfl
      | false => exact .inr (hNew hPoisoned).appendOffset
    obtain ⟨error, hRefused⟩ := hRefused
    rw [hs, hRefused]
    intro _
    exact ⟨h.safe, .inl ⟨hYoung, hRecords, hNone⟩⟩
  · rw [hKeeps.startingState]
    exact append_secured hCorrect h.safe hKeeps hChain hStanding

/-- One operation on a secured journal. An anchored one must not fail between its
record and its marker. -/
theorem Operation.preserves (hCorrect : provider.Correct) (h : Secured provider j held edges acknowledged)
    {operation : Operation} (hOffered : operation.Offered j.appendEnabled)
    (hHeld : ∀ v, operation.token = some v → v ∈ held) :
    Triple (fun s => s = j) (operation.run provider)
      (fun _ j' => Secured provider j' (operation.heldAfter j held)
        (attempted (startingState provider j) (operation.after j.appendEnabled (startingState provider j)) ++ edges)
        (if operation.anchored then
          (operation.after j.appendEnabled (startingState provider j)).toList ++ acknowledged else acknowledged))
      (fun _ j' => (operation.anchored = true → j'.flash.trace.records ≠ j.flash.trace.records → ¬Dangling j'.flash) →
        Secured provider j' (operation.heldAfter j held)
          (attempted (startingState provider j) (operation.after j.appendEnabled (startingState provider j)) ++ edges)
          acknowledged) := by
  cases operation with
  | commit data token =>
      refine Triple.bind ((commit_preserves data .anchored token hCorrect h hHeld fun _ => rfl).conseq (fun _ h => h)
        (fun _ _ h => h) ?_) fun _ => Triple.ret fun _ h => h
      exact fun _ _ hKept hWhole => hKept fun _ => hWhole rfl
  | compact data durability =>
      have hMode : j.appendEnabled = false → durability = .anchored := by
        intro hLegacy
        have hAppend : j.appendEnabled = true := hOffered
        rw [hLegacy] at hAppend
        cases hAppend
      refine Triple.bind (Q := fun _ j' => Secured provider j' held _ (if durability = .anchored then _ else _))
        ((commit_preserves data durability none hCorrect h (fun v hv => nomatch hv) hMode).conseq (fun _ h => h)
        (fun _ _ h => h) ?_) fun _ => Triple.ret fun j' h' => ?_
      · exact fun _ _ hKept hWhole => hKept fun hDurable => hWhole (decide_eq_true hDurable)
      · simp only [Operation.anchored, decide_eq_true_eq]
        exact h'
  | append data durability =>
      refine (append_preserves data durability hCorrect h).conseq (fun _ h => h) (fun _ j' h' => ?_) ?_
      · simp only [Operation.anchored, decide_eq_true_eq]
        exact h'
      · exact fun _ _ hKept hWhole => hKept fun hDurable => hWhole (decide_eq_true hDurable)
  | recover allowUnreconciled =>
      refine Triple.bind ((recover_secured h _).conseq (fun _ h => h) (fun _ _ h => h) ?_) fun _ => Triple.ret fun _ h => h
      exact fun _ _ hKept _ => hKept
  | reserve =>
      have hSpec := reserve_secured h (attempted (startingState provider j) (some (startingState provider j))) j rfl
      intro s hs
      rw [hs]
      simp only [Operation.run, Operation.heldAfter, bind, EStateM.bind]
      cases hRun : reserveIdentityNonce j with
      | ok value j' =>
          rw [hRun] at hSpec
          exact hSpec
      | error e j' =>
          rw [hRun] at hSpec
          exact fun _ => hSpec

variable {past : Past}

/-- What the past says holds of the journal. -/
def Past.Describes (provider : CryptoProvider) (past : Past) (j : Journal) : Prop :=
  Secured provider j past.held past.edges past.acknowledged

theorem Past.Describes.operate (hCorrect : provider.Correct) (h : past.Describes provider j) {operation : Operation}
    (hOffered : operation.Offered j.appendEnabled) (hHeld : ∀ v, operation.token = some v → v ∈ past.held)
    (budget : Option Nat) (hWhole : ¬Interrupted provider (j, operation, budget)) :
    (past.next provider j operation budget).Describes provider
      (finalState (operation.run provider (j.withBudget budget))) := by
  have hStart : Secured provider (j.withBudget budget) past.held past.edges past.acknowledged :=
    Secured.withBudget h budget
  have hSpec := Operation.preserves hCorrect hStart hOffered hHeld _ rfl
  have hSame : startingState provider (j.withBudget budget) = (durable provider j).getD .initial := rfl
  rw [hSame] at hSpec
  unfold Past.Describes Past.next
  cases hRun : operation.run provider (j.withBudget budget) with
  | ok _ j' =>
      rw [hRun] at hSpec
      simp only [succeeded, Bool.and_true]
      exact hSpec
  | error e j' =>
      rw [hRun] at hSpec
      simp only [succeeded, Bool.and_false, Bool.false_eq_true, if_false]
      apply hSpec
      intro hAnchored hRecords hDangling
      apply hWhole
      refine ⟨hAnchored, ?_, ?_⟩
      · simp only [hRun]
        exact hRecords
      · simp only [hRun]
        exact hDangling

theorem History.describes (hCorrect : provider.Correct) (h : History provider j past)
    (hWhole : ∀ step ∈ past.steps, ¬Interrupted provider step) : past.Describes provider j := by
  induction h with
  | @opened size slotCount bounded key appendEnabled contents j ok =>
      have hFresh := withSlots_fresh ok
      obtain ⟨-, hNew, -, -, hFlash⟩ := openMode_fresh hFresh ok
      have hSafe : Safe [] j := (recover_safe (j := Journal.unopened _ key appendEnabled)
        (withSlots_safe hFresh.whole)).ok rfl ok
      refine ⟨hSafe, .inl ⟨hNew.young, ?_, rfl⟩⟩
      rw [hFlash]
      rfl
  | @operate j past history operation offered held budget ih =>
      have hBefore := ih fun step hStep => hWhole step (List.mem_cons_of_mem _ hStep)
      exact hBefore.operate hCorrect offered held budget (hWhole _ List.mem_cons_self)
  | @reopen j past history budget ih =>
      have hStart := (ih hWhole).unopened budget
      exact Triple.finalState (recover_secured hStart [])

/-- The slots as an attacker left them, under the counters as they are. -/
def attacked (j : Journal) (slots : Nat → Nat → Byte) (slotWordWrites : Nat → Nat → Nat) (budget : Option Nat) :
    MemoryFlash :=
  { j.flash with slots := slots, slotWordWrites := slotWordWrites, failAfter := budget }

theorem Past.Describes.counter (h : past.Describes provider j) :
    ∃ m, CounterIs j.flash.monotonic j.flash.slotSize m ∧ ∀ state ∈ past.acknowledged,
      0 < anchor state.generation j.appendEnabled ∧ anchor state.generation j.appendEnabled ≤ m := by
  rcases h.chain with ⟨⟨reserved, hNascent, -⟩, -, hNone⟩ | ⟨e, -, -, hStanding⟩
  · refine ⟨0, hNascent.monotonic, fun state hState => ?_⟩
    rw [hNone] at hState
    cases hState
  · exact hStanding.counted

/-- Rollback resistance. In a history that interrupts no anchored operation between
its record and its marker, whatever an attacker writes into the slots: a successful
opening selects a chain whose anchor is the counter or one above it, leaves the
counter at that anchor, and yields a state that descends from the state of every
anchored operation that returned `Ok`. -/
theorem rollback_resistance (hCorrect : provider.Correct) (hHistory : History provider j past)
    (hWhole : ∀ step ∈ past.steps, ¬Interrupted provider step) {slots : Nat → Nat → Byte}
    {slotWordWrites : Nat → Nat → Nat} {budget : Option Nat}
    (hAuthentic : Authentic provider j.key slots j.flash.trace.records) {contents : Option Contents} {j' : Journal}
    (hOpen : openMode (attacked j slots slotWordWrites budget) j.key provider j.appendEnabled recorder =
      .ok contents j') :
    ∃ m, j.flash.monotonicGeneration = .ok m ∧
      (anchor j'.generation j.appendEnabled = m ∨ anchor j'.generation j.appendEnabled = m + 1) ∧
      j'.flash.monotonicGeneration = .ok (anchor j'.generation j.appendEnabled) ∧
      ∀ state ∈ past.acknowledged, ∃ c, contents = some c ∧
        ReflTransGen (fun x y => (x, y) ∈ past.edges) state ⟨j'.generation, c⟩ := by
  have hDescribes := hHistory.describes hCorrect hWhole
  obtain ⟨m, hCounter, hBelow⟩ := hDescribes.counter
  obtain ⟨selected, hSelect, hContents, hGeneration, hReconcile⟩ := openMode_ok hOpen
  obtain ⟨-, -, hWords⟩ := selectCandidate_checks hSelect
  have hAnchor := (reconcileGeneration_counter (f := attacked j slots slotWordWrites budget) hWords hCounter).ok rfl
    hReconcile
  obtain ⟨hWindow, hAfter, hSize⟩ := hAnchor
  refine ⟨m, hCounter.decode hWords j.flash.bounded, hWindow, ?_, ?_⟩
  · rw [← hSize] at hAfter hWords
    exact hAfter.decode hWords j'.flash.bounded
  · intro state hState
    have hRank := hBelow state hState
    rcases hDescribes.chain with ⟨-, -, hNone⟩ | ⟨e, -, -, hStanding⟩
    · rw [hNone] at hState
      cases hState
    cases selected with
    | none =>
        have hZero : anchor j'.generation j.appendEnabled = 0 := by
          rw [show j'.generation = 0 from hGeneration]
          cases j.appendEnabled <;> rfl
        omega
    | some chosen =>
        obtain ⟨candidate, c⟩ := chosen
        refine ⟨c, hContents, ?_⟩
        obtain ⟨reserved, hReserved⟩ : ∃ reserved, (attacked j slots slotWordWrites budget).nonceGeneration = .ok reserved := by
          obtain ⟨⟨reserved, hSafe⟩, -⟩ := hDescribes.safe
          exact ⟨reserved, hSafe.counter.decode hWords j.flash.bounded⟩
        have hAccepted := selectCandidate_accepted hReserved hSelect
        have hReadable := hAccepted.readable hAuthentic hReserved
        rw [← show j'.generation = candidate.generation from hGeneration] at hReadable
        refine hStanding.guarded.nothing_lost (fun o ho => (hBelow o ho).2) hReadable ?_ hState
        show m ≤ anchor j'.generation j.appendEnabled
        omega

/-- A provider that seals, and opens, only the entries of a ledger. An entry is a
nonce, the authenticated header and the plaintext. -/
def ledgerProvider (ledger : List (List Byte × List Byte × List Byte)) : CryptoProvider where
  aesCcmEncrypt := fun _ label aad plaintext =>
    if (label, aad, plaintext) ∈ ledger then .ok (plaintext ++ List.replicate 16 0) else .error .storage
  aesCcmDecrypt := fun _ label aad ciphertext =>
    if ciphertext.drop (ciphertext.length - 16) = List.replicate 16 0 ∧
        (label, aad, ciphertext.take (ciphertext.length - 16)) ∈ ledger then
      .ok (ciphertext.take (ciphertext.length - 16))
    else .error .authentication

theorem ledgerProvider_correct (ledger : List (List Byte × List Byte × List Byte)) : (ledgerProvider ledger).Correct := by
  intro key label aad plaintext ciphertext h
  simp only [ledgerProvider] at h ⊢
  split at h
  · rename_i hMem
    injection h with h
    subst h
    simp [hMem]
  · cases h

/-- When every entry was completely programmed, nothing else opens. -/
theorem ledgerProvider_authentic {ledger : List (List Byte × List Byte × List Byte)} {key : List Byte}
    {records : List (List Byte × List Byte)}
    (h : ∀ entry ∈ ledger, (entry.1, entry.2.1 ++ (entry.2.2 ++ List.replicate 16 0)) ∈ records)
    (slots : Nat → Nat → Byte) : Authentic (ledgerProvider ledger) key slots records := by
  intro slot offset length label plaintext hOpens
  simp only [ledgerProvider] at hOpens
  split at hOpens
  · rename_i hEntry
    have hMem := h _ hEntry.2
    rw [← hEntry.1, List.take_append_drop, ← range_add] at hMem
    exact hMem
  · cases hOpens

/-- The records of two branches: a snapshot, a frame behind it, and the snapshot
that was committed instead of the frame. -/
def branchLedger : List (List Byte × List Byte × List Byte) :=
  [(nonce 1, (RecordHeader.mk true (2 ^ 32 + 1) 1 17).encode, [1]),
   (0x41 :: (Bytes.toLE 8 1 ++ Bytes.toLE 4 44), (RecordHeader.mk true (2 ^ 33 + 2) 1 17).encode, [2]),
   (nonce 2, (RecordHeader.mk true (2 ^ 33 + 2) 2 17).encode, [3])]

section Branches

variable (ledger : List (List Byte × List Byte × List Byte))

/-- Two erased slots of 112 bytes. -/
def branchStart : Journal :=
  finalState (openMode (MemoryFlash.withSlots 112 2 shortSlot_bounded) [] (ledgerProvider ledger) true recorder)

/-- One committed byte. -/
def branchBase : Journal :=
  finalState ((Operation.commit [1] none).run (ledgerProvider ledger) ((branchStart ledger).withBudget none))

def branchBasePast : Past :=
  Past.next (ledgerProvider ledger) ⟨[], [], [], []⟩ (branchStart ledger) (.commit [1] none) none

/-- The power failed after the record of an anchored frame and before its marker. -/
def branchCut : Journal :=
  finalState ((Operation.append [2] .anchored).run (ledgerProvider ledger) ((branchBase ledger).withBudget (some 44)))

def branchAgain : Journal := finalState (reopen (ledgerProvider ledger) (branchCut ledger) none)

/-- After a restart another anchored operation succeeded. -/
def branchLeft : Journal :=
  finalState ((Operation.commit [3] none).run (ledgerProvider ledger) ((branchAgain ledger).withBudget none))

def branchLeftPast : Past :=
  ((branchBasePast ledger).next (ledgerProvider ledger) (branchBase ledger) (.append [2] .anchored) (some 44)).next
    (ledgerProvider ledger) (branchAgain ledger) (.commit [3] none) none

/-- The first slot as the power cut left it, with the frame's marker cleared, and
the second slot erased. -/
def branchSlots (slot i : Nat) : Byte :=
  if slot = 0 then if 88 ≤ i ∧ i < 92 then 0 else (branchCut ledger).flash.slots 0 i else 0xff

theorem branchBase_history (h : succeeded (openMode (MemoryFlash.withSlots 112 2 shortSlot_bounded) []
    (ledgerProvider ledger) true recorder) = true) :
    History (ledgerProvider ledger) (branchBase ledger) (branchBasePast ledger) := by
  have hStart : History (ledgerProvider ledger) (branchStart ledger) ⟨[], [], [], []⟩ := by
    unfold branchStart
    cases hOpen : openMode (MemoryFlash.withSlots 112 2 shortSlot_bounded) [] (ledgerProvider ledger) true recorder with
    | ok contents j => exact History.opened hOpen
    | error e j =>
        rw [hOpen] at h
        cases h
  exact hStart.operate (.commit [1] none) trivial (fun v hv => nomatch hv) none

/-- An interrupted anchored frame is rolled back to: both branches have the anchor
the counter holds, and the marker word is not authenticated. -/
theorem rollback_after_interrupted_frame :
    (ledgerProvider branchLedger).Correct ∧
    History (ledgerProvider branchLedger) (branchLeft branchLedger) (branchLeftPast branchLedger) ∧
    Authentic (ledgerProvider branchLedger) (branchLeft branchLedger).key (branchSlots branchLedger)
      (branchLeft branchLedger).flash.trace.records ∧
    ∃ contents j', openMode (attacked (branchLeft branchLedger) (branchSlots branchLedger) (fun _ _ => 0) none)
        (branchLeft branchLedger).key (ledgerProvider branchLedger) (branchLeft branchLedger).appendEnabled recorder =
        .ok contents j' ∧
      ∃ state ∈ (branchLeftPast branchLedger).acknowledged, ¬∃ c, contents = some c ∧
        ReflTransGen (fun x y => (x, y) ∈ (branchLeftPast branchLedger).edges) state ⟨j'.generation, c⟩ := by
  -- one evaluation of the history decides all that is read off from it
  have hRun :
      (succeeded (openMode (MemoryFlash.withSlots 112 2 shortSlot_bounded) [] (ledgerProvider branchLedger) true recorder) = true ∧
        ∀ entry ∈ branchLedger, (entry.1, entry.2.1 ++ (entry.2.2 ++ List.replicate 16 0)) ∈
          (branchLeft branchLedger).flash.trace.records) ∧
      (match openMode (attacked (branchLeft branchLedger) (branchSlots branchLedger) (fun _ _ => 0) none)
        (branchLeft branchLedger).key (ledgerProvider branchLedger) (branchLeft branchLedger).appendEnabled recorder with
        | .ok contents j' => some (contents, j'.generation)
        | .error _ _ => none) = some (some ⟨[1], [[2]]⟩, 2 ^ 33 + 2) ∧
      (branchLeftPast branchLedger).edges = [(⟨2 ^ 32 + 1, [1], []⟩, ⟨2 ^ 33 + 2, [3], []⟩),
        (⟨2 ^ 32 + 1, [1], []⟩, ⟨2 ^ 33 + 2, [1], [[2]]⟩), (.initial, ⟨2 ^ 32 + 1, [1], []⟩)] ∧
      ⟨2 ^ 33 + 2, [3], []⟩ ∈ (branchLeftPast branchLedger).acknowledged := by decide +kernel
  obtain ⟨⟨hFirst, hRecords⟩, hView, hEdges, hAcknowledged⟩ := hRun
  have hHistory : History (ledgerProvider branchLedger) (branchLeft branchLedger) (branchLeftPast branchLedger) := by
    have hBase := branchBase_history branchLedger hFirst
    have hCut := hBase.operate (.append [2] .anchored) trivial (fun v hv => nomatch hv) (some 44)
    exact (hCut.reopen none).operate (.commit [3] none) trivial (fun v hv => nomatch hv) none
  refine ⟨ledgerProvider_correct _, hHistory, ledgerProvider_authentic hRecords _, ?_⟩
  split at hView
  · rename_i contents j' hOpen
    injection hView with hView
    injection hView with hContents hGeneration
    refine ⟨contents, j', hOpen, ⟨2 ^ 33 + 2, [3], []⟩, hAcknowledged, ?_⟩
    rintro ⟨c, hSome, hPath⟩
    rw [hContents] at hSome
    injection hSome with hSome
    rw [← hSome, hGeneration, hEdges] at hPath
    cases hPath using ReflTransGen.head_induction_on with
    | head first _ => simp [Logical.initial] at first
  · cases hView

theorem not_dangling {f : MemoryFlash} (h : f.trace.words.head?.map Programmed.label = some none) : ¬Dangling f := by
  rintro ⟨w, rest, hWords, hLabel⟩
  rw [hWords] at h
  injection h with h
  exact hLabel h

theorem branchBase_whole : ¬Interrupted (ledgerProvider (branchLedger.take 1))
    (branchStart (branchLedger.take 1), .commit [1] none, none) := by
  rintro ⟨-, -, hDangling⟩
  exact not_dangling (by decide +kernel) hDangling

/-- The one committed record, copied to the other slot. -/
theorem rollback_resistance_moved_record : ∃ m,
    (branchBase (branchLedger.take 1)).flash.monotonicGeneration = .ok m ∧
    ∀ state ∈ (branchBasePast (branchLedger.take 1)).acknowledged, ∃ c j',
      openMode (attacked (branchBase (branchLedger.take 1))
        (fun slot i => if slot = 1 then (branchBase (branchLedger.take 1)).flash.slots 0 i else 0xff) (fun _ _ => 0) none)
        (branchBase (branchLedger.take 1)).key (ledgerProvider (branchLedger.take 1))
        (branchBase (branchLedger.take 1)).appendEnabled recorder = .ok (some c) j' ∧
      ReflTransGen (fun x y => (x, y) ∈ (branchBasePast (branchLedger.take 1)).edges) state ⟨j'.generation, c⟩ := by
  have hHistory := branchBase_history (branchLedger.take 1) (by decide +kernel)
  have hWhole : ∀ step ∈ (branchBasePast (branchLedger.take 1)).steps,
      ¬Interrupted (ledgerProvider (branchLedger.take 1)) step := by
    intro step hStep
    rw [List.mem_singleton.1 hStep]
    exact branchBase_whole
  cases hOpen : openMode (attacked (branchBase (branchLedger.take 1))
      (fun slot i => if slot = 1 then (branchBase (branchLedger.take 1)).flash.slots 0 i else 0xff) (fun _ _ => 0) none)
      (branchBase (branchLedger.take 1)).key (ledgerProvider (branchLedger.take 1))
      (branchBase (branchLedger.take 1)).appendEnabled recorder with
  | ok contents j' =>
      obtain ⟨m, hCounter, -, -, hKept⟩ := rollback_resistance (ledgerProvider_correct _) hHistory hWhole
        (ledgerProvider_authentic (by decide +kernel) _) hOpen
      refine ⟨m, hCounter, fun state hState => ?_⟩
      obtain ⟨c, hSome, hPath⟩ := hKept state hState
      exact ⟨c, j', by rw [hSome], hPath⟩
  | error e j' =>
      have hSucceeds : succeeded (openMode (attacked (branchBase (branchLedger.take 1))
        (fun slot i => if slot = 1 then (branchBase (branchLedger.take 1)).flash.slots 0 i else 0xff) (fun _ _ => 0) none)
        (branchBase (branchLedger.take 1)).key (ledgerProvider (branchLedger.take 1))
        (branchBase (branchLedger.take 1)).appendEnabled recorder) = true := by decide +kernel
      rw [hOpen] at hSucceeds
      cases hSucceeds

end Branches

end Histories

end MicroCard.Journal
