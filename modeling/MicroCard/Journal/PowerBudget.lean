import MicroCard.Journal.Commit

/-! What each flash operation costs in byte mutations, so that a power cut can
be placed in an operation exactly: an operation is finished if and only if the
power lasts for all it costs. -/
namespace MicroCard.Journal

open Bytes CrashTriple

/-- The power lasts for `cost` mutations. -/
def Lasts (cut : Option Nat) (cost : Nat) : Prop := ∀ budget, cut = some budget → cost ≤ budget

theorem Lasts.mono {cut : Option Nat} {cost less : Nat} (h : Lasts cut cost) (hLe : less ≤ cost) : Lasts cut less :=
  fun budget hCut => hLe.trans (h budget hCut)

theorem lasts_zero (cut : Option Nat) : Lasts cut 0 := fun budget _ => Nat.zero_le budget

/-- `cost` of the mutations the power lasts for have been made. -/
structure Spent (cut : Option Nat) (cost : Nat) (f : MemoryFlash) : Prop where
  budget : f.failAfter = cut.map (· - cost)
  lasts : Lasts cut cost

theorem spent_zero (f : MemoryFlash) : Spent f.failAfter 0 f where
  budget := by cases f.failAfter <;> rfl
  lasts := lasts_zero _

theorem Spent.same {cut : Option Nat} {cost : Nat} {f g : MemoryFlash} (h : Spent cut cost f)
    (hBudget : g.failAfter = f.failAfter) : Spent cut cost g :=
  ⟨hBudget.trans h.budget, h.lasts⟩

theorem Spent.armed {cut : Option Nat} {cost : Nat} {f : MemoryFlash} (h : Spent cut cost f) :
    f.armed = cut.isSome := by
  rw [MemoryFlash.armed, h.budget, Option.isSome_map]

variable {cut : Option Nat} {cost : Nat}

/-- A mutation is made as long as the power lasts for it. -/
theorem tick_spent : Triple (Spent cut cost) tick (fun _ => Spent cut (cost + 1))
    (fun _ _ => ¬Lasts cut (cost + 1)) := by
  intro f h
  have hBudget := h.budget
  cases cut with
  | none =>
      have hRun : tick f = .ok () f := by rw [tick, hBudget]; rfl
      rw [hRun]
      exact ⟨hBudget, fun budget hCut => by cases hCut⟩
  | some budget =>
      have hLasts := h.lasts budget rfl
      by_cases hMore : cost + 1 ≤ budget
      · have hRun : tick f = .ok () { f with failAfter := some (budget - (cost + 1)) } := by
          rw [tick, hBudget, Option.map_some]
          simp only [show budget - cost = budget - (cost + 1) + 1 by omega]
        rw [hRun]
        refine ⟨rfl, fun b hb => ?_⟩
        injection hb with hb
        omega
      · have hRun : tick f = .error .storage f := by
          rw [tick, hBudget, Option.map_some]
          simp only [show budget - cost = 0 by omega]
        rw [hRun]
        exact fun hAll => hMore (hAll budget rfl)

theorem ticks_spent {α : Type} (items : List α) : Triple (Spent cut cost) (items.forM fun _ => tick)
    (fun _ => Spent cut (cost + items.length)) (fun _ _ => ¬Lasts cut (cost + items.length)) := by
  apply Triple.forM (fun k => Spent cut (cost + k))
  intro k hk
  apply tick_spent.conseq (fun _ h => h) (fun _ _ h => h)
  exact fun _ _ hShort hAll => hShort (hAll.mono (by omega))

/-- An erase costs every byte of its slot. -/
theorem erase_spent {f : MemoryFlash} (slot : Nat) (h : Spent cut cost f) :
    Triple (fun s => s = f) (erase slot) (fun _ => Spent cut (cost + f.slotSize))
      (fun _ _ => ¬Lasts cut (cost + f.slotSize)) := by
  apply Triple.get
  intro s hs
  subst hs
  apply Triple.bind (Q := fun _ => Spent cut (cost + s.slotSize))
  · have hLoop := @Triple.forM _ _ _ (fun _ _ => ¬Lasts cut (cost + s.slotSize)) (List.range s.slotSize)
      (fun location => do
        tick
        modify (eraseByte slot location))
      (fun k => Spent cut (cost + k)) ?_
    · rw [List.length_range] at hLoop
      exact hLoop.at h
    · intro k hk
      rw [List.length_range] at hk
      apply Triple.bind (tick_spent.conseq (fun _ h => h) (fun _ _ h => h) _)
      · exact fun _ => Triple.update fun _ h => h.same rfl
      · exact fun _ _ hShort hAll => hShort (hAll.mono (by omega))
  · exact fun _ => Triple.update fun _ h => h.same rfl

/-- Advancing a word counter costs one word. -/
theorem advanceWordCounter_spent {f : MemoryFlash} {value : Nat} (nonce : Bool)
    (hCounter : CounterIs (counterOf nonce f) f.slotSize value) (hRoom : 4 * (value + 1) ≤ f.slotSize)
    (h : Spent cut cost f) :
    Triple (fun s => s = f) (advanceWordCounter (value + 1) nonce) (fun _ => Spent cut (cost + 4))
      (fun _ _ => ¬Lasts cut (cost + 4)) := by
  have hBounded := f.bounded
  refine Triple.failIf_bind (fun hZero => by omega) fun _ => ?_
  rw [show (value + 1 - 1) * 4 = 4 * value by omega]
  refine Triple.failIf_bind (fun hBig => by omega) fun _ => ?_
  apply Triple.get
  intro s hs
  subst hs
  refine Triple.failIf_bind (fun hBig => by omega) fun _ => ?_
  refine Triple.failIf_bind (fun hUsed => ?_) fun _ => ?_
  · obtain ⟨b, hb, hNot⟩ := List.any_eq_true.1 hUsed
    obtain ⟨i, hi, rfl⟩ := List.mem_iff_getElem.1 hb
    rw [length_range] at hi
    rw [getElem_range] at hNot
    have hFree := hCounter.free (4 * value + i) (by omega) (by omega)
    simp only [counterOf] at hFree
    rw [hFree] at hNot
    exact absurd hNot (by decide)
  · have hLoop := @Triple.forM _ _ _ (fun _ _ => ¬Lasts cut (cost + 4)) (List.range' (4 * value) 4)
      (fun location => do
        tick
        modify (clearCounterByte nonce location))
      (fun k => Spent cut (cost + k)) ?_
    · rw [List.length_range'] at hLoop
      exact hLoop.at h
    · intro k hk
      rw [List.length_range'] at hk
      apply Triple.bind (tick_spent.conseq (fun _ h => h) (fun _ _ h => h) _)
      · exact fun _ => Triple.update fun _ h => h.same (by cases nonce <;> rfl)
      · exact fun _ _ hShort hAll => hShort (hAll.mono (by omega))

theorem reserveNonce_spent {f : MemoryFlash} {value : Nat} (hCounter : CounterIs f.nonces f.slotSize value)
    (hWhole : f.slotSize % 4 = 0) (h : Spent cut cost f) :
    Triple (fun s => s = f) reserveNonce (fun _ => Spent cut (cost + 4))
      (fun _ _ => ¬Lasts cut (cost + 4) ∨ f.slotSize < 4 * (value + 1)) := by
  have hBounded := f.bounded
  have hFits := hCounter.fits
  have hCurrent : f.nonceGeneration = .ok value := hCounter.decode hWhole hBounded
  by_cases hRoom : f.slotSize < 4 * (value + 1)
  · apply (reserveNonce_spec hCounter hWhole).conseq (fun _ h => h)
    · rintro _ _ ⟨-, c, x, rfl, -, hMoved⟩
      have hFull := hMoved.fits
      omega
    · exact fun _ _ _ => .inr hRoom
  apply Triple.get
  intro s hs
  subst hs
  apply Triple.readOnly_bind
  · intro current hOk
    rw [hCurrent] at hOk
    injection hOk with hOk
    subst hOk
    apply Triple.orFail_bind
    · intro hNone
      rw [checkedAdd64, if_pos (by omega)] at hNone
      cases hNone
    · intro next hNext
      rw [checkedAdd64, if_pos (by omega)] at hNext
      injection hNext with hNext
      subst hNext
      apply Triple.bind ((advanceWordCounter_spent true hCounter (by omega) h).conseq (fun _ h => h)
        (fun _ _ h => h) fun _ _ hShort => .inl hShort)
      exact fun _ => Triple.ret fun _ h => h
  · intro e hError
    rw [hCurrent] at hError
    cases hError

section Program

variable {label : Option (List Byte)} {slot offset : Nat} {bytes : List Byte} {f₀ : MemoryFlash}

/-- What programming the `k`-th word of `bytes` over erased words costs. A word
that stays erased costs nothing. -/
def wordCost (bytes : List Byte) (k : Nat) : Nat :=
  if (List.range' (4 * k) 4).all fun i => bytes.getD i 0xff == 0xff then 0 else 4

/-- The mutations that program the first `words` words of `bytes`. -/
def programmedWords (bytes : List Byte) : Nat → Nat
  | 0 => 0
  | words + 1 => programmedWords bytes words + wordCost bytes words

/-- The mutations that program all of `bytes`. -/
def programmedBytes (bytes : List Byte) : Nat := programmedWords bytes ((bytes.length + 3) / 4)

theorem programmedWords_mono (bytes : List Byte) {first last : Nat} (h : first ≤ last) :
    programmedWords bytes first ≤ programmedWords bytes last := by
  induction h with
  | refl => exact Nat.le_refl _
  | step _ ih => exact ih.trans (Nat.le_add_right _ _)

/-- The words a program call covers are erased. -/
def Free (f : MemoryFlash) (slot offset : Nat) (bytes : List Byte) : Prop :=
  ∀ i, offset ≤ i → i < offset + bytes.length + 3 → i < f.slotSize → f.slots slot i = 0xff

theorem Wrote.unchanged_iff {f : MemoryFlash} {k : Nat} (h : Wrote label slot offset bytes f₀ f (4 * k) false)
    (hPlaced : Placed offset bytes f₀) (hFree : Free f₀ slot offset bytes) (hk : 4 * k < bytes.length) :
    (List.range' (offset + 4 * k) 4).all (fun i => f.merged slot offset bytes i == f.slots slot i) =
      (List.range' (4 * k) 4).all fun i => bytes.getD i 0xff == 0xff := by
  have hWhole := hPlaced.whole
  have hAligned := hPlaced.aligned
  have hBounds := hPlaced.inBounds
  rw [Bool.eq_iff_iff, List.all_eq_true, List.all_eq_true]
  have hEach : ∀ i, 4 * k ≤ i → i < 4 * k + 4 →
      (f.merged slot offset bytes (offset + i) == f.slots slot (offset + i)) = (bytes.getD i 0xff == 0xff) := by
    intro i hLow hHigh
    obtain ⟨hMerged, hOld⟩ := h.merged (i := offset + i) (by omega) (by omega)
    have hErased := hFree (offset + i) (by omega) (by omega) (by omega)
    rw [hMerged, hOld, hErased]
    by_cases hIn : i < bytes.length
    · rw [overwrite_inside (by omega) hIn, List.getD_eq_getElem _ _ hIn]
    · rw [overwrite_outside (by omega), hErased, List.getD_eq_default _ _ (by omega)]
  constructor
  · intro hAll i hi
    rw [List.mem_range'_1] at hi
    rw [← hEach i hi.1 hi.2]
    exact hAll (offset + i) (by rw [List.mem_range'_1]; omega)
  · intro hAll i hi
    rw [List.mem_range'_1] at hi
    obtain ⟨d, rfl⟩ : ∃ d, i = offset + d := ⟨i - offset, by omega⟩
    rw [hEach d (by omega) (by omega)]
    exact hAll d (by rw [List.mem_range'_1]; omega)

theorem programWord_spent (hReady : Programmable slot offset bytes f₀) (hFree : Free f₀ slot offset bytes) {k : Nat}
    (hk : 4 * k < bytes.length) :
    Triple (fun f => Wrote label slot offset bytes f₀ f (4 * k) false ∧ Spent cut cost f)
      (programWord label slot offset bytes (offset + 4 * k)) (fun _ => Spent cut (cost + wordCost bytes k))
      (fun _ _ => ¬Lasts cut (cost + wordCost bytes k)) := by
  have hWhole := hReady.whole
  have hAligned := hReady.aligned
  have hBounds := hReady.inBounds
  apply Triple.get
  intro f ⟨hf, hSpent⟩
  have hSize := hf.slotSize
  have hMin : min (offset + 4 * k + 4) f.slotSize - (offset + 4 * k) = 4 := by omega
  rw [hMin]
  simp only [hf.unchanged_iff hReady.toPlaced hFree hk]
  apply Triple.failIf_bind
  · intro hConflict
    obtain ⟨i, hi, hBad⟩ := List.any_eq_true.1 hConflict
    rw [List.mem_range'_1] at hi
    rw [hf.no_conflict hReady hi.1 hi.2] at hBad
    exact absurd hBad (by simp)
  intro _
  by_cases hAll : ((List.range' (4 * k) 4).all fun i => bytes.getD i 0xff == 0xff) = true
  · rw [if_pos hAll, wordCost, if_pos hAll]
    apply Triple.ret
    rintro _ rfl
    exact hSpent
  rw [if_neg hAll, wordCost, if_neg hAll]
  apply Triple.failIf_bind
  · intro hFull
    have hWrites := hf.otherWrites slot ((offset + 4 * k) / 4) (by omega)
    have hOnce := hReady.writes ((offset + 4 * k) / 4) (by omega) (by omega)
    omega
  intro _
  have hTicks := @ticks_spent cut cost _ (List.range' (offset + 4 * k) 4)
  rw [List.length_range'] at hTicks
  apply Triple.bind (hTicks.at hSpent)
  exact fun _ => Triple.update fun _ h => h.same rfl

/-- A program call over erased words is cut after its `k`-th word exactly if the
power lasts for the words before it and not for the word itself. -/
theorem program_spent (hReady : Programmable slot offset bytes f₀) (hFree : Free f₀ slot offset bytes)
    (h : Spent cut cost f₀) :
    Triple (fun f => f = f₀) (program label slot offset bytes)
      (fun _ => Spent cut (cost + programmedBytes bytes))
      (fun _ f => ∃ k, 4 * k < bytes.length ∧ Wrote label slot offset bytes f₀ f (4 * k) false ∧
        Lasts cut (cost + programmedWords bytes k) ∧ ¬Lasts cut (cost + programmedWords bytes (k + 1))) := by
  have hAligned := hReady.aligned
  apply Triple.get
  intro f hf
  apply Triple.failIf_bind
  · intro hOutside
    have hBounds := hReady.inBounds
    rw [hf] at hOutside
    omega
  intro _
  have hStart : offset / 4 * 4 = offset := by omega
  have hCount : (offset + bytes.length + 3) / 4 - offset / 4 = (bytes.length + 3) / 4 := by omega
  rw [hStart, hCount]
  have hLoop := @Triple.forM _ _ _
    (fun _ f => ∃ k, 4 * k < bytes.length ∧ Wrote label slot offset bytes f₀ f (4 * k) false ∧
      Lasts cut (cost + programmedWords bytes k) ∧ ¬Lasts cut (cost + programmedWords bytes (k + 1)))
    (List.range' offset ((bytes.length + 3) / 4) 4) (programWord label slot offset bytes)
    (fun k f => Wrote label slot offset bytes f₀ f (4 * k) false ∧ Spent cut (cost + programmedWords bytes k) f) ?_
  · rw [List.length_range'] at hLoop
    apply Triple.bind (hLoop.at ⟨hf ▸ Wrote.start .., hf ▸ h⟩)
    intro _
    cases label with
    | none => exact Triple.ret fun _ hDone => hDone.2
    | some l => exact Triple.update fun _ hDone => hDone.2.same rfl
  · intro k hk
    rw [List.length_range'] at hk
    rw [List.getElem_range']
    apply Triple.of_state
    intro g ⟨hWrote, hSpent⟩
    have hInside : 4 * k < bytes.length := by omega
    have hWord := ((@programWord_spec label _ _ _ _ hReady.toPlaced _ hInside).at hWrote).and
      ((programWord_spent hReady hFree hInside).at ⟨hWrote, hSpent⟩)
    apply hWord.conseq (fun _ h => h)
    · intro _ s hs
      rw [programmedWords, ← Nat.add_assoc]
      exact hs
    · intro _ s hs
      have hShort := hs.2
      rw [Nat.add_assoc, ← programmedWords] at hShort
      exact ⟨k, hInside, hs.1.1, hSpent.lasts, hShort⟩

end Program

end MicroCard.Journal
