import MicroCard.Board.Nvm
import MicroCard.Journal.FlashSpec
import Mathlib.Data.List.Induction

/-! What the counters of the board give over runs with interrupted steps. A
counter whose words are all erased or fully programmed counts like the host's
counter; a word that is neither stops the counter for good. -/
namespace MicroCard.Board

open Bytes CrashTriple

section Word

theorem fromLE_eq_zero {a b c d : Byte} : fromLE [a, b, c, d] = 0 ↔ a = 0 ∧ b = 0 ∧ c = 0 ∧ d = 0 := by
  simp only [fromLE, ← UInt8.toNat_inj, UInt8.toNat_zero]
  omega

theorem fromLE_eq_max {a b c d : Byte} :
    fromLE [a, b, c, d] = u32Max ↔ a = 0xff ∧ b = 0xff ∧ c = 0xff ∧ d = 0xff := by
  have ha := a.toNat_lt
  have hb := b.toNat_lt
  have hc := c.toNat_lt
  have hd := d.toNat_lt
  have hff : (0xff : Byte).toNat = 255 := rfl
  simp only [fromLE, ← UInt8.toNat_inj, hff, u32Max]
  omega

theorem range_four (counter : Nat → Byte) (offset : Nat) :
    range counter offset 4 = [counter offset, counter (offset + 1), counter (offset + 2), counter (offset + 3)] := rfl

end Word

section Counter

/-- `value` words are fully programmed and the others are erased. -/
structure Whole (counter : Nat → Byte) (value : Nat) : Prop where
  fits : 4 * value ≤ counterBytes
  used : ∀ i < 4 * value, counter i = 0
  free : ∀ i, 4 * value ≤ i → i < counterBytes → counter i = 0xff

/-- The counter cannot be read. -/
def Broken (counter : Nat → Byte) : Prop := wordCounter counter = .error .storage

variable {counter : Nat → Byte} {value : Nat}

theorem Whole.counterIs (h : Whole counter value) : Journal.CounterIs counter counterBytes value where
  fits := h.fits
  used := by
    intro w hw
    refine ⟨4 * w, by omega, by omega, ?_⟩
    rw [h.used (4 * w) (by omega)]
    decide
  free := h.free

theorem whole_erased : Whole (fun _ => 0xff) 0 where
  fits := Nat.zero_le _
  used := fun i hi => absurd hi (by omega)
  free := fun _ _ _ => rfl

/-- The decoder reads over fully programmed words. -/
theorem decode_programmed (hBound : value < 2 ^ 64) (rest : Nat) :
    ∀ n w, w + n = value → (∀ i < 4 * value, counter i = 0) →
      decodeProgramOnceWordsFrom (range counter (4 * w) (4 * (n + rest))) w false =
        decodeProgramOnceWordsFrom (range counter (4 * value) (4 * rest)) value false
  | 0, w, hw, _ => by
      rw [Nat.zero_add]
      rw [Nat.add_zero] at hw
      rw [hw]
  | n + 1, w, hw, hUsed => by
      have hZero : fromLE [counter (4 * w), counter (4 * w + 1), counter (4 * w + 2), counter (4 * w + 3)] = 0 :=
        fromLE_eq_zero.2 ⟨hUsed _ (by omega), hUsed _ (by omega), hUsed _ (by omega), hUsed _ (by omega)⟩
      have hNext : checkedAdd64 w 1 = some (w + 1) := by rw [checkedAdd64, if_pos (by omega)]
      rw [show n + 1 + rest = (n + rest) + 1 by omega, Journal.range_word, decodeProgramOnceWordsFrom, if_pos hZero,
        if_neg (by simp), hNext]
      exact decode_programmed hBound rest n (w + 1) (by omega) hUsed

/-- The decoder reads over erased words. -/
theorem decode_erased : ∀ (n offset : Nat) (sawErased : Bool),
    (∀ i, offset ≤ i → i < offset + 4 * n → counter i = 0xff) →
      decodeProgramOnceWordsFrom (range counter offset (4 * n)) value sawErased = .ok value
  | 0, _, _, _ => rfl
  | n + 1, offset, sawErased, hFree => by
      have hMax : fromLE [counter offset, counter (offset + 1), counter (offset + 2), counter (offset + 3)] = u32Max :=
        fromLE_eq_max.2 ⟨hFree _ (by omega) (by omega), hFree _ (by omega) (by omega), hFree _ (by omega) (by omega),
          hFree _ (by omega) (by omega)⟩
      rw [Journal.range_word, decodeProgramOnceWordsFrom, hMax, if_neg (by decide), if_pos rfl]
      exact decode_erased n (offset + 4) true fun i hLow hHigh => hFree i (by omega) (by omega)

theorem Whole.decode (h : Whole counter value) : wordCounter counter = .ok value := by
  have hFits := h.fits
  simp only [counterBytes] at hFits
  rw [wordCounter, decodeProgramOnceWords, length_range, if_neg (by rw [counterBytes_eq]; decide)]
  have hProgrammed := decode_programmed (by omega) (1024 - value) value 0 (by omega) h.used
  rw [Nat.mul_zero, show 4 * (value + (1024 - value)) = counterBytes by simp only [counterBytes]; omega] at hProgrammed
  rw [hProgrammed]
  exact decode_erased _ _ _ fun i hLow hHigh => h.free i hLow (by simp only [counterBytes]; omega)

/-- A word that is neither erased nor fully programmed behind fully programmed
words breaks the counter. -/
theorem broken_of_torn (hRoom : 4 * value < counterBytes) (hUsed : ∀ i < 4 * value, counter i = 0)
    (hZero : ¬∀ i < 4, counter (4 * value + i) = 0) (hErased : ¬∀ i < 4, counter (4 * value + i) = 0xff) :
    Broken counter := by
  simp only [counterBytes] at hRoom
  rw [Broken, wordCounter, decodeProgramOnceWords, length_range, if_neg (by rw [counterBytes_eq]; decide)]
  have hProgrammed := decode_programmed (by omega) (1024 - value) value 0 (by omega) hUsed
  rw [Nat.mul_zero, show 4 * (value + (1024 - value)) = counterBytes by simp only [counterBytes]; omega] at hProgrammed
  rw [hProgrammed, show 1024 - value = (1023 - value) + 1 by omega, Journal.range_word, decodeProgramOnceWordsFrom,
    if_neg, if_neg]
  · intro hMax
    apply hErased
    obtain ⟨h0, h1, h2, h3⟩ := fromLE_eq_max.1 hMax
    intro i hi
    have hCases : i = 0 ∨ i = 1 ∨ i = 2 ∨ i = 3 := by omega
    rcases hCases with rfl | rfl | rfl | rfl <;> assumption
  · intro hNull
    apply hZero
    obtain ⟨h0, h1, h2, h3⟩ := fromLE_eq_zero.1 hNull
    intro i hi
    have hCases : i = 0 ∨ i = 1 ∨ i = 2 ∨ i = 3 := by omega
    rcases hCases with rfl | rfl | rfl | rfl <;> assumption

/-- The word a step programs is the first erased one, if it is the step's turn. -/
theorem nextProgramOnceWord_whole (h : Whole counter value) (generation : Nat) :
    nextProgramOnceWord (range counter 0 counterBytes) generation =
      if generation ≠ value + 1 then .error .storage
      else if 4 * (value + 1) ≤ counterBytes then .ok (4 * value) else .error .quota := by
  have hFits := h.fits
  have hBytes := counterBytes_eq
  have hDecode : decodeProgramOnceWords (range counter 0 counterBytes) = .ok value := h.decode
  have hNext : checkedAdd64 value 1 = some (value + 1) := by rw [checkedAdd64, if_pos (by omega)]
  rw [nextProgramOnceWord, hDecode]
  simp only [bind, Except.bind, failIf, length_range, hNext]
  by_cases hTurn : generation = value + 1
  · subst hTurn
    rw [if_neg (by simp), if_neg (by simp)]
    simp only [pure, Except.pure]
    rw [if_neg (by omega)]
    simp only
    rw [if_neg (by omega)]
    simp only
    have hSame : ¬value + 1 ≠ value + 1 := by omega
    rw [if_neg hSame]
    by_cases hRoom : 4 * (value + 1) ≤ counterBytes
    · rw [if_neg (by omega), if_pos hRoom, Nat.add_sub_cancel, Nat.mul_comm]
    · rw [if_pos (by omega), if_neg hRoom]
      rfl
  · rw [if_pos (by simp only [ne_eq, Option.some.injEq]; omega), if_pos hTurn]
    rfl

/-- What is left of a counter by a step that programmed its word. -/
theorem Whole.writeZero (h : Whole counter value) (hRoom : 4 * (value + 1) ≤ counterBytes) :
    Whole (writeZero .complete (4 * value) counter) (value + 1) where
  fits := hRoom
  used := by
    intro i hi
    simp only [Board.writeZero]
    by_cases hWord : 4 * value ≤ i ∧ i < 4 * value + 4
    · rw [if_pos hWord]
    · rw [if_neg hWord]
      exact h.used i (by omega)
  free := by
    intro i hLow hHigh
    simp only [Board.writeZero]
    rw [if_neg (by omega)]
    exact h.free i (by omega) hHigh

theorem writeZero_word (h : Whole counter value) (hRoom : 4 * (value + 1) ≤ counterBytes) (kept : Nat → Byte) {i : Nat}
    (hi : i < 4) : writeZero (.interrupted kept) (4 * value) counter (4 * value + i) = kept i := by
  simp only [writeZero]
  rw [if_pos (by omega), h.free _ (by omega) (by omega), Nat.add_sub_cancel_left, show (0xff : Byte) = -1 from rfl,
    UInt8.neg_one_and]

/-- An interrupted step leaves the counter where it was, one further or broken. -/
theorem Whole.interrupted (h : Whole counter value) (hRoom : 4 * (value + 1) ≤ counterBytes) (kept : Nat → Byte) :
    Whole (Board.writeZero (.interrupted kept) (4 * value) counter) value ∨
      Whole (Board.writeZero (.interrupted kept) (4 * value) counter) (value + 1) ∨
      (Pulse.interrupted kept).Tears ∧ Broken (Board.writeZero (.interrupted kept) (4 * value) counter) := by
  have hOutside : ∀ i, ¬(4 * value ≤ i ∧ i < 4 * value + 4) →
      Board.writeZero (.interrupted kept) (4 * value) counter i = counter i := by
    intro i hi
    simp only [Board.writeZero]
    rw [if_neg hi]
  have hUsed : ∀ i < 4 * value, Board.writeZero (.interrupted kept) (4 * value) counter i = 0 := by
    intro i hi
    rw [hOutside i (by omega)]
    exact h.used i hi
  by_cases hErased : ∀ i < 4, kept i = 0xff
  · left
    refine ⟨h.fits, hUsed, fun i hLow hHigh => ?_⟩
    by_cases hWord : i < 4 * value + 4
    · obtain ⟨d, rfl⟩ : ∃ d, i = 4 * value + d := ⟨i - 4 * value, by omega⟩
      rw [writeZero_word h hRoom kept (by omega)]
      exact hErased d (by omega)
    · rw [hOutside i (by omega)]
      exact h.free i hLow hHigh
  by_cases hZero : ∀ i < 4, kept i = 0
  · right
    left
    refine ⟨hRoom, fun i hi => ?_, fun i hLow hHigh => ?_⟩
    · by_cases hWord : 4 * value ≤ i
      · obtain ⟨d, rfl⟩ : ∃ d, i = 4 * value + d := ⟨i - 4 * value, by omega⟩
        rw [writeZero_word h hRoom kept (by omega)]
        exact hZero d (by omega)
      · exact hUsed i (by omega)
    · rw [hOutside i (by omega)]
      exact h.free i (by omega) hHigh
  · right
    right
    refine ⟨⟨hZero, hErased⟩, broken_of_torn (by omega) hUsed (fun hAll => hZero fun i hi => ?_)
      fun hAll => hErased fun i hi => ?_⟩
    · rw [← writeZero_word h hRoom kept hi]
      exact hAll i hi
    · rw [← writeZero_word h hRoom kept hi]
      exact hAll i hi

/-- A step on a readable counter. -/
theorem advanceWordCounter_whole {page : Page} (h : Whole page.bytes value) (generation : Nat) (pulse : Pulse) :
    Triple (fun s => s = page) (advanceWordCounter generation pulse)
      (fun _ s => generation = value + 1 ∧ Whole s.bytes (value + 1))
      (fun e s => e ≠ .native ∧ s = page ∧ ¬(generation = value + 1 ∧ 4 * (value + 1) ≤ counterBytes) ∨
        e = .native ∧ pulse.isInterrupted = true ∧
          (Whole s.bytes value ∨ Whole s.bytes (value + 1) ∨ pulse.Tears ∧ Broken s.bytes)) := by
  apply Triple.get
  intro s hs
  subst hs
  apply Triple.readOnly_bind
  swap
  · rintro e hError _ rfl
    rw [nextProgramOnceWord_whole h] at hError
    left
    split at hError
    · rename_i hTurn
      injection hError with hError
      rw [← hError]
      exact ⟨by decide, rfl, fun hBoth => hTurn hBoth.1⟩
    split at hError
    · cases hError
    · rename_i hFull
      injection hError with hError
      rw [← hError]
      exact ⟨by decide, rfl, fun hBoth => hFull hBoth.2⟩
  intro offset hOffset
  rw [nextProgramOnceWord_whole h] at hOffset
  split at hOffset
  · cases hOffset
  rename_i hTurn
  split at hOffset
  swap
  · cases hOffset
  rename_i hRoom
  injection hOffset with hOffset
  subst hOffset
  have hErased : fromLE (range s.bytes (4 * value) 4) = u32Max := by
    rw [range_four, fromLE_eq_max]
    exact ⟨h.free _ (by omega) (by omega), h.free _ (by omega) (by omega), h.free _ (by omega) (by omega),
      h.free _ (by omega) (by omega)⟩
  apply Triple.failIf_bind
  · exact fun hUsed => absurd hErased hUsed
  intro _
  apply Triple.bind (Q := fun _ s' => s'.bytes = writeZero pulse (4 * value) s.bytes)
  · apply Triple.update
    rintro _ rfl
    rfl
  intro _
  cases pulse with
  | complete =>
      apply Triple.failIf_bind
      · exact fun hBad => nomatch hBad
      intro _
      apply Triple.get
      intro s' hs'
      have hWhole := h.writeZero hRoom
      rw [← hs'] at hWhole
      have hZero : fromLE (range s'.bytes (4 * value) 4) = 0 := by
        rw [range_four, fromLE_eq_zero]
        exact ⟨hWhole.used _ (by omega), hWhole.used _ (by omega), hWhole.used _ (by omega), hWhole.used _ (by omega)⟩
      rw [failIf, if_neg (by rw [hZero]; simp)]
      apply Triple.ret
      rintro _ rfl
      exact ⟨by omega, hWhole⟩
  | interrupted kept =>
      apply Triple.failIf_bind
      · rintro - s' hs'
        refine .inr ⟨rfl, rfl, ?_⟩
        rw [hs']
        exact h.interrupted hRoom kept
      · exact fun hBad => absurd rfl hBad

/-- A complete step succeeds when it is its turn and the page is not full. -/
theorem advanceWordCounter_next {page : Page} (h : Whole page.bytes value) (hRoom : 4 * (value + 1) ≤ counterBytes) :
    ∃ page', advanceWordCounter (value + 1) .complete page = .ok () page' ∧ Whole page'.bytes (value + 1) := by
  have hRun := advanceWordCounter_whole h (value + 1) .complete page rfl
  split at hRun
  · rename_i page' hOk
    exact ⟨page', hOk, hRun.2⟩
  · rcases hRun with ⟨-, -, hRefused⟩ | ⟨-, hInterrupted, -⟩
    · exact absurd ⟨rfl, hRoom⟩ hRefused
    · cases hInterrupted

/-- Every call on a broken counter fails and leaves it broken. -/
theorem advanceWordCounter_broken {page : Page} (h : Broken page.bytes) (generation : Nat) (pulse : Pulse) :
    advanceWordCounter generation pulse page = .error .storage page := by
  have hNext : nextProgramOnceWord (range page.bytes 0 counterBytes) generation = .error .storage := by
    have hDecode : decodeProgramOnceWords (range page.bytes 0 counterBytes) = .error .storage := h
    rw [nextProgramOnceWord, hDecode]
    rfl
  simp only [advanceWordCounter, bind, EStateM.bind, get, getThe, MonadStateOf.get, EStateM.get, readOnly, hNext]

end Counter

section Runs

/-- What a caller knows of one counter: the values of its completed calls,
newest first, and how many calls were interrupted since. -/
structure Tally where
  completed : List Nat
  cuts : Nat

def Tally.last (tally : Tally) : Nat := tally.completed.headD 0

/-- Note the result of a call. A call without a result was interrupted. -/
def Tally.note (tally : Tally) : Except Error Nat → Tally
  | .ok value => ⟨value :: tally.completed, 0⟩
  | .error .native => ⟨tally.completed, tally.cuts + 1⟩
  | .error _ => tally

inductive Call where
  | reserve (pulse : Pulse)
  | advance (generation : Nat) (pulse : Pulse)

/-- The board's counters after a run, with what its callers know of them. -/
structure Served where
  nvm : Nvm
  nonces : Tally
  anchor : Tally

def outcome {σ α : Type} : EStateM.Result Error σ α → Except Error α
  | .ok a _ => .ok a
  | .error e _ => .error e

def Served.call (served : Served) : Call → Served
  | .reserve pulse =>
      let result := Nvm.reserveNonce pulse served.nvm
      { served with nvm := final result, nonces := served.nonces.note (outcome result) }
  | .advance generation pulse =>
      let result := Nvm.advanceMonotonic generation pulse served.nvm
      { served with
        nvm := final result
        anchor := served.anchor.note ((outcome result).map fun _ => generation) }

/-- A run of calls on erased counters. -/
def serve (calls : List Call) : Served :=
  calls.foldl Served.call ⟨.erased, ⟨[], 0⟩, ⟨[], 0⟩⟩

/-- A counter and what is known of it. A run that tore none of its words can
read it, and finds one value more at most for each interrupted call. -/
structure Counted (counter : Nat → Byte) (tally : Tally) (torn : Prop) : Prop where
  ordered : tally.completed.Pairwise (· > ·)
  state : (∃ value, Whole counter value ∧ tally.last ≤ value ∧ value ≤ tally.last + tally.cuts) ∨
    torn ∧ Broken counter

variable {tally : Tally} {torn torn' : Prop} {page : Page} {counter : Nat → Byte}

theorem Counted.mono (h : Counted counter tally torn) (hTorn : torn → torn') : Counted counter tally torn' where
  ordered := h.ordered
  state := by
    rcases h.state with hWhole | ⟨hBefore, hBroken⟩
    · exact .inl hWhole
    · exact .inr ⟨hTorn hBefore, hBroken⟩

theorem le_last {values : List Nat} (h : values.Pairwise (· > ·)) {v : Nat} (hv : v ∈ values) : v ≤ values.headD 0 := by
  cases values with
  | nil => cases hv
  | cons first rest =>
      rcases List.mem_cons.1 hv with rfl | hRest
      · exact Nat.le_refl _
      · exact Nat.le_of_lt ((List.pairwise_cons.1 h).1 v hRest)

/-- A step of a counted page keeps it counted. -/
theorem Counted.advance (h : Counted page.bytes tally torn) (generation : Nat) (pulse : Pulse) :
    Counted (final (advanceWordCounter generation pulse page)).bytes
      (tally.note ((outcome (advanceWordCounter generation pulse page)).map fun _ => generation)) (torn ∨ pulse.Tears) := by
  rcases h.state with ⟨value, hWhole, hLow, hHigh⟩ | ⟨hTorn, hBroken⟩
  · have hRun := advanceWordCounter_whole hWhole generation pulse page rfl
    split at hRun
    · rename_i page' hOk
      obtain ⟨rfl, hNext⟩ := hRun
      rw [hOk]
      refine ⟨List.pairwise_cons.2 ⟨fun v hv => ?_, h.ordered⟩, .inl ⟨value + 1, hNext, Nat.le_refl _, Nat.le_refl _⟩⟩
      have hBefore := le_last h.ordered hv
      rw [Tally.last] at hLow
      exact Nat.lt_succ_of_le (hBefore.trans hLow)
    · rename_i e page' hError
      rw [hError]
      rcases hRun with ⟨hOther, rfl, -⟩ | ⟨rfl, -, hLeft⟩
      · have hSame : tally.note (.error e) = tally := by
          cases e <;> first | rfl | exact absurd rfl hOther
        change Counted page'.bytes (tally.note (.error e)) _
        rw [hSame]
        exact h.mono .inl
      · refine ⟨h.ordered, ?_⟩
        rcases hLeft with hStay | hMoved | ⟨hTears, hBroken⟩
        · exact .inl ⟨value, hStay, hLow, hHigh.trans (Nat.le_succ _)⟩
        · exact .inl ⟨value + 1, hMoved, hLow.trans (Nat.le_succ _), Nat.succ_le_succ hHigh⟩
        · exact .inr ⟨.inr hTears, hBroken⟩
  · rw [advanceWordCounter_broken hBroken]
    exact h.mono .inl

theorem reserveNonce_eq {nvm : Nvm} {value : Nat} (h : Whole nvm.nonces.bytes value) (pulse : Pulse) :
    Nvm.reserveNonce pulse nvm =
      match advanceWordCounter (value + 1) pulse nvm.nonces with
      | .ok _ page => .ok (value + 1) { nvm with nonces := page }
      | .error e page => .error e { nvm with nonces := page } := by
  have hFits := h.fits
  rw [counterBytes_eq] at hFits
  have hCurrent : nvm.nonceGeneration = .ok value := h.decode
  have hNext : checkedAdd64 value 1 = some (value + 1) := by rw [checkedAdd64, if_pos (by omega)]
  simp only [Nvm.reserveNonce, bind, EStateM.bind, get, getThe, MonadStateOf.get, EStateM.get, readOnly, hCurrent, hNext,
    orFail, pure, EStateM.pure, Nvm.onNonces]
  cases advanceWordCounter (value + 1) pulse nvm.nonces with
  | ok _ page => rfl
  | error e page => rfl

theorem reserveNonce_broken {nvm : Nvm} (h : Broken nvm.nonces.bytes) (pulse : Pulse) :
    Nvm.reserveNonce pulse nvm = .error .storage nvm := by
  have hCurrent : nvm.nonceGeneration = .error .storage := h
  simp only [Nvm.reserveNonce, bind, EStateM.bind, get, getThe, MonadStateOf.get, EStateM.get, readOnly, hCurrent]

/-- A reservation keeps the nonce page counted and the anchor's page as it is. -/
theorem Served.call_reserve {served : Served} (h : Counted served.nvm.nonces.bytes served.nonces torn) (pulse : Pulse) :
    Counted (served.call (.reserve pulse)).nvm.nonces.bytes (served.call (.reserve pulse)).nonces (torn ∨ pulse.Tears) ∧
      (served.call (.reserve pulse)).nvm.monotonic = served.nvm.monotonic := by
  rcases h.state with ⟨value, hWhole, hLow, hHigh⟩ | ⟨hTorn, hBroken⟩
  · have hStep := h.advance (value + 1) pulse
    simp only [Served.call, reserveNonce_eq hWhole]
    cases hRun : advanceWordCounter (value + 1) pulse served.nvm.nonces with
    | ok _ page =>
        rw [hRun] at hStep
        exact ⟨hStep, rfl⟩
    | error e page =>
        rw [hRun] at hStep
        exact ⟨hStep, rfl⟩
  · simp only [Served.call, reserveNonce_broken hBroken]
    exact ⟨h.mono .inl, rfl⟩

/-- An anchor step keeps the anchor's page counted and the nonce page as it is. -/
theorem Served.call_advance {served : Served} (h : Counted served.nvm.monotonic.bytes served.anchor torn)
    (generation : Nat) (pulse : Pulse) :
    Counted (served.call (.advance generation pulse)).nvm.monotonic.bytes
        (served.call (.advance generation pulse)).anchor (torn ∨ pulse.Tears) ∧
      (served.call (.advance generation pulse)).nvm.nonces = served.nvm.nonces := by
  have hStep := h.advance generation pulse
  simp only [Served.call, Nvm.advanceMonotonic, Nvm.onMonotonic]
  cases hRun : advanceWordCounter generation pulse served.nvm.monotonic with
  | ok _ page =>
      rw [hRun] at hStep
      exact ⟨hStep, rfl⟩
  | error e page =>
      rw [hRun] at hStep
      exact ⟨hStep, rfl⟩

/-- A reservation of the run tore its word. -/
def TornNonce (calls : List Call) : Prop := ∃ pulse, .reserve pulse ∈ calls ∧ pulse.Tears

/-- An anchor step of the run tore its word. -/
def TornAnchor (calls : List Call) : Prop := ∃ generation pulse, .advance generation pulse ∈ calls ∧ pulse.Tears

/-- Both pages stay counted over a run. -/
theorem serve_counted (calls : List Call) :
    Counted (serve calls).nvm.nonces.bytes (serve calls).nonces (TornNonce calls) ∧
      Counted (serve calls).nvm.monotonic.bytes (serve calls).anchor (TornAnchor calls) := by
  induction calls using List.reverseRecOn with
  | nil =>
      have hStart : Counted (fun _ => 0xff) ⟨[], 0⟩ False :=
        ⟨List.Pairwise.nil, .inl ⟨0, whole_erased, Nat.le_refl _, Nat.le_refl _⟩⟩
      exact ⟨hStart.mono False.elim, hStart.mono False.elim⟩
  | append_singleton calls call ih =>
      obtain ⟨hNonces, hAnchor⟩ := ih
      have hServe : serve (calls ++ [call]) = (serve calls).call call := by
        rw [serve, List.foldl_append]
        rfl
      have hNonceBefore : TornNonce calls → TornNonce (calls ++ [call]) :=
        fun ⟨pulse, hMem, hTears⟩ => ⟨pulse, List.mem_append_left _ hMem, hTears⟩
      have hAnchorBefore : TornAnchor calls → TornAnchor (calls ++ [call]) :=
        fun ⟨generation, pulse, hMem, hTears⟩ => ⟨generation, pulse, List.mem_append_left _ hMem, hTears⟩
      rw [hServe]
      cases call with
      | reserve pulse =>
          obtain ⟨hStep, hSame⟩ := Served.call_reserve hNonces pulse
          refine ⟨hStep.mono ?_, ?_⟩
          · rintro (hTorn | hTears)
            · exact hNonceBefore hTorn
            · exact ⟨pulse, List.mem_append_right _ (List.mem_singleton_self _), hTears⟩
          · rw [hSame]
            exact hAnchor.mono hAnchorBefore
      | advance generation pulse =>
          obtain ⟨hStep, hSame⟩ := Served.call_advance hAnchor generation pulse
          refine ⟨?_, hStep.mono ?_⟩
          · rw [hSame]
            exact hNonces.mono hNonceBefore
          · rintro (hTorn | hTears)
            · exact hAnchorBefore hTorn
            · exact ⟨generation, pulse, List.mem_append_right _ (List.mem_singleton_self _), hTears⟩

/-- The nonce counter serves: it reads a value between that of the last completed
reservation and one more for each interrupted one, as the host's decoder does,
and the next reservation returns the value after it while there is room. -/
def NoncesServe (served : Served) : Prop :=
  ∃ value, served.nvm.nonceGeneration = .ok value ∧
    Journal.decodeMonotonicWords (range served.nvm.nonces.bytes 0 counterBytes) = .ok value ∧
    served.nonces.last ≤ value ∧ value ≤ served.nonces.last + served.nonces.cuts ∧
    (value < Nvm.nonceCapacity → ∃ nvm, Nvm.reserveNonce .complete served.nvm = .ok (value + 1) nvm ∧
      nvm.nonceGeneration = .ok (value + 1))

/-- The anchor serves in the same sense. -/
def AnchorServes (served : Served) : Prop :=
  ∃ value, served.nvm.monotonicGeneration = .ok value ∧
    Journal.decodeMonotonicWords (range served.nvm.monotonic.bytes 0 counterBytes) = .ok value ∧
    served.anchor.last ≤ value ∧ value ≤ served.anchor.last + served.anchor.cuts ∧
    (value < Nvm.monotonicCapacity → ∃ nvm, Nvm.advanceMonotonic (value + 1) .complete served.nvm = .ok () nvm ∧
      nvm.monotonicGeneration = .ok (value + 1))

/-- Over every run of calls, interrupted or not, no reservation returns a value
twice, and each counter serves unless a call of the run tore one of its words;
then the word counts as corruption, and reading it and every call on it fail. -/
theorem counters_serve_unless_torn (calls : List Call) :
    (serve calls).nonces.completed.Nodup ∧
      (NoncesServe (serve calls) ∨ TornNonce calls ∧ (serve calls).nvm.nonceGeneration = .error .storage ∧
        ∀ pulse, Nvm.reserveNonce pulse (serve calls).nvm = .error .storage (serve calls).nvm) ∧
      (AnchorServes (serve calls) ∨ TornAnchor calls ∧ (serve calls).nvm.monotonicGeneration = .error .storage ∧
        ∀ generation pulse, Nvm.advanceMonotonic generation pulse (serve calls).nvm =
          .error .storage (serve calls).nvm) := by
  obtain ⟨hNonces, hAnchor⟩ := serve_counted calls
  have hWords : counterBytes % 4 = 0 := by rw [counterBytes_eq]
  have hSmall : counterBytes < 2 ^ 63 := by rw [counterBytes_eq]; decide
  refine ⟨hNonces.ordered.imp fun h => Nat.ne_of_gt h, ?_, ?_⟩
  · rcases hNonces.state with ⟨value, hWhole, hLow, hHigh⟩ | ⟨hTorn, hBroken⟩
    · refine .inl ⟨value, hWhole.decode, hWhole.counterIs.decode hWords hSmall, hLow, hHigh, fun hRoom => ?_⟩
      obtain ⟨page, hOk, hNext⟩ := advanceWordCounter_next hWhole (by rw [Nvm.nonceCapacity] at hRoom; omega)
      refine ⟨{ (serve calls).nvm with nonces := page }, ?_, hNext.decode⟩
      rw [reserveNonce_eq hWhole, hOk]
    · exact .inr ⟨hTorn, hBroken, reserveNonce_broken hBroken⟩
  · rcases hAnchor.state with ⟨value, hWhole, hLow, hHigh⟩ | ⟨hTorn, hBroken⟩
    · refine .inl ⟨value, hWhole.decode, hWhole.counterIs.decode hWords hSmall, hLow, hHigh, fun hRoom => ?_⟩
      obtain ⟨page, hOk, hNext⟩ := advanceWordCounter_next hWhole (by rw [Nvm.monotonicCapacity] at hRoom; omega)
      refine ⟨{ (serve calls).nvm with monotonic := page }, ?_, hNext.decode⟩
      rw [Nvm.advanceMonotonic, Nvm.onMonotonic, hOk]
    · refine .inr ⟨hTorn, hBroken, fun generation pulse => ?_⟩
      rw [Nvm.advanceMonotonic, Nvm.onMonotonic, advanceWordCounter_broken hBroken]

/-- A pulse that clears the first byte of its word only. -/
def firstByte : Pulse := .interrupted fun i => if i = 0 then 0 else 0xff

/-- After one interrupted reservation the counter cannot be read, though the
host's decoder counts the torn word. -/
theorem torn_reservation_breaks_counter :
    (serve [.reserve firstByte]).nvm.nonceGeneration = .error .storage ∧
      Journal.decodeMonotonicWords (range (serve [.reserve firstByte]).nvm.nonces.bytes 0 counterBytes) = .ok 1 := by
  decide +kernel

end Runs

end MicroCard.Board
