import MicroCard.Journal.Atomicity
import Mathlib.Data.List.Pairwise

/-! Uniqueness of the AES-CCM nonces. Nothing is assumed of the provider here:
it may fail, or return anything of the right length, at every call. What keeps
the nonces apart is the reservation counter, the header that names the epoch, and
the rule that a frame is only started on erased words. -/
namespace MicroCard.Journal

open Bytes CrashTriple

section Labels

theorem nonce_injective {a b : Nat} (ha : a < 2 ^ 64) (hb : b < 2 ^ 64) (h : nonce a = nonce b) : a = b := by
  simp only [nonce] at h
  exact toLE_injective (by simpa using ha) (by simpa using hb) (List.append_cancel_left h)

theorem appendNonce_eq {a o : Nat} {label : List Byte} (h : appendNonce a o = .ok label) :
    o < 2 ^ 32 ∧ label = [0x41] ++ toLE 8 a ++ toLE 4 o := by
  unfold appendNonce at h
  split at h
  · rename_i hLt
    injection h with h
    exact ⟨hLt, h.symm⟩
  · cases h

theorem appendNonce_injective {a b o p : Nat} {label : List Byte} (ha : a < 2 ^ 64) (hb : b < 2 ^ 64)
    (h : appendNonce a o = .ok label) (h' : appendNonce b p = .ok label) : a = b ∧ o = p := by
  obtain ⟨hLt, rfl⟩ := appendNonce_eq h
  obtain ⟨hLt', hEq⟩ := appendNonce_eq h'
  obtain ⟨hFront, hBack⟩ := List.append_inj' hEq (by simp)
  exact ⟨toLE_injective (by simpa using ha) (by simpa using hb) (List.append_cancel_left hFront),
    toLE_injective (by simpa using hLt) (by simpa using hLt') hBack⟩

/-- The two nonce domains are disjoint. -/
theorem appendNonce_ne_nonce (a b o : Nat) : appendNonce b o ≠ .ok (nonce a) := by
  intro h
  obtain ⟨-, hEq⟩ := appendNonce_eq h
  injection hEq with hFirst
  exact absurd hFirst (by decide)

end Labels

/-- Words of one and the same program call. -/
def SameCall (x y : Programmed) : Prop := x.slot = y.slot ∧ x.offset = y.offset ∧ x.bytes = y.bytes

/-- Two words under one nonce belong to one call and lie at different places. -/
def Apart (x y : Programmed) : Prop :=
  ∀ label, x.label = some label → y.label = some label → SameCall x y ∧ x.word ≠ y.word

theorem Apart.symm {x y : Programmed} (h : Apart x y) : Apart y x := by
  intro label hy hx
  obtain ⟨⟨hSlot, hOffset, hBytes⟩, hWord⟩ := h label hx hy
  exact ⟨⟨hSlot.symm, hOffset.symm, hBytes.symm⟩, hWord.symm⟩

instance : Std.Symm Apart := ⟨fun _ _ h => h.symm⟩

/-- A slot that names `attempt` as its epoch. -/
structure Hosts (memory : Nat → Byte) (size attempt : Nat) : Prop where
  bounded : attempt < 2 ^ 64
  first : memory 0 ≠ 0xff
  named : range memory 12 8 = toLE 8 attempt
  commit : range memory (size - committed) 4 = zeroWord

/-- The places a nonce may label: the front of a snapshot sealed under a reserved
attempt, or a frame of an epoch whose snapshot was programmed. -/
def Belongs (trace : Trace) (label : List Byte) (offset : Nat) : Prop :=
  ∃ attempt ∈ trace.attempts, (label = nonce attempt ∧ offset = 0) ∨
    (appendNonce attempt offset = .ok label ∧ ∃ e ∈ trace.words, e.label = some (nonce attempt))

/-- The invariant behind nonce uniqueness. `reserved` is the reservation counter
and `tokens` are the values reserved but not yet spent. -/
structure NonceSafe (f : MemoryFlash) (reserved : Nat) (tokens : List Nat) : Prop where
  whole : f.slotSize % 4 = 0
  counter : CounterIs f.nonces f.slotSize reserved
  attempts_le : ∀ a ∈ f.trace.attempts, a ≤ reserved
  attempts_nodup : f.trace.attempts.Nodup
  tokens_le : ∀ v ∈ tokens, v ≤ reserved
  tokens_nodup : tokens.Nodup
  tokens_unspent : ∀ v ∈ tokens, v ∉ f.trace.attempts
  belongs : ∀ e ∈ f.trace.words, ∀ label, e.label = some label → Belongs f.trace label e.offset
  apart : f.trace.words.Pairwise Apart
  noted : ∀ r ∈ f.trace.records, ∃ e ∈ f.trace.words, e.label = some r.1 ∧ e.bytes = r.2
  hosted : ∀ t a, Hosts (f.slots t) f.slotSize a → ∃ e ∈ f.trace.words, e.label = some (nonce a) ∧ e.slot = t
  frames : ∀ e ∈ f.trace.words, ∀ a label, a < 2 ^ 64 → appendNonce a e.offset = .ok label → e.label = some label →
    ∀ t, Hosts (f.slots t) f.slotSize a → ∃ i, e.offset ≤ i ∧ i < e.offset + 4 ∧ f.slots t i ≠ 0xff

section Steps

variable {f g : MemoryFlash} {reserved : Nat} {tokens : List Nat}

theorem NonceSafe.reserved_lt (h : NonceSafe f reserved tokens) : reserved < 2 ^ 64 := by
  have hFits := h.counter.fits
  have hBounded := f.bounded
  omega

theorem NonceSafe.words_agree (h : NonceSafe f reserved tokens) {x y : Programmed} {label : List Byte}
    (hx : x ∈ f.trace.words) (hy : y ∈ f.trace.words) (hxl : x.label = some label) (hyl : y.label = some label) :
    SameCall x y := by
  by_cases hEq : x = y
  · rw [hEq]
    exact ⟨rfl, rfl, rfl⟩
  · exact (h.apart.forall hx hy hEq label hxl hyl).1

/-- Only one slot hosts an epoch. -/
theorem NonceSafe.host_unique (h : NonceSafe f reserved tokens) {t t' a : Nat}
    (ht : Hosts (f.slots t) f.slotSize a) (ht' : Hosts (f.slots t') f.slotSize a) : t = t' := by
  obtain ⟨x, hx, hxl, rfl⟩ := h.hosted t a ht
  obtain ⟨y, hy, hyl, rfl⟩ := h.hosted t' a ht'
  exact (h.words_agree hx hy hxl hyl).1

/-- What a program call has to bring along to keep the nonces apart. -/
structure FreshCall (f : MemoryFlash) (g : MemoryFlash) (label : Option (List Byte)) (slot offset count : Nat)
    (finished : Bool) : Prop where
  keeps : ∀ i, f.slots slot i ≠ 0xff → g.slots slot i ≠ 0xff
  hosts : ∀ a, Hosts (g.slots slot) f.slotSize a → Hosts (f.slots slot) f.slotSize a ∨
    ((∃ e ∈ f.trace.words, e.label = some (nonce a) ∧ e.slot = slot) ∧
      ∀ e ∈ f.trace.words, ∀ l, appendNonce a e.offset = .ok l → e.label ≠ some l)
  unused : ∀ l, label = some l → ∀ e ∈ f.trace.words, e.label ≠ some l
  belongs : ∀ l, label = some l → Belongs f.trace l offset
  started : ∀ l a, label = some l → a < 2 ^ 64 → appendNonce a offset = .ok l → 0 < count →
    Hosts (f.slots slot) f.slotSize a ∧ Hosts (g.slots slot) f.slotSize a ∧ g.slots slot offset ≠ 0xff
  changes : ∀ l, label = some l → finished = true → ∃ i, g.slots slot i ≠ f.slots slot i

/-- One program call, cut or not. -/
theorem NonceSafe.wrote (h : NonceSafe f reserved tokens) {label : Option (List Byte)} {slot offset : Nat}
    {bytes : List Byte} {count : Nat} {finished : Bool}
    (hWrote : Wrote label slot offset bytes f g count finished)
    (hFresh : FreshCall f g label slot offset count finished) :
    NonceSafe g reserved tokens := by
  obtain ⟨new, hWords, hDistinct, hNew⟩ := hWrote.words
  have hOther : ∀ t, t ≠ slot → g.slots t = f.slots t := hWrote.slotOnly.slots
  have hBelongs : ∀ {l : List Byte} {o : Nat}, Belongs f.trace l o → Belongs g.trace l o := by
    intro l o hOld
    obtain ⟨a, ha, hSnapshot | ⟨hFrame, e, he, hLabel⟩⟩ := hOld
    · exact ⟨a, hWrote.attempts ▸ ha, .inl hSnapshot⟩
    · refine ⟨a, hWrote.attempts ▸ ha, .inr ⟨hFrame, e, ?_, hLabel⟩⟩
      rw [hWords]
      exact List.mem_append_right _ he
  refine ⟨hWrote.slotSize ▸ h.whole, ?_, ?_, ?_, h.tokens_le, h.tokens_nodup, ?_, ?_, ?_, ?_, ?_, ?_⟩
  · rw [hWrote.nonces, hWrote.slotSize]
    exact h.counter
  · rw [hWrote.attempts]
    exact h.attempts_le
  · rw [hWrote.attempts]
    exact h.attempts_nodup
  · rw [hWrote.attempts]
    exact h.tokens_unspent
  · intro e he l hl
    rw [hWords, List.mem_append] at he
    rcases he with he | he
    · have hEntry := (hNew e he).1
      rw [hEntry] at hl ⊢
      exact hBelongs (hFresh.belongs l hl)
    · exact hBelongs (h.belongs e he l hl)
  · rw [hWords, List.pairwise_append]
    refine ⟨?_, h.apart, fun x hx y hy l hxl hyl => ?_⟩
    · refine hDistinct.imp_of_mem fun {x y} hx hy hNe l _ _ => ?_
      have hxEq := (hNew x hx).1
      have hyEq := (hNew y hy).1
      rw [hxEq, hyEq]
      exact ⟨⟨rfl, rfl, rfl⟩, hNe⟩
    · have hxEq := (hNew x hx).1
      rw [hxEq] at hxl
      exact absurd hyl (hFresh.unused l hxl y hy)
  · intro r hr
    have hOld : r ∈ f.trace.records → ∃ e ∈ g.trace.words, e.label = some r.1 ∧ e.bytes = r.2 := by
      intro hBefore
      obtain ⟨e, he, hEntry⟩ := h.noted r hBefore
      refine ⟨e, ?_, hEntry⟩
      rw [hWords]
      exact List.mem_append_right _ he
    rw [hWrote.records] at hr
    cases finished with
    | false => exact hOld hr
    | true =>
        cases label with
        | none => exact hOld hr
        | some l =>
            rcases List.mem_cons.1 hr with hNewest | hBefore
            · obtain ⟨i, hChanged⟩ := hFresh.changes l rfl rfl
              obtain ⟨e, rest, he, hEntry⟩ := hWrote.noted i hChanged
              refine ⟨e, he ▸ List.mem_cons_self, ?_⟩
              rw [hEntry, hNewest]
              exact ⟨rfl, rfl⟩
            · exact hOld hBefore
  · intro t a hHosts
    rw [hWrote.slotSize] at hHosts
    have hOld : ∀ {t}, (∃ e ∈ f.trace.words, e.label = some (nonce a) ∧ e.slot = t) →
        ∃ e ∈ g.trace.words, e.label = some (nonce a) ∧ e.slot = t := by
      rintro t ⟨e, he, hRest⟩
      refine ⟨e, ?_, hRest⟩
      rw [hWords]
      exact List.mem_append_right _ he
    by_cases ht : t = slot
    · subst ht
      rcases hFresh.hosts a hHosts with hBefore | ⟨hEntry, -⟩
      · exact hOld (h.hosted _ a hBefore)
      · exact hOld hEntry
    · rw [hOther t ht] at hHosts
      exact hOld (h.hosted t a hHosts)
  · intro e he a l ha hNonce hl t hHosts
    rw [hWrote.slotSize] at hHosts
    rw [hWords, List.mem_append] at he
    rcases he with he | he
    · obtain ⟨hEntry, hLow, hHigh⟩ := hNew e he
      rw [hEntry] at hl hNonce ⊢
      obtain ⟨hBefore, hAfter, hByte⟩ := hFresh.started l a hl ha hNonce (by omega)
      have ht : t = slot := by
        by_contra hNe
        rw [hOther t hNe] at hHosts
        exact hNe (h.host_unique hHosts hBefore)
      subst ht
      exact ⟨offset, Nat.le_refl _, by simp only; omega, hByte⟩
    · by_cases ht : t = slot
      · subst ht
        rcases hFresh.hosts a hHosts with hBefore | ⟨-, hNone⟩
        · obtain ⟨i, hLow, hHigh, hUsed⟩ := h.frames e he a l ha hNonce hl _ hBefore
          exact ⟨i, hLow, hHigh, hFresh.keeps i hUsed⟩
        · exact absurd hl (hNone e he l hNonce)
      · rw [hOther t ht] at hHosts ⊢
        exact h.frames e he a l ha hNonce hl t hHosts

/-- Erasing a slot, cut or not, ends its epoch at the first byte. -/
theorem erase_safe (h : NonceSafe f reserved tokens) (slot : Nat) :
    Triple (fun s => s = f) (erase slot)
      (fun _ g => NonceSafe g reserved tokens ∧ g.slotSize = f.slotSize ∧ g.trace = f.trace ∧
        ∀ i < f.slotSize, g.slots slot i = 0xff)
      (fun _ g => NonceSafe g reserved tokens) := by
  have hGone : ∀ (memory : Nat → Byte) (writes : Nat → Nat → Nat) (x : Option Nat),
      memory = f.slots slot ∨ memory 0 = 0xff →
      NonceSafe { f with slots := Function.update f.slots slot memory, slotWordWrites := writes, failAfter := x }
        reserved tokens := by
    intro memory writes x hMemory
    have hBack : ∀ t a, Hosts (Function.update f.slots slot memory t) f.slotSize a →
        Hosts (f.slots t) f.slotSize a ∧ Function.update f.slots slot memory t = f.slots t := by
      intro t a hHosts
      by_cases ht : t = slot
      · subst ht
        rw [Function.update_self] at hHosts ⊢
        rcases hMemory with rfl | hErased
        · exact ⟨hHosts, rfl⟩
        · exact absurd hErased hHosts.first
      · rw [Function.update_of_ne ht] at hHosts ⊢
        exact ⟨hHosts, rfl⟩
    refine { h with hosted := fun t a hHosts => ?_, frames := fun e he a l ha hNonce hl t hHosts => ?_ }
    · exact h.hosted t a (hBack t a hHosts).1
    · obtain ⟨hOld, hSame⟩ := hBack t a hHosts
      simp only [hSame]
      exact h.frames e he a l ha hNonce hl t hOld
  refine (erase_spec f slot).conseq (fun _ h => h) ?_ ?_
  · intro _ g hDone
    obtain ⟨x, rfl, -⟩ := hDone
    refine ⟨?_, rfl, rfl, fun i hi => ?_⟩
    · by_cases hEmpty : f.slotSize = 0
      · refine hGone _ _ x (.inl ?_)
        funext i
        simp [wiped, hEmpty]
      · refine hGone _ _ x (.inr ?_)
        simp only [wiped]
        exact if_pos (by omega)
    · simp only [erasedSlot, erasedPrefix, Function.update_self, wiped]
      exact if_pos hi
  · intro _ g hCut
    obtain ⟨⟨k, x, rfl, -, -⟩, -⟩ := hCut
    rcases Nat.eq_zero_or_pos k with rfl | hPos
    · refine hGone _ _ x (.inl ?_)
      funext i
      simp [wiped]
    · refine hGone _ _ x (.inr ?_)
      simp [wiped, hPos]

/-- A byte that a marker clears is not erased afterwards. -/
theorem overwrite_zeroWord_ne {memory : Nat → Byte} {offset count i : Nat} (h : memory i ≠ 0xff) :
    overwrite memory offset zeroWord count i ≠ 0xff := by
  simp only [overwrite]
  split
  · rename_i hIn
    have hLength : zeroWord.length = 4 := rfl
    have hCases : i - offset = 0 ∨ i - offset = 1 ∨ i - offset = 2 ∨ i - offset = 3 := by omega
    rcases hCases with hd | hd | hd | hd <;> rw [hd] <;> decide
  · exact h

/-- Setting a word between the header and the commit word names no new epoch. -/
theorem mark_safe (h : NonceSafe f reserved tokens) {slot offset : Nat} (hAligned : offset % 4 = 0)
    (hLow : headerBytes ≤ offset) (hHigh : offset + 4 ≤ f.slotSize - committed) :
    Triple (fun s => s = f) (program none slot offset zeroWord)
      (fun _ g => NonceSafe g reserved tokens ∧ g.slotSize = f.slotSize ∧
        (∀ t a, Hosts (f.slots t) f.slotSize a → Hosts (g.slots t) f.slotSize a) ∧
        g.trace.attempts = f.trace.attempts ∧
        ∀ e ∈ g.trace.words, ∀ l, e.label = some l → e ∈ f.trace.words)
      (fun _ g => NonceSafe g reserved tokens) := by
  have hWord : zeroWord.length = 4 := rfl
  simp only [headerBytes] at hLow
  simp only [committed, tailBytes] at hHigh
  have hSafe : ∀ {g : MemoryFlash} {count : Nat} {finished : Bool},
      Wrote none slot offset zeroWord f g count finished → NonceSafe g reserved tokens ∧
        (∀ t a, Hosts (g.slots t) f.slotSize a ↔ Hosts (f.slots t) f.slotSize a) := by
    intro g count finished hWrote
    have hSlots : g.slots slot = overwrite (f.slots slot) offset zeroWord count := by
      rw [hWrote.slots, Function.update_self]
    have hSame : ∀ i, i < 24 ∨ f.slotSize - committed ≤ i → g.slots slot i = f.slots slot i := by
      intro i hi
      rw [hSlots, overwrite_outside]
      simp only [committed, tailBytes] at hi
      omega
    have hRange : ∀ start length, start + length ≤ 24 ∨ f.slotSize - committed ≤ start →
        range (g.slots slot) start length = range (f.slots slot) start length :=
      fun start length hPlace => range_congr fun i hi => hSame _ (by omega)
    have hHosts : ∀ t a, Hosts (g.slots t) f.slotSize a ↔ Hosts (f.slots t) f.slotSize a := by
      intro t a
      by_cases ht : t = slot
      · subst ht
        constructor
        · intro hg
          exact ⟨hg.bounded, hSame 0 (.inl (by omega)) ▸ hg.first, (hRange 12 8 (.inl (by omega))) ▸ hg.named,
            (hRange _ 4 (.inr (Nat.le_refl _))) ▸ hg.commit⟩
        · intro hf
          exact ⟨hf.bounded, (hSame 0 (.inl (by omega))).symm ▸ hf.first,
            (hRange 12 8 (.inl (by omega))).symm ▸ hf.named, (hRange _ 4 (.inr (Nat.le_refl _))).symm ▸ hf.commit⟩
      · rw [hWrote.slotOnly.slots t ht]
    refine ⟨h.wrote hWrote ⟨fun i hi => ?_, fun a ha => .inl ((hHosts slot a).1 ha), fun l hl => (by cases hl),
      fun l hl => (by cases hl), fun l a hl => (by cases hl), fun l hl => (by cases hl)⟩, hHosts⟩
    rw [hSlots]
    exact overwrite_zeroWord_ne hi
  refine (program_placed_spec ⟨h.whole, hAligned, by rw [hWord]; omega⟩).conseq (fun _ h => h) ?_ ?_
  · intro _ g hWrote
    obtain ⟨hg, hHosts⟩ := hSafe hWrote
    refine ⟨hg, hWrote.slotSize, fun t a ha => (hHosts t a).2 ha, hWrote.attempts, fun e he l hl => ?_⟩
    obtain ⟨new, hWords, -, hNew⟩ := hWrote.words
    rw [hWords, List.mem_append] at he
    rcases he with he | he
    · rw [(hNew e he).1] at hl
      cases hl
    · exact he
  · intro _ g hCut
    obtain ⟨⟨k, -, hWrote⟩, -⟩ := hCut
    exact (hSafe hWrote).1

/-- A record as `encryptRecord` builds it, whatever the provider returned. -/
structure Framed (record : List Byte) (attempt : Nat) (length : Nat) : Prop where
  split : ∃ header ciphertext, record = RecordHeader.encode header ++ ciphertext ∧ header.attempt = attempt ∧
    ciphertext.length = length + 16

theorem Framed.length {record : List Byte} {attempt length : Nat} (h : Framed record attempt length) :
    record.length = headerBytes + (length + 16) := by
  obtain ⟨header, ciphertext, rfl, -, hLength⟩ := h.split
  rw [List.length_append, RecordHeader.length_encode, hLength]

theorem Framed.first {record : List Byte} {attempt length : Nat} (h : Framed record attempt length)
    (hPos : 0 < record.length) : record[0] = 0x4d := by
  obtain ⟨header, ciphertext, rfl, -, -⟩ := h.split
  rfl

theorem Framed.named {record : List Byte} {attempt length : Nat} (h : Framed record attempt length)
    {memory : Nat → Byte} (hFront : range memory 0 record.length = record) :
    range memory 12 8 = toLE 8 attempt := by
  have hLength := h.length
  obtain ⟨header, ciphertext, rfl, rfl, -⟩ := h.split
  have hHeader : header.encode.length = 24 := header.length_encode
  simp only [headerBytes] at hLength
  rw [← header.encode_attempt]
  have hTake : range memory 0 24 = header.encode := by
    rw [← range_take memory (show 24 ≤ (header.encode ++ ciphertext).length by omega), hFront, ← hHeader,
      List.take_left]
  rw [← hTake, range_drop memory (by omega), range_take memory (by omega)]

theorem encryptRecord_framed {provider : CryptoProvider} {key label data record : List Byte} {header : RecordHeader}
    (hRecord : encryptRecord key header label data provider = .ok record) :
    Framed record header.attempt data.length := by
  unfold encryptRecord at hRecord
  simp only [bind, Except.bind, failIf] at hRecord
  split at hRecord
  · cases hRecord
  rename_i ciphertext _
  split at hRecord
  · cases hRecord
  rename_i hPass
  split at hPass
  · cases hPass
  rename_i hLength
  injection hRecord with hRecord
  exact ⟨header, ciphertext, hRecord.symm, rfl, by omega⟩

/-- A snapshot programmed into an erased slot, cut or not. -/
theorem lay_safe (h : NonceSafe f reserved tokens) {slot attempt length : Nat} {record : List Byte}
    (hRecord : Framed record attempt length) (hRoom : length + overhead ≤ f.slotSize)
    (hBlank : ∀ i < f.slotSize, f.slots slot i = 0xff) (hAttempt : attempt ∈ f.trace.attempts)
    (hUnused : ∀ e ∈ f.trace.words, e.label ≠ some (nonce attempt)) :
    Triple (fun s => s = f) (program (some (nonce attempt)) slot 0 record)
      (fun _ g => NonceSafe g reserved tokens ∧ g.slotSize = f.slotSize ∧
        range (g.slots slot) 0 record.length = record ∧
        (∃ e ∈ g.trace.words, e.label = some (nonce attempt) ∧ e.slot = slot) ∧
        ∀ e ∈ g.trace.words, ∀ l, appendNonce attempt e.offset = .ok l → e.label ≠ some l)
      (fun _ g => NonceSafe g reserved tokens) := by
  have hLength := hRecord.length
  have hLt : attempt < 2 ^ 64 := (h.attempts_le attempt hAttempt).trans_lt h.reserved_lt
  simp only [headerBytes] at hLength
  simp only [overhead, recordOverhead, headerBytes, tailBytes] at hRoom
  have hFresh : ∀ {g : MemoryFlash} {count : Nat} {finished : Bool},
      Wrote (some (nonce attempt)) slot 0 record f g count finished → (finished = true → 0 < count) →
      FreshCall f g (some (nonce attempt)) slot 0 count finished := by
    intro g count finished hWrote hCount
    have hSlots : g.slots slot = overwrite (f.slots slot) 0 record count := by
      rw [hWrote.slots, Function.update_self]
    refine ⟨fun i hi => ?_, fun a ha => ?_, fun l hl => ?_, fun l hl => ?_, fun l a hl _ hNonce => ?_,
      fun l hl hDone => ⟨0 + 0, ?_⟩⟩
    · have hOut : f.slotSize ≤ i := by
        by_contra hIn
        exact hi (hBlank i (by omega))
      rw [hSlots, overwrite_outside (by omega)]
      exact hi
    · have hByte := (range_eq_iff.1 ha.commit).2 0 (by decide)
      rw [hSlots, overwrite_outside (by simp only [committed, tailBytes]; omega),
        hBlank _ (by simp only [committed, tailBytes]; omega)] at hByte
      exact absurd hByte (by decide)
    · injection hl with hl
      rw [← hl]
      exact hUnused
    · injection hl with hl
      exact ⟨attempt, hAttempt, .inl ⟨hl.symm, rfl⟩⟩
    · injection hl with hl
      rw [← hl] at hNonce
      exact absurd hNonce (appendNonce_ne_nonce attempt a 0)
    · rw [hSlots, overwrite_inside (hCount hDone) (by omega), hRecord.first (by omega), hBlank _ (by omega)]
      decide
  refine (program_placed_spec ⟨h.whole, rfl, by omega⟩).conseq (fun _ h => h) ?_ ?_
  · intro _ g hWrote
    have hg := h.wrote hWrote (hFresh hWrote fun _ => by omega)
    have hSlots : g.slots slot = overwrite (f.slots slot) 0 record record.length := by
      rw [hWrote.slots, Function.update_self, overwrite_of_le _ _ (by omega)]
    obtain ⟨new, hWords, -, hNew⟩ := hWrote.words
    refine ⟨hg, hWrote.slotSize, ?_, ?_, fun e he l hNonce hl => ?_⟩
    · rw [hSlots]
      exact range_overwrite_self ..
    · have hChanged : g.slots slot 0 ≠ f.slots slot 0 := by
        have hByte : overwrite (f.slots slot) 0 record record.length (0 + 0) = record[0] :=
          overwrite_inside (by omega) (by omega)
        rw [Nat.add_zero] at hByte
        rw [hSlots, hByte, hRecord.first (by omega), hBlank 0 (by omega)]
        decide
      obtain ⟨e, rest, he, hEntry⟩ := hWrote.noted 0 hChanged
      refine ⟨e, he ▸ List.mem_cons_self, ?_, ?_⟩
      · rw [hEntry]
      · rw [hEntry]
    · -- a frame of this epoch would have needed its snapshot first
      rw [hWords, List.mem_append] at he
      rcases he with he | he
      · rw [(hNew e he).1] at hl
        injection hl with hl
        rw [← hl] at hNonce
        exact appendNonce_ne_nonce _ _ _ hNonce
      · obtain ⟨a, ha, ⟨hSnapshot, -⟩ | ⟨hFrame, e', he', hLabel⟩⟩ := h.belongs e he l hl
        · rw [hSnapshot] at hNonce
          exact appendNonce_ne_nonce _ _ _ hNonce
        · have hEq := (appendNonce_injective ((h.attempts_le a ha).trans_lt h.reserved_lt) hLt hFrame hNonce).1
          rw [hEq] at hLabel
          exact hUnused e' he' hLabel
  · intro _ g hCut
    obtain ⟨⟨k, -, hWrote⟩, -⟩ := hCut
    exact h.wrote hWrote (hFresh hWrote fun hDone => by cases hDone)

/-- The commit word makes the slot the host of its attempt. -/
theorem commit_safe (h : NonceSafe f reserved tokens) {slot attempt length : Nat} {record : List Byte}
    (hRecord : Framed record attempt length) (hRoom : length + overhead ≤ f.slotSize) (hLt : attempt < 2 ^ 64)
    (hFront : range (f.slots slot) 0 record.length = record)
    (hEntry : ∃ e ∈ f.trace.words, e.label = some (nonce attempt) ∧ e.slot = slot)
    (hNone : ∀ e ∈ f.trace.words, ∀ l, appendNonce attempt e.offset = .ok l → e.label ≠ some l) :
    Triple (fun s => s = f) (program none slot (f.slotSize - committed) zeroWord)
      (fun _ g => NonceSafe g reserved tokens ∧ g.slotSize = f.slotSize ∧ Hosts (g.slots slot) f.slotSize attempt)
      (fun _ g => NonceSafe g reserved tokens) := by
  have hWhole := h.whole
  have hLength := hRecord.length
  have hWord : zeroWord.length = 4 := rfl
  simp only [headerBytes] at hLength
  simp only [overhead, recordOverhead, headerBytes, tailBytes] at hRoom
  have hNamed := hRecord.named hFront
  have hFirst : f.slots slot 0 = 0x4d := by
    have hByte := (range_eq_iff.1 hFront).2 0 (by omega)
    rw [Nat.add_zero, hRecord.first (by omega)] at hByte
    exact hByte
  have hSlots : ∀ {g : MemoryFlash} {count : Nat} {finished : Bool},
      Wrote none slot (f.slotSize - committed) zeroWord f g count finished →
      g.slots slot = overwrite (f.slots slot) (f.slotSize - committed) zeroWord count := by
    intro g count finished hWrote
    rw [hWrote.slots, Function.update_self]
  have hSafe : ∀ {g : MemoryFlash} {count : Nat} {finished : Bool},
      Wrote none slot (f.slotSize - committed) zeroWord f g count finished → NonceSafe g reserved tokens := by
    intro g count finished hWrote
    refine h.wrote hWrote ⟨fun i hi => ?_, fun a ha => .inr ?_, fun l hl => (by cases hl), fun l hl => (by cases hl),
      fun l a hl => (by cases hl), fun l hl => (by cases hl)⟩
    · rw [hSlots hWrote]
      exact overwrite_zeroWord_ne hi
    · have hSame : range (g.slots slot) 12 8 = range (f.slots slot) 12 8 := by
        rw [hSlots hWrote]
        exact range_overwrite_disjoint (by simp only [committed, tailBytes]; omega)
      have hEq : a = attempt := by
        have hBoth := ha.named.symm.trans (hSame.trans hNamed)
        exact toLE_injective (by simpa using ha.bounded) (by simpa using hLt) hBoth
      subst hEq
      exact ⟨hEntry, hNone⟩
  refine (program_placed_spec ⟨h.whole, ?_, ?_⟩).conseq (fun _ h => h) ?_ ?_
  · simp only [committed, tailBytes]
    omega
  · simp only [committed, tailBytes, hWord]
    omega
  · intro _ g hWrote
    have hFull : g.slots slot = overwrite (f.slots slot) (f.slotSize - committed) zeroWord 4 := hSlots hWrote
    refine ⟨hSafe hWrote, hWrote.slotSize, hLt, ?_, ?_, ?_⟩
    · rw [hFull, overwrite_outside (by simp only [committed, tailBytes]; omega), hFirst]
      decide
    · rw [hFull, range_overwrite_disjoint (by simp only [committed, tailBytes]; omega), hNamed]
    · rw [hFull]
      exact range_overwrite_self _ _ zeroWord
  · intro _ g hCut
    obtain ⟨⟨k, -, hWrote⟩, -⟩ := hCut
    exact hSafe hWrote

/-- A frame programmed onto erased words of the epoch that hosts it. -/
theorem frame_safe (h : NonceSafe f reserved tokens) {slot attempt length start : Nat} {record label : List Byte}
    (hRecord : Framed record attempt length) (hHosts : Hosts (f.slots slot) f.slotSize attempt)
    (hLabel : appendNonce attempt start = .ok label) (hAligned : start % 4 = 0) (hLow : headerBytes ≤ start)
    (hHigh : start + record.length ≤ f.slotSize - tailBytes)
    (hFree : ∀ i, start ≤ i → i < start + record.length → f.slots slot i = 0xff) :
    Triple (fun s => s = f) (program (some label) slot start record)
      (fun _ g => NonceSafe g reserved tokens ∧ g.slotSize = f.slotSize ∧ Hosts (g.slots slot) f.slotSize attempt)
      (fun _ g => NonceSafe g reserved tokens) := by
  have hLength := hRecord.length
  have hLt := hHosts.bounded
  simp only [headerBytes] at hLength hLow
  simp only [tailBytes] at hHigh
  obtain ⟨snapshot, hSnapshot, hSnapshotLabel, -⟩ := h.hosted slot attempt hHosts
  have hAttempt : attempt ∈ f.trace.attempts := by
    obtain ⟨a, ha, ⟨hEq, -⟩ | ⟨hFrame, -⟩⟩ := h.belongs snapshot hSnapshot _ hSnapshotLabel
    · rw [nonce_injective hLt ((h.attempts_le a ha).trans_lt h.reserved_lt) hEq]
      exact ha
    · exact absurd hFrame (appendNonce_ne_nonce _ _ _)
  have hUnused : ∀ e ∈ f.trace.words, e.label ≠ some label := by
    intro e he hl
    obtain ⟨a, ha, ⟨hEq, -⟩ | ⟨hFrame, -⟩⟩ := h.belongs e he label hl
    · rw [hEq] at hLabel
      exact appendNonce_ne_nonce _ _ _ hLabel
    · obtain ⟨rfl, hOffset⟩ := appendNonce_injective ((h.attempts_le a ha).trans_lt h.reserved_lt) hLt hFrame hLabel
      obtain ⟨i, hi, hi', hUsed⟩ := h.frames e he a label hLt hFrame hl slot hHosts
      exact hUsed (hFree i (by omega) (by omega))
  have hSlots : ∀ {g : MemoryFlash} {count : Nat} {finished : Bool},
      Wrote (some label) slot start record f g count finished →
      g.slots slot = overwrite (f.slots slot) start record count := by
    intro g count finished hWrote
    rw [hWrote.slots, Function.update_self]
  have hSame : ∀ {g : MemoryFlash} {count : Nat} {finished : Bool},
      Wrote (some label) slot start record f g count finished → ∀ a,
      Hosts (g.slots slot) f.slotSize a ↔ Hosts (f.slots slot) f.slotSize a := by
    intro g count finished hWrote a
    have hFirst : g.slots slot 0 = f.slots slot 0 := by
      rw [hSlots hWrote, overwrite_outside (by omega)]
    have hNamed : range (g.slots slot) 12 8 = range (f.slots slot) 12 8 := by
      rw [hSlots hWrote]
      exact range_overwrite_disjoint (by omega)
    have hCommit : range (g.slots slot) (f.slotSize - committed) 4 = range (f.slots slot) (f.slotSize - committed) 4 := by
      rw [hSlots hWrote]
      exact range_overwrite_disjoint (by simp only [committed, tailBytes]; omega)
    constructor
    · exact fun hg => ⟨hg.bounded, hFirst ▸ hg.first, hNamed ▸ hg.named, hCommit ▸ hg.commit⟩
    · exact fun hf => ⟨hf.bounded, hFirst.symm ▸ hf.first, hNamed.symm ▸ hf.named, hCommit.symm ▸ hf.commit⟩
  have hSafe : ∀ {g : MemoryFlash} {count : Nat} {finished : Bool},
      Wrote (some label) slot start record f g count finished → (finished = true → 0 < count) →
      NonceSafe g reserved tokens := by
    intro g count finished hWrote hPositive
    have hFirst : 0 < count → g.slots slot (start + 0) = 0x4d := by
      intro hCount
      rw [hSlots hWrote, overwrite_inside hCount (by omega), hRecord.first (by omega)]
    refine h.wrote hWrote ⟨fun i hi => ?_, fun a ha => .inl ((hSame hWrote a).1 ha), fun l hl => ?_, fun l hl => ?_,
      fun l a hl ha hNonce hCount => ?_, fun l hl hDone => ⟨start + 0, ?_⟩⟩
    · rw [hSlots hWrote, overwrite_outside]
      · exact hi
      · by_contra hIn
        exact hi (hFree i (by omega) (by omega))
    · injection hl with hl
      rw [← hl]
      exact hUnused
    · injection hl with hl
      rw [← hl]
      exact ⟨attempt, hAttempt, .inr ⟨hLabel, snapshot, hSnapshot, hSnapshotLabel⟩⟩
    · injection hl with hl
      rw [← hl] at hNonce
      obtain ⟨rfl, -⟩ := appendNonce_injective ha hLt hNonce hLabel
      refine ⟨hHosts, (hSame hWrote a).2 hHosts, ?_⟩
      have hByte := hFirst hCount
      rw [Nat.add_zero] at hByte
      rw [hByte]
      decide
    · rw [hFirst (hPositive hDone), hFree _ (by omega) (by omega)]
      decide
  refine (program_placed_spec ⟨h.whole, hAligned, by omega⟩).conseq (fun _ h => h) ?_ ?_
  · intro _ g hWrote
    exact ⟨hSafe hWrote fun _ => by omega, hWrote.slotSize, (hSame hWrote attempt).2 hHosts⟩
  · intro _ g hCut
    obtain ⟨⟨k, -, hWrote⟩, -⟩ := hCut
    exact hSafe hWrote fun hDone => by cases hDone

end Steps
section Journal

/-- What a journal remembers agrees with the slots: the active slot hosts the
attempt that appends are sealed under. -/
structure NonceLive (j : Journal) : Prop where
  host : ∀ t, j.active = some t → ∃ a, j.baseAttempt = some a ∧ Hosts (j.flash.slots t) j.flash.slotSize a
  offset : ∀ o, j.appendOffset = some o → headerBytes ≤ o

def Safe (tokens : List Nat) (j : Journal) : Prop :=
  (∃ reserved, NonceSafe j.flash reserved tokens) ∧ (j.poisoned = false → NonceLive j)

variable {f : MemoryFlash} {reserved : Nat} {tokens : List Nat} {j : Journal}

theorem NonceSafe.withNonces (h : NonceSafe f reserved tokens) {counter : Nat → Byte} {value : Nat}
    (budget : Option Nat) (hCounter : CounterIs counter f.slotSize value) (hLe : reserved ≤ value) :
    NonceSafe { f with nonces := counter, failAfter := budget } value tokens :=
  { h with
    counter := hCounter
    attempts_le := fun a ha => (h.attempts_le a ha).trans hLe
    tokens_le := fun v hv => (h.tokens_le v hv).trans hLe }

/-- Handing an unspent attempt to the cipher. -/
theorem NonceSafe.noteAttempt (h : NonceSafe f reserved tokens) {attempt : Nat} (hLe : attempt ≤ reserved)
    (hUnspent : attempt ∉ f.trace.attempts) (hToken : attempt ∉ tokens) :
    NonceSafe (noteAttempt attempt f) reserved tokens := by
  refine { h with
    attempts_le := fun a ha => ?_
    attempts_nodup := ?_
    tokens_unspent := fun v hv hMem => ?_
    belongs := fun e he l hl => ?_ }
  · rcases List.mem_cons.1 ha with rfl | ha
    · exact hLe
    · exact h.attempts_le a ha
  · exact List.nodup_cons.2 ⟨hUnspent, h.attempts_nodup⟩
  · rcases List.mem_cons.1 hMem with rfl | hMem
    · exact hToken hv
    · exact h.tokens_unspent v hv hMem
  · obtain ⟨a, ha, hRest⟩ := h.belongs e he l hl
    exact ⟨a, List.mem_cons_of_mem _ ha, hRest⟩

theorem NonceSafe.withTokens (h : NonceSafe f reserved tokens) {tokens' : List Nat} (hSub : tokens'.Sublist tokens) :
    NonceSafe f reserved tokens' :=
  { h with
    tokens_le := fun v hv => h.tokens_le v (hSub.mem hv)
    tokens_nodup := h.tokens_nodup.sublist hSub
    tokens_unspent := fun v hv => h.tokens_unspent v (hSub.mem hv) }

/-- Nothing was programmed under an attempt that was never sealed. -/
theorem NonceSafe.unlabelled (h : NonceSafe f reserved tokens) {attempt : Nat} (hLt : attempt < 2 ^ 64)
    (hUnspent : attempt ∉ f.trace.attempts) : ∀ e ∈ f.trace.words, e.label ≠ some (nonce attempt) := by
  intro e he hl
  obtain ⟨a, ha, ⟨hEq, -⟩ | ⟨hFrame, -⟩⟩ := h.belongs e he _ hl
  · rw [nonce_injective hLt ((h.attempts_le a ha).trans_lt h.reserved_lt) hEq] at hUnspent
    exact hUnspent ha
  · exact appendNonce_ne_nonce _ _ _ hFrame

/-- The tokens left after a commit that was handed one. -/
def spend (token : Option Nat) (tokens : List Nat) : List Nat :=
  match token with
  | some value => tokens.erase value
  | none => tokens

theorem spend_sublist (token : Option Nat) (tokens : List Nat) : (spend token tokens).Sublist tokens := by
  cases token with
  | none => exact List.Sublist.refl _
  | some value => exact List.erase_sublist

/-- Sealing a snapshot uses up an attempt nothing was sealed under before. -/
theorem sealRecord_safe {provider : CryptoProvider} {data : List Byte} {generation : Nat} {token : Option Nat}
    (h : NonceSafe j.flash reserved tokens) (hToken : ∀ v, token = some v → v ∈ tokens) :
    Triple (fun s => s = j) (sealRecord data generation provider token)
      (fun sealed j' => Framed sealed.1 sealed.2 data.length ∧ On j (fun f => f.slots = j.flash.slots ∧
        f.slotSize = j.flash.slotSize ∧ ∃ n, NonceSafe f n (spend token tokens) ∧ sealed.2 ∈ f.trace.attempts ∧
          ∀ e ∈ f.trace.words, e.label ≠ some (nonce sealed.2)) j')
      (fun _ j' => On j (fun f => f.slots = j.flash.slots ∧ f.slotSize = j.flash.slotSize ∧
        ∃ n, NonceSafe f n (spend token tokens)) j') := by
  have hSub := spend_sublist token tokens
  have hStay : ∀ j', j' = j → On j (fun f => f.slots = j.flash.slots ∧ f.slotSize = j.flash.slotSize ∧
      ∃ n, NonceSafe f n (spend token tokens)) j' := by
    rintro _ rfl
    exact ⟨_, rfl, rfl, rfl, reserved, h.withTokens hSub⟩
  refine Triple.readOnly_bind (fun payloadLength _ => ?_) fun _ _ => hStay
  refine Triple.get fun s hs => ?_
  subst hs
  refine Triple.bind (Q := fun attempt => On s fun f => f.slots = s.flash.slots ∧ f.slotSize = s.flash.slotSize ∧
    ∃ n, NonceSafe f n (spend token tokens) ∧ attempt ≤ n ∧ attempt ∉ f.trace.attempts ∧
      attempt ∉ spend token tokens) ?_ fun attempt => ?_
  · unfold snapshotAttempt
    cases token with
    | some value =>
        have hMem := hToken value rfl
        refine Triple.failIf_bind (fun _ => hStay) fun _ => ?_
        refine Triple.get fun s' hs' => ?_
        subst hs'
        refine Triple.readOnly_bind (fun current _ => ?_) fun _ _ => hStay
        refine Triple.failIf_bind (fun _ => hStay) fun _ => Triple.ret ?_
        rintro _ rfl
        exact ⟨_, rfl, rfl, rfl, reserved, h.withTokens hSub, h.tokens_le value hMem, h.tokens_unspent value hMem,
          h.tokens_nodup.not_mem_erase⟩
    | none =>
        refine (onFlash_at (reserveNonce_spec h.counter h.whole)).conseq (fun _ h => h) ?_ ?_
        · rintro attempt _ ⟨g, rfl, rfl, c, x, rfl, hx, hCounter⟩
          refine ⟨_, rfl, rfl, rfl, reserved + 1, h.withNonces x hCounter (by omega), Nat.le_refl _, ?_, ?_⟩
          · intro hMem
            have := h.attempts_le _ hMem
            omega
          · intro hMem
            have := h.tokens_le _ hMem
            omega
        · rintro _ _ ⟨g, rfl, ⟨c, x, v, rfl, hx, hCounter, hv⟩, -⟩
          exact ⟨_, rfl, rfl, rfl, v, h.withNonces x hCounter (by omega)⟩
  · refine Triple.bind (Q := fun _ => On s fun f => f.slots = s.flash.slots ∧ f.slotSize = s.flash.slotSize ∧
      ∃ n, NonceSafe f n (spend token tokens) ∧ attempt ∈ f.trace.attempts ∧
        ∀ e ∈ f.trace.words, e.label ≠ some (nonce attempt)) ?_ fun _ => ?_
    · rintro _ ⟨f, rfl, hSlots, hSize, n, hf, hLe, hUnspent, hNotToken⟩
      exact ⟨_, rfl, hSlots, hSize, n, hf.noteAttempt hLe hUnspent hNotToken, List.mem_cons_self,
        hf.unlabelled (hLe.trans_lt hf.reserved_lt) hUnspent⟩
    refine Triple.readOnly_bind (fun record hRecord => Triple.ret fun j' hj' => ⟨?_, hj'⟩) fun _ _ => ?_
    · exact encryptRecord_framed hRecord
    · rintro _ ⟨f, rfl, hSlots, hSize, n, hf, -⟩
      exact ⟨f, rfl, hSlots, hSize, n, hf⟩

theorem NonceSafe.withMonotonic (h : NonceSafe f reserved tokens) (counter : Nat → Byte) (budget : Option Nat) :
    NonceSafe { f with monotonic := counter, failAfter := budget } reserved tokens :=
  { h with }

/-- Whatever the anchor counter holds, advancing it touches nothing else. -/
theorem advanceMonotonic_only (f : MemoryFlash) (value : Nat) :
    Triple (fun g => g = f) (advanceMonotonic value)
      (fun _ g => ∃ c x, g = { f with monotonic := c, failAfter := x })
      (fun _ g => ∃ c x, g = { f with monotonic := c, failAfter := x }) := by
  have hStay : ∀ g, g = f → ∃ c x, g = { f with monotonic := c, failAfter := x } := by
    rintro _ rfl
    exact ⟨_, _, rfl⟩
  refine Triple.failIf_bind (fun _ => hStay) fun _ => ?_
  refine Triple.failIf_bind (fun _ => hStay) fun _ => ?_
  refine Triple.get fun g hg => ?_
  subst hg
  refine Triple.failIf_bind (fun _ => hStay) fun _ => ?_
  refine Triple.failIf_bind (fun _ => hStay) fun _ => ?_
  refine Triple.conseq (Triple.forM (fun _ s => ∃ c x, s = { g with monotonic := c, failAfter := x }) fun k hk => ?_)
    hStay (fun _ _ h => h) (fun _ _ h => h)
  refine Triple.bind (Q := fun _ s => ∃ c x, s = { g with monotonic := c, failAfter := x }) ?_
    fun _ => Triple.update ?_
  · rintro s ⟨c, x, rfl⟩
    rcases x with _ | _ | n
    · exact ⟨c, none, rfl⟩
    · exact ⟨c, some 0, rfl⟩
    · exact ⟨c, some n, rfl⟩
  · rintro s ⟨c, x, rfl⟩
    exact ⟨_, _, rfl⟩

theorem Safe.of_poisoned (hPoisoned : j.poisoned = true) (h : NonceSafe j.flash reserved tokens) : Safe tokens j :=
  ⟨⟨reserved, h⟩, fun hIntact => by rw [hIntact] at hPoisoned; cases hPoisoned⟩

/-- Setting a reclaim word, or not, on a poisoned journal. -/
theorem markReclaim_safe (active : Option Nat) (attempt : Nat) {offset : Nat} (hPoisoned : j.poisoned = true)
    (h : NonceSafe j.flash reserved tokens) (hLarge : overhead ≤ j.flash.slotSize)
    (hOffset : offset = reclaimStarted ∨ offset = reclaimComplete) :
    Triple (fun s => s = j) (markReclaim active (j.flash.slotSize - offset))
      (fun _ => On j fun g => NonceSafe g reserved tokens ∧ g.slotSize = j.flash.slotSize ∧
        (∀ t a, Hosts (j.flash.slots t) j.flash.slotSize a → Hosts (g.slots t) j.flash.slotSize a) ∧
        (attempt ∈ j.flash.trace.attempts → attempt ∈ g.trace.attempts) ∧
        ∀ e ∈ g.trace.words, ∀ l, e.label = some l → e ∈ j.flash.trace.words)
      (fun _ j' => Safe tokens j') := by
  have hWhole := h.whole
  simp only [overhead, recordOverhead, headerBytes, tailBytes] at hLarge
  unfold markReclaim
  cases active with
  | none =>
      refine Triple.ret ?_
      rintro _ rfl
      exact ⟨_, rfl, h, rfl, fun _ _ ha => ha, fun ha => ha, fun _ he _ _ => he⟩
  | some t =>
      refine (onFlash_at (mark_safe h ?_ ?_ ?_)).conseq (fun _ h => h) ?_ ?_
      · simp only [reclaimStarted, reclaimComplete, tailBytes] at hOffset
        omega
      · simp only [reclaimStarted, reclaimComplete, tailBytes, headerBytes] at hOffset ⊢
        omega
      · simp only [reclaimStarted, reclaimComplete, tailBytes, committed] at hOffset ⊢
        omega
      · rintro _ _ ⟨g, rfl, hg, hSize, hHosts, hAttempts, hWords⟩
        exact ⟨g, rfl, hg, hSize, hHosts, fun ha => hAttempts ▸ ha, hWords⟩
      · rintro _ _ ⟨g, rfl, hg⟩
        exact Safe.of_poisoned hPoisoned hg

/-- All writes of a commit. -/
theorem replaceRecord_safe {active : Option Nat} {slot attempt length generation : Nat} {durability : Durability}
    {record : List Byte} (h : NonceSafe j.flash reserved tokens) (hRecord : Framed record attempt length)
    (hRoom : length + overhead ≤ j.flash.slotSize) (hAttempt : attempt ∈ j.flash.trace.attempts)
    (hUnused : ∀ e ∈ j.flash.trace.words, e.label ≠ some (nonce attempt)) :
    Triple (fun s => s = j) (replaceRecord active slot j.flash.slotSize generation attempt durability record)
      (fun _ j' => Safe tokens j') (fun _ j' => Safe tokens j') := by
  have hLt : attempt < 2 ^ 64 := (h.attempts_le attempt hAttempt).trans_lt h.reserved_lt
  have hLength := hRecord.length
  have hLarge : overhead ≤ j.flash.slotSize := by omega
  unfold replaceRecord
  refine Triple.bind (Q := fun _ s => s = { j with poisoned := true }) (Triple.update ?_) fun _ => ?_
  · rintro _ rfl
    rfl
  have hFirst := markReclaim_safe (j := { j with poisoned := true }) active attempt rfl h hLarge (.inl rfl)
  refine Triple.bind hFirst fun _ => Triple.of_state ?_
  rintro _ ⟨f, rfl, hf, hSize, -, hAttempts, hWords⟩
  refine Triple.bind ((onFlash_at (erase_safe hf slot)).conseq (fun _ h => h) (fun _ _ h => h) ?_)
    fun _ => Triple.of_state ?_
  · rintro _ _ ⟨g, rfl, hg⟩
    exact Safe.of_poisoned rfl hg
  rintro _ ⟨g, rfl, hg, hSize', hTrace, hBlank⟩
  simp only at hSize hSize' hTrace
  have hLay := lay_safe hg hRecord (by omega) (hSize' ▸ hBlank) (by rw [hTrace]; exact hAttempts hAttempt)
    (by rw [hTrace]; exact fun e he hl => hUnused e (hWords e he _ hl) hl)
  refine Triple.bind ((onFlash_at hLay).conseq (fun _ h => h) (fun _ _ h => h) ?_) fun _ => Triple.of_state ?_
  · rintro _ _ ⟨k, rfl, hk⟩
    exact Safe.of_poisoned rfl hk
  rintro _ ⟨k, rfl, hk, hSize'', hFront, hEntry, hNone⟩
  have hCommit := commit_safe hk hRecord (by omega) hLt hFront hEntry hNone
  rw [show k.slotSize - committed = j.flash.slotSize - committed by omega] at hCommit
  refine Triple.bind ((onFlash_at hCommit).conseq (fun _ h => h) (fun _ _ h => h) ?_) fun _ => Triple.of_state ?_
  · rintro _ _ ⟨m, rfl, hm⟩
    exact Safe.of_poisoned rfl hm
  rintro _ ⟨m, rfl, hm, hSize₃, hHost⟩
  have hLast := markReclaim_safe (j := { j with poisoned := true, flash := m }) active attempt rfl hm
    (by simp only; omega) (.inr rfl)
  rw [show m.slotSize - reclaimComplete = j.flash.slotSize - reclaimComplete by omega] at hLast
  refine Triple.bind hLast fun _ => Triple.of_state ?_
  rintro _ ⟨p, rfl, hp, hSize₄, hHosts, -, -⟩
  simp only at hSize₄
  refine Triple.bind (Q := fun _ s => s = { j with
      poisoned := true
      flash := p
      generation := generation
      baseAttempt := some attempt
      active := some slot
      appendOffset := some (wordAlign record.length) }) (Triple.update ?_) fun _ => Triple.get ?_
  · rintro _ rfl
    rfl
  rintro _ rfl
  refine Triple.bind (Q := fun _ => On { j with
      poisoned := true
      flash := p
      generation := generation
      baseAttempt := some attempt
      active := some slot
      appendOffset := some (wordAlign record.length) } fun q => ∃ c x, q = { p with monotonic := c, failAfter := x }) ?_
    fun _ => Triple.update ?_
  · refine Triple.onlyIf (fun _ => ?_) fun _ => ?_
    · refine (onFlash_at (advanceMonotonic_only _ _)).conseq (fun _ h => h) (fun _ _ h => h) ?_
      rintro _ _ ⟨_, rfl, c, x, rfl⟩
      exact Safe.of_poisoned rfl (hp.withMonotonic c x)
    · rintro _ rfl
      exact ⟨p, rfl, _, _, rfl⟩
  · rintro _ ⟨_, rfl, c, x, rfl⟩
    refine ⟨⟨reserved, hp.withMonotonic c x⟩, fun _ => ⟨fun t ht => ?_, fun o ho => ?_⟩⟩
    · injection ht with ht
      subst ht
      refine ⟨attempt, rfl, ?_⟩
      have hNow := hHosts slot attempt (hSize₃ ▸ hHost)
      simp only at hNow ⊢
      rw [hSize₄]
      exact hNow
    · injection ho with ho
      rw [← ho, hLength]
      simp only [wordAlign, headerBytes]
      omega

theorem commitOwnedWithNonce_safe {provider : CryptoProvider} {data : List Byte} {durability : Durability}
    {token : Option Nat} (h : Safe tokens j) (hToken : ∀ v, token = some v → v ∈ tokens) :
    Triple (fun s => s = j) (commitOwnedWithNonce data durability provider token)
      (fun _ j' => Safe (spend token tokens) j') (fun _ j' => Safe (spend token tokens) j') := by
  obtain ⟨⟨reserved, hFlash⟩, hLive⟩ := h
  have hStay : ∀ j', j' = j → Safe (spend token tokens) j' := by
    rintro _ rfl
    exact ⟨⟨reserved, hFlash.withTokens (spend_sublist token tokens)⟩, hLive⟩
  refine Triple.get fun s hs => ?_
  subst hs
  refine Triple.failIf_bind (fun _ => hStay) fun hIntact => ?_
  refine Triple.failIf_bind (fun _ => hStay) fun hRoom => ?_
  refine Triple.readOnly_bind (fun generation _ => ?_) fun _ _ => hStay
  refine Triple.failIf_bind (fun _ => hStay) fun _ => ?_
  refine Triple.bind ((sealRecord_safe hFlash hToken).conseq (fun _ h => h) (fun _ _ h => h) ?_) fun sealed => ?_
  · rintro _ _ ⟨f, rfl, hSlots, hSize, n, hf⟩
    refine ⟨⟨n, hf⟩, fun hClean => ⟨fun t ht => ?_, (hLive hClean).offset⟩⟩
    obtain ⟨a, ha, hHosts⟩ := (hLive hClean).host t ht
    refine ⟨a, ha, ?_⟩
    simp only [hSlots, hSize]
    exact hHosts
  obtain ⟨record, attempt⟩ := sealed
  refine Triple.of_state ?_
  rintro _ ⟨hRecord, f, rfl, hSlots, hSize, n, hf, hAttempt, hUnused⟩
  rw [← hSize]
  refine Triple.bind (replaceRecord_safe (j := { s with flash := f }) hf hRecord ?_ hAttempt hUnused)
    fun _ => Triple.ret fun _ h => h
  simp only [hSize]
  omega

theorem erased_ok {slot start stop : Nat} (h : erased f slot start stop = .ok true) :
    ∀ i, start ≤ i → i < stop → f.slots slot i = 0xff := by
  unfold erased at h
  simp only [bind, Except.bind, MemoryFlash.read] at h
  split at h
  · cases h
  rename_i bytes hRead
  split at hRead
  · injection hRead with hRead
    injection h with h
    rw [← hRead, range_all_iff] at h
    intro i hLow hHigh
    obtain ⟨d, rfl⟩ : ∃ d, i = start + d := ⟨i - start, by omega⟩
    exact h d (by omega)
  · cases hRead

theorem frameEnd_ok {start length stop : Nat} (h : frameEnd f start length = .ok stop) :
    start % 4 = 0 ∧ length ≤ maxPayload ∧ stop = frameStop start length ∧ stop ≤ f.slotSize - tailBytes := by
  simp only [frameEnd] at h
  split at h
  · cases h
  split at h
  · cases h
  split at h
  · injection h with h
    subst h
    exact ⟨by omega, by omega, rfl, by assumption⟩
  · cases h

theorem appendWith_safe {provider : CryptoProvider} {data : List Byte} {durability : Durability} (h : Safe tokens j) :
    Triple (fun s => s = j) (appendWith data durability provider) (fun _ j' => Safe tokens j')
      (fun _ j' => Safe tokens j') := by
  have hStay : ∀ j', j' = j → Safe tokens j' := by
    rintro _ rfl
    exact h
  obtain ⟨⟨reserved, hFlash⟩, hLive⟩ := h
  refine Triple.get fun s hs => ?_
  subst hs
  refine Triple.failIf_bind (fun _ => hStay) fun hIntact => ?_
  have hLive := hLive (by simpa using hIntact)
  refine Triple.orFail_bind (fun _ => hStay) fun start hStart => ?_
  refine Triple.bind (Q := fun prepared s' => s' = s ∧ s.active = some prepared.1 ∧
    frameEnd s.flash start data.length = .ok prepared.2.1 ∧
    erased s.flash prepared.1 start prepared.2.1 = .ok true) ?_ fun prepared => ?_
  · refine Triple.get fun s' hs' => ?_
    subst hs'
    refine Triple.failIf_bind (fun _ => hStay) fun _ => ?_
    refine Triple.failIf_bind (fun _ => hStay) fun _ => ?_
    refine Triple.orFail_bind (fun _ => hStay) fun slot hSlot => ?_
    refine Triple.readOnly_bind (fun stop hEnd => ?_) fun _ _ => hStay
    refine Triple.readOnly_bind (fun generation _ => ?_) fun _ _ => hStay
    refine Triple.failIf_bind (fun _ => hStay) fun _ => ?_
    refine Triple.readOnly_bind (fun free hErased => ?_) fun _ _ => hStay
    refine Triple.failIf_bind (fun _ => hStay) fun hFree => ?_
    refine Triple.ret fun s' hs' => ?_
    have hTrue : free = true := by simpa using hFree
    exact ⟨hs', hSlot, hEnd, hTrue ▸ hErased⟩
  obtain ⟨slot, stop, generation⟩ := prepared
  refine Triple.of_state fun s' hs' => ?_
  simp only at hs'
  obtain ⟨hSame, hSlot, hEnd, hErased⟩ := hs'
  rw [hSame]
  obtain ⟨attempt, hAttempt, hHosts⟩ := hLive.host slot hSlot
  obtain ⟨hAligned, hShort, rfl, hBounds⟩ := frameEnd_ok hEnd
  refine Triple.orFail_bind (fun _ => hStay) fun base hBase => ?_
  rw [hAttempt] at hBase
  injection hBase with hBase
  subst hBase
  refine Triple.readOnly_bind (fun payloadLength _ => ?_) fun _ _ => hStay
  refine Triple.readOnly_bind (fun label hLabel => ?_) fun _ _ => hStay
  refine Triple.readOnly_bind (fun record hRecord => ?_) fun _ _ => hStay
  have hFramed : Framed record attempt data.length := encryptRecord_framed hRecord
  have hLength := hFramed.length
  have hWhole := hFlash.whole
  have hStartLow := hLive.offset start hStart
  have hInside := hBounds
  simp only [frameStop, minFrameBytes, headerBytes, markerBytes, tailBytes] at hInside hLength hStartLow
  have hFrame := frame_safe hFlash hFramed hHosts hLabel hAligned (hLive.offset start hStart)
    (by simp only [tailBytes]; omega) fun i hLow hHigh => erased_ok hErased i hLow
      (by simp only [frameStop, minFrameBytes, headerBytes, markerBytes]; omega)
  refine Triple.bind (Q := fun _ j' => ∃ f, j' = { s with flash := f, generation := generation, poisoned := false } ∧
    NonceSafe f reserved tokens ∧ f.slotSize = s.flash.slotSize ∧ Hosts (f.slots slot) s.flash.slotSize attempt) ?_
    fun _ => Triple.update ?_
  · unfold publish
    refine Triple.bind (Q := fun _ s' => s' = { s with poisoned := true }) (Triple.update ?_) fun _ => ?_
    · rintro _ rfl
      rfl
    refine Triple.bind ((onFlash_at (j := { s with poisoned := true }) hFrame).conseq (fun _ h => h) (fun _ _ h => h) ?_)
      fun _ => Triple.of_state ?_
    · rintro _ _ ⟨f, rfl, hf⟩
      exact Safe.of_poisoned rfl hf
    rintro _ ⟨f, rfl, hf, hSize, hHost⟩
    have hMark : Triple (fun g => g = f) (program none slot (frameStop start data.length - markerBytes) zeroWord) _ _ :=
      mark_safe hf ?_ ?_ ?_
    · refine Triple.bind ((onFlash_at (j := { s with poisoned := true, flash := f }) hMark).conseq (fun _ h => h)
        (fun _ _ h => h) ?_) fun _ => Triple.of_state ?_
      · rintro _ _ ⟨g, rfl, hg⟩
        exact Safe.of_poisoned rfl hg
      rintro _ ⟨g, rfl, hg, hSize', hKept, -, -⟩
      have hNow := hKept slot attempt (hSize ▸ hHost)
      refine Triple.bind (Q := fun _ => On { s with poisoned := true } fun q =>
        ∃ c x, q = { g with monotonic := c, failAfter := x }) ?_ fun _ => Triple.update ?_
      · refine Triple.onlyIf (fun _ => ?_) fun _ => ?_
        · refine (onFlash_at (advanceMonotonic_only _ _)).conseq (fun _ h => h) (fun _ _ h => h) ?_
          rintro _ _ ⟨_, rfl, c, x, rfl⟩
          exact Safe.of_poisoned rfl (hg.withMonotonic c x)
        · rintro _ rfl
          exact ⟨g, rfl, _, _, rfl⟩
      · rintro _ ⟨_, rfl, c, x, rfl⟩
        exact ⟨_, rfl, hg.withMonotonic c x, hSize'.trans hSize, hSize ▸ hNow⟩
    · simp only [frameStop, minFrameBytes, headerBytes, markerBytes]
      omega
    · simp only [frameStop, minFrameBytes, headerBytes, markerBytes]
      omega
    · simp only [frameStop, minFrameBytes, headerBytes, markerBytes, committed, tailBytes]
      omega
  · rintro _ ⟨f, rfl, hf, hSize, hHost⟩
    refine ⟨⟨reserved, hf⟩, fun _ => ⟨fun t ht => ?_, fun o ho => ?_⟩⟩
    · simp only [hSlot, Option.some.injEq] at ht
      subst ht
      refine ⟨attempt, hAttempt, ?_⟩
      simp only [hSize]
      exact hHost
    · simp only at ho
      cases hStop : frameEnd f start data.length with
      | error e =>
          rw [hStop] at ho
          cases ho
      | ok stop =>
          rw [hStop] at ho
          injection ho with ho
          obtain ⟨-, -, hEq, -⟩ := frameEnd_ok hStop
          rw [← ho, hEq]
          simp only [frameStop, minFrameBytes, headerBytes, markerBytes]
          omega

/-- Whatever the anchor counter holds, reconciliation touches nothing else. -/
theorem reconcileGeneration_only (f : MemoryFlash) (generation : Nat) :
    Triple (fun g => g = f) (reconcileGeneration generation)
      (fun _ g => ∃ c x, g = { f with monotonic := c, failAfter := x })
      (fun _ g => ∃ c x, g = { f with monotonic := c, failAfter := x }) := by
  have hStay : ∀ g, g = f → ∃ c x, g = { f with monotonic := c, failAfter := x } := by
    intro g hg
    rw [hg]
    exact ⟨_, _, rfl⟩
  apply Triple.get
  intro g hg
  subst hg
  refine Triple.readOnly_bind (fun anchored _ => ?_) fun _ _ => hStay
  refine Triple.failIf_bind (fun _ => hStay) fun _ => ?_
  refine Triple.orFail_bind (fun _ => hStay) fun next _ => ?_
  refine Triple.failIf_bind (fun _ => hStay) fun _ => ?_
  exact Triple.onlyIf (fun _ => advanceMonotonic_only g generation) fun _ => hStay

/-- An accepted slot hosts the attempt its header names. -/
theorem Accepted.hosts {σ : Type} {key : List Byte} {appendEnabled : Bool} {provider : CryptoProvider}
    {replay : Replay σ} {slot : Nat} {candidate : CandidateMeta} {state : σ}
    (h : Accepted f key appendEnabled provider replay slot reserved candidate state) :
    Hosts (f.slots slot) f.slotSize candidate.attempt := by
  obtain ⟨hEncode, hFields⟩ := RecordHeader.encode_decode (length_range _ _ _) h.header
  refine ⟨hFields.attempt_lt, ?_, ?_, h.committed⟩
  · have hFirst : (range (f.slots slot) 0 headerBytes)[0]? = some 0x4d := by
      rw [← hEncode]
      rfl
    have hByte : (range (f.slots slot) 0 headerBytes)[0]? = some (f.slots slot 0) := rfl
    rw [hByte] at hFirst
    injection hFirst with hFirst
    rw [hFirst]
    decide
  · have hAttempt := RecordHeader.encode_attempt ⟨appendEnabled, candidate.baseGeneration, candidate.attempt, candidate.payloadLength⟩
    rw [hEncode, range_drop _ (by decide), range_take _ (by decide)] at hAttempt
    exact hAttempt

/-- Recovery programs no slot; what it remembers it has read from one. -/
theorem recover_safe {σ : Type} {provider : CryptoProvider} {replay : Replay σ} {allowUnreconciled : Bool}
    (h : NonceSafe j.flash reserved tokens) :
    Triple (fun s => s = j) (recoverWithReplayMode provider replay allowUnreconciled) (fun _ j' => Safe tokens j')
      (fun _ j' => Safe tokens j') := by
  have hReserved : j.flash.nonceGeneration = .ok reserved := h.counter.decode h.whole j.flash.bounded
  refine Triple.bind (Q := fun _ s => s = { j with poisoned := true }) (Triple.update ?_) fun _ => Triple.get ?_
  · intro s hs
    rw [hs]
  intro s hs
  rw [hs]
  refine Triple.readOnly_bind (fun selected hSelected => ?_) fun _ _ => ?_
  · have hReconcile : ∀ generation, Triple (fun s => s = { j with poisoned := true })
        (capture (onFlash (reconcileGeneration generation)))
        (fun _ => On { j with poisoned := true } fun g => ∃ c x, g = { j.flash with monotonic := c, failAfter := x })
        (fun _ j' => Safe tokens j') := by
      intro generation
      exact Triple.capture (onFlash_at (j := { j with poisoned := true })
        (reconcileGeneration_only j.flash generation))
    refine Triple.bind (hReconcile _) fun reconciled => ?_
    refine Triple.bind (Q := fun _ j' => Safe tokens j') (Triple.update ?_) fun _ => ?_
    · rintro _ ⟨_, rfl, c, x, rfl⟩
      refine ⟨⟨reserved, h.withMonotonic c x⟩, fun _ => ?_⟩
      cases selected with
      | none => exact ⟨fun t ht => (nomatch ht), fun o ho => (nomatch ho)⟩
      | some chosen =>
          have hAccepted := selectCandidate_accepted hReserved hSelected
          refine ⟨fun t ht => ?_, fun o ho => hAccepted.offset_le hReserved ho⟩
          simp only [Option.map_some, Option.some.injEq] at ht
          subst ht
          exact ⟨_, rfl, hAccepted.hosts⟩
    · cases reconciled with
      | ok _ => exact Triple.ret fun _ h => h
      | error e =>
          cases allowUnreconciled with
          | true => exact Triple.ret fun _ h => h
          | false => exact Triple.raise fun _ h => h
  · intro s hs
    rw [hs]
    exact Safe.of_poisoned rfl h

/-- An identity reservation hands out a value nothing was sealed under. -/
theorem reserveIdentityNonce_safe (h : Safe tokens j) :
    Triple (fun s => s = j) reserveIdentityNonce (fun value j' => Safe (value :: tokens) j')
      (fun _ j' => Safe tokens j') := by
  have hStay : ∀ j', j' = j → Safe tokens j' := by
    intro j' hj'
    rw [hj']
    exact h
  obtain ⟨⟨reserved, hFlash⟩, hLive⟩ := h
  have hMoved : ∀ {c : Nat → Byte} {x : Option Nat} {v : Nat} {tokens' : List Nat},
      NonceSafe { j.flash with nonces := c, failAfter := x } v tokens' →
      Safe tokens' { j with flash := { j.flash with nonces := c, failAfter := x } } := by
    intro c x v tokens' hNew
    exact ⟨⟨v, hNew⟩, fun hIntact => ⟨(hLive hIntact).host, (hLive hIntact).offset⟩⟩
  apply Triple.get
  intro s hs
  rw [hs]
  refine Triple.failIf_bind (fun _ => hStay) fun _ => ?_
  refine Triple.bind (Q := fun value j' => Safe (value :: tokens) j') ?_ fun value => Triple.get fun s' hs' => ?_
  · refine (onFlash_at (reserveNonce_spec hFlash.counter hFlash.whole)).conseq (fun _ h => h) ?_ ?_
    · rintro value _ ⟨g, rfl, rfl, c, x, rfl, hx, hCounter⟩
      have hNew := hFlash.withNonces x hCounter (Nat.le_succ _)
      refine hMoved { hNew with
        tokens_le := fun v hv => ?_
        tokens_nodup := List.nodup_cons.2 ⟨fun hMem => ?_, hNew.tokens_nodup⟩
        tokens_unspent := fun v hv => ?_ }
      · rcases List.mem_cons.1 hv with hEq | hOld
        · exact Nat.le_of_eq hEq
        · exact hNew.tokens_le v hOld
      · exact absurd (hFlash.tokens_le _ hMem) (by omega)
      · rcases List.mem_cons.1 hv with hEq | hOld
        · intro hSpent
          exact absurd (hFlash.attempts_le v hSpent) (by omega)
        · exact hNew.tokens_unspent v hOld
    · rintro _ _ ⟨g, rfl, ⟨c, x, v, rfl, hx, hCounter, hv⟩, -⟩
      exact hMoved (hFlash.withNonces x hCounter (by omega))
  · refine Triple.failIf_bind (fun _ => ?_) fun _ => Triple.ret ?_
    · intro j' hj'
      obtain ⟨⟨n, hNew⟩, hKept⟩ := hs'
      rw [hj']
      exact ⟨⟨n, hNew.withTokens (List.sublist_cons_self ..)⟩, hKept⟩
    · intro j' hj'
      rw [hj']
      exact hs'

theorem Safe.withBudget (h : Safe tokens j) (budget : Option Nat) : Safe tokens (j.withBudget budget) := by
  obtain ⟨⟨reserved, hFlash⟩, hLive⟩ := h
  exact ⟨⟨reserved, { hFlash with }⟩, fun hIntact => ⟨(hLive hIntact).host, (hLive hIntact).offset⟩⟩

end Journal

section Runs

/-- Every state of a journal, with the identity reservations still held. Each
operation gets a provider of its own, which may fail or answer anything, and a
number of mutations after which the power is lost; a reservation is consumed by
the commit it is passed to, as its type has no copy. -/
inductive Run : Journal → List Nat → Prop where
  | opened {σ : Type} {size slotCount : Nat} {bounded : size < 2 ^ 63} {key : List Byte} {appendEnabled : Bool}
      {provider : CryptoProvider} {replay : Replay σ} {state : Option σ} {j : Journal}
      (ok : openMode (MemoryFlash.withSlots size slotCount bounded) key provider appendEnabled replay = .ok state j) :
      Run j []
  | commit {j : Journal} {tokens : List Nat} (run : Run j tokens) (data : List Byte) (durability : Durability)
      (provider : CryptoProvider) (budget : Option Nat) :
      Run (finalState (commitOwnedWithNonce data durability provider none (j.withBudget budget))) tokens
  | commitReserved {j : Journal} {tokens : List Nat} (run : Run j tokens) (data : List Byte) (value : Nat)
      (held : value ∈ tokens) (provider : CryptoProvider) (budget : Option Nat) :
      Run (finalState (commitOwnedWithNonce data .anchored provider (some value) (j.withBudget budget)))
        (tokens.erase value)
  | append {j : Journal} {tokens : List Nat} (run : Run j tokens) (data : List Byte) (durability : Durability)
      (provider : CryptoProvider) (budget : Option Nat) :
      Run (finalState (appendWith data durability provider (j.withBudget budget))) tokens
  | reserve {j j' : Journal} {tokens : List Nat} {value : Nat} (run : Run j tokens) (budget : Option Nat)
      (ok : reserveIdentityNonce (j.withBudget budget) = .ok value j') : Run j' (value :: tokens)
  | reserveFailed {j j' : Journal} {tokens : List Nat} {e : Error} (run : Run j tokens) (budget : Option Nat)
      (error : reserveIdentityNonce (j.withBudget budget) = .error e j') : Run j' tokens
  | recover {σ : Type} {j : Journal} {tokens : List Nat} (run : Run j tokens) (provider : CryptoProvider)
      (replay : Replay σ) (allowUnreconciled : Bool) (budget : Option Nat) :
      Run (finalState (recoverWithReplayMode provider replay allowUnreconciled (j.withBudget budget))) tokens
  | reopen {σ : Type} {j : Journal} {tokens : List Nat} (run : Run j tokens) (appendEnabled : Bool)
      (provider : CryptoProvider) (replay : Replay σ) (budget : Option Nat) :
      Run (finalState (openMode { j.flash with failAfter := budget } j.key provider appendEnabled replay)) tokens

theorem withSlots_safe {size slotCount : Nat} {bounded : size < 2 ^ 63} (hWhole : size % 4 = 0) :
    NonceSafe (MemoryFlash.withSlots size slotCount bounded) 0 [] where
  whole := hWhole
  counter := ⟨Nat.zero_le _, fun w hw => absurd hw (Nat.not_lt_zero w), fun _ _ _ => rfl⟩
  attempts_le := fun _ ha => (nomatch ha)
  attempts_nodup := List.nodup_nil
  tokens_le := fun _ hv => (nomatch hv)
  tokens_nodup := List.nodup_nil
  tokens_unspent := fun _ hv => (nomatch hv)
  belongs := fun _ he => (nomatch he)
  apart := List.Pairwise.nil
  noted := fun _ hr => (nomatch hr)
  hosted := fun _ _ hHosts => absurd rfl hHosts.first
  frames := fun _ he => (nomatch he)

theorem Run.safe {j : Journal} {tokens : List Nat} (run : Run j tokens) : Safe tokens j := by
  induction run with
  | @opened σ size slotCount bounded key appendEnabled provider replay state j ok =>
      have hWhole : size % 4 = 0 := (withSlots_fresh ok).whole
      exact (recover_safe (j := Journal.unopened _ key appendEnabled) (withSlots_safe hWhole)).ok rfl ok
  | commit run data durability provider budget ih =>
      apply Triple.finalState
      exact commitOwnedWithNonce_safe (ih.withBudget budget) fun v hv => (nomatch hv)
  | commitReserved run data value held provider budget ih =>
      apply Triple.finalState
      apply commitOwnedWithNonce_safe (ih.withBudget budget)
      intro v hv
      injection hv with hv
      rw [← hv]
      exact held
  | append run data durability provider budget ih =>
      apply Triple.finalState
      exact appendWith_safe (ih.withBudget budget)
  | reserve run budget ok ih => exact (reserveIdentityNonce_safe (ih.withBudget budget)).ok rfl ok
  | reserveFailed run budget error ih => exact (reserveIdentityNonce_safe (ih.withBudget budget)).error rfl error
  | recover run provider replay allowUnreconciled budget ih =>
      obtain ⟨⟨reserved, hFlash⟩, -⟩ := ih.withBudget budget
      exact Triple.finalState (recover_safe hFlash)
  | @reopen σ j tokens run appendEnabled provider replay budget ih =>
      obtain ⟨⟨reserved, hFlash⟩, -⟩ := ih.withBudget budget
      exact Triple.finalState (recover_safe
        (j := Journal.unopened { j.flash with failAfter := budget } j.key appendEnabled) hFlash)

/-- No two sealed strings share a nonce on flash, not even in part. The words a
nonce ever labelled come from one program call; a reserved attempt seals one
snapshot; and the snapshot and frame domains do not meet. -/
theorem nonces_unique {j : Journal} {tokens : List Nat} (run : Run j tokens) :
    (∀ x ∈ j.flash.trace.words, ∀ y ∈ j.flash.trace.words, ∀ label, x.label = some label → y.label = some label →
      x.slot = y.slot ∧ x.offset = y.offset ∧ x.bytes = y.bytes) ∧
    j.flash.trace.words.Pairwise (fun x y => x.label ≠ none → x.label = y.label → x.word ≠ y.word) ∧
    j.flash.trace.attempts.Nodup ∧
    (∀ x ∈ j.flash.trace.words, ∀ label, x.label = some label →
      ∃ attempt ∈ j.flash.trace.attempts, attempt < 2 ^ 64 ∧
        ((label = nonce attempt ∧ x.offset = 0) ∨ appendNonce attempt x.offset = .ok label)) ∧
    (∀ a b : Nat, a < 2 ^ 64 → b < 2 ^ 64 → nonce a = nonce b → a = b) ∧
    (∀ a b o p : Nat, ∀ label, a < 2 ^ 64 → b < 2 ^ 64 → appendNonce a o = .ok label → appendNonce b p = .ok label →
      a = b ∧ o = p) ∧
    ∀ a b o : Nat, appendNonce b o ≠ .ok (nonce a) := by
  obtain ⟨⟨reserved, hSafe⟩, -⟩ := run.safe
  refine ⟨fun x hx y hy label hxl hyl => hSafe.words_agree hx hy hxl hyl, ?_, hSafe.attempts_nodup, ?_,
    fun a b => nonce_injective, fun a b o p label => appendNonce_injective, appendNonce_ne_nonce⟩
  · refine hSafe.apart.imp fun {x y} hApart hLabelled hSame => ?_
    cases hLabel : x.label with
    | none => exact absurd hLabel hLabelled
    | some label => exact (hApart label hLabel (hSame ▸ hLabel)).2
  · intro x hx label hl
    obtain ⟨a, ha, hPlace⟩ := hSafe.belongs x hx label hl
    exact ⟨a, ha, (hSafe.attempts_le a ha).trans_lt hSafe.reserved_lt, hPlace.imp id And.left⟩

theorem Run.of_succeeded {size slotCount : Nat} {bounded : size < 2 ^ 63} {key : List Byte} {appendEnabled : Bool}
    {provider : CryptoProvider}
    (h : succeeded (openMode (MemoryFlash.withSlots size slotCount bounded) key provider appendEnabled recorder) =
      true) :
    Run (finalState (openMode (MemoryFlash.withSlots size slotCount bounded) key provider appendEnabled recorder))
      [] := by
  cases hOpen : openMode (MemoryFlash.withSlots size slotCount bounded) key provider appendEnabled recorder with
  | ok contents j => exact Run.opened hOpen
  | error e j =>
      rw [hOpen] at h
      cases h

/-- One committed byte, and behind it a frame that was cut inside its record. -/
def tornJournal : Journal :=
  finalState (appendWith [2] .anchored plainProvider (Journal.withBudget
    (finalState (commitOwnedWithNonce [1] .anchored plainProvider none (Journal.withBudget
      (finalState (openMode (MemoryFlash.withSlots 112 2 shortSlot_bounded) [] plainProvider true recorder)) none)))
    (some 30)))

/-- The torn journal, reopened and committed to again. -/
def renewedJournal : Journal :=
  finalState (commitOwnedWithNonce [3] .anchored plainProvider none (Journal.withBudget
    (finalState (openMode { tornJournal.flash with failAfter := none } tornJournal.key plainProvider true recorder))
    none))

theorem tornJournal_run : Run tornJournal [] := by
  apply Run.append
  apply Run.commit
  exact Run.of_succeeded erasedFlash_opens

theorem renewedJournal_run : Run renewedJournal [] := by
  apply Run.commit
  exact tornJournal_run.reopen true plainProvider recorder none

/-- The torn frame and both snapshots were sealed under three nonces. -/
theorem nonces_unique_torn_append :
    (renewedJournal.flash.trace.words.filterMap Programmed.label).dedup.length = 3 ∧
      renewedJournal.flash.trace.attempts.Nodup :=
  ⟨by decide +kernel, (nonces_unique renewedJournal_run).2.2.1⟩

end Runs

end MicroCard.Journal
