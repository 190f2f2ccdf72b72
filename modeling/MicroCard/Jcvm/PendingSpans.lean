import MicroCard.Jcvm.Effects
import MicroCard.Jcvm.Persistence

/-! What a set of pending writes remembers. Its spans stay in order and apart, and whatever
was ever reported lies in one of them unless a snapshot is required; to cut them at the end
of the committed heap loses nothing below it. -/
namespace MicroCard.Jcvm.PendingWrites

open Bytes

/-- Add the spans of another set. -/
def merge (writes other : PendingWrites) : PendingWrites :=
  let merged := other.heapRanges.foldl (fun writes range => writes.write range.1 (range.2 - range.1)) writes
  let merged := match other.staticRange with
    | some range => merged.writeStatics range.1 (range.2 - range.1)
    | none => merged
  { merged with snapshot := merged.snapshot || other.snapshot }

section Spans

/-- The byte lies in one of the spans. -/
def InSpans (spans : List (Nat × Nat)) (i : Nat) : Prop := ∃ span ∈ spans, span.1 ≤ i ∧ i < span.2

/-- Spans in order with a gap between them, none of them empty, as far as a word reaches. -/
structure Gapped (spans : List (Nat × Nat)) : Prop where
  apart : spans.Pairwise fun first second => first.2 < second.1
  some : ∀ span ∈ spans, span.1 < span.2
  word : ∀ span ∈ spans, span.2 ≤ 65535

variable {span next : Nat × Nat} {spans rest : List (Nat × Nat)} {at' length i : Nat}

theorem Gapped.nil : Gapped [] where
  apart := List.Pairwise.nil
  some := fun _ hNever => nomatch hNever
  word := fun _ hNever => nomatch hNever

theorem Gapped.tail (h : Gapped (span :: spans)) : Gapped spans :=
  ⟨h.apart.tail, fun other hOther => h.some other (List.mem_cons_of_mem _ hOther),
    fun other hOther => h.word other (List.mem_cons_of_mem _ hOther)⟩

theorem Gapped.sublist (h : Gapped spans) (hRest : rest.Sublist spans) : Gapped rest :=
  ⟨h.apart.sublist hRest, fun other hOther => h.some other (hRest.subset hOther),
    fun other hOther => h.word other (hRest.subset hOther)⟩

theorem Gapped.cons (h : Gapped spans) (hSome : span.1 < span.2) (hWord : span.2 ≤ 65535)
    (hApart : ∀ other ∈ spans, span.2 < other.1) : Gapped (span :: spans) := by
  constructor
  · exact List.pairwise_cons.2 ⟨hApart, h.apart⟩
  · exact List.forall_mem_cons.2 ⟨hSome, h.some⟩
  · exact List.forall_mem_cons.2 ⟨hWord, h.word⟩

theorem Gapped.append (hSpans : Gapped spans) (hRest : Gapped rest)
    (hApart : ∀ first ∈ spans, ∀ second ∈ rest, first.2 < second.1) : Gapped (spans ++ rest) := by
  constructor
  · exact List.pairwise_append.2 ⟨hSpans.apart, hRest.apart, hApart⟩
  · exact List.forall_mem_append.2 ⟨hSpans.some, hRest.some⟩
  · exact List.forall_mem_append.2 ⟨hSpans.word, hRest.word⟩

theorem absorb_sublist (span : Nat × Nat) (spans : List (Nat × Nat)) : (absorb span spans).2.Sublist spans := by
  induction spans generalizing span with
  | nil => exact List.Sublist.refl []
  | cons next rest ih =>
      rw [absorb]
      split
      · exact (ih _).cons next
      · exact List.Sublist.refl _

/-- A span that grows stays behind everything that was before it and what it absorbs. -/
theorem absorb_low {bound : Nat} (hSpan : bound < span.1) (hSpans : ∀ other ∈ spans, bound < other.1) :
    bound < (absorb span spans).1.1 := by
  induction spans generalizing span with
  | nil => exact hSpan
  | cons next rest ih =>
      rw [absorb]
      split
      · apply ih
        · exact lt_min hSpan (hSpans next List.mem_cons_self)
        · exact fun other hOther => hSpans other (List.mem_cons_of_mem _ hOther)
      · exact hSpan

/-- What a span does not absorb lies behind it, with a gap. -/
theorem Gapped.absorb (h : Gapped spans) (hSome : span.1 < span.2) (hWord : span.2 ≤ 65535) :
    Gapped ((absorb span spans).1 :: (absorb span spans).2) := by
  induction spans generalizing span with
  | nil => exact Gapped.nil.cons hSome hWord fun _ hNever => nomatch hNever
  | cons next rest ih =>
      rw [PendingWrites.absorb]
      split
      · have hNext := h.word next List.mem_cons_self
        exact ih h.tail (by simp only; omega) (by simp only; omega)
      · rename_i hBehind
        apply h.cons hSome hWord
        intro other hOther
        rcases List.mem_cons.1 hOther with rfl | hRest
        · omega
        · have hApart := (List.pairwise_cons.1 h.apart).1 other hRest
          have hNext := h.some next List.mem_cons_self
          omega

end Spans

section Recording

variable {writes other : PendingWrites} {at' length i : Nat}

/-- Recording keeps the spans in order and apart. -/
theorem Gapped.write (h : Gapped writes.heap) (at' length : Nat) : Gapped (writes.write at' length).heap := by
  unfold PendingWrites.write
  split
  · exact h
  split
  · exact h
  rename_i hSome hWord
  have hBefore : Gapped (writes.heap.takeWhile fun span => span.2 < at') := h.sublist (List.takeWhile_sublist _)
  have hAfter : Gapped (writes.heap.dropWhile fun span => span.2 < at') := h.sublist (List.dropWhile_sublist _)
  have hNew : at' < at' + length := by omega
  have hGrown := @Gapped.absorb (at', at' + length) _ hAfter hNew (by simp only; omega)
  have hSplit : ∀ first ∈ writes.heap.takeWhile fun span => span.2 < at',
      ∀ second ∈ writes.heap.dropWhile fun span => span.2 < at', first.2 < second.1 := by
    have hAll := h.apart
    rw [← List.takeWhile_append_dropWhile (p := fun span : Nat × Nat => span.2 < at') (l := writes.heap)] at hAll
    exact (List.pairwise_append.1 hAll).2.2
  dsimp only
  split
  · apply hBefore.append hGrown.tail
    intro first hFirst second hSecond
    exact hSplit first hFirst second ((absorb_sublist _ _).subset hSecond)
  · apply hBefore.append hGrown
    intro first hFirst second hSecond
    rcases List.mem_cons.1 hSecond with rfl | hRest
    · apply absorb_low
      · simpa using List.all_eq_true.1 List.all_takeWhile first hFirst
      · exact hSplit first hFirst
    · exact hSplit first hFirst second ((absorb_sublist _ _).subset hRest)

/-- The spans of the heap are in order and apart, and the span of the statics is not empty. -/
structure Kept (writes : PendingWrites) : Prop where
  heap : Gapped writes.heap
  statics : ∀ span ∈ writes.statics, span.1 < span.2

theorem Kept.empty : Kept empty := ⟨Gapped.nil, fun _ hNever => nomatch hNever⟩

theorem write_statics (writes : PendingWrites) (at' length : Nat) : (writes.write at' length).statics = writes.statics := by
  unfold PendingWrites.write
  split
  · rfl
  split
  · rfl
  · dsimp only
    split <;> rfl

theorem Kept.write (h : Kept writes) (at' length : Nat) : Kept (writes.write at' length) := by
  refine ⟨h.heap.write at' length, ?_⟩
  rw [write_statics]
  exact h.statics

theorem writeStatics_heap (writes : PendingWrites) (at' length : Nat) :
    (writes.writeStatics at' length).heap = writes.heap := by
  unfold writeStatics
  split
  · rfl
  split
  · rfl
  · split <;> rfl

theorem Kept.writeStatics (h : Kept writes) (at' length : Nat) : Kept (writes.writeStatics at' length) := by
  constructor
  · rw [writeStatics_heap]
    exact h.heap
  · unfold PendingWrites.writeStatics
    split
    · exact h.statics
    split
    · exact h.statics
    · split
      · rintro span ⟨⟩
        simp only
        omega
      · rename_i _ _ old hOld
        have hSome := h.statics old hOld
        rintro span ⟨⟩
        simp only
        omega

theorem Kept.recorded (h : Kept writes) (ranges : List (Nat × Nat)) :
    Kept (ranges.foldl (fun writes range => writes.write range.1 (range.2 - range.1)) writes) := by
  induction ranges generalizing writes with
  | nil => exact h
  | cons range ranges ih => exact ih (h.write range.1 (range.2 - range.1))

theorem Kept.merge (h : Kept writes) (other : PendingWrites) : Kept (writes.merge other) := by
  have hHeap := h.recorded other.heapRanges
  have hMerged : Kept (match other.staticRange with
      | some range => (other.heapRanges.foldl (fun writes range => writes.write range.1 (range.2 - range.1))
          writes).writeStatics range.1 (range.2 - range.1)
      | none => other.heapRanges.foldl (fun writes range => writes.write range.1 (range.2 - range.1)) writes) := by
    split
    · exact hHeap.writeStatics _ _
    · exact hHeap
  exact ⟨hMerged.heap, hMerged.statics⟩

/-- Where no span is empty, the ranges are the spans. -/
theorem Kept.heapRanges (h : Kept writes) : writes.heapRanges = writes.heap := by
  have hAll := h.heap.some
  rw [PendingWrites.heapRanges]
  generalize writes.heap = spans at hAll
  induction spans with
  | nil => rfl
  | cons span spans ih =>
      have hSpan := hAll span List.mem_cons_self
      rw [List.filterMap_cons, spanRange, if_pos (by omega)]
      rw [ih fun other hOther => hAll other (List.mem_cons_of_mem _ hOther)]

theorem Kept.staticRange (h : Kept writes) : writes.staticRange = writes.statics := by
  rw [PendingWrites.staticRange]
  cases hStatics : writes.statics with
  | none => rfl
  | some span =>
      have hSpan := h.statics span hStatics
      exact if_pos (by omega)

end Recording

section Coverage

variable {writes other : PendingWrites} {at' length i : Nat}

/-- A byte of the statics that the next checkpoint will write. -/
def CoversStatic (writes : PendingWrites) (i : Nat) : Prop :=
  writes.snapshot = true ∨ ∃ span ∈ writes.statics, span.1 ≤ i ∧ i < span.2

theorem write_snapshot (hSnapshot : writes.snapshot = true) (at' length : Nat) :
    (writes.write at' length).snapshot = true := by
  unfold write
  split
  · exact hSnapshot
  split
  · rfl
  · dsimp only
    split
    · rfl
    · exact hSnapshot

theorem write_coversStatic (h : writes.CoversStatic i) (at' length : Nat) : (writes.write at' length).CoversStatic i := by
  rcases h with hSnapshot | hSpan
  · exact .inl (write_snapshot hSnapshot at' length)
  · right
    rw [write_statics]
    exact hSpan

/-- Recording an interval of the statics keeps what was recorded and adds the interval. -/
theorem writeStatics_coversStatic (h : writes.CoversStatic i ∨ (at' ≤ i ∧ i < at' + length)) :
    (writes.writeStatics at' length).CoversStatic i := by
  unfold writeStatics
  split
  · rcases h with hOld | hNew
    · exact hOld
    · omega
  split
  · exact .inl rfl
  rcases h with (hSnapshot | ⟨span, hSpan, hIn⟩) | hNew
  · left
    split <;> exact hSnapshot
  · right
    split
    · rename_i hNone
      rw [hNone] at hSpan
      cases hSpan
    · rename_i old hOld
      rw [hOld] at hSpan
      injection hSpan with hSame
      subst hSame
      exact ⟨_, rfl, by simp only; omega⟩
  · right
    split
    · exact ⟨_, rfl, hNew⟩
    · exact ⟨_, rfl, by simp only; omega⟩

theorem writeStatics_covers (h : writes.Covers i) (at' length : Nat) : (writes.writeStatics at' length).Covers i := by
  rcases h with hSnapshot | hSpan
  · left
    unfold writeStatics
    split
    · exact hSnapshot
    split
    · rfl
    · split <;> exact hSnapshot
  · right
    rw [writeStatics_heap]
    exact hSpan

theorem recorded_covers {ranges : List (Nat × Nat)} (h : writes.Covers i ∨ InSpans ranges i) :
    (ranges.foldl (fun writes range => writes.write range.1 (range.2 - range.1)) writes).Covers i := by
  induction ranges generalizing writes with
  | nil =>
      rcases h with hOld | ⟨_, hNever, -⟩
      · exact hOld
      · cases hNever
  | cons range ranges ih =>
      apply ih
      rcases h with hOld | ⟨span, hSpan, hIn⟩
      · exact .inl (write_covers (.inl hOld))
      · rcases List.mem_cons.1 hSpan with rfl | hRest
        · exact .inl (write_covers (.inr ⟨hIn.1, by omega⟩))
        · exact .inr ⟨span, hRest, hIn⟩

theorem recorded_coversStatic (h : writes.CoversStatic i) (ranges : List (Nat × Nat)) :
    (ranges.foldl (fun writes range => writes.write range.1 (range.2 - range.1)) writes).CoversStatic i := by
  induction ranges generalizing writes with
  | nil => exact h
  | cons range ranges ih => exact ih (write_coversStatic h range.1 (range.2 - range.1))

theorem Covers.raised (h : writes.Covers i) (snapshot : Bool) :
    Covers { writes with snapshot := writes.snapshot || snapshot } i :=
  h.imp_left fun hSnapshot => Bool.or_eq_true_iff.2 (.inl hSnapshot)

theorem CoversStatic.raised (h : writes.CoversStatic i) (snapshot : Bool) :
    CoversStatic { writes with snapshot := writes.snapshot || snapshot } i :=
  h.imp_left fun hSnapshot => Bool.or_eq_true_iff.2 (.inl hSnapshot)

theorem merge_snapshot (hSnapshot : other.snapshot = true) : (writes.merge other).snapshot = true :=
  Bool.or_eq_true_iff.2 (.inr hSnapshot)

/-- A set that another is merged into covers what either of them did. -/
theorem merge_covers (hOther : Kept other) (h : writes.Covers i ∨ other.Covers i) : (writes.merge other).Covers i := by
  by_cases hSnapshot : other.snapshot = true
  · exact .inl (merge_snapshot hSnapshot)
  · have hSpans : writes.Covers i ∨ InSpans other.heapRanges i := by
      rw [hOther.heapRanges]
      exact h.imp_right fun hCovers => hCovers.resolve_left hSnapshot
    have hHeap := recorded_covers hSpans
    unfold merge
    apply Covers.raised
    split
    · exact writeStatics_covers hHeap _ _
    · exact hHeap

theorem merge_coversStatic (hOther : Kept other) (h : writes.CoversStatic i ∨ other.CoversStatic i) :
    (writes.merge other).CoversStatic i := by
  by_cases hSnapshot : other.snapshot = true
  · exact .inl (merge_snapshot hSnapshot)
  · unfold merge
    apply CoversStatic.raised
    rcases h with hHere | hThere
    · have hHeap := recorded_coversStatic hHere other.heapRanges
      split
      · exact writeStatics_coversStatic (.inl hHeap)
      · exact hHeap
    · obtain ⟨span, hSpan, hIn⟩ := hThere.resolve_left hSnapshot
      rw [← hOther.staticRange] at hSpan
      rw [hSpan]
      exact writeStatics_coversStatic (.inr ⟨hIn.1, by omega⟩)

/-- What is cut at the end of the committed heap is what lies below it. -/
theorem forCommittedHeap_spans (h : Kept writes) (length : Nat) :
    InSpans (writes.forCommittedHeap length).heapRanges i ↔ InSpans writes.heapRanges i ∧ i < length := by
  rw [h.heapRanges]
  unfold forCommittedHeap
  split
  · have hCut : ∀ spans : List (Nat × Nat),
        InSpans (((spans.map fun span => (span.1, min span.2 length)).filter fun span => span.1 < span.2).filterMap
          spanRange) i ↔ InSpans spans i ∧ i < length := by
      intro spans
      simp only [InSpans, List.mem_filterMap, List.mem_filter, List.mem_map, decide_eq_true_eq]
      constructor
      · rintro ⟨range, ⟨cut, ⟨⟨span, hSpan, rfl⟩, hSome⟩, hRange⟩, hIn⟩
        rw [spanRange] at hRange
        split at hRange
        · injection hRange with hRange
          subst hRange
          simp only at hIn
          exact ⟨⟨span, hSpan, by omega⟩, by omega⟩
        · cases hRange
      · rintro ⟨⟨span, hSpan, hIn⟩, hBelow⟩
        have hEnd : min span.2 length ≠ 0 := by omega
        exact ⟨(span.1, min span.2 length), ⟨_, ⟨⟨span, hSpan, rfl⟩, by simp only; omega⟩, if_pos hEnd⟩, by simp only; omega⟩
    exact hCut writes.heap
  · rename_i hLong
    have hAll : InSpans (heapRanges { writes with snapshot := true }) i ↔ InSpans writes.heap i := by
      rw [show heapRanges { writes with snapshot := true } = writes.heapRanges from rfl, h.heapRanges]
    rw [hAll]
    refine ⟨fun hIn => ⟨hIn, ?_⟩, fun hIn => hIn.1⟩
    obtain ⟨span, hSpan, -, hBelow⟩ := hIn
    have hWord := h.heap.word span hSpan
    omega

end Coverage

section Histories

/-- What was reported to a set of pending writes, one call after the other. -/
inductive History where
  | none
  | heap (earlier : History) (at' length : Nat)
  | statics (earlier : History) (at' length : Nat)
  | merge (earlier other : History)
  | requireSnapshot (earlier : History)

def History.writes : History → PendingWrites
  | none => empty
  | heap earlier at' length => earlier.writes.write at' length
  | statics earlier at' length => earlier.writes.writeStatics at' length
  | merge earlier other => earlier.writes.merge other.writes
  | requireSnapshot earlier => earlier.writes.requireSnapshot

/-- The byte of the heap was reported. -/
def History.Heap (i : Nat) : History → Prop
  | none => False
  | heap earlier at' length => earlier.Heap i ∨ (at' ≤ i ∧ i < at' + length)
  | statics earlier _ _ => earlier.Heap i
  | merge earlier other => earlier.Heap i ∨ other.Heap i
  | requireSnapshot earlier => earlier.Heap i

/-- The byte of the statics was reported. -/
def History.Static (i : Nat) : History → Prop
  | none => False
  | heap earlier _ _ => earlier.Static i
  | statics earlier at' length => earlier.Static i ∨ (at' ≤ i ∧ i < at' + length)
  | merge earlier other => earlier.Static i ∨ other.Static i
  | requireSnapshot earlier => earlier.Static i

theorem History.kept (history : History) : Kept history.writes := by
  induction history with
  | none => exact Kept.empty
  | heap earlier at' length ih => exact ih.write at' length
  | statics earlier at' length ih => exact ih.writeStatics at' length
  | merge earlier other ih => exact ih.merge other.writes
  | requireSnapshot earlier ih => exact ⟨ih.heap, ih.statics⟩

theorem History.covers {history : History} {i : Nat} (h : history.Heap i) : history.writes.Covers i := by
  induction history with
  | none => exact h.elim
  | heap earlier at' length ih => exact write_covers (h.imp_left ih)
  | statics earlier at' length ih => exact writeStatics_covers (ih h) at' length
  | merge earlier other ih ihOther => exact merge_covers other.kept (h.imp ih ihOther)
  | requireSnapshot earlier ih => exact .inl rfl

theorem History.coversStatic {history : History} {i : Nat} (h : history.Static i) : history.writes.CoversStatic i := by
  induction history with
  | none => exact h.elim
  | heap earlier at' length ih => exact write_coversStatic (ih h) at' length
  | statics earlier at' length ih => exact writeStatics_coversStatic (h.imp_left ih)
  | merge earlier other ih ihOther => exact merge_coversStatic other.kept (h.imp ih ihOther)
  | requireSnapshot earlier ih => exact .inl rfl

/-- After any calls a snapshot is required, or the intervals are in order and apart and hold
every reported byte; and the set cut at a length holds the same bytes below it. -/
theorem pending_writes_sound (history : History) (length : Nat) :
    (history.writes.snapshot = true ∨
      (history.writes.heapRanges.Pairwise fun first second => first.2 ≤ second.1) ∧
        (∀ range ∈ history.writes.heapRanges, range.1 < range.2) ∧
          (∀ i, history.Heap i → InSpans history.writes.heapRanges i) ∧
            ∀ i, history.Static i → ∃ range ∈ history.writes.staticRange, range.1 ≤ i ∧ i < range.2) ∧
      (∀ i, InSpans (history.writes.forCommittedHeap length).heapRanges i ↔
        InSpans history.writes.heapRanges i ∧ i < length) ∧
      (history.writes.forCommittedHeap length).staticRange = history.writes.staticRange := by
  have hKept := history.kept
  refine ⟨?_, fun i => forCommittedHeap_spans hKept length, ?_⟩
  · by_cases hSnapshot : history.writes.snapshot = true
    · exact .inl hSnapshot
    · right
      rw [hKept.heapRanges, hKept.staticRange]
      refine ⟨hKept.heap.apart.imp fun h => h.le, hKept.heap.some, ?_, ?_⟩
      · exact fun i hReported => (History.covers hReported).resolve_left hSnapshot
      · exact fun i hReported => (History.coversStatic hReported).resolve_left hSnapshot
  · unfold forCommittedHeap
    split <;> rfl

end Histories

end MicroCard.Jcvm.PendingWrites
