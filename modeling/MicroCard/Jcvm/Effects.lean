import MicroCard.Jcvm.Tiling

/-! What an operation can do to the heap. Each one is a sequence of a few elementary
effects, so an invariant of the heap is proved once for each effect. -/
namespace MicroCard.Jcvm

open Bytes CrashTriple Checks UndoLog

namespace PendingWrites

/-- A byte that the next checkpoint will write. -/
def Covers (writes : PendingWrites) (i : Nat) : Prop :=
  writes.snapshot = true ∨ ∃ span ∈ writes.heap, span.1 ≤ i ∧ i < span.2

theorem absorb_covers (span : Nat × Nat) (spans : List (Nat × Nat)) {i : Nat}
    (h : (span.1 ≤ i ∧ i < span.2) ∨ ∃ other ∈ spans, other.1 ≤ i ∧ i < other.2) :
    ((absorb span spans).1.1 ≤ i ∧ i < (absorb span spans).1.2) ∨
      ∃ other ∈ (absorb span spans).2, other.1 ≤ i ∧ i < other.2 := by
  induction spans generalizing span with
  | nil => exact h
  | cons next rest ih =>
      unfold absorb
      split
      · apply ih
        rcases h with hSpan | ⟨other, hOther, hIn⟩
        · exact .inl ⟨by simp only; omega, by simp only; omega⟩
        · rcases List.mem_cons.1 hOther with rfl | hRest
          · exact .inl ⟨by simp only; omega, by simp only; omega⟩
          · exact .inr ⟨other, hRest, hIn⟩
      · exact h

/-- Recording an interval keeps what was recorded and adds the interval. -/
theorem write_covers {writes : PendingWrites} {at' length i : Nat}
    (h : writes.Covers i ∨ (at' ≤ i ∧ i < at' + length)) : (writes.write at' length).Covers i := by
  unfold write
  split
  · rcases h with hOld | hNew
    · exact hOld
    · omega
  split
  · exact .inl rfl
  have hParts : ∀ span ∈ writes.heap, span ∈ (writes.heap.takeWhile fun span => span.2 < at') ∨
      span ∈ (writes.heap.dropWhile fun span => span.2 < at') := by
    intro span hSpan
    rw [← List.mem_append, List.takeWhile_append_dropWhile]
    exact hSpan
  dsimp only
  by_cases hFull : (writes.heap.takeWhile fun span => span.2 < at').length +
      (absorb (at', at' + length) (writes.heap.dropWhile fun span => span.2 < at')).2.length = heapSpans
  · rw [if_pos hFull]
    exact .inl rfl
  · rw [if_neg hFull]
    rcases h with (hSnapshot | ⟨span, hSpan, hIn⟩) | hNew
    · exact .inl hSnapshot
    · rcases hParts span hSpan with hBefore | hAfter
      · exact .inr ⟨span, List.mem_append_left _ hBefore, hIn⟩
      · rcases absorb_covers (at', at' + length) _ (.inr ⟨span, hAfter, hIn⟩) with hHere | ⟨other, hOther, hHere⟩
        · exact .inr ⟨_, List.mem_append_right _ List.mem_cons_self, hHere⟩
        · exact .inr ⟨other, List.mem_append_right _ (List.mem_cons_of_mem _ hOther), hHere⟩
    · rcases absorb_covers (at', at' + length) (writes.heap.dropWhile fun span => span.2 < at') (.inl hNew) with
        hHere | ⟨other, hOther, hHere⟩
      · exact .inr ⟨_, List.mem_append_right _ List.mem_cons_self, hHere⟩
      · exact .inr ⟨other, List.mem_append_right _ (List.mem_cons_of_mem _ hOther), hHere⟩

end PendingWrites

namespace Undo

@[simp] theorem images_cons_same (record : UndoRecord) (records : List UndoRecord) (limit : Nat) (statics : Bool)
    (h : record.statics = statics) :
    (⟨record :: records, limit⟩ : Undo).images statics = record.image :: (⟨records, limit⟩ : Undo).images statics := by
  simp [images, h]

@[simp] theorem images_cons_other (record : UndoRecord) (records : List UndoRecord) (limit : Nat) (statics : Bool)
    (h : record.statics ≠ statics) :
    (⟨record :: records, limit⟩ : Undo).images statics = (⟨records, limit⟩ : Undo).images statics := by
  simp [images, h]

theorem images_preserve_heap (undo : Undo) (at' : Nat) (value : List Byte) :
    (undo.preserve at' value).images false = UndoLog.preserve at' value (undo.images false) := by
  obtain ⟨records, limit⟩ := undo
  simp only [images, preserve, UndoLog.preserve]
  induction records with
  | nil => rfl
  | cons record rest ih =>
      cases hKind : record.statics with
      | false => simpa [hKind] using ih
      | true => simpa [hKind] using ih

theorem images_preserve_statics (undo : Undo) (at' : Nat) (value : List Byte) :
    (undo.preserve at' value).images true = undo.images true := by
  obtain ⟨records, limit⟩ := undo
  simp only [images, preserve]
  induction records with
  | nil => rfl
  | cons record rest ih =>
      cases hKind : record.statics with
      | false => simpa [hKind] using ih
      | true => simpa [hKind] using ih

/-- What saving a span does to the log, when it succeeds. -/
theorem record_ok {undo saved : Undo} {at' : Nat} {before : List Byte} {statics : Bool}
    (h : undo.record at' before statics = .ok saved) :
    (saved = undo ∧ (before = [] ∨ ∃ image ∈ undo.images statics, image.Covers at' before.length)) ∨
      (saved = { undo with records := ⟨statics, ⟨at', before⟩⟩ :: undo.records } ∧ before ≠ [] ∧
        before.length + 6 ≤ undo.remaining) := by
  unfold record at h
  split at h
  · rename_i hEmpty
    injection h with h
    exact .inl ⟨h.symm, .inl hEmpty⟩
  split at h
  · cases h
  split at h
  · rename_i hCovered
    injection h with h
    exact .inl ⟨h.symm, .inr hCovered⟩
  rename_i hBytes _ _
  split at h
  · cases h
  · rename_i hRoom
    injection h with h
    exact .inr ⟨h.symm, hBytes, Nat.le_of_not_lt hRoom⟩

end Undo

/-- A heap and the objects it holds. -/
abbrev Laid := Heap × List (Nat × Info)

/-- A conditional write to the span may go ahead: it is volatile, or an abort undoes it,
or a checkpoint will store it. -/
def Heap.Safe (heap : Heap) (at' length : Nat) (info : Info) : Prop :=
  info.clearEvent ≠ 0 ∨ length = 0 ∨
    match heap.transaction with
    | some (start, undo) => start ≤ at' ∨ ∃ image ∈ undo.images false, image.Covers at' length
    | none => ∀ i, at' ≤ i → i < at' + length → heap.pendingWrites.Covers i

/-- The heap after an unconditional write. -/
def Heap.written (heap : Heap) (at' : Nat) (value : List Byte) (info : Info) : Heap :=
  { heap with
    pendingWrites := if info.clearEvent = 0 then heap.pendingWrites.write at' value.length else heap.pendingWrites
    transaction := heap.transaction.map fun (txn : Nat × Undo) => (txn.1, txn.2.preserve at' value)
    bytes := overwrite heap.bytes at' value }

/-- The heap after an allocation that ends at `stop`. -/
def Heap.allocated (heap : Heap) (info : Info) (stop : Nat) : Heap :=
  { heap with
    bytes := overwrite heap.bytes heap.next (info.header ++ List.replicate (stop - heap.next - headerBytes) 0)
    next := stop
    pendingWrites := if heap.transaction.isNone then
        heap.pendingWrites.write heap.next (if info.clearEvent = 0 then stop - heap.next else headerBytes)
      else heap.pendingWrites }

/-- The fields of an object that an allocation may write. -/
structure Info.Fresh (info : Info) : Prop where
  cls : info.cls < 65536
  length : info.length < 65536
  owner : info.owner < 256
  event : info.clearEvent ≤ clearOnDeselect
  object : info.kind = .object → info.clearEvent = 0
  primitive : info.kind ≠ .object → info.kind ≠ .reference → info.cls = 0

/-- An unconditional write: where, and what. -/
abbrev Outright := Nat × List Byte

/-- One elementary effect, labelled with the unconditional write it makes. -/
inductive Effect : Option Outright → Laid → Laid → Prop where
  | save {heap : Heap} {objects : List (Nat × Info)} {start at' length : Nat} {undo : Undo} {info : Info}
      (running : heap.transaction = some (start, undo)) (spans : Spans objects at' length info)
      (kept : info.clearEvent = 0) (old : at' < start) (filled : 0 < length)
      (room : length + 6 ≤ undo.remaining) :
      Effect none (heap, objects) ({ heap with transaction := some (start, { undo with
        records := ⟨false, ⟨at', range heap.bytes at' length⟩⟩ :: undo.records }) }, objects)
  | pend {heap : Heap} {objects : List (Nat × Info)} {at' length : Nat} (idle : heap.transaction = none) :
      Effect none (heap, objects) ({ heap with pendingWrites := heap.pendingWrites.write at' length }, objects)
  | write {heap : Heap} {objects : List (Nat × Info)} {at' : Nat} {value : List Byte} {info : Info}
      (spans : Spans objects at' value.length info) (safe : heap.Safe at' value.length info) :
      Effect none (heap, objects) ({ heap with bytes := overwrite heap.bytes at' value }, objects)
  | through {heap : Heap} {objects : List (Nat × Info)} {at' : Nat} {value : List Byte} {info : Info}
      (spans : Spans objects at' value.length info) : Effect (some (at', value)) (heap, objects) (heap.written at' value info, objects)
  | runtime {heap : Heap} {objects : List (Nat × Info)} {at' : Nat} {value : Byte} (reserved : at' < 2) :
      Effect (some (at', [value])) (heap, objects) ({ heap with
        bytes := overwrite heap.bytes at' [value], pendingWrites := heap.pendingWrites.write at' 1 }, objects)
  | allocate {heap : Heap} {objects : List (Nat × Info)} {info : Info} {stop : Nat} (fresh : info.Fresh)
      (stops : stop = info.stop heap.next) (fits : stop ≤ min heap.size 65535) :
      Effect none (heap, objects) (heap.allocated info stop, objects ++ [(heap.next, info)])

/-- Several effects, one after the other, with the unconditional writes they make. -/
inductive Effects (start : Laid) : List Outright → Laid → Prop where
  | refl : Effects start [] start
  | quiet {made : List Outright} {middle finish : Laid} (steps : Effects start made middle)
      (last : Effect none middle finish) : Effects start made finish
  | outright {made : List Outright} {write : Outright} {middle finish : Laid} (steps : Effects start made middle)
      (last : Effect (some write) middle finish) : Effects start (made ++ [write]) finish

theorem Effects.trans {start middle finish : Laid} {first second : List Outright} (h : Effects start first middle)
    (h' : Effects middle second finish) : Effects start (first ++ second) finish := by
  induction h' with
  | refl =>
      rw [List.append_nil]
      exact h
  | quiet steps last ih => exact .quiet ih last
  | outright steps last ih =>
      rw [← List.append_assoc]
      exact .outright ih last

section Sound

/-- A heap whose objects fill it and that references can address. -/
structure Heap.Sound (heap : Heap) (objects : List (Nat × Info)) : Prop where
  tiles : heap.Tiles objects
  size : heap.next ≤ heap.size
  addressable : heap.next ≤ 65535

theorem Tiling.stop_even {bytes : Nat → Byte} {size used start stop : Nat} {objects : List (Nat × Info)}
    (h : Tiling bytes size used start stop objects) (hStart : start % 2 = 0) : stop % 2 = 0 := by
  induction h with
  | nil => exact hStart
  | @cons at' stop info rest read tail ih => exact ih (info.stop_even at')

/-- A payload write leaves every header alone. -/
theorem Heap.Tiles.overwrite_payload {heap : Heap} {objects : List (Nat × Info)} (h : heap.Tiles objects) {at' : Nat}
    {value : List Byte} {info : Info} (hSpans : Spans objects at' value.length info) :
    Tiling (overwrite heap.bytes at' value) heap.size heap.next 2 heap.next objects := by
  obtain ⟨o, ho, rfl, hLow, hHigh⟩ := hSpans
  refine Tiling.congr h fun p hp i hFirst hLast => ?_
  apply overwrite_outside
  by_contra hInside
  have hIn : InPayload o i := ⟨by omega, by omega⟩
  exact h.header_outside ho hp hIn ⟨hFirst, hLast⟩

/-- The object an allocation makes lies behind those that were there. -/
theorem Tiling.allocated {heap : Heap} {objects : List (Nat × Info)} {size : Nat}
    (h : Tiling heap.bytes size heap.next 2 heap.next objects) {info : Info} {stop : Nat} (hFresh : info.Fresh)
    (hStop : stop = info.stop heap.next) {larger : Nat} (hNext : heap.next ≤ larger) (hFits : stop ≤ larger) :
    Tiling (heap.allocated info stop).bytes larger stop 2 stop (objects ++ [(heap.next, info)]) := by
  have hEven : heap.next % 2 = 0 := Tiling.stop_even h (by omega)
  have hStart : 2 ≤ heap.next := Tiling.le h
  have hGe := info.stop_ge heap.next
  have hHeader : info.header.length = headerBytes := rfl
  refine Tiling.append (?_ : Tiling _ _ _ 2 heap.next objects) ?_
  · refine Tiling.relimit (Tiling.congr (h.resize hNext) fun o ho i hLow hHigh => ?_) (by omega) hFits
    have hLast := (Tiling.mem h ho).2.2
    have hObject := o.2.stop_ge o.1
    exact overwrite_outside (by omega)
  · refine .cons (Info.read_header ?_ ?_ hFresh.cls hFresh.length hFresh.owner) ?_
    · rw [range_eq_iff]
      refine ⟨hHeader, fun i hi => ?_⟩
      have hLength : i < (info.header ++ List.replicate (stop - heap.next - headerBytes) (0 : Byte)).length := by
        rw [List.length_append]
        omega
      show overwrite heap.bytes heap.next _ (heap.next + i) = _
      rw [overwrite_inside (by omega) (by omega), Nat.add_sub_cancel_left, List.getD_append _ _ _ _ hi,
        List.getD_eq_getElem]
    · exact ⟨by omega, by omega, hEven, hFresh.event, hFresh.object, hFresh.primitive, by omega⟩
    · rw [← hStop]
      exact .nil stop

theorem Heap.Sound.allocated {heap : Heap} {objects : List (Nat × Info)} (h : heap.Sound objects) {info : Info} {stop : Nat}
    (hFresh : info.Fresh) (hStop : stop = info.stop heap.next) (hFits : stop ≤ min heap.size 65535) :
    (heap.allocated info stop).Sound (objects ++ [(heap.next, info)]) where
  tiles := Tiling.allocated h.tiles hFresh hStop h.size (show stop ≤ heap.size by omega)
  size := show stop ≤ heap.size by omega
  addressable := show stop ≤ 65535 by omega

/-- Every effect keeps the heap filled by objects. -/
theorem Effect.sound {label : Option Outright} {before after : Laid} (h : Effect label before after) (hSound : before.1.Sound before.2) :
    after.1.Sound after.2 := by
  cases h with
  | save running spans kept old filled room => exact ⟨hSound.tiles, hSound.size, hSound.addressable⟩
  | pend idle => exact ⟨hSound.tiles, hSound.size, hSound.addressable⟩
  | write spans safe => exact ⟨hSound.tiles.overwrite_payload spans, hSound.size, hSound.addressable⟩
  | through spans => exact ⟨hSound.tiles.overwrite_payload spans, hSound.size, hSound.addressable⟩
  | runtime reserved =>
      refine ⟨Tiling.congr hSound.tiles fun o ho i hLow hHigh => ?_, hSound.size, hSound.addressable⟩
      have hStart := (Tiling.mem hSound.tiles ho).2.1
      exact overwrite_outside (by simp only [List.length_singleton]; omega)
  | allocate fresh stops fits => exact hSound.allocated fresh stops fits

theorem Effects.sound {made : List Outright} {before after : Laid} (h : Effects before made after) (hSound : before.1.Sound before.2) :
    after.1.Sound after.2 := by
  induction h with
  | refl => exact hSound
  | quiet steps last ih => exact last.sound ih
  | outright steps last ih => exact last.sound ih

end Sound

section Operations

variable {heap : Heap} {objects : List (Nat × Info)} {at' length index offset reference : Nat} {value : List Byte}
  {info : Info} {α : Type}

/-- Whatever the program does to the heap, it does by effects; whether it returns or
fails, it has made one of these lists of unconditional writes. -/
def Acts (heap : Heap) (objects : List (Nat × Info)) (program : HeapM α) (made : List Outright → Prop) : Prop :=
  Triple (fun h => h = heap) program (fun _ h => ∃ list after, made list ∧ Effects (heap, objects) list (h, after))
    fun _ h => ∃ list after, made list ∧ Effects (heap, objects) list (h, after)

/-- A program that makes no unconditional write. -/
abbrev Quiet (heap : Heap) (objects : List (Nat × Info)) (program : HeapM α) : Prop :=
  Acts heap objects program fun list => list = []

theorem Quiet.unchanged (h : Heap) (hEq : h = heap) :
    ∃ list after, list = [] ∧ Effects (heap, objects) list (h, after) :=
  ⟨[], objects, rfl, hEq ▸ .refl⟩

/-- The heap is another one with more before-images, or with other pending writes. -/
def Heap.Extends (heap other : Heap) : Prop :=
  match other.transaction with
  | none => ∃ writes, heap = { other with pendingWrites := writes }
  | some (start, undo) => ∃ extra, heap = { other with
      transaction := some (start, { undo with records := extra ++ undo.records }) }

theorem Heap.Extends.refl (heap : Heap) : heap.Extends heap := by
  unfold Heap.Extends
  cases hTxn : heap.transaction with
  | none => exact ⟨heap.pendingWrites, by rw [← hTxn]⟩
  | some txn => exact ⟨[], by rw [List.nil_append, ← hTxn]⟩

/-- Saving a span: what it leaves makes a write to the span safe. -/
theorem remember_spec (hSpans : Spans objects at' length info) :
    Triple (fun h => h = heap) (Heap.remember at' length info)
      (fun _ h => Effects (heap, objects) [] (h, objects) ∧ h.Safe at' length info ∧ h.Extends heap)
      fun _ h => h = heap := by
  unfold Heap.remember
  refine Triple.get fun s hs => ?_
  subst hs
  split
  · rename_i hTransient
    exact fun h hEq => hEq ▸ ⟨.refl, .inl hTransient, .refl _⟩
  rename_i hKept
  rw [not_not] at hKept
  cases hTxn : s.transaction with
  | none =>
      intro h hEq
      subst hEq
      have hStep : Effect none (h, objects) ({ h with pendingWrites := h.pendingWrites.write at' length }, objects) :=
        .pend hTxn
      rw [hTxn] at hStep
      refine ⟨.quiet .refl hStep, .inr (.inr ?_), ?_⟩
      · exact fun i hLow hHigh => PendingWrites.write_covers (.inr ⟨hLow, hHigh⟩)
      · rw [Heap.Extends, hTxn]
        exact ⟨h.pendingWrites.write at' length, by rw [← hTxn]⟩
  | some txn =>
      obtain ⟨start, undo⟩ := txn
      dsimp only
      split
      · rename_i hNew
        intro h hEq
        subst hEq
        refine ⟨.refl, .inr (.inr ?_), .refl h⟩
        simp only [hTxn]
        exact .inl hNew
      rename_i hOld
      refine Triple.readOnly_bind (fun saved hSaved => ?_) fun e _ h hEq => hEq
      intro h hEq
      subst hEq
      rcases Undo.record_ok hSaved with ⟨rfl, hCovered⟩ | ⟨rfl, hBytes, hRoom⟩
      · refine ⟨?_, .inr ?_, ?_⟩
        · rw [← hTxn]
          exact .refl
        · rcases hCovered with hEmpty | ⟨image, hMem, hCovers⟩
          · left
            simpa using congrArg List.length hEmpty
          · right
            rw [length_range] at hCovers
            exact .inr ⟨image, hMem, hCovers⟩
        · rw [← hTxn]
          exact .refl h
      · have hFilled : 0 < length := by
          have hSome := List.length_pos_iff.2 hBytes
          rwa [length_range] at hSome
        refine ⟨.quiet .refl (.save hTxn hSpans hKept (by omega) hFilled (by simpa using hRoom)), .inr (.inr (.inr ⟨⟨at', range h.bytes at' length⟩, ?_, ?_⟩)), ?_⟩
        · rw [Undo.images_cons_same _ _ _ _ rfl]
          exact List.mem_cons_self
        · exact ⟨Nat.le_refl _, by simp⟩
        · rw [Heap.Extends, hTxn]
          exact ⟨[_], rfl⟩

theorem putConditional_acts (hSpans : Spans objects at' value.length info) :
    Quiet heap objects (Heap.putConditional at' value info) := by
  refine Triple.bind (Triple.conseq (remember_spec hSpans) (fun _ h => h) (fun _ _ h => h)
    fun _ => Quiet.unchanged) fun _ => ?_
  rintro h ⟨hSteps, hSafe, -⟩
  exact ⟨[], objects, rfl, .quiet hSteps (.write hSpans hSafe)⟩

theorem putChanged_acts (hSpans : Spans objects at' value.length info) :
    Quiet heap objects (Heap.putChanged at' value info) := by
  refine Triple.get fun s hs => ?_
  subst hs
  split
  · exact Quiet.unchanged
  · exact putConditional_acts hSpans

/-- An allocation returns where the new object starts. -/
theorem allocate_spec (hFresh : info.Fresh) : Triple (fun h => h = heap) (Heap.allocate info)
    (fun reference h => reference = heap.next ∧ Effect none (heap, objects) (h, objects ++ [(heap.next, info)]))
    fun _ h => h = heap := by
  apply Triple.get
  intro s hs
  subst hs
  apply Triple.failIf_bind
  · exact fun _ _ hEq => hEq
  intro _
  apply Triple.readOnly_bind
  · intro stop hStop h hEq
    unfold Heap.allocationRange at hStop
    simp only [bind_ok, failIf_ok, pure_ok] at hStop
    obtain ⟨-, hEven, -, hFits, hStop⟩ := hStop
    subst hEq
    have hEnd : stop = info.stop h.next := by
      rw [← hStop, Info.stop, Info.payload]
      omega
    exact ⟨rfl, .allocate hFresh hEnd (by omega)⟩
  · exact fun _ _ _ hEq => hEq

theorem allocate_acts (hFresh : info.Fresh) : Quiet heap objects (Heap.allocate info) := by
  apply Triple.conseq (allocate_spec hFresh) (fun _ hEq => hEq)
  · exact fun _ h hDone => ⟨[], _, rfl, .quiet .refl hDone.2⟩
  · exact fun _ => Quiet.unchanged

/-- An unconditional write is made, or the bytes were already there. -/
theorem putUnconditional_acts (hSpans : Spans objects at' value.length info) :
    Acts heap objects (Heap.putUnconditional at' value info) fun list =>
      list = [(at', value)] ∨ (list = [] ∧ range heap.bytes at' value.length = value) := by
  refine Triple.get fun s hs => ?_
  subst hs
  split
  · rename_i hSame
    exact fun h hEq => ⟨[], objects, .inr ⟨rfl, hSame⟩, hEq ▸ .refl⟩
  · exact fun h hEq => ⟨[(at', value)], objects, .inl rfl, hEq ▸ .outright .refl (.through hSpans)⟩

theorem putRuntime_acts {value : Byte} (hAt : at' < 2) : Acts heap objects (Heap.putRuntime at' value) fun list =>
    list = [(at', [value])] ∨ (list = [] ∧ range heap.bytes at' 1 = [value]) := by
  refine Triple.get fun s hs => ?_
  subst hs
  split
  · rename_i hSame
    exact fun h hEq => ⟨[], objects, .inr ⟨rfl, by simp [range, hSame]⟩, hEq ▸ .refl⟩
  · exact fun h hEq => ⟨[(at', [value])], objects, .inl rfl, hEq ▸ .outright .refl (.runtime hAt)⟩

/-- The log never outgrows its capacity. -/
def Heap.Room (heap : Heap) : Prop :=
  ∀ start undo, heap.transaction = some (start, undo) → undo.length ≤ undo.limit

theorem Undo.length_preserve (undo : Undo) (at' : Nat) (value : List Byte) :
    (undo.preserve at' value).length = undo.length := by
  simp only [Undo.length, Undo.preserve, List.map_map]
  congr 1
  apply List.map_congr_left
  intro record _
  simp only [Function.comp_apply]
  split
  · rfl
  · simp

theorem Undo.length_cons_le {undo : Undo} {record : UndoRecord} (h : undo.length ≤ undo.limit)
    (hRoom : record.image.before.length + 6 ≤ undo.remaining) :
    ({ undo with records := record :: undo.records } : Undo).length ≤ undo.limit := by
  simp only [Undo.length, Undo.remaining, List.map_cons, List.sum_cons] at *
  omega

theorem Effect.room {label : Option Outright} {before after : Laid} (h : Effect label before after)
    (hRoom : before.1.Room) : after.1.Room := by
  cases h with
  | save running spans kept old filled room =>
      intro start undo hTxn
      injection hTxn with hTxn
      injection hTxn with _ hUndo
      rw [← hUndo]
      exact Undo.length_cons_le (hRoom _ _ running) (by simpa using room)
  | @through heap objects at' value info spans =>
      intro start undo hTxn
      simp only [Heap.written, Option.map_eq_some_iff] at hTxn
      obtain ⟨⟨first, inner⟩, hInner, hEq⟩ := hTxn
      injection hEq with hStart hUndo
      rw [← hUndo, Undo.length_preserve]
      exact hRoom _ _ hInner
  | pend idle => exact hRoom
  | write spans safe => exact hRoom
  | runtime reserved => exact hRoom
  | allocate fresh stops fits => exact hRoom

theorem Effects.room {made : List Outright} {before after : Laid} (h : Effects before made after)
    (hRoom : before.1.Room) : after.1.Room := by
  induction h with
  | refl => exact hRoom
  | quiet steps last ih => exact last.room ih
  | outright steps last ih => exact last.room ih

/-- Dropping the records that were added since gives the old log back. -/
theorem Undo.rewindTo_append (limit : Nat) (extra records : List UndoRecord) :
    Undo.rewindTo (⟨records, limit⟩ : Undo).length limit (extra ++ records) = records := by
  induction extra with
  | nil =>
      cases records with
      | nil => rfl
      | cons newest older => simp [Undo.rewindTo]
  | cons newest rest ih =>
      rw [List.cons_append, Undo.rewindTo, if_pos]
      · exact ih
      · simp only [Undo.length, List.map_cons, List.map_append, List.sum_cons, List.sum_append]
        omega

theorem Undo.rewind_append {undo : Undo} (h : undo.length ≤ undo.limit) (extra : List UndoRecord) :
    ({ undo with records := extra ++ undo.records } : Undo).rewind undo.remaining = undo := by
  have hTarget : undo.limit - undo.remaining = undo.length := by
    unfold Undo.remaining
    omega
  rw [Undo.rewind, hTarget]
  exact congrArg (fun records => (⟨records, undo.limit⟩ : Undo)) (Undo.rewindTo_append undo.limit extra undo.records)

theorem Heap.Extends.trans {first second third : Heap} (h : third.Extends second) (h' : second.Extends first) :
    third.Extends first := by
  unfold Heap.Extends at h h' ⊢
  cases hTxn : first.transaction with
  | none =>
      rw [hTxn] at h'
      obtain ⟨writes, hSecond⟩ := h'
      rw [hSecond] at h
      simp only at h
      exact h
  | some txn =>
      rw [hTxn] at h'
      obtain ⟨extra, hSecond⟩ := h'
      rw [hSecond] at h
      obtain ⟨newer, hThird⟩ := h
      exact ⟨newer ++ extra, by rw [List.append_assoc]; exact hThird⟩

theorem Heap.Extends.bytes {other : Heap} (h : heap.Extends other) : heap.bytes = other.bytes := by
  unfold Heap.Extends at h
  split at h
  · obtain ⟨writes, rfl⟩ := h
    rfl
  · obtain ⟨extra, rfl⟩ := h
    rfl

/-- Saving one span of a compound write, some records into the reservation. What saving
the span keeps, the reservation keeps, and a failure gives the first heap back. -/
theorem reserve_keeps {I : Heap → Prop} {start : Nat} {undo : Undo} (hTxn : heap.transaction = some (start, undo))
    (hRoom : undo.length ≤ undo.limit) {span : Nat × Nat × Nat} (hInfo : heap.info span.1 = .ok info)
    (hRemember : ∀ h, I h → Triple (fun s => s = h)
      (Heap.remember (span.1 + headerBytes + span.2.1) span.2.2 info) (fun _ s => s.Extends h ∧ I s) fun _ s => s = h) :
    Triple (fun h => h.Extends heap ∧ I h) (Heap.reserve undo.remaining span) (fun _ h => h.Extends heap ∧ I h)
      fun _ h => h = heap := by
  apply Triple.get
  intro s hs
  obtain ⟨hExtends, hKept⟩ := hs
  have hGrown := hExtends
  rw [Heap.Extends, hTxn] at hGrown
  obtain ⟨extra, hS⟩ := hGrown
  have hSame : s.info span.1 = .ok info := by
    rw [hS]
    exact hInfo
  apply Triple.readOnly_of_ok hSame
  apply Triple.capture_bind (hRemember s hKept)
  · exact fun _ => Triple.ret fun h hDone => ⟨hDone.1.trans hExtends, hDone.2⟩
  · intro e h hEq
    rw [hEq, hS]
    show { heap with transaction := some (start, Undo.rewind { undo with records := extra ++ undo.records } _) } = heap
    rw [Undo.rewind_append hRoom, ← hTxn]

/-- A compound reservation saves all its spans, or leaves the heap as it was. -/
theorem preparePayloadWrites_keeps {I : Heap → Prop} (hRoom : heap.Room) (hStart : I heap)
    {spans : List (Nat × Nat × Nat)} (hRemember : ∀ span ∈ spans, ∀ info, heap.info span.1 = .ok info →
      span.2.1 + span.2.2 ≤ info.payload → ∀ h, I h → Triple (fun s => s = h)
        (Heap.remember (span.1 + headerBytes + span.2.1) span.2.2 info) (fun _ s => s.Extends h ∧ I s) fun _ s => s = h) :
    Triple (fun h => h = heap) (Heap.preparePayloadWrites spans) (fun _ h => h.Extends heap ∧ I h) fun _ h => h = heap := by
  apply Triple.get
  intro s hs
  subst hs
  apply Triple.readOnly_bind
  · intro _ hChecked
    have hFits : ∀ span ∈ spans, ∃ info, s.info span.1 = .ok info ∧ span.2.1 + span.2.2 ≤ info.payload := by
      intro span hSpan
      have hCheck := forM_each hChecked hSpan
      unfold Heap.checkSpan at hCheck
      simp only [bind_ok, failIf_ok] at hCheck
      obtain ⟨info, hInfo, hFit⟩ := hCheck
      exact ⟨info, hInfo, Nat.le_of_not_lt hFit⟩
    have hFirst : ∀ h, h = s → h.Extends s ∧ I h := by
      intro h hEq
      rw [hEq]
      exact ⟨.refl s, hStart⟩
    unfold Heap.transactionRemaining
    cases hTxn : s.transaction with
    | none => exact hFirst
    | some txn =>
        obtain ⟨start, undo⟩ := txn
        have hLoop : Triple (fun h => h.Extends s ∧ I h) (spans.forM (Heap.reserve undo.remaining))
            (fun _ h => h.Extends s ∧ I h) fun _ h => h = s := by
          apply Triple.forM fun _ h => h.Extends s ∧ I h
          intro k hk
          obtain ⟨info, hInfo, hFit⟩ := hFits _ (List.getElem_mem hk)
          exact reserve_keeps hTxn (hRoom _ _ hTxn) hInfo (hRemember _ (List.getElem_mem hk) info hInfo hFit)
        exact Triple.conseq hLoop hFirst (fun _ _ h => h) fun _ _ h => h
  · exact fun _ _ h hEq => hEq

/-- On genuine objects the reservation is a sequence of effects. -/
theorem preparePayloadWrites_spec (hTiles : heap.Tiles objects) (hRoom : heap.Room) {spans : List (Nat × Nat × Nat)}
    (hGenuine : ∀ span ∈ spans, ∃ info, (span.1, info) ∈ objects) :
    Triple (fun h => h = heap) (Heap.preparePayloadWrites spans)
      (fun _ h => h.Extends heap ∧ Effects (heap, objects) [] (h, objects)) fun _ h => h = heap := by
  apply preparePayloadWrites_keeps (I := fun h => Effects (heap, objects) [] (h, objects)) hRoom .refl
  intro span hSpan info hInfo hFit h hSteps
  obtain ⟨found, hMem⟩ := hGenuine span hSpan
  have hSame : found = info := by
    have hFound := hTiles.info_mem hMem
    rw [hInfo] at hFound
    injection hFound with hFound
    exact hFound.symm
  have hSpans : Spans objects (span.1 + headerBytes + span.2.1) span.2.2 info :=
    ⟨_, hMem, hSame, by simp only; omega, by simp only; omega⟩
  apply Triple.conseq (remember_spec hSpans) (fun _ hEq => hEq) ?_ fun _ _ hEq => hEq
  exact fun _ s hDone => ⟨hDone.2.2, hSteps.trans hDone.1⟩

/-! The operations on genuine objects. -/

theorem Info.object_of_slot {info : Info} (h : info.isArray = false) : info.kind = .object := by
  simpa [Info.isArray] using h

theorem putWord_acts (hTiles : heap.Tiles objects) {o : Nat × Info} (ho : o ∈ objects) (index value : Nat) :
    Quiet heap objects (Heap.putWord o.1 index value) := by
  apply Triple.get
  intro s hs
  subst hs
  apply Triple.readOnly_bind
  · rintro ⟨at', info⟩ hSlot
    obtain ⟨-, -, -, hKind, hSpans⟩ := hTiles.slot_spans ho hSlot
    rw [Info.object_of_slot hKind] at hSpans
    exact putChanged_acts hSpans
  · exact fun _ _ => Quiet.unchanged

/-- The unconditional writes that were made: all that were due, or none because their
bytes were already there. -/
def Makes (heap : Heap) (due : List Outright) (list : List Outright) : Prop :=
  list = due ∨ (list = [] ∧ ∀ write ∈ due, range heap.bytes write.1 write.2.length = write.2)

/-- The due writes of a place that may not be found. -/
def dueAt (place : Except Error (Nat × Info)) (value : List Byte) : List Outright :=
  match place with
  | .ok (at', _) => [(at', value)]
  | .error _ => []

theorem putAt_acts {place : Except Error (Nat × Info)}
    (hSpans : ∀ at' info, place = .ok (at', info) → Spans objects at' value.length info) :
    Acts heap objects (readOnly place >>= fun p => Heap.putUnconditional p.1 value p.2)
      (Makes heap (dueAt place value)) := by
  cases hPlace : place with
  | error e => exact fun h hEq => ⟨[], objects, .inl rfl, hEq ▸ .refl⟩
  | ok p =>
      obtain ⟨at', info⟩ := p
      apply Triple.conseq (putUnconditional_acts (hSpans at' info hPlace)) (fun _ h => h)
      · rintro _ _ ⟨list, after, hMade, hSteps⟩
        refine ⟨list, after, hMade.imp_right fun hNone => ⟨hNone.1, fun write hWrite => ?_⟩, hSteps⟩
        rw [List.mem_singleton.1 hWrite]
        exact hNone.2
      · rintro _ _ ⟨list, after, hMade, hSteps⟩
        refine ⟨list, after, hMade.imp_right fun hNone => ⟨hNone.1, fun write hWrite => ?_⟩, hSteps⟩
        rw [List.mem_singleton.1 hWrite]
        exact hNone.2

theorem putWordUnconditional_acts (hTiles : heap.Tiles objects) {o : Nat × Info} (ho : o ∈ objects) (index value : Nat) :
    Acts heap objects (Heap.putWordUnconditional o.1 index value)
      (Makes heap (dueAt (heap.slot o.1 index false) (Heap.wordBytes value))) := by
  apply Triple.get
  intro s hs
  subst hs
  apply putAt_acts
  intro at' info hSlot
  obtain ⟨-, -, -, hKind, hSpans⟩ := hTiles.slot_spans ho hSlot
  rw [Info.object_of_slot hKind] at hSpans
  exact hSpans

theorem putInt_acts (hTiles : heap.Tiles objects) {o : Nat × Info} (ho : o ∈ objects) (index value : Nat) :
    Quiet heap objects (Heap.putInt o.1 index value) := by
  apply Triple.get
  intro s hs
  subst hs
  apply Triple.readOnly_bind
  · rintro ⟨at', info⟩ hSlot
    obtain ⟨rfl, hAt, -, hKind, -⟩ := hTiles.slot_spans ho hSlot
    apply Triple.get
    intro s' hs
    subst hs
    apply Triple.readOnly_bind
    · rintro ⟨high, other⟩ hNext
      obtain ⟨rfl, -, hIndex, -, -⟩ := hTiles.slot_spans ho hNext
      have hObject := Info.object_of_slot hKind
      refine putChanged_acts ⟨o, ho, rfl, by omega, ?_⟩
      rw [hAt, Info.payload, hObject]
      simp only [Heap.longBytes, Heap.wordBytes, List.length_append, List.length_cons, List.length_nil, Kind.elementSize]
      omega
    · exact fun _ _ => Quiet.unchanged
  · exact fun _ _ => Quiet.unchanged

theorem Heap.length_elementBytes {kind : Kind} (h : kind ≠ .int) (value : Nat) :
    (Heap.elementBytes kind value).length = kind.elementSize := by
  cases kind <;> first | rfl | exact absurd rfl h

theorem arrayPut_acts (hTiles : heap.Tiles objects) {o : Nat × Info} (ho : o ∈ objects) (index value : Nat) :
    Quiet heap objects (Heap.arrayPut o.1 index value) := by
  apply Triple.get
  intro s hs
  subst hs
  apply Triple.readOnly_bind
  · rintro ⟨at', info⟩ hSlot
    obtain ⟨-, -, -, -, hSpans⟩ := hTiles.slot_spans ho hSlot
    apply Triple.failIf_bind (fun _ => Quiet.unchanged)
    intro hKind
    rw [← Heap.length_elementBytes (fun hInt => hKind (.inl hInt)) value] at hSpans
    exact putChanged_acts hSpans
  · exact fun _ _ => Quiet.unchanged

theorem arrayPutReference_acts (hTiles : heap.Tiles objects) {o : Nat × Info} (ho : o ∈ objects) (index value : Nat) :
    Quiet heap objects (Heap.arrayPutReference o.1 index value) := by
  apply Triple.get
  intro s hs
  subst hs
  apply Triple.readOnly_bind
  · rintro ⟨at', info⟩ hSlot
    obtain ⟨-, -, -, -, hSpans⟩ := hTiles.slot_spans ho hSlot
    apply Triple.failIf_bind (fun _ => Quiet.unchanged)
    intro hKind
    rw [not_not.1 hKind] at hSpans
    exact putChanged_acts hSpans
  · exact fun _ _ => Quiet.unchanged

theorem arrayPutInt_acts (hTiles : heap.Tiles objects) {o : Nat × Info} (ho : o ∈ objects) (index value : Nat) :
    Quiet heap objects (Heap.arrayPutInt o.1 index value) := by
  apply Triple.get
  intro s hs
  subst hs
  apply Triple.readOnly_bind
  · rintro ⟨at', info⟩ hSlot
    obtain ⟨-, -, -, -, hSpans⟩ := hTiles.slot_spans ho hSlot
    apply Triple.failIf_bind (fun _ => Quiet.unchanged)
    intro hKind
    rw [not_not.1 hKind] at hSpans
    exact putChanged_acts hSpans
  · exact fun _ _ => Quiet.unchanged

theorem writeBytes_acts (hTiles : heap.Tiles objects) {o : Nat × Info} (ho : o ∈ objects) (offset : Nat)
    (value : List Byte) : Quiet heap objects (Heap.writeBytes o.1 offset value) := by
  apply Triple.get
  intro s hs
  subst hs
  apply Triple.readOnly_bind
  · rintro ⟨at', info⟩ hRange
    obtain ⟨-, -, -, -, hSpans⟩ := hTiles.byteRange_spans ho hRange
    exact putConditional_acts hSpans
  · exact fun _ _ => Quiet.unchanged

theorem Heap.length_byteSlice {source sourceOffset : Nat} (h : heap.byteSlice source sourceOffset length = .ok value) :
    value.length = length := by
  unfold Heap.byteSlice at h
  simp only [bind_ok, pure_ok] at h
  obtain ⟨_, _, rfl⟩ := h
  exact length_range ..

theorem copyBytes_acts (hTiles : heap.Tiles objects) {o : Nat × Info} (ho : o ∈ objects)
    (source sourceOffset destinationOffset length : Nat) :
    Quiet heap objects (Heap.copyBytes source sourceOffset o.1 destinationOffset length) := by
  apply Triple.get
  intro s hs
  subst hs
  apply Triple.readOnly_bind
  · intro value hValue
    apply Triple.readOnly_bind
    · rintro ⟨at', info⟩ hRange
      obtain ⟨-, -, -, -, hSpans⟩ := hTiles.byteRange_spans ho hRange
      rw [← Heap.length_byteSlice hValue] at hSpans
      exact putConditional_acts hSpans
    · exact fun _ _ => Quiet.unchanged
  · exact fun _ _ => Quiet.unchanged

theorem writeBytesUnconditional_acts (hTiles : heap.Tiles objects) {o : Nat × Info} (ho : o ∈ objects) (offset : Nat)
    (value : List Byte) : Acts heap objects (Heap.writeBytesUnconditional o.1 offset value)
      (Makes heap (dueAt (heap.byteRange o.1 offset value.length) value)) := by
  apply Triple.get
  intro s hs
  subst hs
  apply putAt_acts
  intro at' info hRange
  exact (hTiles.byteRange_spans ho hRange).2.2.2.2

theorem fillBytesUnconditional_acts (hTiles : heap.Tiles objects) {o : Nat × Info} (ho : o ∈ objects)
    (offset length : Nat) (value : Byte) : Acts heap objects (Heap.fillBytesUnconditional o.1 offset length value)
      (Makes heap (dueAt (heap.byteRange o.1 offset length) (List.replicate length value))) := by
  apply Triple.get
  intro s hs
  subst hs
  apply putAt_acts
  intro at' info hRange
  rw [List.length_replicate]
  exact (hTiles.byteRange_spans ho hRange).2.2.2.2

/-- The due writes of a copy, whose source may not be found. -/
def dueCopy (source : Except Error (List Byte)) (place : Except Error (Nat × Info)) : List Outright :=
  match source with
  | .ok value => dueAt place value
  | .error _ => []

theorem copyBytesUnconditional_acts (hTiles : heap.Tiles objects) {o : Nat × Info} (ho : o ∈ objects)
    (source sourceOffset destinationOffset length : Nat) :
    Acts heap objects (Heap.copyBytesUnconditional source sourceOffset o.1 destinationOffset length)
      (Makes heap (dueCopy (heap.byteSlice source sourceOffset length) (heap.byteRange o.1 destinationOffset length))) := by
  apply Triple.get
  intro s hs
  subst hs
  cases hValue : s.byteSlice source sourceOffset length with
  | error e => exact fun h hEq => ⟨[], objects, .inl rfl, hEq ▸ .refl⟩
  | ok value =>
      apply putAt_acts
      intro at' info hRange
      rw [Heap.length_byteSlice hValue]
      exact (hTiles.byteRange_spans ho hRange).2.2.2.2

end Operations

end MicroCard.Jcvm
