import MicroCard.Jcvm.Persistence
import MicroCard.Jcvm.Projection
import MicroCard.Library.Codec

/-! Windows of what is saved. The walk of a cursor follows the objects of the heap, and
each window it writes is a window of one memory: the committed one with the transient
payloads, the native fields that are reset and the global buffer cleared. -/
namespace MicroCard.Jcvm

open Bytes CrashTriple Checks Slices

section Clearing

variable {view : PersistentView} {o : Nat × Info} {f : Nat → Byte} {at' count : Nat}

theorem getElem?_range (f : Nat → Byte) (at' count i : Nat) :
    (range f at' count)[i]? = if i < count then some (f (at' + i)) else none := by
  by_cases h : i < count
  · rw [if_pos h, List.getElem?_eq_getElem (by rwa [length_range]), getElem_range]
  · rw [if_neg h, List.getElem?_eq_none (by rw [length_range]; omega)]

/-- A memory with zeroes from one address to another. -/
def wipe (f : Nat → Byte) (first last : Nat) : Nat → Byte := fun i => if first ≤ i ∧ i < last then 0 else f i

/-- Zeroes inside a window are zeroes of the memory. -/
theorem splice_range {lo hi : Nat} (hLow : at' ≤ lo) (hHigh : hi ≤ at' + count) (hSome : lo < hi) :
    splice (range f at' count) (lo - at') (List.replicate (hi - lo) 0) = range (wipe f lo hi) at' count := by
  apply List.ext_getElem?
  intro i
  rw [getElem?_splice (by rw [length_range, List.length_replicate]; omega), getElem?_range, getElem?_range,
    List.length_replicate, List.getElem?_replicate]
  by_cases hi' : i < count
  · rw [if_pos hi', if_pos hi', wipe]
    by_cases hIn : lo ≤ at' + i ∧ at' + i < hi
    · rw [if_neg (by omega), if_pos (by omega), if_pos (by omega), if_pos hIn]
    · rw [if_neg hIn]
      by_cases hBefore : i < lo - at'
      · rw [if_pos hBefore]
      · rw [if_neg hBefore, if_neg (by omega)]
  · rw [if_neg hi', if_neg hi', if_neg (by omega), if_neg (by omega)]

/-- Bytes of an object that are not saved: the payload of a transient array or of the
global buffer, and native fields that a reset clears. -/
def PersistentView.Clears (view : PersistentView) (o : Nat × Info) (i : Nat) : Prop :=
  (InPayload o i ∧ (o.1 = view.buffer ∨ o.2.clearEvent ≠ 0)) ∨
    ∃ first last, nativeVolatileRange o.2 = .ok (some (first, last)) ∧ o.1 + headerBytes + first ≤ i ∧
      i < o.1 + headerBytes + last

instance (view : PersistentView) (o : Nat × Info) (i : Nat) : Decidable (view.Clears o i) := by
  unfold PersistentView.Clears
  cases hRange : nativeVolatileRange o.2 with
  | error e => exact decidable_of_iff (InPayload o i ∧ (o.1 = view.buffer ∨ o.2.clearEvent ≠ 0)) (by simp)
  | ok range =>
      cases range with
      | none => exact decidable_of_iff (InPayload o i ∧ (o.1 = view.buffer ∨ o.2.clearEvent ≠ 0)) (by simp)
      | some range =>
          exact decidable_of_iff ((InPayload o i ∧ (o.1 = view.buffer ∨ o.2.clearEvent ≠ 0)) ∨
            (o.1 + headerBytes + range.1 ≤ i ∧ i < o.1 + headerBytes + range.2)) (by simp [Prod.ext_iff])

/-- What the walk asks of an object: its reference is a word, the global buffer is a byte
array, and native state is long enough. -/
structure PersistentView.Safe (view : PersistentView) (o : Nat × Info) : Prop where
  word : o.1 ≤ 65535
  buffer : o.1 = view.buffer → o.2.kind = .byte
  native : ∃ range, nativeVolatileRange o.2 = .ok range

/-- A memory with the bytes of some objects cleared. -/
def PersistentView.wiped (view : PersistentView) (objects : List (Nat × Info)) (f : Nat → Byte) : Nat → Byte :=
  fun i => if ∃ o ∈ objects, view.Clears o i then 0 else f i

theorem nativeVolatileRange_fits {info : Info} {first last : Nat}
    (h : nativeVolatileRange info = .ok (some (first, last))) : info.kind = .object ∧ last ≤ info.payload := by
  unfold nativeVolatileRange at h
  by_cases hKind : info.kind = .object
  · have hPayload : info.payload = info.length * 2 := by rw [Info.payload, hKind]; rfl
    rw [if_neg (not_not.2 hKind)] at h
    split at h
    · cases h
    · split at h
      · split at h
        · cases h
        · cases h
          have : ready = 3 := rfl
          exact ⟨hKind, by omega⟩
      · split at h
        · rename_i hOne
          cases h
          exact ⟨hKind, by omega⟩
        · cases h
  · rw [if_pos hKind] at h
    cases h

/-- Cleared bytes lie in the payload. -/
theorem PersistentView.Clears.inPayload {i : Nat} (h : view.Clears o i) : InPayload o i := by
  rcases h with ⟨hIn, -⟩ | ⟨first, last, hRange, hLow, hHigh⟩
  · exact hIn
  · have hFits := (nativeVolatileRange_fits hRange).2
    unfold InPayload
    omega

/-- The range that the walk clears holds the bytes that are not saved. -/
theorem PersistentView.clearRange_ok {size used : Nat} (hSafe : view.Safe o) (hRead : Readable size used o.1 o.2) :
    ∃ range, view.clearRange o.1 o.2 = .ok range ∧
      ∀ i, view.Clears o i ↔ ∃ first last, range = some (first, last) ∧ o.1 + headerBytes + first ≤ i ∧
        i < o.1 + headerBytes + last := by
  unfold clearRange
  by_cases hWhole : o.1 = view.buffer ∨ o.2.clearEvent ≠ 0
  · refine ⟨_, if_pos hWhole, fun i => ?_⟩
    have hNotObject : o.2.kind ≠ .object := by
      intro hObject
      rcases hWhole with hBuffer | hEvent
      · rw [hSafe.buffer hBuffer] at hObject
        cases hObject
      · exact hEvent (hRead.object hObject)
    constructor
    · intro hClears
      obtain ⟨hLow, hHigh⟩ := hClears.inPayload
      exact ⟨0, o.2.payload, rfl, hLow, hHigh⟩
    · rintro ⟨_, _, hEq, hLow, hHigh⟩
      cases hEq
      exact .inl ⟨⟨hLow, hHigh⟩, hWhole⟩
  · obtain ⟨range, hRange⟩ := hSafe.native
    refine ⟨range, (if_neg hWhole).trans hRange, fun i => ?_⟩
    constructor
    · rintro (⟨-, hBad⟩ | ⟨first, last, hEq, hIn⟩)
      · exact absurd hBad hWhole
      · rw [hRange] at hEq
        cases hEq
        exact ⟨first, last, rfl, hIn⟩
    · rintro ⟨first, last, rfl, hIn⟩
      exact .inr ⟨first, last, hRange, hIn⟩

/-- Clearing a range of a payload in a window clears it in the memory. -/
theorem PersistentView.clearWindow_ok {reference : Option (Nat × Nat)} {payload : Nat} {p : Nat → Prop}
    [DecidablePred p]
    (h : ∀ i, p i ↔ ∃ first last, reference = some (first, last) ∧ payload + first ≤ i ∧ i < payload + last) :
    PersistentView.clearWindow at' (at' + count) payload reference (range f at' count) =
      range (fun i => if p i then 0 else f i) at' count := by
  cases reference with
  | none =>
      apply range_congr
      intro i _
      rw [if_neg]
      rw [h]
      rintro ⟨_, _, hEq, -⟩
      cases hEq
  | some bounds =>
      obtain ⟨first, last⟩ := bounds
      have hIff : ∀ i, p i ↔ payload + first ≤ i ∧ i < payload + last := by
        intro i
        rw [h]
        constructor
        · rintro ⟨_, _, hEq, hIn⟩
          cases hEq
          exact hIn
        · exact fun hIn => ⟨first, last, rfl, hIn⟩
      show (if max at' (payload + first) < min (at' + count) (payload + last) then _ else _) = _
      by_cases hSome : max at' (payload + first) < min (at' + count) (payload + last)
      · rw [if_pos hSome, splice_range (by omega) (by omega) hSome]
        apply range_congr
        intro i hi
        simp only [wipe, hIff]
        by_cases hIn : payload + first ≤ at' + i ∧ at' + i < payload + last
        · rw [if_pos hIn, if_pos (by omega)]
        · rw [if_neg hIn, if_neg (by omega)]
      · rw [if_neg hSome]
        apply range_congr
        intro i hi
        rw [if_neg]
        rw [hIff]
        omega

end Clearing

section Walking

namespace PersistentView

variable {view : PersistentView} {objects : List (Nat × Info)} {at' count : Nat}

/-- The objects that tile the heap from an offset to its end. -/
abbrev TilesFrom (view : PersistentView) (at' : Nat) (objects : List (Nat × Info)) : Prop :=
  Tiling view.heap view.length view.heapBytes at' view.heapBytes objects

/-- What meeting the global buffer leaves of a cursor. -/
def noted (view : PersistentView) (cursor : PersistentCursor) : PersistentCursor :=
  if cursor.cursor = view.buffer then { cursor with foundBuffer := true } else cursor

theorem noteBuffer_ok {info : Info} {cursor : PersistentCursor} (h : cursor.cursor = view.buffer → info.kind = .byte) :
    view.noteBuffer info cursor = .ok (view.noted cursor) := by
  unfold noteBuffer noted
  by_cases hBuffer : cursor.cursor = view.buffer
  · rw [if_pos hBuffer, if_pos hBuffer, failIf, if_neg (not_not.2 (h hBuffer))]
    rfl
  · rw [if_neg hBuffer, if_neg hBuffer]
    rfl

@[simp] theorem noted_cursor (cursor : PersistentCursor) : (view.noted cursor).cursor = cursor.cursor := by
  unfold noted
  split <;> rfl

@[simp] theorem noted_lastEnd (cursor : PersistentCursor) : (view.noted cursor).lastEnd = cursor.lastEnd := by
  unfold noted
  split <;> rfl

theorem noted_found (cursor : PersistentCursor) :
    (view.noted cursor).foundBuffer = true ↔ cursor.foundBuffer = true ∨ cursor.cursor = view.buffer := by
  unfold noted
  split
  · rename_i h
    exact ⟨fun _ => .inr h, fun _ => rfl⟩
  · rename_i h
    exact ⟨.inl, fun hOr => hOr.resolve_right h⟩

/-- A cursor that has passed some of the objects: those end before its last window does,
the others are still tiled, and the buffer is found when it was passed. -/
structure Stands (view : PersistentView) (objects : List (Nat × Info)) (cursor : PersistentCursor) (stop : Nat) :
    Prop where
  split : ∃ passed todo, objects = passed ++ todo ∧ view.TilesFrom cursor.cursor todo ∧
    (∀ o ∈ passed, o.2.stop o.1 ≤ stop) ∧ (∀ o ∈ passed, o.1 = view.buffer → cursor.foundBuffer = true)
  found : cursor.foundBuffer = true → ∃ o ∈ objects, o.1 = view.buffer

theorem wiped_nil (f : Nat → Byte) : view.wiped [] f = f := by
  funext i
  rw [wiped, if_neg]
  rintro ⟨_, hNone, _⟩
  cases hNone

theorem wiped_cons (o : Nat × Info) (rest : List (Nat × Info)) (f : Nat → Byte) :
    view.wiped (o :: rest) f = view.wiped rest fun i => if view.Clears o i then 0 else f i := by
  funext i
  unfold wiped
  by_cases hLater : ∃ p ∈ rest, view.Clears p i
  · obtain ⟨p, hp, hClears⟩ := hLater
    rw [if_pos ⟨p, List.mem_cons_of_mem _ hp, hClears⟩, if_pos ⟨p, hp, hClears⟩]
  · rw [if_neg hLater]
    by_cases hFirst : view.Clears o i
    · simp only [if_pos hFirst]
      exact if_pos ⟨o, List.mem_cons_self, hFirst⟩
    · simp only [if_neg hFirst]
      apply if_neg
      rintro ⟨p, hp, hClears⟩
      rcases List.mem_cons.1 hp with rfl | hLaterMem
      · exact hFirst hClears
      · exact hLater ⟨p, hLaterMem, hClears⟩

/-- Objects that start behind a window have no part in it. -/
theorem wiped_behind {f : Nat → Byte} (h : ∀ o ∈ objects, at' + count ≤ o.1) :
    range (view.wiped objects f) at' count = range f at' count := by
  apply range_congr
  intro i hi
  rw [wiped, if_neg]
  rintro ⟨o, ho, hClears⟩
  have hStart := h o ho
  have hLow := hClears.inPayload.1
  omega

/-- Objects that end before a window have no part in it. -/
theorem wiped_before {passed todo : List (Nat × Info)} {f : Nat → Byte}
    (h : ∀ o ∈ passed, o.2.stop o.1 ≤ at') :
    range (view.wiped (passed ++ todo) f) at' count = range (view.wiped todo f) at' count := by
  apply range_congr
  intro i _
  unfold wiped
  by_cases hTodo : ∃ o ∈ todo, view.Clears o (at' + i)
  · obtain ⟨o, ho, hClears⟩ := hTodo
    rw [if_pos ⟨o, List.mem_append_right _ ho, hClears⟩, if_pos ⟨o, ho, hClears⟩]
  · rw [if_neg hTodo]
    apply if_neg
    rintro ⟨o, ho, hClears⟩
    rcases List.mem_append.1 ho with hPassed | hLater
    · have hEnd := h o hPassed
      have hStop := o.2.stop_ge o.1
      have hHigh := hClears.inPayload.2
      omega
    · exact hTodo ⟨o, hLater, hClears⟩

/-- What a walk does to a cursor: it passes objects that end within the window. -/
structure Walked (view : PersistentView) (objects : List (Nat × Info)) (before after : PersistentCursor) (stop : Nat) :
    Prop where
  split : ∃ passed todo, objects = passed ++ todo ∧ view.TilesFrom after.cursor todo ∧
    (∀ o ∈ passed, o.2.stop o.1 ≤ stop) ∧ (∀ o ∈ passed, o.1 = view.buffer → after.foundBuffer = true)
  lastEnd : after.lastEnd = before.lastEnd
  kept : before.foundBuffer = true → after.foundBuffer = true
  found : after.foundBuffer = true → before.foundBuffer = true ∨ ∃ o ∈ objects, o.1 = view.buffer

section Step

variable {cursor : PersistentCursor} {info : Info} {todo : List (Nat × Info)} {stop : Nat}

/-- The walk stops at an object and comes back to it. -/
theorem Walked.halt (hTiling : view.TilesFrom cursor.cursor ((cursor.cursor, info) :: todo)) :
    Walked view ((cursor.cursor, info) :: todo) cursor (view.noted cursor) stop where
  split := ⟨[], _, rfl, by rwa [noted_cursor], fun _ h => (nomatch h), fun _ h => (nomatch h)⟩
  lastEnd := noted_lastEnd cursor
  kept := fun h => (noted_found cursor).2 (.inl h)
  found := by
    intro h
    apply ((noted_found cursor).1 h).imp_right
    intro hBuffer
    exact ⟨_, List.mem_cons_self, hBuffer⟩

/-- The walk passes an object. -/
theorem Walked.pass {after : PersistentCursor} (hStop : info.stop cursor.cursor ≤ stop)
    (h : Walked view todo { view.noted cursor with cursor := info.stop cursor.cursor } after stop) :
    Walked view ((cursor.cursor, info) :: todo) cursor after stop := by
  obtain ⟨passed, rest, rfl, hRest, hEnds, hBuffer⟩ := h.split
  refine ⟨⟨(cursor.cursor, info) :: passed, rest, rfl, hRest, ?_, ?_⟩, ?_, ?_, ?_⟩
  · intro o ho
    rcases List.mem_cons.1 ho with rfl | hLater
    · exact hStop
    · exact hEnds o hLater
  · intro o ho hHere
    rcases List.mem_cons.1 ho with rfl | hLater
    · exact h.kept ((noted_found cursor).2 (.inr hHere))
    · exact hBuffer o hLater hHere
  · exact h.lastEnd.trans (noted_lastEnd cursor)
  · exact fun hFound => h.kept ((noted_found cursor).2 (.inl hFound))
  · intro hFound
    rcases h.found hFound with hBefore | ⟨o, ho, hHere⟩
    · apply ((noted_found cursor).1 hBefore).imp_right
      intro hMet
      exact ⟨_, List.mem_cons_self, hMet⟩
    · exact .inr ⟨o, List.mem_cons_of_mem _ ho, hHere⟩

/-- One step of the walk, over an object that can be saved. -/
theorem saveObjects_step {range : Option (Nat × Nat)} {output : List Byte} (fuel : Nat)
    (hLess : cursor.cursor < view.heapBytes)
    (hRead : Info.read view.heap view.length view.heapBytes cursor.cursor = .ok info)
    (hSafe : view.Safe (cursor.cursor, info)) (hRange : view.clearRange cursor.cursor info = .ok range) :
    view.saveObjects at' stop (fuel + 1) (cursor, output) =
      if info.stop cursor.cursor ≤ at' then
        view.saveObjects at' stop fuel ({ view.noted cursor with cursor := info.stop cursor.cursor }, output)
      else if stop ≤ cursor.cursor then .ok () (view.noted cursor, output)
      else if stop < info.stop cursor.cursor then
        .ok () (view.noted cursor, clearWindow at' stop (cursor.cursor + headerBytes) range output)
      else
        view.saveObjects at' stop fuel ({ view.noted cursor with cursor := info.stop cursor.cursor },
          clearWindow at' stop (cursor.cursor + headerBytes) range output) := by
  have hWord : ¬65535 < cursor.cursor := Nat.not_lt.2 hSafe.word
  have hNoted : view.noteBuffer info cursor = .ok (view.noted cursor) := noteBuffer_ok hSafe.buffer
  rw [saveObjects]
  simp only [Bind.bind, EStateM.bind, get, getThe, MonadStateOf.get, EStateM.get, if_pos hLess, failIf, if_neg hWord,
    pure, EStateM.pure, readOnly, hRead, hNoted, hRange, set, MonadStateOf.set, EStateM.set]
  by_cases hBefore : info.stop cursor.cursor ≤ at'
  · simp only [if_pos hBefore]
    rfl
  · simp only [if_neg hBefore]
    by_cases hBehind : stop ≤ cursor.cursor
    · simp only [if_pos hBehind]
      rfl
    · simp only [if_neg hBehind]
      by_cases hOver : stop < info.stop cursor.cursor
      · simp only [if_pos hOver]
        rfl
      · simp only [if_neg hOver]
        rfl

end Step

/-- The walk clears in the window what the objects clear, and never runs out of fuel. -/
theorem saveObjects_ok {cursor : PersistentCursor} {f : Nat → Byte} {fuel : Nat}
    (hTiling : view.TilesFrom cursor.cursor objects) (hSafe : ∀ o ∈ objects, view.Safe o)
    (hFuel : view.heapBytes < cursor.cursor + fuel) :
    ∃ after, view.saveObjects at' (at' + count) fuel (cursor, range f at' count) =
        .ok () (after, range (view.wiped objects f) at' count) ∧ Walked view objects cursor after (at' + count) := by
  induction objects generalizing cursor f fuel with
  | nil =>
      have hEnd := hTiling.nil_eq
      cases fuel with
      | zero => omega
      | succ fuel =>
          refine ⟨cursor, ?_, ⟨[], [], rfl, hTiling, fun _ h => (nomatch h), fun _ h => (nomatch h)⟩, rfl, fun h => h,
            .inl⟩
          rw [wiped_nil]
          simp [saveObjects, hEnd, Bind.bind, EStateM.bind, get, getThe, MonadStateOf.get, EStateM.get, pure,
            EStateM.pure]
  | cons first rest ih =>
      obtain ⟨reference, info⟩ := first
      obtain ⟨hHere, read, tail⟩ := hTiling.uncons
      simp only at hHere read tail
      subst hHere
      have hStop := info.stop_ge cursor.cursor
      have hEnd := tail.le
      have hHeader : 0 < headerBytes := by decide
      cases fuel with
      | zero => omega
      | succ fuel =>
          have hFirst := hSafe _ List.mem_cons_self
          have hRest : ∀ o ∈ rest, view.Safe o := fun o ho => hSafe o (List.mem_cons_of_mem _ ho)
          obtain ⟨range', hRange, hClears⟩ := view.clearRange_ok hFirst (Info.read_readable read)
          let next : PersistentCursor := { view.noted cursor with cursor := info.stop cursor.cursor }
          have hNextFuel : view.heapBytes < next.cursor + fuel := by
            show view.heapBytes < info.stop cursor.cursor + fuel
            omega
          rw [saveObjects_step fuel (by omega) read hFirst hRange]
          by_cases hBefore : info.stop cursor.cursor ≤ at'
          · obtain ⟨after, hRun, hWalked⟩ := @ih next f fuel tail hRest hNextFuel
            have hPassed : ∀ o ∈ [(cursor.cursor, info)], o.2.stop o.1 ≤ at' := by
              intro o ho
              rw [List.mem_singleton.1 ho]
              exact hBefore
            refine ⟨after, ?_, hWalked.pass (by omega)⟩
            rw [if_pos hBefore, ← List.singleton_append, wiped_before hPassed]
            exact hRun
          rw [if_neg hBefore]
          by_cases hBehind : at' + count ≤ cursor.cursor
          · have hNone : ∀ o ∈ (cursor.cursor, info) :: rest, at' + count ≤ o.1 := fun o ho =>
              Nat.le_trans hBehind (hTiling.mem ho).2.1
            refine ⟨view.noted cursor, ?_, Walked.halt hTiling⟩
            rw [if_pos hBehind, wiped_behind hNone]
          rw [if_neg hBehind, clearWindow_ok hClears, wiped_cons]
          by_cases hOver : at' + count < info.stop cursor.cursor
          · have hNone : ∀ o ∈ rest, at' + count ≤ o.1 := by
              intro o ho
              have hStart := (tail.mem ho).2.1
              omega
            refine ⟨view.noted cursor, ?_, Walked.halt hTiling⟩
            rw [if_pos hOver, wiped_behind hNone]
          · obtain ⟨after, hRun, hWalked⟩ := @ih next _ fuel tail hRest hNextFuel
            refine ⟨after, ?_, hWalked.pass (by omega)⟩
            rw [if_neg hOver]
            exact hRun

theorem finishObjects_ok {cursor : PersistentCursor} {fuel : Nat} (hTiling : view.TilesFrom cursor.cursor objects)
    (hSafe : ∀ o ∈ objects, view.Safe o) (hFuel : view.heapBytes < cursor.cursor + fuel) :
    ∃ after, view.finishObjects fuel cursor = .ok after ∧ after.cursor = view.heapBytes ∧
      (after.foundBuffer = true ↔ cursor.foundBuffer = true ∨ ∃ o ∈ objects, o.1 = view.buffer) := by
  induction objects generalizing cursor fuel with
  | nil =>
      have hEnd := hTiling.nil_eq
      cases fuel with
      | zero => omega
      | succ fuel =>
          refine ⟨cursor, ?_, hEnd, by simp⟩
          rw [finishObjects, if_neg (by omega)]
  | cons first rest ih =>
      obtain ⟨reference, info⟩ := first
      obtain ⟨hHere, read, tail⟩ := hTiling.uncons
      simp only at hHere read tail
      subst hHere
      have hStop := info.stop_ge cursor.cursor
      have hEnd := tail.le
      have hHeader : 0 < headerBytes := by decide
      have hFirst := hSafe _ List.mem_cons_self
      cases fuel with
      | zero => omega
      | succ fuel =>
          obtain ⟨after, hRun, hAfter, hFound⟩ :=
            @ih { view.noted cursor with cursor := info.stop cursor.cursor } fuel tail
              (fun o ho => hSafe o (List.mem_cons_of_mem _ ho)) (by
                show view.heapBytes < info.stop cursor.cursor + fuel
                omega)
          refine ⟨after, ?_, hAfter, ?_⟩
          · rw [finishObjects, if_pos (by omega)]
            simp only [bind_ok, failIf_ok]
            exact ⟨(), Nat.not_lt.2 hFirst.word, info, read, _, noteBuffer_ok hFirst.buffer, hRun⟩
          · simp only [hFound, noted_found, List.mem_cons, exists_eq_or_imp]
            tauto

/-- A cursor that has passed the objects finishes when the global buffer is one of them. -/
theorem finish_ok {cursor : PersistentCursor} {stop : Nat} (hStands : view.Stands objects cursor stop)
    (hSafe : ∀ o ∈ objects, view.Safe o) (hBuffer : ∃ o ∈ objects, o.1 = view.buffer) :
    view.finish cursor = .ok () := by
  obtain ⟨passed, todo, rfl, hTiling, -, hPassed⟩ := hStands.split
  obtain ⟨after, hRun, hEnd, hFound⟩ := finishObjects_ok hTiling
    (fun o ho => hSafe o (List.mem_append_right _ ho)) (by omega : view.heapBytes < _ + (view.heapBytes + 1))
  have hMet : after.foundBuffer = true := by
    obtain ⟨o, ho, hHere⟩ := hBuffer
    rw [hFound]
    rcases List.mem_append.1 ho with hBefore | hLater
    · exact .inl (hPassed o hBefore hHere)
    · exact .inr ⟨o, hLater, hHere⟩
  unfold finish
  simp only [bind_ok, failIf_ok, not_or, not_not]
  exact ⟨after, hRun, hEnd, by rw [hMet]; decide⟩

/-- The committed contents of the heap that is saved. -/
def committed (view : PersistentView) : Nat → Byte :=
  match view.projection with
  | none => view.heap
  | some heap => heap.committed

/-- The projection of the view can be read. -/
def Projects (view : PersistentView) : Prop := ∀ heap, view.projection = some heap → heap.Whole

theorem copyCommitted_ok {output : List Byte} (hProjects : view.Projects)
    (hFits : at' + output.length ≤ view.heapBytes) :
    view.copyCommitted at' output = .ok () (range view.committed at' output.length) := by
  unfold heapBytes at hFits
  unfold copyCommitted committed
  cases hProjection : view.projection with
  | none =>
      rw [hProjection] at hFits
      simp only [Codec.bind_ok, Codec.get_ok, Codec.failIf_ok, Codec.set_ok]
      exact ⟨_, _, ⟨rfl, rfl⟩, (), _, ⟨Nat.not_lt.2 hFits, rfl⟩, rfl⟩
  | some heap =>
      rw [hProjection] at hFits
      exact Heap.projectHeapRange_ok (hProjects heap hProjection) hFits

theorem overWindow_ok {program : EStateM Error (List Byte) Unit} {cursor after : PersistentCursor}
    {output output' : List Byte} :
    overWindow program (cursor, output) = .ok () (after, output') ↔
      program output = .ok () output' ∧ after = cursor := by
  unfold overWindow
  cases program output with
  | ok u o => simp [Prod.ext_iff, eq_comm, and_comm]
  | error e o => simp

/-- A window behind the last one is saved: it holds the committed bytes with those cleared
that are not saved, whatever it held before. -/
theorem saveNext_ok {cursor : PersistentCursor} (hStands : view.Stands objects cursor cursor.lastEnd)
    (hSafe : ∀ o ∈ objects, view.Safe o) (hProjects : view.Projects) (hOrder : cursor.lastEnd ≤ at')
    (hFits : at' + count ≤ view.heapBytes) :
    ∃ after, (∀ output, output.length = count → view.saveNext at' (cursor, output) =
        .ok () (after, range (view.wiped objects view.committed) at' count)) ∧
      view.Stands objects after after.lastEnd ∧ after.lastEnd = at' + count := by
  obtain ⟨passed, todo, rfl, hTiling, hEnds, hPassed⟩ := hStands.split
  obtain ⟨walked, hRun, hWalked⟩ := @saveObjects_ok view _ at' count _ view.committed _ hTiling
    (fun o ho => hSafe o (List.mem_append_right _ ho))
    (by omega : view.heapBytes < cursor.cursor + (view.heapBytes + 1))
  obtain ⟨more, rest, rfl, hRest, hMore, hMet⟩ := hWalked.split
  let after : PersistentCursor := { walked with lastEnd := at' + count }
  refine ⟨after, ?_, ⟨⟨passed ++ more, rest, (List.append_assoc ..).symm, hRest, ?_, ?_⟩, ?_⟩, rfl⟩
  · rintro output rfl
    have hWindow : view.saveWindow at' (cursor, output) =
        .ok () (after, range (view.wiped (passed ++ (more ++ rest)) view.committed) at' output.length) := by
      rw [wiped_before fun o ho => Nat.le_trans (hEnds o ho) hOrder]
      simp only [saveWindow, Codec.bind_ok, Codec.get_ok, Codec.failIf_ok, not_lt]
      refine ⟨_, _, ⟨rfl, rfl⟩, (), _, ⟨hFits, rfl⟩, (), _, ⟨hOrder, rfl⟩, (), _,
        overWindow_ok.2 ⟨copyCommitted_ok hProjects hFits, rfl⟩, (), _, hRun, rfl⟩
    simp only [saveNext, Codec.bind_ok, capture, hWindow]
    exact ⟨_, _, rfl, rfl⟩
  · intro o ho
    show o.2.stop o.1 ≤ at' + count
    rcases List.mem_append.1 ho with hBefore | hHere
    · exact Nat.le_trans (hEnds o hBefore) (by omega)
    · exact hMore o hHere
  · intro o ho hBuffer
    rcases List.mem_append.1 ho with hBefore | hHere
    · exact hWalked.kept (hPassed o hBefore hBuffer)
    · exact hMet o hHere hBuffer
  · intro hFound
    rcases hWalked.found hFound with hEarlier | ⟨o, ho, hBuffer⟩
    · exact hStands.found hEarlier
    · exact ⟨o, List.mem_append_right _ ho, hBuffer⟩

/-- An object that the walk read could be saved. -/
theorem safe_of_read {cursor noted : PersistentCursor} {info : Info} {range : Option (Nat × Nat)}
    (hWord : ¬65535 < cursor.cursor)
    (hRead : Info.read view.heap view.length view.heapBytes cursor.cursor = .ok info)
    (hNoted : view.noteBuffer info cursor = .ok noted) (hRange : view.clearRange cursor.cursor info = .ok range) :
    view.Safe (cursor.cursor, info) := by
  have hBuffer : cursor.cursor = view.buffer → info.kind = .byte := by
    intro hHere
    unfold noteBuffer at hNoted
    rw [if_pos hHere] at hNoted
    simp only [bind_ok, failIf_ok, not_not] at hNoted
    exact hNoted.choose_spec.1
  refine ⟨Nat.le_of_not_lt hWord, hBuffer, ?_⟩
  unfold clearRange at hRange
  split at hRange
  · rename_i hWhole
    have hNotObject : info.kind ≠ .object := by
      intro hObject
      rcases hWhole with hHere | hEvent
      · rw [hBuffer hHere] at hObject
        cases hObject
      · exact hEvent ((Info.read_readable hRead).object hObject)
    exact ⟨none, if_pos hNotObject⟩
  · exact ⟨range, hRange⟩

/-- A walk over the whole heap met objects that tile it and can all be saved. -/
theorem saveObjects_tiles (hEven : view.heapBytes % 2 = 0) {cursor after : PersistentCursor}
    {output output' : List Byte} {fuel : Nat} (hWithin : cursor.cursor ≤ view.heapBytes)
    (hRun : view.saveObjects 0 view.heapBytes fuel (cursor, output) = .ok () (after, output')) :
    ∃ objects, view.TilesFrom cursor.cursor objects ∧ (∀ o ∈ objects, view.Safe o) ∧
      after.cursor = view.heapBytes ∧
      (after.foundBuffer = true → cursor.foundBuffer = true ∨ ∃ o ∈ objects, o.1 = view.buffer) := by
  induction fuel generalizing cursor output with
  | zero =>
      rw [saveObjects] at hRun
      exact (Codec.throw_ok.1 hRun).elim
  | succ fuel ih =>
      simp only [saveObjects, Codec.bind_ok, Codec.get_ok] at hRun
      obtain ⟨_, _, ⟨rfl, rfl⟩, hRun⟩ := hRun
      split at hRun
      · rename_i hLess
        simp only at hLess
        simp only [Codec.bind_ok, Codec.failIf_ok, Codec.readOnly_ok, Codec.set_ok] at hRun
        obtain ⟨_, _, ⟨hWord, rfl⟩, info, _, ⟨hRead, rfl⟩, noted', _, ⟨hNoted, rfl⟩, _, _, rfl, hRun⟩ := hRun
        have hReadable := Info.read_readable hRead
        have hFits := hReadable.fits
        have hStop := info.stop_ge cursor.cursor
        have hHeader : 0 < headerBytes := by decide
        have hInside : info.stop cursor.cursor ≤ view.heapBytes := by
          unfold Info.stop
          omega
        rw [if_neg (by omega), if_neg (by omega)] at hRun
        simp only [Codec.bind_ok, Codec.readOnly_ok, Codec.set_ok] at hRun
        obtain ⟨range, _, ⟨hRange, rfl⟩, _, _, rfl, hRun⟩ := hRun
        rw [if_neg (by omega)] at hRun
        simp only [Codec.bind_ok, Codec.set_ok] at hRun
        obtain ⟨_, _, rfl, hRun⟩ := hRun
        have hSafe := safe_of_read hWord hRead hNoted hRange
        rw [noteBuffer_ok hSafe.buffer] at hNoted
        cases hNoted
        obtain ⟨objects, hTiling, hAll, hAfter, hFound⟩ := ih hInside hRun
        refine ⟨(cursor.cursor, info) :: objects, .cons hRead hTiling, ?_, hAfter, ?_⟩
        · intro o ho
          rcases List.mem_cons.1 ho with rfl | hLater
          · exact hSafe
          · exact hAll o hLater
        · intro hMet
          rcases hFound hMet with hBefore | ⟨o, ho, hHere⟩
          · apply ((noted_found cursor).1 hBefore).imp_right
            intro hHere
            exact ⟨_, List.mem_cons_self, hHere⟩
          · exact .inr ⟨o, List.mem_cons_of_mem _ ho, hHere⟩
      · rename_i hEnd
        obtain ⟨-, hSame⟩ := Codec.pure_ok.1 hRun
        injection hSame with hSame
        have hAt : cursor.cursor = view.heapBytes := by
          simp only at hEnd
          omega
        rw [← hSame, hAt]
        exact ⟨[], .nil _, fun _ h => (nomatch h), rfl, .inl⟩

theorem zeroOnError_ok {α : Type} {program : EStateM Error (List Byte) α} {output output' : List Byte} {a : α} :
    zeroOnError program output = .ok a output' ↔ program output = .ok a output' := by
  simp only [zeroOnError, Codec.bind_ok, Codec.capture_ok]
  constructor
  · rintro ⟨_, _, ⟨_, rfl, hRun⟩ | ⟨_, rfl, -⟩, hRest⟩
    · obtain ⟨rfl, rfl⟩ := Codec.pure_ok.1 hRest
      exact hRun
    · simp only [Codec.bind_ok, Codec.throw_ok, and_false, exists_false] at hRest
  · intro hRun
    refine ⟨_, _, .inl ⟨_, rfl, hRun⟩, ?_⟩
    rfl

/-- A window that was saved was walked. -/
theorem saveNext_walked {cursor after : PersistentCursor} {output output' : List Byte}
    (hRun : view.saveNext at' (cursor, output) = .ok () (after, output')) :
    at' + output.length ≤ view.heapBytes ∧
      ∃ walked copied, view.copyCommitted at' output = .ok () copied ∧
        view.saveObjects at' (at' + output.length) (view.heapBytes + 1) (cursor, copied) = .ok () (walked, output') ∧
          after = { walked with lastEnd := at' + output.length } := by
  have hWindow : view.saveWindow at' (cursor, output) = .ok () (after, output') := by
    simp only [saveNext, Codec.bind_ok, Codec.capture_ok] at hRun
    obtain ⟨_, _, ⟨_, rfl, hWindow⟩ | ⟨_, rfl, -⟩, hRest⟩ := hRun
    · obtain ⟨-, rfl⟩ := Codec.pure_ok.1 hRest
      exact hWindow
    · simp only [Codec.bind_ok, Codec.throw_ok, and_false, exists_false] at hRest
  simp only [saveWindow, Codec.bind_ok, Codec.get_ok, Codec.failIf_ok, not_lt] at hWindow
  obtain ⟨_, _, ⟨rfl, rfl⟩, _, _, ⟨hFits, rfl⟩, _, _, ⟨-, rfl⟩, _, ⟨middle, copied⟩, hCopy, _, ⟨walked, saved⟩, hWalk, hLast⟩ :=
    hWindow
  obtain ⟨hCopied, rfl⟩ := overWindow_ok.1 hCopy
  cases hLast
  exact ⟨hFits, walked, copied, hCopied, hWalk, rfl⟩

theorem projects_of_copy {output output' : List Byte} (hCopy : view.copyCommitted at' output = .ok () output') :
    view.Projects := by
  intro heap hProjection
  unfold copyCommitted at hCopy
  rw [hProjection] at hCopy
  exact Heap.whole_of_projects hCopy

/-- What can be saved: an even heap of objects that can each be saved, the global buffer
among them, with a projection that can be read. -/
structure Savable (view : PersistentView) (objects : List (Nat × Info)) : Prop where
  header : 2 ≤ view.heapBytes
  even : view.heapBytes % 2 = 0
  tiles : view.TilesFrom 2 objects
  safe : ∀ o ∈ objects, view.Safe o
  buffer : ∃ o ∈ objects, o.1 = view.buffer
  projects : view.Projects

theorem Savable.cursor_ok (h : view.Savable objects) : view.cursor = .ok ⟨2, 0, false⟩ := by
  unfold PersistentView.cursor
  have hHeader := h.header
  have hEven := h.even
  simp only [bind_ok, failIf_ok]
  exact ⟨(), by omega, rfl⟩

/-- A fresh cursor has passed nothing. -/
theorem Savable.stands (h : view.Savable objects) : view.Stands objects ⟨2, 0, false⟩ 0 :=
  ⟨⟨[], objects, rfl, h.tiles, fun _ hNone => (nomatch hNone), fun _ hNone => (nomatch hNone)⟩,
    fun hFound => (nomatch hFound)⟩

/-- A window is saved by itself with a cursor of its own. -/
theorem saveRange_ok {output saved : List Byte} {u : Unit} :
    view.saveRange at' output = .ok u saved ↔
      ∃ first after, view.cursor = .ok first ∧ view.saveNext at' (first, output) = .ok () (after, saved) ∧
        view.finish after = .ok () := by
  simp only [saveRange, zeroOnError_ok, Codec.bind_ok, Codec.readOnly_ok, Codec.get_ok]
  constructor
  · rintro ⟨first, _, ⟨hFirst, rfl⟩, _, _, ⟨hOutput, -⟩, hRun⟩
    rw [hOutput] at hRun
    cases hNext : view.saveNext at' (first, output) with
    | ok u s =>
        rw [hNext] at hRun
        simp only [Codec.bind_ok, Codec.set_ok, Codec.readOnly_ok] at hRun
        obtain ⟨_, _, rfl, hFinish, rfl⟩ := hRun
        exact ⟨first, s.1, hFirst, hNext, hFinish⟩
    | error e s =>
        rw [hNext] at hRun
        simp only [Codec.bind_ok, Codec.throw_ok, and_false, exists_false] at hRun
  · rintro ⟨first, after, hFirst, hNext, hFinish⟩
    refine ⟨first, _, ⟨hFirst, rfl⟩, _, _, ⟨rfl, rfl⟩, ?_⟩
    rw [hNext]
    simp only [Codec.bind_ok, Codec.set_ok, Codec.readOnly_ok]
    exact ⟨⟨⟩, _, rfl, hFinish, rfl⟩

/-- A heap that was saved whole is savable. -/
theorem savable_of_saved {output saved : List Byte} {first after : PersistentCursor}
    (hLength : output.length = view.heapBytes) (hFirst : view.cursor = .ok first)
    (hNext : view.saveNext 0 (first, output) = .ok () (after, saved)) (hFinish : view.finish after = .ok ()) :
    ∃ objects, view.Savable objects := by
  unfold PersistentView.cursor at hFirst
  simp only [bind_ok, failIf_ok, pure_ok, not_or, not_not] at hFirst
  obtain ⟨-, ⟨hHeader, hEven⟩, rfl⟩ := hFirst
  obtain ⟨-, walked, copied, hCopy, hWalk, rfl⟩ := saveNext_walked hNext
  rw [Nat.zero_add, hLength] at hWalk
  obtain ⟨objects, hTiles, hSafe, hEnd, hFound⟩ := saveObjects_tiles hEven (Nat.le_of_not_lt hHeader) hWalk
  refine ⟨objects, Nat.le_of_not_lt hHeader, hEven, hTiles, hSafe, ?_, projects_of_copy hCopy⟩
  unfold finish at hFinish
  rw [finishObjects, if_neg (by simp only [hEnd]; omega)] at hFinish
  simp only [bind_ok, failIf_ok, Except.ok.injEq, not_or] at hFinish
  obtain ⟨_, rfl, -, hMet⟩ := hFinish
  have hMet' : walked.foundBuffer = true := by simpa using hMet
  exact (hFound hMet').resolve_left fun hNever => (by cases hNever)

/-- Saving the whole heap succeeds exactly on a savable one, and gives its committed bytes
with those cleared that are not saved. -/
theorem saveInto_ok {output saved : List Byte} {state : PersistentState} :
    view.saveInto output = .ok state saved ↔
      output.length = view.heapBytes ∧ ∃ objects, view.Savable objects ∧
        saved = range (view.wiped objects view.committed) 0 view.heapBytes ∧
          state = ⟨saved, view.statics, view.instance'⟩ := by
  simp only [saveInto, Codec.bind_ok, Codec.get_ok]
  constructor
  · rintro ⟨_, _, ⟨hOutput, hSame⟩, hRun⟩
    rw [hOutput, hSame] at hRun
    by_cases hLength : output.length = view.heapBytes
    · rw [if_neg (not_not.2 hLength)] at hRun
      simp only [Codec.bind_ok, Codec.get_ok, Codec.pure_ok, saveRange_ok] at hRun
      obtain ⟨_, _, ⟨first, after, hFirst, hNext, hFinish⟩, _, _, ⟨hState, hSaved⟩, hResult, hEnd⟩ := hRun
      rw [hSaved] at hEnd
      rw [hState, hEnd] at hResult
      rw [hEnd] at hNext
      obtain ⟨objects, hSavable⟩ := savable_of_saved hLength hFirst hNext hFinish
      obtain ⟨again, hAgain, -⟩ :=
        saveNext_ok hSavable.stands hSavable.safe hSavable.projects (Nat.zero_le 0) (Nat.zero_add view.heapBytes).le
      rw [hSavable.cursor_ok] at hFirst
      cases hFirst
      rw [hAgain output hLength] at hNext
      injection hNext with _ hNext
      injection hNext with _ hNext
      exact ⟨hLength, objects, hSavable, hNext.symm, hResult.symm⟩
    · rw [if_pos hLength] at hRun
      simp only [Codec.bind_ok, Codec.throw_ok, and_false, exists_false, false_and] at hRun
  · rintro ⟨hLength, objects, hSavable, rfl, rfl⟩
    obtain ⟨after, hNext, hStands, -⟩ :=
      saveNext_ok hSavable.stands hSavable.safe hSavable.projects (Nat.zero_le 0) (Nat.zero_add view.heapBytes).le
    have hFinish := finish_ok hStands hSavable.safe hSavable.buffer
    refine ⟨output, output, ⟨rfl, rfl⟩, ?_⟩
    rw [if_neg (not_not.2 hLength)]
    simp only [Codec.bind_ok, Codec.get_ok, Codec.pure_ok, saveRange_ok]
    exact ⟨(), _, ⟨_, after, hSavable.cursor_ok, hNext output hLength, hFinish⟩, _, _, ⟨rfl, rfl⟩, rfl, rfl⟩

/-- Windows that come one behind the other, up to an end. -/
def Increasing (total : Nat) : Nat → List (Nat × List Byte) → Prop
  | _, [] => True
  | from', (at', output) :: windows =>
      from' ≤ at' ∧ at' + output.length ≤ total ∧ Increasing total (at' + output.length) windows

theorem Increasing.within {total start : Nat} {windows : List (Nat × List Byte)} (h : Increasing total start windows)
    {w : Nat × List Byte} (hw : w ∈ windows) : w.1 + w.2.length ≤ total := by
  induction windows generalizing start with
  | nil => cases hw
  | cons first rest ih =>
      rcases List.mem_cons.1 hw with rfl | hLater
      · exact h.2.1
      · exact ih h.2.2 hLater

/-- Whatever windows a cursor writes, each holds its part of one memory. -/
theorem saveWindowsFrom_ok {cursor : PersistentCursor} {windows : List (Nat × List Byte)}
    (hSavable : view.Savable objects) (hStands : view.Stands objects cursor cursor.lastEnd)
    (hWindows : Increasing view.heapBytes cursor.lastEnd windows) :
    view.saveWindowsFrom cursor windows =
      .ok (windows.map fun w => range (view.wiped objects view.committed) w.1 w.2.length) := by
  induction windows generalizing cursor with
  | nil =>
      rw [saveWindowsFrom, finish_ok hStands hSavable.safe hSavable.buffer]
      rfl
  | cons window windows ih =>
      obtain ⟨at', output⟩ := window
      obtain ⟨hOrder, hFits, hRest⟩ := hWindows
      obtain ⟨after, hRun, hAfter, hEnd⟩ :=
        saveNext_ok hStands hSavable.safe hSavable.projects hOrder hFits
      rw [← hEnd] at hRest
      rw [saveWindowsFrom, hRun output rfl]
      simp only [ih hAfter hRest]
      rfl

theorem slice_range {f : Nat → Byte} {total start : Nat} (h : start + count ≤ total) :
    Slices.slice (range f 0 total) start count = range f start count := by
  rw [Slices.slice, range_drop _ (by omega), range_take _ (by omega), Nat.zero_add]

/-- When the whole heap is saved, a cursor saves any windows of it that come one behind
the other, and what each holds is that slice of the whole. In the whole, the payloads of
transient arrays and of the global buffer and the native fields that a reset clears are
zero, and every other byte is the committed one. -/
theorem windows_equal_whole (view : PersistentView) {output saved : List Byte} {state : PersistentState}
    (hSaved : view.saveInto output = .ok state saved) :
    (∀ windows, Increasing view.heapBytes 0 windows →
      view.saveWindows windows = .ok (windows.map fun w => Slices.slice saved w.1 w.2.length)) ∧
    ∃ objects, view.TilesFrom 2 objects ∧ saved.length = view.heapBytes ∧
      ∀ i, i < view.heapBytes →
        ((∃ o ∈ objects, view.Clears o i) → saved[i]? = some 0) ∧
          (¬(∃ o ∈ objects, view.Clears o i) → saved[i]? = some (view.committed i)) := by
  obtain ⟨-, objects, hSavable, rfl, -⟩ := saveInto_ok.1 hSaved
  refine ⟨fun windows hWindows => ?_, objects, hSavable.tiles, length_range .., fun i hi => ⟨?_, ?_⟩⟩
  · have hRun := saveWindowsFrom_ok hSavable hSavable.stands hWindows
    have hSlices : ∀ w ∈ windows, range (view.wiped objects view.committed) w.1 w.2.length =
        Slices.slice (range (view.wiped objects view.committed) 0 view.heapBytes) w.1 w.2.length := fun w hw =>
      (slice_range (hWindows.within hw)).symm
    rw [saveWindows, hSavable.cursor_ok]
    rw [List.map_congr_left hSlices] at hRun
    exact hRun
  · intro hCleared
    rw [getElem?_range, if_pos hi, Nat.zero_add, wiped, if_pos hCleared]
  · intro hKept
    rw [getElem?_range, if_pos hi, Nat.zero_add, wiped, if_neg hKept]

/-- A heap of a byte array, which is the global buffer, and a transient one. -/
def smallView : PersistentView where
  heap := overwrite (fun _ => 9) 0 [3, 7, 0, 0, 0, 2, 3, 1, 5, 6, 0, 0, 0, 2, 19, 1, 7, 8, 0, 0, 0, 1, 0, 1, 4, 5]
  length := 26
  statics := []
  instance' := 18
  buffer := 2
  projection := none

/-- What is saved of it. -/
def smallSaved : List Byte := [3, 7, 0, 0, 0, 2, 3, 1, 0, 0, 0, 0, 0, 2, 19, 1, 0, 0, 0, 0, 0, 1, 0, 1, 4, 5]

set_option maxRecDepth 4000 in
theorem windows_equal_whole_small :
    (∀ windows, Increasing smallView.heapBytes 0 windows →
      smallView.saveWindows windows = .ok (windows.map fun w => Slices.slice smallSaved w.1 w.2.length)) ∧
    ∃ objects, smallView.TilesFrom 2 objects ∧ smallSaved.length = smallView.heapBytes ∧
      ∀ i, i < smallView.heapBytes →
        ((∃ o ∈ objects, smallView.Clears o i) → smallSaved[i]? = some 0) ∧
          (¬(∃ o ∈ objects, smallView.Clears o i) → smallSaved[i]? = some (smallView.committed i)) := by
  have hSaved : smallView.saveInto (List.replicate 26 0) = .ok ⟨smallSaved, [], 18⟩ smallSaved := rfl
  exact windows_equal_whole smallView hSaved

end PersistentView

end Walking

end MicroCard.Jcvm
