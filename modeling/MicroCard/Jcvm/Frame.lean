import MicroCard.Jcvm.Basic
import MicroCard.Library.CrashTriple
import MicroCard.Library.PackedBits

/-! The locals and the operand stack of one invocation. Each word has a tag, which says
whether it holds a reference; the words and their tags lie in arrays of their own. What
moves a word moves its tag with it. -/
namespace MicroCard.Jcvm

open Bytes CrashTriple PackedBits

/-- A word and whether it is a reference. -/
abbrev Cell := UInt16 × Bool

/-- The frame lies within its arena, and the stack within the frame. -/
structure Frame where
  words : List UInt16
  /-- One bit for each word. -/
  tags : List Byte
  locals : Nat
  /-- Words on the operand stack. -/
  depth : Nat
  maxStack : Nat
  wordsFit : locals + maxStack ≤ words.length
  tagsFit : locals + maxStack ≤ 8 * tags.length
  depthFits : depth ≤ maxStack

abbrev FrameM := EStateM Error Frame

namespace Frame

def wordsFor (locals maxStack : Nat) : Nat := locals + maxStack

def tagBytesFor (locals maxStack : Nat) : Nat := (wordsFor locals maxStack + 7) / 8

/-- `Frame::new`: the arena below the frame is cleared. -/
def new (words : List UInt16) (tags : List Byte) (locals maxStack : Nat) : Except Error Frame :=
  if h : words.length < wordsFor locals maxStack ∨ tags.length < tagBytesFor locals maxStack then .error .quota
  else .ok {
    words := List.replicate (wordsFor locals maxStack) 0 ++ words.drop (wordsFor locals maxStack)
    tags := List.replicate (tagBytesFor locals maxStack) 0 ++ tags.drop (tagBytesFor locals maxStack)
    locals, depth := 0, maxStack
    wordsFit := by
      rw [List.length_append, List.length_replicate, List.length_drop]
      exact Nat.le_add_right _ _
    tagsFit := by
      rw [List.length_append, List.length_replicate, List.length_drop, tagBytesFor, wordsFor]
      omega
    depthFits := Nat.zero_le _ }

variable (frame : Frame)

/-- A word with its tag. -/
def cell (index : Nat) : Cell := (frame.words.getD index 0, bit frame.tags index)

/-- Write a word and set its tag. -/
def setCell (index : Nat) (value : Cell) : Frame :=
  { frame with
    words := frame.words.set index value.1
    tags := setBit frame.tags index value.2
    wordsFit := frame.wordsFit.trans_eq List.length_set.symm
    tagsFit := frame.tagsFit.trans_eq (congrArg (8 * ·) length_setBit.symm) }

/-- Write cells one behind the other. -/
def setCells : Frame → Nat → List Cell → Frame
  | frame, _, [] => frame
  | frame, index, value :: values => setCells (frame.setCell index value) (index + 1) values

/-- Move as many cells up, the highest first. -/
def shiftUp (by' start : Nat) : Frame → Nat → Frame
  | frame, 0 => frame
  | frame, count + 1 => shiftUp by' start (frame.setCell (start + count + by') (frame.cell (start + count))) count

/-- What moving cells leaves of the shape of a frame. -/
structure SameShape (frame other : Frame) : Prop where
  locals : other.locals = frame.locals
  depth : other.depth = frame.depth
  maxStack : other.maxStack = frame.maxStack

theorem SameShape.trans {first second third : Frame} (h : first.SameShape second) (h' : second.SameShape third) :
    first.SameShape third :=
  ⟨h'.locals.trans h.locals, h'.depth.trans h.depth, h'.maxStack.trans h.maxStack⟩

theorem setCell_shape (index : Nat) (value : Cell) : frame.SameShape (frame.setCell index value) := ⟨rfl, rfl, rfl⟩

theorem setCells_shape (index : Nat) (values : List Cell) : frame.SameShape (frame.setCells index values) := by
  induction values generalizing frame index with
  | nil => exact ⟨rfl, rfl, rfl⟩
  | cons value values ih => exact (frame.setCell_shape index value).trans (ih _ _)

theorem shiftUp_shape (by' start count : Nat) : frame.SameShape (frame.shiftUp by' start count) := by
  induction count generalizing frame with
  | zero => exact ⟨rfl, rfl, rfl⟩
  | succ count ih => exact (frame.setCell_shape _ _).trans (ih _)

/-- The cells from an index on. -/
def cells (start count : Nat) : List Cell := (List.range count).map fun slot => frame.cell (start + slot)

def pushWord (value : UInt16) (reference : Bool) : FrameM Unit := fun frame =>
  if h : frame.maxStack ≤ frame.depth then .error .quota frame
  else .ok () { frame.setCell (frame.locals + frame.depth) (value, reference) with
    depth := frame.depth + 1
    depthFits := Nat.lt_of_not_le h }

def popWord (reference : Bool) : FrameM UInt16 := fun frame =>
  if frame.depth = 0 then .error .bounds frame
  else if bit frame.tags (frame.locals + frame.depth - 1) ≠ reference then .error .type frame
  else .ok (frame.words.getD (frame.locals + frame.depth - 1) 0) { frame with
    depth := frame.depth - 1
    depthFits := (Nat.sub_le _ _).trans frame.depthFits }

/-- Duplicate the top words, so many words down: `dup_x`. The words in between move up. -/
def duplicate (count below : Nat) : FrameM Unit := fun frame =>
  if count = 0 ∨ 4 < count ∨ frame.depth < below ∨ frame.depth < count then .error .bounds frame
  else if h : frame.maxStack < frame.depth + count then .error .quota frame
  else
    let copied := frame.cells (frame.locals + frame.depth - count) count
    let insert := if below = 0 then frame.depth else frame.depth - below
    let shifted := frame.shiftUp count (frame.locals + insert) (frame.depth - insert)
    let written := shifted.setCells (frame.locals + insert) copied
    .ok () { written with
      depth := frame.depth + count
      depthFits := by
        rw [((frame.shiftUp_shape _ _ _).trans (shifted.setCells_shape _ _)).maxStack]
        exact Nat.le_of_not_lt h }

/-- Swap the top words with those under them: `swap_x`. -/
def swap (count below : Nat) : FrameM Unit := fun frame =>
  if count = 0 ∨ below = 0 ∨ 2 < count ∨ 2 < below ∨ frame.depth < count + below then .error .bounds frame
  else
    let start := frame.locals + frame.depth - (count + below)
    let copied := frame.cells start (count + below)
    .ok () (frame.setCells start ((List.range (count + below)).map fun slot =>
      copied.getD (if slot < count then below + slot else slot - count) (0, false)))

end Frame

section Moves

variable {α : Type}

/-- What `dup_x` does to a stack, top first: the copies of the top words stand so many
words down. -/
def dupX (count below : Nat) (stack : List α) : List α := stack.take below ++ stack.take count ++ stack.drop below

/-- What `swap_x` does to a stack: the top words change places with those under them. -/
def swapX (count below : Nat) (stack : List α) : List α :=
  (stack.drop count).take below ++ stack.take count ++ stack.drop (count + below)

end Moves

namespace Frame

variable {frame : Frame}

/-- The operand stack, top first. -/
def stack (frame : Frame) : List Cell :=
  (List.range frame.depth).map fun below => frame.cell (frame.locals + frame.depth - 1 - below)

/-- The local variables. -/
def localCells (frame : Frame) : List Cell := frame.cells 0 frame.locals

theorem cell_setCell {index other : Nat} {value : Cell} (hIndex : index < frame.locals + frame.maxStack) :
    (frame.setCell index value).cell other = if other = index then value else frame.cell other := by
  have hWord : index < frame.words.length := hIndex.trans_le frame.wordsFit
  have hTag : index < 8 * frame.tags.length := hIndex.trans_le frame.tagsFit
  simp only [cell, setCell, bit_setBit hTag, List.getD_eq_getElem?_getD, List.getElem?_set]
  by_cases hSame : other = index
  · rw [if_pos hSame.symm, if_pos hSame, if_pos hSame, if_pos (hSame ▸ hWord), Option.getD_some]
  · rw [if_neg (Ne.symm hSame), if_neg hSame, if_neg hSame]

/-- Cells that are written are read back; the others stay. -/
theorem cell_setCells {index other : Nat} {values : List Cell} (hFits : index + values.length ≤ frame.locals + frame.maxStack) :
    (frame.setCells index values).cell other =
      if index ≤ other ∧ other < index + values.length then values.getD (other - index) (0, false) else frame.cell other := by
  induction values generalizing frame index with
  | nil =>
      rw [if_neg (by rw [List.length_nil]; omega)]
      rfl
  | cons value values ih =>
      rw [List.length_cons] at hFits ⊢
      have hIndex : index < frame.locals + frame.maxStack := by omega
      have hRest : index + 1 + values.length ≤ (frame.setCell index value).locals + (frame.setCell index value).maxStack := by
        show index + 1 + values.length ≤ frame.locals + frame.maxStack
        omega
      rw [setCells, ih hRest, cell_setCell hIndex]
      rcases Nat.lt_trichotomy other index with hBefore | rfl | hBehind
      · rw [if_neg (by omega), if_neg (by omega), if_neg (by omega)]
      · rw [if_neg (by omega), if_pos rfl, if_pos (by omega), Nat.sub_self, List.getD_cons_zero]
      · have hNext : other - index = other - (index + 1) + 1 := by omega
        rw [if_neg (by omega : ¬other = index), hNext, List.getD_cons_succ]
        by_cases hIn : other < index + (values.length + 1)
        · rw [if_pos (by omega), if_pos (by omega)]
        · rw [if_neg (by omega), if_neg (by omega)]

/-- Cells that are moved up are found so many places above; the others stay. -/
theorem cell_shiftUp {by' start count other : Nat} (hFits : start + count + by' ≤ frame.locals + frame.maxStack) :
    (frame.shiftUp by' start count).cell other =
      if start + by' ≤ other ∧ other < start + count + by' then frame.cell (other - by') else frame.cell other := by
  induction count generalizing frame with
  | zero =>
      rw [if_neg (by omega)]
      rfl
  | succ count ih =>
      have hIndex : start + count + by' < frame.locals + frame.maxStack := by omega
      have hRest : start + count + by' ≤ (frame.setCell (start + count + by') (frame.cell (start + count))).locals +
          (frame.setCell (start + count + by') (frame.cell (start + count))).maxStack := hIndex.le
      rw [shiftUp, ih hRest, cell_setCell hIndex, cell_setCell hIndex]
      rcases Nat.lt_trichotomy other (start + count + by') with hBelow | rfl | hAbove
      · rw [if_neg (by omega : ¬other - by' = _), if_neg (by omega : ¬other = _)]
        by_cases hMoved : start + by' ≤ other
        · rw [if_pos ⟨hMoved, hBelow⟩, if_pos ⟨hMoved, by omega⟩]
        · rw [if_neg fun h => hMoved h.1, if_neg fun h => hMoved h.1]
      · rw [if_neg (by omega), if_pos rfl, if_pos (by omega), Nat.add_sub_cancel]
      · rw [if_neg (by omega), if_neg (by omega), if_neg (by omega)]

theorem length_cells (start count : Nat) : (frame.cells start count).length = count := by
  rw [cells, List.length_map, List.length_range]

theorem getD_cells {start count slot : Nat} (hSlot : slot < count) (cell : Cell) :
    (frame.cells start count).getD slot cell = frame.cell (start + slot) := by
  rw [cells, List.getD_eq_getElem?_getD, List.getElem?_map, List.getElem?_range hSlot]
  rfl

theorem length_stack : frame.stack.length = frame.depth := by
  rw [stack, List.length_map, List.length_range]

theorem getElem?_stack (below : Nat) :
    frame.stack[below]? = if below < frame.depth then some (frame.cell (frame.locals + frame.depth - 1 - below)) else none := by
  rw [stack, List.getElem?_map]
  split
  · rename_i hBelow
    rw [List.getElem?_range hBelow]
    rfl
  · rename_i hAbove
    rw [List.getElem?_eq_none (by rw [List.length_range]; omega)]
    rfl

/-- Two frames whose locals agree cell for cell have the same local variables. -/
theorem localCells_eq {other : Frame} (hLocals : other.locals = frame.locals)
    (hCells : ∀ index < frame.locals, other.cell index = frame.cell index) : other.localCells = frame.localCells := by
  rw [localCells, localCells, cells, cells, hLocals]
  apply List.map_congr_left
  intro index hIndex
  rw [Nat.zero_add]
  exact hCells index (List.mem_range.1 hIndex)

/-- The cells behind a duplication: the copies, above them what moved up, and the rest. -/
theorem duplicate_cells {count below other : Nat} {after : Frame} (hRun : duplicate count below frame = .ok () after) :
    after.cell other =
      if frame.locals + frame.depth - below ≤ other ∧ other < frame.locals + frame.depth - below + count then
        frame.cell (other + below - count)
      else if frame.locals + frame.depth - below + count ≤ other ∧ other < frame.locals + frame.depth + count then
        frame.cell (other - count)
      else frame.cell other := by
  unfold duplicate at hRun
  split at hRun
  · cases hRun
  split at hRun
  · cases hRun
  rename_i hOperands hRoom
  simp only [not_or, not_lt] at hOperands
  obtain ⟨hSome, -, hBelow, hCount⟩ := hOperands
  have hDepth := frame.depthFits
  have hInsert : (if below = 0 then frame.depth else frame.depth - below) = frame.depth - below := by
    split <;> omega
  injection hRun with _ hAfter
  have hShape := frame.shiftUp_shape count (frame.locals + (frame.depth - below)) below
  have hMoved : frame.depth - (frame.depth - below) = below := by omega
  simp only [hInsert, hMoved] at hAfter
  have hCells : after.cell other = ((frame.shiftUp count (frame.locals + (frame.depth - below)) below).setCells
      (frame.locals + (frame.depth - below)) (frame.cells (frame.locals + frame.depth - count) count)).cell other := by
    rw [← hAfter]
    rfl
  have hStart : frame.locals + (frame.depth - below) = frame.locals + frame.depth - below := by omega
  rw [hCells, cell_setCells, length_cells, cell_shiftUp (by omega), hStart]
  · by_cases hCopy : frame.locals + frame.depth - below ≤ other ∧ other < frame.locals + frame.depth - below + count
    · rw [if_pos hCopy, if_pos hCopy, getD_cells (by omega)]
      congr 1
      omega
    · rw [if_neg hCopy, if_neg hCopy]
      by_cases hAbove : frame.locals + frame.depth - below + count ≤ other ∧ other < frame.locals + frame.depth + count
      · rw [if_pos (by omega), if_pos hAbove]
      · rw [if_neg (by omega), if_neg hAbove]
  · rw [length_cells, hShape.locals, hShape.maxStack]
    omega

theorem duplicate_shape {count below : Nat} {after : Frame} (hRun : duplicate count below frame = .ok () after) :
    below ≤ frame.depth ∧ count ≤ frame.depth ∧ after.depth = frame.depth + count ∧ after.locals = frame.locals := by
  unfold duplicate at hRun
  split at hRun
  · cases hRun
  split at hRun
  · cases hRun
  rename_i hOperands _
  simp only [not_or, not_lt] at hOperands
  injection hRun with _ hAfter
  rw [← hAfter]
  refine ⟨hOperands.2.2.1, hOperands.2.2.2, rfl, ?_⟩
  exact ((frame.shiftUp_shape _ _ _).trans (setCells_shape _ _ _)).locals

/-- `dup_x` puts the copies where the specification has them, with their tags. -/
theorem duplicate_stack {count below : Nat} {after : Frame} (hRun : duplicate count below frame = .ok () after) :
    after.stack = dupX count below frame.stack := by
  obtain ⟨hBelow, hCount, hDepth, hLocals⟩ := duplicate_shape hRun
  apply List.ext_getElem?
  intro i
  rw [getElem?_stack, hDepth, hLocals, dupX, List.append_assoc]
  rw [List.getElem?_append, List.getElem?_append, List.length_take, List.length_take, length_stack]
  rw [List.getElem?_take, List.getElem?_take, List.getElem?_drop, getElem?_stack, getElem?_stack, getElem?_stack]
  rw [duplicate_cells hRun]
  have hIndex : ∀ {first second : Nat}, first = second → some (frame.cell first) = some (frame.cell second) :=
    fun hSame => by rw [hSame]
  -- Each region of the new stack reads one cell of the old one; no other cases agree.
  split_ifs <;> first
    | rfl
    | omega
    | exact hIndex (by omega)

theorem duplicate_locals {count below : Nat} {after : Frame} (hRun : duplicate count below frame = .ok () after) :
    after.localCells = frame.localCells := by
  obtain ⟨hBelow, hCount, -, hLocals⟩ := duplicate_shape hRun
  apply localCells_eq hLocals
  intro index hIndex
  rw [duplicate_cells hRun, if_neg (by omega), if_neg (by omega)]

/-- The cells behind a swap: the two groups of words have changed places. -/
theorem swap_cells {count below other : Nat} {after : Frame} (hRun : swap count below frame = .ok () after) :
    count + below ≤ frame.depth ∧ frame.SameShape after ∧ after.cell other =
      if frame.locals + frame.depth - (count + below) ≤ other ∧ other < frame.locals + frame.depth then
        frame.cell (if other < frame.locals + frame.depth - below then other + below else other - count)
      else frame.cell other := by
  unfold swap at hRun
  split at hRun
  · cases hRun
  rename_i hOperands
  simp only [not_or, not_lt] at hOperands
  obtain ⟨-, -, -, -, hTotal⟩ := hOperands
  have hDepth := frame.depthFits
  injection hRun with _ hAfter
  subst hAfter
  refine ⟨hTotal, frame.setCells_shape _ _, ?_⟩
  rw [cell_setCells, List.length_map, List.length_range]
  · by_cases hMoved : frame.locals + frame.depth - (count + below) ≤ other ∧ other < frame.locals + frame.depth
    · rw [if_pos (by omega), if_pos hMoved, List.getD_eq_getElem?_getD, List.getElem?_map,
        List.getElem?_range (by omega), Option.map_some, Option.getD_some, getD_cells (by split <;> omega)]
      congr 1
      split_ifs <;> omega
    · rw [if_neg (by omega), if_neg hMoved]
  · rw [List.length_map, List.length_range]
    omega

/-- `swap_x` exchanges the words that the specification has it exchange, with their tags. -/
theorem swap_stack {count below : Nat} {after : Frame} (hRun : swap count below frame = .ok () after) :
    after.stack = swapX count below frame.stack := by
  obtain ⟨hTotal, hShape, -⟩ := @swap_cells frame count below 0 after hRun
  apply List.ext_getElem?
  intro i
  rw [getElem?_stack, hShape.depth, hShape.locals, swapX, List.append_assoc]
  rw [List.getElem?_append, List.getElem?_append, List.length_take, List.length_take, List.length_drop, length_stack]
  rw [List.getElem?_take, List.getElem?_take, List.getElem?_drop, List.getElem?_drop, getElem?_stack, getElem?_stack,
    getElem?_stack]
  rw [(@swap_cells frame count below _ after hRun).2.2]
  have hIndex : ∀ {first second : Nat}, first = second → some (frame.cell first) = some (frame.cell second) :=
    fun hSame => by rw [hSame]
  split_ifs <;> first
    | rfl
    | omega
    | exact hIndex (by omega)

theorem swap_locals {count below : Nat} {after : Frame} (hRun : swap count below frame = .ok () after) :
    after.localCells = frame.localCells := by
  obtain ⟨hTotal, hShape, -⟩ := @swap_cells frame count below 0 after hRun
  apply localCells_eq hShape.locals
  intro index hIndex
  rw [(swap_cells hRun).2.2, if_neg (by omega)]

theorem duplicate_refused {count below : Nat} {after : Frame} {e : Error}
    (hRun : duplicate count below frame = .error e after) : after = frame := by
  unfold duplicate at hRun
  split at hRun
  · injection hRun with _ hSame
    exact hSame.symm
  split at hRun
  · injection hRun with _ hSame
    exact hSame.symm
  · cases hRun

theorem swap_refused {count below : Nat} {after : Frame} {e : Error}
    (hRun : swap count below frame = .error e after) : after = frame := by
  unfold swap at hRun
  split at hRun
  · injection hRun with _ hSame
    exact hSame.symm
  · cases hRun

/-- On every frame and for all operands, `dup_x` and `swap_x` move the words of the stack
with their tags as the specification says and leave the locals, or change nothing. -/
theorem moves_keep_tags (frame : Frame) (m n : Nat) :
    (∀ after, duplicate m n frame = .ok () after →
      after.stack = dupX m n frame.stack ∧ after.localCells = frame.localCells) ∧
    (∀ after, swap m n frame = .ok () after →
      after.stack = swapX m n frame.stack ∧ after.localCells = frame.localCells) ∧
    (∀ e after, duplicate m n frame = .error e after → after = frame) ∧
      ∀ e after, swap m n frame = .error e after → after = frame :=
  ⟨fun _ hRun => ⟨duplicate_stack hRun, duplicate_locals hRun⟩, fun _ hRun => ⟨swap_stack hRun, swap_locals hRun⟩,
    fun _ _ hRun => duplicate_refused hRun, fun _ _ hRun => swap_refused hRun⟩

end Frame

end MicroCard.Jcvm
