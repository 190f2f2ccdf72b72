import Mathlib.Data.List.Basic
import Mathlib.Data.List.Pairwise

/-! Tables with a fixed number of slots, each empty or holding one entry. A slot
is addressed by its position; what matters to an invariant is which entries there
are and in which order. -/

/-- Putting an element that agrees with all the others between two halves of a
list keeps a symmetric relation pairwise. -/
theorem List.Pairwise.insert_middle {α : Type} {R : α → α → Prop} (hSymm : ∀ a b, R a b → R b a)
    {before after : List α} {a : α} (h : (before ++ after).Pairwise R) (hNew : ∀ b ∈ before ++ after, R b a) :
    (before ++ a :: after).Pairwise R := by
  rw [List.pairwise_append] at h ⊢
  obtain ⟨hBefore, hAfter, hAcross⟩ := h
  refine ⟨hBefore, List.pairwise_cons.2 ⟨fun b hb => hSymm _ _ (hNew b (List.mem_append_right _ hb)), hAfter⟩, ?_⟩
  intro b hb c hc
  rcases List.mem_cons.1 hc with rfl | hc
  · exact hNew b (List.mem_append_left _ hb)
  · exact hAcross b hb c hc

/-- `n` slots. -/
structure SlotTable (α : Type) (n : Nat) where
  slots : List (Option α)
  length_slots : slots.length = n
  deriving DecidableEq

namespace SlotTable

variable {α : Type} {n : Nat}

@[ext] theorem ext {first second : SlotTable α n} (h : first.slots = second.slots) : first = second := by
  cases first
  cases second
  cases h
  rfl

/-- All slots empty. -/
def empty (α : Type) (n : Nat) : SlotTable α n := ⟨List.replicate n none, List.length_replicate⟩

/-- The entries, in slot order. -/
def entries (table : SlotTable α n) : List α := table.slots.filterMap id

/-- The first slot a test selects. -/
def position (table : SlotTable α n) (select : Option α → Bool) : Option Nat := table.slots.findIdx? select

/-- The first entry a test selects, and its slot. -/
def lookup (table : SlotTable α n) (select : α → Bool) : Option (Nat × α) :=
  (table.position fun slot => slot.any select).bind fun at' => table.slots[at']?.join.map fun a => (at', a)

def set (table : SlotTable α n) (at' : Nat) (slot : Option α) : SlotTable α n :=
  ⟨table.slots.set at' slot, by rw [List.length_set, table.length_slots]⟩

/-- Empty every slot whose entry a test selects. -/
def clear (table : SlotTable α n) (select : α → Bool) : SlotTable α n :=
  ⟨table.slots.map fun slot => if slot.any select then none else slot, by rw [List.length_map, table.length_slots]⟩

@[simp] theorem entries_empty : (empty α n).entries = [] := by
  simp [entries, empty]

theorem mem_entries {table : SlotTable α n} {a : α} : a ∈ table.entries ↔ some a ∈ table.slots := by
  simp [entries]

/-- A selected slot splits the table, and writing it leaves both sides alone. -/
theorem position_split {table : SlotTable α n} {select : Option α → Bool} {at' : Nat}
    (h : table.position select = some at') :
    ∃ before slot after, select slot = true ∧ (∀ s ∈ before, select s = false) ∧
      table.slots = before ++ slot :: after ∧ before.length = at' ∧
      ∀ new, (table.set at' new).slots = before ++ new :: after := by
  obtain ⟨hBound, hSelected, hBefore⟩ := List.findIdx?_eq_some_iff_getElem.1 h
  refine ⟨table.slots.take at', table.slots[at'], table.slots.drop (at' + 1), hSelected, ?_, ?_, ?_, ?_⟩
  · intro s hs
    obtain ⟨i, hi, rfl⟩ := List.mem_iff_getElem.1 hs
    have hi' : i < at' := by
      rw [List.length_take] at hi
      omega
    rw [List.getElem_take]
    simpa using hBefore i hi'
  · simp
  · rw [List.length_take]
    omega
  · intro new
    show table.slots.set at' new = _
    rw [List.set_eq_take_append_cons_drop, if_pos hBound]

/-- The entries around a free slot, before and after it is filled. -/
theorem entries_free {table : SlotTable α n} {at' : Nat} (h : table.position Option.isNone = some at') :
    ∃ before after, table.entries = before ++ after ∧ ∀ a, (table.set at' (some a)).entries = before ++ a :: after := by
  obtain ⟨before, slot, after, hSelected, -, hSlots, -, hSet⟩ := position_split h
  refine ⟨before.filterMap id, after.filterMap id, ?_, fun a => ?_⟩
  · cases slot with
    | none => simp [entries, hSlots]
    | some a => cases hSelected
  · simp [entries, hSet]

/-- The entries around the one that was looked up. It is the first that the test
selects, and writing its slot leaves the others alone. -/
theorem entries_lookup {table : SlotTable α n} {select : α → Bool} {at' : Nat} {a : α}
    (h : table.lookup select = some (at', a)) :
    ∃ before after, select a = true ∧ table.entries = before ++ a :: after ∧ (∀ b ∈ before, select b = false) ∧
      ∀ new, (table.set at' new).entries = before ++ Option.toList new ++ after := by
  obtain ⟨i, hPosition, hEntry⟩ := Option.bind_eq_some_iff.1 h
  obtain ⟨entry, hJoin, hPair⟩ := Option.map_eq_some_iff.1 hEntry
  cases hPair
  obtain ⟨before, slot, after, hSelected, hBefore, hSlots, hAt, hSet⟩ := position_split hPosition
  have hSlot : slot = some a := by
    rw [hSlots, ← hAt] at hJoin
    simpa using hJoin
  subst hSlot
  refine ⟨before.filterMap id, after.filterMap id, hSelected, by simp [entries, hSlots], fun b hb => ?_, fun new => ?_⟩
  · have hb' : some b ∈ before := by simpa using hb
    simpa using hBefore _ hb'
  · cases new <;> simp [entries, hSet]

theorem mem_fill {table : SlotTable α n} {at' : Nat} (h : table.position Option.isNone = some at') {a b : α} :
    b ∈ (table.set at' (some a)).entries ↔ b = a ∨ b ∈ table.entries := by
  obtain ⟨before, after, hEntries, hSet⟩ := entries_free h
  rw [hSet, hEntries]
  simp only [List.mem_append, List.mem_cons]
  tauto

/-- After a write to the slot of `a` there is what was written, and every other
entry. -/
theorem mem_write {table : SlotTable α n} {select : α → Bool} {at' : Nat} {a : α}
    (h : table.lookup select = some (at', a)) {new : Option α} {b : α}
    (hMem : b ∈ (table.set at' new).entries) : new = some b ∨ b ∈ table.entries := by
  obtain ⟨before, after, -, hEntries, -, hSet⟩ := entries_lookup h
  rw [hSet] at hMem
  rw [hEntries]
  simp only [List.mem_append, List.mem_cons, Option.mem_toList] at hMem ⊢
  tauto

theorem mem_written {table : SlotTable α n} {select : α → Bool} {at' : Nat} {a : α}
    (h : table.lookup select = some (at', a)) {b : α} : b ∈ (table.set at' (some b)).entries := by
  obtain ⟨before, after, -, -, -, hSet⟩ := entries_lookup h
  rw [hSet]
  simp

theorem mem_kept {table : SlotTable α n} {select : α → Bool} {at' : Nat} {a : α}
    (h : table.lookup select = some (at', a)) {new : Option α} {b : α} (hMem : b ∈ table.entries) (hNe : b ≠ a) :
    b ∈ (table.set at' new).entries := by
  obtain ⟨before, after, -, hEntries, -, hSet⟩ := entries_lookup h
  rw [hSet]
  rw [hEntries] at hMem
  simp only [List.mem_append, List.mem_cons] at hMem ⊢
  tauto

theorem mem_lookup {table : SlotTable α n} {select : α → Bool} {at' : Nat} {a : α}
    (h : table.lookup select = some (at', a)) : a ∈ table.entries := by
  obtain ⟨before, after, -, hEntries, -⟩ := entries_lookup h
  rw [hEntries]
  simp

theorem select_lookup {table : SlotTable α n} {select : α → Bool} {at' : Nat} {a : α}
    (h : table.lookup select = some (at', a)) : select a = true := by
  obtain ⟨-, -, hSelected, -⟩ := entries_lookup h
  exact hSelected

section Pairwise

variable {R : α → α → Prop} [Std.Symm R]

theorem pairwise_fill {table : SlotTable α n} {at' : Nat} (h : table.position Option.isNone = some at') {a : α}
    (hPairs : table.entries.Pairwise R) (hNew : ∀ b ∈ table.entries, R b a) :
    (table.set at' (some a)).entries.Pairwise R := by
  obtain ⟨before, after, hEntries, hSet⟩ := entries_free h
  rw [hSet]
  rw [hEntries] at hPairs hNew
  exact hPairs.insert_middle (fun _ _ => Std.Symm.symm _ _) hNew

omit [Std.Symm R] in
theorem pairwise_remove {table : SlotTable α n} {select : α → Bool} {at' : Nat} {a : α}
    (h : table.lookup select = some (at', a)) (hPairs : table.entries.Pairwise R) :
    (table.set at' none).entries.Pairwise R := by
  obtain ⟨before, after, -, hEntries, -, hSet⟩ := entries_lookup h
  rw [hSet]
  rw [hEntries] at hPairs
  exact List.Pairwise.sublist (by simp) hPairs

/-- Replacing an entry by one that is related to all the entries the old one was
related to keeps the relation pairwise. -/
theorem pairwise_replace {table : SlotTable α n} {select : α → Bool} {at' : Nat} {a new : α}
    (h : table.lookup select = some (at', a)) (hPairs : table.entries.Pairwise R)
    (hNew : ∀ b ∈ table.entries, R b a → R b new) : (table.set at' (some new)).entries.Pairwise R := by
  obtain ⟨before, after, -, hEntries, -, hSet⟩ := entries_lookup h
  rw [hSet, Option.toList_some, List.append_assoc, List.singleton_append]
  rw [hEntries] at hPairs hNew
  have hBoth : (before ++ after).Pairwise R := List.Pairwise.sublist (by simp) hPairs
  refine hBoth.insert_middle (fun _ _ => Std.Symm.symm _ _) fun b hb => hNew b ?_ ?_
  · simp only [List.mem_append, List.mem_cons] at hb ⊢
    tauto
  · rw [List.pairwise_append, List.pairwise_cons] at hPairs
    rcases List.mem_append.1 hb with hb | hb
    · exact hPairs.2.2 b hb a List.mem_cons_self
    · exact Std.Symm.symm _ _ (hPairs.2.1.1 b hb)

end Pairwise

/-- Nothing is found only when no entry is selected. -/
theorem lookup_eq_none {table : SlotTable α n} {select : α → Bool} (h : table.lookup select = none) {a : α}
    (ha : a ∈ table.entries) : select a = false := by
  cases hPosition : table.position fun slot => slot.any select with
  | none =>
      have hNone := List.findIdx?_eq_none_iff.1 hPosition (some a) (mem_entries.1 ha)
      simpa using hNone
  | some at' =>
      obtain ⟨before, slot, after, hSelected, -, hSlots, hAt, -⟩ := position_split hPosition
      cases slot with
      | none => cases hSelected
      | some b => simp [lookup, hPosition, hSlots, ← hAt] at h

/-- Writing the selected slot leaves an unselected first slot alone. -/
theorem head_set {table : SlotTable α n} {select : Option α → Bool} {at' : Nat} {first : Option α}
    (h : table.position select = some at') (hFirst : table.slots.head? = some first) (hNot : select first = false)
    (new : Option α) : (table.set at' new).slots.head? = some first := by
  obtain ⟨before, slot, after, hSelected, -, hSlots, -, hSet⟩ := position_split h
  rw [hSet]
  rw [hSlots] at hFirst
  cases before with
  | nil =>
      cases hFirst
      rw [hNot] at hSelected
      cases hSelected
  | cons s rest => simpa using hFirst

theorem lookup_position {table : SlotTable α n} {select : α → Bool} {at' : Nat} {a : α}
    (h : table.lookup select = some (at', a)) : table.position (fun slot => slot.any select) = some at' := by
  obtain ⟨i, hPosition, hEntry⟩ := Option.bind_eq_some_iff.1 h
  obtain ⟨entry, -, hPair⟩ := Option.map_eq_some_iff.1 hEntry
  cases hPair
  exact hPosition

theorem entries_clear (table : SlotTable α n) (select : α → Bool) :
    (table.clear select).entries = table.entries.filter fun a => !select a := by
  simp only [entries, clear]
  induction table.slots with
  | nil => rfl
  | cons slot rest ih =>
      cases slot with
      | none => simpa using ih
      | some a =>
          cases hSelect : select a with
          | true => simpa [hSelect] using ih
          | false => simpa [hSelect] using ih

end SlotTable
