import Mathlib.Data.List.Basic

/-! Counters whose cells are consumed in order. The value is the number of consumed cells
when they all stand before the erased ones. As cells are never erased again, the value can
only grow. -/
namespace UnaryCounters

inductive Cell where
  | consumed
  | erased
  | broken
  deriving DecidableEq

/-- The value of the cells, if they are in order. -/
def tally : List Cell → Option Nat
  | [] => some 0
  | .consumed :: cells => (tally cells).map (· + 1)
  | .erased :: cells => if cells.all (· = .erased) then some 0 else none
  | .broken :: _ => none

variable {cells : List Cell} {value other free : Nat}

/-- A counter in order: the consumed cells, then the erased ones. -/
def inOrder (value free : Nat) : List Cell := List.replicate value .consumed ++ List.replicate free .erased

@[simp] theorem length_inOrder : (inOrder value free).length = value + free := by
  rw [inOrder, List.length_append, List.length_replicate, List.length_replicate]

theorem getElem?_inOrder (i : Nat) : (inOrder value free)[i]? =
    if i < value then some .consumed else if i < value + free then some .erased else none := by
  rw [inOrder, List.getElem?_append, List.length_replicate, List.getElem?_replicate, List.getElem?_replicate]
  split_ifs <;> first
    | rfl
    | omega

theorem consumed_iff {i : Nat} : (inOrder value free)[i]? = some Cell.consumed ↔ i < value := by
  rw [getElem?_inOrder]
  split_ifs <;> simp_all

theorem erased_iff {i : Nat} : (inOrder value free)[i]? = some Cell.erased ↔ value ≤ i ∧ i < value + free := by
  rw [getElem?_inOrder]
  by_cases hUsed : i < value
  · rw [if_pos hUsed]
    exact ⟨(fun h => nomatch h), fun h => absurd hUsed (Nat.not_lt.2 h.1)⟩
  · rw [if_neg hUsed]
    by_cases hFree : i < value + free
    · rw [if_pos hFree]
      exact ⟨fun _ => ⟨Nat.not_lt.1 hUsed, hFree⟩, fun _ => rfl⟩
    · rw [if_neg hFree]
      exact ⟨(fun h => nomatch h), fun h => absurd h.2 hFree⟩

theorem tally_inOrder (value free : Nat) : tally (inOrder value free) = some value := by
  induction value with
  | zero =>
      cases free with
      | zero => rfl
      | succ free =>
          rw [inOrder, List.replicate_zero, List.nil_append, List.replicate_succ, tally]
          exact if_pos (List.all_eq_true.2 fun cell hCell => decide_eq_true (List.eq_of_mem_replicate hCell))
  | succ value ih =>
      rw [inOrder, List.replicate_succ, List.cons_append, tally, ← inOrder, ih]
      rfl

theorem tally_eq_some (h : tally cells = some value) : ∃ free, cells = inOrder value free := by
  induction cells generalizing value with
  | nil =>
      injection h with h
      subst h
      exact ⟨0, rfl⟩
  | cons cell cells ih =>
      cases cell with
      | consumed =>
          obtain ⟨rest, hRest, rfl⟩ := Option.map_eq_some_iff.1 h
          obtain ⟨free, rfl⟩ := ih hRest
          exact ⟨free, rfl⟩
      | erased =>
          rw [tally] at h
          split at h
          · rename_i hAll
            injection h with h
            subst h
            refine ⟨cells.length + 1, ?_⟩
            rw [inOrder, List.replicate_zero, List.nil_append, List.replicate_succ]
            congr 1
            exact List.eq_replicate_of_mem fun cell hCell => of_decide_eq_true (List.all_eq_true.1 hAll cell hCell)
          · cases h
      | broken => cases h

/-- As long as consumed cells stay consumed the value does not shrink. -/
theorem tally_mono {first second : List Cell} (hFirst : tally first = some value) (hSecond : tally second = some other)
    (hKept : ∀ i : Nat, first[i]? = some Cell.consumed → second[i]? = some Cell.consumed) : value ≤ other := by
  obtain ⟨free, rfl⟩ := tally_eq_some hFirst
  obtain ⟨room, rfl⟩ := tally_eq_some hSecond
  by_contra hLess
  have hCell := hKept other (consumed_iff.2 (by omega))
  exact Nat.lt_irrefl other (consumed_iff.1 hCell)

/-- To consume the next cell counts one more. -/
theorem inOrder_set (hRoom : 0 < free) : (inOrder value free).set value .consumed = inOrder (value + 1) (free - 1) := by
  apply List.ext_getElem?
  intro i
  rw [List.getElem?_set, length_inOrder, getElem?_inOrder, getElem?_inOrder]
  split_ifs <;> first
    | rfl
    | omega

theorem inOrder_set_erased : (inOrder value free).set value .erased = inOrder value free := by
  apply List.ext_getElem?
  intro i
  rw [List.getElem?_set, length_inOrder, getElem?_inOrder]
  split_ifs <;> first
    | rfl
    | omega

/-- Only the first erased cell can be consumed next. -/
theorem tally_set {i : Nat} (hErased : (inOrder value free)[i]? = some Cell.erased)
    (h : tally ((inOrder value free).set i .consumed) = some other) : i = value ∧ other = value + 1 := by
  have hFree := erased_iff.1 hErased
  obtain ⟨rest, hSet⟩ := tally_eq_some h
  have hPlace : i = value := by
    by_contra hOther
    have hFirst : (inOrder other rest)[value]? = some Cell.erased := by
      rw [← hSet, List.getElem?_set_ne hOther]
      exact erased_iff.2 (by omega)
    have hLast : (inOrder other rest)[i]? = some Cell.consumed := by
      rw [← hSet, List.getElem?_set_self (by rw [length_inOrder]; omega)]
    have hBefore := erased_iff.1 hFirst
    have hAfter := consumed_iff.1 hLast
    omega
  subst hPlace
  rw [inOrder_set (by omega), tally_inOrder] at h
  injection h with h
  exact ⟨rfl, h.symm⟩

/-- A broken cell leaves no value. -/
theorem tally_broken {i : Nat} (h : cells[i]? = some Cell.broken) : tally cells = none := by
  cases hTally : tally cells with
  | none => rfl
  | some value =>
      obtain ⟨free, rfl⟩ := tally_eq_some hTally
      rw [getElem?_inOrder] at h
      split at h
      · cases h
      · split at h <;> cases h

end UnaryCounters
