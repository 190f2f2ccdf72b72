import Mathlib.Logic.Relation

/-! States that descend from each other under a counter that only grows. A device
moves from state to state; some of its states stay readable after it has left
them, and some of its moves were acknowledged. The counter excludes every readable
state below it, so an acknowledged move is lost only if a readable state at least
as high does not descend from it. -/
namespace Lineage

open Relation

variable {α : Type}

/-- Every acknowledged state is an ancestor of the current state and of each
readable state that ranks as high as it does; nothing readable ranks above the
current state. -/
structure Guarded (rank : α → Nat) (edge : α → α → Prop) (acknowledged readable : α → Prop) (current : α) :
    Prop where
  bounded : ∀ x, readable x → rank x ≤ rank current
  current_descends : ∀ o, acknowledged o → ReflTransGen edge o current
  descends : ∀ o x, acknowledged o → readable x → rank o ≤ rank x → ReflTransGen edge o x

variable {rank : α → Nat} {edge edge' : α → α → Prop} {acknowledged acknowledged' readable readable' : α → Prop}
  {current next : α}

theorem Guarded.weaken (h : Guarded rank edge acknowledged readable current) (hEdge : ∀ x y, edge x y → edge' x y)
    (hReadable : ∀ x, readable' x → readable x) : Guarded rank edge' acknowledged readable' current where
  bounded := fun x hx => h.bounded x (hReadable x hx)
  current_descends := fun o ho => ReflTransGen.mono hEdge _ _ (h.current_descends o ho)
  descends := fun o x ho hx hRank => ReflTransGen.mono hEdge _ _ (h.descends o x ho (hReadable x hx) hRank)

/-- A move that became readable without raising the rank, whether or not the
device went on from it. -/
theorem Guarded.expose (h : Guarded rank edge acknowledged readable current) (hEdge : edge current next)
    (hRank : rank next = rank current) (hReadable : ∀ x, readable' x → readable x ∨ x = next) :
    Guarded rank edge acknowledged readable' current where
  bounded := by
    intro x hx
    rcases hReadable x hx with hOld | hNew
    · exact h.bounded x hOld
    · rw [hNew]
      exact Nat.le_of_eq hRank
  current_descends := h.current_descends
  descends := by
    intro o x ho hx hLe
    rcases hReadable x hx with hOld | hNew
    · exact h.descends o x ho hOld hLe
    · rw [hNew]
      exact (h.current_descends o ho).tail hEdge

/-- The device moved to a state of at least the same rank. -/
theorem Guarded.advance (h : Guarded rank edge acknowledged readable current) (hEdge : edge current next)
    (hRank : rank current ≤ rank next) (hReadable : ∀ x, readable' x → readable x ∨ x = next) :
    Guarded rank edge acknowledged readable' next where
  bounded := by
    intro x hx
    rcases hReadable x hx with hOld | hNew
    · exact Nat.le_trans (h.bounded x hOld) hRank
    · exact Nat.le_of_eq (congrArg rank hNew)
  current_descends := fun o ho => (h.current_descends o ho).tail hEdge
  descends := by
    intro o x ho hx hLe
    rcases hReadable x hx with hOld | hNew
    · exact h.descends o x ho hOld hLe
    · rw [hNew]
      exact (h.current_descends o ho).tail hEdge

/-- A move that raises the rank may be acknowledged: nothing else ranks as high. -/
theorem Guarded.acknowledge (h : Guarded rank edge acknowledged readable current) (hEdge : edge current next)
    (hRank : rank current < rank next) (hReadable : ∀ x, readable' x → readable x ∨ x = next)
    (hAcknowledged : ∀ o, acknowledged' o → acknowledged o ∨ o = next) :
    Guarded rank edge acknowledged' readable' next := by
  have hMoved := h.advance hEdge (Nat.le_of_lt hRank) hReadable
  refine ⟨hMoved.bounded, ?_, ?_⟩
  · intro o ho
    rcases hAcknowledged o ho with hOld | hNew
    · exact hMoved.current_descends o hOld
    · rw [hNew]
  · intro o x ho hx hLe
    rcases hAcknowledged o ho with hOld | hNew
    · exact hMoved.descends o x hOld hx hLe
    · rcases hReadable x hx with hBefore | hSame
      · have hBelow := h.bounded x hBefore
        rw [hNew] at hLe
        omega
      · rw [hNew, hSame]

/-- A readable state that the counter admits has lost nothing acknowledged. -/
theorem Guarded.nothing_lost (h : Guarded rank edge acknowledged readable current) {counter : Nat}
    (hCounter : ∀ o, acknowledged o → rank o ≤ counter) {x : α} (hReadable : readable x) (hAdmitted : counter ≤ rank x)
    {o : α} (ho : acknowledged o) : ReflTransGen edge o x :=
  h.descends o x ho hReadable (Nat.le_trans (hCounter o ho) hAdmitted)

end Lineage
