import Mathlib.Data.Finset.Card
import Mathlib.Data.List.Chain
import Mathlib.Logic.Relation
import Mathlib.Order.Interval.Finset.Nat

/-! Relations without cycles: how long a chain of them can get, in a finite set or under a
rank. -/
namespace Chains

open Relation

variable {α : Type} {r : α → α → Prop} {path : List α} {a b : α}

/-- Nothing leads back to itself. -/
def Acyclic (r : α → α → Prop) : Prop := ∀ a, ¬TransGen r a a

/-- A cycle goes on. -/
theorem cycle_next (h : TransGen r a a) : ∃ b, r a b ∧ TransGen r b b := by
  obtain ⟨b, hStep, hBack⟩ := TransGen.head'_iff.1 h
  exact ⟨b, hStep, TransGen.tail' hBack hStep⟩

theorem Acyclic.nodup (h : Acyclic r) (hChain : path.IsChain r) : path.Nodup := by
  have hReach : path.IsChain (TransGen r) := hChain.imp fun _ _ hStep => TransGen.single hStep
  apply (List.isChain_iff_pairwise.1 hReach).imp
  intro a b hPath hSame
  rw [hSame] at hPath
  exact h b hPath

/-- A chain meets each element of a finite set once. -/
theorem Acyclic.length_le [DecidableEq α] (h : Acyclic r) (hChain : path.IsChain r) {bound : Finset α}
    (hBound : ∀ a ∈ path, a ∈ bound) : path.length ≤ bound.card := by
  rw [← List.toFinset_card_of_nodup (h.nodup hChain)]
  apply Finset.card_le_card
  intro a ha
  exact hBound a (List.mem_toFinset.1 ha)

/-- Steps that go down a rank never come back. -/
theorem acyclic_of_rank {rank : α → Nat} (h : ∀ a b, r a b → rank b < rank a) : Acyclic r := by
  have hDown : ∀ {a b}, TransGen r a b → rank b < rank a := by
    intro a b hPath
    induction hPath with
    | single hStep => exact h _ _ hStep
    | tail _ hStep ih => exact (h _ _ hStep).trans ih
  exact fun a hCycle => lt_irrefl _ (hDown hCycle)

/-- A chain that goes up a rank is no longer than the ranks are many. -/
theorem length_le_of_rank {rank : α → Nat} {bound : Nat} (hChain : path.IsChain fun a b => rank a < rank b)
    (hBound : ∀ a ∈ path, 1 ≤ rank a ∧ rank a ≤ bound) : path.length ≤ bound := by
  have hAcyclic : Acyclic fun m n : Nat => m < n := by
    intro n hCycle
    rw [transGen_eq_self] at hCycle
    exact lt_irrefl n hCycle
  have hRanks : (path.map rank).IsChain fun m n => m < n := (List.isChain_map rank).2 hChain
  have hLength : (path.map rank).length ≤ (Finset.Icc 1 bound).card := by
    apply hAcyclic.length_le hRanks
    intro n hn
    obtain ⟨a, ha, rfl⟩ := List.mem_map.1 hn
    exact Finset.mem_Icc.2 (hBound a ha)
  rwa [List.length_map, Nat.card_Icc, Nat.add_sub_cancel] at hLength

end Chains
