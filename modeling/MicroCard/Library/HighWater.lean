import Mathlib.Data.List.Nodup
import Mathlib.Order.Basic
import Mathlib.Order.Nat

/-! Counters that are handed out from blocks reserved ahead of use. A durable mark lies
above every value that was handed out, so that what is left of a block can be forgotten
but never handed out again. -/
namespace HighWater

/-- The values handed out lie below the next one, which is not above the mark, and what
is left of the block lies below the mark. -/
structure Issued (issued : List Nat) (next stop mark : Nat) : Prop where
  distinct : issued.Nodup
  below : ∀ v ∈ issued, v < next
  reach : next ≤ mark
  held : next < stop → stop ≤ mark

variable {issued : List Nat} {next stop mark mark' : Nat}

theorem Issued.start (mark : Nat) : Issued [] mark mark mark := by
  refine ⟨List.nodup_nil, ?_, le_rfl, fun h => absurd h (lt_irrefl _)⟩
  intro v hv
  cases hv

theorem Issued.fresh (h : Issued issued next stop mark) : next ∉ issued := fun hIn => lt_irrefl _ (h.below next hIn)

theorem Issued.spent (h : Issued issued next stop mark) : ∀ v ∈ issued, v < mark := fun v hv => (h.below v hv).trans_le h.reach

/-- Hand out the next value of the block. -/
theorem Issued.issue (h : Issued issued next stop mark) (hLeft : next < stop) : Issued (next :: issued) (next + 1) stop mark where
  distinct := List.nodup_cons.2 ⟨h.fresh, h.distinct⟩
  below := by
    intro v hv
    rcases List.mem_cons.1 hv with rfl | hv
    · exact Nat.lt_succ_self v
    · exact Nat.lt_succ_of_lt (h.below v hv)
  reach := hLeft.trans_le (h.held hLeft)
  held := fun _ => h.held hLeft

/-- The mark may rise at any time. -/
theorem Issued.raise (h : Issued issued next stop mark) (hMark : mark ≤ mark') : Issued issued next stop mark' :=
  ⟨h.distinct, h.below, h.reach.trans hMark, fun hLeft => (h.held hLeft).trans hMark⟩

/-- The block may be made longer, up to the mark. -/
theorem Issued.extend (h : Issued issued next stop mark) : Issued issued next mark mark :=
  ⟨h.distinct, h.below, h.reach, fun _ => le_rfl⟩

/-- What is left of the block is forgotten, and the next block begins at the mark. -/
theorem Issued.forget (h : Issued issued next stop mark) : Issued issued mark mark mark :=
  ⟨h.distinct, h.spent, le_rfl, fun hLeft => absurd hLeft (lt_irrefl _)⟩

end HighWater
