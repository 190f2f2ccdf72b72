import Mathlib.Order.MinMax
import Mathlib.Data.List.Chain

/-! Spans between two ends of a linear order: what several of them have in common, and how a
list of them becomes one without overlaps. -/
namespace Spans

/-- What lies between two ends. -/
@[ext] structure Span (E : Type) where
  lo : E
  hi : E

namespace Span

variable {E : Type} [LinearOrder E] {s t p : Span E}

def Proper (s : Span E) : Prop := s.lo < s.hi

/-- The second span lies inside the first one. -/
def Covers (s p : Span E) : Prop := s.lo ≤ p.lo ∧ p.hi ≤ s.hi

/-- No end lies strictly inside an atom. -/
def Atomic (p : Span E) : Prop := p.Proper ∧ ∀ e, e ≤ p.lo ∨ p.hi ≤ e

def meet (s t : Span E) : Span E := ⟨max s.lo t.lo, min s.hi t.hi⟩

/-- The first span, extended to the end of a later one. -/
def join (s t : Span E) : Span E := ⟨s.lo, max s.hi t.hi⟩

/-- A later span starts before this one has ended, or there. -/
def Touches (s t : Span E) : Prop := t.lo ≤ s.hi

def Before (s t : Span E) : Prop := s.hi < t.lo

instance : Decidable (s.Touches t) := by unfold Touches; infer_instance

theorem covers_meet : (s.meet t).Covers p ↔ s.Covers p ∧ t.Covers p := by
  simp only [Covers, meet, max_le_iff, le_min_iff]
  exact and_and_and_comm

/-- Nothing lies between spans that touch. -/
theorem covers_join (hAtomic : p.Atomic) (hOrder : s.lo ≤ t.lo) (hTouches : s.Touches t) :
    (s.join t).Covers p ↔ s.Covers p ∨ t.Covers p := by
  simp only [Covers, join, le_max_iff]
  constructor
  · rintro ⟨hLow, hFirst | hSecond⟩
    · exact .inl ⟨hLow, hFirst⟩
    · rcases hAtomic.2 t.lo with hInside | hBehind
      · exact .inr ⟨hInside, hSecond⟩
      · exact .inl ⟨hLow, hBehind.trans hTouches⟩
  · rintro (⟨hLow, hHigh⟩ | ⟨hLow, hHigh⟩)
    · exact ⟨hLow, .inl hHigh⟩
    · exact ⟨hOrder.trans hLow, .inr hHigh⟩

end Span

section Common

variable {E : Type} [LinearOrder E]

/-- What all spans of a list have in common with a first one. -/
def meetAll (s : Span E) (spans : List (Span E)) : Span E := spans.foldl Span.meet s

theorem meetAll_lo_lt {s : Span E} {spans : List (Span E)} {e : E} : (meetAll s spans).lo < e ↔ ∀ t ∈ s :: spans, t.lo < e := by
  induction spans generalizing s with
  | nil => simp [meetAll]
  | cons t rest ih =>
      rw [meetAll, List.foldl_cons, ← meetAll, ih]
      simp [Span.meet, and_assoc]

theorem lt_meetAll_hi {s : Span E} {spans : List (Span E)} {e : E} : e < (meetAll s spans).hi ↔ ∀ t ∈ s :: spans, e < t.hi := by
  induction spans generalizing s with
  | nil => simp [meetAll]
  | cons t rest ih =>
      rw [meetAll, List.foldl_cons, ← meetAll, ih]
      simp [Span.meet, and_assoc]

/-- Spans have something in common exactly when each two of them have. -/
theorem meetAll_proper {s : Span E} {spans : List (Span E)} :
    (meetAll s spans).Proper ↔ ∀ t ∈ s :: spans, ∀ u ∈ s :: spans, t.lo < u.hi := by
  rw [Span.Proper, meetAll_lo_lt]
  exact forall₂_congr fun _ _ => lt_meetAll_hi

theorem covers_meetAll {s p : Span E} {spans : List (Span E)} :
    (meetAll s spans).Covers p ↔ s.Covers p ∧ ∀ t ∈ spans, t.Covers p := by
  induction spans generalizing s with
  | nil => simp [meetAll]
  | cons t rest ih =>
      rw [meetAll, List.foldl_cons, ← meetAll, ih, Span.covers_meet, List.forall_mem_cons, and_assoc]

end Common

section Coalesced

variable {E : Type} [LinearOrder E]

/-- Later spans either extend the last one or come behind it. -/
def coalesce (last : Span E) : List (Span E) → List (Span E)
  | [] => [last]
  | s :: rest => if last.Touches s then coalesce (last.join s) rest else last :: coalesce s rest

/-- Spans that start one behind the other. -/
def Ordered (spans : List (Span E)) : Prop := spans.Pairwise fun s t => s.lo ≤ t.lo

theorem coalesce_length (last : Span E) (spans : List (Span E)) :
    1 ≤ (coalesce last spans).length ∧ (coalesce last spans).length ≤ spans.length + 1 := by
  induction spans generalizing last with
  | nil => exact ⟨le_rfl, le_rfl⟩
  | cons s rest ih =>
      rw [coalesce, List.length_cons]
      split_ifs
      · have := ih (last.join s)
        exact ⟨this.1, this.2.trans (Nat.le_succ _)⟩
      · have := ih s
        exact ⟨Nat.le_add_left 1 _, Nat.succ_le_succ this.2⟩

/-- The spans of the result start where the first span did, or later. -/
theorem coalesce_head (last : Span E) (spans : List (Span E)) :
    ∃ first rest, coalesce last spans = first :: rest ∧ first.lo = last.lo := by
  induction spans generalizing last with
  | nil => exact ⟨last, [], rfl, rfl⟩
  | cons s rest ih =>
      rw [coalesce]
      split_ifs
      · exact ih (last.join s)
      · exact ⟨last, _, rfl, rfl⟩

theorem coalesce_proper {last : Span E} {spans : List (Span E)} (hLast : last.Proper) (h : ∀ s ∈ spans, s.Proper) :
    ∀ s ∈ coalesce last spans, s.Proper := by
  induction spans generalizing last with
  | nil =>
      intro s hs
      rw [List.mem_singleton.1 hs]
      exact hLast
  | cons t rest ih =>
      obtain ⟨hFirst, hRest⟩ := List.forall_mem_cons.1 h
      rw [coalesce]
      split_ifs
      · exact ih (lt_max_of_lt_left hLast) hRest
      · exact List.forall_mem_cons.2 ⟨hLast, ih hFirst hRest⟩

/-- Each span of the result ends before the next one starts. -/
theorem coalesce_before (last : Span E) (spans : List (Span E)) : (coalesce last spans).IsChain Span.Before := by
  induction spans generalizing last with
  | nil => exact .singleton last
  | cons s rest ih =>
      rw [coalesce]
      split_ifs with hTouches
      · exact ih (last.join s)
      · obtain ⟨first, others, hHead, hLow⟩ := coalesce_head s rest
        have hChain := ih s
        rw [hHead] at hChain ⊢
        refine .cons_cons ?_ hChain
        rw [Span.Before, hLow]
        exact lt_of_not_ge hTouches

/-- Nothing is lost and nothing is added. -/
theorem covers_coalesce {last p : Span E} {spans : List (Span E)} (hAtomic : p.Atomic) (hOrdered : Ordered (last :: spans)) :
    (∃ s ∈ coalesce last spans, s.Covers p) ↔ ∃ s ∈ last :: spans, s.Covers p := by
  induction spans generalizing last with
  | nil => exact Iff.rfl
  | cons s rest ih =>
      obtain ⟨hLast, hRest⟩ := List.pairwise_cons.1 hOrdered
      rw [coalesce]
      split_ifs with hTouches
      · have hJoined : Ordered (last.join s :: rest) :=
          List.pairwise_cons.2 ⟨fun t ht => hLast t (List.mem_cons_of_mem _ ht), (List.pairwise_cons.1 hRest).2⟩
        rw [ih hJoined]
        simp only [List.mem_cons, exists_eq_or_imp, Span.covers_join hAtomic (hLast s List.mem_cons_self) hTouches, or_assoc]
      · have hTail := ih hRest
        simp only [List.mem_cons, exists_eq_or_imp] at hTail ⊢
        exact or_congr_right hTail

end Coalesced

end Spans
