import MicroCard.Library.BerTlv
import Mathlib.Data.Nat.Bitwise

/-! Non-negative integers as distinguished objects. A number is its bytes behind the leading
zeros; its content puts one zero in front of a high bit, so that no content reads as negative
and every number has one content. -/
namespace DerIntegers

open Bytes BerTlv

section Bits

theorem high_bit (b : Byte) : b &&& 0x80 = 0 ↔ b.toNat < 128 := by
  have hByte := b.toNat_lt
  rw [← UInt8.toNat_inj, UInt8.toNat_and]
  change b.toNat &&& 2 ^ 7 = 0 ↔ _
  rw [Nat.and_two_pow, Nat.testBit_eq_decide_div_mod_eq]
  by_cases hHigh : b.toNat / 2 ^ 7 % 2 = 1
  · rw [decide_eq_true hHigh]
    simp only [Bool.toNat_true]
    omega
  · rw [decide_eq_false hHigh]
    simp only [Bool.toNat_false]
    omega

end Bits

section Magnitudes

/-- The bytes of a number behind its leading zeros; zero keeps its last byte. -/
def magnitude : List Byte → List Byte
  | [] => []
  | [b] => [b]
  | b :: next :: rest => if b = 0 then magnitude (next :: rest) else b :: next :: rest

/-- A number that is not zero, without leading zeros. -/
def Positive (m : List Byte) : Prop := ∃ b rest, m = b :: rest ∧ b ≠ 0

/-- No byte can be left out: the number is zero in one byte, or does not start with zero. -/
def Minimal (m : List Byte) : Prop := m = [0] ∨ Positive m

theorem Positive.minimal {m : List Byte} (h : Positive m) : Minimal m := .inr h

theorem Minimal.ne_nil {m : List Byte} (h : Minimal m) : m ≠ [] := by
  rcases h with rfl | ⟨b, rest, rfl, -⟩
  · exact List.cons_ne_nil _ _
  · exact List.cons_ne_nil _ _

theorem magnitude_minimal {bytes : List Byte} (h : bytes ≠ []) : Minimal (magnitude bytes) := by
  induction bytes using magnitude.induct with
  | case1 => exact absurd rfl h
  | case2 b =>
      by_cases hZero : b = 0
      · exact .inl (by rw [magnitude, hZero])
      · exact .inr ⟨b, [], rfl, hZero⟩
  | case3 next rest ih =>
      rw [magnitude, if_pos rfl]
      exact ih (List.cons_ne_nil _ _)
  | case4 b next rest hSome =>
      rw [magnitude, if_neg hSome]
      exact .inr ⟨b, next :: rest, rfl, hSome⟩

/-- A number with a byte other than zero has a positive magnitude. -/
theorem magnitude_positive {bytes : List Byte} (h : ∃ b ∈ bytes, b ≠ 0) : Positive (magnitude bytes) := by
  induction bytes using magnitude.induct with
  | case1 =>
      obtain ⟨b, hMem, -⟩ := h
      exact absurd hMem List.not_mem_nil
  | case2 b =>
      obtain ⟨c, hMem, hSome⟩ := h
      rw [List.mem_singleton.1 hMem] at hSome
      exact ⟨b, [], rfl, hSome⟩
  | case3 next rest ih =>
      rw [magnitude, if_pos rfl]
      obtain ⟨c, hMem, hSome⟩ := h
      rcases List.mem_cons.1 hMem with rfl | hLater
      · exact absurd rfl hSome
      · exact ih ⟨c, hLater, hSome⟩
  | case4 b next rest hSome =>
      rw [magnitude, if_neg hSome]
      exact ⟨b, next :: rest, rfl, hSome⟩

theorem Minimal.magnitude_eq {m : List Byte} (h : Minimal m) : magnitude m = m := by
  rcases h with rfl | ⟨b, rest, rfl, hSome⟩
  · rfl
  · cases rest with
    | nil => rfl
    | cons next rest => rw [magnitude, if_neg hSome]

/-- The scan for the first byte that is not zero finds where the magnitude starts. -/
theorem drop_scan {bytes : List Byte} (h : bytes ≠ []) :
    bytes.drop ((bytes.findIdx? (· ≠ 0)).getD (bytes.length - 1)) = magnitude bytes ∧
      (bytes.findIdx? (· ≠ 0)).getD (bytes.length - 1) < bytes.length := by
  induction bytes using magnitude.induct with
  | case1 => exact absurd rfl h
  | case2 b => by_cases hZero : b = 0 <;> simp [magnitude, List.findIdx?_cons, hZero]
  | case3 next rest ih =>
      obtain ⟨hDrop, hInside⟩ := ih (List.cons_ne_nil _ _)
      have hScan : (((0 : Byte) :: next :: rest).findIdx? (· ≠ 0)).getD ((0 :: next :: rest : List Byte).length - 1) =
          ((next :: rest).findIdx? (· ≠ 0)).getD ((next :: rest).length - 1) + 1 := by
        rw [List.findIdx?_cons, if_neg (by decide)]
        cases (next :: rest).findIdx? (· ≠ 0) with
        | none => simp
        | some i => simp
      rw [hScan, magnitude, if_pos rfl, List.drop_succ_cons, List.length_cons]
      exact ⟨hDrop, Nat.succ_lt_succ hInside⟩
  | case4 b next rest hSome =>
      rw [magnitude, if_neg hSome, List.findIdx?_cons, if_pos (decide_eq_true hSome)]
      exact ⟨rfl, Nat.succ_pos _⟩

/-- The number is its leading zeros in front of the magnitude. -/
theorem zeros_magnitude (bytes : List Byte) :
    List.replicate (bytes.length - (magnitude bytes).length) 0 ++ magnitude bytes = bytes ∧
      (magnitude bytes).length ≤ bytes.length := by
  induction bytes using magnitude.induct with
  | case1 => exact ⟨rfl, Nat.le_refl _⟩
  | case2 b => exact ⟨by simp [magnitude], Nat.le_refl _⟩
  | case3 next rest ih =>
      obtain ⟨hWhole, hLength⟩ := ih
      rw [magnitude, if_pos rfl]
      have hMore : (0 :: next :: rest : List Byte).length - (magnitude (next :: rest)).length =
          ((next :: rest).length - (magnitude (next :: rest)).length) + 1 := by
        simp only [List.length_cons] at hLength ⊢
        omega
      rw [hMore, List.replicate_succ, List.cons_append, hWhole]
      exact ⟨rfl, Nat.le_succ_of_le hLength⟩
  | case4 b next rest hSome =>
      rw [magnitude, if_neg hSome]
      exact ⟨by simp, Nat.le_refl _⟩

/-- Zeros in front do not change a magnitude. -/
theorem magnitude_zeros {m : List Byte} (h : m ≠ []) (count : Nat) :
    magnitude (List.replicate count 0 ++ m) = magnitude m := by
  induction count with
  | zero => rfl
  | succ count ih =>
      rw [List.replicate_succ, List.cons_append]
      obtain ⟨b, rest, hRest⟩ : ∃ b rest, List.replicate count (0 : Byte) ++ m = b :: rest :=
        List.exists_cons_of_ne_nil (by simp [h])
      rw [hRest] at ih ⊢
      rw [magnitude, if_pos rfl, ih]

end Magnitudes

section Contents

/-- The content of an integer: a high bit gets a zero in front of it. -/
def content (m : List Byte) : List Byte := if 128 ≤ (m.headD 0).toNat then 0 :: m else m

/-- The number that a content stands for, where it is minimal and not negative. -/
def readContent : List Byte → Option (List Byte)
  | [] => none
  | first :: tail =>
      if 128 ≤ first.toNat then none
      else if first = 0 then
        match tail with
        | [] => some [0]
        | next :: rest => if next.toNat < 128 then none else some (next :: rest)
      else some (first :: tail)

theorem content_cons (b : Byte) (rest : List Byte) :
    content (b :: rest) = if 128 ≤ b.toNat then 0 :: b :: rest else b :: rest := rfl

theorem length_content (m : List Byte) :
    (content m).length = m.length + if 128 ≤ (m.headD 0).toNat then 1 else 0 := by
  unfold content
  split <;> simp

/-- A content reads as a number exactly when it is the content of that number. -/
theorem readContent_iff {bytes m : List Byte} : readContent bytes = some m ↔ Minimal m ∧ bytes = content m := by
  constructor
  · intro h
    cases bytes with
    | nil => cases h
    | cons first tail =>
        simp only [readContent] at h
        split_ifs at h with hHigh hZero
        · cases tail with
          | nil =>
              obtain rfl := Option.some.inj h
              exact ⟨.inl rfl, by rw [hZero]; rfl⟩
          | cons next rest =>
              dsimp only at h
              split_ifs at h with hLow
              obtain rfl := Option.some.inj h
              refine ⟨.inr ⟨next, rest, rfl, ?_⟩, ?_⟩
              · rintro rfl
                exact hLow (by decide)
              · rw [content_cons, if_pos (Nat.not_lt.1 hLow), hZero]
        · obtain rfl := Option.some.inj h
          refine ⟨.inr ⟨first, tail, rfl, hZero⟩, ?_⟩
          rw [content_cons, if_neg hHigh]
  · rintro ⟨hMinimal, rfl⟩
    rcases hMinimal with rfl | ⟨b, rest, rfl, hSome⟩
    · rfl
    · by_cases hHigh : 128 ≤ b.toNat
      · rw [content_cons, if_pos hHigh, readContent, if_neg (by decide), if_pos rfl]
        exact if_neg (Nat.not_lt.2 hHigh)
      · rw [content_cons, if_neg hHigh, readContent.eq_def]
        dsimp only
        rw [if_neg hHigh, if_neg hSome]

end Contents

section Objects

/-- A value behind a tag of one octet. -/
def itemBytes (tag : Byte) (value : List Byte) : List Byte := tag :: lengthBytes value.length ++ value

/-- The encoding of an integer. -/
def integerBytes (m : List Byte) : List Byte := itemBytes 2 (content m)

/-- The encodings of some integers, one behind the other. -/
def bodyBytes (ms : List (List Byte)) : List Byte := (ms.map integerBytes).flatten

/-- The encoding of a sequence of integers. -/
def sequenceBytes (ms : List (List Byte)) : List Byte := itemBytes 0x30 (bodyBytes ms)

theorem length_itemBytes (tag : Byte) (value : List Byte) :
    (itemBytes tag value).length = 1 + (lengthBytes value.length).length + value.length := by
  rw [itemBytes, List.length_append, List.length_cons]
  omega

@[simp] theorem bodyBytes_nil : bodyBytes [] = [] := rfl

@[simp] theorem bodyBytes_cons (m : List Byte) (ms : List (List Byte)) :
    bodyBytes (m :: ms) = integerBytes m ++ bodyBytes ms := rfl

end Objects

end DerIntegers
