import Mathlib

/-! Lists kept in strictly ascending order of a key, as a sorted vector with binary
search keeps them. The order makes the entry of a key unique. -/

/-- A list in strictly ascending order of the key of its entries. -/
structure KeyedList {α κ : Type} [LinearOrder κ] (key : α → κ) where
  entries : List α
  sorted : entries.Pairwise fun a b => key a < key b

namespace KeyedList

variable {α κ : Type} [LinearOrder κ] {key : α → κ}

theorem ext {m m' : KeyedList key} (h : m.entries = m'.entries) : m = m' := by
  cases m
  cases m'
  cases h
  rfl

instance [DecidableEq α] : DecidableEq (KeyedList key) := fun m m' =>
  decidable_of_iff (m.entries = m'.entries) ⟨ext, congrArg entries⟩

def empty : KeyedList key := ⟨[], List.Pairwise.nil⟩

def length (m : KeyedList key) : Nat := m.entries.length

def isEmpty (m : KeyedList key) : Bool := m.entries.isEmpty

/-- The entry of a key. -/
def find (m : KeyedList key) (k : κ) : Option α := m.entries.find? fun a => key a = k

def contains (m : KeyedList key) (k : κ) : Bool := (m.find k).isSome

/-- Everything but the entry of a key. -/
def erase (m : KeyedList key) (k : κ) : KeyedList key :=
  ⟨m.entries.filter fun a => key a ≠ k, m.sorted.filter _⟩

/-- Put an entry in its place, instead of the one that has its key. -/
def insert (m : KeyedList key) (a : α) : KeyedList key where
  entries := (m.entries.filter fun b => key b < key a) ++ a :: m.entries.filter fun b => key a < key b
  sorted := by
    rw [List.pairwise_append, List.pairwise_cons]
    refine ⟨m.sorted.filter _, ⟨fun b hb => by simpa using (List.mem_filter.1 hb).2, m.sorted.filter _⟩, ?_⟩
    intro b hb c hc
    have hLow : key b < key a := by simpa using (List.mem_filter.1 hb).2
    rcases List.mem_cons.1 hc with rfl | hc
    · exact hLow
    · have hHigh : key a < key c := by simpa using (List.mem_filter.1 hc).2
      exact hLow.trans hHigh

/-- All keys are below this one: it is enough to look at the last. -/
def Below (m : KeyedList key) (k : κ) : Prop := ∀ a ∈ m.entries.getLast?, key a < k

instance (m : KeyedList key) (k : κ) : Decidable (m.Below k) :=
  inferInstanceAs (Decidable (∀ a ∈ m.entries.getLast?, key a < k))

theorem Below.all {m : KeyedList key} {k : κ} (h : m.Below k) {a : α} (ha : a ∈ m.entries) : key a < k := by
  obtain ⟨front, last, hSplit⟩ : ∃ front last, m.entries = front ++ [last] :=
    ⟨_, _, (List.dropLast_append_getLast (List.ne_nil_of_mem ha)).symm⟩
  have hLast : key last < k := h last (by rw [hSplit]; simp)
  have hSorted := m.sorted
  rw [hSplit, List.pairwise_append] at hSorted
  rw [hSplit, List.mem_append, List.mem_singleton] at ha
  rcases ha with ha | rfl
  · exact (hSorted.2.2 a ha last (List.mem_singleton.2 rfl)).trans hLast
  · exact hLast

/-- Append an entry whose key is above all others. -/
def snoc (m : KeyedList key) (a : α) (h : m.Below (key a)) : KeyedList key where
  entries := m.entries ++ [a]
  sorted := by
    rw [List.pairwise_append]
    refine ⟨m.sorted, List.pairwise_singleton _ _, fun b hb c hc => ?_⟩
    rw [List.mem_singleton.1 hc]
    exact h.all hb

section Lookup

theorem unique {m : KeyedList key} {a b : α} (ha : a ∈ m.entries) (hb : b ∈ m.entries) (h : key a = key b) : a = b := by
  have hDistinct : m.entries.Pairwise fun a b => key a ≠ key b := m.sorted.imp fun hLt => ne_of_lt hLt
  have hSymm : Std.Symm fun a b : α => key a ≠ key b := ⟨fun _ _ hAb => hAb.symm⟩
  by_contra hNe
  exact hDistinct.forall ha hb hNe h

theorem find_eq_some {m : KeyedList key} {k : κ} {a : α} : m.find k = some a ↔ a ∈ m.entries ∧ key a = k := by
  constructor
  · intro h
    exact ⟨List.mem_of_find?_eq_some h, by simpa using List.find?_some h⟩
  · rintro ⟨ha, rfl⟩
    cases hFound : m.find (key a) with
    | none => exact absurd (List.find?_eq_none.1 hFound a ha) (by simp)
    | some b =>
        have hKey : key b = key a := by simpa using List.find?_some hFound
        rw [unique (List.mem_of_find?_eq_some hFound) ha hKey]

theorem find_eq_none {m : KeyedList key} {k : κ} : m.find k = none ↔ ∀ a ∈ m.entries, key a ≠ k := by
  simp [find]

theorem contains_iff {m : KeyedList key} {k : κ} : m.contains k = true ↔ ∃ a ∈ m.entries, key a = k := by
  simp [contains, find]

theorem mem_insert {m : KeyedList key} {a b : α} :
    b ∈ (m.insert a).entries ↔ b = a ∨ b ∈ m.entries ∧ key b ≠ key a := by
  simp only [insert, List.mem_append, List.mem_cons, List.mem_filter, decide_eq_true_eq, ne_eq]
  constructor
  · rintro (⟨hb, hLt⟩ | rfl | ⟨hb, hLt⟩)
    · exact .inr ⟨hb, ne_of_lt hLt⟩
    · exact .inl rfl
    · exact .inr ⟨hb, (ne_of_lt hLt).symm⟩
  · rintro (rfl | ⟨hb, hNe⟩)
    · exact .inr (.inl rfl)
    · rcases lt_or_gt_of_ne hNe with hLt | hLt
      · exact .inl ⟨hb, hLt⟩
      · exact .inr (.inr ⟨hb, hLt⟩)

theorem mem_erase {m : KeyedList key} {k : κ} {b : α} : b ∈ (m.erase k).entries ↔ b ∈ m.entries ∧ key b ≠ k := by
  simp [erase]

theorem nodup (m : KeyedList key) : m.entries.Nodup :=
  m.sorted.imp fun hLt hEq => (ne_of_lt hLt) (congrArg key hEq)

/-- Lists with the same members are the same, because the order is that of the key. -/
theorem ext_mem {m m' : KeyedList key} (h : ∀ a, a ∈ m.entries ↔ a ∈ m'.entries) : m = m' := by
  apply ext
  have hPerm : m.entries.Perm m'.entries := (List.perm_ext_iff_of_nodup m.nodup m'.nodup).2 h
  exact hPerm.eq_of_pairwise (fun _ _ _ _ hLt hGt => absurd hLt (lt_asymm hGt)) m.sorted m'.sorted

theorem find_insert {m : KeyedList key} {a : α} {k : κ} : (m.insert a).find k = if key a = k then some a else m.find k := by
  apply Option.ext
  intro b
  rw [find_eq_some, mem_insert]
  split_ifs with hKey
  · subst hKey
    rw [Option.some.injEq]
    constructor
    · rintro ⟨rfl | ⟨-, hNe⟩, hSame⟩
      · rfl
      · exact absurd hSame hNe
    · rintro rfl
      exact ⟨.inl rfl, rfl⟩
  · rw [find_eq_some]
    constructor
    · rintro ⟨rfl | ⟨hMem, -⟩, hSame⟩
      · exact absurd hSame hKey
      · exact ⟨hMem, hSame⟩
    · rintro ⟨hMem, hSame⟩
      exact ⟨.inr ⟨hMem, fun hSameKey => hKey (hSameKey.symm.trans hSame)⟩, hSame⟩

/-- An insertion is an erasure and the new entry. -/
theorem insert_perm (m : KeyedList key) (a : α) : (m.insert a).entries.Perm (a :: (m.erase (key a)).entries) := by
  rw [List.perm_ext_iff_of_nodup (m.insert a).nodup]
  · intro b
    rw [mem_insert, List.mem_cons, mem_erase]
  · rw [List.nodup_cons, mem_erase]
    exact ⟨fun h => h.2 rfl, (m.erase (key a)).nodup⟩

/-- The entry of a key and the others are all there is. -/
theorem erase_perm (m : KeyedList key) (k : κ) : ((m.find k).toList ++ (m.erase k).entries).Perm m.entries := by
  cases hFound : m.find k with
  | none =>
      have hAll : (m.erase k).entries = m.entries :=
        List.filter_eq_self.2 fun a ha => by simpa using find_eq_none.1 hFound a ha
      rw [hAll]
      exact List.Perm.refl _
  | some a =>
      obtain ⟨ha, rfl⟩ := find_eq_some.1 hFound
      rw [Option.toList_some, List.singleton_append, List.perm_ext_iff_of_nodup _ m.nodup]
      · intro b
        rw [List.mem_cons, mem_erase]
        constructor
        · rintro (rfl | ⟨hb, -⟩)
          · exact ha
          · exact hb
        · intro hb
          by_cases hKey : key b = key a
          · exact .inl (unique hb ha hKey)
          · exact .inr ⟨hb, hKey⟩
      · rw [List.nodup_cons, mem_erase]
        exact ⟨fun h => h.2 rfl, (m.erase (key a)).nodup⟩

theorem length_erase_le (m : KeyedList key) (k : κ) : (m.erase k).length ≤ m.length := List.length_filter_le _ _

theorem length_insert_le (m : KeyedList key) (a : α) : (m.insert a).length ≤ m.length + 1 := by
  have hLength := (m.insert_perm a).length_eq
  have hErase := m.length_erase_le (key a)
  simp only [length, List.length_cons] at *
  omega

theorem length_insert_of_contains {m : KeyedList key} {a : α} (h : m.contains (key a) = true) :
    (m.insert a).length = m.length := by
  obtain ⟨b, hFound⟩ := Option.isSome_iff_exists.1 h
  have hInsert := (m.insert_perm a).length_eq
  have hErase := (m.erase_perm (key a)).length_eq
  rw [hFound] at hErase
  simp only [length, List.length_cons, List.length_append, Option.toList_some, List.length_nil] at *
  omega

/-- What the entries weigh together. -/
def weight (m : KeyedList key) (f : α → Nat) : Nat := (m.entries.map f).sum

/-- What the entry of a key weighs. -/
def weightOf (m : KeyedList key) (f : α → Nat) (k : κ) : Nat := (m.find k).elim 0 f

theorem weight_erase (m : KeyedList key) (f : α → Nat) (k : κ) :
    m.weightOf f k + (m.erase k).weight f = m.weight f := by
  have h := ((m.erase_perm k).map f).sum_eq
  rw [List.map_append, List.sum_append] at h
  rw [weight, weight, ← h, weightOf]
  cases m.find k with
  | none => rfl
  | some a => simp

theorem weightOf_le (m : KeyedList key) (f : α → Nat) (k : κ) : m.weightOf f k ≤ m.weight f := by
  have h := m.weight_erase f k
  omega

theorem weight_insert (m : KeyedList key) (f : α → Nat) (a : α) :
    (m.insert a).weight f = m.weight f - m.weightOf f (key a) + f a := by
  have h := ((m.insert_perm a).map f).sum_eq
  have hErase := m.weight_erase f (key a)
  rw [List.map_cons, List.sum_cons] at h
  simp only [weight] at *
  omega

end Lookup

end KeyedList
