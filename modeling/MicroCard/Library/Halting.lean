import MicroCard.Library.Checks
import Mathlib.Logic.Relation

/-! Computations that refuse their input, panic, or never end. A loop carries a bound on
its iterations; that it never reaches the bound is proved with a measure. -/
namespace Halting

open CrashTriple

variable {ε α β σ : Type}

/-- Why a computation returned nothing. -/
inductive Halt (ε : Type) where
  | refused (e : ε)
  | panic
  | endless
  deriving DecidableEq, Repr

def refuseIf (c : Prop) [Decidable c] (e : ε) : Except (Halt ε) Unit := failIf c (.refused e)

def orRefuse (o : Option α) (e : ε) : Except (Halt ε) α := orFail o (.refused e)

/-- The element at an index, which the program takes without a check. -/
def index (items : List α) (i : Nat) : Except (Halt ε) α := orFail items[i]? .panic

/-- Repeat a step until it yields a result, for at most so many iterations. -/
def loop (step : σ → Except (Halt ε) (σ ⊕ α)) : Nat → σ → Except (Halt ε) α
  | 0, _ => .error .endless
  | fuel + 1, s =>
      match step s with
      | .error halt => .error halt
      | .ok (.inl next) => loop step fuel next
      | .ok (.inr a) => .ok a

/-- A computation returns a value with a property or refuses its input: it ends, and it
does not panic. -/
def Settles (x : Except (Halt ε) α) (P : α → Prop) : Prop :=
  match x with
  | .ok a => P a
  | .error (.refused _) => True
  | .error _ => False

section Rules

variable {x : Except (Halt ε) α} {P Q : α → Prop}

theorem Settles.ret {a : α} (h : P a) : Settles (.ok a : Except (Halt ε) α) P := h

theorem Settles.of_ok {a : α} (h : Settles x P) (hOk : x = .ok a) : P a := by
  rw [hOk] at h
  exact h

theorem Settles.weaken (h : Settles x P) (hImp : ∀ a, x = .ok a → P a → Q a) : Settles x Q := by
  cases x with
  | ok a => exact hImp a rfl h
  | error halt =>
      cases halt with
      | refused e => trivial
      | panic => exact h
      | endless => exact h

theorem Settles.bind {f : α → Except (Halt ε) β} {R : β → Prop} (h : Settles x P)
    (hNext : ∀ a, x = .ok a → P a → Settles (f a) R) : Settles (x >>= f) R := by
  cases x with
  | ok a => exact hNext a rfl h
  | error halt =>
      cases halt with
      | refused e => trivial
      | panic => exact h
      | endless => exact h

theorem Settles.refuseIf {c : Prop} [Decidable c] {e : ε} : Settles (Halting.refuseIf c e) fun _ => ¬c := by
  unfold Halting.refuseIf failIf
  split
  · trivial
  · assumption

theorem Settles.orRefuse {o : Option α} {e : ε} : Settles (Halting.orRefuse o e) fun a => o = some a := by
  cases o with
  | none => trivial
  | some a => exact rfl

theorem Settles.index {items : List α} {i : Nat} (h : i < items.length) :
    Settles (Halting.index items i : Except (Halt ε) α) fun a => items[i]? = some a := by
  unfold Halting.index orFail
  rw [List.getElem?_eq_getElem h]
  exact rfl

/-- A loop ends when a measure that its steps lower starts below its bound. -/
theorem Settles.loop {step : σ → Except (Halt ε) (σ ⊕ α)} {I : σ → Prop} (measure : σ → Nat)
    (hStep : ∀ s, I s → Settles (step s) fun
      | .inl next => I next ∧ measure next < measure s
      | .inr a => P a)
    {fuel : Nat} {start : σ} (hStart : I start) (hFuel : measure start < fuel) :
    Settles (Halting.loop step fuel start) P := by
  induction fuel generalizing start with
  | zero => exact absurd hFuel (Nat.not_lt_zero _)
  | succ fuel ih =>
      have hOnce := hStep start hStart
      unfold Halting.loop
      cases hRun : step start with
      | error halt =>
          rw [hRun] at hOnce
          cases halt with
          | refused e => trivial
          | panic => exact hOnce
          | endless => exact hOnce
      | ok next =>
          rw [hRun] at hOnce
          cases next with
          | inl next => exact ih hOnce.1 (Nat.lt_of_lt_of_le hOnce.2 (Nat.le_of_lt_succ hFuel))
          | inr a => exact hOnce

theorem Settles.foldlM {items : List β} {step : σ → β → Except (Halt ε) σ} {I : σ → Prop} {start : σ}
    (hStep : ∀ s b, b ∈ items → I s → Settles (step s b) I) (hStart : I start) :
    Settles (items.foldlM step start) I := by
  induction items generalizing start with
  | nil => exact hStart
  | cons b rest ih =>
      rw [List.foldlM_cons]
      exact (hStep start b List.mem_cons_self hStart).bind fun s _ hs =>
        ih (fun s c hc => hStep s c (List.mem_cons_of_mem _ hc)) hs

theorem Settles.mapM {items : List β} {f : β → Except (Halt ε) α} (h : ∀ b ∈ items, Settles (f b) P) :
    Settles (items.mapM f) fun results => results.length = items.length ∧ ∀ a ∈ results, P a := by
  induction items with
  | nil =>
      rw [List.mapM_nil]
      exact ⟨rfl, fun a ha => absurd ha List.not_mem_nil⟩
  | cons b rest ih =>
      rw [List.mapM_cons]
      apply (h b List.mem_cons_self).bind
      intro a _ ha
      apply (ih fun c hc => h c (List.mem_cons_of_mem _ hc)).bind
      intro results _ hResults
      apply Settles.ret
      constructor
      · simp [hResults.1]
      · intro c hc
        rcases List.mem_cons.1 hc with rfl | hc
        · exact ha
        · exact hResults.2 c hc

/-- Checks that ended made each of their steps. -/
theorem Settles.forM {items : List β} {check : β → Except (Halt ε) Unit} {R : β → Prop}
    (h : ∀ b ∈ items, Settles (check b) fun _ => R b) : Settles (items.forM check) fun _ => ∀ b ∈ items, R b := by
  induction items with
  | nil => exact fun b hb => absurd hb List.not_mem_nil
  | cons b rest ih =>
      change Settles (check b >>= fun _ => rest.forM check) _
      apply (h b List.mem_cons_self).bind
      intro _ _ hb
      apply (ih fun c hc => h c (List.mem_cons_of_mem _ hc)).weaken
      intro _ _ hRest c hc
      rcases List.mem_cons.1 hc with rfl | hc
      · exact hb
      · exact hRest c hc

end Rules

/-- A computation ends, whatever it returns. -/
def Ends (x : Except (Halt ε) α) : Prop := Settles x fun _ => True

section Ending

variable {x : Except (Halt ε) α}

theorem Settles.toEnds {P : α → Prop} (h : Settles x P) : Ends x := h.weaken fun _ _ _ => trivial

theorem Ends.and {P : α → Prop} (h : Ends x) (hOk : ∀ a, x = .ok a → P a) : Settles x P :=
  Settles.weaken h fun a hRun _ => hOk a hRun

@[simp] theorem ends_pure (a : α) : Ends (pure a : Except (Halt ε) α) := trivial

@[simp] theorem ends_throw (e : ε) : Ends (throw (.refused e) : Except (Halt ε) α) := trivial

@[simp] theorem ends_refuseIf (c : Prop) [Decidable c] (e : ε) : Ends (refuseIf c e) := Settles.refuseIf.toEnds

@[simp] theorem ends_orRefuse (o : Option α) (e : ε) : Ends (orRefuse o e) := Settles.orRefuse.toEnds

/-- After a step that ends, it is the rest that matters. -/
@[simp] theorem ends_bind (h : Ends x) {f : α → Except (Halt ε) β} : Ends (x >>= f) ↔ ∀ a, x = .ok a → Ends (f a) := by
  constructor
  · intro hAll a hRun
    rw [hRun] at hAll
    exact hAll
  · intro hRest
    exact Settles.bind h fun a hRun _ => hRest a hRun

@[simp] theorem ends_map (f : α → β) : Ends (x.map f) ↔ Ends x := by
  cases x with
  | ok a => exact Iff.rfl
  | error halt =>
      cases halt with
      | refused e => exact Iff.rfl
      | panic => exact Iff.rfl
      | endless => exact Iff.rfl

@[simp] theorem ends_functorMap (f : α → β) : Ends (f <$> x) ↔ Ends x := ends_map f

@[simp] theorem ends_ite {c : Prop} [Decidable c] {y : Except (Halt ε) α} :
    Ends (if c then x else y) ↔ (c → Ends x) ∧ (¬c → Ends y) := by
  split <;> simp [*]

/-- Of a computation that ends, only the value matters. -/
theorem settles_functorMap (h : Ends x) {f : α → β} {Q : β → Prop} : Settles (f <$> x) Q ↔ ∀ a, x = .ok a → Q (f a) := by
  constructor
  · intro hAll a hRun
    rw [hRun] at hAll
    exact hAll
  · intro hOk
    cases x with
    | ok a => exact hOk a rfl
    | error halt =>
        cases halt with
        | refused e => trivial
        | panic => exact h
        | endless => exact h

theorem settles_bind (h : Ends x) {f : α → Except (Halt ε) β} {Q : β → Prop} :
    Settles (x >>= f) Q ↔ ∀ a, x = .ok a → Settles (f a) Q := by
  constructor
  · intro hAll a hRun
    rw [hRun] at hAll
    exact hAll
  · exact fun hRest => Settles.bind h fun a hRun _ => hRest a hRun

theorem settles_pure (a : α) {P : α → Prop} : Settles (pure a : Except (Halt ε) α) P ↔ P a := Iff.rfl

end Ending

/-- What a loop that returned has gone through: a property that its steps keep, until the
step that ended it. -/
theorem loop_ok {step : σ → Except (Halt ε) (σ ⊕ α)} {I : σ → Prop}
    (hStep : ∀ s next, I s → step s = .ok (.inl next) → I next) {fuel : Nat} {start : σ} {a : α} (hStart : I start)
    (h : loop step fuel start = .ok a) : ∃ s, I s ∧ step s = .ok (.inr a) := by
  induction fuel generalizing start with
  | zero => cases h
  | succ fuel ih =>
      unfold loop at h
      cases hRun : step start with
      | error halt =>
          rw [hRun] at h
          cases h
      | ok next =>
          rw [hRun] at h
          cases next with
          | inl next => exact ih (hStep _ _ hStart hRun) h
          | inr b =>
              cases h
              exact ⟨start, hStart, hRun⟩

/-- A loop that returned got through every state that its steps lead to, and on from there. -/
theorem loop_rest {step : σ → Except (Halt ε) (σ ⊕ α)} {fuel : Nat} {start s : σ} {a : α}
    (h : loop step fuel start = .ok a) (hReached : Relation.ReflTransGen (fun s next => step s = .ok (.inl next)) start s) :
    ∃ fuel, loop step fuel s = .ok a := by
  induction fuel generalizing start with
  | zero => cases h
  | succ fuel ih =>
      cases hReached using Relation.ReflTransGen.head_induction_on with
      | refl => exact ⟨fuel + 1, h⟩
      | head hStep hRest =>
          unfold loop at h
          rw [hStep] at h
          exact ih h hRest

theorem loop_reached {step : σ → Except (Halt ε) (σ ⊕ α)} {fuel : Nat} {start s : σ} {a : α}
    (h : loop step fuel start = .ok a) (hReached : Relation.ReflTransGen (fun s next => step s = .ok (.inl next)) start s) :
    ∃ next, step s = .ok next := by
  obtain ⟨rest, hRest⟩ := loop_rest h hReached
  cases rest with
  | zero => cases hRest
  | succ rest =>
      unfold loop at hRest
      cases hRun : step s with
      | error halt =>
          rw [hRun] at hRest
          cases hRest
      | ok next => exact ⟨next, rfl⟩

end Halting
