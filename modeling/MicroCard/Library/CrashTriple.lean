import Mathlib

/-! Pre- and postconditions for stateful programs whose failures keep the state
they had reached. A failing program is not rolled back, so a triple carries a
second postcondition for the state an error leaves behind: for a device that can
lose power at any step, that is the condition recovery starts from. -/
namespace CrashTriple

section Control

variable {ε α : Type} {m : Type → Type} [Monad m] [MonadExcept ε m]

/-- Fail with `e` when the condition holds. -/
def failIf (c : Prop) [Decidable c] (e : ε) : m Unit :=
  if c then throw e else pure ()

/-- The value of an option, or failure with `e`. -/
def orFail (o : Option α) (e : ε) : m α :=
  match o with
  | some a => pure a
  | none => throw e

/-- Run an action only when the condition holds. -/
def onlyIf (c : Prop) [Decidable c] (action : m Unit) : m Unit :=
  if c then action else pure ()

end Control

variable {ε σ α β : Type}

/-- The state a run ends in, whether it returns or fails. -/
def final : EStateM.Result ε σ α → σ
  | .ok _ s => s
  | .error _ s => s

/-- From every state satisfying `P` the program either returns into `Q` or
fails into `C`. Both outcomes are total: nothing is said about running out of
time because an `EStateM` program always ends. -/
def Triple (P : σ → Prop) (program : EStateM ε σ α) (Q : α → σ → Prop) (C : ε → σ → Prop) : Prop :=
  ∀ s, P s → match program s with
    | .ok a s' => Q a s'
    | .error e s' => C e s'

variable {P P' : σ → Prop} {Q Q' : α → σ → Prop} {C C' : ε → σ → Prop}

theorem Triple.ok {program : EStateM ε σ α} (h : Triple P program Q C) {s s' : σ} {a : α}
    (hs : P s) (hRun : program s = .ok a s') : Q a s' := by
  have := h s hs
  rwa [hRun] at this

theorem Triple.error {program : EStateM ε σ α} (h : Triple P program Q C) {s s' : σ} {e : ε}
    (hs : P s) (hRun : program s = .error e s') : C e s' := by
  have := h s hs
  rwa [hRun] at this

/-- One condition for both outcomes is a condition on where the run ends. -/
theorem Triple.final {program : EStateM ε σ α} {R : σ → Prop} (h : Triple P program (fun _ => R) fun _ => R) {s : σ}
    (hs : P s) : R (final (program s)) := by
  have hRun := h s hs
  cases hProgram : program s with
  | ok a s' =>
      rw [hProgram] at hRun
      exact hRun
  | error e s' =>
      rw [hProgram] at hRun
      exact hRun

theorem Triple.ret {a : α} (h : ∀ s, P s → Q a s) :
    Triple P (pure a : EStateM ε σ α) Q C :=
  fun s hs => h s hs

theorem Triple.raise {e : ε} (h : ∀ s, P s → C e s) :
    Triple P (throw e : EStateM ε σ α) Q C :=
  fun s hs => h s hs

theorem Triple.update {update : σ → σ} {R : PUnit → σ → Prop} (h : ∀ s, P s → R ⟨⟩ (update s)) :
    Triple P (modify update : EStateM ε σ PUnit) R C :=
  fun s hs => h s hs

/-- A read-only result keeps the state it was computed in. -/
def readOnly (result : Except ε α) : EStateM ε σ α := fun s =>
  match result with
  | .ok a => .ok a s
  | .error e => .error e s

/-- Run a program and hand its outcome on as a value; the state it reached is
kept in both cases. -/
def capture (program : EStateM ε σ α) : EStateM ε σ (Except ε α) := fun s =>
  match program s with
  | .ok a s' => .ok (.ok a) s'
  | .error e s' => .ok (.error e) s'

theorem Triple.readOnly {result : Except ε α} (hOk : ∀ a, result = .ok a → ∀ s, P s → Q a s)
    (hError : ∀ e, result = .error e → ∀ s, P s → C e s) :
    Triple P (readOnly result) Q C := by
  intro s hs
  cases h : result with
  | ok a => exact hOk a h s hs
  | error e => exact hError e h s hs

/-- A captured failure is a value, so nothing is left that could fail. -/
theorem Triple.capture {program : EStateM ε σ α} {R : σ → Prop} (h : Triple P program (fun _ => R) fun _ => R) :
    Triple P (capture program) (fun _ => R) C := by
  intro s hs
  have hRun := h s hs
  simp only [CrashTriple.capture]
  cases hProgram : program s with
  | ok a s' =>
      rw [hProgram] at hRun
      exact hRun
  | error e s' =>
      rw [hProgram] at hRun
      exact hRun

/-- Weaken all three conditions at once. -/
theorem Triple.conseq {program : EStateM ε σ α} (h : Triple P program Q C)
    (hPre : ∀ s, P' s → P s) (hPost : ∀ a s, Q a s → Q' a s) (hCrash : ∀ e s, C e s → C' e s) :
    Triple P' program Q' C' := by
  intro s hs
  have := h s (hPre s hs)
  split at this
  · exact hPost _ _ this
  · exact hCrash _ _ this

/-- Two specifications of one program hold together. -/
theorem Triple.and {program : EStateM ε σ α} (h : Triple P program Q C) (h' : Triple P program Q' C') :
    Triple P program (fun a s => Q a s ∧ Q' a s) fun e s => C e s ∧ C' e s := by
  intro s hs
  have hFirst := h s hs
  have hSecond := h' s hs
  cases hRun : program s with
  | ok a s' =>
      rw [hRun] at hFirst hSecond
      exact ⟨hFirst, hSecond⟩
  | error e s' =>
      rw [hRun] at hFirst hSecond
      exact ⟨hFirst, hSecond⟩

/-- Sequencing: one crash condition serves both halves. -/
theorem Triple.bind {first : EStateM ε σ α} {next : α → EStateM ε σ β} {R : β → σ → Prop}
    (hFirst : Triple P first Q C) (hNext : ∀ a, Triple (Q a) (next a) R C) :
    Triple P (first >>= next) R C := by
  intro s hs
  have h := hFirst s hs
  simp only [Bind.bind, EStateM.bind]
  split at h
  · rename_i a s' hRun
    rw [hRun]
    exact hNext a s' h
  · rename_i e s' hRun
    rw [hRun]
    exact h

/-- Fix the state a program starts from. -/
theorem Triple.of_state {program : EStateM ε σ α}
    (h : ∀ s₀, P s₀ → Triple (fun s => s = s₀) program Q C) : Triple P program Q C :=
  fun s hs => h s hs s rfl

/-- Run a specified program from one state that satisfies its precondition. -/
theorem Triple.at {program : EStateM ε σ α} (h : Triple P program Q C) {s₀ : σ} (hs : P s₀) :
    Triple (fun s => s = s₀) program Q C :=
  fun s hEq => h s (hEq ▸ hs)

/-- Reading the state fixes it for what follows. -/
theorem Triple.get {next : σ → EStateM ε σ α}
    (h : ∀ s₀, P s₀ → Triple (fun s => s = s₀) (next s₀) Q C) : Triple P (get >>= next) Q C :=
  fun s hs => h s hs s rfl

theorem Triple.readOnly_bind {result : Except ε α} {next : α → EStateM ε σ β} {R : β → σ → Prop}
    (hOk : ∀ a, result = .ok a → Triple P (next a) R C)
    (hError : ∀ e, result = .error e → ∀ s, P s → C e s) :
    Triple P (CrashTriple.readOnly result >>= next) R C := by
  cases hResult : result with
  | ok a => exact hOk a hResult
  | error e => exact fun s hs => hError e hResult s hs

/-- A result known in advance is passed on. -/
theorem Triple.readOnly_of_ok {result : Except ε α} {a : α} {next : α → EStateM ε σ β} {R : β → σ → Prop}
    (hOk : result = .ok a) (hNext : Triple P (next a) R C) : Triple P (CrashTriple.readOnly result >>= next) R C := by
  rw [hOk]
  exact hNext

/-- After a captured program the two outcomes are continued separately. -/
theorem Triple.capture_bind {program : EStateM ε σ α} {next : Except ε α → EStateM ε σ β} {R : β → σ → Prop}
    {D : ε → σ → Prop} (hProgram : Triple P program Q D) (hOk : ∀ a, Triple (Q a) (next (.ok a)) R C)
    (hError : ∀ e, Triple (D e) (next (.error e)) R C) : Triple P (CrashTriple.capture program >>= next) R C := by
  intro s hs
  have hRun := hProgram s hs
  simp only [Bind.bind, EStateM.bind, CrashTriple.capture]
  cases h : program s with
  | ok a s' =>
      rw [h] at hRun
      exact hOk a s' hRun
  | error e s' =>
      rw [h] at hRun
      exact hError e s' hRun

theorem Triple.failIf_bind {c : Prop} [Decidable c] {e : ε} {next : Unit → EStateM ε σ α}
    (hFail : c → ∀ s, P s → C e s) (hPass : ¬c → Triple P (next ()) Q C) :
    Triple P (CrashTriple.failIf c e >>= next) Q C := by
  by_cases hc : c
  · rw [CrashTriple.failIf, if_pos hc]
    exact fun s hs => hFail hc s hs
  · rw [CrashTriple.failIf, if_neg hc]
    exact hPass hc

theorem Triple.orFail_bind {o : Option α} {e : ε} {next : α → EStateM ε σ β} {R : β → σ → Prop}
    (hFail : o = none → ∀ s, P s → C e s) (hPass : ∀ a, o = some a → Triple P (next a) R C) :
    Triple P (CrashTriple.orFail o e >>= next) R C := by
  cases ho : o with
  | none =>
      intro s hs
      exact hFail ho s hs
  | some a => exact hPass a ho

theorem Triple.onlyIf {c : Prop} [Decidable c] {action : EStateM ε σ Unit} {R : Unit → σ → Prop}
    (hRun : c → Triple P action R C) (hSkip : ¬c → ∀ s, P s → R () s) :
    Triple P (CrashTriple.onlyIf c action) R C := by
  by_cases hc : c
  · rw [CrashTriple.onlyIf, if_pos hc]
    exact hRun hc
  · rw [CrashTriple.onlyIf, if_neg hc]
    exact Triple.ret (hSkip hc)

/-- A loop over a list keeps an invariant indexed by the number of finished
iterations; a failing iteration has to leave the crash condition. -/
theorem Triple.forM {items : List α} {body : α → EStateM ε σ PUnit} (I : Nat → σ → Prop)
    (hStep : ∀ k (h : k < items.length), Triple (I k) (body items[k]) (fun _ => I (k + 1)) C) :
    Triple (I 0) (items.forM body) (fun _ => I items.length) C := by
  induction items generalizing I with
  | nil => exact Triple.ret fun s hs => hs
  | cons item rest ih =>
      change Triple (I 0) (body item >>= fun _ => rest.forM body) _ C
      refine Triple.bind (hStep 0 (by simp)) fun _ => ?_
      exact ih (fun k => I (k + 1)) fun k hk => hStep (k + 1) (Nat.succ_lt_succ hk)

section Invariant

/-- A condition a program keeps, whether it returns or fails. -/
def Invariant (P : σ → Prop) (program : EStateM ε σ α) : Prop :=
  Triple P program (fun _ => P) fun _ => P

theorem Invariant.at {program : EStateM ε σ α} (h : Invariant P program) {s₀ : σ} (hs : P s₀) :
    Triple (fun s => s = s₀) program (fun _ => P) fun _ => P :=
  fun s hEq => h s (hEq ▸ hs)

theorem Invariant.bind {first : EStateM ε σ α} {next : α → EStateM ε σ β} (hFirst : Invariant P first)
    (hNext : ∀ a, Invariant P (next a)) : Invariant P (first >>= next) :=
  Triple.bind hFirst hNext

theorem Invariant.ret (a : α) : Invariant P (pure a : EStateM ε σ α) := fun _ hs => hs

theorem Invariant.get {next : σ → EStateM ε σ α} (hNext : ∀ s, Invariant P (next s)) : Invariant P (get >>= next) :=
  fun s hs => hNext s s hs

theorem Invariant.update {update : σ → σ} (h : ∀ s, P s → P (update s)) :
    Invariant P (modify update : EStateM ε σ PUnit) := h

theorem Invariant.readOnly (result : Except ε α) : Invariant P (readOnly result) :=
  Triple.readOnly (fun _ _ _ hs => hs) fun _ _ _ hs => hs

theorem Invariant.failIf (c : Prop) [Decidable c] (e : ε) : Invariant P (CrashTriple.failIf c e : EStateM ε σ Unit) := by
  intro s hs
  by_cases hc : c
  · rw [CrashTriple.failIf, if_pos hc]
    exact hs
  · rw [CrashTriple.failIf, if_neg hc]
    exact hs

theorem Invariant.orFail (o : Option α) (e : ε) : Invariant P (CrashTriple.orFail o e : EStateM ε σ α) := by
  intro s hs
  cases o with
  | none => exact hs
  | some a => exact hs

theorem Invariant.onlyIf {c : Prop} [Decidable c] {action : EStateM ε σ Unit} (h : Invariant P action) :
    Invariant P (CrashTriple.onlyIf c action) :=
  Triple.onlyIf (fun _ => h) fun _ _ hs => hs

theorem Invariant.forM {items : List α} {body : α → EStateM ε σ PUnit} (h : ∀ a, Invariant P (body a)) :
    Invariant P (items.forM body) :=
  Triple.forM (fun _ => P) fun _ _ => h _

end Invariant

end CrashTriple
