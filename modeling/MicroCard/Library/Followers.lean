import MicroCard.Library.Codec
import Mathlib.Control.Monad.Writer
import Mathlib.Data.Option.Basic

/-! A reader that follows a writer. The two may be strict about different things, but
where the reader accepts what the writer put out it returns the value that was written. -/
namespace Codec

open CrashTriple

/-- A program that may fail and puts out bytes on its way. -/
abbrev Output := WriterT (List UInt8) Option

namespace Output

variable {α β : Type}

theorem bind_run {first : Output α} {next : α → Output β} {b : β} {bytes : List UInt8} :
    (first >>= next).run = some (b, bytes) ↔
      ∃ a front back, first.run = some (a, front) ∧ (next a).run = some (b, back) ∧ bytes = front ++ back := by
  show (first.run >>= fun out => (fun out' => (out'.1, out.2 ++ out'.2)) <$> (next out.1).run) = _ ↔ _
  cases first.run with
  | none => simp
  | some out =>
      obtain ⟨a, front⟩ := out
      simp only [Option.bind_eq_bind, Option.bind_some, Option.map_eq_map, Option.map_eq_some_iff, Prod.mk.injEq,
        Option.some.injEq, Prod.exists]
      constructor
      · rintro ⟨_, back, hNext, rfl, rfl⟩
        exact ⟨a, front, back, ⟨rfl, rfl⟩, hNext, rfl⟩
      · rintro ⟨_, _, back, ⟨rfl, rfl⟩, hNext, rfl⟩
        exact ⟨b, back, hNext, rfl, rfl⟩

/-- Whatever is looked at beforehand puts nothing out. -/
theorem given_run {source : Option α} {program : α → Output β} {b : β} {bytes : List UInt8} :
    (liftM source >>= program).run = some (b, bytes) ↔ ∃ a, source = some a ∧ (program a).run = some (b, bytes) := by
  rw [bind_run]
  have hLift {a : α} {front : List UInt8} : (liftM source : Output α).run = some (a, front) ↔ source = some a ∧ front = [] := by
    show (fun a => (a, [])) <$> source = some (a, front) ↔ _
    cases source with
    | none => simp
    | some b => simp [eq_comm]
  simp only [hLift]
  constructor
  · rintro ⟨a, _, back, ⟨hSource, rfl⟩, hBack, rfl⟩
    exact ⟨a, hSource, hBack⟩
  · rintro ⟨a, hSource, hRun⟩
    exact ⟨a, [], bytes, ⟨hSource, rfl⟩, hRun, rfl⟩

theorem require_run {p : Prop} [Decidable p] {program : Output β} {b : β} {bytes : List UInt8} :
    (liftM (guard p : Option Unit) >>= fun _ => program).run = some (b, bytes) ↔ p ∧ program.run = some (b, bytes) := by
  simp only [given_run, Option.guard_eq_some', exists_const]

theorem tell_run {front bytes : List UInt8} {u : PUnit} :
    (tell front : Output PUnit).run = some (u, bytes) ↔ bytes = front := by
  show some (PUnit.unit, front) = some (u, bytes) ↔ _
  simp [eq_comm]

theorem pure_run {a b : α} {bytes : List UInt8} : (pure a : Output α).run = some (b, bytes) ↔ a = b ∧ bytes = [] := by
  show some (a, []) = some (b, bytes) ↔ _
  simp [eq_comm]

end Output

section Follows

variable {ε α β γ : Type}

/-- Over what the program puts out, and anything behind it, the reader refuses or returns
this value and stops where the output does. -/
def Follows (program : Output PUnit) (read : Reader ε α) (value : Option α) : Prop :=
  ∀ bytes, program.run = some ((), bytes) → ∀ rest a rest', read (bytes ++ rest) = .ok a rest' → value = some a ∧ rest' = rest

variable {program first second : Output PUnit} {read : Reader ε α} {next : α → Reader ε β} {value : Option α}
  {values : α → Option β}

theorem Follows.bind (hFirst : Follows first read value) (hSecond : ∀ a, value = some a → Follows second (next a) (values a)) :
    Follows (first >>= fun _ => second) (read >>= next) (value >>= values) := by
  intro bytes hRun rest b rest' hRead
  obtain ⟨_, front, back, hFront, hBack, rfl⟩ := Output.bind_run.1 hRun
  obtain ⟨a, middle, hStart, hEnd⟩ := bind_ok.1 hRead
  rw [List.append_assoc] at hStart
  obtain ⟨rfl, rfl⟩ := hFirst front hFront _ _ _ hStart
  exact hSecond a rfl back hBack rest b rest' hEnd

/-- A part whose value says nothing. -/
theorem Follows.step {skip : Reader ε Unit} {next : Unit → Reader ε α} (hFirst : Follows first skip (some ()))
    (hSecond : Follows second (next ()) value) : Follows (first >>= fun _ => second) (skip >>= next) value :=
  @Follows.bind _ _ _ _ _ _ _ _ (fun _ => value) hFirst fun _ _ => hSecond

/-- The writer and the value look at the same source. -/
theorem Follows.given {source : Option γ} {program : γ → Output PUnit} {value : γ → Option α}
    (h : ∀ c, source = some c → Follows (program c) read (value c)) :
    Follows (liftM source >>= program) read (source >>= value) := by
  intro bytes hRun
  obtain ⟨c, rfl, hProgram⟩ := Output.given_run.1 hRun
  exact h c rfl bytes hProgram

/-- What the writer alone looks at. -/
theorem Follows.look {source : Option γ} {program : γ → Output PUnit}
    (h : ∀ c, source = some c → Follows (program c) read value) : Follows (liftM source >>= program) read value := by
  intro bytes hRun
  obtain ⟨c, hSource, hProgram⟩ := Output.given_run.1 hRun
  exact h c hSource bytes hProgram

/-- The writer looks at the source more closely than the value does. -/
theorem Follows.through {source source' : Option γ} {program : γ → Output PUnit} {value : γ → Option α}
    (hSame : ∀ c, source = some c → source' = some c) (h : ∀ c, source = some c → Follows (program c) read (value c)) :
    Follows (liftM source >>= program) read (source' >>= value) := by
  apply Follows.look
  intro c hSource
  rw [hSame c hSource]
  exact h c hSource

/-- What the writer alone checks. -/
theorem Follows.require {p : Prop} [Decidable p] (h : p → Follows program read value) :
    Follows (liftM (guard p : Option Unit) >>= fun _ => program) read value := by
  intro bytes hRun
  obtain ⟨hp, hProgram⟩ := Output.require_run.1 hRun
  exact h hp bytes hProgram

/-- What the reader alone checks. -/
theorem Follows.refuse {c : Prop} [Decidable c] {e : ε} {next : Unit → Reader ε α} (h : Follows program (next ()) value) :
    Follows program (failIf c e >>= next) value := by
  intro bytes hRun rest a rest' hRead
  obtain ⟨_, _, hCheck, hNext⟩ := bind_ok.1 hRead
  obtain ⟨-, rfl⟩ := failIf_ok.1 hCheck
  exact h bytes hRun rest a rest' hNext

theorem Follows.ret (a : α) : Follows (pure ()) (pure a : Reader ε α) (some a) := by
  intro bytes hRun rest b rest' hRead
  obtain ⟨-, rfl⟩ := Output.pure_run.1 hRun
  obtain ⟨rfl, rfl⟩ := pure_ok.1 hRead
  exact ⟨rfl, rfl⟩

/-- The value of the last part, made into something else. -/
theorem Follows.map (f : α → β) (h : Follows program read value) :
    Follows program (read >>= fun a => pure (f a)) (value.map f) := by
  intro bytes hRun rest b rest' hRead
  obtain ⟨a, _, hStart, hEnd⟩ := bind_ok.1 hRead
  obtain ⟨rfl, rfl⟩ := h bytes hRun rest a _ hStart
  obtain ⟨rfl, rfl⟩ := pure_ok.1 hEnd
  exact ⟨rfl, rfl⟩

/-- The last part of a record. -/
theorem Follows.last (f : α → β) (h : Follows program read value) :
    Follows program (read >>= fun a => pure (f a)) (value >>= fun a => pure (f a)) := by
  have hMap := h.map f
  rwa [Option.map_eq_bind] at hMap

/-- The last part, and a check that consumes nothing behind it. -/
theorem Follows.ending {check : Reader ε Unit} (f : α → β)
    (hCheck : ∀ {input rest : List UInt8} {u : Unit}, check input = .ok u rest → rest = input) (h : Follows program read value) :
    Follows program (read >>= fun a => check >>= fun _ => pure (f a)) (value >>= fun a => pure (f a)) := by
  intro bytes hRun rest b rest' hRead
  obtain ⟨a, middle, hStart, hRead⟩ := bind_ok.1 hRead
  obtain ⟨_, _, hEnd, hPure⟩ := bind_ok.1 hRead
  obtain rfl := hCheck hEnd
  exact h.last f bytes hRun rest b rest' (bind_ok.2 ⟨a, _, hStart, hPure⟩)

/-- A part that the writer looks at on its own, with others behind it. -/
theorem Follows.item {source : Option γ} {program : γ → Output PUnit} {value : γ → Option α}
    (h : ∀ c, Follows (program c) read (value c)) (hSecond : ∀ a, Follows second (next a) (values a)) :
    Follows ((liftM source >>= program) >>= fun _ => second) (read >>= next) (source >>= fun c => value c >>= values) := by
  have hBoth := (Follows.given fun c (_ : source = some c) => h c).bind fun a _ => hSecond a
  rwa [bind_assoc source value values] at hBoth

/-- One item after the other, as many as there are. -/
theorem Follows.forM {program : γ → Output PUnit} {value : γ → Option α} {items : List γ}
    (h : ∀ c ∈ items, Follows (program c) read (value c)) :
    Follows (items.forM program) (times read items.length) (items.mapM value) := by
  induction items with
  | nil => exact Follows.ret []
  | cons c rest ih =>
      rw [List.mapM_cons]
      apply (h c List.mem_cons_self).bind
      intro a ha
      have hRest := (ih fun d hd => h d (List.mem_cons_of_mem c hd)).map (List.cons a)
      rwa [Option.map_eq_bind] at hRest

end Follows

end Codec
