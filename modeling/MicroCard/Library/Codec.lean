import MicroCard.Library.Bytes
import MicroCard.Library.CrashTriple

/-! Readers over a byte sequence and the written forms they accept. A reader is
exact for a writer when it succeeds on the written form of each admitted value and
on nothing else, so that a round trip holds in both directions at once. -/
namespace Codec

open Bytes CrashTriple

/-- A reader consumes the front of its input; the rest is its state. -/
abbrev Reader (ε α : Type) := EStateM ε (List Byte) α

section Rules

variable {ε σ α β : Type}

theorem bind_ok {first : EStateM ε σ α} {next : α → EStateM ε σ β} {s s' : σ} {b : β} :
    (first >>= next) s = .ok b s' ↔ ∃ a middle, first s = .ok a middle ∧ next a middle = .ok b s' := by
  simp only [Bind.bind, EStateM.bind]
  cases first s with
  | ok a middle => simp
  | error e middle => simp

theorem pure_ok {a b : α} {s s' : σ} : (pure a : EStateM ε σ α) s = .ok b s' ↔ a = b ∧ s = s' := by
  simp [pure, EStateM.pure]

theorem throw_ok {e : ε} {b : α} {s s' : σ} : (throw e : EStateM ε σ α) s = .ok b s' ↔ False := by
  simp [throw, throwThe, MonadExceptOf.throw, EStateM.throw]

theorem get_ok {a s s' : σ} : (get : EStateM ε σ σ) s = .ok a s' ↔ a = s ∧ s' = s := by
  simp [get, getThe, MonadStateOf.get, EStateM.get, eq_comm]

theorem set_ok {a s s' : σ} {u : PUnit} : (set a : EStateM ε σ PUnit) s = .ok u s' ↔ s' = a := by
  simp [set, MonadStateOf.set, EStateM.set, eq_comm]

theorem failIf_ok {c : Prop} [Decidable c] {e : ε} {s s' : σ} {u : Unit} :
    (failIf c e : EStateM ε σ Unit) s = .ok u s' ↔ ¬c ∧ s = s' := by
  unfold failIf
  split
  · simp [throw_ok, *]
  · simp [pure_ok, *]

theorem orFail_ok {o : Option α} {e : ε} {s s' : σ} {a : α} :
    (orFail o e : EStateM ε σ α) s = .ok a s' ↔ o = some a ∧ s = s' := by
  cases o with
  | none => simp [orFail, throw_ok]
  | some b => simp [orFail, pure_ok]

theorem readOnly_ok {result : Except ε α} {s s' : σ} {a : α} :
    readOnly result s = .ok a s' ↔ result = .ok a ∧ s = s' := by
  cases result with
  | error e => simp [readOnly]
  | ok b => simp [readOnly]

/-- A captured outcome is the outcome of the run. -/
theorem capture_ok {program : EStateM ε σ α} {outcome : Except ε α} {s s' : σ} :
    capture program s = .ok outcome s' ↔
      (∃ a, outcome = .ok a ∧ program s = .ok a s') ∨ ∃ e, outcome = .error e ∧ program s = .error e s' := by
  unfold capture
  cases program s with
  | ok a middle => simp [eq_comm]
  | error e middle => simp [eq_comm]

end Rules

section Exact

variable {ε α : Type}

/-- The reader accepts the written forms of the admitted values, with anything
behind them, and nothing else. -/
def Exact (read : Reader ε α) (write : α → List Byte) (Admitted : α → Prop) : Prop :=
  ∀ input a rest, read input = .ok a rest ↔ Admitted a ∧ input = write a ++ rest

/-- The bytes fix the value and what stands behind it. -/
theorem Exact.append_inj {read : Reader ε α} {write : α → List Byte} {Admitted : α → Prop}
    (h : Exact read write Admitted) {a b : α} (ha : Admitted a) (hb : Admitted b) {rest rest' : List Byte} :
    write a ++ rest = write b ++ rest' ↔ a = b ∧ rest = rest' := by
  constructor
  · intro hEq
    have hFirst := (h (write a ++ rest) a rest).2 ⟨ha, rfl⟩
    have hSecond := (h (write a ++ rest) b rest').2 ⟨hb, hEq⟩
    rw [hFirst] at hSecond
    injection hSecond with hValue hRest
    exact ⟨hValue, hRest⟩
  · rintro ⟨rfl, rfl⟩
    rfl

/-- Read a fixed number of values. -/
def times (read : Reader ε α) : Nat → Reader ε (List α)
  | 0 => pure []
  | count + 1 => do
      let a ← read
      let others ← times read count
      pure (a :: others)

theorem Exact.times {read : Reader ε α} {write : α → List Byte} {Admitted : α → Prop}
    (h : Exact read write Admitted) (count : Nat) :
    Exact (times read count) (fun items => items.flatMap write)
      fun items => items.length = count ∧ ∀ a ∈ items, Admitted a := by
  induction count with
  | zero =>
      intro input items rest
      simp only [Codec.times, pure_ok, List.length_eq_zero_iff]
      constructor
      · rintro ⟨rfl, rfl⟩
        simp
      · rintro ⟨⟨rfl, -⟩, rfl⟩
        simp
  | succ count ih =>
      intro input items rest
      simp only [Codec.times, bind_ok, pure_ok, h _ _ _, ih _ _ _]
      constructor
      · rintro ⟨a, _, ⟨ha, rfl⟩, others, _, ⟨⟨hLength, hOthers⟩, rfl⟩, rfl, rfl⟩
        refine ⟨⟨by simp [hLength], fun b hb => ?_⟩, by simp⟩
        rcases List.mem_cons.1 hb with rfl | hb
        · exact ha
        · exact hOthers b hb
      · rintro ⟨⟨hLength, hItems⟩, rfl⟩
        cases items with
        | nil => cases hLength
        | cons a others =>
            refine ⟨a, _, ⟨hItems a List.mem_cons_self, by simp⟩, others, rest, ⟨⟨?_, ?_⟩, rfl⟩, rfl, rfl⟩
            · exact Nat.succ.inj hLength
            · exact fun b hb => hItems b (List.mem_cons_of_mem _ hb)

end Exact

end Codec
