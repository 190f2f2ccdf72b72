import MicroCard.Library.CrashTriple

/-! Reading back what a sequence of checks established. Each rule turns the fact that
a computation succeeded into the facts its steps required. -/
namespace Checks

open CrashTriple

variable {ε α β σ : Type}

theorem bind_ok {x : Except ε α} {f : α → Except ε β} {b : β} :
    (x >>= f) = .ok b ↔ ∃ a, x = .ok a ∧ f a = .ok b := by
  cases x with
  | error e => simp [bind, Except.bind]
  | ok a => simp [bind, Except.bind]

theorem pure_ok {a b : α} : (pure a : Except ε α) = .ok b ↔ a = b := by
  simp [pure, Except.pure]

theorem map_ok {x : Except ε α} {f : α → β} {b : β} : x.map f = .ok b ↔ ∃ a, x = .ok a ∧ f a = b := by
  cases x with
  | error e => simp [Except.map]
  | ok a => simp [Except.map]

theorem failIf_ok {c : Prop} [Decidable c] {e : ε} {u : Unit} : (failIf c e : Except ε Unit) = .ok u ↔ ¬c := by
  unfold failIf
  split
  · simp [throw, throwThe, MonadExceptOf.throw, *]
  · simp [pure, Except.pure, *]

theorem orFail_ok {o : Option α} {e : ε} {a : α} : (orFail o e : Except ε α) = .ok a ↔ o = some a := by
  cases o with
  | none => simp [orFail, throw, throwThe, MonadExceptOf.throw]
  | some a => simp [orFail, pure, Except.pure]

/-- What every step keeps, a successful fold keeps. -/
theorem foldlM_invariant {items : List α} {step : σ → α → Except ε σ} {I : σ → Prop} {start finish : σ}
    (hStep : ∀ s a s', a ∈ items → step s a = .ok s' → I s → I s') (hStart : I start)
    (h : items.foldlM step start = .ok finish) : I finish := by
  induction items generalizing start with
  | nil =>
      rw [List.foldlM_nil, pure_ok] at h
      rw [← h]
      exact hStart
  | cons a rest ih =>
      rw [List.foldlM_cons, bind_ok] at h
      obtain ⟨s, hFirst, hRest⟩ := h
      refine ih (fun s b s' hb => hStep s b s' (List.mem_cons_of_mem _ hb)) ?_ hRest
      exact hStep start a s List.mem_cons_self hFirst hStart

/-- A fold that succeeded ran each of its steps. -/
theorem foldlM_each {items : List α} {step : σ → α → Except ε σ} {start finish : σ}
    (h : items.foldlM step start = .ok finish) {a : α} (ha : a ∈ items) : ∃ s s', step s a = .ok s' := by
  induction items generalizing start with
  | nil => cases ha
  | cons b rest ih =>
      rw [List.foldlM_cons, bind_ok] at h
      obtain ⟨s, hFirst, hRest⟩ := h
      rcases List.mem_cons.1 ha with hHere | hLater
      · rw [hHere]
        exact ⟨start, s, hFirst⟩
      · exact ih hRest hLater

/-- A loop of checks that succeeded made each of them. -/
theorem forM_each {items : List α} {check : α → Except ε Unit} {u : Unit} (h : items.forM check = .ok u) {a : α}
    (ha : a ∈ items) : check a = .ok () := by
  induction items with
  | nil => cases ha
  | cons b rest ih =>
      change (check b >>= fun _ => rest.forM check) = .ok u at h
      rw [bind_ok] at h
      obtain ⟨_, hFirst, hRest⟩ := h
      rcases List.mem_cons.1 ha with hHere | hLater
      · rw [hHere]
        exact hFirst
      · exact ih hRest hLater

/-- A loop of checks succeeds exactly when each of them does. -/
theorem forM_ok {items : List α} {check : α → Except ε Unit} :
    items.forM check = .ok () ↔ ∀ a ∈ items, check a = .ok () := by
  induction items with
  | nil => exact iff_of_true rfl fun a ha => (nomatch ha)
  | cons a items ih =>
      show (check a >>= fun _ => items.forM check) = .ok () ↔ _
      rw [bind_ok, List.forall_mem_cons]
      exact ⟨fun ⟨_, hFirst, hRest⟩ => ⟨hFirst, ih.1 hRest⟩, fun ⟨hFirst, hRest⟩ => ⟨(), hFirst, ih.2 hRest⟩⟩

/-- A fold leaves what one of its steps establishes and the others keep. -/
theorem foldlM_marks {items : List α} {step : σ → α → Except ε σ} {I P : σ → Prop} {start finish : σ} {a : α}
    (hStep : ∀ s b s', b ∈ items → step s b = .ok s' → I s → I s')
    (hHere : ∀ s s', I s → step s a = .ok s' → P s')
    (hOther : ∀ s b s', b ∈ items → b ≠ a → I s → step s b = .ok s' → P s → P s') (hStart : I start) (ha : a ∈ items)
    (h : items.foldlM step start = .ok finish) : P finish := by
  have hKeep : ∀ s b s', b ∈ items → step s b = .ok s' → I s ∧ P s → I s' ∧ P s' := by
    rintro s b s' hMem hRun ⟨hI, hP⟩
    constructor
    · exact hStep s b s' hMem hRun hI
    · by_cases hSame : b = a
      · exact hHere s s' hI (hSame ▸ hRun)
      · exact hOther s b s' hMem hSame hI hRun hP
  have hFind : ∀ {rest : List α} {s : σ}, (∀ b ∈ rest, b ∈ items) → a ∈ rest → I s → rest.foldlM step s = .ok finish →
      P finish := by
    intro rest
    induction rest with
    | nil => exact fun _ hMem => nomatch hMem
    | cons b rest ih =>
        intro s hSub hMem hI hRun
        rw [List.foldlM_cons, bind_ok] at hRun
        obtain ⟨s', hFirst, hRest⟩ := hRun
        have hNext := hStep s b s' (hSub b List.mem_cons_self) hFirst hI
        have hRestSub : ∀ c ∈ rest, c ∈ items := fun c hc => hSub c (List.mem_cons_of_mem _ hc)
        rcases List.mem_cons.1 hMem with hEqual | hLater
        · exact (foldlM_invariant (fun s b s' hb => hKeep s b s' (hRestSub b hb))
            ⟨hNext, hHere s s' hI (hEqual ▸ hFirst)⟩ hRest).2
        · exact ih hRestSub hLater hNext hRest
  exact hFind (fun _ hb => hb) ha hStart h

/-- A map that succeeded has a result at the place of each item. -/
theorem mapM_get {items : List α} {f : α → Except ε β} {results : List β} (h : items.mapM f = .ok results) {i : Nat} {b : β}
    (hResult : results[i]? = some b) : ∃ a, items[i]? = some a ∧ f a = .ok b := by
  induction items generalizing results i with
  | nil =>
      cases h
      cases hResult
  | cons a rest ih =>
      simp only [List.mapM_cons, bind_ok, pure_ok] at h
      obtain ⟨first, hFirst, others, hOthers, rfl⟩ := h
      cases i with
      | zero => exact ⟨a, rfl, Option.some.inj hResult ▸ hFirst⟩
      | succ i => exact ih hOthers hResult

end Checks
