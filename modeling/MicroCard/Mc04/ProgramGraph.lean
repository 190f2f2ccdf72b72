import MicroCard.Mc04.Linking

/-! The search over the graph of all calls. A method that it is done with has a depth greater
than those of the methods that it calls, and the effects of all of them. -/
namespace MicroCard.Mc04

open Halting Checks

namespace ProgramSearch

variable {edges : List (Nat × Nat)} {irreversible : List Bool} {search search' search'' : ProgramSearch} {node : Nat}

/-- The search is done with a method, and this is what it found. -/
structure Known (search : ProgramSearch) (node depth : Nat) (effect : Bool) : Prop where
  state : search.states[node]? = some 2
  depth : search.depths[node]? = some depth
  effect : search.effects[node]? = some effect

/-- What was found of a method agrees with what was found of those that it calls. -/
structure Ranked (edges : List (Nat × Nat)) (irreversible : List Bool) (search : ProgramSearch) (node depth : Nat)
    (effect : Bool) : Prop where
  positive : 1 ≤ depth
  bounded : depth ≤ 32
  irreversible : irreversible[node]? = some true → effect = true
  calls : ∀ target, (node, target) ∈ edges →
    ∃ depth' effect', search.Known target depth' effect' ∧ depth' < depth ∧ (effect' = true → effect = true)

/-- Everything that was found agrees. -/
structure Sound (edges : List (Nat × Nat)) (irreversible : List Bool) (search : ProgramSearch) : Prop where
  depths : search.depths.length = search.states.length
  effects : search.effects.length = search.states.length
  ranked : ∀ node, search.states[node]? = some 2 →
    ∃ depth effect, search.Known node depth effect ∧ Ranked edges irreversible search node depth effect

/-- A later search knows no less, and has not closed what was being visited. -/
structure Later (search search' : ProgramSearch) : Prop where
  length : search'.states.length = search.states.length
  visited : ∀ node : Nat, search.states[node]? = some 1 → search'.states[node]? = some 1
  known : ∀ node depth effect, search.Known node depth effect → search'.Known node depth effect

theorem Later.rfl : Later search search := ⟨Eq.refl _, fun _ h => h, fun _ _ _ h => h⟩

theorem Later.trans (h : Later search search') (h' : Later search' search'') : Later search search'' :=
  ⟨h'.length.trans h.length, fun node hOpen => h'.visited node (h.visited node hOpen),
    fun node depth effect hKnown => h'.known node depth effect (h.known node depth effect hKnown)⟩

theorem Ranked.keep {depth : Nat} {effect : Bool} (h : Ranked edges irreversible search node depth effect)
    (hKept : ∀ other depth effect, search.Known other depth effect → search'.Known other depth effect) :
    Ranked edges irreversible search' node depth effect where
  positive := h.positive
  bounded := h.bounded
  irreversible := h.irreversible
  calls := by
    intro target hEdge
    obtain ⟨depth', effect', hKnown, hLess⟩ := h.calls target hEdge
    exact ⟨depth', effect', hKept _ _ _ hKnown, hLess⟩

/-- A method that is not done yet can be opened. -/
theorem Sound.opened (h : Sound edges irreversible search) (hNew : search.states[node]? ≠ some 2) :
    Sound edges irreversible { search with states := search.states.set node 1 } ∧
      ∀ other depth effect, search.Known other depth effect →
        Known { search with states := search.states.set node 1 } other depth effect := by
  have hKept : ∀ other depth effect, search.Known other depth effect →
      Known { search with states := search.states.set node 1 } other depth effect := by
    intro other depth effect hKnown
    have hOther : node ≠ other := by
      rintro rfl
      exact hNew hKnown.state
    refine ⟨?_, hKnown.depth, hKnown.effect⟩
    rw [List.getElem?_set_ne hOther]
    exact hKnown.state
  refine ⟨⟨?_, ?_, ?_⟩, hKept⟩
  · rw [List.length_set]
    exact h.depths
  · rw [List.length_set]
    exact h.effects
  · intro other hDone
    have hOther : node ≠ other := by
      rintro rfl
      have hInside : node < search.states.length := by
        have hInside := (List.getElem?_eq_some_iff.1 hDone).1
        rwa [List.length_set] at hInside
      rw [List.getElem?_set_self hInside] at hDone
      cases hDone
    rw [List.getElem?_set_ne hOther] at hDone
    obtain ⟨depth, effect, hKnown, hRanked⟩ := h.ranked other hDone
    exact ⟨depth, effect, hKept _ _ _ hKnown, hRanked.keep hKept⟩

/-- A method that is being visited can be closed with what was found below it. -/
theorem Sound.closed {depth : Nat} {effect : Bool} (h : Sound edges irreversible search) (hOpen : search.states[node]? = some 1)
    (hRanked : Ranked edges irreversible search node depth effect) :
    let closed : ProgramSearch := ⟨search.states.set node 2, search.depths.set node depth, search.effects.set node effect⟩
    Sound edges irreversible closed ∧ closed.Known node depth effect ∧
      ∀ other depth effect, search.Known other depth effect → closed.Known other depth effect := by
  intro closed
  have hInside : node < search.states.length := (List.getElem?_eq_some_iff.1 hOpen).1
  have hHere : closed.Known node depth effect := by
    constructor
    · exact List.getElem?_set_self hInside
    · exact List.getElem?_set_self (h.depths.symm ▸ hInside)
    · exact List.getElem?_set_self (h.effects.symm ▸ hInside)
  have hKept : ∀ other depth effect, search.Known other depth effect → closed.Known other depth effect := by
    intro other depth effect hKnown
    have hOther : node ≠ other := by
      rintro rfl
      cases hOpen.symm.trans hKnown.state
    constructor
    · exact (List.getElem?_set_ne hOther).trans hKnown.state
    · exact (List.getElem?_set_ne hOther).trans hKnown.depth
    · exact (List.getElem?_set_ne hOther).trans hKnown.effect
  refine ⟨⟨?_, ?_, ?_⟩, hHere, hKept⟩
  · simp only [closed, List.length_set]
    exact h.depths
  · simp only [closed, List.length_set]
    exact h.effects
  · intro other hDone
    by_cases hOther : node = other
    · subst hOther
      exact ⟨depth, effect, hHere, hRanked.keep hKept⟩
    · rw [show closed.states[other]? = search.states[other]? from List.getElem?_set_ne hOther] at hDone
      obtain ⟨depth', effect', hKnown, hOld⟩ := h.ranked other hDone
      exact ⟨depth', effect', hKept _ _ _ hKnown, hOld.keep hKept⟩

/-- What a visit that succeeded leaves. -/
structure Visited (edges : List (Nat × Nat)) (irreversible : List Bool) (search : ProgramSearch) (node : Nat)
    (result : (Nat × Bool) × ProgramSearch) : Prop where
  sound : Sound edges irreversible result.2
  later : Later search result.2
  known : result.2.Known node result.1.1 result.1.2

/-- What following some edges found: the methods behind them are not as deep, and have no
more effects. -/
structure Followed (edges : List (Nat × Nat)) (irreversible : List Bool) (state : (Nat × Bool) × ProgramSearch)
    (targets : List Nat) (result : (Nat × Bool) × ProgramSearch) : Prop where
  sound : Sound edges irreversible result.2
  later : Later state.2 result.2
  deeper : state.1.1 ≤ result.1.1
  bounded : state.1.1 ≤ 32 → result.1.1 ≤ 32
  effect : state.1.2 = true → result.1.2 = true
  known : ∀ target ∈ targets, ∃ depth effect, result.2.Known target depth effect ∧ depth < result.1.1 ∧
    (effect = true → result.1.2 = true)

variable {nodeCount : Nat}

theorem followEdges_ok {visit : Nat → ProgramSearch → Checked ((Nat × Bool) × ProgramSearch)}
    (hVisit : ∀ node search result, Sound edges irreversible search → visit node search = .ok result →
      Visited edges irreversible search node result) {targets : List Nat} {state result : (Nat × Bool) × ProgramSearch}
    (hSound : Sound edges irreversible state.2) (h : targets.foldlM (followEdge nodeCount visit) state = .ok result) :
    Followed edges irreversible state targets result := by
  induction targets generalizing state with
  | nil =>
      cases h
      exact ⟨hSound, .rfl, le_rfl, fun h => h, fun h => h, fun target hTarget => nomatch hTarget⟩
  | cons target rest ih =>
      rw [List.foldlM_cons, bind_ok] at h
      obtain ⟨next, hFollow, hRest⟩ := h
      simp only [followEdge, bind_ok, pure_ok, refuseIf, failIf_ok] at hFollow
      obtain ⟨-, -, ⟨⟨depth, effect⟩, search⟩, hTarget, -, -, -, hBound, rfl⟩ := hFollow
      have hVisited := hVisit target state.2 _ hSound hTarget
      have hFollowed : Followed edges irreversible ((max state.1.1 (depth + 1), state.1.2 || effect), search) rest result :=
        ih hVisited.sound hRest
      have hDeeper : max state.1.1 (depth + 1) ≤ result.1.1 := hFollowed.deeper
      constructor
      · exact hFollowed.sound
      · exact hVisited.later.trans hFollowed.later
      · omega
      · exact fun _ => hFollowed.bounded (Nat.le_of_not_lt hBound)
      · intro hEffect
        apply hFollowed.effect
        rw [Bool.or_eq_true]
        exact .inl hEffect
      · intro other hOther
        rcases List.mem_cons.1 hOther with rfl | hOther
        · refine ⟨depth, effect, hFollowed.later.known _ _ _ hVisited.known, by omega, ?_⟩
          intro hEffect
          apply hFollowed.effect
          rw [Bool.or_eq_true]
          exact .inr hEffect
        · exact hFollowed.known other hOther

theorem mem_targets {target : Nat} (h : (node, target) ∈ edges) :
    target ∈ (edges.filter fun edge => edge.1 = node).map Prod.snd :=
  List.mem_map.2 ⟨(node, target), List.mem_filter.2 ⟨h, decide_eq_true rfl⟩, rfl⟩

/-- A visit that succeeded knows the method, and still knows all it knew. -/
theorem visitNode_ok (fuel : Nat) (node : Nat) (search : ProgramSearch) (result : (Nat × Bool) × ProgramSearch)
    (hSound : Sound edges irreversible search) (h : visitNode nodeCount edges irreversible fuel node search = .ok result) :
    Visited edges irreversible search node result := by
  induction fuel generalizing node search result with
  | zero => cases h
  | succ fuel ih =>
      simp only [visitNode, bind_ok, orRefuse, orFail_ok] at h
      obtain ⟨state, hState, h⟩ := h
      split at h
      · cases h
      · rename_i hOpen
        split at h
        · rename_i hDone
          simp only [bind_ok, pure_ok, orFail_ok] at h
          obtain ⟨depth, hDepth, effect, hEffect, rfl⟩ := h
          exact ⟨hSound, .rfl, hDone ▸ hState, hDepth, hEffect⟩
        · rename_i hNew
          simp only [bind_ok, pure_ok, orFail_ok] at h
          obtain ⟨effect, hEffect, ⟨⟨depth, total⟩, below⟩, hFollow, rfl⟩ := h
          have hInside : node < search.states.length := (List.getElem?_eq_some_iff.1 hState).1
          have hOpened := hSound.opened fun hDone => hNew (Option.some.inj (hState.symm.trans hDone))
          have hFollowed := followEdges_ok (fun node search result => ih node search result) hOpened.1 hFollow
          have hVisiting : below.states[node]? = some 1 :=
            hFollowed.later.visited node (List.getElem?_set_self hInside)
          have hRanked : Ranked edges irreversible below node depth total := by
            constructor
            · exact hFollowed.deeper
            · exact hFollowed.bounded (Nat.le_add_left 1 31)
            · intro hHere
              exact hFollowed.effect (Option.some.inj (hEffect.symm.trans hHere))
            · exact fun target hEdge => hFollowed.known target (mem_targets hEdge)
          have hClosed := hFollowed.sound.closed hVisiting hRanked
          refine ⟨hClosed.1, ⟨?_, ?_, ?_⟩, hClosed.2.1⟩
          · show (below.states.set node 2).length = search.states.length
            rw [List.length_set, hFollowed.later.length, List.length_set]
          · intro other hOther
            have hDifferent : node ≠ other := by
              rintro rfl
              exact hOpen (Option.some.inj (hState.symm.trans hOther))
            show (below.states.set node 2)[other]? = some 1
            rw [List.getElem?_set_ne hDifferent]
            apply hFollowed.later.visited
            show (search.states.set node 1)[other]? = some 1
            rw [List.getElem?_set_ne hDifferent]
            exact hOther
          · intro other depth' effect' hKnown
            exact hClosed.2.2 _ _ _ (hFollowed.later.known _ _ _ (hOpened.2 _ _ _ hKnown))

/-- Before the search nothing is known. -/
theorem initial_sound : Sound edges irreversible
    ⟨List.replicate nodeCount 0, List.replicate nodeCount 0, List.replicate nodeCount false⟩ := by
  constructor
  · exact (List.length_replicate ..).trans (List.length_replicate ..).symm
  · exact (List.length_replicate ..).trans (List.length_replicate ..).symm
  · intro node hDone
    have hZero := List.eq_of_mem_replicate (List.mem_of_getElem? hDone)
    cases hZero

/-- The whole search, over any methods in turn. -/
theorem visitAll_ok {nodes : List Nat} {search result : ProgramSearch} (hSound : Sound edges irreversible search)
    (h : nodes.foldlM (fun search node => do
      let (_, search) ← visitNode nodeCount edges irreversible (nodeCount + 1) node search
      pure search) search = .ok result) : Sound edges irreversible result ∧ Later search result ∧
      ∀ node ∈ nodes, ∃ depth effect, result.Known node depth effect := by
  induction nodes generalizing search with
  | nil =>
      cases h
      exact ⟨hSound, .rfl, fun node hNode => nomatch hNode⟩
  | cons node rest ih =>
      simp only [List.foldlM_cons, bind_ok, pure_ok] at h
      obtain ⟨next, ⟨⟨found, visited⟩, hVisit, rfl⟩, hRest⟩ := h
      have hVisited := visitNode_ok _ _ _ _ hSound hVisit
      obtain ⟨hSound', hLater, hKnown⟩ := ih hVisited.sound hRest
      refine ⟨hSound', hVisited.later.trans hLater, ?_⟩
      intro other hOther
      rcases List.mem_cons.1 hOther with rfl | hOther
      · exact ⟨_, _, hLater.known _ _ _ hVisited.known⟩
      · exact hKnown other hOther

end ProgramSearch

section Validated

variable {nodeCount : Nat} {edges : List (Nat × Nat)} {irreversible transactional : List Bool}

/-- An accepted graph has a depth and an effect for every method: calls go to methods that
are not as deep, effects come up from them, and a transactional method has none. -/
theorem validateProgramGraph_ok {u : Unit}
    (h : validateProgramGraph nodeCount edges irreversible transactional = .ok u) :
    ∃ search : ProgramSearch, ProgramSearch.Sound edges irreversible search ∧
      ∀ node < nodeCount, ∃ depth effect, search.Known node depth effect ∧
        (transactional[node]? = some true → effect = false) := by
  simp only [validateProgramGraph, bind_ok] at h
  obtain ⟨-, -, search, hSearch, hPure⟩ := h
  obtain ⟨hSound, -, hKnown⟩ := ProgramSearch.visitAll_ok ProgramSearch.initial_sound hSearch
  refine ⟨search, hSound, ?_⟩
  intro node hNode
  obtain ⟨depth, effect, hHere⟩ := hKnown node (List.mem_range.2 hNode)
  refine ⟨depth, effect, hHere, ?_⟩
  intro hTransactional
  have hPure := failIf_ok.1 hPure
  rw [Bool.not_eq_true, List.any_eq_false] at hPure
  have hPair : (true, effect) ∈ transactional.zip search.effects := by
    have hAt : (transactional.zip search.effects)[node]? = some (true, effect) := by
      rw [List.getElem?_zip_eq_some]
      exact ⟨hTransactional, hHere.effect⟩
    exact List.mem_of_getElem? hAt
  simpa using hPure _ hPair

end Validated

end MicroCard.Mc04
