/-
What the entries load.

The imports of a group are loaded wherever the group is.  A fold keeps that, and lets only
groups without side effects be loaded by more entries.
-/

import Bun.Bundler.ChunkRuns
import Mathlib.Algebra.Order.BigOperators.Group.Finset

set_option autoImplicit false

namespace Bun.Bundler

open Bun.Foundation Relation

variable {n : ℕ}

def Covered (groups : Groups n) : Prop :=
  ∀ g d, Imports groups g d → (groups g).loaded ⊆ (groups d).loaded

/-! ### Propagation -/

theorem coverImport_unchanged {g dep : Fin n} {state : Groups n × Bool}
    (unchanged : (coverImport g state dep).2 = false) :
    coverImport g state dep = state ∧
      (dep = g ∨ (state.1 g).loaded ⊆ (state.1 dep).loaded) := by
  unfold coverImport at unchanged ⊢
  dsimp only at unchanged ⊢
  split
  · rename_i isCovered
    exact ⟨rfl, isCovered⟩
  · rename_i notCovered
    rw [if_neg notCovered] at unchanged
    cases unchanged

theorem foldl_coverImport_unchanged {g : Fin n} {deps : List (Fin n)} {state : Groups n × Bool}
    (unchanged : (deps.foldl (coverImport g) state).2 = false) :
    deps.foldl (coverImport g) state = state ∧
      ∀ dep ∈ deps, dep = g ∨ (state.1 g).loaded ⊆ (state.1 dep).loaded := by
  induction deps generalizing state with
  | nil => exact ⟨rfl, by simp⟩
  | cons dep rest ih =>
      rw [List.foldl_cons] at unchanged ⊢
      obtain ⟨same, covered⟩ := ih unchanged
      rw [same] at unchanged
      obtain ⟨isState, isCovered⟩ := coverImport_unchanged unchanged
      rw [isState] at same covered ⊢
      refine ⟨same, ?_⟩
      intro other member
      rcases List.mem_cons.mp member with isDep | inRest
      · rw [isDep]
        exact isCovered
      · exact covered other inRest

theorem coverImports_unchanged {g : Fin n} {state : Groups n × Bool}
    (unchanged : (coverImports state g).2 = false) :
    coverImports state g = state ∧ ((state.1 g).isLive = true →
      ∀ dep ∈ importsOf state.1 g, dep = g ∨ (state.1 g).loaded ⊆ (state.1 dep).loaded) := by
  unfold coverImports at unchanged ⊢
  split
  · rename_i isLive
    rw [if_pos isLive] at unchanged
    obtain ⟨same, covered⟩ := foldl_coverImport_unchanged unchanged
    exact ⟨same, fun _ => covered⟩
  · rename_i notLive
    exact ⟨rfl, fun isLive => absurd isLive notLive⟩

theorem foldl_coverImports_unchanged {sources : List (Fin n)} {state : Groups n × Bool}
    (unchanged : (sources.foldl coverImports state).2 = false) :
    sources.foldl coverImports state = state ∧ ∀ g ∈ sources, (state.1 g).isLive = true →
      ∀ dep ∈ importsOf state.1 g, dep = g ∨ (state.1 g).loaded ⊆ (state.1 dep).loaded := by
  induction sources generalizing state with
  | nil => exact ⟨rfl, by simp⟩
  | cons source rest ih =>
      rw [List.foldl_cons] at unchanged ⊢
      obtain ⟨same, covered⟩ := ih unchanged
      rw [same] at unchanged
      obtain ⟨isState, isCovered⟩ := coverImports_unchanged unchanged
      rw [isState] at same covered ⊢
      refine ⟨same, ?_⟩
      intro other member
      rcases List.mem_cons.mp member with isSource | inRest
      · rw [isSource]
        exact isCovered
      · exact covered other inRest

theorem propagateOnce_covered {groups : Groups n} (unchanged : (propagateOnce groups).2 = false) :
    Covered (propagateOnce groups).1 := by
  obtain ⟨same, covered⟩ := foldl_coverImports_unchanged unchanged
  have isSame : (propagateOnce groups).1 = groups := congrArg Prod.fst same
  rw [isSame]
  intro g d isImport
  obtain ⟨isLive, notSelf, member⟩ := imports_iff.mp isImport
  rcases covered g (List.mem_finRange g) (Option.isNone_iff_eq_none.mpr isLive) d member with
    isSelf | isCovered
  · exact absurd isSelf notSelf
  · exact isCovered

/-! The passes end: the entries that load a group are among those that load any. -/

def missing (all : Finset ℕ) (groups : Groups n) : ℕ :=
  ∑ g, (all \ (groups g).loaded).card

structure Advances (all : Finset ℕ) (state next : Groups n × Bool) : Prop where
  inside : (∀ g, (state.1 g).loaded ⊆ all) → ∀ g, (next.1 g).loaded ⊆ all
  fewer : (∀ g, (state.1 g).loaded ⊆ all) → missing all next.1 ≤ missing all state.1
  changed : (∀ g, (state.1 g).loaded ⊆ all) → next.2 = true →
    state.2 = true ∨ missing all next.1 < missing all state.1

theorem Advances.refl (all : Finset ℕ) (state : Groups n × Bool) : Advances all state state :=
  ⟨id, fun _ => Nat.le_refl _, fun _ changed => Or.inl changed⟩

theorem Advances.trans {all : Finset ℕ} {first second third : Groups n × Bool}
    (advances : Advances all first second) (further : Advances all second third) :
    Advances all first third := by
  refine ⟨fun inside => further.inside (advances.inside inside), fun inside => ?_,
    fun inside isChanged => ?_⟩
  · exact (further.fewer (advances.inside inside)).trans (advances.fewer inside)
  · rcases further.changed (advances.inside inside) isChanged with before | isLess
    · rcases advances.changed inside before with start | wasLess
      · exact Or.inl start
      · exact Or.inr (Nat.lt_of_le_of_lt (further.fewer (advances.inside inside)) wasLess)
    · exact Or.inr (Nat.lt_of_lt_of_le isLess (advances.fewer inside))

theorem Advances.foldl {α : Type} {all : Finset ℕ} {step : Groups n × Bool → α → Groups n × Bool}
    (advances : ∀ state item, Advances all state (step state item)) (items : List α)
    (state : Groups n × Bool) : Advances all state (items.foldl step state) := by
  induction items generalizing state with
  | nil => exact Advances.refl all state
  | cons item rest ih => exact (advances state item).trans (ih _)

theorem Propagates.covered {groups final : Groups n} (propagates : Propagates groups final) :
    Covered final := by
  induction propagates with
  | done unchanged => exact propagateOnce_covered unchanged
  | again _ _ ih => exact ih

theorem Prepared.covered {dominated : ℕ → Finset ℕ} {fresh start : Groups n}
    (prepared : Prepared dominated fresh start) : Covered start := by
  obtain ⟨-, isPropagated⟩ := prepared
  rename_i folded propagated
  intro g d isImport
  have same : Imports (listImporters propagated) = Imports propagated :=
    imports_congr (fun _ => rfl) fun _ => rfl
  rw [same] at isImport
  exact isPropagated.covered g d isImport

/-! ### What starts loading -/

/-- The groups that are visited: those that were, those that the target's entries load, and
those that are collected, with their imports. -/
theorem collectFrom_spec {groups : Groups n} {targetLoaded : Finset ℕ} {visited : Finset (Fin n)}
    {stack newlyLoaded result : List (Fin n)}
    (collected : collectFrom groups targetLoaded visited stack newlyLoaded = some result) :
    ∃ (seen : Finset (Fin n)) (more : List (Fin n)), result = newlyLoaded ++ more ∧
      (∀ d ∈ stack, d ∈ seen) ∧
      (∀ d ∈ more, (groups d).pure = true ∧ d ∉ visited ∧ ∀ e ∈ importsOf groups d, e ∈ seen) ∧
      ∀ d ∈ seen, d ∈ visited ∨ targetLoaded ⊆ (groups d).loaded ∨ d ∈ more := by
  fun_induction collectFrom groups targetLoaded visited stack newlyLoaded with
  | case1 visited newlyLoaded =>
      refine ⟨∅, [], ?_, by simp, by simp, by simp⟩
      rw [List.append_nil]
      exact (Option.some.inj collected).symm
  | case2 visited newlyLoaded d rest wasVisited ih =>
      obtain ⟨seen, more, isResult, inStack, isMore, isSeen⟩ := ih collected
      refine ⟨insert d seen, more, isResult, ?_, ?_, ?_⟩
      · intro e member
        rcases List.mem_cons.mp member with same | inRest
        · exact same ▸ Finset.mem_insert_self _ _
        · exact Finset.mem_insert_of_mem (inStack e inRest)
      · intro e member
        obtain ⟨isPure, notVisited, imported⟩ := isMore e member
        exact ⟨isPure, notVisited, fun f isImport => Finset.mem_insert_of_mem (imported f isImport)⟩
      · intro e member
        rcases Finset.mem_insert.mp member with same | inSeen
        · exact Or.inl (same ▸ wasVisited)
        · exact isSeen e inSeen
  | case3 visited newlyLoaded d rest notVisited isLoaded ih =>
      obtain ⟨seen, more, isResult, inStack, isMore, isSeen⟩ := ih collected
      refine ⟨insert d seen, more, isResult, ?_, ?_, ?_⟩
      · intro e member
        rcases List.mem_cons.mp member with same | inRest
        · exact same ▸ Finset.mem_insert_self _ _
        · exact Finset.mem_insert_of_mem (inStack e inRest)
      · intro e member
        obtain ⟨isPure, notSeen, imported⟩ := isMore e member
        exact ⟨isPure, fun wasVisited => notSeen (Finset.mem_insert_of_mem wasVisited),
          fun f isImport => Finset.mem_insert_of_mem (imported f isImport)⟩
      · intro e member
        rcases Finset.mem_insert.mp member with same | inSeen
        · exact Or.inr (Or.inl (same ▸ isLoaded))
        · rcases isSeen e inSeen with wasVisited | known
          · rcases Finset.mem_insert.mp wasVisited with same | inVisited
            · exact Or.inr (Or.inl (same ▸ isLoaded))
            · exact Or.inl inVisited
          · exact Or.inr known
  | case4 => cases collected
  | case5 visited newlyLoaded d rest notVisited notLoaded isPure ih =>
      obtain ⟨seen, more, isResult, inStack, isMore, isSeen⟩ := ih collected
      refine ⟨insert d seen, d :: more, ?_, ?_, ?_, ?_⟩
      · rw [isResult, List.append_assoc, List.singleton_append]
      · intro e member
        rcases List.mem_cons.mp member with same | inRest
        · exact same ▸ Finset.mem_insert_self _ _
        · exact Finset.mem_insert_of_mem (inStack e (List.mem_append_right _ inRest))
      · intro e member
        rcases List.mem_cons.mp member with same | inMore
        · rw [same]
          refine ⟨by simpa using isPure, notVisited, fun f isImport => ?_⟩
          exact Finset.mem_insert_of_mem
            (inStack f (List.mem_append_left _ (List.mem_reverse.mpr isImport)))
        · obtain ⟨isPure, notSeen, imported⟩ := isMore e inMore
          exact ⟨isPure, fun wasVisited => notSeen (Finset.mem_insert_of_mem wasVisited),
            fun f isImport => Finset.mem_insert_of_mem (imported f isImport)⟩
      · intro e member
        rcases Finset.mem_insert.mp member with same | inSeen
        · exact Or.inr (Or.inr (same ▸ List.mem_cons_self))
        · rcases isSeen e inSeen with wasVisited | isLoaded | inMore
          · rcases Finset.mem_insert.mp wasVisited with same | inVisited
            · exact Or.inr (Or.inr (same ▸ List.mem_cons_self))
            · exact Or.inl inVisited
          · exact Or.inr (Or.inl isLoaded)
          · exact Or.inr (Or.inr (List.mem_cons_of_mem _ inMore))

/-- Groups that start loading have no side effects, and what they import is loaded with them. -/
structure Starts (groups : Groups n) (candidate target : Fin n) (more : List (Fin n)) : Prop where
  pure : ∀ d ∈ more, (groups d).pure = true
  other : ∀ d ∈ more, d ≠ candidate ∧ d ≠ target
  imports : ∀ g, g = candidate ∨ g ∈ more → ∀ d ∈ importsOf groups g,
    d = candidate ∨ d = target ∨ (groups target).loaded ⊆ (groups d).loaded ∨ d ∈ more

theorem FoldTested.starts {groups : Groups n} {candidate target : Fin n}
    {newlyLoaded : List (Fin n)} (tested : FoldTested groups candidate target newlyLoaded) :
    Starts groups candidate target newlyLoaded.tail := by
  have collected := tested.collected
  unfold collectNewlyLoaded at collected
  obtain ⟨seen, more, isResult, inStack, isMore, isSeen⟩ := collectFrom_spec collected
  have isTail : newlyLoaded.tail = more := by
    rw [isResult]
    rfl
  rw [isTail]
  have visited {d : Fin n} (member : d ∈ seen) : d = candidate ∨ d = target ∨
      (groups target).loaded ⊆ (groups d).loaded ∨ d ∈ more := by
    rcases isSeen d member with wasVisited | known
    · rw [Finset.mem_insert, Finset.mem_singleton] at wasVisited
      exact wasVisited.imp_right Or.inl
    · exact Or.inr (Or.inr known)
  refine ⟨fun d member => (isMore d member).1, ?_, ?_⟩
  · intro d member
    have notVisited := (isMore d member).2.1
    rw [Finset.mem_insert, Finset.mem_singleton, not_or] at notVisited
    exact notVisited
  · rintro g (isCandidate | inMore) d isImport
    · rw [isCandidate] at isImport
      exact visited (inStack d (List.mem_reverse.mpr isImport))
    · exact visited ((isMore g inMore).2.2 d isImport)

/-! ### One fold -/

theorem numberTopologically_loads (groups : Groups n) (g : Fin n) :
    ((numberTopologically groups).1 g).loaded = (groups g).loaded ∧
      ((numberTopologically groups).1 g).pure = (groups g).pure :=
  ⟨rfl, rfl⟩

theorem startPass_loads (groups : Groups n) (g : Fin n) :
    ((startPass groups).1 g).loaded = (groups g).loaded ∧
      ((startPass groups).1 g).pure = (groups g).pure := by
  unfold startPass
  obtain ⟨loaded, pure⟩ := numberTopologically_loads (countLoaded groups) g
  rw [loaded, pure]
  unfold countLoaded
  split
  · exact ⟨rfl, rfl⟩
  · exact ⟨rfl, rfl⟩

theorem FoldTested.hoist_loads {groups : Groups n} {candidate target : Fin n}
    {newlyLoaded : List (Fin n)} (tested : FoldTested groups candidate target newlyLoaded)
    (g : Fin n) :
    ((hoist groups candidate target newlyLoaded).1 g).loaded =
        loadedAfter groups target newlyLoaded.tail g ∧
      ((hoist groups candidate target newlyLoaded).1 g).pure = (groups g).pure := by
  have starts := tested.starts
  have covered (d : Fin n) :
      (coverBits (startLoading groups newlyLoaded.tail (groups target).loaded) candidate target
          d).loaded = loadedAfter groups target newlyLoaded.tail d ∧
        (coverBits (startLoading groups newlyLoaded.tail (groups target).loaded) candidate target
          d).pure = (groups d).pure := by
    have started : (startLoading groups newlyLoaded.tail (groups target).loaded d).loaded =
          loadedAfter groups target newlyLoaded.tail d ∧
        (startLoading groups newlyLoaded.tail (groups target).loaded d).pure =
          (groups d).pure := by
      unfold startLoading loadedAfter
      split
      · exact ⟨rfl, rfl⟩
      · exact ⟨rfl, rfl⟩
    unfold coverBits
    split
    · exact started
    · exact started
  have unloaded : ∀ d, d ∉ newlyLoaded.tail →
      loadedAfter groups target newlyLoaded.tail d = (groups d).loaded := fun d notMore =>
    if_neg notMore
  have folded : (markHoisted (fold (coverBits (startLoading groups newlyLoaded.tail
          (groups target).loaded) candidate target) candidate target) candidate g).loaded =
        loadedAfter groups target newlyLoaded.tail g ∧
      (markHoisted (fold (coverBits (startLoading groups newlyLoaded.tail
          (groups target).loaded) candidate target) candidate target) candidate g).pure =
        (groups g).pure := by
    generalize coverBits (startLoading groups newlyLoaded.tail (groups target).loaded) candidate
      target = between at covered
    have isFolded : (fold between candidate target g).loaded =
          loadedAfter groups target newlyLoaded.tail g ∧
        (fold between candidate target g).pure = (groups g).pure := by
      unfold fold
      by_cases isTarget : g = target
      · rw [if_pos isTarget, isTarget]
        dsimp only
        rw [(covered target).1, (covered target).2, (covered candidate).1, (covered candidate).2,
          tested.candidatePure, Bool.and_true, unloaded target fun member =>
            (starts.other target member).2 rfl, unloaded candidate fun member =>
            (starts.other candidate member).1 rfl]
        exact ⟨Finset.union_eq_left.mpr tested.loaded, rfl⟩
      · rw [if_neg isTarget]
        by_cases isSource : g = candidate
        · rw [if_pos isSource, isSource]
          exact covered candidate
        · rw [if_neg isSource]
          exact covered g
    unfold markHoisted
    split
    · exact isFolded
    · exact isFolded
  unfold hoist
  dsimp only
  split
  · exact folded
  · exact folded

theorem FoldTested.hoist_links {groups : Groups n} {candidate target : Fin n}
    {newlyLoaded : List (Fin n)} (tested : FoldTested groups candidate target newlyLoaded)
    (chained : Chained groups) :
    Chained (hoist groups candidate target newlyLoaded).1 ∧
      Imports (hoist groups candidate target newlyLoaded).1 =
        contracted (Imports groups) candidate target := by
  obtain ⟨same, -⟩ := covered_sameLinks groups candidate target newlyLoaded.tail
    (groups target).loaded
  unfold hoist
  dsimp only
  generalize coverBits (startLoading groups newlyLoaded.tail (groups target).loaded) candidate
    target = covered at same ⊢
  have candidateLive := (same.mergedInto candidate).trans tested.candidateLive
  have targetLive := (same.mergedInto target).trans tested.targetLive
  have coveredChained := chained.congr same.mergedInto
  have foldChained := coveredChained.fold candidateLive targetLive tested.different
  have foldImports := imports_fold candidateLive targetLive tested.different coveredChained
  rw [imports_congr same.mergedInto same.deps] at foldImports
  obtain ⟨marked, -⟩ := markHoisted_sameLinks (fold covered candidate target) candidate
  have markedChained := foldChained.congr marked.mergedInto
  have markedImports := (imports_congr marked.mergedInto marked.deps).trans foldImports
  split
  · refine ⟨markedChained.congr fun _ => rfl, ?_⟩
    rw [← markedImports]
    exact imports_congr (fun _ => rfl) fun _ => rfl
  · exact ⟨markedChained, markedImports⟩

theorem FoldTested.covered {groups : Groups n} {candidate target : Fin n}
    {newlyLoaded : List (Fin n)} (tested : FoldTested groups candidate target newlyLoaded)
    (chained : Chained groups) (covered : Covered groups) :
    Covered (hoist groups candidate target newlyLoaded).1 := by
  have starts := tested.starts
  have gains (d : Fin n) : (groups d).loaded ⊆ loadedAfter groups target newlyLoaded.tail d := by
    unfold loadedAfter
    split
    · exact Finset.subset_union_left
    · exact Finset.Subset.refl _
  -- what the target's entries load with a group that starts loading
  have loadsTarget {d : Fin n} (known : d = target ∨
      (groups target).loaded ⊆ (groups d).loaded ∨ d ∈ newlyLoaded.tail) :
      (groups target).loaded ⊆ loadedAfter groups target newlyLoaded.tail d := by
    rcases known with isTarget | isLoaded | inMore
    · rw [isTarget]
      exact gains target
    · exact isLoaded.trans (gains d)
    · unfold loadedAfter
      rw [if_pos inMore]
      exact Finset.subset_union_right
  have grows (g : Fin n) : loadedAfter groups target newlyLoaded.tail g ⊆
      (groups g).loaded ∪ (groups target).loaded := by
    unfold loadedAfter
    split
    · exact Finset.Subset.refl _
    · exact Finset.subset_union_left
  intro g d isImport
  rw [(tested.hoist_loads g).1, (tested.hoist_loads d).1]
  rw [(tested.hoist_links chained).2] at isImport
  have notCandidate : d ≠ candidate := by
    obtain ⟨-, before, after, -, -, isAfter⟩ := isImport
    exact isAfter ▸ renamed_ne tested.different after
  rcases contracted_cases isImport with isEdge | ⟨isTarget, isEdge⟩ | ⟨isTarget, isEdge⟩
  · have wasCovered := covered g d isEdge
    by_cases inMore : g ∈ newlyLoaded.tail
    · refine (grows g).trans (Finset.union_subset (wasCovered.trans (gains d)) (loadsTarget ?_))
      rcases starts.imports g (Or.inr inMore) d (imports_iff.mp isEdge).2.2 with same | known
      · exact absurd same notCandidate
      · exact known
    · unfold loadedAfter
      rw [if_neg inMore]
      exact wasCovered.trans (gains d)
  · have isStart : loadedAfter groups target newlyLoaded.tail target = (groups target).loaded :=
      if_neg fun inMore => (starts.other target inMore).2 rfl
    rw [isTarget, isStart]
    refine loadsTarget ?_
    rcases starts.imports candidate (Or.inl rfl) d (imports_iff.mp isEdge).2.2 with same | known
    · exact absurd same notCandidate
    · exact known
  · rw [isTarget]
    refine (grows g).trans (Finset.union_subset ?_ (gains target))
    exact ((covered g candidate isEdge).trans tested.loaded).trans (gains target)

/-! ### Runs -/

structure Loads (start groups : Groups n) : Prop where
  chained : Chained groups
  covered : Covered groups
  pure : ∀ g, (groups g).pure = (start g).pure
  impure : ∀ g, (start g).pure = false → (groups g).loaded = (start g).loaded

theorem Loads.startPass {start groups : Groups n} (loads : Loads start groups) :
    Loads start (startPass groups).1 := by
  have same : SameLinks groups (Bundler.startPass groups).1 := by
    unfold Bundler.startPass numberTopologically countLoaded
    refine ⟨?_, ?_, ?_⟩
    all_goals
      intro g
      dsimp only
      split
      · rfl
      · rfl
  refine ⟨loads.chained.congr same.mergedInto, ?_, ?_, ?_⟩
  · intro g d isImport
    rw [imports_congr same.mergedInto same.deps] at isImport
    rw [(startPass_loads groups g).1, (startPass_loads groups d).1]
    exact loads.covered g d isImport
  · intro g
    rw [(startPass_loads groups g).2]
    exact loads.pure g
  · intro g isImpure
    rw [(startPass_loads groups g).1]
    exact loads.impure g isImpure

theorem Loads.tryFold {minChunkSize : ℕ} {groupOfFile : ℕ → Fin n} {start groups next : Groups n}
    {candidate target : Fin n} {acyclic : Bool} (loads : Loads start groups)
    (isFold : tryFold minChunkSize groupOfFile groups candidate target = some (next, acyclic)) :
    Loads start next := by
  obtain ⟨newlyLoaded, tested, isHoist⟩ := tryFold_tested isFold
  have isNext : (hoist groups candidate target newlyLoaded).1 = next := congrArg Prod.fst isHoist
  rw [← isNext]
  refine ⟨(tested.hoist_links loads.chained).1, tested.covered loads.chained loads.covered, ?_, ?_⟩
  · intro g
    rw [(tested.hoist_loads g).2]
    exact loads.pure g
  · intro g isImpure
    have notMore : g ∉ newlyLoaded.tail := by
      intro inMore
      have isPure := (loads.pure g).symm.trans (tested.starts.pure g inMore)
      rw [isImpure] at isPure
      cases isPure
    rw [(tested.hoist_loads g).1]
    unfold loadedAfter
    rw [if_neg notMore]
    exact loads.impure g isImpure

/-- After any folds of the second rule the imports of a group are loaded wherever it is, and no
group with side effects is loaded by more entries than before. -/
theorem rule2_loads {minChunkSize : ℕ} {groupOfFile : ℕ → Fin n} {dominated : ℕ → Finset ℕ}
    {fresh start groups : Groups n} (isFresh : ∀ g, (fresh g).mergedInto = none)
    (prepared : Prepared dominated fresh start)
    (run : Rule2 minChunkSize groupOfFile start groups) :
    (∀ g d, Imports groups g d → (groups g).loaded ⊆ (groups d).loaded) ∧
      ∀ g, (groups g).pure = (start g).pure ∧
        ((groups g).pure = false → (groups g).loaded = (start g).loaded) := by
  have first : Loads start start :=
    ⟨prepared.chained isFresh, prepared.covered, fun _ => rfl, fun _ _ => rfl⟩
  have loads : Loads start groups := by
    induction run with
    | start => exact first.startPass
    | pass _ ih => exact ih.startPass
    | fold _ isFold ih => exact ih.tryFold isFold
  exact ⟨loads.covered, fun g => ⟨loads.pure g, fun isImpure =>
    loads.impure g ((loads.pure g).symm.trans isImpure)⟩⟩

theorem rule2_loads_pair :
    ∃ folded, tryFold 100 (fun _ => 0) (startPass preparedPair).1 1 0 = some folded ∧
      ∀ g d, Imports folded.1 g d → (folded.1 g).loaded ⊆ (folded.1 d).loaded := by
  obtain ⟨⟨next, acyclic⟩, isNext⟩ := tryFold_pair
  exact ⟨(next, acyclic), isNext,
    (rule2_loads (by decide) chunkPair_prepared (Rule2.start.fold isNext)).1⟩

end Bun.Bundler
