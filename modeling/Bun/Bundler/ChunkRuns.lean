/-
Runs of the second rule.

Whatever folds are tried, the live groups stay in order, and their imports never form a cycle.
-/

import Bun.Bundler.ChunkOrder

set_option autoImplicit false

namespace Bun.Bundler

open Bun.Foundation Relation

variable {n : ℕ}

/-! ### One fold -/

structure FoldTested (groups : Groups n) (candidate target : Fin n) (newlyLoaded : List (Fin n)) :
    Prop where
  candidateLive : (groups candidate).mergedInto = none
  candidatePure : (groups candidate).pure = true
  targetLive : (groups target).mergedInto = none
  different : candidate ≠ target
  loaded : (groups candidate).loaded ⊆ (groups target).loaded
  noCycle : wouldCycle groups candidate target = false
  collected : collectNewlyLoaded groups candidate target = some newlyLoaded

theorem tryFold_tested {minChunkSize : ℕ} {groupOfFile : ℕ → Fin n} {groups next : Groups n}
    {candidate target : Fin n} {acyclic : Bool}
    (isFold : tryFold minChunkSize groupOfFile groups candidate target = some (next, acyclic)) :
    ∃ newlyLoaded, FoldTested groups candidate target newlyLoaded ∧
      hoist groups candidate target newlyLoaded = (next, acyclic) := by
  unfold tryFold at isFold
  split at isFold
  · rename_i tested
    split at isFold
    · cases isFold
    · rename_i newlyLoaded collected
      split at isFold
      · unfold isCandidate isTarget Group.isLive at tested
        simp only [Bool.and_eq_true, decide_eq_true_eq, Bool.not_eq_true',
          Option.isNone_iff_eq_none] at tested
        obtain ⟨⟨⟨⟨⟨candidateLive, -⟩, candidatePure⟩, -⟩, -⟩,
          ⟨⟨⟨⟨⟨⟨⟨different, targetLive⟩, -⟩, -⟩, loaded⟩, -⟩, -⟩, noCycle⟩⟩ := tested
        exact ⟨newlyLoaded, ⟨candidateLive, candidatePure, targetLive, different.symm, loaded,
          noCycle, collected⟩, Option.some.inj isFold⟩
      · cases isFold
  · cases isFold

theorem covered_sameLinks (groups : Groups n) (candidate target : Fin n)
    (newlyLoaded : List (Fin n)) (targetLoaded : Finset ℕ) :
    SameLinks groups (coverBits (startLoading groups newlyLoaded targetLoaded) candidate target) ∧
      ∀ g, (coverBits (startLoading groups newlyLoaded targetLoaded) candidate target g).topo =
        (groups g).topo := by
  have started (g : Fin n) :
      let started := startLoading groups newlyLoaded targetLoaded g
      started.mergedInto = (groups g).mergedInto ∧ started.deps = (groups g).deps ∧
        started.importers = (groups g).importers ∧ started.topo = (groups g).topo := by
    unfold startLoading
    dsimp only
    split
    · exact ⟨rfl, rfl, rfl, rfl⟩
    · exact ⟨rfl, rfl, rfl, rfl⟩
  have covered (g : Fin n) :
      let covered := coverBits (startLoading groups newlyLoaded targetLoaded) candidate target g
      covered.mergedInto = (groups g).mergedInto ∧ covered.deps = (groups g).deps ∧
        covered.importers = (groups g).importers ∧ covered.topo = (groups g).topo := by
    unfold coverBits
    dsimp only
    split
    · exact started g
    · exact started g
  exact ⟨⟨fun g => (covered g).1, fun g => (covered g).2.1, fun g => (covered g).2.2.1⟩,
    fun g => (covered g).2.2.2⟩

theorem markHoisted_sameLinks (groups : Groups n) (candidate : Fin n) :
    SameLinks groups (markHoisted groups candidate) ∧
      ∀ g, (markHoisted groups candidate g).topo = (groups g).topo := by
  have marked (g : Fin n) :
      (markHoisted groups candidate g).mergedInto = (groups g).mergedInto ∧
        (markHoisted groups candidate g).deps = (groups g).deps ∧
        (markHoisted groups candidate g).importers = (groups g).importers ∧
        (markHoisted groups candidate g).topo = (groups g).topo := by
    unfold markHoisted
    split
    · exact ⟨rfl, rfl, rfl, rfl⟩
    · exact ⟨rfl, rfl, rfl, rfl⟩
  exact ⟨⟨fun g => (marked g).1, fun g => (marked g).2.1, fun g => (marked g).2.2.1⟩,
    fun g => (marked g).2.2.2⟩

theorem Ordered.no_cycle {groups : Groups n} (ordered : Ordered groups) {candidate target : Fin n}
    (targetLive : (groups target).mergedInto = none)
    (noCycle : wouldCycle groups candidate target = false) :
    ¬ ReflTransGen (Imports groups) target candidate ∧
      ∀ next, Imports groups candidate next → next ≠ target →
        ¬ ReflTransGen (Imports groups) next target := by
  unfold wouldCycle at noCycle
  rw [Bool.or_eq_false_iff, List.any_eq_false] at noCycle
  obtain ⟨noReturn, noDetour⟩ := noCycle
  constructor
  · intro path
    rw [(ordered.reaches_iff targetLive).mpr path] at noReturn
    cases noReturn
  · intro next isImport notTarget path
    obtain ⟨-, notCandidate, member⟩ := imports_iff.mp isImport
    have isReached := (ordered.reaches_iff (isImport.right_live ordered.chained)).mpr path
    exact noDetour next member (by simp [notTarget, notCandidate, isReached])

theorem tryFold_ordered {minChunkSize : ℕ} {groupOfFile : ℕ → Fin n} {groups next : Groups n}
    {candidate target : Fin n} {acyclic : Bool} (ordered : Ordered groups)
    (isFold : tryFold minChunkSize groupOfFile groups candidate target = some (next, acyclic)) :
    acyclic = true ∧ Ordered next := by
  obtain ⟨newlyLoaded, tested, isHoist⟩ := tryFold_tested isFold
  obtain ⟨noReturn, noDetour⟩ := ordered.no_cycle tested.targetLive tested.noCycle
  obtain ⟨same, sameTopo⟩ := covered_sameLinks groups candidate target newlyLoaded.tail
    (groups target).loaded
  generalize isCovered : coverBits (startLoading groups newlyLoaded.tail (groups target).loaded)
    candidate target = covered at same sameTopo
  have coveredOrdered : Ordered covered := ordered.congr same sameTopo
  have candidateLive := (same.mergedInto candidate).trans tested.candidateLive
  have targetLive := (same.mergedInto target).trans tested.targetLive
  rw [← imports_congr same.mergedInto same.deps] at noReturn noDetour
  have linked : Linked (fold covered candidate target) :=
    coveredOrdered.toLinked.fold candidateLive targetLive tested.different noReturn noDetour
  obtain ⟨sameHoisted, sameHoistedTopo⟩ :=
    markHoisted_sameLinks (fold covered candidate target) candidate
  unfold hoist at isHoist
  dsimp only at isHoist
  rw [isCovered] at isHoist
  split at isHoist
  · obtain ⟨isNumbered, isOrdered⟩ := numberTopologically_ordered (linked.congr sameHoisted)
    rw [isHoist] at isNumbered isOrdered
    exact ⟨isNumbered, isOrdered⟩
  · rename_i inOrder
    rw [Bool.not_eq_true, Bool.or_eq_false_iff] at inOrder
    have foldOrdered := coveredOrdered.fold candidateLive targetLive tested.different linked
      inOrder.1 inOrder.2
    obtain ⟨rfl, rfl⟩ := Prod.mk.inj isHoist
    exact ⟨rfl, foldOrdered.congr sameHoisted sameHoistedTopo⟩

/-! ### What the second rule starts with -/

theorem coverImports_mergedInto (state : Groups n × Bool) (source g : Fin n) :
    ((coverImports state source).1 g).mergedInto = (state.1 g).mergedInto := by
  have once (state : Groups n × Bool) (dep : Fin n) :
      ((coverImport source state dep).1 g).mergedInto = (state.1 g).mergedInto := by
    unfold coverImport
    dsimp only
    split
    · rfl
    · dsimp only
      by_cases isDep : g = dep
      · rw [isDep, Function.update_self]
      · rw [Function.update_of_ne isDep]
  have all : ∀ (deps : List (Fin n)) (state : Groups n × Bool),
      ((deps.foldl (coverImport source) state).1 g).mergedInto = (state.1 g).mergedInto := by
    intro deps
    induction deps with
    | nil => exact fun _ => rfl
    | cons dep rest ih =>
        intro state
        rw [List.foldl_cons]
        exact (ih _).trans (once state dep)
  unfold coverImports
  split
  · exact all _ state
  · rfl

theorem propagateOnce_mergedInto (groups : Groups n) (g : Fin n) :
    ((propagateOnce groups).1 g).mergedInto = (groups g).mergedInto := by
  unfold propagateOnce
  have all : ∀ (sources : List (Fin n)) (state : Groups n × Bool),
      ((sources.foldl coverImports state).1 g).mergedInto = (state.1 g).mergedInto := by
    intro sources
    induction sources with
    | nil => exact fun _ => rfl
    | cons source rest ih =>
        intro state
        rw [List.foldl_cons]
        exact (ih _).trans (coverImports_mergedInto state source g)
  exact all _ _

theorem Propagates.mergedInto {groups final : Groups n} (propagates : Propagates groups final)
    (g : Fin n) : (final g).mergedInto = (groups g).mergedInto := by
  induction propagates with
  | done => exact propagateOnce_mergedInto _ g
  | again _ _ ih => exact ih.trans (propagateOnce_mergedInto _ g)

theorem Rule1.chained {fresh groups : Groups n} (isFresh : ∀ g, (fresh g).mergedInto = none)
    (run : Rule1 fresh groups) : Chained groups := by
  induction run with
  | start => exact chained_of_live isFresh
  | fold _ memberLive targetLive different ih =>
      exact ih.fold (Option.isNone_iff_eq_none.mp memberLive)
        (Option.isNone_iff_eq_none.mp targetLive) different

theorem addDominated_mergedInto (dominated : ℕ → Finset ℕ) (groups : Groups n) (g : Fin n) :
    (addDominated dominated groups g).mergedInto = (groups g).mergedInto := by
  unfold addDominated
  split
  · rfl
  · rfl

theorem Prepared.chained {dominated : ℕ → Finset ℕ} {fresh start : Groups n}
    (isFresh : ∀ g, (fresh g).mergedInto = none) (prepared : Prepared dominated fresh start) :
    Chained start := by
  obtain ⟨run, isPropagated⟩ := prepared
  exact (run.chained isFresh).congr fun g =>
    (isPropagated.mergedInto g).trans (addDominated_mergedInto dominated _ g)

theorem Prepared.linked {dominated : ℕ → Finset ℕ} {fresh start : Groups n}
    (isFresh : ∀ g, (fresh g).mergedInto = none) (prepared : Prepared dominated fresh start)
    (acyclic : IsAcyclic (Imports start)) : Linked start := by
  refine ⟨prepared.chained isFresh, acyclic, ?_⟩
  intro g d isImport
  obtain ⟨run, isPropagated⟩ := prepared
  rename_i folded propagated
  have sameLinks : ∀ g, (listImporters propagated g).mergedInto = (propagated g).mergedInto :=
    fun _ => rfl
  have same := imports_congr sameLinks fun _ => rfl
  rw [same] at isImport
  obtain ⟨isLive, notSelf, member⟩ := imports_iff.mp isImport
  refine ⟨g, ?_, ?_⟩
  · refine mem_mergeSorted.mpr (Or.inr ?_)
    unfold importersOf Group.isLive
    rw [List.mem_filter, isLive]
    exact ⟨List.mem_finRange g, by simp [notSelf, member]⟩
  · rw [resolve_congr sameLinks]
    exact resolve_of_live isLive

/-! ### Runs -/

theorem Rule2.ordered {minChunkSize : ℕ} {groupOfFile : ℕ → Fin n} {first groups : Groups n}
    (linked : Linked first) (run : Rule2 minChunkSize groupOfFile first groups) :
    Ordered groups := by
  induction run with
  | start => exact (startPass_ordered linked).2
  | pass _ ih => exact (startPass_ordered ih.toLinked).2
  | fold _ isFold ih => exact (tryFold_ordered ih isFold).2

/-- After any folds of the second rule the live groups have no cycle of imports, they are in
order, reachability is answered exactly, and every link leads to a live group. -/
theorem rule2_ordered {minChunkSize : ℕ} {groupOfFile : ℕ → Fin n} {dominated : ℕ → Finset ℕ}
    {fresh start groups : Groups n} (isFresh : ∀ g, (fresh g).mergedInto = none)
    (prepared : Prepared dominated fresh start) (acyclic : IsAcyclic (Imports start))
    (run : Rule2 minChunkSize groupOfFile start groups) :
    IsAcyclic (Imports groups) ∧
      (∀ g d, Imports groups g d → (groups g).topo < (groups d).topo) ∧
      (∀ g d, (groups g).mergedInto = none → (groups d).mergedInto = none →
        (groups g).topo = (groups d).topo → g = d) ∧
      (∀ g d, (groups g).mergedInto = none → (groups d).mergedInto = none →
        (reaches groups g d = true ↔ ReflTransGen (Imports groups) g d)) ∧
      ∀ index, ∃ steps, Resolves groups steps index (resolve groups index) ∧
        (groups (resolve groups index)).mergedInto = none := by
  have ordered := run.ordered (prepared.linked isFresh acyclic)
  refine ⟨ordered.acyclic, ordered.increasing, ordered.injective, ?_, ?_⟩
  · exact fun g d isLive _ => ordered.reaches_iff isLive
  · intro index
    obtain ⟨steps, resolves, -⟩ := ordered.chained.resolves index
    exact ⟨steps, resolves, resolves.owner_live⟩

def chunkPair : Groups 2 := fun g =>
  if g = ⟨0, Nat.zero_lt_two⟩ then
    { size := 20, target := some .browser, bits := {0, 1}, loaded := {0, 1} }
  else
    { size := 10, target := some .browser, bits := {0}, loaded := {0}
      deps := [⟨0, Nat.zero_lt_two⟩] }

def preparedPair : Groups 2 :=
  listImporters (propagateOnce (addDominated (fun _ => ∅) chunkPair)).1

theorem chunkPair_prepared : Prepared (fun _ => ∅) chunkPair preparedPair :=
  Prepared.intro Rule1.start (Propagates.done (by decide +kernel))

theorem tryFold_pair :
    ∃ folded, tryFold 100 (fun _ => 0) (startPass preparedPair).1 1 0 = some folded := by
  have isCollected : collectNewlyLoaded (startPass preparedPair).1 1 0 = some [1] := by
    have isImport : (importsOf (startPass preparedPair).1 1).reverse = [0] := by
      decide +kernel
    rw [collectNewlyLoaded, isImport, collectFrom, if_pos (by decide), collectFrom]
  rw [tryFold, if_pos (by decide +kernel), isCollected]
  exact ⟨_, if_pos (by decide +kernel)⟩

theorem rule2_ordered_pair :
    ∃ folded, tryFold 100 (fun _ => 0) (startPass preparedPair).1 1 0 = some folded ∧
      IsAcyclic (Imports folded.1) := by
  obtain ⟨⟨next, acyclic⟩, isNext⟩ := tryFold_pair
  have increasing : ∀ g d : Fin 2, (preparedPair g).mergedInto = none ∧ d ≠ g ∧
      d ∈ importsOf preparedPair g → 1 - g.val < 1 - d.val := by
    decide +kernel
  refine ⟨(next, acyclic), isNext, ?_⟩
  exact (rule2_ordered (by decide) chunkPair_prepared
    (IsAcyclic.of_increasing (fun g => 1 - g.val) fun g d isImport =>
      increasing g d (imports_iff.mp isImport)) (Rule2.start.fold isNext)).1

end Bun.Bundler
