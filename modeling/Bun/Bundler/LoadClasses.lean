/-
The classes that keys are brought to.

An entry of the key that dominates another one is on every walk to it, so the fast path only
answers what the backward walk would.  If some entry of the key is loaded at all, the first one
on the way there is not preceded, so the class is not empty.
-/

import Bun.Bundler.ImporterWalk

set_option autoImplicit false

namespace Bun.Bundler

open Bun.Foundation Relation EntryGraph

variable {n : ℕ} {graph : EntryGraph n} {key : Finset (Fin n)} {target : Fin n}
variable {idom : Fin (n + 1) → Option (Fin (n + 1))}

/-! ### Walks that avoid the key -/

theorem exists_avoiding_walk {root entryId : Fin n} (isRoot : graph.guaranteed root = false)
    (path : ReflTransGen (fun importer below =>
      importer ∈ graph.importerBits below ∧ importer ∉ key.erase target) root entryId) :
    ∃ nodes, Walk (IsEdge graph.successors) (vroot n) nodes entryId.castSucc ∧
      ∀ other : Fin n, other.castSucc ∈ nodes → other = entryId ∨ other ∉ key.erase target := by
  have direct (other : Fin n) (isRoot : graph.guaranteed other = false) :
      ∃ nodes, Walk (IsEdge graph.successors) (vroot n) nodes other.castSucc ∧
        ∀ passed : Fin n, passed.castSucc ∈ nodes → passed = other ∨ passed ∉ key.erase target := by
    refine ⟨_, Walk.start.step (isEdge_of_root isRoot), ?_⟩
    intro passed member
    rcases List.mem_cons.mp member with same | isStart
    · exact Or.inl (Fin.castSucc_injective n same)
    · exact absurd (List.mem_singleton.mp isStart) (castSucc_ne_vroot passed)
  induction path with
  | refl => exact direct root isRoot
  | @tail importer below front step ih =>
      cases isGuaranteed : graph.guaranteed below with
      | false => exact direct below isGuaranteed
      | true =>
          obtain ⟨nodes, walk, avoids⟩ := ih
          refine ⟨_, walk.step (isEdge_of_importer isGuaranteed step.1), ?_⟩
          intro passed member
          rcases List.mem_cons.mp member with same | isEarlier
          · exact Or.inl (Fin.castSucc_injective n same)
          · rcases avoids passed isEarlier with rfl | avoided
            · exact Or.inr step.2
            · exact Or.inr avoided

theorem not_unpreceded_of_dominates {entryId : Fin n} (inKey : entryId ∈ key)
    (other : entryId ≠ target)
    (dominates : Dominates (IsEdge graph.successors) (vroot n) entryId.castSucc target.castSucc) :
    ¬ Unpreceded graph key target := by
  rintro ⟨root, isRoot, leads⟩
  obtain ⟨nodes, walk, avoids⟩ := exists_avoiding_walk isRoot leads
  rcases avoids entryId (dominates nodes walk) with same | avoided
  · exact other same
  · exact avoided (Finset.mem_erase.mpr ⟨other, inKey⟩)

theorem leads_of_avoiding {entryId : Fin n} (path : ReflTransGen (fun importer below =>
    importer ∈ graph.importerBits below ∧ importer ∉ key) entryId target) :
    Leads graph key target entryId := by
  refine ReflTransGen.mono ?_ _ _ path
  exact fun _ _ step => ⟨step.1, fun erased => step.2 (Finset.mem_of_mem_erase erased)⟩

/-- A loaded entry is led to by a root without the key, unless a root loads an entry of the key
before the others. -/
theorem EntryGraph.Loaded.cases (key : Finset (Fin n)) {entryId : Fin n}
    (loaded : graph.Loaded entryId) :
    (∃ first ∈ key, Unpreceded graph key first) ∨
      ∃ root, graph.guaranteed root = false ∧ ReflTransGen (fun importer below =>
        importer ∈ graph.importerBits below ∧ importer ∉ key) root entryId := by
  obtain ⟨nodes, walk⟩ := loaded
  generalize isNode : entryId.castSucc = node at walk
  induction walk generalizing entryId with
  | start => exact absurd isNode (castSucc_ne_vroot entryId)
  | @step nodes before node front isEdge ih =>
      subst isNode
      rw [isEdge_castSucc] at isEdge
      unfold comesBehind at isEdge
      obtain rfl | ⟨importer, rfl⟩ := eq_vroot_or_castSucc before
      · rw [entryOf_vroot] at isEdge
        exact Or.inr ⟨entryId, Bool.not_eq_true' _ ▸ isEdge, ReflTransGen.refl⟩
      · rw [entryOf_castSucc] at isEdge
        obtain ⟨_, imports⟩ := Bool.and_eq_true_iff.mp isEdge
        rcases ih rfl with isFound | ⟨root, isRoot, path⟩
        · exact Or.inl isFound
        · by_cases inKey : importer ∈ key
          · exact Or.inl ⟨importer, inKey, root, isRoot, leads_of_avoiding path⟩
          · exact Or.inr ⟨root, isRoot, path.tail ⟨of_decide_eq_true imports, inKey⟩⟩

theorem exists_unpreceded (inKey : target ∈ key) (loaded : graph.Loaded target) :
    ∃ first ∈ key, Unpreceded graph key first := by
  rcases Loaded.cases key loaded with isFound | ⟨root, isRoot, path⟩
  · exact isFound
  · exact ⟨target, inKey, root, isRoot, leads_of_avoiding path⟩

def RootLeads (graph : EntryGraph n) (entryId : Fin n) : Prop :=
  ∃ root, graph.guaranteed root = false ∧
    ReflTransGen (fun importer below => importer ∈ graph.importerBits below) root entryId

theorem EntryGraph.loaded_iff {entryId : Fin n} : graph.Loaded entryId ↔ RootLeads graph entryId := by
  constructor
  · intro loaded
    rcases Loaded.cases ∅ loaded with ⟨first, inKey, _⟩ | ⟨root, isRoot, path⟩
    · exact absurd inKey (Finset.notMem_empty first)
    · exact ⟨root, isRoot, ReflTransGen.mono (fun _ _ step => step.1) _ _ path⟩
  · rintro ⟨root, isRoot, path⟩
    induction path with
    | refl => exact Loaded.of_root isRoot
    | tail _ imports ih => exact ih.step imports

/-! ### The fast path -/

namespace LoadClass

theorem followUp_spec (tree : IsDominatorTree graph.successors (vroot n) idom)
    (key : Finset (Fin n)) {fuel : ℕ} {up : Fin (n + 1)} (reached : Reached (IsEdge graph.successors) (vroot n) up)
    (enough : (dominators (IsEdge graph.successors) (vroot n) up).card < fuel) :
    ∃ found, followUp key idom fuel up = some found ∧ (found = true → ∃ entryId ∈ key,
      Dominates (IsEdge graph.successors) (vroot n) entryId.castSucc up) := by
  induction fuel generalizing up with
  | zero => exact absurd enough (Nat.not_lt_zero _)
  | succ fuel ih =>
      unfold followUp
      obtain rfl | ⟨entryId, rfl⟩ := eq_vroot_or_castSucc up
      · rw [entryOf_vroot]
        exact ⟨false, rfl, nofun⟩
      · rw [entryOf_castSucc]
        dsimp only
        by_cases inKey : entryId ∈ key
        · rw [if_pos inKey]
          exact ⟨true, rfl, fun _ => ⟨entryId, inKey, Dominates.refl _⟩⟩
        · rw [if_neg inKey]
          obtain ⟨next, isNext⟩ := Option.isSome_iff_exists.mp (tree.known _ reached)
          have immediate :=
            (tree.immediate _ (castSucc_ne_vroot entryId) reached next).mp isNext
          have nextReached : Reached (IsEdge graph.successors) (vroot n) next := by
            obtain ⟨nodes, walk⟩ := reached
            exact walk.passed_reached (immediate.dominates nodes walk)
          have fewer := immediate.card_lt reached
          obtain ⟨found, isFound, dominated⟩ := ih nextReached (by omega)
          rw [isNext]
          refine ⟨found, isFound, ?_⟩
          intro isTrue
          obtain ⟨above, aboveKey, dominates⟩ := dominated isTrue
          exact ⟨above, aboveKey, dominates.trans immediate.dominates⟩

theorem fastPath_spec (tree : IsDominatorTree graph.successors (vroot n) idom) {fuel : ℕ}
    (enough : n + 1 < fuel) (key : Finset (Fin n)) (target : Fin n) :
    ∃ fast, fastPath key idom fuel target = some fast ∧
      (fast = true → ¬ Unpreceded graph key target) := by
  unfold fastPath
  cases isUp : idom target.castSucc with
  | none =>
      refine ⟨true, rfl, ?_⟩
      intro _ unpreceded
      have isSome := tree.known _ unpreceded.loaded
      rw [isUp] at isSome
      nomatch isSome
  | some up =>
      have reached : Reached (IsEdge graph.successors) (vroot n) target.castSucc := by
        by_contra notReached
        rw [tree.unreached _ notReached] at isUp
        nomatch isUp
      have immediate :=
        (tree.immediate _ (castSucc_ne_vroot target) reached up).mp isUp
      have upReached : Reached (IsEdge graph.successors) (vroot n) up := by
        obtain ⟨nodes, walk⟩ := reached
        exact walk.passed_reached (immediate.dominates nodes walk)
      have atMost := (dominators (IsEdge graph.successors) (vroot n) up).card_le_univ
      rw [Fintype.card_fin] at atMost
      obtain ⟨fast, isFast, dominated⟩ := followUp_spec tree key upReached
        (Nat.lt_of_le_of_lt atMost enough)
      refine ⟨fast, isFast, ?_⟩
      intro isTrue
      obtain ⟨entryId, inKey, dominates⟩ := dominated isTrue
      refine not_unpreceded_of_dominates inKey ?_ (dominates.trans immediate.dominates)
      rintro rfl
      exact immediate.strict (immediate.dominates.antisymm dominates reached)

theorem unreached_of_tree (tree : IsDominatorTree graph.successors (vroot n) idom)
    (entryId : Fin n) (isNone : idom entryId.castSucc = none) : ¬ graph.Loaded entryId := by
  intro loaded
  have isSome := tree.known _ loaded
  rw [isNone] at isSome
  nomatch isSome

/-- Both ways together find out whether a root can load the entry before the rest of the key. -/
theorem preceded_spec (tree : IsDominatorTree graph.successors (vroot n) idom) {fuel : ℕ}
    (enough : n + 1 < fuel) (key : Finset (Fin n))
    (isGuaranteed : graph.guaranteed target = true) :
    ∃ found, preceded graph key idom fuel target = some found ∧
      (found = true ↔ ¬ Unpreceded graph key target) := by
  obtain ⟨fast, isFast, isPreceded⟩ := fastPath_spec tree enough key target
  unfold preceded
  rw [isFast]
  cases fast with
  | true => exact ⟨true, rfl, fun _ => isPreceded rfl, fun _ => rfl⟩
  | false =>
      exact ⟨walk graph key idom ∅ [target], rfl,
        walk_eq_true_iff (unreached_of_tree tree) isGuaranteed⟩

/-! ### The class -/

theorem tryDrop_spec (tree : IsDominatorTree graph.successors (vroot n) idom) {fuel : ℕ}
    (enough : n + 1 < fuel) (key : Finset (Fin n)) (candidates : List (Fin n)) (state : Class n) :
    ∃ last, candidates.foldlM (tryDrop graph key idom fuel) state = some last ∧
      (∀ entryId, entryId ∈ last.entries ↔ entryId ∈ state.entries ∧
        (entryId ∈ candidates → graph.guaranteed entryId = true →
          Unpreceded graph key entryId)) ∧
      (last.dropped = false → last = state) := by
  induction candidates generalizing state with
  | nil => exact ⟨state, rfl, by simp, fun _ => rfl⟩
  | cons first candidates ih =>
      rw [List.foldlM_cons]
      unfold tryDrop
      cases isGuaranteed : graph.guaranteed first with
      | false =>
          rw [if_pos rfl]
          obtain ⟨last, isLast, member_iff, unchanged⟩ := ih state
          refine ⟨last, isLast, ?_, unchanged⟩
          intro entryId
          rw [member_iff]
          refine and_congr_right fun _ => ⟨?_, ?_⟩
          · intro ifMember member guaranteedEntry
            rcases List.mem_cons.mp member with rfl | inRest
            · rw [isGuaranteed] at guaranteedEntry
              nomatch guaranteedEntry
            · exact ifMember inRest guaranteedEntry
          · exact fun ifMember inRest => ifMember (List.mem_cons_of_mem _ inRest)
      | true =>
          rw [if_neg Bool.true_eq_false.mp]
          obtain ⟨found, isFound, found_iff⟩ := preceded_spec tree enough key isGuaranteed
          rw [isFound]
          cases found with
          | true =>
              have isPreceded := found_iff.mp rfl
              obtain ⟨last, isLast, member_iff, unchanged⟩ :=
                ih { entries := state.entries.erase first, dropped := true }
              refine ⟨last, isLast, ?_, ?_⟩
              · intro entryId
                rw [member_iff, Finset.mem_erase, List.mem_cons]
                constructor
                · rintro ⟨⟨other, isEntry⟩, ifMember⟩
                  refine ⟨isEntry, ?_⟩
                  rintro (same | inRest)
                  · exact absurd same other
                  · exact ifMember inRest
                · rintro ⟨isEntry, ifMember⟩
                  refine ⟨⟨?_, isEntry⟩, fun inRest => ifMember (Or.inr inRest)⟩
                  rintro rfl
                  exact isPreceded (ifMember (Or.inl rfl) isGuaranteed)
              · intro isFalse
                rw [unchanged isFalse] at isFalse
                nomatch isFalse
          | false =>
              have isUnpreceded : Unpreceded graph key first := by
                by_contra isPreceded
                exact Bool.false_ne_true (found_iff.mpr isPreceded)
              obtain ⟨last, isLast, member_iff, unchanged⟩ := ih state
              refine ⟨last, isLast, ?_, unchanged⟩
              intro entryId
              rw [member_iff, List.mem_cons]
              refine and_congr_right fun _ => ⟨?_, ?_⟩
              · rintro ifMember (rfl | inRest)
                · exact fun _ => isUnpreceded
                · exact ifMember inRest
              · exact fun ifMember inRest => ifMember (Or.inr inRest)

end LoadClass

/-- A guaranteed entry is dropped exactly when no root leads to it without first passing another
entry of the key, unless no root leads to the key at all.  The fast path agrees with the walk. -/
theorem loadClass_drops (graph : EntryGraph n) :
    ∃ enough, ∀ fuel, enough ≤ fuel → ∃ idom, graph.idom fuel = some idom ∧
      ∀ key : Finset (Fin n), ∃ entries, loadClass graph fuel idom key = some entries ∧
        (key ≠ ∅ → entries ≠ ∅) ∧
        (∀ entryId, entryId ∈ entries ↔ entryId ∈ key ∧ (graph.guaranteed entryId = true →
          Unpreceded graph key entryId ∨ ∀ other ∈ key, ¬ RootLeads graph other)) ∧
        ∀ entryId ∈ key, graph.guaranteed entryId = true →
          ∃ fast, LoadClass.fastPath key idom fuel entryId = some fast ∧
            (fast = true → LoadClass.walk graph key idom ∅ [entryId] = true) := by
  obtain ⟨enoughSweeps, isEnough⟩ :=
    immediateDominators_finds graph.successors graph.predecessors (vroot n) graph.sameEdges
  refine ⟨enoughSweeps + n + 2, ?_⟩
  intro fuel enough
  obtain ⟨idom, isIdom, tree⟩ := isEnough fuel (by omega)
  refine ⟨idom, isIdom, ?_⟩
  intro key
  have fastAgrees (entryId : Fin n) (isGuaranteed : graph.guaranteed entryId = true) :
      ∃ fast, LoadClass.fastPath key idom fuel entryId = some fast ∧
        (fast = true → LoadClass.walk graph key idom ∅ [entryId] = true) := by
    obtain ⟨fast, isFast, isPreceded⟩ := LoadClass.fastPath_spec tree (show n + 1 < fuel by omega) key entryId
    refine ⟨fast, isFast, ?_⟩
    intro isTrue
    exact (LoadClass.walk_eq_true_iff (LoadClass.unreached_of_tree tree) isGuaranteed).mpr
      (isPreceded isTrue)
  obtain ⟨last, isLast, member_iff, unchanged⟩ := LoadClass.tryDrop_spec tree
    (show n + 1 < fuel by omega) key ((List.finRange n).filter (· ∈ key)) ⟨key, false⟩
  have keeps (entryId : Fin n) : entryId ∈ last.entries ↔ entryId ∈ key ∧
      (graph.guaranteed entryId = true → Unpreceded graph key entryId) := by
    rw [member_iff]
    refine and_congr_right fun inKey => ?_
    simp [inKey]
  unfold loadClass
  rw [isLast]
  dsimp only
  by_cases isNever : ∀ other ∈ key, ¬ RootLeads graph other
  · -- Nothing of the key is loaded, so every entry would be dropped.
    have noEntry : last.entries = ∅ := by
      rw [Finset.eq_empty_iff_forall_notMem]
      intro entryId member
      obtain ⟨inKey, ifGuaranteed⟩ := (keeps entryId).mp member
      refine isNever entryId inKey (loaded_iff.mp ?_)
      cases isGuaranteed : graph.guaranteed entryId with
      | false => exact Loaded.of_root isGuaranteed
      | true => exact (ifGuaranteed isGuaranteed).loaded
    have isKey : (if last.dropped = true ∧ last.entries = ∅ then some key else some last.entries) =
        some key := by
      by_cases isDropped : last.dropped = true
      · rw [if_pos ⟨isDropped, noEntry⟩]
      · rw [if_neg fun both => isDropped both.1, unchanged (Bool.eq_false_of_not_eq_true isDropped)]
    refine ⟨key, isKey, id, ?_, fun entryId _ => fastAgrees entryId⟩
    intro entryId
    exact ⟨fun inKey => ⟨inKey, fun _ => Or.inr isNever⟩, And.left⟩
  · push Not at isNever
    obtain ⟨other, otherKey, leads⟩ := isNever
    obtain ⟨first, firstKey, isFirst⟩ := exists_unpreceded otherKey (loaded_iff.mpr leads)
    have notEmpty : last.entries ≠ ∅ := by
      intro noEntry
      have member := (keeps first).mpr ⟨firstKey, fun _ => isFirst⟩
      rw [noEntry] at member
      exact Finset.notMem_empty _ member
    rw [if_neg fun both => notEmpty both.2]
    refine ⟨last.entries, rfl, fun _ => notEmpty, ?_, fun entryId _ => fastAgrees entryId⟩
    intro entryId
    rw [keeps]
    refine and_congr_right fun _ => ⟨fun ifGuaranteed isGuaranteed =>
      Or.inl (ifGuaranteed isGuaranteed), ?_⟩
    intro ifGuaranteed isGuaranteed
    rcases ifGuaranteed isGuaranteed with isUnpreceded | isNever
    · exact isUnpreceded
    · exact absurd leads (isNever other otherKey)

/-- Two entries that only import each other: no root leads to the first one, and it stays. -/
def mutualImports : EntryGraph 2 where
  isDynamicEntry := fun _ => true
  requiredSync := ∅
  awaits := ∅
  importerBits := ![{1}, {0}]

theorem mutualImports_guaranteed (entryId : Fin 2) :
    mutualImports.guaranteed entryId = true := by
  revert entryId
  decide

theorem loadClass_keeps_unreached :
    mutualImports.guaranteed 0 = true ∧ ¬ Unpreceded mutualImports {0} 0 ∧
      (mutualImports.idom 9).bind (fun idom => loadClass mutualImports 9 idom {0}) = some {0} := by
  refine ⟨mutualImports_guaranteed 0, ?_, by decide +kernel⟩
  rintro ⟨root, isRoot, -⟩
  rw [mutualImports_guaranteed] at isRoot
  nomatch isRoot

end Bun.Bundler
