/-
The backward walk over the importers of an entry.

The walk meets a root exactly when a root leads to the entry along imports without first passing
another entry of the key.  Importers that no root leads to may be left out.
-/

import Bun.Bundler.LoadClass
import Bun.Bundler.FoundDominators

set_option autoImplicit false

namespace Bun.Bundler

open Bun.Foundation Relation EntryGraph

variable {n : ℕ} {graph : EntryGraph n} {key : Finset (Fin n)} {target : Fin n}
variable {idom : Fin (n + 1) → Option (Fin (n + 1))}

/-! ### The import graph -/

@[simp] theorem EntryGraph.entryOf_castSucc (entryId : Fin n) :
    entryOf entryId.castSucc = some entryId :=
  dif_pos entryId.isLt

@[simp] theorem EntryGraph.entryOf_vroot : entryOf (vroot n) = none :=
  dif_neg (Nat.lt_irrefl n)

theorem EntryGraph.eq_vroot_or_castSucc (node : Fin (n + 1)) :
    node = vroot n ∨ ∃ entryId : Fin n, node = entryId.castSucc := by
  rcases Fin.eq_castSucc_or_eq_last node with ⟨entryId, isEntry⟩ | isLast
  · exact Or.inr ⟨entryId, isEntry⟩
  · exact Or.inl isLast

theorem EntryGraph.castSucc_ne_vroot (entryId : Fin n) : entryId.castSucc ≠ vroot n :=
  Fin.castSucc_ne_last entryId

theorem EntryGraph.mem_importers {importer entryId : Fin n} :
    importer ∈ graph.importers entryId ↔ importer ∈ graph.importerBits entryId := by
  simp [importers]

theorem EntryGraph.isEdge_castSucc (node : Fin (n + 1)) (entryId : Fin n) :
    IsEdge graph.successors node entryId.castSucc ↔ graph.comesBehind node entryId = true := by
  simp [IsEdge, successors]

theorem EntryGraph.isEdge_of_root {entryId : Fin n} (isRoot : graph.guaranteed entryId = false) :
    IsEdge graph.successors (vroot n) entryId.castSucc := by
  rw [isEdge_castSucc]
  simp [comesBehind, isRoot]

theorem EntryGraph.isEdge_of_importer {importer entryId : Fin n}
    (isGuaranteed : graph.guaranteed entryId = true)
    (imports : importer ∈ graph.importerBits entryId) :
    IsEdge graph.successors importer.castSucc entryId.castSucc := by
  rw [isEdge_castSucc]
  simp [comesBehind, isGuaranteed, imports]

theorem EntryGraph.sameEdges (graph : EntryGraph n) :
    SameEdges graph.successors graph.predecessors (vroot n) := by
  intro before node notRoot
  obtain rfl | ⟨entryId, rfl⟩ := eq_vroot_or_castSucc node
  · exact absurd rfl notRoot
  · refine (isEdge_castSucc before entryId).trans ?_
    unfold predecessors comesBehind
    rw [entryOf_castSucc]
    dsimp only
    obtain rfl | ⟨importer, rfl⟩ := eq_vroot_or_castSucc before
    · rw [entryOf_vroot]
      cases isGuaranteed : graph.guaranteed entryId with
      | true => simp [Fin.castSucc_ne_last, vroot]
      | false => simp
    · rw [entryOf_castSucc]
      cases isGuaranteed : graph.guaranteed entryId with
      | true => simp [mem_importers]
      | false => simp [Fin.castSucc_ne_last, vroot]

def EntryGraph.Loaded (graph : EntryGraph n) (entryId : Fin n) : Prop :=
  Reached (IsEdge graph.successors) (vroot n) entryId.castSucc

theorem EntryGraph.Loaded.of_root {entryId : Fin n} (isRoot : graph.guaranteed entryId = false) :
    graph.Loaded entryId :=
  reached_root.step (isEdge_of_root isRoot)

theorem EntryGraph.Loaded.step {importer entryId : Fin n} (loaded : graph.Loaded importer)
    (imports : importer ∈ graph.importerBits entryId) : graph.Loaded entryId := by
  cases isGuaranteed : graph.guaranteed entryId with
  | true => exact Reached.step loaded (isEdge_of_importer isGuaranteed imports)
  | false => exact Loaded.of_root isGuaranteed

/-! ### Imports that avoid the key -/

/-- The entry leads to the target along imports, and what comes in front of the target is not
another entry of the key. -/
def Leads (graph : EntryGraph n) (key : Finset (Fin n)) (target entryId : Fin n) : Prop :=
  ReflTransGen (fun importer below =>
    importer ∈ graph.importerBits below ∧ importer ∉ key.erase target) entryId target

def Unpreceded (graph : EntryGraph n) (key : Finset (Fin n)) (target : Fin n) : Prop :=
  ∃ root, graph.guaranteed root = false ∧ Leads graph key target root

theorem Leads.loaded {entryId : Fin n} (leads : Leads graph key target entryId)
    (loaded : graph.Loaded entryId) : graph.Loaded target := by
  induction leads using ReflTransGen.head_induction_on with
  | refl => exact loaded
  | head step _ ih => exact ih (loaded.step step.1)

theorem Unpreceded.loaded (unpreceded : Unpreceded graph key target) : graph.Loaded target := by
  obtain ⟨root, isRoot, leads⟩ := unpreceded
  exact leads.loaded (Loaded.of_root isRoot)

/-! ### The walk -/

namespace LoadClass

theorem exists_of_scan_none {entries : List (Fin n)} {seen : Finset (Fin n)}
    {worklist : List (Fin n)} (stops : scan graph key idom entries seen worklist = none) :
    ∃ root ∈ entries, root ∉ key ∧ graph.guaranteed root = false := by
  fun_induction scan graph key idom entries seen worklist with
  | case1 => cases stops
  | case2 importer rest seen worklist _ ih =>
      obtain ⟨root, member, isFound⟩ := ih stops
      exact ⟨root, List.mem_cons_of_mem _ member, isFound⟩
  | case3 importer rest seen worklist notSkipped isRoot =>
      exact ⟨importer, List.mem_cons_self, fun inKey => notSkipped (Or.inl inKey), isRoot⟩
  | case4 importer rest seen worklist _ _ ih =>
      obtain ⟨root, member, isFound⟩ := ih stops
      exact ⟨root, List.mem_cons_of_mem _ member, isFound⟩

/-- What a scan that comes to its end has marked and put on the list. -/
structure Scanned (graph : EntryGraph n) (key : Finset (Fin n))
    (idom : Fin (n + 1) → Option (Fin (n + 1))) (entries : List (Fin n)) (seen : Finset (Fin n))
    (worklist : List (Fin n)) (after : Finset (Fin n) × List (Fin n)) : Prop where
  grows : seen ⊆ after.1
  covered : ∀ importer ∈ entries,
    importer ∈ key ∨ idom importer.castSucc = none ∨ importer ∈ after.1
  fresh : ∀ importer ∈ after.1, importer ∉ seen →
    importer ∈ entries ∧ importer ∉ key ∧ graph.guaranteed importer = true
  waiting : ∀ importer, importer ∈ after.2 ↔
    importer ∈ worklist ∨ importer ∈ after.1 ∧ importer ∉ seen

theorem scanned {entries : List (Fin n)} {seen : Finset (Fin n)} {worklist : List (Fin n)}
    {after : Finset (Fin n) × List (Fin n)}
    (isAfter : scan graph key idom entries seen worklist = some after) :
    Scanned graph key idom entries seen worklist after := by
  fun_induction scan graph key idom entries seen worklist with
  | case1 seen worklist =>
      rw [← Option.some.inj isAfter]
      exact ⟨Finset.Subset.refl _, fun _ member => absurd member List.not_mem_nil,
        fun _ isSeen isNew => absurd isSeen isNew, by simp⟩
  | case2 importer rest seen worklist skipped ih =>
      obtain ⟨grows, covered, fresh, waiting⟩ := ih isAfter
      refine ⟨grows, ?_, ?_, waiting⟩
      · intro other member
        rcases List.mem_cons.mp member with rfl | inRest
        · rcases skipped with inKey | isSeen | unreached
          · exact Or.inl inKey
          · exact Or.inr (Or.inr (grows isSeen))
          · exact Or.inr (Or.inl unreached)
        · exact covered other inRest
      · intro other isSeen isNew
        obtain ⟨inRest, isFresh⟩ := fresh other isSeen isNew
        exact ⟨List.mem_cons_of_mem _ inRest, isFresh⟩
  | case3 => cases isAfter
  | case4 importer rest seen worklist notSkipped notRoot ih =>
      obtain ⟨grows, covered, fresh, waiting⟩ := ih isAfter
      have isNew : importer ∉ seen := fun isSeen => notSkipped (Or.inr (Or.inl isSeen))
      have marked : importer ∈ after.1 := grows (Finset.mem_insert_self _ _)
      refine ⟨(Finset.subset_insert _ _).trans grows, ?_, ?_, ?_⟩
      · intro other member
        rcases List.mem_cons.mp member with rfl | inRest
        · exact Or.inr (Or.inr marked)
        · exact covered other inRest
      · intro other isSeen otherNew
        by_cases same : other = importer
        · rw [same]
          exact ⟨List.mem_cons_self, fun inKey => notSkipped (Or.inl inKey),
            Bool.eq_true_of_not_eq_false notRoot⟩
        · obtain ⟨inRest, isFresh⟩ := fresh other isSeen fun isIn =>
            (Finset.mem_insert.mp isIn).elim same otherNew
          exact ⟨List.mem_cons_of_mem _ inRest, isFresh⟩
      · intro other
        rw [waiting, List.mem_cons, Finset.mem_insert]
        by_cases same : other = importer
        · rw [same]
          simp [marked, isNew]
        · simp [same]

/-- The walk goes over entries that lead to the target, so a root that it meets does so too. -/
theorem unpreceded_of_walk {seen : Finset (Fin n)} {worklist : List (Fin n)}
    (leads : ∀ entryId ∈ worklist, Leads graph key target entryId)
    (stops : walk graph key idom seen worklist = false) : Unpreceded graph key target := by
  fun_induction walk graph key idom seen worklist with
  | case1 => nomatch stops
  | case2 seen below rest isNone =>
      obtain ⟨root, member, notKey, isRoot⟩ := exists_of_scan_none isNone
      have avoids : root ∉ key.erase target := fun inKey => notKey (Finset.mem_of_mem_erase inKey)
      exact ⟨root, isRoot, ReflTransGen.head ⟨mem_importers.mp member, avoids⟩
        (leads below List.mem_cons_self)⟩
  | case3 seen below rest after isAfter ih =>
      have isScanned := scanned isAfter
      refine ih ?_ stops
      intro entryId member
      rcases (isScanned.waiting entryId).mp member with inRest | ⟨isMarked, isNew⟩
      · exact leads entryId (List.mem_cons_of_mem _ inRest)
      · obtain ⟨imports, notKey, _⟩ := isScanned.fresh entryId isMarked isNew
        have avoids : entryId ∉ key.erase target := fun inKey =>
          notKey (Finset.mem_of_mem_erase inKey)
        exact ReflTransGen.head ⟨mem_importers.mp imports, avoids⟩
          (leads below List.mem_cons_self)

def Closed (graph : EntryGraph n) (key : Finset (Fin n))
    (idom : Fin (n + 1) → Option (Fin (n + 1))) (marked : Finset (Fin n)) (entryId : Fin n) : Prop :=
  ∀ importer ∈ graph.importerBits entryId,
    importer ∈ key ∨ idom importer.castSucc = none ∨ importer ∈ marked

theorem closed_of_walk {seen : Finset (Fin n)} {worklist : List (Fin n)}
    (guaranteed : ∀ entryId ∈ seen, graph.guaranteed entryId = true)
    (finished : ∀ entryId, entryId = target ∨ entryId ∈ seen → entryId ∉ worklist →
      Closed graph key idom seen entryId)
    (ends : walk graph key idom seen worklist = true) :
    ∃ marked : Finset (Fin n), (∀ entryId ∈ marked, graph.guaranteed entryId = true) ∧
      ∀ entryId, entryId = target ∨ entryId ∈ marked → Closed graph key idom marked entryId := by
  fun_induction walk graph key idom seen worklist with
  | case1 seen => exact ⟨seen, guaranteed, fun entryId isMarked => finished entryId isMarked nofun⟩
  | case2 => nomatch ends
  | case3 seen below rest after isAfter ih =>
      have isScanned := scanned isAfter
      refine ih ?_ ?_ ends
      · intro entryId isMarked
        by_cases isSeen : entryId ∈ seen
        · exact guaranteed entryId isSeen
        · exact (isScanned.fresh entryId isMarked isSeen).2.2
      · intro entryId isMarked notWaiting
        rw [isScanned.waiting, not_or] at notWaiting
        by_cases same : entryId = below
        · intro importer imports
          rw [same] at imports
          exact isScanned.covered importer (mem_importers.mpr imports)
        · have wasMarked : entryId = target ∨ entryId ∈ seen := by
            rcases isMarked with isTarget | isIn
            · exact Or.inl isTarget
            · by_contra wasNot
              rw [not_or] at wasNot
              exact notWaiting.2 ⟨isIn, wasNot.2⟩
          have notListed : entryId ∉ below :: rest := by
            rw [List.mem_cons, not_or]
            exact ⟨same, notWaiting.1⟩
          intro importer imports
          rcases finished entryId wasMarked notListed importer imports with
            inKey | unreached | isIn
          · exact Or.inl inKey
          · exact Or.inr (Or.inl unreached)
          · exact Or.inr (Or.inr (isScanned.grows isIn))

/-- The walk tells whether a root can load a guaranteed entry before the rest of the key. -/
theorem walk_eq_true_iff (unreached : ∀ entryId : Fin n,
      idom entryId.castSucc = none → ¬ graph.Loaded entryId)
    (isGuaranteed : graph.guaranteed target = true) :
    walk graph key idom ∅ [target] = true ↔ ¬ Unpreceded graph key target := by
  constructor
  · rintro ends ⟨root, isRoot, leads⟩
    obtain ⟨marked, allGuaranteed, closed⟩ := closed_of_walk
      (show ∀ entryId ∈ (∅ : Finset (Fin n)), graph.guaranteed entryId = true from by simp)
      (by
        intro entryId isTarget notListed
        rcases isTarget with rfl | isIn
        · exact absurd (List.mem_singleton_self _) notListed
        · exact absurd isIn (Finset.notMem_empty _)) ends
    -- What leads to the target is marked, or no root leads to it.
    have marks (entryId : Fin n) (leads : Leads graph key target entryId) :
        (entryId = target ∨ entryId ∈ marked) ∨ ¬ graph.Loaded entryId := by
      induction leads using ReflTransGen.head_induction_on with
      | refl => exact Or.inl (Or.inl rfl)
      | @head importer below step rest ih =>
          rcases (em (graph.Loaded importer)).symm with notLoaded | loaded
          · exact Or.inr notLoaded
          · by_cases same : importer = target
            · exact Or.inl (Or.inl same)
            · have notKey : importer ∉ key := fun inKey =>
                step.2 (Finset.mem_erase.mpr ⟨same, inKey⟩)
              have belowMarked : below = target ∨ below ∈ marked := by
                rcases ih with isMarked | notLoaded
                · exact isMarked
                · exact absurd (loaded.step step.1) notLoaded
              rcases closed below belowMarked importer step.1 with inKey | isNone | isIn
              · exact absurd inKey notKey
              · exact absurd loaded (unreached importer isNone)
              · exact Or.inl (Or.inr isIn)
    rcases marks root leads with (rfl | isIn) | notLoaded
    · rw [isRoot] at isGuaranteed
      nomatch isGuaranteed
    · rw [allGuaranteed root isIn] at isRoot
      nomatch isRoot
    · exact notLoaded (Loaded.of_root isRoot)
  · intro preceded
    by_contra stops
    rw [Bool.not_eq_true] at stops
    refine preceded (unpreceded_of_walk ?_ stops)
    intro entryId member
    rw [List.mem_singleton.mp member]
    exact ReflTransGen.refl

end LoadClass

end Bun.Bundler
