/-
The order of the groups through the folds.

The numbers of the groups go up along their imports.  A fold that would close a cycle is found
out with them, and the groups are numbered again when the fold may have broken the order.
-/

import Bun.Bundler.ChunkGraph

set_option autoImplicit false

namespace Bun.Bundler

open Bun.Foundation Relation

variable {n : ℕ}

/-- The imports have no cycle, and their importers are listed. -/
structure Linked (groups : Groups n) : Prop where
  chained : Chained groups
  acyclic : IsAcyclic (Imports groups)
  importers : ∀ g d, Imports groups g d →
    ∃ importer ∈ (groups d).importers, resolve groups importer = g

/-- The numbers are a topological order of the live groups. -/
structure Ordered (groups : Groups n) : Prop extends Linked groups where
  increasing : ∀ g d, Imports groups g d → (groups g).topo < (groups d).topo
  injective : ∀ g d, (groups g).mergedInto = none → (groups d).mergedInto = none →
    (groups g).topo = (groups d).topo → g = d

structure SameLinks (groups other : Groups n) : Prop where
  mergedInto : ∀ g, (other g).mergedInto = (groups g).mergedInto
  deps : ∀ g, (other g).deps = (groups g).deps
  importers : ∀ g, (other g).importers = (groups g).importers

theorem Linked.congr {groups other : Groups n} (linked : Linked groups)
    (same : SameLinks groups other) : Linked other := by
  have isImports := imports_congr same.mergedInto same.deps
  refine ⟨linked.chained.congr same.mergedInto, isImports ▸ linked.acyclic, ?_⟩
  intro g d isImport
  rw [isImports] at isImport
  rw [same.importers, resolve_congr same.mergedInto]
  exact linked.importers g d isImport

theorem Ordered.congr {groups other : Groups n} (ordered : Ordered groups)
    (same : SameLinks groups other) (sameTopo : ∀ g, (other g).topo = (groups g).topo) :
    Ordered other := by
  refine ⟨ordered.toLinked.congr same, ?_, ?_⟩
  · intro g d isImport
    rw [imports_congr same.mergedInto same.deps] at isImport
    rw [sameTopo, sameTopo]
    exact ordered.increasing g d isImport
  · intro g d gLive dLive
    rw [same.mergedInto] at gLive dLive
    rw [sameTopo, sameTopo]
    exact ordered.injective g d gLive dLive

/-! ### Numbering -/

theorem numberTopologically_ordered {groups : Groups n} (linked : Linked groups) :
    (numberTopologically groups).2 = true ∧ Ordered (numberTopologically groups).1 := by
  have proper : (importGraph groups).Proper := by
    intro first second isEdge
    have isImport : Imports groups first second := isEdge
    refine ⟨?_, (imports_iff.mp isImport).2.1⟩
    unfold importGraph Group.isLive
    rw [Option.isNone_iff_eq_none]
    exact isImport.right_live linked.chained
  obtain ⟨isNumbered, increasing, injective⟩ := FiniteGraph.number_spec proper linked.acyclic
    (fun g => (groups g).loadedCount) fun g => (groups g).topo
  have same : SameLinks groups (numberTopologically groups).1 :=
    ⟨fun _ => rfl, fun _ => rfl, fun _ => rfl⟩
  refine ⟨isNumbered, linked.congr same, ?_, ?_⟩
  · intro g d isImport
    rw [imports_congr same.mergedInto same.deps] at isImport
    exact increasing g d isImport
  · intro g d gLive dLive
    exact injective g d (Option.isNone_iff_eq_none.mpr gLive) (Option.isNone_iff_eq_none.mpr dLive)

theorem startPass_ordered {groups : Groups n} (linked : Linked groups) :
    (startPass groups).2 = true ∧ Ordered (startPass groups).1 := by
  refine numberTopologically_ordered (linked.congr ⟨?_, ?_, ?_⟩)
  all_goals
    intro g
    unfold countLoaded
    split
    · rfl
    · rfl

/-! ### Reachability -/

theorem imports_path {groups : Groups n} (chained : Chained groups) {start goal : Fin n}
    (isLive : (groups start).mergedInto = none)
    (path : ReflTransGen (fun first second => second ∈ importsOf groups first) start goal) :
    ReflTransGen (Imports groups) start goal ∧ (groups goal).mergedInto = none := by
  induction path with
  | refl => exact ⟨ReflTransGen.refl, isLive⟩
  | @tail between after _ step ih =>
      obtain ⟨path, betweenLive⟩ := ih
      by_cases same : after = between
      · rw [same]
        exact ⟨path, betweenLive⟩
      · have isImport := imports_iff.mpr ⟨betweenLive, same, step⟩
        exact ⟨path.tail isImport, isImport.right_live chained⟩

theorem Ordered.path_increasing {groups : Groups n} (ordered : Ordered groups)
    {start goal : Fin n} (path : ReflTransGen (Imports groups) start goal)
    (other : start ≠ goal) : (groups start).topo < (groups goal).topo := by
  induction path using ReflTransGen.head_induction_on with
  | refl => exact absurd rfl other
  | @head before after step rest ih =>
      have isAbove := ordered.increasing before after step
      by_cases same : after = goal
      · exact same ▸ isAbove
      · exact Nat.lt_trans isAbove (ih same)

/-- The search that is cut off by the order answers reachability exactly. -/
theorem Ordered.reaches_iff {groups : Groups n} (ordered : Ordered groups) {start goal : Fin n}
    (isLive : (groups start).mergedInto = none) :
    reaches groups start goal = true ↔ ReflTransGen (Imports groups) start goal := by
  unfold reaches
  by_cases notBelow : (groups goal).topo ≤ (groups start).topo
  · rw [if_pos notBelow, decide_eq_true_eq]
    constructor
    · intro same
      rw [same]
    · intro path
      by_contra other
      have isBelow := ordered.path_increasing path other
      omega
  · rw [if_neg notBelow]
    have other : start ≠ goal := by
      intro same
      rw [same] at notBelow
      exact notBelow (Nat.le_refl _)
    rw [search_iff other]
    · constructor
      · exact fun path => (imports_path ordered.chained isLive path).1
      · refine ReflTransGen.mono ?_ _ _
        exact fun first second isImport => (imports_iff.mp isImport).2.2
    · intro node notGoal fromStart toGoal
      obtain ⟨-, nodeLive⟩ := imports_path ordered.chained isLive fromStart
      obtain ⟨path, -⟩ := imports_path ordered.chained nodeLive toGoal
      exact decide_eq_true (ordered.path_increasing path notGoal)

/-! ### Folding -/

section

variable {groups : Groups n} {source target : Fin n} (linked : Linked groups)
  (sourceLive : (groups source).mergedInto = none)
  (targetLive : (groups target).mergedInto = none) (different : source ≠ target)

include linked sourceLive targetLive different

theorem fold_importer {g d : Fin n} (isImport : Imports (fold groups source target) g d) :
    ∃ importer ∈ (fold groups source target d).importers,
      resolve (fold groups source target) importer = g := by
  rw [imports_fold sourceLive targetLive different linked.chained] at isImport
  obtain ⟨notSame, before, after, isEdge, isBefore, isAfter⟩ := isImport
  obtain ⟨importer, isListed, isImporter⟩ := linked.importers before after isEdge
  have isRenamed : resolve (fold groups source target) importer = g := by
    rw [resolve_fold sourceLive targetLive different linked.chained, isImporter, isBefore]
  rw [fold_importers]
  by_cases isTarget : d = target
  · rw [if_pos isTarget]
    have notTarget : g ≠ target := fun same => notSame (same.trans isTarget.symm)
    have notSource : g ≠ source := isBefore ▸ renamed_ne different before
    rw [exists_merged_iff sourceLive targetLive different linked.chained _ _ notTarget]
    have wasSame : before = g := by
      unfold renamed at isBefore
      by_cases wasSource : before = source
      · rw [if_pos wasSource] at isBefore
        exact absurd isBefore.symm notTarget
      · rw [if_neg wasSource] at isBefore
        exact isBefore
    refine ⟨importer, ?_, isImporter.trans wasSame, notSource⟩
    unfold renamed at isAfter
    by_cases wasSource : after = source
    · exact Or.inr (wasSource ▸ isListed)
    · rw [if_neg wasSource] at isAfter
      exact Or.inl ((isAfter.trans isTarget) ▸ isListed)
  · have notSource : d ≠ source := isAfter ▸ renamed_ne different after
    rw [if_neg isTarget, if_neg notSource]
    have wasSame : after = d := by
      unfold renamed at isAfter
      by_cases wasSource : after = source
      · rw [if_pos wasSource] at isAfter
        exact absurd isAfter.symm isTarget
      · rw [if_neg wasSource] at isAfter
        exact isAfter
    exact ⟨importer, wasSame ▸ isListed, isRenamed⟩

theorem Linked.fold (noReturn : ¬ ReflTransGen (Imports groups) target source)
    (noDetour : ∀ next, Imports groups source next → next ≠ target →
      ¬ ReflTransGen (Imports groups) next target) :
    Linked (Bundler.fold groups source target) := by
  refine ⟨linked.chained.fold sourceLive targetLive different, ?_,
    fun g d => fold_importer linked sourceLive targetLive different⟩
  rw [imports_fold sourceLive targetLive different linked.chained]
  exact linked.acyclic.contracted different noReturn noDetour

end

theorem fold_topo (groups : Groups n) (source target g : Fin n) :
    (fold groups source target g).topo = (groups g).topo := by
  unfold fold
  by_cases isTarget : g = target
  · rw [if_pos isTarget, isTarget]
  · rw [if_neg isTarget]
    by_cases isSource : g = source
    · rw [if_pos isSource, isSource]
    · rw [if_neg isSource]

theorem not_outOfOrder {groups : Groups n} {candidate target : Fin n} {list : List (Fin n)}
    {before : Bool} (inOrder : outOfOrder groups candidate target list before = false)
    {member : Fin n} (isMember : member ∈ list) (notTarget : resolve groups member ≠ target)
    (notCandidate : resolve groups member ≠ candidate) :
    decide ((groups (resolve groups member)).topo < (groups target).topo) = before := by
  unfold outOfOrder at inOrder
  rw [List.any_eq_false] at inOrder
  have known := inOrder _ (List.mem_map.mpr ⟨member, isMember, rfl⟩)
  simpa [notTarget, notCandidate] using known

/-- The order stays when the target was between the importers and the imports. -/
theorem Ordered.fold {groups : Groups n} {source target : Fin n} (ordered : Ordered groups)
    (sourceLive : (groups source).mergedInto = none)
    (targetLive : (groups target).mergedInto = none) (different : source ≠ target)
    (linked : Linked (Bundler.fold groups source target))
    (importersBefore : outOfOrder groups source target (groups source).importers true = false)
    (importsBehind : outOfOrder groups source target (groups source).deps false = false) :
    Ordered (Bundler.fold groups source target) := by
  refine ⟨linked, ?_, ?_⟩
  · intro g d isImport
    rw [fold_topo, fold_topo]
    rw [imports_fold sourceLive targetLive different ordered.chained] at isImport
    have notSame := isImport.1
    rcases contracted_cases isImport with isEdge | ⟨isTarget, isEdge⟩ | ⟨isTarget, isEdge⟩
    · exact ordered.increasing g d isEdge
    · obtain ⟨-, notSource, member⟩ := imports_iff.mp isEdge
      obtain ⟨dep, isOf, isDep⟩ := mem_importsOf.mp member
      have notTarget : d ≠ target := fun same => notSame (isTarget.trans same.symm)
      have notBelow := not_outOfOrder importsBehind isOf (isDep ▸ notTarget) (isDep ▸ notSource)
      rw [isDep, decide_eq_false_iff_not] at notBelow
      have notEqual : (groups target).topo ≠ (groups d).topo := fun same =>
        notTarget (ordered.injective target d targetLive
          (isEdge.right_live ordered.chained) same).symm
      rw [isTarget]
      omega
    · obtain ⟨importer, isListed, isImporter⟩ := ordered.importers g source isEdge
      have notTarget : g ≠ target := fun same => notSame (same.trans isTarget.symm)
      have notSource : g ≠ source := fun same => (imports_iff.mp isEdge).2.1 same.symm
      have isBelow := not_outOfOrder importersBefore isListed (isImporter ▸ notTarget)
        (isImporter ▸ notSource)
      rw [isImporter, decide_eq_true_eq] at isBelow
      rw [isTarget]
      exact isBelow
  · intro g d gLive dLive
    rw [fold_topo, fold_topo]
    rw [fold_mergedInto groups different] at gLive dLive
    by_cases gSource : g = source
    · rw [if_pos gSource] at gLive
      cases gLive
    · by_cases dSource : d = source
      · rw [if_pos dSource] at dLive
        cases dLive
      · rw [if_neg gSource] at gLive
        rw [if_neg dSource] at dLive
        exact ordered.injective g d gLive dLive

end Bun.Bundler
