/-
The imports between live groups.

A fold contracts its source into its target: the links lead on to the target, and the imports
and importers of the source become the target's.
-/

import Bun.Bundler.ChunkGroups

set_option autoImplicit false

namespace Bun.Bundler

open Bun.Foundation Relation

variable {n : ℕ}

/-! ### Links -/

def mergedGroups (groups : Groups n) : Finset (Fin n) :=
  Finset.univ.filter fun g => (groups g).mergedInto ≠ none

/-- Every chain of links ends at a live group, and has no more links than there are. -/
def Chained (groups : Groups n) : Prop :=
  ∀ index, ∃ steps owner, Resolves groups steps index owner ∧
    steps ≤ (mergedGroups groups).card

theorem Resolves.owner_live {groups : Groups n} {steps : ℕ} {index owner : Fin n}
    (resolves : Resolves groups steps index owner) : (groups owner).mergedInto = none := by
  induction resolves with
  | live _ isLive => exact isLive
  | merged _ _ ih => exact ih

theorem Resolves.follow_eq {groups : Groups n} {steps : ℕ} {index owner : Fin n}
    (resolves : Resolves groups steps index owner) {fuel : ℕ} (enough : steps ≤ fuel) :
    follow groups fuel index = owner := by
  induction resolves generalizing fuel with
  | live index isLive =>
      cases fuel with
      | zero => rfl
      | succ fuel => rw [follow, isLive]
  | merged isMerged rest ih =>
      cases fuel with
      | zero => omega
      | succ fuel =>
          rw [follow, isMerged]
          exact ih (Nat.le_of_succ_le_succ enough)

theorem Chained.resolves {groups : Groups n} (chained : Chained groups) (index : Fin n) :
    ∃ steps, Resolves groups steps index (resolve groups index) ∧
      steps ≤ (mergedGroups groups).card := by
  obtain ⟨steps, owner, resolves, isBelow⟩ := chained index
  have few : (mergedGroups groups).card ≤ n := by
    have isBelow := Finset.card_le_univ (mergedGroups groups)
    rw [Fintype.card_fin] at isBelow
    exact isBelow
  have isOwner : resolve groups index = owner := resolves.follow_eq (isBelow.trans few)
  rw [isOwner]
  exact ⟨steps, resolves, isBelow⟩

theorem Chained.resolve_live {groups : Groups n} (chained : Chained groups) (index : Fin n) :
    (groups (resolve groups index)).mergedInto = none := by
  obtain ⟨steps, resolves, -⟩ := chained.resolves index
  exact resolves.owner_live

theorem resolve_of_live {groups : Groups n} {index : Fin n}
    (isLive : (groups index).mergedInto = none) : resolve groups index = index :=
  (Resolves.live index isLive).follow_eq (Nat.zero_le n)

theorem resolve_congr {groups other : Groups n}
    (same : ∀ g, (other g).mergedInto = (groups g).mergedInto) :
    resolve other = resolve groups := by
  funext index
  unfold resolve
  have atAll : ∀ fuel index, follow other fuel index = follow groups fuel index := by
    intro fuel
    induction fuel with
    | zero => exact fun _ => rfl
    | succ fuel ih =>
        intro index
        rw [follow, follow, same]
        cases (groups index).mergedInto with
        | none => rfl
        | some into => exact ih into
  exact atAll n index

theorem Chained.congr {groups other : Groups n} (chained : Chained groups)
    (same : ∀ g, (other g).mergedInto = (groups g).mergedInto) : Chained other := by
  have isMerged : mergedGroups other = mergedGroups groups := by
    unfold mergedGroups
    exact Finset.filter_congr fun g _ => by rw [same]
  intro index
  obtain ⟨steps, owner, resolves, isBelow⟩ := chained index
  refine ⟨steps, owner, ?_, isMerged ▸ isBelow⟩
  clear isBelow
  induction resolves with
  | live index isLive => exact Resolves.live index ((same index).trans isLive)
  | merged isMerged _ ih => exact Resolves.merged ((same _).trans isMerged) ih

theorem chained_of_live {groups : Groups n} (allLive : ∀ g, (groups g).mergedInto = none) :
    Chained groups :=
  fun index => ⟨0, index, Resolves.live index (allLive index), Nat.zero_le _⟩

/-! ### Links after a fold -/

theorem fold_mergedInto (groups : Groups n) {source target : Fin n} (different : source ≠ target)
    (g : Fin n) :
    (fold groups source target g).mergedInto =
      if g = source then some target else (groups g).mergedInto := by
  unfold fold
  by_cases isTarget : g = target
  · rw [if_pos isTarget, isTarget, if_neg different.symm]
  · rw [if_neg isTarget]
    by_cases isSource : g = source
    · rw [if_pos isSource, if_pos isSource]
    · rw [if_neg isSource, if_neg isSource]

section

variable {groups : Groups n} {source target : Fin n}
  (sourceLive : (groups source).mergedInto = none)
  (targetLive : (groups target).mergedInto = none) (different : source ≠ target)

include sourceLive targetLive different

theorem Resolves.fold {steps : ℕ} {index owner : Fin n}
    (resolves : Resolves groups steps index owner) :
    ∃ more, Resolves (fold groups source target) more index (renamed source target owner) ∧
      more ≤ steps + 1 := by
  induction resolves with
  | live index isLive =>
      have isLink := fold_mergedInto groups different index
      have targetLink := fold_mergedInto groups different target
      rw [if_neg different.symm, targetLive] at targetLink
      unfold renamed
      by_cases isSource : index = source
      · rw [if_pos isSource] at isLink ⊢
        exact ⟨1, Resolves.merged isLink (Resolves.live target targetLink), Nat.le_refl 1⟩
      · rw [if_neg isSource] at isLink ⊢
        exact ⟨0, Resolves.live index (isLink.trans isLive), Nat.zero_le 1⟩
  | @merged steps index into owner isMerged rest ih =>
      have notSource : index ≠ source := by
        intro same
        rw [same, sourceLive] at isMerged
        cases isMerged
      have isLink := fold_mergedInto groups different index
      rw [if_neg notSource, isMerged] at isLink
      obtain ⟨more, resolves, isBelow⟩ := ih
      exact ⟨more + 1, Resolves.merged isLink resolves, Nat.succ_le_succ isBelow⟩

omit targetLive in
theorem mergedGroups_fold :
    (mergedGroups (Bundler.fold groups source target)).card = (mergedGroups groups).card + 1 := by
  have isInsert : mergedGroups (Bundler.fold groups source target) =
      insert source (mergedGroups groups) := by
    ext g
    unfold mergedGroups
    rw [Finset.mem_insert, Finset.mem_filter, Finset.mem_filter, fold_mergedInto groups different]
    by_cases isSource : g = source
    · simp [isSource]
    · simp [isSource]
  rw [isInsert, Finset.card_insert_of_notMem]
  unfold mergedGroups
  rw [Finset.mem_filter]
  exact fun known => known.2 sourceLive

theorem Chained.fold (chained : Chained groups) : Chained (Bundler.fold groups source target) := by
  intro index
  obtain ⟨steps, owner, resolves, isBelow⟩ := chained index
  obtain ⟨more, resolvesOn, isNear⟩ := resolves.fold sourceLive targetLive different
  refine ⟨more, _, resolvesOn, ?_⟩
  rw [mergedGroups_fold sourceLive different]
  omega

theorem resolve_fold (chained : Chained groups) (index : Fin n) :
    resolve (Bundler.fold groups source target) index =
      renamed source target (resolve groups index) := by
  obtain ⟨steps, resolves, isBelow⟩ := chained.resolves index
  obtain ⟨more, resolvesOn, isNear⟩ := resolves.fold sourceLive targetLive different
  refine resolvesOn.follow_eq ?_
  have few := Finset.card_le_univ (mergedGroups (Bundler.fold groups source target))
  rw [Fintype.card_fin, mergedGroups_fold sourceLive different] at few
  omega

end

/-! ### Imports -/

theorem mem_importsOf {groups : Groups n} {g d : Fin n} :
    d ∈ importsOf groups g ↔ ∃ dep ∈ (groups g).deps, resolve groups dep = d :=
  List.mem_map

theorem imports_iff {groups : Groups n} {g d : Fin n} :
    Imports groups g d ↔ (groups g).mergedInto = none ∧ d ≠ g ∧ d ∈ importsOf groups g := by
  unfold Imports FiniteGraph.Edge importGraph Group.isLive
  simp [and_comm]

theorem Imports.right_live {groups : Groups n} (chained : Chained groups) {g d : Fin n}
    (isImport : Imports groups g d) : (groups d).mergedInto = none := by
  obtain ⟨-, -, member⟩ := imports_iff.mp isImport
  obtain ⟨dep, -, isDep⟩ := mem_importsOf.mp member
  rw [← isDep]
  exact chained.resolve_live dep

theorem imports_congr {groups other : Groups n}
    (sameLinks : ∀ g, (other g).mergedInto = (groups g).mergedInto)
    (sameDeps : ∀ g, (other g).deps = (groups g).deps) : Imports other = Imports groups := by
  funext g d
  rw [eq_iff_iff, imports_iff, imports_iff, mem_importsOf, mem_importsOf, sameLinks, sameDeps,
    resolve_congr sameLinks]

theorem mem_mergeSorted {α : Type} [LinearOrder α] {target source : List α} {item : α} :
    item ∈ mergeSorted target source ↔ item ∈ target ∨ item ∈ source := by
  unfold mergeSorted
  cases isEmpty : source.isEmpty with
  | true =>
      rw [List.isEmpty_iff.mp isEmpty]
      simp
  | false => simp [List.mem_dedup]

theorem fold_deps {groups : Groups n} {source target : Fin n} (g : Fin n) :
    (fold groups source target g).deps =
      if g = target then
        (mergeSorted (groups target).deps (groups source).deps).filter
          fun g => g ≠ target ∧ g ≠ source
      else if g = source then [] else (groups g).deps := by
  unfold fold
  by_cases isTarget : g = target
  · rw [if_pos isTarget, if_pos isTarget]
  · rw [if_neg isTarget, if_neg isTarget]
    by_cases isSource : g = source
    · rw [if_pos isSource, if_pos isSource]
    · rw [if_neg isSource, if_neg isSource]

theorem fold_importers {groups : Groups n} {source target : Fin n} (g : Fin n) :
    (fold groups source target g).importers =
      if g = target then
        (mergeSorted (groups target).importers (groups source).importers).filter
          fun g => g ≠ target ∧ g ≠ source
      else if g = source then [] else (groups g).importers := by
  unfold fold
  by_cases isTarget : g = target
  · rw [if_pos isTarget, if_pos isTarget]
  · rw [if_neg isTarget, if_neg isTarget]
    by_cases isSource : g = source
    · rw [if_pos isSource, if_pos isSource]
    · rw [if_neg isSource, if_neg isSource]

section

variable {groups : Groups n} {source target : Fin n}
  (sourceLive : (groups source).mergedInto = none)
  (targetLive : (groups target).mergedInto = none) (different : source ≠ target)
  (chained : Chained groups)

include sourceLive targetLive different chained

theorem exists_merged_iff (ofTarget ofSource : List (Fin n)) {d : Fin n} (notTarget : d ≠ target) :
    (∃ dep ∈ (mergeSorted ofTarget ofSource).filter fun g => g ≠ target ∧ g ≠ source,
        resolve (fold groups source target) dep = d) ↔
      ∃ dep, (dep ∈ ofTarget ∨ dep ∈ ofSource) ∧ resolve groups dep = d ∧ d ≠ source := by
  simp only [List.mem_filter, mem_mergeSorted, decide_eq_true_eq,
    resolve_fold sourceLive targetLive different chained]
  unfold renamed
  constructor
  · rintro ⟨dep, ⟨member, -, -⟩, isDep⟩
    by_cases isSource : resolve groups dep = source
    · rw [if_pos isSource] at isDep
      exact absurd isDep.symm notTarget
    · rw [if_neg isSource] at isDep
      exact ⟨dep, member, isDep, isDep ▸ isSource⟩
  · rintro ⟨dep, member, isDep, notSource⟩
    refine ⟨dep, ⟨member, ?_, ?_⟩, ?_⟩
    · intro same
      rw [same, resolve_of_live targetLive] at isDep
      exact notTarget isDep.symm
    · intro same
      rw [same, resolve_of_live sourceLive] at isDep
      exact notSource isDep.symm
    · rw [isDep, if_neg notSource]

theorem imports_fold :
    Imports (fold groups source target) = contracted (Imports groups) source target := by
  funext g d
  rw [eq_iff_iff, imports_iff, mem_importsOf, fold_mergedInto groups different, fold_deps]
  by_cases isSource : g = source
  · rw [if_pos isSource, isSource]
    constructor
    · rintro ⟨isNone, -⟩
      cases isNone
    · rintro ⟨-, before, after, -, isBefore, -⟩
      exact absurd isBefore (renamed_ne different before)
  · rw [if_neg isSource]
    by_cases isTarget : g = target
    · rw [if_pos isTarget, isTarget]
      constructor
      · rintro ⟨-, notTarget, member⟩
        rw [exists_merged_iff sourceLive targetLive different chained _ _ notTarget] at member
        obtain ⟨dep, isOf, isDep, notSource⟩ := member
        have isRenamed : renamed source target d = d := if_neg notSource
        rcases isOf with ofTarget | ofSource
        · refine ⟨notTarget.symm, target, d, ?_, if_neg different.symm, isRenamed⟩
          exact imports_iff.mpr ⟨targetLive, notTarget, mem_importsOf.mpr ⟨dep, ofTarget, isDep⟩⟩
        · refine ⟨notTarget.symm, source, d, ?_, if_pos rfl, isRenamed⟩
          exact imports_iff.mpr ⟨sourceLive, notSource, mem_importsOf.mpr ⟨dep, ofSource, isDep⟩⟩
      · rintro ⟨notSame, before, after, isEdge, isBefore, isAfter⟩
        have notTarget : d ≠ target := notSame.symm
        refine ⟨targetLive, notTarget, ?_⟩
        rw [exists_merged_iff sourceLive targetLive different chained _ _ notTarget]
        obtain ⟨-, notSelf, member⟩ := imports_iff.mp isEdge
        obtain ⟨dep, isOf, isDep⟩ := mem_importsOf.mp member
        have notSource : after ≠ source := by
          intro same
          rw [same] at isAfter
          exact notTarget (isAfter.symm.trans (if_pos rfl))
        have isSame : after = d := (if_neg notSource).symm.trans isAfter
        refine ⟨dep, ?_, isDep.trans isSame, isSame ▸ notSource⟩
        unfold renamed at isBefore
        by_cases wasSource : before = source
        · exact Or.inr (wasSource ▸ isOf)
        · rw [if_neg wasSource] at isBefore
          exact Or.inl (isBefore ▸ isOf)
    · rw [if_neg isTarget, if_neg isSource]
      simp only [resolve_fold sourceLive targetLive different chained]
      constructor
      · rintro ⟨isLive, notSelf, dep, isOf, isDep⟩
        refine ⟨notSelf.symm, g, resolve groups dep, ?_, if_neg isSource, isDep⟩
        refine imports_iff.mpr ⟨isLive, ?_, mem_importsOf.mpr ⟨dep, isOf, rfl⟩⟩
        intro same
        rw [same] at isDep
        exact notSelf (isDep.symm.trans (if_neg isSource))
      · rintro ⟨notSame, before, after, isEdge, isBefore, isAfter⟩
        unfold renamed at isBefore
        by_cases wasSource : before = source
        · rw [if_pos wasSource] at isBefore
          exact absurd isBefore.symm isTarget
        · rw [if_neg wasSource] at isBefore
          rw [isBefore] at isEdge
          obtain ⟨isLive, -, member⟩ := imports_iff.mp isEdge
          obtain ⟨dep, isOf, isDep⟩ := mem_importsOf.mp member
          exact ⟨isLive, notSame.symm, dep, isOf, isDep ▸ isAfter⟩

end

end Bun.Bundler
