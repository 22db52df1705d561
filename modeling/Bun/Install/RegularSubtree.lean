/-
Processing one package of a lockfile of regular dependencies: the rows that every folder
gains, the package's own folder, and what is queued.
-/

import Bun.Install.RegularStep

set_option autoImplicit false

namespace Bun.Install

open Bun.Foundation

/-! ### One package -/

section OnePackage

variable {lockfile : Lockfile}

/-- The folder that takes a dependency of a package whose folder would stand below `parent`. -/
def folderFor (lockfile : Lockfile) (before : Builder) (parent : Option Id) (owner : PackageID)
    (depId : DependencyID) : Option Id :=
  if lockfile.placeable depId then
    treeTaking lockfile.resolution (lockfile.dependenciesOf owner) depId before.list.size
      (parent.elim before.list.size before.list.top)
      (parent.bind fun id => before.lookup lockfile id (lockfile.nameHash depId))
  else none

def placedDependencies (lockfile : Lockfile) (before : Builder) (parent : Option Id)
    (owner : PackageID) : List DependencyID :=
  placedOf lockfile (folderFor lockfile before parent owner)
    (sortedDependencies lockfile (lockfile.resolutionList owner))

def rowsFor (lockfile : Lockfile) (before : Builder) (parent : Option Id) (owner : PackageID)
    (id : Id) : List DependencyID :=
  (placedDependencies lockfile before parent owner).filter fun depId =>
    folderFor lockfile before parent owner depId == some id

structure OwnFolder (before : Builder) (parent : Option Id) (dependencyId : Option DependencyID)
    (own : List DependencyID) (after : Builder) : Prop where
  size : after.list.size = before.list.size + if own = [] then 0 else 1
  parent : own ≠ [] → after.list.parent before.list.size = parent
  folder : own ≠ [] → after.folderOf before.list.size = dependencyId
  rows : after.rows before.list.size = own

structure Filled (lockfile : Lockfile) (before : Builder) (parent : Option Id)
    (dependencyId : Option DependencyID) (owner : PackageID) (after : Builder) : Prop where
  resolutions : after.resolutions = before.resolutions
  served : after.served = before.served
  parents : ∀ id < before.list.size, after.list.parent id = before.list.parent id
  folders : ∀ id < before.list.size, after.folderOf id = before.folderOf id
  rows : ∀ id < before.list.size, after.rows id =
    before.rows id ++ rowsFor lockfile before parent owner id
  own : OwnFolder before parent dependencyId
    (rowsFor lockfile before parent owner before.list.size) after
  queue : after.queue = before.queue ++
    (placedDependencies lockfile before parent owner).flatMap fun depId =>
      (folderFor lockfile before parent owner depId).elim [] (fillItems lockfile depId)
  consistent : after.Consistent lockfile
  idle : after.peerProbes.Idle

/-- What a builder keeps from turn to turn for the search to work. -/
structure Searchable (lockfile : Lockfile) (builder : Builder) : Prop where
  resolutions : builder.resolutions = lockfile.resolutions
  consistent : builder.Consistent lockfile
  rowsResolved : builder.RowsResolved
  idle : builder.peerProbes.Idle

theorem Searchable.resolution_eq {builder : Builder} (searchable : Searchable lockfile builder) :
    builder.resolution = lockfile.resolution := by
  funext id
  unfold Builder.resolution Lockfile.resolution
  rw [searchable.resolutions]

theorem rows_outside {builder : Builder} {id : Id} (outside : builder.list.size ≤ id) :
    builder.rows id = [] := by
  unfold Builder.rows
  rw [Forest.value_eq_none _ outside]
  rfl

structure Opened (before : Builder) (parent : Option Id) (dependencyId : Option DependencyID)
    (start : Builder) : Prop where
  size : start.list.size = before.list.size + 1
  parents : ∀ id, start.list.parent id =
    if id = before.list.size then parent else before.list.parent id
  folders : ∀ id, start.folderOf id =
    if id = before.list.size then dependencyId else before.folderOf id
  rows : ∀ id, start.rows id = before.rows id
  rest : start.resolutions = before.resolutions ∧ start.served = before.served ∧
    start.queue = before.queue ∧ start.placed = before.placed ∧
    start.peerProbes = before.peerProbes

theorem opened_of_push? {before : Builder} {parent : Option Id}
    {dependencyId : Option DependencyID} {list : Forest BuilderEntry}
    (isPush : before.list.push? parent { dependencyId := dependencyId, dependencies := [] } =
      some list) (walked : List PackageID) :
    Opened before parent dependencyId { before with list := list, walked := walked } where
  size := Forest.size_push? isPush
  parents := Forest.parent_push? isPush
  folders := by
    intro id
    unfold Builder.folderOf
    rw [Forest.value_push? isPush]
    split <;> rfl
  rows := by
    intro id
    by_cases isNew : id = before.list.size
    · rw [rows_outside (Nat.le_of_eq isNew.symm)]
      unfold Builder.rows
      rw [Forest.value_push? isPush, if_pos isNew]
      rfl
    · unfold Builder.rows
      rw [Forest.value_push? isPush, if_neg isNew]
  rest := ⟨rfl, rfl, rfl, rfl, rfl⟩

theorem Opened.rowNamed_eq {before start : Builder} {parent : Option Id}
    {dependencyId : Option DependencyID} (opened : Opened before parent dependencyId start) :
    start.rowNamed lockfile = before.rowNamed lockfile := by
  funext name id
  unfold Builder.rowNamed
  rw [opened.rows]

/-- From the new folder a name is found where it is found from its parent. -/
theorem Opened.rowTree_eq {before start : Builder} {parent : Option Id}
    {dependencyId : Option DependencyID} (opened : Opened before parent dependencyId start)
    (searchable : Searchable lockfile before) (above : ∀ id ∈ parent, id < before.list.size)
    (owner : PackageID) :
    rowTree lockfile start owner before.list.size = folderFor lockfile before parent owner := by
  funext depId
  have sameResolution : start.resolution = lockfile.resolution := by
    funext id
    unfold Builder.resolution Lockfile.resolution
    rw [opened.rest.1, searchable.resolutions]
  have parentNow : start.list.parent before.list.size = parent := by
    rw [opened.parents, if_pos rfl]
  have fresh : start.rowNamed lockfile (lockfile.nameHash depId) before.list.size = none := by
    unfold Builder.rowNamed
    rw [opened.rows, rows_outside (Nat.le_refl _)]
    rfl
  have chainAbove : ∀ id ∈ parent, start.list.chain id = before.list.chain id := by
    intro id isParent
    refine Forest.chain_congr id fun other atMost => ?_
    rw [opened.parents, if_neg (Nat.ne_of_lt (Nat.lt_of_le_of_lt atMost (above id isParent)))]
  have lookupEq : start.lookup lockfile before.list.size (lockfile.nameHash depId) =
      parent.bind fun id => before.lookup lockfile id (lockfile.nameHash depId) := by
    rw [lookup_eq, fresh, Option.none_or]
    cases parent with
    | none => rw [Forest.chain_top parentNow]; rfl
    | some id =>
        rw [Forest.chain_below parentNow, List.tail_cons, chainAbove id rfl, opened.rowNamed_eq]
        rfl
  have topEq : start.list.top before.list.size =
      parent.elim before.list.size before.list.top := by
    unfold Forest.top
    cases parent with
    | none => rw [Forest.chain_top parentNow]; rfl
    | some id =>
        rw [Forest.chain_below parentNow, List.getLastD_cons, chainAbove id rfl, Option.elim_some,
          Forest.chain_eq_cons, List.getLastD_cons, List.getLastD_cons]
  unfold rowTree folderFor targetTree
  rw [lookupEq, topEq, sameResolution]

theorem filling_of_opened (regular : lockfile.Regular) {before start : Builder}
    {parent : Option Id} {dependencyId : Option DependencyID}
    (opened : Opened before parent dependencyId start) (searchable : Searchable lockfile before)
    (owner : PackageID) (firstWalk : Bool) :
    Filling lockfile start owner before.list.size
      (sortedDependencies lockfile (lockfile.resolutionList owner))
      ((sortedDependencies lockfile (lockfile.resolutionList owner)).foldl
        (processDependency lockfile before.list.size none (lockfile.resolutionList owner) firstWalk)
        start) := by
  have perm := sortedDependencies_perm lockfile (lockfile.resolutionList owner)
  obtain ⟨sameResolutions, _, _, samePlaced, sameProbes⟩ := opened.rest
  have sameResolution : start.resolution = before.resolution := by
    funext id
    unfold Builder.resolution
    rw [sameResolutions]
  have initial : Filling lockfile start owner before.list.size [] start :=
    { undisturbed := Undisturbed.refl start
      rows := fun id => (List.append_nil _).symm
      queue := (List.append_nil _).symm
      consistent := by
        intro id name
        rw [samePlaced, opened.rowNamed_eq]
        exact searchable.consistent id name
      idle := by
        rw [sameProbes]
        exact searchable.idle }
  have filling := Filling.foldl regular (sameResolutions.trans searchable.resolutions)
    (by
      intro id row inRows
      rw [opened.rows] at inRows
      rw [sameResolution]
      exact searchable.rowsResolved id row inRows)
    (by rw [opened.size]; exact Nat.lt_succ_self _)
    (by rw [opened.rows, rows_outside (Nat.le_refl _)]) firstWalk
    (sortedDependencies lockfile (lockfile.resolutionList owner)) [] start
    (fun depId inList => perm.mem_iff.mp inList) initial
  exact filling

theorem fillFolder_regular (regular : lockfile.Regular) {before : Builder}
    (searchable : Searchable lockfile before) {parent : Option Id}
    (above : ∀ id ∈ parent, id < before.list.size) (dependencyId : Option DependencyID)
    (owner : PackageID) :
    ∃ after, fillFolder lockfile before parent dependencyId none owner = .ok after ∧
      Filled lockfile before parent dependencyId owner after := by
  obtain ⟨list, isPush⟩ := Forest.push?_isSome
    ({ dependencyId := dependencyId, dependencies := [] } : BuilderEntry) above
  have opened := opened_of_push? isPush (owner :: before.walked)
  have filling := filling_of_opened regular opened searchable owner
    (decide (owner ∉ before.walked))
  unfold fillFolder
  rw [isPush]
  dsimp only
  generalize (sortedDependencies lockfile (lockfile.resolutionList owner)).foldl _ _ = filled
    at filling ⊢
  obtain ⟨undisturbed, rowsEq, queueEq, consistent, idle⟩ := filling
  rw [opened.rowTree_eq searchable above] at rowsEq queueEq
  have sizeEq : filled.list.size = before.list.size + 1 := undisturbed.size.trans opened.size
  have ownEq : filled.rows before.list.size =
      rowsFor lockfile before parent owner before.list.size := by
    rw [rowsEq, opened.rows, rows_outside (Nat.le_refl _)]
    rfl
  have parentsEq : ∀ id < before.list.size, filled.list.parent id = before.list.parent id := by
    intro id inside
    rw [undisturbed.parents, opened.parents, if_neg (Nat.ne_of_lt inside)]
  have foldersEq : ∀ id < before.list.size, filled.folderOf id = before.folderOf id := by
    intro id inside
    rw [undisturbed.folders, opened.folders, if_neg (Nat.ne_of_lt inside)]
  have rowsBefore : ∀ id < before.list.size, filled.rows id =
      before.rows id ++ rowsFor lockfile before parent owner id := by
    intro id _
    rw [rowsEq, opened.rows]
    rfl
  by_cases empty : filled.rows before.list.size = []
  · have noOwn : rowsFor lockfile before parent owner before.list.size = [] := ownEq ▸ empty
    have popSize : filled.list.pop.size = before.list.size := by
      rw [Forest.size_pop, sizeEq, Nat.add_sub_cancel]
    have kept : ∀ id < before.list.size, id < filled.list.size - 1 := by
      intro id inside
      rw [sizeEq, Nat.add_sub_cancel]
      exact inside
    have poppedRows : ∀ id,
        ({ filled with list := filled.list.pop } : Builder).rows id = filled.rows id := by
      intro id
      rcases Nat.lt_trichotomy id before.list.size with inside | isNew | outside
      · unfold Builder.rows
        rw [Forest.value_pop _ (kept id inside)]
      · rw [rows_outside (Nat.le_of_eq (popSize.trans isNew.symm)), isNew, empty]
      · rw [rows_outside (Nat.le_of_lt (popSize ▸ outside)), rows_outside (sizeEq ▸ outside)]
    rw [if_pos empty]
    refine ⟨_, rfl, ?_⟩
    refine
      { resolutions := undisturbed.resolutions.trans opened.rest.1
        served := undisturbed.served.trans opened.rest.2.1
        parents := fun id inside =>
          (Forest.parent_pop _ (kept id inside)).trans (parentsEq id inside)
        folders := ?_, rows := ?_, own := ?_
        queue := queueEq.trans (congrArg (· ++ _) opened.rest.2.2.1)
        consistent := ?_, idle := idle }
    · intro id inside
      refine Eq.trans ?_ (foldersEq id inside)
      unfold Builder.folderOf
      rw [Forest.value_pop _ (kept id inside)]
    · intro id inside
      exact (poppedRows id).trans (rowsBefore id inside)
    · rw [noOwn]
      exact
        { size := popSize.trans (by rw [if_pos rfl, Nat.add_zero])
          parent := fun some => absurd rfl some
          folder := fun some => absurd rfl some
          rows := (poppedRows before.list.size).trans empty }
    · intro id name
      refine (consistent id name).trans ?_
      unfold Builder.rowNamed
      rw [poppedRows]
  · have someOwn : rowsFor lockfile before parent owner before.list.size ≠ [] := ownEq ▸ empty
    rw [if_neg empty]
    refine ⟨_, rfl, ?_⟩
    exact
      { resolutions := undisturbed.resolutions.trans opened.rest.1
        served := undisturbed.served.trans opened.rest.2.1
        parents := parentsEq
        folders := foldersEq
        rows := rowsBefore
        own :=
          { size := sizeEq.trans (by rw [if_neg someOwn])
            parent := fun _ => by rw [undisturbed.parents, opened.parents, if_pos rfl]
            folder := fun _ => by rw [undisturbed.folders, opened.folders, if_pos rfl]
            rows := ownEq }
        queue := queueEq.trans (congrArg (· ++ _) opened.rest.2.2.1)
        consistent := consistent
        idle := idle }

/-- The check of a package before its folder is filled. -/
def checkedPeriod (detects : Bool) (before : Builder) (parent : Option Id)
    (dependencyId : Option DependencyID) : Option Nat :=
  if detects then before.repeatingPeriod (parent.elim [] before.list.chain) dependencyId else none

/-- Processing a package reports repeated rounds or fills its folder. -/
theorem processSubtree_regular (regular : lockfile.Regular) {before : Builder}
    (searchable : Searchable lockfile before) (parent : Option Id)
    (above : ∀ id ∈ parent, id < before.list.size) (dependencyId : Option DependencyID)
    {owner : PackageID} (owned : dependencyId.elim (some 0) lockfile.resolution = some owner)
    (nonempty : (lockfile.resolutionList owner).len ≠ 0) (detects : Bool) :
    (∃ period, checkedPeriod detects before parent dependencyId = some period ∧
      processSubtree lockfile detects before parent dependencyId none =
        .error (.endlessNesting parent dependencyId period)) ∨
    (checkedPeriod detects before parent dependencyId = none ∧
      ∃ after, processSubtree lockfile detects before parent dependencyId none = .ok after ∧
        Filled lockfile before parent dependencyId owner after) := by
  have unlinked : linksBack lockfile before (parent.elim [] before.list.chain) dependencyId owner =
      false := by
    unfold linksBack
    cases dependencyId with
    | none => rfl
    | some depId =>
        dsimp only
        rw [beq_eq_false_iff_ne.mpr (regular.resolutionTag_ne owner).2, Bool.and_false,
          Bool.false_and]
  have processEq : processSubtree lockfile detects before parent dependencyId none =
      (checkedPeriod detects before parent dependencyId).elim
        (fillFolder lockfile before parent dependencyId none owner)
        fun period => .error (.endlessNesting parent dependencyId period) := by
    unfold processSubtree
    rw [searchable.resolution_eq, owned]
    dsimp only
    rw [if_neg nonempty, unlinked, if_neg Bool.false_ne_true]
    cases isPeriod : checkedPeriod detects before parent dependencyId with
    | none =>
        unfold checkedPeriod at isPeriod
        rw [isPeriod]
        rfl
    | some period =>
        unfold checkedPeriod at isPeriod
        rw [isPeriod]
        rfl
  rw [processEq]
  cases checkedPeriod detects before parent dependencyId with
  | some period => exact Or.inl ⟨period, rfl, rfl⟩
  | none =>
      obtain ⟨after, filledEq, filled⟩ :=
        fillFolder_regular regular searchable above dependencyId owner
      exact Or.inr ⟨rfl, after, filledEq, filled⟩

end OnePackage

end Bun.Install
