/-
The folders that `hoist` builds from a lockfile of regular dependencies.

A turn only adds rows to the top folder and to the folder it makes.  The names that the
top gains were found nowhere on the way up, so nothing that was resolved before is
resolved differently, and every folder keeps resolving what its package depends on.
-/

import Bun.Install.RegularSubtree

set_option autoImplicit false

namespace Bun.Install

open Bun.Foundation

variable {lockfile : Lockfile}

/-! ### Lookups -/

namespace Builder

theorem lookup_top {builder : Builder} {id : Id} (isTop : builder.list.parent id = none)
    (name : PackageNameHash) :
    builder.lookup lockfile id name = builder.rowNamed lockfile name id := by
  unfold lookup
  rw [Forest.chain_top isTop, List.findSome?_singleton]

theorem lookup_below {builder : Builder} {id above : Id}
    (isBelow : builder.list.parent id = some above) (name : PackageNameHash) :
    builder.lookup lockfile id name =
      (builder.rowNamed lockfile name id).or (builder.lookup lockfile above name) := by
  unfold lookup
  rw [Forest.chain_below isBelow, List.findSome?_cons]
  cases builder.rowNamed lockfile name id <;> rfl

/-- A dependency of a package finds a row that it is skipped for. -/
def Meets (lockfile : Lockfile) (builder : Builder) (owner : PackageID) (id : Id)
    (depId : DependencyID) : Prop :=
  ∃ row, builder.lookup lockfile id (lockfile.nameHash depId) = some row ∧
    Serves lockfile.resolution (lockfile.dependenciesOf owner) depId row

end Builder

/-! ### What one package adds -/

theorem mem_sortedDependencies {owner : PackageID} {depId : DependencyID} :
    depId ∈ sortedDependencies lockfile (lockfile.resolutionList owner) ↔
      depId ∈ lockfile.dependenciesOf owner :=
  (sortedDependencies_perm lockfile (lockfile.resolutionList owner)).mem_iff

/-- The dependencies of the package whose name no folder on the way up has a row for, one of each
name. -/
def missingAbove (lockfile : Lockfile) (before : Builder) (parent : Id) (owner : PackageID) :
    List DependencyID :=
  firstOfEach lockfile.nameHash <|
    (sortedDependencies lockfile (lockfile.resolutionList owner)).filter fun depId =>
      lockfile.placeable depId &&
        (before.lookup lockfile parent (lockfile.nameHash depId)).isNone

def conflictsAbove (lockfile : Lockfile) (before : Builder) (parent : Id) (owner : PackageID) :
    List DependencyID :=
  firstOfEach lockfile.nameHash <|
    (sortedDependencies lockfile (lockfile.resolutionList owner)).filter fun depId =>
      lockfile.placeable depId &&
        (before.lookup lockfile parent (lockfile.nameHash depId)).any fun row =>
          decide (¬Serves lockfile.resolution (lockfile.dependenciesOf owner) depId row)

/-- The conflicts of a package depend on the rows that its names find. -/
theorem conflictsAbove_congr {first second : Builder} {id other : Id} {owner : PackageID}
    (same : ∀ depId ∈ lockfile.dependenciesOf owner, lockfile.placeable depId = true →
      first.lookup lockfile id (lockfile.nameHash depId) =
        second.lookup lockfile other (lockfile.nameHash depId)) :
    conflictsAbove lockfile first id owner = conflictsAbove lockfile second other owner := by
  unfold conflictsAbove
  refine congrArg _ (List.filter_congr ?_)
  intro depId inList
  cases placeable : lockfile.placeable depId with
  | false => rfl
  | true => rw [same depId (mem_sortedDependencies.mp inList) placeable]

theorem find?_conflictsAbove_congr {builder : Builder} {id other : Id} (owner : PackageID)
    {name : PackageNameHash}
    (same : builder.lookup lockfile id name = builder.lookup lockfile other name) :
    (conflictsAbove lockfile builder id owner).find? (fun row => lockfile.nameHash row == name) =
      (conflictsAbove lockfile builder other owner).find? fun row =>
        lockfile.nameHash row == name := by
  unfold conflictsAbove
  rw [find?_firstOfEach, find?_firstOfEach, List.find?_filter, List.find?_filter]
  refine congrArg (List.find? · _) (funext fun depId => ?_)
  by_cases named : lockfile.nameHash depId = name
  · rw [named, same]
  · simp [named]

/-- A builder whose folders all stand below the first one. -/
def Builder.Rooted (builder : Builder) : Prop :=
  0 < builder.list.size ∧ ∀ id < builder.list.size, builder.list.parent id = none → id = 0

theorem Builder.Rooted.top {builder : Builder} (rooted : builder.Rooted) {id : Id}
    (inside : id < builder.list.size) : builder.list.top id = 0 :=
  Forest.top_eq rooted.2 id inside

theorem parent_zero {α : Type} (forest : Forest α) : forest.parent 0 = none := by
  cases found : forest.parent 0 with
  | none => rfl
  | some above => exact absurd (Forest.parent_lt found) (Nat.not_lt_zero _)

section Step

variable {before after : Builder} {parent : Id} {dependencyId : Option DependencyID}
variable {owner : PackageID}

theorem folderFor_named {parent : Option Id} {depId other : DependencyID} {tree otherTree : Id}
    (takes : folderFor lockfile before parent owner depId = some tree)
    (otherTakes : folderFor lockfile before parent owner other = some otherTree)
    (sameName : lockfile.nameHash depId = lockfile.nameHash other) : tree = otherTree := by
  unfold folderFor at takes otherTakes
  rw [sameName] at takes
  split at takes <;> split at otherTakes
  · cases found : parent.bind fun id =>
        before.lookup lockfile id (lockfile.nameHash other) with
    | none =>
        rw [found] at takes otherTakes
        exact Option.some.inj (takes.symm.trans otherTakes)
    | some row =>
        rw [found] at takes otherTakes
        dsimp only [treeTaking] at takes otherTakes
        split at takes <;> split at otherTakes
        · cases takes
        · cases takes
        · cases otherTakes
        · exact Option.some.inj (takes.symm.trans otherTakes)
  · cases otherTakes
  · cases takes
  · cases takes

theorem rowsFor_eq (parent : Option Id) (id : Id) :
    rowsFor lockfile before parent owner id =
      firstOfEach lockfile.nameHash
        ((sortedDependencies lockfile (lockfile.resolutionList owner)).filter fun depId =>
          folderFor lockfile before parent owner depId == some id) := by
  unfold rowsFor placedDependencies placedOf
  rw [filter_firstOfEach, List.filter_filter]
  · refine congrArg _ (List.filter_congr fun depId _ => ?_)
    cases folderFor lockfile before parent owner depId with
    | none => rfl
    | some tree => rw [Option.isSome_some, Bool.and_true]
  · intro depId taken other otherTaken sameName
    obtain ⟨tree, takes⟩ := Option.isSome_iff_exists.mp (List.mem_filter.mp taken).2
    obtain ⟨otherTree, otherTakes⟩ := Option.isSome_iff_exists.mp (List.mem_filter.mp otherTaken).2
    rw [takes, otherTakes, folderFor_named takes otherTakes sameName]

theorem folderFor_below (rooted : before.Rooted) (inside : parent < before.list.size)
    (depId : DependencyID) :
    folderFor lockfile before (some parent) owner depId =
      if lockfile.placeable depId then
        treeTaking lockfile.resolution (lockfile.dependenciesOf owner) depId before.list.size 0
          (before.lookup lockfile parent (lockfile.nameHash depId))
      else none := by
  unfold folderFor
  rw [Option.elim_some, rooted.top inside]
  rfl

theorem rowsFor_new (rooted : before.Rooted) (inside : parent < before.list.size) :
    rowsFor lockfile before (some parent) owner before.list.size =
      conflictsAbove lockfile before parent owner := by
  rw [rowsFor_eq]
  unfold conflictsAbove
  refine congrArg _ (List.filter_congr ?_)
  intro depId _
  rw [folderFor_below rooted inside]
  cases lockfile.placeable depId with
  | false => rfl
  | true =>
      rw [if_pos rfl, Bool.true_and]
      cases before.lookup lockfile parent (lockfile.nameHash depId) with
      | none =>
          rw [beq_eq_false_iff_ne.mpr]
          · rfl
          · exact fun equal => Nat.ne_of_lt rooted.1 (Option.some.inj equal)
      | some row =>
          dsimp only [treeTaking, Option.any_some]
          by_cases served : Serves lockfile.resolution (lockfile.dependenciesOf owner) depId row
          · rw [if_pos served, decide_eq_false fun refused => refused served]
            rfl
          · rw [if_neg served, beq_self_eq_true, decide_eq_true served]

theorem rowsFor_old (rooted : before.Rooted) (inside : parent < before.list.size) {id : Id}
    (old : id < before.list.size) :
    rowsFor lockfile before (some parent) owner id =
      if id = 0 then missingAbove lockfile before parent owner else [] := by
  have takes : ∀ depId, (folderFor lockfile before (some parent) owner depId == some id) =
      (decide (id = 0) && (lockfile.placeable depId &&
        (before.lookup lockfile parent (lockfile.nameHash depId)).isNone)) := by
    intro depId
    rw [folderFor_below rooted inside]
    cases lockfile.placeable depId with
    | false => rw [Bool.false_and, Bool.and_false]; rfl
    | true =>
        rw [if_pos rfl, Bool.true_and]
        cases before.lookup lockfile parent (lockfile.nameHash depId) with
        | none =>
            dsimp only [treeTaking, Option.isNone_none]
            rw [Bool.and_true]
            by_cases isRoot : id = 0
            · rw [isRoot]
              rfl
            · rw [decide_eq_false isRoot, beq_eq_false_iff_ne]
              exact fun equal => isRoot (Option.some.inj equal).symm
        | some row =>
            dsimp only [treeTaking, Option.isNone_some]
            rw [Bool.and_false]
            split
            · rfl
            · rw [beq_eq_false_iff_ne]
              exact fun equal => Nat.ne_of_gt old (Option.some.inj equal)
  rw [rowsFor_eq]
  simp only [takes]
  by_cases isRoot : id = 0
  · rw [if_pos isRoot]
    unfold missingAbove
    simp only [isRoot, decide_true, Bool.true_and]
  · rw [if_neg isRoot]
    simp only [isRoot, decide_false, Bool.false_and, List.filter_false]
    rfl

def gainedRow (lockfile : Lockfile) (before : Builder) (parent : Id) (owner : PackageID)
    (name : PackageNameHash) : Option DependencyID :=
  (missingAbove lockfile before parent owner).find? fun row => lockfile.nameHash row == name

theorem rowNamed_after (rooted : before.Rooted) (inside : parent < before.list.size)
    (filled : Filled lockfile before (some parent) dependencyId owner after) {id : Id}
    (old : id < before.list.size) (name : PackageNameHash) :
    after.rowNamed lockfile name id =
      (before.rowNamed lockfile name id).or
        (if id = 0 then gainedRow lockfile before parent owner name else none) := by
  unfold Builder.rowNamed gainedRow
  rw [filled.rows id old, rowsFor_old rooted inside old, List.find?_append]
  split <;> rfl

theorem lookup_after (rooted : before.Rooted) (inside : parent < before.list.size)
    (filled : Filled lockfile before (some parent) dependencyId owner after) {id : Id}
    (old : id < before.list.size) (name : PackageNameHash) :
    after.lookup lockfile id name =
      (before.lookup lockfile id name).or (gainedRow lockfile before parent owner name) := by
  induction id using Nat.strongRecOn with
  | _ id ih =>
      have sameParent := filled.parents id old
      cases found : before.list.parent id with
      | none =>
          have isRoot := rooted.2 id old found
          rw [Builder.lookup_top (sameParent.trans found), Builder.lookup_top found,
            rowNamed_after rooted inside filled old, if_pos isRoot]
      | some above =>
          have higher := Forest.parent_lt found
          have notRoot : id ≠ 0 := Nat.ne_of_gt (Nat.lt_of_le_of_lt (Nat.zero_le _) higher)
          rw [Builder.lookup_below (sameParent.trans found), Builder.lookup_below found,
            ih above higher (Nat.lt_trans higher old), rowNamed_after rooted inside filled old,
            if_neg notRoot, Option.or_none, Option.or_assoc]

theorem lookup_stays (rooted : before.Rooted) (inside : parent < before.list.size)
    (filled : Filled lockfile before (some parent) dependencyId owner after) {id : Id}
    (old : id < before.list.size) {name : PackageNameHash} {row : DependencyID}
    (found : before.lookup lockfile id name = some row) :
    after.lookup lockfile id name = some row := by
  rw [lookup_after rooted inside filled old, found]
  rfl

/-! ### The dependencies of the package -/

theorem mem_missingAbove {row : DependencyID}
    (missing : row ∈ missingAbove lockfile before parent owner) :
    row ∈ lockfile.dependenciesOf owner ∧ lockfile.placeable row = true ∧
      before.lookup lockfile parent (lockfile.nameHash row) = none := by
  obtain ⟨inList, kept⟩ := List.mem_filter.mp ((firstOfEach_sublist _).subset missing)
  rw [Bool.and_eq_true, Option.isNone_iff_eq_none] at kept
  exact ⟨mem_sortedDependencies.mp inList, kept.1, kept.2⟩

theorem mem_conflictsAbove {row : DependencyID}
    (conflicts : row ∈ conflictsAbove lockfile before parent owner) :
    row ∈ lockfile.dependenciesOf owner ∧ lockfile.placeable row = true ∧
      ∃ found, before.lookup lockfile parent (lockfile.nameHash row) = some found ∧
        ¬Serves lockfile.resolution (lockfile.dependenciesOf owner) row found := by
  obtain ⟨inList, kept⟩ := List.mem_filter.mp ((firstOfEach_sublist _).subset conflicts)
  rw [Bool.and_eq_true, Option.any_eq_true] at kept
  obtain ⟨placeable, found, isFound, refused⟩ := kept
  exact ⟨mem_sortedDependencies.mp inList, placeable, found, isFound, of_decide_eq_true refused⟩

/-- A dependency that is refused the row it finds shares its name with a conflict. -/
theorem exists_conflict {depId found : DependencyID}
    (listed : depId ∈ lockfile.dependenciesOf owner) (placeable : lockfile.placeable depId = true)
    (isFound : before.lookup lockfile parent (lockfile.nameHash depId) = some found)
    (refused : ¬Serves lockfile.resolution (lockfile.dependenciesOf owner) depId found) :
    ∃ row ∈ conflictsAbove lockfile before parent owner,
      lockfile.nameHash row = lockfile.nameHash depId := by
  refine List.mem_map.mp ((mem_map_firstOfEach _ _).mpr (List.mem_map.mpr ⟨depId, ?_, rfl⟩))
  refine List.mem_filter.mpr ⟨mem_sortedDependencies.mpr listed, ?_⟩
  rw [placeable, isFound, Bool.true_and, Option.any_some]
  exact decide_eq_true refused

/-- After its package was processed, the name of a dependency is found from the parent: as before,
or as a row of the package. -/
theorem lookup_parent_after (rooted : before.Rooted) (inside : parent < before.list.size)
    (filled : Filled lockfile before (some parent) dependencyId owner after)
    {depId : DependencyID} (listed : depId ∈ lockfile.dependenciesOf owner)
    (placeable : lockfile.placeable depId = true) :
    ∃ row, after.lookup lockfile parent (lockfile.nameHash depId) = some row ∧
      (before.lookup lockfile parent (lockfile.nameHash depId) = some row ∨
        row ∈ lockfile.dependenciesOf owner) := by
  rw [lookup_after rooted inside filled inside]
  cases found : before.lookup lockfile parent (lockfile.nameHash depId) with
  | some row => exact ⟨row, rfl, Or.inl rfl⟩
  | none =>
      have gained : (gainedRow lockfile before parent owner
          (lockfile.nameHash depId)).isSome = true := by
        unfold gainedRow missingAbove
        rw [find?_firstOfEach, List.find?_isSome]
        refine ⟨depId, List.mem_filter.mpr ⟨mem_sortedDependencies.mpr listed, ?_⟩,
          beq_self_eq_true _⟩
        rw [placeable, found]
        rfl
      obtain ⟨row, isRow⟩ := Option.isSome_iff_exists.mp gained
      rw [isRow]
      exact ⟨row, rfl, Or.inr (mem_missingAbove (List.mem_of_find?_eq_some isRow)).1⟩

theorem conflictsAbove_after (rooted : before.Rooted) (inside : parent < before.list.size)
    (filled : Filled lockfile before (some parent) dependencyId owner after) :
    conflictsAbove lockfile after parent owner = conflictsAbove lockfile before parent owner := by
  unfold conflictsAbove
  refine congrArg _ (List.filter_congr ?_)
  intro depId inList
  cases placeable : lockfile.placeable depId with
  | false => rfl
  | true =>
      obtain ⟨row, isRow, old | own⟩ := lookup_parent_after rooted inside filled
        (mem_sortedDependencies.mp inList) placeable
      · rw [isRow, old]
      · rw [isRow, Bool.true_and, Bool.true_and, Option.any_some,
          decide_eq_false fun refused => refused (Or.inr own)]
        cases found : before.lookup lockfile parent (lockfile.nameHash depId) with
        | none => rfl
        | some other =>
            rw [lookup_stays rooted inside filled inside found] at isRow
            rw [Option.some.inj isRow, Option.any_some,
              decide_eq_false fun refused => refused (Or.inr own)]

/-- A dependency whose name has no conflict meets its row at the parent. -/
theorem meets_parent (rooted : before.Rooted) (inside : parent < before.list.size)
    (filled : Filled lockfile before (some parent) dependencyId owner after)
    {depId : DependencyID} (listed : depId ∈ lockfile.dependenciesOf owner)
    (placeable : lockfile.placeable depId = true)
    (unnamed : ∀ row ∈ conflictsAbove lockfile before parent owner,
      lockfile.nameHash row ≠ lockfile.nameHash depId) :
    after.Meets lockfile owner parent depId := by
  obtain ⟨row, isRow, old | own⟩ := lookup_parent_after rooted inside filled listed placeable
  · refine ⟨row, isRow, ?_⟩
    by_contra refused
    obtain ⟨other, conflicts, sameName⟩ := exists_conflict listed placeable old refused
    exact unnamed other conflicts sameName
  · exact ⟨row, isRow, Or.inr own⟩

theorem meets_own (rooted : before.Rooted) (inside : parent < before.list.size)
    (filled : Filled lockfile before (some parent) dependencyId owner after)
    (some : conflictsAbove lockfile before parent owner ≠ []) {depId : DependencyID}
    (listed : depId ∈ lockfile.dependenciesOf owner)
    (placeable : lockfile.placeable depId = true) :
    after.Meets lockfile owner before.list.size depId := by
  have own := filled.own
  rw [rowsFor_new rooted inside] at own
  unfold Builder.Meets
  rw [Builder.lookup_below (own.parent some)]
  unfold Builder.rowNamed
  rw [own.rows]
  cases found : (conflictsAbove lockfile before parent owner).find?
      fun row => lockfile.nameHash row == lockfile.nameHash depId with
  | some row =>
      exact ⟨row, rfl, Or.inr (mem_conflictsAbove (List.mem_of_find?_eq_some found)).1⟩
  | none =>
      rw [Option.none_or]
      refine meets_parent rooted inside filled listed placeable fun row conflicts sameName => ?_
      exact List.find?_eq_none.mp found row conflicts (beq_iff_eq.mpr sameName)

theorem Builder.Meets.stays (rooted : before.Rooted) (inside : parent < before.list.size)
    (filled : Filled lockfile before (some parent) dependencyId owner after) {id : Id}
    (old : id < before.list.size) {above : PackageID} {depId : DependencyID}
    (meets : before.Meets lockfile above id depId) : after.Meets lockfile above id depId := by
  obtain ⟨row, isRow, served⟩ := meets
  exact ⟨row, lookup_stays rooted inside filled old isRow, served⟩

end Step

end Bun.Install
