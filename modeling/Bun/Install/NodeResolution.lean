/-
Node's lookup in the stored trees.

A package looks for a name in its own `node_modules` folder first and then in the folders
above it.  In the trees that `hoist` stores for a lockfile of regular dependencies every
copy finds the packages that its dependencies are resolved to.
-/

import Bun.Install.HoistRuns

set_option autoImplicit false

namespace Bun.Install

open Bun.Foundation

/-! ### Stored trees -/

namespace CleanResult

def rows (result : CleanResult) (id : Id) : List DependencyID :=
  (result.trees[id]?.map fun tree =>
    (result.depIds.drop tree.dependencies.off).take tree.dependencies.len).getD []

def parent (result : CleanResult) (id : Id) : Option Id :=
  result.trees[id]?.bind Tree.parent

def folderOf (result : CleanResult) (id : Id) : Option DependencyID :=
  result.trees[id]?.bind Tree.dependencyId

/-- Node finds a row for a name: the folder has one, or it has none and a folder above does. -/
inductive Finds (lockfile : Lockfile) (result : CleanResult) (name : PackageNameHash) :
    Id → DependencyID → Prop where
  | here {id : Id} {row : DependencyID} :
      row ∈ result.rows id → lockfile.nameHash row = name → Finds lockfile result name id row
  | above {id parent : Id} {row : DependencyID} :
      (∀ other ∈ result.rows id, lockfile.nameHash other ≠ name) →
        result.parent id = some parent → Finds lockfile result name parent row →
        Finds lockfile result name id row

def Resolves (lockfile : Lockfile) (result : CleanResult) (id : Id) (depId : DependencyID) :
    Prop :=
  (∃ row, Finds lockfile result (lockfile.nameHash depId) id row) ∧
    ∀ row, Finds lockfile result (lockfile.nameHash depId) id row →
      lockfile.resolution row = lockfile.resolution depId

/-- The tree of the folder `node_modules/<name>/node_modules` of a row. -/
def IsFolder (lockfile : Lockfile) (result : CleanResult) (id : Id) (row : DependencyID)
    (child : Id) : Prop :=
  result.parent child = some id ∧
    ∃ depId, result.folderOf child = some depId ∧
      lockfile.nameHash depId = lockfile.nameHash row

def StartsAt (lockfile : Lockfile) (result : CleanResult) (id : Id) (row : DependencyID)
    (start : Id) : Prop :=
  IsFolder lockfile result id row start ∨
    ((∀ child, ¬IsFolder lockfile result id row child) ∧ start = id)

end CleanResult

structure WellPlaced (lockfile : Lockfile) (result : CleanResult) : Prop where
  names : ∀ id, ((result.rows id).map lockfile.nameHash).Nodup
  root : ∀ depId ∈ lockfile.dependenciesOf 0, lockfile.placeable depId = true →
    result.Resolves lockfile 0 depId
  copies : ∀ id, ∀ row ∈ result.rows id, ∃ owner, lockfile.resolution row = some owner ∧
    ∀ start, result.StartsAt lockfile id row start →
      ∀ depId ∈ lockfile.dependenciesOf owner, lockfile.placeable depId = true →
        result.Resolves lockfile start depId
  reachable : ∀ id, ∀ row ∈ result.rows id,
    ∃ target, lockfile.resolution row = some target ∧ Reachable lockfile target

/-! ### Storing the trees -/

section Clean

variable {resolution : DependencyID → Option PackageID}

structure Stored (result : CleanResult) (id : Id) (node : Option Id × BuilderEntry)
    (kept : List DependencyID) : Prop where
  parent : result.parent id = node.1
  folder : result.folderOf id = node.2.dependencyId
  rows : result.rows id = kept

theorem store_grows (nodes : List (Option Id × BuilderEntry)) (start : CleanResult) :
    (∃ trees, (nodes.foldl (CleanResult.store resolution) start).trees = start.trees ++ trees) ∧
      ∃ depIds, (nodes.foldl (CleanResult.store resolution) start).depIds =
        start.depIds ++ depIds := by
  induction nodes generalizing start with
  | nil => exact ⟨⟨[], (List.append_nil _).symm⟩, [], (List.append_nil _).symm⟩
  | cons node rest ih =>
      obtain ⟨⟨trees, treesEq⟩, depIds, depIdsEq⟩ := ih (start.store resolution node)
      rw [List.foldl_cons]
      exact ⟨⟨_, treesEq.trans (List.append_assoc _ _ _)⟩,
        _, depIdsEq.trans (List.append_assoc _ _ _)⟩

theorem foldl_stored (resolution : DependencyID → Option PackageID)
    (nodes : List (Option Id × BuilderEntry)) (start : CleanResult)
    (id : Nat) (node : Option Id × BuilderEntry) (isNode : nodes[id]? = some node) :
    Stored (nodes.foldl (CleanResult.store resolution) start) (start.trees.length + id) node
      (keptRows resolution node.2) := by
  induction nodes generalizing start id with
  | nil => cases isNode
  | cons first rest ih =>
      rw [List.foldl_cons]
      cases id with
      | zero =>
          cases isNode
          obtain ⟨⟨trees, treesEq⟩, depIds, depIdsEq⟩ :=
            store_grows rest (start.store resolution node)
          have isTree : (rest.foldl (CleanResult.store resolution)
              (start.store resolution node)).trees[start.trees.length]? =
                some { dependencyId := node.2.dependencyId, parent := node.1,
                       dependencies :=
                         { off := start.depIds.length,
                           len := (keptRows resolution node.2).length } } := by
            rw [treesEq]
            unfold CleanResult.store
            dsimp only
            rw [List.append_assoc, List.getElem?_append_right (Nat.le_refl _), Nat.sub_self]
            rfl
          refine ⟨?_, ?_, ?_⟩
          · unfold CleanResult.parent
            rw [Nat.add_zero, isTree]
            rfl
          · unfold CleanResult.folderOf
            rw [Nat.add_zero, isTree]
            rfl
          · unfold CleanResult.rows
            rw [Nat.add_zero, isTree, depIdsEq]
            dsimp only [Option.map_some, Option.getD_some, CleanResult.store]
            rw [List.append_assoc, List.drop_left, List.take_left]
      | succ id =>
          have stored := ih (start.store resolution first) id isNode
          unfold CleanResult.store at stored
          dsimp only at stored
          rw [List.length_append, List.length_singleton, Nat.add_assoc, Nat.add_comm 1 id]
            at stored
          exact stored

theorem length_trees (resolution : DependencyID → Option PackageID)
    (nodes : List (Option Id × BuilderEntry)) (start : CleanResult) :
    (nodes.foldl (CleanResult.store resolution) start).trees.length =
      start.trees.length + nodes.length := by
  induction nodes generalizing start with
  | nil => rfl
  | cons node rest ih =>
      rw [List.foldl_cons, ih]
      unfold CleanResult.store
      dsimp only
      rw [List.length_append, List.length_singleton, List.length_cons, Nat.add_assoc,
        Nat.add_comm 1]

end Clean

/-- No package lists a name twice. -/
def Lockfile.NamesDistinct (lockfile : Lockfile) : Prop :=
  ∀ package ∈ lockfile.packages, (package.resolutions.ids.map lockfile.nameHash).Nodup

instance (lockfile : Lockfile) : Decidable lockfile.NamesDistinct :=
  inferInstanceAs (Decidable (∀ package ∈ lockfile.packages, _))

theorem Lockfile.NamesDistinct.eq_of_nameHash {lockfile : Lockfile}
    (distinct : lockfile.NamesDistinct) {id : PackageID} {first second : DependencyID}
    (firstListed : first ∈ lockfile.dependenciesOf id)
    (secondListed : second ∈ lockfile.dependenciesOf id)
    (sameName : lockfile.nameHash first = lockfile.nameHash second) : first = second := by
  unfold dependenciesOf resolutionList at firstListed secondListed
  cases found : lockfile.packages[id]? with
  | none =>
      rw [found] at firstListed
      cases firstListed
  | some package =>
      rw [found] at firstListed secondListed
      exact List.inj_on_of_nodup_map (distinct package (List.mem_of_getElem? found)) firstListed
        secondListed sameName

section Stored

variable {lockfile : Lockfile} {builder : Builder}

structure Stores (builder : Builder) (result : CleanResult) : Prop where
  parent : ∀ id, result.parent id = builder.list.parent id
  folder : ∀ id, result.folderOf id = builder.folderOf id
  rows : ∀ id, result.rows id = builder.rows id

theorem clean_stores (rowsResolved : builder.RowsResolved) : Stores builder builder.clean := by
  have kept : ∀ (id : Nat) node, builder.list.nodes[id]? = some node →
      keptRows builder.resolution node.2 = builder.rows id := by
    intro id node isNode
    have rowsEq : builder.rows id = node.2.dependencies := by
      unfold Builder.rows Forest.value
      rw [isNode]
      rfl
    rw [rowsEq]
    refine List.filter_eq_self.mpr ?_
    intro row inRows
    obtain ⟨target, resolves⟩ := rowsResolved id row (rowsEq ▸ inRows)
    rw [resolves]
    rfl
  have inside : ∀ (id : Nat) node, builder.list.nodes[id]? = some node →
      Stored builder.clean id node (builder.rows id) := by
    intro id node isNode
    have stored := foldl_stored builder.resolution builder.list.nodes
      { trees := [], depIds := [] } id node isNode
    rw [kept id node isNode, List.length_nil, Nat.zero_add] at stored
    exact stored
  have outside : ∀ id : Nat, builder.list.nodes[id]? = none → builder.clean.trees[id]? = none := by
    intro id isNone
    have length := length_trees builder.resolution builder.list.nodes
      { trees := [], depIds := [] }
    rw [List.getElem?_eq_none_iff] at isNone ⊢
    refine Nat.le_trans (Nat.le_of_eq ?_) isNone
    exact length.trans (Nat.zero_add _)
  refine ⟨?_, ?_, ?_⟩
  · intro id
    cases isNode : builder.list.nodes[id]? with
    | none =>
        unfold CleanResult.parent Forest.parent
        rw [outside id isNode, isNode]
        rfl
    | some node =>
        rw [(inside id node isNode).parent]
        unfold Forest.parent
        rw [isNode]
        rfl
  · intro id
    cases isNode : builder.list.nodes[id]? with
    | none =>
        unfold CleanResult.folderOf Builder.folderOf Forest.value
        rw [outside id isNode, isNode]
        rfl
    | some node =>
        rw [(inside id node isNode).folder]
        unfold Builder.folderOf Forest.value
        rw [isNode]
        rfl
  · intro id
    cases isNode : builder.list.nodes[id]? with
    | none =>
        unfold CleanResult.rows Builder.rows Forest.value
        rw [outside id isNode, isNode]
        rfl
    | some node => exact (inside id node isNode).rows

theorem finds_of_lookup {result : CleanResult} (stores : Stores builder result)
    {name : PackageNameHash} {id : Id} {row : DependencyID}
    (found : builder.lookup lockfile id name = some row) :
    result.Finds lockfile name id row := by
  induction id using Nat.strongRecOn with
  | _ id ih =>
      have hereOf : builder.rowNamed lockfile name id = some row →
          result.Finds lockfile name id row := by
        intro named
        obtain ⟨inRows, sameName⟩ := Builder.rowNamed_some named
        exact .here (stores.rows id ▸ inRows) sameName
      cases isBelow : builder.list.parent id with
      | none =>
          rw [Builder.lookup_top isBelow] at found
          exact hereOf found
      | some above =>
          rw [Builder.lookup_below isBelow] at found
          cases named : builder.rowNamed lockfile name id with
          | some other =>
              rw [named] at found
              exact hereOf (named.trans found)
          | none =>
              rw [named, Option.none_or] at found
              refine .above ?_ ((stores.parent id).trans isBelow)
                (ih above (Forest.parent_lt isBelow) found)
              intro other inRows sameName
              rw [stores.rows] at inRows
              exact List.find?_eq_none.mp named other inRows (beq_iff_eq.mpr sameName)

theorem find?_named {rows : List DependencyID} (distinct : (rows.map lockfile.nameHash).Nodup)
    {row : DependencyID} (inRows : row ∈ rows) :
    rows.find? (fun other => lockfile.nameHash other == lockfile.nameHash row) = some row := by
  cases found : rows.find? fun other => lockfile.nameHash other == lockfile.nameHash row with
  | none => exact absurd (beq_self_eq_true _) (List.find?_eq_none.mp found row inRows)
  | some other =>
      have sameName : lockfile.nameHash other = lockfile.nameHash row := by
        simpa using List.find?_some found
      exact congrArg some
        (List.inj_on_of_nodup_map distinct (List.mem_of_find?_eq_some found) inRows sameName)

theorem lookup_of_finds {result : CleanResult} (stores : Stores builder result)
    (names : ∀ id, ((builder.rows id).map lockfile.nameHash).Nodup) {name : PackageNameHash}
    {id : Id} {row : DependencyID} (finds : result.Finds lockfile name id row) :
    builder.lookup lockfile id name = some row := by
  induction finds with
  | @here id row inRows sameName =>
      have named : builder.rowNamed lockfile name id = some row := by
        rw [stores.rows] at inRows
        rw [← sameName]
        exact find?_named (names id) inRows
      cases isBelow : builder.list.parent id with
      | none => rw [Builder.lookup_top isBelow, named]
      | some above =>
          rw [Builder.lookup_below isBelow, named]
          rfl
  | @above id parent row other isParent _ ih =>
      rw [stores.parent] at isParent
      have unnamed : builder.rowNamed lockfile name id = none := by
        refine List.find?_eq_none.mpr ?_
        intro row inRows sameName
        exact other row (stores.rows id ▸ inRows) (beq_iff_eq.mp sameName)
      rw [Builder.lookup_below isParent, unnamed, Option.none_or, ih]

/-- A dependency is only skipped for a row of its own package if that row is the dependency. -/
theorem resolves_of_meets (distinct : lockfile.NamesDistinct) {result : CleanResult}
    (stores : Stores builder result)
    (names : ∀ id, ((builder.rows id).map lockfile.nameHash).Nodup) {owner : PackageID}
    {id : Id} {depId : DependencyID} (lists : depId ∈ lockfile.dependenciesOf owner)
    (meets : builder.Meets lockfile owner id depId) : result.Resolves lockfile id depId := by
  obtain ⟨row, found, served⟩ := meets
  refine ⟨⟨row, finds_of_lookup stores found⟩, ?_⟩
  intro other finds
  rw [← Option.some.inj (found.symm.trans (lookup_of_finds stores names finds))]
  rcases served with same | listed
  · exact same
  · obtain ⟨_, _, named⟩ := List.exists_of_findSome?_eq_some found
    rw [distinct.eq_of_nameHash listed lists (Builder.rowNamed_some named).2]

theorem Laid.wellPlaced (regular : lockfile.Regular) (distinct : lockfile.NamesDistinct)
    (laid : Laid lockfile builder []) : WellPlaced lockfile builder.clean := by
  have stores := clean_stores laid.searchable.rowsResolved
  refine
    { names := fun id => by rw [stores.rows]; exact laid.names id
      root := fun depId lists placeable =>
        resolves_of_meets distinct stores laid.names lists (laid.topMeets depId lists placeable)
      copies := ?_, reachable := ?_ }
  · intro id row inRows
    rw [stores.rows] at inRows
    obtain ⟨_, above, _, rowListed⟩ := laid.listed id row inRows
    obtain ⟨owner, _, owned⟩ := regular.resolution_isSome rowListed
    refine ⟨owner, owned, ?_⟩
    intro start starts depId lists placeable
    refine resolves_of_meets distinct stores laid.names lists ?_
    rcases starts with ⟨isBelow, folder, isFolder, sameName⟩ | ⟨noFolder, rfl⟩
    · -- The folder of that name is the one of the row, because names are distinct.
      rw [stores.parent] at isBelow
      obtain ⟨nestedDep, nestedOwner, nested⟩ := laid.folders start id isBelow
      rw [stores.folder, nested.folder] at isFolder
      rw [← Option.some.inj isFolder] at sameName
      have same : nestedDep = row :=
        List.inj_on_of_nodup_map (laid.names id) nested.row inRows sameName
      subst same
      have sameOwner := Option.some.inj (nested.owned.symm.trans owned)
      subst sameOwner
      exact nested.meets depId lists placeable
    · rcases laid.settled start row inRows with ⟨child, isBelow, isFolder⟩ | waiting | resolves
      · refine absurd ⟨?_, row, ?_, rfl⟩ (noFolder child)
        · rw [stores.parent, isBelow]
        · rw [stores.folder, isFolder]
      · cases waiting
      · exact resolves owner owned depId lists placeable
  · intro id row inRows
    rw [stores.rows] at inRows
    obtain ⟨_, owner, reachable, rowListed⟩ := laid.listed id row inRows
    obtain ⟨target, _, resolves⟩ := regular.resolution_isSome rowListed
    exact ⟨target, resolves, .dependency reachable rowListed resolves⟩

theorem wellPlaced_empty (nothing : ∀ dep ∈ lockfile.dependenciesOf 0,
    lockfile.placeable dep = false) (noTrees : builder.list.size = 0) :
    WellPlaced lockfile builder.clean := by
  have noRows : ∀ id, builder.clean.rows id = [] := by
    intro id
    have noNodes : builder.list.nodes = [] := List.length_eq_zero_iff.mp noTrees
    unfold Builder.clean
    rw [noNodes]
    rfl
  refine
    { names := fun id => by rw [noRows]; exact List.nodup_nil
      root := fun depId lists placeable => ?_
      copies := fun id row inRows => ?_
      reachable := fun id row inRows => ?_ }
  · rw [nothing depId lists] at placeable
    cases placeable
  · rw [noRows] at inRows
    cases inRows
  · rw [noRows] at inRows
    cases inRows

theorem bindServedPeers_none (lockfile : Lockfile) (noneServed : builder.served = []) :
    (bindServedPeers lockfile builder).clean = builder.clean := by
  unfold bindServedPeers
  rw [noneServed]
  rfl

/-- In the trees that a finished `hoist` stores for regular dependencies no folder has two rows
of one name, the root and every placed copy find the packages of their dependencies, and only
reachable packages are placed. -/
theorem hoist_wellPlaced (regular : lockfile.Regular) (distinct : lockfile.NamesDistinct)
    {detects late : Bool} {steps : Nat} {result : CleanResult}
    (finished : hoist lockfile detects steps = .finished result late) :
    WellPlaced lockfile result := by
  obtain ⟨first, processed, empty | ⟨_, laid⟩⟩ := processSubtree_root regular detects
  · obtain ⟨noTrees, noQueue, noneServed, nothing⟩ := empty
    unfold hoist at finished
    rw [processed] at finished
    dsimp only at finished
    rw [fillQueue_nil lockfile detects steps noQueue] at finished
    cases finished
    rw [bindServedPeers_none lockfile noneServed]
    exact wellPlaced_empty nothing noTrees
  · unfold hoist at finished
    rw [processed] at finished
    obtain ⟨final, finalLaid, rfl⟩ := fillQueue_finished regular steps laid finished
    rw [bindServedPeers_none lockfile finalLaid.served]
    exact finalLaid.wellPlaced regular distinct

end Stored

/-! ### Two lockfiles -/

def noPeerRules : PeerRules :=
  { satisfies := fun _ _ => false, satisfiesRange := fun _ _ => false,
    satisfiesNpmRange := fun _ _ => false, peerByVersion := fun _ => none,
    isOverriddenDependency := fun _ => false, isWorkspaceRootDependency := fun _ => false }

def prodDependency (name : String) (nameHash : PackageNameHash) : Dependency :=
  { name := ascii name, nameHash := nameHash, behavior := { bits := Behavior.PROD },
    versionTag := .npm }

def npmPackage (nameHash : PackageNameHash) (off len : Nat) : Package :=
  { nameHash := nameHash, resolutionTag := .npm, resolutions := { off := off, len := len } }

/-- The root depends on `a` and `b`, and `b` on another `a`. -/
def twoVersions : Lockfile :=
  { dependencies := [prodDependency "a" 1, prodDependency "b" 2, prodDependency "a" 1]
    packages := [npmPackage 0 0 2, npmPackage 1 0 0, npmPackage 2 2 1, npmPackage 1 0 0]
    resolutions := [some 1, some 2, some 3]
    rules := noPeerRules }

theorem twoVersions_regular : twoVersions.Regular where
  noPeer := by decide
  noBundled := by decide
  noWorkspace := by decide
  noLinks := by decide
  resolved := by decide

/-- The second `a` is nested below `b`. -/
theorem twoVersions_wellPlaced :
    hoist twoVersions true 1 =
        .finished
          { trees :=
              [{ dependencyId := none, parent := none, dependencies := { off := 0, len := 2 } },
                { dependencyId := some 1, parent := some 0,
                  dependencies := { off := 2, len := 1 } }]
            depIds := [0, 1, 2] } false ∧
      WellPlaced twoVersions
        { trees :=
            [{ dependencyId := none, parent := none, dependencies := { off := 0, len := 2 } },
              { dependencyId := some 1, parent := some 0, dependencies := { off := 2, len := 1 } }]
          depIds := [0, 1, 2] } := by
  have finished : hoist twoVersions true 1 =
      .finished
        { trees :=
            [{ dependencyId := none, parent := none, dependencies := { off := 0, len := 2 } },
              { dependencyId := some 1, parent := some 0, dependencies := { off := 2, len := 1 } }]
          depIds := [0, 1, 2] } false := by
    decide +kernel
  exact ⟨finished, hoist_wellPlaced twoVersions_regular (by decide) finished⟩

/-- The root depends on a package under a name that cannot be a folder. -/
def unsafeName : Lockfile :=
  { dependencies := [prodDependency "../a" 1]
    packages := [npmPackage 0 0 1, npmPackage 1 0 0]
    resolutions := [some 1]
    rules := noPeerRules }

/-- A dependency whose name cannot be a folder is not placed, and Node does not find it. -/
theorem unsafeName_unresolved :
    unsafeName.Regular ∧ unsafeName.NamesDistinct ∧
      hoist unsafeName true 0 = .finished { trees := [], depIds := [] } false ∧
      0 ∈ unsafeName.dependenciesOf 0 ∧
      ¬({ trees := [], depIds := [] } : CleanResult).Resolves unsafeName 0 0 := by
  refine ⟨⟨by decide, by decide, by decide, by decide, by decide⟩, by decide,
    by decide +kernel, by decide, ?_⟩
  rintro ⟨⟨row, finds⟩, _⟩
  cases finds with
  | here inRows => cases inRows
  | above _ isParent => cases isParent

end Bun.Install
