/-
The invariant of the breadth-first loop of `hoist` on a lockfile of regular dependencies,
over whole runs.
-/

import Bun.Install.HoistedLayout

set_option autoImplicit false

namespace Bun.Install

open Bun.Foundation

variable {lockfile : Lockfile}

/-! ### The invariant -/

inductive Reachable (lockfile : Lockfile) : PackageID → Prop where
  | root : Reachable lockfile 0
  | dependency {owner target : PackageID} {depId : DependencyID} :
      Reachable lockfile owner → depId ∈ lockfile.dependenciesOf owner →
        lockfile.resolution depId = some target → Reachable lockfile target

/-- A folder below another one holds the conflicts of its package with the folders above it. -/
structure Nested (lockfile : Lockfile) (builder : Builder) (id parent : Id)
    (depId : DependencyID) (owner : PackageID) : Prop where
  folder : builder.folderOf id = some depId
  row : depId ∈ builder.rows parent
  owned : lockfile.resolution depId = some owner
  more : hasDependencies lockfile depId = true
  known : ∀ dep ∈ lockfile.dependenciesOf owner, lockfile.placeable dep = true →
    ∃ row, builder.lookup lockfile parent (lockfile.nameHash dep) = some row
  rows : builder.rows id = conflictsAbove lockfile builder parent owner
  meets : ∀ dep ∈ lockfile.dependenciesOf owner, lockfile.placeable dep = true →
    builder.Meets lockfile owner id dep

structure Queued (lockfile : Lockfile) (builder : Builder) (item : FillItem) : Prop where
  row : item.dependencyId ∈ builder.rows item.treeId
  noRoot : item.hoistRootId = none
  more : hasDependencies lockfile item.dependencyId = true
  noFolder : ∀ id, builder.list.parent id = some item.treeId →
    builder.folderOf id ≠ some item.dependencyId

/-- What became of the package of a row: it has a folder, it is queued, or it needs none. -/
def Settled (lockfile : Lockfile) (builder : Builder) (queue : List FillItem) (id : Id)
    (row : DependencyID) : Prop :=
  (∃ child, builder.list.parent child = some id ∧ builder.folderOf child = some row) ∨
    (⟨id, row, none⟩ : FillItem) ∈ queue ∨
    ∀ owner, lockfile.resolution row = some owner → ∀ dep ∈ lockfile.dependenciesOf owner,
      lockfile.placeable dep = true → builder.Meets lockfile owner id dep

/-- The folders between two turns of the loop, with the items that are to be processed. -/
structure Laid (lockfile : Lockfile) (builder : Builder) (queue : List FillItem) : Prop where
  searchable : Searchable lockfile builder
  served : builder.served = []
  rooted : builder.Rooted
  topFolder : builder.folderOf 0 = none
  names : ∀ id, ((builder.rows id).map lockfile.nameHash).Nodup
  listed : ∀ id, ∀ row ∈ builder.rows id, lockfile.placeable row = true ∧
    ∃ owner, Reachable lockfile owner ∧ row ∈ lockfile.dependenciesOf owner
  topMeets : ∀ dep ∈ lockfile.dependenciesOf 0, lockfile.placeable dep = true →
    builder.Meets lockfile 0 0 dep
  folders : ∀ id parent, builder.list.parent id = some parent →
    ∃ depId owner, Nested lockfile builder id parent depId owner
  unique : ∀ id other parent, builder.list.parent id = some parent →
    builder.list.parent other = some parent → builder.folderOf id = builder.folderOf other →
    id = other
  queued : ∀ item ∈ queue, Queued lockfile builder item
  queueNodup : queue.Nodup
  settled : ∀ id, ∀ row ∈ builder.rows id, Settled lockfile builder queue id row

theorem Laid.withQueue {builder : Builder} {queue : List FillItem}
    (laid : Laid lockfile builder queue) (other : List FillItem) :
    Laid lockfile { builder with queue := other } queue where
  searchable :=
    ⟨laid.searchable.resolutions, laid.searchable.consistent, laid.searchable.rowsResolved,
      laid.searchable.idle⟩
  served := laid.served
  rooted := laid.rooted
  topFolder := laid.topFolder
  names := laid.names
  listed := laid.listed
  topMeets := laid.topMeets
  folders := by
    intro id parent isBelow
    obtain ⟨depId, owner, nested⟩ := laid.folders id parent isBelow
    exact ⟨depId, owner, nested.folder, nested.row, nested.owned, nested.more, nested.known,
      nested.rows, nested.meets⟩
  unique := laid.unique
  queued := by
    intro item inQueue
    have queued := laid.queued item inQueue
    exact ⟨queued.row, queued.noRoot, queued.more, queued.noFolder⟩
  queueNodup := laid.queueNodup
  settled := laid.settled

theorem parent_inside {builder : Builder} {id parent : Id}
    (isBelow : builder.list.parent id = some parent) : id < builder.list.size := by
  rcases Nat.lt_or_ge id builder.list.size with inside | outside
  · exact inside
  · rw [Forest.parent_eq_none _ outside] at isBelow
    cases isBelow

theorem rows_inside {builder : Builder} {id : Id} {row : DependencyID}
    (inRows : row ∈ builder.rows id) : id < builder.list.size := by
  rcases Nat.lt_or_ge id builder.list.size with inside | outside
  · exact inside
  · rw [rows_outside outside] at inRows
    cases inRows

theorem rowNamed_top_of_missing {builder : Builder} (rooted : builder.Rooted) {id : Id}
    (inside : id < builder.list.size) {name : PackageNameHash}
    (missing : builder.lookup lockfile id name = none) :
    builder.rowNamed lockfile name 0 = none := by
  induction id using Nat.strongRecOn with
  | _ id ih =>
      cases found : builder.list.parent id with
      | none =>
          rw [Builder.lookup_top found, rooted.2 id inside found] at missing
          exact missing
      | some above =>
          rw [Builder.lookup_below found, Option.or_eq_none_iff] at missing
          have higher := Forest.parent_lt found
          exact ih above higher (Nat.lt_trans higher inside) missing.2

theorem settled_of_items {builder : Builder} {queue : List FillItem} {id : Id}
    {row : DependencyID} (items : ∀ item ∈ fillItems lockfile row id, item ∈ queue) :
    Settled lockfile builder queue id row := by
  unfold fillItems at items
  cases more : hasDependencies lockfile row with
  | true =>
      rw [if_pos more] at items
      exact Or.inr (Or.inl (items _ (List.mem_singleton.mpr rfl)))
  | false =>
      refine Or.inr (Or.inr ?_)
      intro target isTarget dep depListed
      unfold hasDependencies at more
      rw [isTarget] at more
      have empty : (lockfile.resolutionList target).len = 0 :=
        Nat.eq_zero_of_not_pos (of_decide_eq_false more)
      unfold Lockfile.dependenciesOf DependencyIDSlice.ids at depListed
      rw [empty] at depListed
      cases depListed

/-! ### One turn -/

section Turn

variable {before after : Builder} {item : FillItem} {owner : PackageID}

/-- The facts about one turn that every part of the invariant uses. -/
structure Turn (lockfile : Lockfile) (before : Builder) (item : FillItem) (owner : PackageID)
    (after : Builder) : Prop where
  regular : lockfile.Regular
  laid : Laid lockfile before (item :: before.queue)
  owned : lockfile.resolution item.dependencyId = some owner
  filled : Filled lockfile before (some item.treeId) (some item.dependencyId) owner after

namespace Turn

theorem row (turn : Turn lockfile before item owner after) :
    item.dependencyId ∈ before.rows item.treeId :=
  (turn.laid.queued item List.mem_cons_self).row

theorem inside (turn : Turn lockfile before item owner after) :
    item.treeId < before.list.size :=
  rows_inside turn.row

theorem own (turn : Turn lockfile before item owner after) :
    OwnFolder before (some item.treeId) (some item.dependencyId)
      (conflictsAbove lockfile before item.treeId owner) after := by
  have own := turn.filled.own
  rw [rowsFor_new turn.laid.rooted turn.inside] at own
  exact own

theorem rows_old (turn : Turn lockfile before item owner after) {id : Id}
    (old : id < before.list.size) :
    after.rows id = before.rows id ++
      if id = 0 then missingAbove lockfile before item.treeId owner else [] := by
  rw [turn.filled.rows id old, rowsFor_old turn.laid.rooted turn.inside old]

theorem rows_grow (turn : Turn lockfile before item owner after) {id : Id} {row : DependencyID}
    (inRows : row ∈ before.rows id) : row ∈ after.rows id := by
  rw [turn.rows_old (rows_inside inRows)]
  exact List.mem_append_left _ inRows

theorem folder_cases (turn : Turn lockfile before item owner after) {id : Id}
    (inside : id < after.list.size) :
    id < before.list.size ∨
      (id = before.list.size ∧ conflictsAbove lockfile before item.treeId owner ≠ []) := by
  rw [turn.own.size] at inside
  by_cases none : conflictsAbove lockfile before item.treeId owner = []
  · rw [if_pos none] at inside
    exact Or.inl inside
  · rw [if_neg none] at inside
    rcases Nat.lt_or_eq_of_le (Nat.le_of_lt_succ inside) with old | isNew
    · exact Or.inl old
    · exact Or.inr ⟨isNew, none⟩

/-- A row after the turn is an old one, was missing above, or is in the package's own folder. -/
theorem row_cases (turn : Turn lockfile before item owner after) {id : Id} {row : DependencyID}
    (inRows : row ∈ after.rows id) :
    row ∈ before.rows id ∨
      (id = 0 ∧ row ∈ missingAbove lockfile before item.treeId owner) ∨
      (id = before.list.size ∧ row ∈ conflictsAbove lockfile before item.treeId owner) := by
  rcases turn.folder_cases (rows_inside inRows) with old | ⟨isNew, _⟩
  · rw [turn.rows_old old] at inRows
    rcases List.mem_append.mp inRows with before | gained
    · exact Or.inl before
    · split at gained
      · exact Or.inr (Or.inl ⟨‹_›, gained⟩)
      · cases gained
  · rw [isNew, turn.own.rows] at inRows
    exact Or.inr (Or.inr ⟨isNew, inRows⟩)

theorem rooted (turn : Turn lockfile before item owner after) : after.Rooted := by
  refine ⟨?_, ?_⟩
  · rw [turn.own.size]
    exact Nat.lt_of_lt_of_le turn.laid.rooted.1 (Nat.le_add_right _ _)
  · intro id inside isTop
    rcases turn.folder_cases inside with old | ⟨isNew, some⟩
    · rw [turn.filled.parents id old] at isTop
      exact turn.laid.rooted.2 id old isTop
    · rw [isNew, turn.own.parent some] at isTop
      cases isTop

theorem not_named_top (turn : Turn lockfile before item owner after) {row other : DependencyID}
    (missing : row ∈ missingAbove lockfile before item.treeId owner)
    (atTop : other ∈ before.rows 0) : lockfile.nameHash other ≠ lockfile.nameHash row := by
  intro sameName
  have none := rowNamed_top_of_missing turn.laid.rooted turn.inside
    (mem_missingAbove missing).2.2
  exact List.find?_eq_none.mp none other atTop (beq_iff_eq.mpr sameName)

theorem names (turn : Turn lockfile before item owner after) (id : Id) :
    ((after.rows id).map lockfile.nameHash).Nodup := by
  rcases Nat.lt_or_ge id after.list.size with inside | outside
  · rcases turn.folder_cases inside with old | ⟨isNew, _⟩
    · rw [turn.rows_old old]
      by_cases isTop : id = 0
      · rw [if_pos isTop, List.map_append, List.nodup_append]
        refine ⟨turn.laid.names id, nodup_firstOfEach _, ?_⟩
        intro name inOld other inNew
        obtain ⟨oldRow, oldIn, rfl⟩ := List.mem_map.mp inOld
        obtain ⟨newRow, newIn, rfl⟩ := List.mem_map.mp inNew
        exact turn.not_named_top newIn (isTop ▸ oldIn)
      · rw [if_neg isTop, List.append_nil]
        exact turn.laid.names id
    · rw [isNew, turn.own.rows]
      exact nodup_firstOfEach _
  · rw [rows_outside outside]
    exact List.nodup_nil

theorem reachable_owner (turn : Turn lockfile before item owner after) :
    Reachable lockfile owner := by
  obtain ⟨_, above, reachable, lists⟩ := turn.laid.listed _ _ turn.row
  exact .dependency reachable lists turn.owned

theorem listed (turn : Turn lockfile before item owner after) (id : Id) (row : DependencyID)
    (inRows : row ∈ after.rows id) :
    lockfile.placeable row = true ∧
      ∃ owner, Reachable lockfile owner ∧ row ∈ lockfile.dependenciesOf owner := by
  rcases turn.row_cases inRows with old | ⟨_, missing⟩ | ⟨_, conflicts⟩
  · exact turn.laid.listed id row old
  · obtain ⟨lists, placeable, _⟩ := mem_missingAbove missing
    exact ⟨placeable, owner, turn.reachable_owner, lists⟩
  · obtain ⟨lists, placeable, _⟩ := mem_conflictsAbove conflicts
    exact ⟨placeable, owner, turn.reachable_owner, lists⟩

theorem searchable (turn : Turn lockfile before item owner after) :
    Searchable lockfile after := by
  have resolutions : after.resolutions = lockfile.resolutions :=
    turn.filled.resolutions.trans turn.laid.searchable.resolutions
  refine
    { resolutions := resolutions, consistent := turn.filled.consistent,
      rowsResolved := ?_, idle := turn.filled.idle }
  intro id row inRows
  obtain ⟨_, above, _, lists⟩ := turn.listed id row inRows
  obtain ⟨target, _, resolves⟩ := turn.regular.resolution_isSome lists
  refine ⟨target, ?_⟩
  unfold Builder.resolution
  rw [resolutions]
  exact resolves

theorem meets_stays (turn : Turn lockfile before item owner after) {id : Id}
    (old : id < before.list.size) {above : PackageID} {dep : DependencyID}
    (meets : before.Meets lockfile above id dep) : after.Meets lockfile above id dep :=
  meets.stays turn.laid.rooted turn.inside turn.filled old

theorem nested_old (turn : Turn lockfile before item owner after) {id parent : Id}
    {depId : DependencyID} {above : PackageID}
    (isBelow : before.list.parent id = some parent)
    (nested : Nested lockfile before id parent depId above) :
    Nested lockfile after id parent depId above := by
  have old := parent_inside isBelow
  have higher := Forest.parent_lt isBelow
  have parentOld : parent < before.list.size := Nat.lt_trans higher old
  have notTop : id ≠ 0 := Nat.ne_of_gt (Nat.lt_of_le_of_lt (Nat.zero_le _) higher)
  refine
    { folder := (turn.filled.folders id old).trans nested.folder
      row := turn.rows_grow nested.row
      owned := nested.owned
      more := nested.more
      known := ?_, rows := ?_, meets := ?_ }
  · intro dep lists placeable
    obtain ⟨row, found⟩ := nested.known dep lists placeable
    exact ⟨row, lookup_stays turn.laid.rooted turn.inside turn.filled parentOld found⟩
  · rw [turn.rows_old old, if_neg notTop, List.append_nil, nested.rows]
    refine conflictsAbove_congr fun dep lists placeable => ?_
    obtain ⟨row, found⟩ := nested.known dep lists placeable
    rw [found, lookup_stays turn.laid.rooted turn.inside turn.filled parentOld found]
  · intro dep lists placeable
    exact turn.meets_stays old (nested.meets dep lists placeable)

theorem nested_own (turn : Turn lockfile before item owner after)
    (some : conflictsAbove lockfile before item.treeId owner ≠ []) :
    Nested lockfile after before.list.size item.treeId item.dependencyId owner where
  folder := turn.own.folder some
  row := turn.rows_grow turn.row
  owned := turn.owned
  more := (turn.laid.queued item List.mem_cons_self).more
  known := by
    intro dep lists placeable
    obtain ⟨row, found, _⟩ :=
      lookup_parent_after turn.laid.rooted turn.inside turn.filled lists placeable
    exact ⟨row, found⟩
  rows := turn.own.rows.trans
    (conflictsAbove_after turn.laid.rooted turn.inside turn.filled).symm
  meets := fun _ lists placeable =>
    meets_own turn.laid.rooted turn.inside turn.filled some lists placeable

theorem parent_cases (turn : Turn lockfile before item owner after) {id parent : Id}
    (isBelow : after.list.parent id = some parent) :
    (id < before.list.size ∧ before.list.parent id = some parent ∧
        after.folderOf id = before.folderOf id) ∨
      (id = before.list.size ∧ parent = item.treeId ∧
        conflictsAbove lockfile before item.treeId owner ≠ [] ∧
        after.folderOf id = some item.dependencyId) := by
  rcases turn.folder_cases (parent_inside isBelow) with old | ⟨isNew, some⟩
  · rw [turn.filled.parents id old] at isBelow
    exact Or.inl ⟨old, isBelow, turn.filled.folders id old⟩
  · subst isNew
    rw [turn.own.parent some] at isBelow
    exact Or.inr ⟨rfl, (Option.some.inj isBelow).symm, some, turn.own.folder some⟩

theorem folders (turn : Turn lockfile before item owner after) (id parent : Id)
    (isBelow : after.list.parent id = some parent) :
    ∃ depId above, Nested lockfile after id parent depId above := by
  rcases turn.parent_cases isBelow with ⟨_, belowBefore, _⟩ | ⟨isNew, isParent, some, _⟩
  · obtain ⟨depId, above, nested⟩ := turn.laid.folders id parent belowBefore
    exact ⟨depId, above, turn.nested_old belowBefore nested⟩
  · subst isNew isParent
    exact ⟨_, _, turn.nested_own some⟩

theorem noFolder (turn : Turn lockfile before item owner after) {id : Id}
    (isBelow : before.list.parent id = some item.treeId) :
    before.folderOf id ≠ some item.dependencyId :=
  (turn.laid.queued item List.mem_cons_self).noFolder id isBelow

theorem unique (turn : Turn lockfile before item owner after) (id other parent : Id)
    (isBelow : after.list.parent id = some parent)
    (otherBelow : after.list.parent other = some parent)
    (sameFolder : after.folderOf id = after.folderOf other) : id = other := by
  rcases turn.parent_cases isBelow with ⟨_, below, folder⟩ | ⟨isNew, isParent, _, folder⟩ <;>
    rcases turn.parent_cases otherBelow with
      ⟨_, otherBefore, otherFolder⟩ | ⟨otherNew, otherParent, _, otherFolder⟩
  · rw [folder, otherFolder] at sameFolder
    exact turn.laid.unique id other parent below otherBefore sameFolder
  · subst otherParent
    exact absurd (folder.symm.trans (sameFolder.trans otherFolder)) (turn.noFolder below)
  · subst isParent
    exact absurd (otherFolder.symm.trans (sameFolder.symm.trans folder))
      (turn.noFolder otherBefore)
  · rw [isNew, otherNew]

/-! ### The queue after a turn -/

def added (lockfile : Lockfile) (before : Builder) (parent : Id) (owner : PackageID) :
    List FillItem :=
  (placedDependencies lockfile before (some parent) owner).flatMap fun depId =>
    (folderFor lockfile before (some parent) owner depId).elim [] (fillItems lockfile depId)

theorem mem_fillItems {depId : DependencyID} {tree : Id} {queued : FillItem}
    (inItems : queued ∈ fillItems lockfile depId tree) :
    queued = ⟨tree, depId, none⟩ ∧ hasDependencies lockfile depId = true := by
  unfold fillItems at inItems
  split at inItems
  · exact ⟨List.mem_singleton.mp inItems, ‹_›⟩
  · cases inItems

theorem mem_added (turn : Turn lockfile before item owner after) {queued : FillItem}
    (isAdded : queued ∈ added lockfile before item.treeId owner) :
    queued.hoistRootId = none ∧ hasDependencies lockfile queued.dependencyId = true ∧
      ((queued.treeId = 0 ∧
          queued.dependencyId ∈ missingAbove lockfile before item.treeId owner) ∨
        (queued.treeId = before.list.size ∧
          queued.dependencyId ∈ conflictsAbove lockfile before item.treeId owner)) := by
  obtain ⟨depId, inList, inItems⟩ := List.mem_flatMap.mp isAdded
  cases takes : folderFor lockfile before (some item.treeId) owner depId with
  | none =>
      rw [takes] at inItems
      cases inItems
  | some tree =>
      rw [takes] at inItems
      obtain ⟨rfl, more⟩ := mem_fillItems inItems
      refine ⟨rfl, more, ?_⟩
      have inRows : depId ∈ rowsFor lockfile before (some item.treeId) owner tree :=
        List.mem_filter.mpr ⟨inList, beq_iff_eq.mpr takes⟩
      by_cases old : tree < before.list.size
      · rw [rowsFor_old turn.laid.rooted turn.inside old] at inRows
        split at inRows
        · exact Or.inl ⟨‹_›, inRows⟩
        · cases inRows
      · have isNew : tree = before.list.size := by
          rw [folderFor_below turn.laid.rooted turn.inside] at takes
          split at takes
          · cases found : before.lookup lockfile item.treeId (lockfile.nameHash depId) with
            | none =>
                rw [found] at takes
                cases takes
                exact absurd turn.laid.rooted.1 old
            | some row =>
                rw [found] at takes
                dsimp only [treeTaking] at takes
                split at takes
                · cases takes
                · cases takes
                  rfl
          · cases takes
        rw [isNew, rowsFor_new turn.laid.rooted turn.inside] at inRows
        exact Or.inr ⟨isNew, inRows⟩

theorem queue_eq (turn : Turn lockfile before item owner after) :
    after.queue = before.queue ++ added lockfile before item.treeId owner :=
  turn.filled.queue

theorem row_old (turn : Turn lockfile before item owner after) {queued : FillItem}
    (inQueue : queued ∈ before.queue) : queued.dependencyId ∈ before.rows queued.treeId :=
  (turn.laid.queued queued (List.mem_cons_of_mem _ inQueue)).row

theorem queued_old (turn : Turn lockfile before item owner after) {queued : FillItem}
    (inQueue : queued ∈ before.queue) : Queued lockfile after queued := by
  have wasQueued := turn.laid.queued queued (List.mem_cons_of_mem _ inQueue)
  refine ⟨turn.rows_grow wasQueued.row, wasQueued.noRoot, wasQueued.more, ?_⟩
  intro id isBelow sameFolder
  rcases turn.parent_cases isBelow with ⟨_, below, folder⟩ | ⟨_, isParent, _, folder⟩
  · exact wasQueued.noFolder id below (folder.symm.trans sameFolder)
  · -- The new folder is the one of the item that was taken out of the queue.
    have sameDep := Option.some.inj (folder.symm.trans sameFolder)
    have same : queued = item := by
      have itemRoot := (turn.laid.queued item List.mem_cons_self).noRoot
      have queuedRoot := wasQueued.noRoot
      obtain ⟨tree, dep, root⟩ := queued
      obtain ⟨itemTree, itemDep, itemRootId⟩ := item
      dsimp only at isParent sameDep itemRoot queuedRoot
      rw [isParent, sameDep, itemRoot, queuedRoot]
    exact (List.nodup_cons.mp turn.laid.queueNodup).1 (same ▸ inQueue)

theorem queued_added (turn : Turn lockfile before item owner after) {queued : FillItem}
    (isAdded : queued ∈ added lockfile before item.treeId owner) :
    Queued lockfile after queued := by
  obtain ⟨noRoot, more, atTop | inOwn⟩ := turn.mem_added isAdded
  · obtain ⟨isTop, missing⟩ := atTop
    refine ⟨?_, noRoot, more, ?_⟩
    · rw [isTop, turn.rows_old turn.laid.rooted.1, if_pos rfl]
      exact List.mem_append_right _ missing
    · rw [isTop]
      intro id isBelow sameFolder
      -- The folder would be one of a row that was at the top before.
      rcases turn.parent_cases isBelow with ⟨_, below, folder⟩ | ⟨_, isParent, _, folder⟩
      · obtain ⟨depId, above, nested⟩ := turn.laid.folders id 0 below
        have same := Option.some.inj
          (nested.folder.symm.trans (folder.symm.trans sameFolder))
        exact turn.not_named_top missing nested.row (congrArg lockfile.nameHash same)
      · have same := Option.some.inj (folder.symm.trans sameFolder)
        have rowAtTop := turn.row
        rw [← isParent] at rowAtTop
        exact turn.not_named_top missing rowAtTop (congrArg lockfile.nameHash same)
  · obtain ⟨isOwn, conflicts⟩ := inOwn
    refine ⟨?_, noRoot, more, ?_⟩
    · rw [isOwn, turn.own.rows]
      exact conflicts
    · rw [isOwn]
      intro id isBelow
      rcases turn.parent_cases isBelow with ⟨old, below, _⟩ | ⟨_, isParent, _, _⟩
      · exact absurd (Nat.lt_trans (Forest.parent_lt below) old) (Nat.lt_irrefl _)
      · exact absurd turn.inside (isParent ▸ Nat.lt_irrefl _)

theorem queued (turn : Turn lockfile before item owner after) (queued : FillItem)
    (inQueue : queued ∈ after.queue) : Queued lockfile after queued := by
  rw [turn.queue_eq] at inQueue
  rcases List.mem_append.mp inQueue with old | isAdded
  · exact turn.queued_old old
  · exact turn.queued_added isAdded

/-- The dependencies of the new items are dependencies of the package, in their order. -/
theorem map_added_sublist (lockfile : Lockfile) (takes : DependencyID → Option Id)
    (deps : List DependencyID) :
    ((deps.flatMap fun depId => (takes depId).elim [] (fillItems lockfile depId)).map
      FillItem.dependencyId).Sublist deps := by
  induction deps with
  | nil => exact List.Sublist.slnil
  | cons depId rest ih =>
      rw [List.flatMap_cons, List.map_append]
      have atMostOne : (((takes depId).elim [] (fillItems lockfile depId)).map
          FillItem.dependencyId).Sublist [depId] := by
        cases takes depId with
        | none => exact List.nil_sublist _
        | some tree =>
            dsimp only [Option.elim_some]
            unfold fillItems
            split
            · exact List.Sublist.refl _
            · exact List.nil_sublist _
      exact atMostOne.append ih

theorem nodup_added (lockfile : Lockfile) (before : Builder) (parent : Option Id)
    (owner : PackageID) :
    ((placedDependencies lockfile before parent owner).flatMap fun depId =>
      (folderFor lockfile before parent owner depId).elim [] (fillItems lockfile depId)).Nodup :=
  ((map_added_sublist lockfile _ _).nodup (nodup_firstOfEach _).of_map).of_map

theorem queueNodup (turn : Turn lockfile before item owner after) : after.queue.Nodup := by
  rw [turn.queue_eq, List.nodup_append]
  refine ⟨(List.nodup_cons.mp turn.laid.queueNodup).2, nodup_added lockfile before _ owner, ?_⟩
  intro old inQueue new isAdded same
  subst same
  have row := turn.row_old inQueue
  rcases (turn.mem_added isAdded).2.2 with ⟨isTop, missing⟩ | ⟨isOwn, _⟩
  · rw [isTop] at row
    exact turn.not_named_top missing row rfl
  · rw [isOwn, rows_outside (Nat.le_refl _)] at row
    cases row

theorem settled_placed (turn : Turn lockfile before item owner after) {id : Id}
    {row : DependencyID} (placed : row ∈ rowsFor lockfile before (some item.treeId) owner id) :
    Settled lockfile after after.queue id row := by
  obtain ⟨inPlaced, takes⟩ := List.mem_filter.mp placed
  refine settled_of_items fun queued inItems => ?_
  rw [turn.queue_eq]
  refine List.mem_append_right _ (List.mem_flatMap.mpr ⟨row, inPlaced, ?_⟩)
  rw [beq_iff_eq.mp takes, Option.elim_some]
  exact inItems

theorem settled (turn : Turn lockfile before item owner after) (id : Id) (row : DependencyID)
    (inRows : row ∈ after.rows id) : Settled lockfile after after.queue id row := by
  rcases turn.row_cases inRows with old | ⟨isTop, missing⟩ | ⟨isOwn, conflicts⟩
  · have oldFolder := rows_inside old
    rcases turn.laid.settled id row old with ⟨child, below, folder⟩ | inQueue | resolves
    · have childOld := parent_inside below
      refine Or.inl ⟨child, ?_, ?_⟩
      · rw [turn.filled.parents child childOld, below]
      · rw [turn.filled.folders child childOld, folder]
    · rcases List.mem_cons.mp inQueue with isItem | waiting
      · subst isItem
        by_cases none : conflictsAbove lockfile before id owner = []
        · refine Or.inr (Or.inr ?_)
          intro target isTarget dep lists placeable
          have sameOwner := Option.some.inj (turn.owned.symm.trans isTarget)
          subst sameOwner
          refine meets_parent turn.laid.rooted turn.inside turn.filled lists placeable ?_
          rw [none]
          exact fun _ impossible => absurd impossible List.not_mem_nil
        · exact Or.inl ⟨before.list.size, turn.own.parent none, turn.own.folder none⟩
      · refine Or.inr (Or.inl ?_)
        rw [turn.queue_eq]
        exact List.mem_append_left _ waiting
    · refine Or.inr (Or.inr ?_)
      intro target isTarget dep lists placeable
      exact turn.meets_stays oldFolder (resolves target isTarget dep lists placeable)
  · refine turn.settled_placed ?_
    rw [isTop, rowsFor_old turn.laid.rooted turn.inside turn.laid.rooted.1, if_pos rfl]
    exact missing
  · refine turn.settled_placed ?_
    rw [isOwn, rowsFor_new turn.laid.rooted turn.inside]
    exact conflicts

theorem laid_after (turn : Turn lockfile before item owner after) :
    Laid lockfile after after.queue where
  searchable := turn.searchable
  served := turn.filled.served.trans turn.laid.served
  rooted := turn.rooted
  topFolder := (turn.filled.folders 0 turn.laid.rooted.1).trans turn.laid.topFolder
  names := turn.names
  listed := turn.listed
  topMeets := fun dep lists placeable =>
    turn.meets_stays turn.laid.rooted.1 (turn.laid.topMeets dep lists placeable)
  folders := turn.folders
  unique := turn.unique
  queued := turn.queued
  queueNodup := turn.queueNodup
  settled := turn.settled

end Turn

end Turn

/-! ### The first turn -/

section FirstTurn

variable {after : Builder}

theorem searchable_new (lockfile : Lockfile) : Searchable lockfile (Builder.new lockfile) where
  resolutions := rfl
  consistent := fun _ _ => rfl
  rowsResolved := fun _ _ inRows => nomatch inRows
  idle := fun _ held => nomatch held

theorem folderFor_new (lockfile : Lockfile) (depId : DependencyID) :
    folderFor lockfile (Builder.new lockfile) none 0 depId =
      if lockfile.placeable depId then some 0 else none :=
  rfl

def firstRows (lockfile : Lockfile) : List DependencyID :=
  firstOfEach lockfile.nameHash
    ((sortedDependencies lockfile (lockfile.resolutionList 0)).filter lockfile.placeable)

theorem mem_firstRows {row : DependencyID} (inRows : row ∈ firstRows lockfile) :
    row ∈ lockfile.dependenciesOf 0 ∧ lockfile.placeable row = true := by
  obtain ⟨inList, placeable⟩ := List.mem_filter.mp ((firstOfEach_sublist _).subset inRows)
  exact ⟨mem_sortedDependencies.mp inList, placeable⟩

theorem placed_new (lockfile : Lockfile) :
    placedDependencies lockfile (Builder.new lockfile) none 0 = firstRows lockfile := by
  refine congrArg _ (List.filter_congr fun depId _ => ?_)
  rw [folderFor_new]
  cases lockfile.placeable depId <;> rfl

theorem rowsFor_first (lockfile : Lockfile) :
    rowsFor lockfile (Builder.new lockfile) none 0 (Builder.new lockfile).list.size =
      firstRows lockfile := by
  unfold rowsFor
  rw [placed_new, List.filter_eq_self]
  intro depId inRows
  rw [folderFor_new, if_pos (mem_firstRows inRows).2]
  rfl

theorem queue_first_nil (filled : Filled lockfile (Builder.new lockfile) none none 0 after)
    (noRows : firstRows lockfile = []) : after.queue = [] := by
  rw [filled.queue, placed_new, noRows]
  rfl

theorem laid_first (regular : lockfile.Regular)
    (filled : Filled lockfile (Builder.new lockfile) none none 0 after)
    (someRow : firstRows lockfile ≠ []) : Laid lockfile after after.queue := by
  have own := filled.own
  rw [rowsFor_first] at own
  have size : after.list.size = 1 := by
    rw [own.size, if_neg someRow]
    rfl
  have rowsTop : after.rows 0 = firstRows lockfile := own.rows
  have isTop : ∀ id, id < after.list.size → id = 0 := by
    intro id inside
    rw [size] at inside
    exact Nat.lt_one_iff.mp inside
  have noParent : ∀ id parent, after.list.parent id ≠ some parent := by
    intro id parent isBelow
    rw [isTop id (parent_inside isBelow), parent_zero] at isBelow
    cases isBelow
  have listed : ∀ id, ∀ row ∈ after.rows id, id = 0 ∧ lockfile.placeable row = true ∧
      row ∈ lockfile.dependenciesOf 0 := by
    intro id row inRows
    have atTop := isTop id (rows_inside inRows)
    rw [atTop, rowsTop] at inRows
    obtain ⟨lists, placeable⟩ := mem_firstRows inRows
    exact ⟨atTop, placeable, lists⟩
  have resolutions : after.resolutions = lockfile.resolutions := filled.resolutions
  refine
    { searchable :=
        { resolutions := resolutions, consistent := filled.consistent,
          rowsResolved := ?_, idle := filled.idle }
      served := filled.served
      rooted := ⟨size ▸ Nat.zero_lt_one, fun id inside _ => isTop id inside⟩
      topFolder := own.folder someRow
      names := ?_, listed := ?_, topMeets := ?_
      folders := fun id parent isBelow => absurd isBelow (noParent id parent)
      unique := fun id _ parent isBelow => absurd isBelow (noParent id parent)
      queued := ?_, queueNodup := ?_, settled := ?_ }
  · intro id row inRows
    obtain ⟨target, _, resolves⟩ := regular.resolution_isSome (listed id row inRows).2.2
    refine ⟨target, ?_⟩
    unfold Builder.resolution
    rw [resolutions]
    exact resolves
  · intro id
    rcases Nat.lt_or_ge id after.list.size with inside | outside
    · rw [isTop id inside, rowsTop]
      exact nodup_firstOfEach _
    · rw [rows_outside outside]
      exact List.nodup_nil
  · intro id row inRows
    obtain ⟨_, placeable, lists⟩ := listed id row inRows
    exact ⟨placeable, 0, .root, lists⟩
  · intro dep lists placeable
    have named : ((firstRows lockfile).find? fun row =>
        lockfile.nameHash row == lockfile.nameHash dep).isSome = true := by
      unfold firstRows
      rw [find?_firstOfEach, List.find?_isSome]
      exact ⟨dep, List.mem_filter.mpr ⟨mem_sortedDependencies.mpr lists, placeable⟩,
        beq_self_eq_true _⟩
    obtain ⟨row, found⟩ := Option.isSome_iff_exists.mp named
    refine ⟨row, ?_, Or.inr (mem_firstRows (List.mem_of_find?_eq_some found)).1⟩
    rw [Builder.lookup_top (parent_zero _)]
    unfold Builder.rowNamed
    rw [rowsTop, found]
  · intro item inQueue
    rw [filled.queue, placed_new] at inQueue
    obtain ⟨depId, inRows, inItems⟩ := List.mem_flatMap.mp inQueue
    rw [folderFor_new, if_pos (mem_firstRows inRows).2] at inItems
    obtain ⟨rfl, more⟩ := Turn.mem_fillItems inItems
    refine ⟨?_, rfl, more, fun id isBelow => absurd isBelow (noParent id 0)⟩
    rw [rowsTop]
    exact inRows
  · rw [filled.queue]
    exact Turn.nodup_added lockfile _ none 0
  · intro id row inRows
    obtain ⟨atTop, placeable, _⟩ := listed id row inRows
    subst atTop
    refine settled_of_items fun item inItems => ?_
    rw [filled.queue, placed_new]
    refine List.mem_append_right _ (List.mem_flatMap.mpr ⟨row, rowsTop ▸ inRows, ?_⟩)
    rw [folderFor_new, if_pos placeable]
    exact inItems

end FirstTurn

/-! ### Runs -/

/-- The first turn finds nothing to place, or leaves the invariant. -/
theorem processSubtree_root (regular : lockfile.Regular) (detects : Bool) :
    ∃ first, processSubtree lockfile detects (Builder.new lockfile) none none none = .ok first ∧
      ((first.list.size = 0 ∧ first.queue = [] ∧ first.served = [] ∧
          ∀ dep ∈ lockfile.dependenciesOf 0, lockfile.placeable dep = false) ∨
        (first.list.size = 1 ∧ Laid lockfile first first.queue)) := by
  by_cases nothing : (lockfile.resolutionList 0).len = 0
  · refine ⟨Builder.new lockfile, ?_, Or.inl ⟨rfl, rfl, rfl, ?_⟩⟩
    · unfold processSubtree
      rw [Option.elim_none]
      dsimp only
      rw [if_pos nothing]
    · intro dep lists
      unfold Lockfile.dependenciesOf DependencyIDSlice.ids at lists
      rw [nothing] at lists
      cases lists
  · rcases processSubtree_regular regular (searchable_new lockfile) none nofun none rfl nothing
        detects with
      ⟨period, checked, _⟩ | ⟨_, after, processed, filled⟩
    · unfold checkedPeriod at checked
      cases detects <;> cases checked
    · refine ⟨after, processed, ?_⟩
      have size := filled.own.size
      rw [rowsFor_first] at size
      by_cases noRows : firstRows lockfile = []
      · rw [if_pos noRows] at size
        refine Or.inl ⟨size, queue_first_nil filled noRows, filled.served, fun dep lists => ?_⟩
        rw [Bool.eq_false_iff]
        intro placeable
        have named : lockfile.nameHash dep ∈ (firstRows lockfile).map lockfile.nameHash :=
          (mem_map_firstOfEach _ _).mpr (List.mem_map.mpr
            ⟨dep, List.mem_filter.mpr ⟨mem_sortedDependencies.mpr lists, placeable⟩, rfl⟩)
        rw [noRows] at named
        cases named
      · rw [if_neg noRows] at size
        exact Or.inr ⟨size, laid_first regular filled noRows⟩

/-- A turn of the loop reports repeated rounds or leaves the invariant. -/
theorem processItem (regular : lockfile.Regular) {builder : Builder} {item : FillItem}
    {rest : List FillItem} (laid : Laid lockfile builder (item :: rest)) (detects : Bool) :
    ∃ owner, lockfile.resolution item.dependencyId = some owner ∧
      ((∃ period, checkedPeriod detects { builder with queue := rest } (some item.treeId)
          (some item.dependencyId) = some period ∧
        processSubtree lockfile detects { builder with queue := rest } (some item.treeId)
          (some item.dependencyId) item.hoistRootId =
            .error (.endlessNesting (some item.treeId) (some item.dependencyId) period)) ∨
      (checkedPeriod detects { builder with queue := rest } (some item.treeId)
          (some item.dependencyId) = none ∧
        ∃ after, processSubtree lockfile detects { builder with queue := rest } (some item.treeId)
          (some item.dependencyId) item.hoistRootId = .ok after ∧
            Turn lockfile { builder with queue := rest } item owner after)) := by
  have here := laid.withQueue rest
  have queued := laid.queued item List.mem_cons_self
  have more := queued.more
  unfold hasDependencies at more
  split at more
  · cases more
  · rename_i owner owned
    refine ⟨owner, owned, ?_⟩
    rw [queued.noRoot]
    have nonempty : (lockfile.resolutionList owner).len ≠ 0 :=
      Nat.ne_of_gt (of_decide_eq_true more)
    rcases processSubtree_regular regular here.searchable (some item.treeId)
        (fun id isParent => Option.some.inj isParent ▸ rows_inside queued.row)
        (some item.dependencyId) owned nonempty detects with
      reported | ⟨unchecked, after, processed, filled⟩
    · exact Or.inl reported
    · exact Or.inr ⟨unchecked, after, processed, regular, here, owned, filled⟩

/-- A finished loop has the invariant with nothing left to process. -/
theorem fillQueue_finished (regular : lockfile.Regular) {detects : Bool} (steps : Nat) :
    ∀ {builder : Builder} {result : CleanResult} {late : Bool},
      Laid lockfile builder builder.queue →
      fillQueue lockfile detects steps builder = .finished result late →
      ∃ final, Laid lockfile final [] ∧ result = (bindServedPeers lockfile final).clean := by
  induction steps with
  | zero =>
      intro builder result late laid finished
      cases waiting : builder.queue with
      | nil =>
          rw [fillQueue_nil lockfile detects 0 waiting] at finished
          rw [waiting] at laid
          cases finished
          exact ⟨builder, laid, rfl⟩
      | cons item rest =>
          rw [fillQueue_zero lockfile detects waiting] at finished
          cases finished
  | succ steps ih =>
      intro builder result late laid finished
      cases waiting : builder.queue with
      | nil =>
          rw [fillQueue_nil lockfile detects _ waiting] at finished
          rw [waiting] at laid
          cases finished
          exact ⟨builder, laid, rfl⟩
      | cons item rest =>
          rw [fillQueue_succ lockfile detects steps waiting] at finished
          rw [waiting] at laid
          obtain ⟨owner, _, ⟨_, _, processed⟩ | ⟨_, after, processed, turn⟩⟩ :=
            processItem regular laid detects
          · rw [processed] at finished
            cases finished
          · rw [processed] at finished
            exact ih turn.laid_after finished

end Bun.Install
