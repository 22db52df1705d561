/-
Repeated rounds of folders nest without end.

From the ends of two consecutive rounds that the check takes for the same every name is
found as the same row, so the next folder has the rows of the folder one round above it,
and the folder below that one follows.
-/

import Bun.Install.NodeResolution

set_option autoImplicit false

namespace Bun.Install

open Bun.Foundation

variable {lockfile : Lockfile}

/-! ### Rounds -/

inductive Ascends (builder : Builder) : Nat → Id → Id → Prop where
  | here (id : Id) : Ascends builder 0 id id
  | up {levels : Nat} {id parent top : Id} :
      builder.list.parent id = some parent → Ascends builder levels parent top →
        Ascends builder (levels + 1) id top

/-- Two folders of the same package, the lower with a prefix of the other's rows, and so some
levels up. -/
inductive Parallel (builder : Builder) : Nat → Id → Id → Prop where
  | here (id other : Id) : Parallel builder 0 id other
  | up {levels : Nat} {id other parent otherParent : Id} :
      builder.folderOf id = builder.folderOf other → builder.rows id <+: builder.rows other →
        builder.list.parent id = some parent → builder.list.parent other = some otherParent →
        Parallel builder levels parent otherParent → Parallel builder (levels + 1) id other

theorem Parallel.pred {builder : Builder} {levels : Nat} {id other : Id}
    (parallel : Parallel builder (levels + 1) id other) : Parallel builder levels id other := by
  induction levels generalizing id other with
  | zero => exact .here id other
  | succ levels ih =>
      cases parallel with
      | up sameFolder rows isBelow otherBelow rest =>
          exact .up sameFolder rows isBelow otherBelow (ih rest)

theorem Ascends.last {builder : Builder} {levels : Nat} {id top : Id}
    (ascends : Ascends builder (levels + 1) id top) :
    ∃ below, Ascends builder levels id below ∧ builder.list.parent below = some top := by
  induction levels generalizing id with
  | zero =>
      cases ascends with
      | up isBelow rest =>
          cases rest with
          | here => exact ⟨id, .here id, isBelow⟩
  | succ levels ih =>
      cases ascends with
      | up isBelow rest =>
          obtain ⟨below, ascends, isTop⟩ := ih rest
          exact ⟨below, .up isBelow ascends, isTop⟩

section Laid

variable {builder : Builder} {queue : List FillItem}

theorem Laid.nested_pair (laid : Laid lockfile builder queue) {id other parent otherParent : Id}
    (sameFolder : builder.folderOf id = builder.folderOf other)
    (isBelow : builder.list.parent id = some parent)
    (otherBelow : builder.list.parent other = some otherParent) :
    ∃ depId owner, Nested lockfile builder id parent depId owner ∧
      Nested lockfile builder other otherParent depId owner := by
  obtain ⟨depId, owner, nested⟩ := laid.folders id parent isBelow
  obtain ⟨otherDep, otherOwner, otherNested⟩ := laid.folders other otherParent otherBelow
  have sameDep : depId = otherDep :=
    Option.some.inj (nested.folder.symm.trans (sameFolder.trans otherNested.folder))
  subst sameDep
  have sameOwner := Option.some.inj (nested.owned.symm.trans otherNested.owned)
  subst sameOwner
  exact ⟨depId, owner, nested, otherNested⟩

/-- A name is found from the lower of two parallel folders as from the other one, or as from the
top of the lower way up.  A row that only the upper way has would be a conflict on the lower
one too. -/
theorem Laid.lookup_parallel (laid : Laid lockfile builder queue) {levels : Nat}
    {id other top : Id} (parallel : Parallel builder levels id other)
    (ascends : Ascends builder levels id top) (name : PackageNameHash) :
    builder.lookup lockfile id name = builder.lookup lockfile other name ∨
      builder.lookup lockfile id name = builder.lookup lockfile top name := by
  induction parallel with
  | here id other =>
      cases ascends
      exact Or.inr rfl
  | @up levels id other parent otherParent sameFolder rows isBelow otherBelow _ ih =>
      cases ascends with
      | @up _ _ above _ below rest =>
          have sameParent := Option.some.inj (isBelow.symm.trans below)
          subst sameParent
          rw [Builder.lookup_below isBelow, Builder.lookup_below otherBelow]
          cases named : builder.rowNamed lockfile name id with
          | some row =>
              obtain ⟨more, isWhole⟩ := rows
              refine Or.inl ?_
              unfold Builder.rowNamed at named ⊢
              rw [← isWhole, List.find?_append, named]
              rfl
          | none =>
              rcases ih rest with same | same
              · obtain ⟨_, owner, left, right⟩ := laid.nested_pair sameFolder isBelow otherBelow
                have otherNamed : builder.rowNamed lockfile name other = none := by
                  unfold Builder.rowNamed at named ⊢
                  rw [right.rows, ← find?_conflictsAbove_congr owner same, ← left.rows]
                  exact named
                rw [otherNamed, same]
                exact Or.inl rfl
              · exact Or.inr same

end Laid

/-! ### A third round -/

/-- A row of a folder that ends two rounds of the same folders, for the package of the folder that
began the second round. -/
structure Doomed (builder : Builder) (tree : Id) (depId : DependencyID) (levels : Nat)
    (first above : Id) : Prop where
  ascends : Ascends builder levels tree first
  below : builder.list.parent first = some above
  folder : builder.folderOf first = some depId
  parallel : Parallel builder (levels + 1) tree above

theorem Ascends.snoc {builder : Builder} {levels : Nat} {id top above : Id}
    (ascends : Ascends builder levels id top) (isBelow : builder.list.parent top = some above) :
    Ascends builder (levels + 1) id above := by
  induction ascends with
  | here id => exact .up isBelow (.here above)
  | up below _ ih => exact .up below (ih isBelow)

theorem Doomed.lookup_eq {builder : Builder} {queue : List FillItem} {tree first above : Id}
    {depId : DependencyID} {levels : Nat} (doomed : Doomed builder tree depId levels first above)
    (laid : Laid lockfile builder queue) (name : PackageNameHash) :
    builder.lookup lockfile tree name = builder.lookup lockfile above name :=
  (laid.lookup_parallel doomed.parallel (doomed.ascends.snoc doomed.below) name).elim id id

structure Keeps (before after : Builder) : Prop where
  parents : ∀ id < before.list.size, after.list.parent id = before.list.parent id
  folders : ∀ id < before.list.size, after.folderOf id = before.folderOf id
  rows : ∀ id parent, before.list.parent id = some parent → after.rows id = before.rows id

section Keeps

variable {before after : Builder}

theorem Keeps.parent (keeps : Keeps before after) {id parent : Id}
    (isBelow : before.list.parent id = some parent) : after.list.parent id = some parent :=
  (keeps.parents id (parent_inside isBelow)).trans isBelow

theorem Keeps.ascends (keeps : Keeps before after) {levels : Nat} {id top : Id}
    (ascends : Ascends before levels id top) : Ascends after levels id top := by
  induction ascends with
  | here id => exact .here id
  | up isBelow _ ih => exact .up (keeps.parent isBelow) ih

theorem Keeps.parallel (keeps : Keeps before after) {levels : Nat} {id other : Id}
    (parallel : Parallel before levels id other) : Parallel after levels id other := by
  induction parallel with
  | here id other => exact .here id other
  | up sameFolder rows isBelow otherBelow _ ih =>
      refine .up ?_ ?_ (keeps.parent isBelow) (keeps.parent otherBelow) ih
      · rw [keeps.folders _ (parent_inside isBelow), keeps.folders _ (parent_inside otherBelow),
          sameFolder]
      · rw [keeps.rows _ _ isBelow, keeps.rows _ _ otherBelow]
        exact rows

theorem Keeps.doomed (keeps : Keeps before after) {tree first above : Id}
    {depId : DependencyID} {levels : Nat} (doomed : Doomed before tree depId levels first above) :
    Doomed after tree depId levels first above where
  ascends := keeps.ascends doomed.ascends
  below := keeps.parent doomed.below
  folder := (keeps.folders _ (parent_inside doomed.below)).trans doomed.folder
  parallel := keeps.parallel doomed.parallel

theorem Doomed.of_list {tree first above : Id} {depId : DependencyID} {levels : Nat}
    (doomed : Doomed before tree depId levels first above) (sameList : after.list = before.list) :
    Doomed after tree depId levels first above := by
  refine Keeps.doomed ⟨fun id _ => by rw [sameList], fun id _ => ?_, fun id _ _ => ?_⟩ doomed
  · unfold Builder.folderOf
    rw [sameList]
  · unfold Builder.rows
    rw [sameList]

end Keeps

section Turn

variable {before after : Builder} {item : FillItem} {owner : PackageID}

namespace Turn

theorem keeps (turn : Turn lockfile before item owner after) : Keeps before after where
  parents := turn.filled.parents
  folders := turn.filled.folders
  rows := by
    intro id parent isBelow
    have notTop : id ≠ 0 :=
      Nat.ne_of_gt (Nat.lt_of_le_of_lt (Nat.zero_le _) (Forest.parent_lt isBelow))
    rw [turn.rows_old (parent_inside isBelow), if_neg notTop, List.append_nil]

/-- The folder that begins the third round has the rows of the one that began the second. -/
theorem conflicts_of_doomed (turn : Turn lockfile before item owner after) {first above : Id}
    {levels : Nat} (doomed : Doomed before item.treeId item.dependencyId levels first above) :
    conflictsAbove lockfile before item.treeId owner = before.rows first := by
  obtain ⟨depId, firstOwner, nested⟩ := turn.laid.folders first above doomed.below
  have sameDep : depId = item.dependencyId :=
    Option.some.inj (nested.folder.symm.trans doomed.folder)
  subst sameDep
  have sameOwner := Option.some.inj (nested.owned.symm.trans turn.owned)
  subst sameOwner
  rw [nested.rows]
  exact conflictsAbove_congr fun dep _ _ => doomed.lookup_eq turn.laid _

theorem mem_queue_of_conflict (turn : Turn lockfile before item owner after)
    {depId : DependencyID} (conflicts : depId ∈ conflictsAbove lockfile before item.treeId owner)
    (more : hasDependencies lockfile depId = true) :
    (⟨before.list.size, depId, none⟩ : FillItem) ∈ after.queue := by
  rw [← rowsFor_new turn.laid.rooted turn.inside] at conflicts
  obtain ⟨inList, takes⟩ := List.mem_filter.mp conflicts
  rw [turn.queue_eq]
  refine List.mem_append_right _ (List.mem_flatMap.mpr ⟨depId, inList, ?_⟩)
  rw [beq_iff_eq.mp takes, Option.elim_some]
  unfold fillItems
  rw [if_pos more]
  exact List.mem_singleton.mpr rfl

theorem doomed_next (turn : Turn lockfile before item owner after) {first above : Id}
    {levels : Nat} (doomed : Doomed before item.treeId item.dependencyId levels first above) :
    ∃ depId below, (⟨before.list.size, depId, none⟩ : FillItem) ∈ after.queue ∧
      Doomed after before.list.size depId levels below first := by
  have conflictsEq := turn.conflicts_of_doomed doomed
  have firstInside := parent_inside doomed.below
  have parallelNext : ∀ rest : conflictsAbove lockfile before item.treeId owner ≠ [],
      Parallel after (levels + 1) before.list.size first := by
    intro some
    refine .up ?_ ?_ (turn.own.parent some)
      ((turn.filled.parents first firstInside).trans doomed.below)
      (turn.keeps.parallel doomed.parallel.pred)
    · rw [turn.own.folder some, turn.filled.folders first firstInside, doomed.folder]
    · exact ⟨[], by
        rw [turn.own.rows, turn.keeps.rows first above doomed.below, conflictsEq,
          List.append_nil]⟩
  cases levels with
  | zero =>
      cases doomed.ascends with
      | here =>
          have conflicts : item.dependencyId ∈
              conflictsAbove lockfile before item.treeId owner := by
            rw [conflictsEq]
            exact turn.row
          have some := List.ne_nil_of_mem conflicts
          refine ⟨item.dependencyId, before.list.size, turn.mem_queue_of_conflict conflicts
            (turn.laid.queued item List.mem_cons_self).more, ?_⟩
          exact
            { ascends := .here _
              below := turn.own.parent some
              folder := turn.own.folder some
              parallel := parallelNext some }
  | succ levels =>
      obtain ⟨below, ascends, isBelow⟩ := doomed.ascends.last
      obtain ⟨depId, belowOwner, nested⟩ := turn.laid.folders below first isBelow
      have belowInside := parent_inside isBelow
      have conflicts : depId ∈ conflictsAbove lockfile before item.treeId owner := by
        rw [conflictsEq]
        exact nested.row
      have some := List.ne_nil_of_mem conflicts
      refine ⟨depId, below, turn.mem_queue_of_conflict conflicts nested.more, ?_⟩
      exact
        { ascends := .up (turn.own.parent some) (turn.keeps.ascends ascends)
          below := (turn.filled.parents below belowInside).trans isBelow
          folder := (turn.filled.folders below belowInside).trans nested.folder
          parallel := parallelNext some }

end Turn

end Turn

/-- Without the check the loop never ends once a doomed row is queued. -/
theorem fillQueue_doomed (regular : lockfile.Regular) (steps : Nat) :
    ∀ {builder : Builder}, Laid lockfile builder builder.queue →
      (∃ queued ∈ builder.queue, ∃ levels first above,
        Doomed builder queued.treeId queued.dependencyId levels first above) →
      fillQueue lockfile false steps builder = .unfinished := by
  induction steps with
  | zero =>
      intro builder _ someDoomed
      obtain ⟨queued, inQueue, _⟩ := someDoomed
      cases waiting : builder.queue with
      | nil =>
          rw [waiting] at inQueue
          cases inQueue
      | cons item rest => exact fillQueue_zero lockfile false waiting
  | succ steps ih =>
      intro builder laid someDoomed
      obtain ⟨queued, inQueue, levels, first, above, doomed⟩ := someDoomed
      cases waiting : builder.queue with
      | nil =>
          rw [waiting] at inQueue
          cases inQueue
      | cons item rest =>
          rw [waiting] at inQueue laid
          rw [fillQueue_succ lockfile false steps waiting]
          obtain ⟨owner, _, ⟨_, checked, _⟩ | ⟨_, after, processed, turn⟩⟩ :=
            processItem regular laid false
          · cases checked
          · rw [processed]
            refine ih turn.laid_after ?_
            -- The doomed row is the one that is processed, or it stays in the queue.
            have doomedHere : Doomed { builder with queue := rest } queued.treeId
                queued.dependencyId levels first above :=
              doomed.of_list rfl
            rcases List.mem_cons.mp inQueue with isItem | waits
            · subst isItem
              obtain ⟨depId, below, inNext, next⟩ := turn.doomed_next doomedHere
              exact ⟨_, inNext, levels, below, first, next⟩
            · refine ⟨queued, ?_, levels, first, above, turn.keeps.doomed doomedHere⟩
              rw [turn.queue_eq]
              exact List.mem_append_left _ waits

/-! ### What the check finds -/

theorem ascends_of_getElem? {builder : Builder} {levels : Nat} {id top : Id}
    (found : (builder.list.chain id)[levels]? = some top) : Ascends builder levels id top := by
  induction levels generalizing id with
  | zero =>
      rw [Forest.chain_eq_cons, List.getElem?_cons_zero] at found
      cases found
      exact .here _
  | succ levels ih =>
      cases isBelow : builder.list.parent id with
      | none =>
          rw [Forest.chain_top isBelow] at found
          cases found
      | some parent =>
          rw [Forest.chain_below isBelow, List.getElem?_cons_succ] at found
          exact .up isBelow (ih found)

theorem Ascends.chain_drop {builder : Builder} {levels : Nat} {id top : Id}
    (ascends : Ascends builder levels id top) :
    (builder.list.chain id).drop levels = builder.list.chain top := by
  induction ascends with
  | here id => rfl
  | up isBelow _ ih => rw [Forest.chain_below isBelow, List.drop_succ_cons, ih]

theorem sameFolders_succ {builder : Builder} {period : Nat} {lower upper : Id}
    {lowers uppers : List Id}
    (same : builder.sameFolders (period + 1) (lower :: lowers) (upper :: uppers) = period + 1) :
    builder.folderOf lower = builder.folderOf upper ∧
      builder.rows lower <+: builder.rows upper ∧
      builder.sameFolders period lowers uppers = period := by
  rw [Builder.sameFolders] at same
  split at same
  · rename_i both
    exact ⟨both.1, List.isPrefixOf_iff_prefix.mp both.2, Nat.succ.inj same⟩
  · cases same

theorem repeatingPeriod_of_list (builder other : Builder) (sameList : other.list = builder.list)
    (chain : List Id) (dependencyId : Option DependencyID) :
    other.repeatingPeriod chain dependencyId = builder.repeatingPeriod chain dependencyId := by
  have folders : ∀ id, other.folderOf id = builder.folderOf id := by
    intro id
    unfold Builder.folderOf
    rw [sameList]
  have rows : ∀ id, other.rows id = builder.rows id := by
    intro id
    unfold Builder.rows
    rw [sameList]
  have same : ∀ period lowers uppers,
      other.sameFolders period lowers uppers = builder.sameFolders period lowers uppers := by
    intro period lowers uppers
    induction period, lowers, uppers using Builder.sameFolders.induct builder with
    | case1 period lower lowers upper uppers both ih =>
        rw [Builder.sameFolders, Builder.sameFolders, folders, folders, rows, rows, ih]
    | case2 period lower lowers upper uppers different =>
        rw [Builder.sameFolders, Builder.sameFolders, folders, folders, rows, rows,
          if_neg different, if_neg different]
    | case3 period lowers uppers other' =>
        rw [Builder.sameFolders, Builder.sameFolders]
        · exact other'
        · exact other'
  have fromRest : ∀ rest count, other.repeatingFrom chain dependencyId count rest =
      builder.repeatingFrom chain dependencyId count rest := by
    intro rest
    induction rest with
    | nil =>
        intro count
        rfl
    | cons roundStart above ih =>
        intro count
        rw [Builder.repeatingFrom, Builder.repeatingFrom, folders, same, ih]
  exact fromRest chain 1

theorem Laid.parallel_of_sameFolders {builder : Builder} {queue : List FillItem}
    (laid : Laid lockfile builder queue) {levels period : Nat} {id top : Id}
    (ascends : Ascends builder (levels + 1) id top)
    (same : builder.sameFolders period (builder.list.chain id) (builder.list.chain top) =
      period) : Parallel builder period id top := by
  induction period generalizing id top with
  | zero => exact .here id top
  | succ period ih =>
      rw [Forest.chain_eq_cons builder.list id, Forest.chain_eq_cons builder.list top] at same
      obtain ⟨sameFolder, rows, rest⟩ := sameFolders_succ same
      cases ascends with
      | @up _ _ parent _ isBelow ascends =>
          obtain ⟨depId, owner, nested⟩ := laid.folders id parent isBelow
          cases topBelow : builder.list.parent top with
          | none =>
              -- The top folder has no dependency, and the folder below it has one.
              have inside : top < builder.list.size := by
                cases ascends with
                | here => exact Nat.lt_trans (Forest.parent_lt isBelow) (parent_inside isBelow)
                | up below rest =>
                    obtain ⟨last, _, isLast⟩ := (Ascends.up below rest).last
                    exact Nat.lt_trans (Forest.parent_lt isLast) (parent_inside isLast)
              rw [laid.rooted.2 top inside topBelow, laid.topFolder, nested.folder] at sameFolder
              cases sameFolder
          | some above =>
              rw [Forest.chain_below isBelow, Forest.chain_below topBelow, List.tail_cons,
                List.tail_cons] at rest
              exact .up sameFolder rows isBelow topBelow (ih (ascends.snoc topBelow) rest)

theorem repeatingFrom_some {builder : Builder} {chain rest : List Id}
    {dependencyId : Option DependencyID} {count period : Nat}
    (found : builder.repeatingFrom chain dependencyId count rest = some period) :
    ∃ index start, period = count + index ∧ rest[index]? = some start ∧
      builder.folderOf start = dependencyId ∧
      builder.sameFolders period chain (rest.drop (index + 1)) = period := by
  induction rest generalizing count with
  | nil => cases found
  | cons roundStart above ih =>
      rw [Builder.repeatingFrom] at found
      split at found
      · rename_i both
        cases found
        exact ⟨0, roundStart, rfl, rfl, both.1, both.2⟩
      · obtain ⟨index, start, isPeriod, isStart, folder, same⟩ := ih found
        exact ⟨index + 1, start, by omega, isStart, folder, same⟩

theorem repeatingFrom_ne_none {builder : Builder} {chain rest : List Id}
    {dependencyId : Option DependencyID} {count index : Nat} {start : Id}
    (isStart : rest[index]? = some start) (folder : builder.folderOf start = dependencyId)
    (same : builder.sameFolders (count + index) chain (rest.drop (index + 1)) = count + index) :
    builder.repeatingFrom chain dependencyId count rest ≠ none := by
  induction rest generalizing count index with
  | nil => cases isStart
  | cons roundStart above ih =>
      rw [Builder.repeatingFrom]
      split
      · exact Option.some_ne_none _
      · rename_i other
        cases index with
        | zero =>
            cases isStart
            exact absurd ⟨folder, same⟩ other
        | succ index =>
            have next : above[index]? = some start := isStart
            have sum : count + (index + 1) = count + 1 + index := by omega
            rw [List.drop_succ_cons, sum] at same
            exact ih next same

theorem Laid.doomed_of_report {builder : Builder} {queue : List FillItem}
    (laid : Laid lockfile builder queue) {tree : Id} {depId : DependencyID} {period : Nat}
    (report : builder.repeatingPeriod (builder.list.chain tree) (some depId) = some period) :
    ∃ levels first above, Doomed builder tree depId levels first above := by
  obtain ⟨index, start, isPeriod, isStart, folder, same⟩ := repeatingFrom_some report
  have ascends := ascends_of_getElem? isStart
  have dropEq : (builder.list.chain tree).drop (index + 1) = (builder.list.chain start).tail := by
    rw [← List.tail_drop, ascends.chain_drop]
  rw [dropEq, isPeriod, Nat.add_comm 1 index] at same
  cases isBelow : builder.list.parent start with
  | none =>
      rw [Forest.chain_top isBelow, List.tail_cons, Forest.chain_eq_cons] at same
      cases same
  | some above =>
      rw [Forest.chain_below isBelow, List.tail_cons] at same
      exact ⟨index, start, above, ascends, isBelow, folder,
        laid.parallel_of_sameFolders (ascends.snoc isBelow) same⟩

/-! ### The loop without the check -/

theorem processSubtree_unchecked {builder after : Builder} {parent : Option Id}
    {dependencyId : Option DependencyID} {hoistRootId : Option Id}
    (processed : processSubtree lockfile true builder parent dependencyId hoistRootId =
      .ok after) :
    processSubtree lockfile false builder parent dependencyId hoistRootId = .ok after := by
  unfold processSubtree at processed ⊢
  split at processed
  · cases processed
  · dsimp only at processed ⊢
    split at processed
    · rename_i empty
      rw [if_pos empty]
      exact processed
    · rename_i nonempty
      rw [if_neg nonempty]
      split at processed
      · rename_i linked
        rw [if_pos linked]
        exact processed
      · rename_i unlinked
        rw [if_neg unlinked]
        split at processed
        · cases processed
        · exact processed

/-- A loop that reports repeated rounds would never end without the check. -/
theorem fillQueue_reported (regular : lockfile.Regular) (steps : Nat) :
    ∀ {builder : Builder} {parent : Option Id} {dependencyId : Option DependencyID}
      {period : Nat}, Laid lockfile builder builder.queue →
      fillQueue lockfile true steps builder =
        .crashed (.endlessNesting parent dependencyId period) →
      ∀ turns, fillQueue lockfile false turns builder = .unfinished := by
  induction steps with
  | zero =>
      intro builder parent dependencyId period laid reported
      cases waiting : builder.queue with
      | nil =>
          rw [fillQueue_nil lockfile true 0 waiting] at reported
          cases reported
      | cons item rest =>
          rw [fillQueue_zero lockfile true waiting] at reported
          cases reported
  | succ steps ih =>
      intro builder parent dependencyId period laid reported turns
      cases waiting : builder.queue with
      | nil =>
          rw [fillQueue_nil lockfile true _ waiting] at reported
          cases reported
      | cons item rest =>
          have laidHere : Laid lockfile builder (item :: rest) := waiting ▸ laid
          rw [fillQueue_succ lockfile true steps waiting] at reported
          obtain ⟨owner, _, ⟨found, checked, _⟩ | ⟨_, after, processed, turn⟩⟩ :=
            processItem regular laidHere true
          · obtain ⟨levels, first, above, doomed⟩ :=
              (laidHere.withQueue rest).doomed_of_report checked
            refine fillQueue_doomed regular turns laid
              ⟨item, ?_, levels, first, above, doomed.of_list rfl⟩
            rw [waiting]
            exact List.mem_cons_self
          · rw [processed] at reported
            cases turns with
            | zero => exact fillQueue_zero lockfile false waiting
            | succ turns =>
                rw [fillQueue_succ lockfile false turns waiting,
                  processSubtree_unchecked processed]
                exact ih turn.laid_after reported turns

end Bun.Install
