/-
The loop of `hoist` ends.

In an endless run every queued row is processed, and folders are nested as deep as one
likes.  On a deep enough way up two folders of one package see the same rows, so what is
between them is repeated below the lower one, and the check reports it.
-/

import Bun.Foundation.FairQueue
import Bun.Install.EndlessNesting
import Mathlib.Data.Fintype.Pigeonhole
import Mathlib.Data.Fintype.Pi
import Mathlib.Data.Fintype.Option
import Mathlib.Data.Fintype.Prod

set_option autoImplicit false

namespace Bun.Install

open Bun.Foundation

variable {lockfile : Lockfile}

/-! ### What later turns keep -/

structure Grows (lockfile : Lockfile) (before after : Builder) : Prop where
  keeps : Keeps before after
  size : before.list.size ≤ after.list.size
  lookups : ∃ gained : PackageNameHash → Option DependencyID, ∀ id < before.list.size,
    ∀ name, after.lookup lockfile id name = (before.lookup lockfile id name).or (gained name)

theorem Grows.refl (lockfile : Lockfile) (builder : Builder) : Grows lockfile builder builder where
  keeps := ⟨fun _ _ => rfl, fun _ _ => rfl, fun _ _ _ => rfl⟩
  size := Nat.le_refl _
  lookups := ⟨fun _ => none, fun _ _ _ => (Option.or_none).symm⟩

theorem Grows.trans {first second third : Builder} (left : Grows lockfile first second)
    (right : Grows lockfile second third) : Grows lockfile first third where
  keeps :=
    ⟨fun id inside => (right.keeps.parents id (Nat.lt_of_lt_of_le inside left.size)).trans
        (left.keeps.parents id inside),
      fun id inside => (right.keeps.folders id (Nat.lt_of_lt_of_le inside left.size)).trans
        (left.keeps.folders id inside),
      fun id parent isBelow => (right.keeps.rows id parent (left.keeps.parent isBelow)).trans
        (left.keeps.rows id parent isBelow)⟩
  size := Nat.le_trans left.size right.size
  lookups := by
    obtain ⟨leftGained, leftEq⟩ := left.lookups
    obtain ⟨rightGained, rightEq⟩ := right.lookups
    refine ⟨fun name => (leftGained name).or (rightGained name), ?_⟩
    intro id inside name
    rw [rightEq id (Nat.lt_of_lt_of_le inside left.size), leftEq id inside, Option.or_assoc]

theorem Turn.grows {before after : Builder} {item : FillItem} {owner : PackageID}
    (turn : Turn lockfile before item owner after) : Grows lockfile before after where
  keeps := turn.keeps
  size := by
    rw [turn.own.size]
    exact Nat.le_add_right _ _
  lookups := ⟨gainedRow lockfile before item.treeId owner,
    fun _ inside name => lookup_after turn.laid.rooted turn.inside turn.filled inside name⟩

/-! ### Folders that see the same rows -/

def SameView (lockfile : Lockfile) (builder : Builder) (id other : Id) : Prop :=
  ∀ name, builder.lookup lockfile id name = builder.lookup lockfile other name

/-- Two folders of one package below folders that see the same rows. -/
structure Twin (lockfile : Lockfile) (builder : Builder) (id other parent otherParent : Id) :
    Prop where
  folder : builder.folderOf id = builder.folderOf other
  below : builder.list.parent id = some parent
  otherBelow : builder.list.parent other = some otherParent
  view : SameView lockfile builder parent otherParent

section Twin

variable {builder after : Builder} {queue : List FillItem}

theorem SameView.later (grows : Grows lockfile builder after) {id other : Id}
    (inside : id < builder.list.size) (otherInside : other < builder.list.size)
    (view : SameView lockfile builder id other) : SameView lockfile after id other := by
  obtain ⟨gained, lookupEq⟩ := grows.lookups
  intro name
  rw [lookupEq id inside, lookupEq other otherInside, view name]

theorem Twin.rows_eq (laid : Laid lockfile builder queue) {id other parent otherParent : Id}
    (twin : Twin lockfile builder id other parent otherParent) :
    builder.rows id = builder.rows other := by
  obtain ⟨depId, owner, nested, otherNested⟩ :=
    laid.nested_pair twin.folder twin.below twin.otherBelow
  rw [nested.rows, otherNested.rows]
  exact conflictsAbove_congr fun _ _ _ => twin.view _

theorem Twin.view_here (laid : Laid lockfile builder queue) {id other parent otherParent : Id}
    (twin : Twin lockfile builder id other parent otherParent) :
    SameView lockfile builder id other := by
  intro name
  rw [Builder.lookup_below twin.below, Builder.lookup_below twin.otherBelow, twin.view name]
  unfold Builder.rowNamed
  rw [twin.rows_eq laid]

end Twin

/-! ### Rounds of twins -/

/-- Two ways down from two folders through the same packages with the same rows. -/
inductive Twins (builder : Builder) (lower upper : Id) : Nat → Id → Id → Prop where
  | start : Twins builder lower upper 0 lower upper
  | down {levels : Nat} {id other child otherChild : Id} :
      Twins builder lower upper levels id other → builder.list.parent child = some id →
        builder.list.parent otherChild = some other →
        builder.folderOf child = builder.folderOf otherChild →
        builder.rows child = builder.rows otherChild →
        Twins builder lower upper (levels + 1) child otherChild

section Twins

variable {builder after : Builder} {lower upper id other : Id} {levels : Nat}

theorem Twins.later (grows : Grows lockfile builder after)
    (twins : Twins builder lower upper levels id other) :
    Twins after lower upper levels id other := by
  induction twins with
  | start => exact .start
  | down _ below otherBelow folder rows ih =>
      refine .down ih (grows.keeps.parent below) (grows.keeps.parent otherBelow) ?_ ?_
      · rw [grows.keeps.folders _ (parent_inside below),
          grows.keeps.folders _ (parent_inside otherBelow), folder]
      · rw [grows.keeps.rows _ _ below, grows.keeps.rows _ _ otherBelow, rows]

theorem Twins.earlier (grows : Grows lockfile builder after)
    (twins : Twins after lower upper levels id other) (inside : id < builder.list.size)
    (otherInside : other < builder.list.size) : Twins builder lower upper levels id other := by
  induction twins with
  | start => exact .start
  | @down levels id other child otherChild _ below otherBelow folder rows ih =>
      have belowBefore : builder.list.parent child = some id :=
        (grows.keeps.parents child inside).symm.trans below
      have otherBefore : builder.list.parent otherChild = some other :=
        (grows.keeps.parents otherChild otherInside).symm.trans otherBelow
      refine .down (ih (Nat.lt_trans (Forest.parent_lt below) inside)
        (Nat.lt_trans (Forest.parent_lt otherBelow) otherInside)) belowBefore otherBefore ?_ ?_
      · rw [← grows.keeps.folders child inside, ← grows.keeps.folders otherChild otherInside,
          folder]
      · rw [← grows.keeps.rows child id belowBefore,
          ← grows.keeps.rows otherChild other otherBefore, rows]

theorem Ascends.earlier (grows : Grows lockfile builder after) {top : Id}
    (ascends : Ascends after levels id top) (inside : id < builder.list.size) :
    Ascends builder levels id top := by
  induction ascends with
  | here id => exact .here id
  | @up levels id parent top below _ ih =>
      exact .up ((grows.keeps.parents id inside).symm.trans below)
        (ih (Nat.lt_trans (Forest.parent_lt below) inside))

theorem Ascends.le {top : Id} (ascends : Ascends builder levels id top) : top ≤ id := by
  induction ascends with
  | here id => exact Nat.le_refl _
  | up below _ ih => exact Nat.le_trans ih (Nat.le_of_lt (Forest.parent_lt below))

theorem Ascends.getElem? {top : Id} (ascends : Ascends builder levels id top) :
    (builder.list.chain id)[levels]? = some top := by
  induction ascends with
  | here id =>
      rw [Forest.chain_eq_cons]
      rfl
  | up below _ ih =>
      rw [Forest.chain_below below, List.getElem?_cons_succ]
      exact ih

theorem Twins.ascends (twins : Twins builder lower upper levels id other) :
    Ascends builder levels id lower := by
  induction twins with
  | start => exact .here lower
  | down _ below _ _ _ ih => exact .up below ih

theorem Twins.sameFolders_eq (twins : Twins builder lower upper levels id other) :
    builder.sameFolders levels (builder.list.chain id) (builder.list.chain other) = levels := by
  induction twins with
  | start =>
      unfold Builder.sameFolders
      rfl
  | down _ below otherBelow folder rows ih =>
      rw [Forest.chain_below below, Forest.chain_below otherBelow, Builder.sameFolders,
        if_pos ⟨folder, by rw [rows]; exact List.isPrefixOf_iff_prefix.mpr (List.prefix_refl _)⟩,
        ih]

theorem Twins.first (twins : Twins builder lower upper (levels + 1) id other) :
    ∃ child otherChild, Ascends builder levels id child ∧
      Ascends builder levels other otherChild ∧ builder.list.parent child = some lower ∧
      builder.rows child = builder.rows otherChild := by
  induction levels generalizing id other with
  | zero =>
      cases twins with
      | down rest below otherBelow folder rows =>
          cases rest
          exact ⟨id, other, .here id, .here other, below, rows⟩
  | succ levels ih =>
      cases twins with
      | down rest below otherBelow folder rows =>
          obtain ⟨child, otherChild, ascends, otherAscends, facts⟩ := ih rest
          exact ⟨child, otherChild, .up below ascends, .up otherBelow otherAscends, facts⟩

end Twins

/-! ### Endless runs -/

/-- A run of the loop, with its check, that never stops. -/
structure EndlessRun (lockfile : Lockfile) (run : Nat → Builder) : Prop where
  regular : lockfile.Regular
  turns : ∀ time, ∃ item rest owner, (run time).queue = item :: rest ∧
    (run time).repeatingPeriod ((run time).list.chain item.treeId) (some item.dependencyId) =
      none ∧
    Laid lockfile (run time) (item :: rest) ∧
    Turn lockfile { run time with queue := rest } item owner (run (time + 1))

section EndlessRun

variable {run : Nat → Builder}

namespace EndlessRun

theorem laid (endless : EndlessRun lockfile run) (time : Nat) :
    Laid lockfile (run time) (run time).queue := by
  obtain ⟨item, rest, owner, waiting, _, laid, _⟩ := endless.turns time
  rw [waiting]
  exact laid

theorem grows_succ (endless : EndlessRun lockfile run) (time : Nat) :
    Grows lockfile (run time) (run (time + 1)) := by
  obtain ⟨item, rest, owner, _, _, _, turn⟩ := endless.turns time
  have grows := turn.grows
  exact ⟨⟨grows.keeps.parents, grows.keeps.folders, grows.keeps.rows⟩, grows.size, grows.lookups⟩

theorem grows (endless : EndlessRun lockfile run) {time later : Nat} (ordered : time ≤ later) :
    Grows lockfile (run time) (run later) := by
  induction later, ordered using Nat.le_induction with
  | base => exact Grows.refl lockfile _
  | succ later _ ih => exact ih.trans (endless.grows_succ later)

theorem takesFirst (endless : EndlessRun lockfile run) (time : Nat) :
    ∃ item rest added, TakesFirst (run time).queue (run (time + 1)).queue item rest added := by
  obtain ⟨item, rest, owner, waiting, _, _, turn⟩ := endless.turns time
  exact ⟨item, rest, _, waiting, turn.queue_eq⟩

theorem exists_folder (endless : EndlessRun lockfile run) {time : Nat} {id : Id}
    {row dep found : DependencyID} {owner : PackageID} (inRows : row ∈ (run time).rows id)
    (owned : lockfile.resolution row = some owner) (lists : dep ∈ lockfile.dependenciesOf owner)
    (placeable : lockfile.placeable dep = true)
    (isFound : (run time).lookup lockfile id (lockfile.nameHash dep) = some found)
    (refused : ¬Serves lockfile.resolution (lockfile.dependenciesOf owner) dep found) :
    ∃ later child, time ≤ later ∧ (run later).list.parent child = some id ∧
      (run later).folderOf child = some row := by
  rcases (endless.laid time).settled id row inRows with ⟨child, below, folder⟩ | waits | resolves
  · exact ⟨time, child, Nat.le_refl _, below, folder⟩
  · obtain ⟨later, rest, ordered, isTaken⟩ := exists_taken endless.takesFirst waits
    obtain ⟨item, itemRest, itemOwner, waiting, _, _, turn⟩ := endless.turns later
    have isItem : item = ⟨id, row, none⟩ := (List.cons.inj (waiting.symm.trans isTaken)).1
    subst isItem
    have sameOwner := Option.some.inj (turn.owned.symm.trans owned)
    subst sameOwner
    have stillFound : (run later).lookup lockfile id (lockfile.nameHash dep) = some found := by
      obtain ⟨gained, lookupEq⟩ := (endless.grows ordered).lookups
      rw [lookupEq id (rows_inside inRows), isFound]
      rfl
    have conflict : ∃ row ∈ conflictsAbove lockfile { run later with queue := itemRest } id itemOwner,
        lockfile.nameHash row = lockfile.nameHash dep :=
      exists_conflict lists placeable stillFound refused
    obtain ⟨row, conflicts, _⟩ := conflict
    have some := List.ne_nil_of_mem conflicts
    exact ⟨later + 1, _, Nat.le_succ_of_le ordered, turn.own.parent some, turn.own.folder some⟩
  · obtain ⟨met, isMet, served⟩ := resolves owner owned dep lists placeable
    rw [isFound] at isMet
    exact absurd (Option.some.inj isMet ▸ served) refused

/-- What is nested below a folder is nested below its twin in the end. -/
theorem exists_twin (endless : EndlessRun lockfile run) {time : Nat}
    {id other parent otherParent child : Id}
    (twin : Twin lockfile (run time) id other parent otherParent)
    (below : (run time).list.parent child = some id) (nonempty : (run time).rows child ≠ []) :
    ∃ later otherChild, time ≤ later ∧
      Twin lockfile (run later) child otherChild id other := by
  have laid := endless.laid time
  have view := twin.view_here laid
  obtain ⟨depId, owner, nested⟩ := laid.folders child id below
  obtain ⟨dep, inChild⟩ := List.exists_mem_of_ne_nil _ nonempty
  rw [nested.rows] at inChild
  obtain ⟨lists, placeable, found, isFound, refused⟩ := mem_conflictsAbove inChild
  rw [view] at isFound
  have inRows : depId ∈ (run time).rows other := by
    rw [← twin.rows_eq laid]
    exact nested.row
  obtain ⟨later, otherChild, ordered, otherBelow, otherFolder⟩ :=
    endless.exists_folder inRows nested.owned lists placeable isFound refused
  have grows := endless.grows ordered
  have inside := parent_inside below
  refine ⟨later, otherChild, ordered, ?_⟩
  exact
    { folder := by rw [grows.keeps.folders child inside, nested.folder, otherFolder]
      below := grows.keeps.parent below
      otherBelow := otherBelow
      view := view.later grows (parent_inside twin.below) (parent_inside twin.otherBelow) }

theorem rows_ne_nil {builder : Builder} {queue : List FillItem}
    (laid : Laid lockfile builder queue) {levels : Nat} {id top : Id}
    (ascends : Ascends builder levels id top) (nonempty : builder.rows id ≠ []) :
    builder.rows top ≠ [] := by
  cases levels with
  | zero =>
      cases ascends
      exact nonempty
  | succ levels =>
      obtain ⟨below, _, isBelow⟩ := ascends.last
      obtain ⟨depId, owner, nested⟩ := laid.folders below top isBelow
      exact List.ne_nil_of_mem nested.row

theorem exists_round (endless : EndlessRun lockfile run) {lower upper : Id} {rest : Nat} :
    ∀ {time levels : Nat} {id other parent otherParent : Id},
      (run time).rows lower ≠ [] →
      Twin lockfile (run time) id other parent otherParent →
      Twins (run time) lower upper levels other id → Ascends (run time) rest lower id →
      ∃ later twin parent twinParent, time ≤ later ∧
        Twin lockfile (run later) lower twin parent twinParent ∧
        Twins (run later) lower upper (levels + rest) twin lower := by
  induction rest with
  | zero =>
      intro time levels id other parent otherParent _ twin twins ascends
      cases ascends
      exact ⟨time, other, parent, otherParent, Nat.le_refl _, twin, twins⟩
  | succ rest ih =>
      intro time levels id other parent otherParent nonempty twin twins ascends
      have laid := endless.laid time
      obtain ⟨below, ascendsBelow, isBelow⟩ := ascends.last
      obtain ⟨later, otherChild, ordered, childTwin⟩ :=
        endless.exists_twin twin isBelow (rows_ne_nil laid ascendsBelow nonempty)
      have grows := endless.grows ordered
      have lowerBelow : ∃ above, (run time).list.parent lower = some above := by
        cases ascends with
        | up isParent _ => exact ⟨_, isParent⟩
      obtain ⟨above, isAbove⟩ := lowerBelow
      have laterNonempty : (run later).rows lower ≠ [] := by
        rw [grows.keeps.rows lower above isAbove]
        exact nonempty
      have longer : Twins (run later) lower upper (levels + 1) otherChild below :=
        .down (twins.later grows) childTwin.otherBelow childTwin.below childTwin.folder.symm
          (childTwin.rows_eq (endless.laid later)).symm
      obtain ⟨last, final, finalParent, twinParent, after, isTwin, round⟩ :=
        ih laterNonempty childTwin longer (grows.keeps.ascends ascendsBelow)
      refine ⟨last, final, finalParent, twinParent, Nat.le_trans ordered after, isTwin, ?_⟩
      rw [Nat.add_assoc, Nat.add_comm 1 rest] at round
      exact round

/-- Every folder but the top was made in some turn, and the check reported nothing then. -/
theorem exists_made (endless : EndlessRun lockfile run) {time : Nat} {id parent : Id}
    (below : (run time).list.parent id = some parent) (notFirst : (run 0).list.size ≤ id) :
    ∃ earlier ≤ time, (run earlier).list.size = id ∧ ∃ depId,
      (run time).folderOf id = some depId ∧
      (run earlier).repeatingPeriod ((run earlier).list.chain parent) (some depId) = none := by
  induction time with
  | zero => exact absurd (parent_inside below) (Nat.not_lt.mpr notFirst)
  | succ time ih =>
      obtain ⟨item, rest, owner, waiting, unreported, laid, turn⟩ := endless.turns time
      rcases turn.parent_cases below with ⟨_, before, folder⟩ | ⟨isNew, isParent, _, folder⟩
      · obtain ⟨earlier, ordered, sizeEq, depId, isFolder, none⟩ := ih before
        exact ⟨earlier, Nat.le_succ_of_le ordered, sizeEq, depId, folder.trans isFolder, none⟩
      · refine ⟨time, Nat.le_succ time, isNew.symm, item.dependencyId, folder, ?_⟩
        rw [isParent]
        exact unreported

/-- No folder sees the same rows as a folder of the same package above it. -/
theorem no_twins (endless : EndlessRun lockfile run) {time levels : Nat}
    {lower upper parent upperParent : Id}
    (ascends : Ascends (run time) (levels + 1) lower upper)
    (twin : Twin lockfile (run time) upper lower upperParent parent)
    (firstFolders : (run 0).list.size ≤ 1) : False := by
  have laid := endless.laid time
  obtain ⟨below, _, isBelow⟩ := ascends.last
  obtain ⟨depId, owner, nested⟩ := laid.folders below upper isBelow
  have nonempty : (run time).rows lower ≠ [] := by
    rw [← twin.rows_eq laid]
    exact List.ne_nil_of_mem nested.row
  obtain ⟨later, final, _, _, ordered, finalTwin, round⟩ :=
    endless.exists_round nonempty twin .start ascends
  rw [Nat.zero_add] at round
  -- One more folder below the second round.
  obtain ⟨child, otherChild, childAscends, otherAscends, childBelow, rows⟩ := round.first
  have lowerNonempty : (run later).rows lower ≠ [] := by
    rw [(endless.grows ordered).keeps.rows lower parent twin.otherBelow]
    exact nonempty
  have childNonempty : (run later).rows child ≠ [] := by
    rw [rows]
    exact rows_ne_nil (endless.laid later) otherAscends lowerNonempty
  obtain ⟨last, made, after, madeTwin⟩ := endless.exists_twin finalTwin childBelow childNonempty
  have grows := endless.grows after
  have notFirst : (run 0).list.size ≤ made :=
    Nat.le_trans firstFolders
      (Nat.lt_of_le_of_lt (Nat.zero_le _) (Forest.parent_lt madeTwin.otherBelow))
  obtain ⟨earlier, earlierLe, sizeEq, madeDep, madeFolder, unreported⟩ :=
    endless.exists_made madeTwin.otherBelow notFirst
  -- Both rounds were there when that folder was made.
  have back := endless.grows earlierLe
  have finalInside : final < (run earlier).list.size := by
    rw [sizeEq]
    exact Forest.parent_lt madeTwin.otherBelow
  have lowerInside : lower < (run earlier).list.size :=
    Nat.lt_of_le_of_lt round.ascends.le finalInside
  have roundThen : Twins (run earlier) lower upper (levels + 1) final lower :=
    (round.later grows).earlier back finalInside lowerInside
  have childThen : Ascends (run earlier) levels final child :=
    (grows.keeps.ascends childAscends).earlier back finalInside
  have childInside : child < (run earlier).list.size :=
    Nat.lt_of_le_of_lt childThen.le finalInside
  refine repeatingFrom_ne_none childThen.getElem? ?_ ?_ unreported
  · rw [← back.keeps.folders child childInside, madeTwin.folder, madeFolder]
  · rw [roundThen.ascends.chain_drop, Nat.add_comm 1 levels]
    exact roundThen.sameFolders_eq

end EndlessRun

end EndlessRun

/-! ### Nesting gets deeper -/

def Lockfile.listedDependencies (lockfile : Lockfile) : List DependencyID :=
  lockfile.packages.flatMap fun package => package.resolutions.ids

theorem mem_listedDependencies {owner : PackageID} {dep : DependencyID}
    (lists : dep ∈ lockfile.dependenciesOf owner) : dep ∈ lockfile.listedDependencies := by
  unfold Lockfile.dependenciesOf Lockfile.resolutionList at lists
  cases found : lockfile.packages[owner]? with
  | none =>
      rw [found] at lists
      cases lists
  | some package =>
      rw [found] at lists
      exact List.mem_flatMap.mpr ⟨package, List.mem_of_getElem? found, lists⟩

section Depth

variable {builder : Builder} {queue : List FillItem} {run : Nat → Builder}

theorem Laid.row_listed (laid : Laid lockfile builder queue) {id : Id} {row : DependencyID}
    (inRows : row ∈ builder.rows id) : row ∈ lockfile.listedDependencies := by
  obtain ⟨_, owner, _, lists⟩ := laid.listed id row inRows
  exact mem_listedDependencies lists

def budgetOf (lockfile : Lockfile) (builder : Builder) : Nat :=
  lockfile.listedDependencies.length - (builder.rows 0).length

theorem Laid.rows_length_le (laid : Laid lockfile builder queue) (id : Id) :
    (builder.rows id).length ≤ lockfile.listedDependencies.length :=
  (List.subperm_of_subset (laid.names id).of_map fun _ inRows => laid.row_listed inRows).length_le

def depthOf (builder : Builder) (item : FillItem) : Nat :=
  (builder.list.chain item.treeId).length

/-- A turn gives the top a row, or only queues rows of a folder that is one deeper. -/
theorem Turn.deeper {before after : Builder} {item : FillItem} {owner : PackageID}
    (turn : Turn lockfile before item owner after) :
    budgetOf lockfile after < budgetOf lockfile before ∨
      (budgetOf lockfile after = budgetOf lockfile before ∧
        ∀ new ∈ Turn.added lockfile before item.treeId owner,
          depthOf before item < depthOf after new) := by
  have rowsTop := turn.rows_old turn.laid.rooted.1
  rw [if_pos rfl] at rowsTop
  have atMost := turn.laid_after.rows_length_le 0
  unfold budgetOf
  by_cases none : missingAbove lockfile before item.treeId owner = []
  · refine Or.inr ⟨by rw [rowsTop, none, List.append_nil], ?_⟩
    intro new isAdded
    rcases (turn.mem_added isAdded).2.2 with ⟨_, missing⟩ | ⟨isOwn, conflicts⟩
    · rw [none] at missing
      cases missing
    · have below := turn.own.parent (List.ne_nil_of_mem conflicts)
      have sameChain : after.list.chain item.treeId = before.list.chain item.treeId :=
        Forest.chain_congr _ fun id atMost =>
          turn.filled.parents id (Nat.lt_of_le_of_lt atMost turn.inside)
      unfold depthOf
      rw [isOwn, Forest.chain_below below, List.length_cons, sameChain]
      exact Nat.lt_succ_self _
  · have gained : 0 < (missingAbove lockfile before item.treeId owner).length :=
      List.length_pos_iff.mpr none
    rw [rowsTop, List.length_append] at atMost ⊢
    exact Or.inl (by omega)

theorem EndlessRun.exists_deep (endless : EndlessRun lockfile run) (bound : Nat) :
    ∃ time, ∃ item ∈ (run time).queue, bound < depthOf (run time) item := by
  refine Bun.Foundation.exists_deep (fun time => (run time).queue)
    (fun time => depthOf (run time)) (fun time => budgetOf lockfile (run time)) ?_ bound
  intro time
  obtain ⟨item, rest, owner, waiting, _, laid, turn⟩ := endless.turns time
  refine ⟨item, rest, _, ⟨waiting, turn.queue_eq⟩, ?_, ?_⟩
  · intro other inRest
    have inside : other.treeId < (run time).list.size := rows_inside (turn.row_old inRest)
    unfold depthOf
    exact congrArg List.length (Forest.chain_congr _ fun id atMost =>
      turn.filled.parents id (Nat.lt_of_le_of_lt atMost inside))
  · exact turn.deeper

end Depth

/-! ### Two folders that see the same rows -/

section Views

variable {builder : Builder} {queue : List FillItem} {run : Nat → Builder}

/-- The dependency of a folder and the rows that the folder above it sees, for the names of all
dependencies. -/
abbrev ViewKey (lockfile : Lockfile) : Type :=
  Fin (lockfile.listedDependencies.length + 1) ×
    (Fin lockfile.listedDependencies.length →
      Option (Fin (lockfile.listedDependencies.length + 1)))

def indexOf (lockfile : Lockfile) (depId : DependencyID) :
    Fin (lockfile.listedDependencies.length + 1) :=
  ⟨lockfile.listedDependencies.idxOf depId, Nat.lt_succ_of_le List.idxOf_le_length⟩

theorem indexOf_inj {depId other : DependencyID} (listed : depId ∈ lockfile.listedDependencies)
    (same : indexOf lockfile depId = indexOf lockfile other) : depId = other :=
  (List.idxOf_inj listed).mp (congrArg Fin.val same)

def viewOf (lockfile : Lockfile) (builder : Builder) (id : Id) :
    Fin lockfile.listedDependencies.length →
      Option (Fin (lockfile.listedDependencies.length + 1)) :=
  fun index =>
    (builder.lookup lockfile id
      (lockfile.nameHash (lockfile.listedDependencies.get index))).map (indexOf lockfile)

def viewKey (lockfile : Lockfile) (builder : Builder) (id : Id) : ViewKey lockfile :=
  (indexOf lockfile ((builder.folderOf id).getD 0),
    viewOf lockfile builder ((builder.list.parent id).getD 0))

theorem Laid.lookup_listed (laid : Laid lockfile builder queue) {id : Id}
    {name : PackageNameHash} {row : DependencyID}
    (found : builder.lookup lockfile id name = some row) :
    row ∈ lockfile.listedDependencies ∧ lockfile.nameHash row = name := by
  obtain ⟨tree, _, named⟩ := List.exists_of_findSome?_eq_some found
  obtain ⟨inRows, sameName⟩ := Builder.rowNamed_some named
  exact ⟨laid.row_listed inRows, sameName⟩

theorem sameView_of_viewOf (laid : Laid lockfile builder queue) {id other : Id}
    (same : viewOf lockfile builder id = viewOf lockfile builder other) :
    SameView lockfile builder id other := by
  have listed : ∀ dep ∈ lockfile.listedDependencies,
      builder.lookup lockfile id (lockfile.nameHash dep) =
        builder.lookup lockfile other (lockfile.nameHash dep) := by
    intro dep isListed
    obtain ⟨index, rfl⟩ := List.get_of_mem isListed
    have sameIndex := congrFun same index
    unfold viewOf at sameIndex
    cases found : builder.lookup lockfile id
        (lockfile.nameHash (lockfile.listedDependencies.get index)) with
    | none =>
        rw [found, Option.map_none] at sameIndex
        exact (Option.map_eq_none_iff.mp sameIndex.symm).symm
    | some row =>
        rw [found, Option.map_some] at sameIndex
        obtain ⟨otherRow, isOther, indexEq⟩ := Option.map_eq_some_iff.mp sameIndex.symm
        rw [isOther, indexOf_inj (laid.lookup_listed found).1 indexEq.symm]
  intro name
  cases found : builder.lookup lockfile id name with
  | some row =>
      obtain ⟨isListed, rfl⟩ := laid.lookup_listed found
      rw [← found, listed row isListed]
  | none =>
      cases otherFound : builder.lookup lockfile other name with
      | none => rfl
      | some row =>
          obtain ⟨isListed, rfl⟩ := laid.lookup_listed otherFound
          rw [← found, ← otherFound, listed row isListed]

theorem twin_of_viewKey (laid : Laid lockfile builder queue) {id other parent otherParent : Id}
    (below : builder.list.parent id = some parent)
    (otherBelow : builder.list.parent other = some otherParent)
    (same : viewKey lockfile builder id = viewKey lockfile builder other) :
    Twin lockfile builder id other parent otherParent := by
  obtain ⟨depId, owner, nested⟩ := laid.folders id parent below
  obtain ⟨otherDep, otherOwner, otherNested⟩ := laid.folders other otherParent otherBelow
  obtain ⟨sameIndex, sameView⟩ := Prod.mk.inj same
  rw [nested.folder, otherNested.folder, Option.getD_some, Option.getD_some] at sameIndex
  have sameDep := indexOf_inj (laid.row_listed nested.row) sameIndex
  rw [below, otherBelow, Option.getD_some, Option.getD_some] at sameView
  refine
    { folder := by rw [nested.folder, otherNested.folder, sameDep]
      below := below
      otherBelow := otherBelow
      view := sameView_of_viewOf laid sameView }

theorem Ascends.trans_of_le {levels more : Nat} {id first second : Id}
    (ascends : Ascends builder levels id first)
    (further : Ascends builder (levels + more) id second) :
    Ascends builder more first second := by
  induction ascends with
  | here id =>
      rw [Nat.zero_add] at further
      exact further
  | @up levels id parent first below _ ih =>
      rw [Nat.add_right_comm] at further
      cases further with
      | up furtherBelow rest =>
          have same := Option.some.inj (below.symm.trans furtherBelow)
          subst same
          exact ih rest

/-- A way up that is longer than there are keys has two twins on it. -/
theorem Laid.exists_twins (laid : Laid lockfile builder queue) {id : Id}
    (deep : Fintype.card (ViewKey lockfile) + 1 < (builder.list.chain id).length) :
    ∃ levels lower upper parent upperParent, Ascends builder (levels + 1) lower upper ∧
      Twin lockfile builder upper lower upperParent parent := by
  have atLevel : ∀ level ≤ Fintype.card (ViewKey lockfile) + 1,
      ∃ top, Ascends builder level id top := by
    intro level atMost
    have inside : level < (builder.list.chain id).length := Nat.lt_of_le_of_lt atMost deep
    exact ⟨_, ascends_of_getElem? (List.getElem?_eq_getElem inside)⟩
  have nested : ∀ level ≤ Fintype.card (ViewKey lockfile),
      ∃ top parent, Ascends builder level id top ∧ builder.list.parent top = some parent := by
    intro level atMost
    obtain ⟨parent, ascends⟩ := atLevel (level + 1) (by omega)
    obtain ⟨top, topAscends, below⟩ := ascends.last
    exact ⟨top, parent, topAscends, below⟩
  choose! top parent ascends below using nested
  obtain ⟨first, second, different, same⟩ := Fintype.exists_ne_map_eq_of_card_lt
    (fun level : Fin (Fintype.card (ViewKey lockfile) + 1) =>
      viewKey lockfile builder (top level)) (by simp)
  have ordered : ∀ low high : Fin (Fintype.card (ViewKey lockfile) + 1), low < high →
      viewKey lockfile builder (top low) = viewKey lockfile builder (top high) →
      ∃ levels lower upper parent upperParent, Ascends builder (levels + 1) lower upper ∧
        Twin lockfile builder upper lower upperParent parent := by
    intro low high lower sameKey
    have lowLe := Nat.le_of_lt_succ low.isLt
    have highLe := Nat.le_of_lt_succ high.isLt
    have distance : (high : Nat) = low + ((high - low - 1) + 1) := by
      have less : (low : Nat) < high := lower
      omega
    refine ⟨high - low - 1, top low, top high, parent low, parent high, ?_, ?_⟩
    · refine (ascends low lowLe).trans_of_le ?_
      rw [← distance]
      exact ascends high highLe
    · exact twin_of_viewKey laid (below high highLe) (below low lowLe) sameKey.symm
  rcases lt_or_gt_of_ne different with less | greater
  · exact ordered first second less same
  · exact ordered second first greater same.symm

theorem EndlessRun.false (endless : EndlessRun lockfile run)
    (firstFolders : (run 0).list.size ≤ 1) : False := by
  obtain ⟨time, item, _, deep⟩ :=
    endless.exists_deep (Fintype.card (ViewKey lockfile) + 1)
  obtain ⟨levels, lower, upper, parent, upperParent, ascends, twin⟩ :=
    (endless.laid time).exists_twins deep
  exact endless.no_twins ascends twin firstFolders

end Views

/-! ### The loop ends -/

def nextTurn (lockfile : Lockfile) (builder : Builder) : Builder :=
  match builder.queue with
  | [] => builder
  | item :: rest =>
      match processSubtree lockfile true { builder with queue := rest } (some item.treeId)
          (some item.dependencyId) item.hoistRootId with
      | .ok after => after
      | .error _ => builder

/-- The loop has finished or reported repeated rounds. -/
def Ends (hoisting : Hoisting) : Prop :=
  (∃ result late, hoisting = .finished result late) ∨
    ∃ parent dependencyId period,
      hoisting = .crashed (.endlessNesting parent dependencyId period)

theorem nextTurn_turn (regular : lockfile.Regular) {builder : Builder}
    (laid : Laid lockfile builder builder.queue)
    (goesOn : ∀ steps, ¬Ends (fillQueue lockfile true steps builder)) :
    (∃ item rest owner, builder.queue = item :: rest ∧
      builder.repeatingPeriod (builder.list.chain item.treeId) (some item.dependencyId) = none ∧
      Laid lockfile builder (item :: rest) ∧
      Turn lockfile { builder with queue := rest } item owner (nextTurn lockfile builder)) ∧
      ∀ steps, ¬Ends (fillQueue lockfile true steps (nextTurn lockfile builder)) := by
  cases waiting : builder.queue with
  | nil => exact absurd (Or.inl ⟨_, _, fillQueue_nil lockfile true 0 waiting⟩) (goesOn 0)
  | cons item rest =>
      have laidHere : Laid lockfile builder (item :: rest) := waiting ▸ laid
      obtain ⟨owner, _, ⟨period, _, processed⟩ | ⟨unreported, after, processed, turn⟩⟩ :=
        processItem regular laidHere true
      · refine absurd (Or.inr ⟨some item.treeId, some item.dependencyId, period, ?_⟩) (goesOn 1)
        rw [fillQueue_succ lockfile true 0 waiting, processed]
      · have nextEq : nextTurn lockfile builder = after := by
          unfold nextTurn
          rw [waiting]
          dsimp only
          rw [processed]
        rw [nextEq]
        refine ⟨⟨item, rest, owner, rfl, ?_, laidHere, turn⟩, ?_⟩
        · refine Eq.trans ?_ unreported
          exact (repeatingPeriod_of_list builder { builder with queue := rest } rfl _ _).symm
        · intro steps ends
          refine goesOn (steps + 1) ?_
          rw [fillQueue_succ lockfile true steps waiting, processed]
          exact ends

theorem exists_ends (regular : lockfile.Regular) {first : Builder}
    (laid : Laid lockfile first first.queue) (firstFolders : first.list.size ≤ 1) :
    ∃ steps, Ends (fillQueue lockfile true steps first) := by
  by_contra never
  have goesOn : ∀ steps, ¬Ends (fillQueue lockfile true steps first) :=
    fun steps ends => never ⟨steps, ends⟩
  have run : ∀ time, Laid lockfile ((nextTurn lockfile)^[time] first)
      ((nextTurn lockfile)^[time] first).queue ∧
        ∀ steps, ¬Ends (fillQueue lockfile true steps ((nextTurn lockfile)^[time] first)) := by
    intro time
    induction time with
    | zero => exact ⟨laid, goesOn⟩
    | succ time ih =>
        obtain ⟨⟨item, rest, owner, _, _, _, turn⟩, goes⟩ := nextTurn_turn regular ih.1 ih.2
        rw [Function.iterate_succ_apply']
        exact ⟨turn.laid_after, goes⟩
  have endless : EndlessRun lockfile fun time => (nextTurn lockfile)^[time] first := by
    refine ⟨regular, fun time => ?_⟩
    have turn := (nextTurn_turn regular (run time).1 (run time).2).1
    rw [← Function.iterate_succ_apply' (nextTurn lockfile) time first] at turn
    exact turn
  exact endless.false firstFolders

/-- The loop of `hoist` ends on regular dependencies, with all trees built or with a report of
repeated rounds, and it only reports them where it would never end without the check. -/
theorem hoist_ends (regular : lockfile.Regular) :
    (∃ steps, Ends (hoist lockfile true steps)) ∧
      ∀ steps parent dependencyId period,
        hoist lockfile true steps = .crashed (.endlessNesting parent dependencyId period) →
        ∀ turns, hoist lockfile false turns = .unfinished := by
  obtain ⟨first, processed, empty | ⟨size, laid⟩⟩ := processSubtree_root regular true
  · obtain ⟨_, noQueue, _, _⟩ := empty
    have finished : ∀ steps, hoist lockfile true steps =
        .finished (bindServedPeers lockfile first).clean first.lateBoundPeer := by
      intro steps
      unfold hoist
      rw [processed]
      exact fillQueue_nil lockfile true steps noQueue
    refine ⟨⟨0, Or.inl ⟨_, _, finished 0⟩⟩, ?_⟩
    intro steps parent dependencyId period reported
    rw [finished steps] at reported
    cases reported
  · have hoistEq : ∀ steps, hoist lockfile true steps = fillQueue lockfile true steps first := by
      intro steps
      unfold hoist
      rw [processed]
    refine ⟨?_, ?_⟩
    · obtain ⟨steps, ends⟩ := exists_ends regular laid (Nat.le_of_eq size)
      exact ⟨steps, (hoistEq steps).symm ▸ ends⟩
    · intro steps parent dependencyId period reported turns
      rw [hoistEq] at reported
      unfold hoist
      rw [processSubtree_unchecked processed]
      exact fillQueue_reported regular steps laid reported turns

-- A name that the root lists for two packages gets one row.
example :
    hoist
        { dependencies := [prodDependency "a" 1, prodDependency "a" 1]
          packages := [npmPackage 0 0 2, npmPackage 1 0 0, npmPackage 1 0 0]
          resolutions := [some 1, some 2]
          rules := noPeerRules } true 0 =
      .finished
        { trees := [{ dependencyId := none, parent := none, dependencies := { off := 0, len := 1 } }]
          depIds := [0] } false := by
  decide +kernel

/-- Each version of `a` depends on the `b` that is not next to it, and the other way around. -/
def mutualVersions : Lockfile :=
  { dependencies :=
      [prodDependency "a" 1, prodDependency "b" 2, prodDependency "b" 2, prodDependency "a" 1,
        prodDependency "b" 2, prodDependency "a" 1]
    packages :=
      [npmPackage 0 0 2, npmPackage 1 2 1, npmPackage 2 3 1, npmPackage 1 4 1, npmPackage 2 5 1]
    resolutions := [some 1, some 2, some 4, some 1, some 2, some 3]
    rules := noPeerRules }

theorem mutualVersions_regular : mutualVersions.Regular where
  noPeer := by decide
  noBundled := by decide
  noWorkspace := by decide
  noLinks := by decide
  resolved := by decide

/-- The loop reports a round of four folders, and without the check it never ends. -/
theorem mutualVersions_reported :
    hoist mutualVersions true 11 = .crashed (.endlessNesting (some 9) (some 2) 4) ∧
      ∀ turns, hoist mutualVersions false turns = .unfinished := by
  have reported : hoist mutualVersions true 11 =
      .crashed (.endlessNesting (some 9) (some 2) 4) := by
    decide +kernel
  exact ⟨reported, (hoist_ends mutualVersions_regular).2 11 _ _ _ reported⟩

end Bun.Install
