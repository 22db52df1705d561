/-
One turn of the loop on a lockfile of regular dependencies.

The search for a folder finds the nearest row of the name.  A dependency that finds its
own package, or a row that its package lists too, is skipped.  One that finds another
package stays in the folder of its package, and one that finds nothing goes to the top.
-/

import Bun.Foundation.FirstOfEach
import Bun.Install.ProcessSubtree

set_option autoImplicit false

namespace Bun.Install

open Bun.Foundation

/-! ### Regular lockfiles -/

/-- No peer, bundled, workspace or folder dependencies, and everything resolved. -/
structure Lockfile.Regular (lockfile : Lockfile) : Prop where
  noPeer : ∀ dependency ∈ lockfile.dependencies, dependency.behavior.isPeer = false
  noBundled : ∀ dependency ∈ lockfile.dependencies, dependency.behavior.isBundled = false
  noWorkspace : ∀ dependency ∈ lockfile.dependencies, dependency.behavior.isWorkspace = false
  noLinks : ∀ package ∈ lockfile.packages,
    package.resolutionTag ≠ .folder ∧ package.resolutionTag ≠ .workspace
  resolved : ∀ package ∈ lockfile.packages, ∀ depId ∈ package.resolutions.ids,
    ∃ target < lockfile.packages.length, lockfile.resolutions[depId]? = some (some target)

namespace Lockfile

def resolution (lockfile : Lockfile) (depId : DependencyID) : Option PackageID :=
  (lockfile.resolutions[depId]?).join

def dependenciesOf (lockfile : Lockfile) (id : PackageID) : List DependencyID :=
  (lockfile.resolutionList id).ids

def placeable (lockfile : Lockfile) (depId : DependencyID) : Bool :=
  (lockfile.dependency depId).name == [] ||
    aliasIsSafeInstallTarget (lockfile.dependency depId).name

section Regular

variable {lockfile : Lockfile}

theorem dependency_behavior (holds : Behavior → Prop)
    (listed : ∀ dependency ∈ lockfile.dependencies, holds dependency.behavior)
    (unlisted : holds { bits := 0 }) (depId : DependencyID) :
    holds (lockfile.dependency depId).behavior := by
  unfold dependency
  rw [List.getD_eq_getElem?_getD]
  cases found : lockfile.dependencies[depId]? with
  | none => exact unlisted
  | some dependency => exact listed dependency (List.mem_of_getElem? found)

theorem Regular.isPeer (regular : lockfile.Regular) (depId : DependencyID) :
    (lockfile.dependency depId).behavior.isPeer = false :=
  dependency_behavior (fun behavior => behavior.isPeer = false) regular.noPeer rfl depId

theorem Regular.isBundled (regular : lockfile.Regular) (depId : DependencyID) :
    (lockfile.dependency depId).behavior.isBundled = false :=
  dependency_behavior (fun behavior => behavior.isBundled = false) regular.noBundled rfl depId

theorem Regular.isWorkspace (regular : lockfile.Regular) (depId : DependencyID) :
    (lockfile.dependency depId).behavior.isWorkspace = false :=
  dependency_behavior (fun behavior => behavior.isWorkspace = false) regular.noWorkspace rfl depId

theorem Regular.resolutionTag_ne (regular : lockfile.Regular) (id : PackageID) :
    lockfile.resolutionTag id ≠ .folder ∧ lockfile.resolutionTag id ≠ .workspace := by
  unfold resolutionTag
  cases found : lockfile.packages[id]? with
  | none => exact ⟨nofun, nofun⟩
  | some package => exact regular.noLinks package (List.mem_of_getElem? found)

theorem Regular.resolution_isSome (regular : lockfile.Regular) {id : PackageID}
    {depId : DependencyID} (lists : depId ∈ lockfile.dependenciesOf id) :
    ∃ target < lockfile.packages.length, lockfile.resolution depId = some target := by
  unfold dependenciesOf resolutionList at lists
  cases found : lockfile.packages[id]? with
  | none =>
      rw [found] at lists
      cases lists
  | some package =>
      rw [found] at lists
      obtain ⟨target, inside, resolved⟩ :=
        regular.resolved package (List.mem_of_getElem? found) depId lists
      refine ⟨target, inside, ?_⟩
      unfold resolution
      rw [resolved]
      rfl

end Regular

end Lockfile

/-! ### Looking a name up -/

namespace Builder

def rowNamed (lockfile : Lockfile) (builder : Builder) (name : PackageNameHash) (id : Id) :
    Option DependencyID :=
  (builder.rows id).find? fun row => lockfile.nameHash row == name

/-- The nearest row of a name from a folder on upwards. -/
def lookup (lockfile : Lockfile) (builder : Builder) (id : Id) (name : PackageNameHash) :
    Option DependencyID :=
  (builder.list.chain id).findSome? (builder.rowNamed lockfile name)

def Consistent (lockfile : Lockfile) (builder : Builder) : Prop :=
  ∀ id name, builder.placed id name = builder.rowNamed lockfile name id

def RowsResolved (builder : Builder) : Prop :=
  ∀ id, ∀ row ∈ builder.rows id, ∃ target, builder.resolution row = some target

theorem rowNamed_some {lockfile : Lockfile} {builder : Builder} {name : PackageNameHash} {id : Id}
    {row : DependencyID} (found : builder.rowNamed lockfile name id = some row) :
    row ∈ builder.rows id ∧ lockfile.nameHash row = name :=
  ⟨List.mem_of_find?_eq_some found, by simpa using List.find?_some found⟩

end Builder

/-! ### The search for a folder -/

section Search

variable {lockfile : Lockfile} {builder : Builder}

/-- A dependency of a package is skipped for a row: it resolves to the same package, or the
row is of the package's own list. -/
def Serves (resolution : DependencyID → Option PackageID) (listed : List DependencyID)
    (depId row : DependencyID) : Prop :=
  resolution row = resolution depId ∨ row ∈ listed

instance (resolution : DependencyID → Option PackageID) (listed : List DependencyID)
    (depId row : DependencyID) : Decidable (Serves resolution listed depId row) :=
  inferInstanceAs (Decidable (_ ∨ _))

/-- What the search says about the nearest row of the name. -/
def searchResult (resolution : DependencyID → Option PackageID) (listed : List DependencyID)
    (depId : DependencyID) (top : Id) : Option DependencyID → HoistDependencyResult
  | some row => if Serves resolution listed depId row then .hoisted else .dependencyLoop
  | none => .placement top false

theorem hoistOntoRow_regular (regular : lockfile.Regular) {owner package : PackageID}
    {depId row : DependencyID} (resolves : builder.resolution depId = some package)
    (rowResolved : ∃ target, builder.resolution row = some target) (this top : Id) :
    hoistOntoRow lockfile builder (some package) depId (lockfile.resolutionList owner) this row =
      searchResult builder.resolution (lockfile.dependenciesOf owner) depId top (some row) := by
  obtain ⟨target, rowTarget⟩ := rowResolved
  unfold hoistOntoRow
  rw [rowTarget]
  dsimp only [searchResult]
  by_cases same : target = package
  · have served : Serves builder.resolution (lockfile.dependenciesOf owner) depId row := by
      refine Or.inl ?_
      rw [rowTarget, resolves, same]
    rw [if_pos same, if_pos served]
  · rw [if_neg same]
    by_cases inside : row ∈ lockfile.dependenciesOf owner
    · have served : Serves builder.resolution (lockfile.dependenciesOf owner) depId row :=
        Or.inr inside
      rw [if_pos served, if_pos (((lockfile.resolutionList owner).contains_iff row).mpr inside)]
      unfold hoistOntoOwnRow
      dsimp only
      rw [regular.isWorkspace, Bool.false_and, if_neg Bool.false_ne_true, regular.isPeer]
      rfl
    · have refused : ¬Serves builder.resolution (lockfile.dependenciesOf owner) depId row := by
        rintro (equal | isOwn)
        · rw [rowTarget, resolves] at equal
          exact same (Option.some.inj equal)
        · exact inside isOwn
      rw [if_neg refused, if_neg fun contains => inside
        (((lockfile.resolutionList owner).contains_iff row).mp contains), regular.isPeer,
        if_neg Bool.false_ne_true]

theorem begin_regular (regular : lockfile.Regular) (probes : PeerProbes)
    (fresh : ∀ set, probes.withPeers = some set → set = [])
    (resolution : DependencyID → Option PackageID) (owner : DependencyIDSlice)
    (package : PackageID) (isForPeer : Bool) :
    (probes.begin lockfile resolution owner (some package) isForPeer).probes = [] ∧
      (probes.begin lockfile resolution owner (some package) isForPeer).withPeers = some [] := by
  have nobody : probes.withPeers.getD (PeerProbes.packagesWithPeers lockfile) = [] := by
    cases held : probes.withPeers with
    | some set => exact fresh set held
    | none =>
        refine List.filter_eq_nil_iff.mpr ?_
        intro id _
        rw [Bool.not_eq_true, List.any_eq_false]
        intro depId _
        unfold PeerProbes.isProbed
        rw [regular.isPeer]
        exact Bool.false_ne_true
  unfold PeerProbes.begin
  dsimp only
  rw [nobody, if_pos List.not_mem_nil]
  exact ⟨rfl, rfl⟩

def PeerProbes.Idle (probes : PeerProbes) : Prop :=
  ∀ set, probes.withPeers = some set → set = []

theorem placeHere_noRoot (package : Option PackageID) (depId : DependencyID) (asDefined : Bool)
    (this : Id) :
    placeHere lockfile builder package depId asDefined none this = .placement this false := by
  unfold placeHere
  exact if_neg nofun

/-- What the search above means for the folder below: the folder of the package takes what no
folder above it takes. -/
def keepOrPlace (this : Id) :
    Bool → HoistDependencyResult × PeerProbes → HoistDependencyResult × PeerProbes
  | true, (.dependencyLoop, probes) => (.placement this false, probes)
  | _, found => found

theorem keepOrPlace_eq (this : Id) (asDefined : Bool)
    (found : HoistDependencyResult × PeerProbes) :
    (if !asDefined || found.1 != .dependencyLoop then found
      else (.placement this false, found.2)) = keepOrPlace this asDefined found := by
  obtain ⟨result, probes⟩ := found
  cases asDefined with
  | false => rfl
  | true => cases result <;> rfl

theorem hoistDependency_quiet (package : Option PackageID) (depId : DependencyID)
    (range : DependencyIDSlice) (above : List Id) (this : Id) {asDefined : Bool}
    {probes : PeerProbes} (quiet : asDefined = true ∨ probes.probes = []) :
    hoistDependency lockfile builder package depId range none above this asDefined probes =
      match builder.placed this (lockfile.nameHash depId), above with
      | some row, _ => (hoistOntoRow lockfile builder package depId range this row, probes)
      | none, parent :: rest =>
          let begun :=
            if asDefined then
              probes.begin lockfile builder.resolution range package
                (lockfile.dependency depId).behavior.isPeer
            else probes
          keepOrPlace this asDefined
            (hoistDependency lockfile builder package depId range none rest parent false begun)
      | none, [] => (.placement this false, probes) := by
  have unchecked : (!asDefined && !probes.probes.isEmpty) = false := by
    rcases quiet with rfl | none
    · rfl
    · rw [none]
      exact Bool.and_false _
  rw [hoistDependency.eq_def]
  simp only [unchecked, Bool.false_eq_true, if_false, placeHere_noRoot, keepOrPlace_eq]
  rfl

theorem hoistDependency_above (regular : lockfile.Regular)
    (consistent : builder.Consistent lockfile) (rowsResolved : builder.RowsResolved)
    {owner package : PackageID} {depId : DependencyID}
    (resolves : builder.resolution depId = some package) {probes : PeerProbes}
    (noProbes : probes.probes = []) (this : Id) (above : List Id) :
    hoistDependency lockfile builder (some package) depId (lockfile.resolutionList owner) none
        above this false probes =
      (searchResult builder.resolution (lockfile.dependenciesOf owner) depId
        (above.getLastD this)
        ((this :: above).findSome? (builder.rowNamed lockfile (lockfile.nameHash depId))), probes) := by
  induction above generalizing this with
  | nil =>
      rw [hoistDependency_quiet _ _ _ _ _ (Or.inr noProbes), consistent this,
        List.findSome?_cons]
      cases found : builder.rowNamed lockfile (lockfile.nameHash depId) this with
      | none => rfl
      | some row =>
          dsimp only
          rw [hoistOntoRow_regular regular resolves
            (rowsResolved this row (Builder.rowNamed_some found).1) this this]
          rfl
  | cons parent rest ih =>
      rw [hoistDependency_quiet _ _ _ _ _ (Or.inr noProbes), consistent this,
        List.findSome?_cons]
      cases found : builder.rowNamed lockfile (lockfile.nameHash depId) this with
      | none =>
          dsimp only
          rw [if_neg Bool.false_ne_true, ih parent, List.getLastD_cons]
          rfl
      | some row =>
          dsimp only
          rw [hoistOntoRow_regular regular resolves
            (rowsResolved this row (Builder.rowNamed_some found).1) this
            ((parent :: rest).getLastD this)]

/-- The tree that takes a dependency, by the nearest row of its name: none if it is skipped for
that row, the tree of its package if it is not, and the top if there is none. -/
def treeTaking (resolution : DependencyID → Option PackageID) (listed : List DependencyID)
    (depId : DependencyID) (own top : Id) : Option DependencyID → Option Id
  | some row => if Serves resolution listed depId row then none else some own
  | none => some top

def targetTree (lockfile : Lockfile) (builder : Builder) (owner : PackageID) (nextId : Id)
    (depId : DependencyID) : Option Id :=
  treeTaking builder.resolution (lockfile.dependenciesOf owner) depId nextId
    (builder.list.top nextId) (builder.lookup lockfile nextId (lockfile.nameHash depId))

theorem lookup_eq (nextId : Id) (name : PackageNameHash) :
    builder.lookup lockfile nextId name =
      (builder.rowNamed lockfile name nextId).or
        ((builder.list.chain nextId).tail.findSome? (builder.rowNamed lockfile name)) := by
  unfold Builder.lookup
  rw [Forest.chain_eq_cons, List.findSome?_cons, List.tail_cons]
  cases builder.rowNamed lockfile name nextId <;> rfl

theorem hoistFrom_regular (regular : lockfile.Regular)
    (consistent : builder.Consistent lockfile) (rowsResolved : builder.RowsResolved)
    {owner package : PackageID} {depId : DependencyID}
    (resolves : builder.resolution depId = some package) (idle : builder.peerProbes.Idle)
    {nextId : Id} (ownRows : ∀ row ∈ builder.rows nextId, row ∈ lockfile.dependenciesOf owner) :
    ∃ probes : PeerProbes, probes.Idle ∧
      hoistFrom lockfile nextId (lockfile.resolutionList owner) none (some package) depId builder =
        (match targetTree lockfile builder owner nextId depId with
          | none => .hoisted
          | some tree => .placement tree false,
          { builder with peerProbes := probes }) := by
  unfold hoistFrom targetTree
  dsimp only
  rw [hoistDependency_quiet _ _ _ _ _ (Or.inl rfl), consistent nextId, lookup_eq]
  cases found : builder.rowNamed lockfile (lockfile.nameHash depId) nextId with
  | some row =>
      have inFolder := (Builder.rowNamed_some found).1
      have served : Serves builder.resolution (lockfile.dependenciesOf owner) depId row :=
        Or.inr (ownRows row inFolder)
      refine ⟨builder.peerProbes, idle, ?_⟩
      dsimp only [Option.some_or, treeTaking]
      rw [hoistOntoRow_regular regular resolves (rowsResolved nextId row inFolder) nextId nextId,
        searchResult, if_pos served, if_pos served]
  | none =>
      unfold Forest.top
      rw [Forest.chain_eq_cons, List.tail_cons, List.getLastD_cons, Option.none_or]
      cases (builder.list.chain nextId).tail with
      | nil => exact ⟨builder.peerProbes, idle, rfl⟩
      | cons parent rest =>
          dsimp only
          rw [if_pos rfl, regular.isPeer, List.getLastD_cons]
          obtain ⟨noProbes, noPeers⟩ := begin_regular regular builder.peerProbes idle
            builder.resolution (lockfile.resolutionList owner) package false
          rw [hoistDependency_above regular consistent rowsResolved resolves noProbes]
          refine ⟨_, fun set held => Option.some.inj (held.symm.trans noPeers), ?_⟩
          cases (parent :: rest).findSome?
              (builder.rowNamed lockfile (lockfile.nameHash depId)) with
          | none => rfl
          | some row =>
              dsimp only [searchResult, treeTaking]
              split <;> rfl

end Search

/-! ### One dependency -/

namespace Builder

theorem rows_pushRow (builder : Builder) {tree : Id} (inside : tree < builder.list.size)
    (name : PackageNameHash) (depId : DependencyID) (id : Id) :
    (builder.pushRow tree name depId).rows id =
      builder.rows id ++ if tree = id then [depId] else [] := by
  unfold rows pushRow
  dsimp only
  rw [Forest.value_modify]
  by_cases same : tree = id
  · subst same
    obtain ⟨entry, stored⟩ := builder.list.value_isSome inside
    rw [stored, if_pos rfl]
    dsimp only [Option.map_some, Option.getD_some]
    rw [if_pos rfl]
  · rw [if_neg same]
    cases builder.list.value id with
    | none => rfl
    | some entry =>
        dsimp only [Option.map_some, Option.getD_some]
        rw [if_neg same, List.append_nil]

theorem folderOf_pushRow (builder : Builder) (tree : Id) (name : PackageNameHash)
    (depId : DependencyID) (id : Id) :
    (builder.pushRow tree name depId).folderOf id = builder.folderOf id := by
  unfold folderOf pushRow
  dsimp only
  rw [Forest.value_modify]
  cases builder.list.value id with
  | none => rfl
  | some entry =>
      dsimp only [Option.map_some, Option.bind_some]
      split <;> rfl

theorem consistent_pushRow {lockfile : Lockfile} {builder : Builder}
    (consistent : builder.Consistent lockfile) {tree : Id} (inside : tree < builder.list.size)
    (depId : DependencyID) :
    (builder.pushRow tree (lockfile.nameHash depId) depId).Consistent lockfile := by
  intro id name
  unfold rowNamed
  rw [rows_pushRow builder inside, List.find?_append]
  change (if id = tree ∧ name = lockfile.nameHash depId then _ else _) =
    (builder.rowNamed lockfile name id).or _
  rw [consistent id name]
  by_cases here : tree = id
  · subst here
    rw [if_pos rfl, List.find?_singleton]
    by_cases sameName : name = lockfile.nameHash depId
    · rw [if_pos ⟨rfl, sameName⟩, sameName, if_pos (beq_self_eq_true _)]
    · rw [if_neg fun both => sameName both.2,
        if_neg fun equal => sameName (eq_of_beq equal).symm, Option.or_none]
  · rw [if_neg here, if_neg fun both => here both.1.symm, List.find?_nil, Option.or_none]

theorem enqueue_eq (builder : Builder) (lockfile : Lockfile) (item : FillItem) (id : PackageID) :
    builder.enqueue lockfile item id =
      { builder with
        queue := builder.queue ++
          if 0 < (lockfile.resolutionList id).len then [item] else [] } := by
  unfold enqueue
  split
  · rfl
  · rw [List.append_nil]

end Builder

section OneDependency

variable {lockfile : Lockfile}

def rowTree (lockfile : Lockfile) (builder : Builder) (owner : PackageID) (nextId : Id)
    (depId : DependencyID) : Option Id :=
  if lockfile.placeable depId then targetTree lockfile builder owner nextId depId else none

def hasDependencies (lockfile : Lockfile) (depId : DependencyID) : Bool :=
  match lockfile.resolution depId with
  | none => false
  | some id => decide (0 < (lockfile.resolutionList id).len)

def fillItems (lockfile : Lockfile) (depId : DependencyID) (tree : Id) : List FillItem :=
  if hasDependencies lockfile depId then
    [{ treeId := tree, dependencyId := depId, hoistRootId := none }]
  else []

structure Undisturbed (before after : Builder) : Prop where
  parents : ∀ id, after.list.parent id = before.list.parent id
  size : after.list.size = before.list.size
  folders : ∀ id, after.folderOf id = before.folderOf id
  resolutions : after.resolutions = before.resolutions
  served : after.served = before.served

theorem Undisturbed.refl (builder : Builder) : Undisturbed builder builder :=
  ⟨fun _ => rfl, rfl, fun _ => rfl, rfl, rfl⟩

theorem Undisturbed.trans {first second third : Builder} (left : Undisturbed first second)
    (right : Undisturbed second third) : Undisturbed first third where
  parents := fun id => (right.parents id).trans (left.parents id)
  size := right.size.trans left.size
  folders := fun id => (right.folders id).trans (left.folders id)
  resolutions := right.resolutions.trans left.resolutions
  served := right.served.trans left.served

theorem place_regular (regular : lockfile.Regular) (builder : Builder)
    (sameResolutions : builder.resolutions = lockfile.resolutions) {package : PackageID}
    {depId : DependencyID} (resolves : lockfile.resolution depId = some package)
    (range : DependencyIDSlice) (firstWalk bound : Bool) (tree : Id) :
    ∃ log, place lockfile none range firstWalk bound depId tree false builder =
      if lockfile.placeable depId then
        { builder.pushRow tree (lockfile.nameHash depId) depId with
          queue := builder.queue ++ fillItems lockfile depId tree }
      else { builder with log := log } := by
  have resolvesHere : builder.resolution depId = some package := by
    unfold Builder.resolution
    rw [sameResolutions]
    exact resolves
  have guarded : ((some package).isSome && (lockfile.dependency depId).name != [] &&
      !aliasIsSafeInstallTarget (lockfile.dependency depId).name) =
        !lockfile.placeable depId := by
    unfold Lockfile.placeable
    rw [Bool.not_or]
    rfl
  unfold place
  dsimp only
  rw [regular.isPeer, resolvesHere, Bool.false_and, if_neg Bool.false_ne_true]
  refine ⟨builder.log ++ [(lockfile.dependency depId).name], ?_⟩
  simp only [guarded]
  cases lockfile.placeable depId with
  | false => rfl
  | true =>
      rw [if_neg Bool.false_ne_true, if_pos rfl, Builder.enqueue_eq]
      unfold fillItems hasDependencies
      rw [resolves]
      simp only [decide_eq_true_eq]
      rfl

theorem processDependency_regular (regular : lockfile.Regular) {builder : Builder}
    (sameResolutions : builder.resolutions = lockfile.resolutions)
    (consistent : builder.Consistent lockfile) (rowsResolved : builder.RowsResolved)
    (idle : builder.peerProbes.Idle) {owner : PackageID} {depId : DependencyID}
    (listed : depId ∈ lockfile.dependenciesOf owner) {nextId : Id}
    (ownRows : ∀ row ∈ builder.rows nextId, row ∈ lockfile.dependenciesOf owner)
    (firstWalk : Bool) :
    ∃ (probes : PeerProbes) (log : List (List UInt8)), probes.Idle ∧
      processDependency lockfile nextId none (lockfile.resolutionList owner) firstWalk builder
          depId =
        match rowTree lockfile builder owner nextId depId with
        | none => { builder with peerProbes := probes, log := log }
        | some tree =>
            { builder.pushRow tree (lockfile.nameHash depId) depId with
              queue := builder.queue ++ fillItems lockfile depId tree
              peerProbes := probes } := by
  obtain ⟨package, inside, resolves⟩ := regular.resolution_isSome listed
  have resolvesHere : builder.resolution depId = some package := by
    unfold Builder.resolution
    rw [sameResolutions]
    exact resolves
  obtain ⟨probes, probesIdle, found⟩ := hoistFrom_regular regular consistent rowsResolved
    resolvesHere idle ownRows
  have hoistedEq : hoisted lockfile nextId none (lockfile.resolutionList owner) depId builder =
      (some (match targetTree lockfile builder owner nextId depId with
        | none => .hoisted
        | some tree => .placement tree false), { builder with peerProbes := probes }) := by
    unfold hoisted
    dsimp only
    rw [regular.isBundled, if_neg Bool.false_ne_true, resolvesHere]
    dsimp only
    rw [if_neg (regular.resolutionTag_ne package).1, found]
  have bindEq : builder.bindPeer lockfile depId = (false, builder) := by
    unfold Builder.bindPeer
    rw [regular.isPeer]
    rfl
  unfold processDependency rowTree
  dsimp only
  rw [bindEq, hoistedEq]
  cases targetTree lockfile builder owner nextId depId with
  | none => exact ⟨probes, builder.log, probesIdle, by simp⟩
  | some tree =>
      dsimp only
      obtain ⟨log, placedEq⟩ := place_regular regular { builder with peerProbes := probes }
        sameResolutions resolves (lockfile.resolutionList owner) firstWalk false tree
      rw [placedEq]
      refine ⟨probes, log, probesIdle, ?_⟩
      cases lockfile.placeable depId <;> rfl

/-- The dependencies that get a row: of each name the first that some tree takes. -/
def placedOf (lockfile : Lockfile) (takes : DependencyID → Option Id)
    (deps : List DependencyID) : List DependencyID :=
  firstOfEach lockfile.nameHash (deps.filter fun depId => (takes depId).isSome)

theorem mem_placedOf {takes : DependencyID → Option Id} {deps : List DependencyID}
    {depId : DependencyID} (placed : depId ∈ placedOf lockfile takes deps) :
    depId ∈ deps ∧ ∃ tree, takes depId = some tree := by
  obtain ⟨inDeps, isTaken⟩ := List.mem_filter.mp ((firstOfEach_sublist _).subset placed)
  exact ⟨inDeps, Option.isSome_iff_exists.mp isTaken⟩

theorem placedOf_append (lockfile : Lockfile) (takes : DependencyID → Option Id)
    (deps : List DependencyID) (depId : DependencyID) :
    placedOf lockfile takes (deps ++ [depId]) =
      placedOf lockfile takes deps ++
        ((if lockfile.nameHash depId ∈ (placedOf lockfile takes deps).map lockfile.nameHash then
          none else takes depId).elim [] fun _ => [depId]) := by
  unfold placedOf
  rw [List.filter_append, List.filter_singleton]
  cases taken : takes depId with
  | none =>
      rw [ite_self, Option.isSome_none, cond_false, List.append_nil]
      exact (List.append_nil _).symm
  | some tree =>
      rw [Option.isSome_some, cond_true, firstOfEach_append_singleton]
      simp only [mem_map_firstOfEach]
      split <;> rfl

/-- Where a loop over the dependencies of the package of `nextId` is: those in `done` have been
placed as the folders stood at the start. -/
structure Filling (lockfile : Lockfile) (start : Builder) (owner : PackageID) (nextId : Id)
    (done : List DependencyID) (builder : Builder) : Prop where
  undisturbed : Undisturbed start builder
  rows : ∀ id, builder.rows id = start.rows id ++
    (placedOf lockfile (rowTree lockfile start owner nextId) done).filter fun depId =>
      rowTree lockfile start owner nextId depId == some id
  queue : builder.queue = start.queue ++
    (placedOf lockfile (rowTree lockfile start owner nextId) done).flatMap fun depId =>
      (rowTree lockfile start owner nextId depId).elim [] (fillItems lockfile depId)
  consistent : builder.Consistent lockfile
  idle : builder.peerProbes.Idle

theorem rowTree_cases {start : Builder} {owner : PackageID} {nextId tree : Id}
    {depId : DependencyID} (takes : rowTree lockfile start owner nextId depId = some tree) :
    (start.lookup lockfile nextId (lockfile.nameHash depId) = none ∧
        tree = start.list.top nextId) ∨ tree = nextId := by
  unfold rowTree targetTree at takes
  split at takes
  · cases found : start.lookup lockfile nextId (lockfile.nameHash depId) with
    | none =>
        rw [found] at takes
        exact Or.inl ⟨rfl, (Option.some.inj takes).symm⟩
    | some row =>
        rw [found] at takes
        dsimp only [treeTaking] at takes
        split at takes
        · cases takes
        · exact Or.inr (Option.some.inj takes).symm
  · cases takes

theorem rowTree_lt {start : Builder} {owner : PackageID} {nextId tree : Id}
    {depId : DependencyID} (inside : nextId < start.list.size)
    (takes : rowTree lockfile start owner nextId depId = some tree) :
    tree < start.list.size := by
  rcases rowTree_cases takes with ⟨_, rfl⟩ | rfl
  · exact Nat.lt_of_le_of_lt (start.list.top_le nextId) inside
  · exact inside

namespace Filling

variable {start builder : Builder} {owner : PackageID} {nextId : Id} {done : List DependencyID}

theorem rowNamed_eq (filling : Filling lockfile start owner nextId done builder)
    {name : PackageNameHash}
    (other : name ∉
      (placedOf lockfile (rowTree lockfile start owner nextId) done).map lockfile.nameHash)
    (id : Id) : builder.rowNamed lockfile name id = start.rowNamed lockfile name id := by
  unfold Builder.rowNamed
  rw [filling.rows, List.find?_append]
  refine (congrArg (Option.or _) (List.find?_eq_none.mpr ?_)).trans Option.or_none
  intro row inRows sameName
  exact other (List.mem_map.mpr ⟨row, List.mem_of_mem_filter inRows, eq_of_beq sameName⟩)

theorem chain_eq (filling : Filling lockfile start owner nextId done builder) :
    builder.list.chain nextId = start.list.chain nextId :=
  Forest.chain_congr nextId fun id _ => filling.undisturbed.parents id

theorem lookup_placed (filling : Filling lockfile start owner nextId done builder)
    (noRows : start.rows nextId = []) {depId : DependencyID}
    (placed : depId ∈ placedOf lockfile (rowTree lockfile start owner nextId) done) :
    ∃ row ∈ done,
      builder.lookup lockfile nextId (lockfile.nameHash depId) = some row := by
  obtain ⟨inDone, tree, takes⟩ := mem_placedOf placed
  have inTree : depId ∈ builder.rows tree := by
    rw [filling.rows]
    exact List.mem_append_right _ (List.mem_filter.mpr ⟨placed, beq_iff_eq.mpr takes⟩)
  obtain ⟨row, named⟩ : ∃ row,
      builder.rowNamed lockfile (lockfile.nameHash depId) tree = some row := by
    refine Option.isSome_iff_exists.mp (List.find?_isSome.mpr ⟨depId, inTree, ?_⟩)
    exact beq_self_eq_true _
  have inPlaced {id : Id} {row : DependencyID} (inRows : row ∈ builder.rows id)
      (isNew : row ∉ start.rows id) : row ∈ done := by
    rw [filling.rows] at inRows
    exact (mem_placedOf (List.mem_of_mem_filter
      ((List.mem_append.mp inRows).resolve_left isNew))).1
  rcases rowTree_cases takes with ⟨missing, rfl⟩ | rfl
  · unfold Builder.lookup at missing ⊢
    rw [List.findSome?_eq_none_iff, ← filling.chain_eq] at missing
    have isFound : ((builder.list.chain nextId).findSome?
        (builder.rowNamed lockfile (lockfile.nameHash depId))).isSome = true := by
      rw [List.findSome?_isSome_iff]
      refine ⟨_, ?_, Option.isSome_iff_exists.mpr ⟨row, named⟩⟩
      rw [filling.chain_eq]
      exact start.list.top_mem_chain nextId
    obtain ⟨found, isRow⟩ := Option.isSome_iff_exists.mp isFound
    obtain ⟨id, inChain, foundHere⟩ := List.exists_of_findSome?_eq_some isRow
    obtain ⟨inRows, sameName⟩ := Builder.rowNamed_some foundHere
    refine ⟨found, inPlaced inRows fun old => ?_, isRow⟩
    exact List.find?_eq_none.mp (missing id inChain) found old (beq_iff_eq.mpr sameName)
  · refine ⟨row, inPlaced (Builder.rowNamed_some named).1 ?_, ?_⟩
    · rw [noRows]
      exact List.not_mem_nil
    · rw [lookup_eq, named, Option.some_or]

/-- Dependencies whose name was placed are skipped, and the others are placed as at the start. -/
theorem rowTree_eq (filling : Filling lockfile start owner nextId done builder)
    (noRows : start.rows nextId = [])
    (doneListed : ∀ depId ∈ done, depId ∈ lockfile.dependenciesOf owner)
    (depId : DependencyID) :
    rowTree lockfile builder owner nextId depId =
      if lockfile.nameHash depId ∈
          (placedOf lockfile (rowTree lockfile start owner nextId) done).map lockfile.nameHash then
        none
      else rowTree lockfile start owner nextId depId := by
  split
  · rename_i named
    obtain ⟨other, placed, sameName⟩ := List.mem_map.mp named
    obtain ⟨row, inDone, found⟩ := filling.lookup_placed noRows placed
    have served : Serves builder.resolution (lockfile.dependenciesOf owner) depId row :=
      Or.inr (doneListed row inDone)
    unfold rowTree targetTree
    rw [← sameName, found, treeTaking, if_pos served, ite_self]
  · rename_i other
    have sameLookup : builder.lookup lockfile nextId (lockfile.nameHash depId) =
        start.lookup lockfile nextId (lockfile.nameHash depId) := by
      unfold Builder.lookup
      rw [filling.chain_eq]
      exact congrArg (fun named => (start.list.chain nextId).findSome? named)
        (funext (filling.rowNamed_eq other))
    have sameResolution : builder.resolution = start.resolution := by
      funext id
      unfold Builder.resolution
      rw [filling.undisturbed.resolutions]
    unfold rowTree targetTree Forest.top
    rw [sameLookup, filling.chain_eq, sameResolution]

theorem listed_of_new (doneListed : ∀ depId ∈ done, depId ∈ lockfile.dependenciesOf owner) {id : Id}
    {row : DependencyID} (inRows : row ∈ (placedOf lockfile (rowTree lockfile start owner nextId)
      done).filter fun depId => rowTree lockfile start owner nextId depId == some id) :
    row ∈ lockfile.dependenciesOf owner :=
  doneListed row (mem_placedOf (List.mem_of_mem_filter inRows)).1

theorem rowsResolved (filling : Filling lockfile start owner nextId done builder)
    (regular : lockfile.Regular) (sameResolutions : start.resolutions = lockfile.resolutions)
    (rowsResolved : start.RowsResolved)
    (doneListed : ∀ depId ∈ done, depId ∈ lockfile.dependenciesOf owner) :
    builder.RowsResolved := by
  intro id row inRows
  unfold Builder.resolution
  rw [filling.undisturbed.resolutions.trans sameResolutions]
  rw [filling.rows] at inRows
  rcases List.mem_append.mp inRows with old | new
  · obtain ⟨target, resolves⟩ := rowsResolved id row old
    unfold Builder.resolution at resolves
    rw [sameResolutions] at resolves
    exact ⟨target, resolves⟩
  · obtain ⟨target, _, resolves⟩ := regular.resolution_isSome (listed_of_new doneListed new)
    exact ⟨target, resolves⟩

/-- The row of a dependency that a tree takes is the last one of its tree. -/
theorem rows_pushRow (filling : Filling lockfile start owner nextId done builder) {tree : Id}
    (treeInside : tree < builder.list.size) {depId : DependencyID}
    (takes : rowTree lockfile start owner nextId depId = some tree)
    (placedEq : placedOf lockfile (rowTree lockfile start owner nextId) (done ++ [depId]) =
      placedOf lockfile (rowTree lockfile start owner nextId) done ++ [depId]) (id : Id) :
    (builder.pushRow tree (lockfile.nameHash depId) depId).rows id = start.rows id ++
      (placedOf lockfile (rowTree lockfile start owner nextId) (done ++ [depId])).filter
        fun depId => rowTree lockfile start owner nextId depId == some id := by
  rw [placedEq, List.filter_append, List.filter_singleton, takes]
  refine (builder.rows_pushRow treeInside (lockfile.nameHash depId) depId id).trans ?_
  rw [filling.rows, List.append_assoc]
  by_cases here : tree = id
  · rw [if_pos here, here, beq_self_eq_true]
    rfl
  · have elsewhere : (some tree == some id) = false := by
      rw [beq_eq_false_iff_ne]
      exact fun equal => here (Option.some.inj equal)
    rw [if_neg here, elsewhere]
    rfl

theorem step (regular : lockfile.Regular)
    (filling : Filling lockfile start owner nextId done builder)
    (sameResolutions : start.resolutions = lockfile.resolutions)
    (rowsResolved : start.RowsResolved) (inside : nextId < start.list.size)
    (noRows : start.rows nextId = [])
    (doneListed : ∀ depId ∈ done, depId ∈ lockfile.dependenciesOf owner) {depId : DependencyID}
    (listed : depId ∈ lockfile.dependenciesOf owner) (firstWalk : Bool) :
    Filling lockfile start owner nextId (done ++ [depId])
      (processDependency lockfile nextId none (lockfile.resolutionList owner) firstWalk builder
        depId) := by
  have hereResolutions : builder.resolutions = lockfile.resolutions :=
    filling.undisturbed.resolutions.trans sameResolutions
  have ownRows : ∀ row ∈ builder.rows nextId, row ∈ lockfile.dependenciesOf owner := by
    intro row inRows
    rw [filling.rows, noRows, List.nil_append] at inRows
    exact listed_of_new doneListed inRows
  obtain ⟨probes, log, idle, result⟩ := processDependency_regular regular hereResolutions
    filling.consistent (filling.rowsResolved regular sameResolutions rowsResolved doneListed)
    filling.idle listed ownRows firstWalk
  have placedEq := placedOf_append lockfile (rowTree lockfile start owner nextId) done depId
  rw [← filling.rowTree_eq noRows doneListed] at placedEq
  rw [result]
  cases takes : rowTree lockfile builder owner nextId depId with
  | none =>
      rw [takes, Option.elim_none, List.append_nil] at placedEq
      refine
        { undisturbed := filling.undisturbed.trans ⟨fun _ => rfl, rfl, fun _ => rfl, rfl, rfl⟩
          rows := ?_, queue := ?_, consistent := filling.consistent, idle := idle }
      · rw [placedEq]
        exact filling.rows
      · rw [placedEq]
        exact filling.queue
  | some tree =>
      rw [takes, Option.elim_some] at placedEq
      have takesThen : rowTree lockfile start owner nextId depId = some tree := by
        rw [filling.rowTree_eq noRows doneListed] at takes
        split at takes
        · cases takes
        · exact takes
      have treeInside : tree < builder.list.size := by
        rw [filling.undisturbed.size]
        exact rowTree_lt inside takesThen
      refine
        { undisturbed := filling.undisturbed.trans
            { parents := fun id => Forest.parent_modify _ _ _ id
              size := Forest.size_modify _ _ _
              folders := fun id => builder.folderOf_pushRow tree (lockfile.nameHash depId) depId id
              resolutions := rfl
              served := rfl }
          rows := ?_, queue := ?_
          consistent := Builder.consistent_pushRow filling.consistent treeInside depId
          idle := idle }
      · exact filling.rows_pushRow treeInside takesThen placedEq
      · rw [placedEq, List.flatMap_append, List.flatMap_singleton, takesThen, ← List.append_assoc]
        exact congrArg (· ++ fillItems lockfile depId tree) filling.queue

theorem foldl (regular : lockfile.Regular)
    (sameResolutions : start.resolutions = lockfile.resolutions)
    (rowsResolved : start.RowsResolved) (inside : nextId < start.list.size)
    (noRows : start.rows nextId = []) (firstWalk : Bool) (rest : List DependencyID) :
    ∀ (done : List DependencyID) (builder : Builder),
      (∀ depId ∈ done ++ rest, depId ∈ lockfile.dependenciesOf owner) →
      Filling lockfile start owner nextId done builder →
      Filling lockfile start owner nextId (done ++ rest)
        (rest.foldl
          (processDependency lockfile nextId none (lockfile.resolutionList owner) firstWalk)
          builder) := by
  induction rest with
  | nil =>
      intro done builder _ filling
      rw [List.append_nil]
      exact filling
  | cons depId rest ih =>
      intro done builder listed filling
      have regroup : done ++ depId :: rest = (done ++ [depId]) ++ rest := by
        rw [List.append_assoc, List.singleton_append]
      have next := filling.step regular sameResolutions rowsResolved inside noRows
        (fun id inDone => listed id (List.mem_append_left _ inDone))
        (listed depId (List.mem_append_right _ List.mem_cons_self)) firstWalk
      rw [regroup] at listed ⊢
      rw [List.foldl_cons]
      exact ih (done ++ [depId]) _ listed next

end Filling

end OneDependency

end Bun.Install
