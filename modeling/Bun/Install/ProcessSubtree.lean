/-
Placing the dependencies of one package, and the breadth-first loop of
`Lockfile::hoist` for the saved tree.
-/

import Bun.Install.HoistDependency

set_option autoImplicit false

namespace Bun.Install

open Bun.Foundation

namespace Builder

/-! ### Folders that repeat -/

/-- How many folders of the lower round have the dependency and a prefix of the rows of the
folder above them in the upper round. -/
def sameFolders (builder : Builder) : Nat → List Id → List Id → Nat
  | period + 1, lower :: lowers, upper :: uppers =>
      if builder.folderOf lower = builder.folderOf upper ∧
          (builder.rows lower).isPrefixOf (builder.rows upper) = true then
        builder.sameFolders period lowers uppers + 1
      else 0
  | _, _, _ => 0

def repeatingFrom (builder : Builder) (chain : List Id) (dependencyId : Option DependencyID) :
    Nat → List Id → Option Nat
  | _, [] => none
  | period, roundStart :: above =>
      if builder.folderOf roundStart = dependencyId ∧
          builder.sameFolders period chain above = period then
        some period
      else builder.repeatingFrom chain dependencyId (period + 1) above

/-- `some n` if two identical rounds of `n` trees end at the parent, the first of `chain`, which
means a third round would nest forever. -/
def repeatingPeriod (builder : Builder) (chain : List Id) (dependencyId : Option DependencyID) :
    Option Nat :=
  builder.repeatingFrom chain dependencyId 1 chain

/-! ### Results of one dependency -/

def bindPeer (builder : Builder) (lockfile : Lockfile) (depId : DependencyID) : Bool × Builder :=
  if !(lockfile.dependency depId).behavior.isPeer then (false, builder)
  else
    match lockfile.rules.peerByVersion depId with
    | some id => (true, builder.setResolution depId id)
    | none => (false, builder)

def bindPendingPeers (builder : Builder) (nameHash : PackageNameHash) (id : PackageID) : Builder :=
  match builder.pendingPeers.find? (fun entry => entry.1 == nameHash) with
  | none => builder
  | some (_, peers) =>
      peers.foldl (fun bound depId => bound.setResolution depId id)
        { builder with
          pendingPeers := builder.pendingPeers.filter (fun entry => entry.1 != nameHash) }

def savePendingPeer (builder : Builder) (nameHash : PackageNameHash) (depId : DependencyID) :
    Builder :=
  match builder.pendingPeers.find? (fun entry => entry.1 == nameHash) with
  | none => { builder with pendingPeers := builder.pendingPeers ++ [(nameHash, [depId])] }
  | some _ =>
      { builder with
        pendingPeers := builder.pendingPeers.map fun entry =>
          if entry.1 = nameHash ∧ depId ∉ entry.2 then (entry.1, entry.2 ++ [depId]) else entry }

def enqueue (builder : Builder) (lockfile : Lockfile) (item : FillItem) (id : PackageID) :
    Builder :=
  if 0 < (lockfile.resolutionList id).len then { builder with queue := builder.queue ++ [item] }
  else builder

def pushRow (builder : Builder) (id : Id) (nameHash : PackageNameHash) (depId : DependencyID) :
    Builder :=
  { builder with
    list := builder.list.modify id fun entry =>
      { entry with dependencies := entry.dependencies ++ [depId] }
    placed := fun tree name =>
      if tree = id ∧ name = nameHash then (builder.placed tree name).or (some depId)
      else builder.placed tree name }

def replaceRow (builder : Builder) (id : Id) (nameHash : PackageNameHash)
    (replaced depId : DependencyID) : Builder :=
  { builder with
    list := builder.list.modify id fun entry =>
      { entry with
        dependencies := entry.dependencies.map fun row => if row = replaced then depId else row }
    placed := fun tree name =>
      if tree = id ∧ name = nameHash ∧ builder.placed tree name = some replaced then some depId
      else builder.placed tree name }

end Builder

section Subtree

variable (lockfile : Lockfile) (nextId : Id) (hoistRootId : Option Id)
variable (resolutionList : DependencyIDSlice) (firstWalk : Bool)

def hoistFrom (root : Option Id) (packageId : Option PackageID) (depId : DependencyID)
    (builder : Builder) : HoistDependencyResult × Builder :=
  let found :=
    hoistDependency lockfile builder packageId depId resolutionList root
      (builder.list.chain nextId).tail nextId true builder.peerProbes
  (found.1, { builder with peerProbes := found.2 })

def staysOn (resId : PackageID) (depId : DependencyID) (builder : Builder) : Bool × Builder :=
  if firstWalk && !builder.bundlePlaced then
    let found := hoistFrom lockfile nextId resolutionList hoistRootId (some resId) depId builder
    (found.1 == .hoisted, found.2)
  else (false, builder)

def bindFound (resId : PackageID) (depId : DependencyID) (builder : Builder) : Builder :=
  let stays :=
    staysOn lockfile nextId hoistRootId resolutionList firstWalk resId depId
      (builder.setResolution depId resId)
  if stays.1 then stays.2 else { stays.2 with lateBoundPeer := true }

def folderCycle (builder : Builder) (packageId : PackageID) (depId : DependencyID) : Bool :=
  (builder.list.chain nextId).any fun tree =>
    match builder.folderOf tree with
    | none => false
    | some ancestor =>
        builder.resolution ancestor == some packageId &&
          (lockfile.dependency ancestor).nameHash == (lockfile.dependency depId).nameHash

/-- What becomes of one dependency, or `none` if it is skipped. -/
def hoisted (depId : DependencyID) (builder : Builder) :
    Option HoistDependencyResult × Builder :=
  let dependency := lockfile.dependency depId
  let hoist (root : Option Id) (builder : Builder) :=
    let found :=
      hoistFrom lockfile nextId resolutionList root (builder.resolution depId) depId builder
    (some found.1, found.2)
  if dependency.behavior.isBundled then
    (some (.placement nextId true), { builder with bundlePlaced := true })
  else
    match builder.resolution depId with
    | none => if dependency.behavior.isPeer then hoist hoistRootId builder else (none, builder)
    | some id =>
        if lockfile.resolutionTag id = .folder then
          -- A peer an ancestor edge already provides dedupes instead of nesting a second copy.
          let provided :=
            if dependency.behavior.isPeer then
              match hoist hoistRootId builder with
              | (some .hoisted, after) => (some .hoisted, after)
              | (some (.served res), after) => (some (.served res), after)
              | (_, after) => (none, after)
            else (none, builder)
          match provided with
          | (some result, after) => (some result, after)
          | (none, after) =>
              if folderCycle lockfile nextId after id depId then (none, after)
              else hoist (some nextId) after
        else hoist hoistRootId builder

def ownRegular (builder : Builder) (depId : DependencyID) : Option DependencyID :=
  resolutionList.ids.find? fun own =>
    (lockfile.dependency own).nameHash == (lockfile.dependency depId).nameHash &&
      !(lockfile.dependency own).behavior.isPeer && (builder.resolution own).isSome

def place (boundByVersion : Bool) (depId : DependencyID) (id : Id) (bundled : Bool)
    (builder : Builder) : Builder :=
  let dependency := lockfile.dependency depId
  let packageId := builder.resolution depId
  let own :=
    if dependency.behavior.isPeer && !bundled then
      ownRegular lockfile resolutionList builder depId
    else none
  match own with
  | some own =>
      match builder.resolution own with
      | none => builder
      | some ownPkgId =>
          if firstWalk && boundByVersion && isAlwaysLinked (lockfile.dependency own) &&
              lockfile.rules.satisfiesRange ownPkgId depId then
            { builder with served := builder.served ++ [(depId, ownPkgId)] }
          else builder
  | none =>
      if packageId.isSome && dependency.name != [] &&
          !aliasIsSafeInstallTarget dependency.name then
        { builder with log := builder.log ++ [dependency.name] }
      else
        let pushed := builder.pushRow id dependency.nameHash depId
        match packageId with
        | none => pushed
        | some package =>
            pushed.enqueue lockfile
              { treeId := id, dependencyId := depId,
                hoistRootId := if bundled then some id else hoistRootId }
              package

def processDependency (before : Builder) (depId : DependencyID) : Builder :=
  let bound := before.bindPeer lockfile depId
  let dependency := lockfile.dependency depId
  let packageId := bound.2.resolution depId
  let found := hoisted lockfile nextId hoistRootId resolutionList depId bound.2
  let builder := found.2
  match found.1 with
  | none | some .dependencyLoop | some .hoisted => builder
  | some (.served resId) =>
      if firstWalk && bound.1 then { builder with served := builder.served ++ [(depId, resId)] }
      else builder
  | some (.resolve resId) =>
      if firstWalk || !dependency.behavior.isOptionalPeer then
        bindFound lockfile nextId hoistRootId resolutionList firstWalk resId depId builder
      else builder
  | some (.rebind resId) =>
      if firstWalk then
        bindFound lockfile nextId hoistRootId resolutionList firstWalk resId depId builder
      else builder
  | some (.resolveReplace id replaced) =>
      match packageId with
      | none => builder
      | some package =>
          let rebound :=
            if !(lockfile.dependency replaced).behavior.isWorkspace then
              ({ builder with lateBoundPeer := true }.setResolution replaced
                package).bindPendingPeers dependency.nameHash package
            else builder
          (rebound.replaceRow id dependency.nameHash replaced depId).enqueue lockfile
            { treeId := id, dependencyId := depId, hoistRootId := hoistRootId } package
  | some .resolveLater => builder.savePendingPeer dependency.nameHash depId
  | some (.placement id bundled) =>
      place lockfile hoistRootId resolutionList firstWalk bound.1 depId id bundled builder

end Subtree

/-! ### One package -/

inductive HoistError where
  /-- `crash_on_endless_nesting`. -/
  | endlessNesting (parent : Option Id) (dependencyId : Option DependencyID) (period : Nat)
  /-- An index that is not in its list. -/
  | outOfBounds
deriving DecidableEq, Repr

def linksBack (lockfile : Lockfile) (builder : Builder) (chain : List Id)
    (dependencyId : Option DependencyID) (parentPkgId : PackageID) : Bool :=
  match dependencyId with
  | none => false
  | some depId =>
      !(lockfile.dependency depId).behavior.isWorkspace &&
        lockfile.resolutionTag parentPkgId == .workspace &&
        chain.any fun tree => (builder.folderOf tree).bind builder.resolution == some parentPkgId

/-- Fills the new folder of a package and removes it if nothing had to be placed in it. -/
def fillFolder (lockfile : Lockfile) (builder : Builder) (parent : Option Id)
    (dependencyId : Option DependencyID) (hoistRootId : Option Id) (parentPkgId : PackageID) :
    Except HoistError Builder :=
  match builder.list.push? parent { dependencyId := dependencyId, dependencies := [] } with
  | none => .error .outOfBounds
  | some list =>
      let nextId := builder.list.size
      let resolutionList := lockfile.resolutionList parentPkgId
      let filled :=
        (sortedDependencies lockfile resolutionList).foldl
          (processDependency lockfile nextId hoistRootId resolutionList
            (decide (parentPkgId ∉ builder.walked)))
          { builder with list := list, walked := parentPkgId :: builder.walked }
      if filled.rows nextId = [] then .ok { filled with list := filled.list.pop }
      else .ok filled

/-- `process_subtree`; without `detects` the check for repeated rounds is left out. -/
def processSubtree (lockfile : Lockfile) (detects : Bool) (builder : Builder)
    (parent : Option Id) (dependencyId : Option DependencyID) (hoistRootId : Option Id) :
    Except HoistError Builder :=
  match dependencyId.elim (some 0) builder.resolution with
  | none => .error .outOfBounds
  | some parentPkgId =>
      if (lockfile.resolutionList parentPkgId).len = 0 then .ok builder
      else
        let chain := parent.elim [] builder.list.chain
        if linksBack lockfile builder chain dependencyId parentPkgId then .ok builder
        else
          match if detects then builder.repeatingPeriod chain dependencyId else none with
          | some period => .error (.endlessNesting parent dependencyId period)
          | none => fillFolder lockfile builder parent dependencyId hoistRootId parentPkgId

/-! ### The whole lockfile -/

def Builder.new (lockfile : Lockfile) : Builder :=
  { list := .empty
    resolutions := lockfile.resolutions
    queue := []
    placed := fun _ _ => none
    pendingPeers := []
    lateBoundPeer := false
    bundlePlaced := false
    walked := []
    served := []
    peerProbes := { probes := [], withPeers := none, regularTargets := none }
    log := [] }

/-- Resolves each served peer to the package recorded with it, unless the peer itself is a row in
some tree. -/
def bindServedPeers (lockfile : Lockfile) (builder : Builder) : Builder :=
  let placed :=
    (builder.list.nodes.flatMap fun node => node.2.dependencies).filter fun row =>
      (lockfile.dependency row).behavior.isPeer
  (builder.served.filter fun entry => entry.1 ∉ placed).foldl
    (fun bound entry => bound.setResolution entry.1 entry.2) { builder with served := [] }

/-- A stored tree: its rows are a run of the stored dependency ids. -/
structure Tree where
  dependencyId : Option DependencyID
  parent : Option Id
  dependencies : DependencyIDSlice
deriving DecidableEq, Repr

structure CleanResult where
  trees : List Tree
  depIds : List DependencyID
deriving DecidableEq, Repr

/-- The rows of a tree that are stored: peers that never resolved are left out. -/
def keptRows (resolution : DependencyID → Option PackageID) (entry : BuilderEntry) :
    List DependencyID :=
  entry.dependencies.filter fun depId => (resolution depId).isSome

def CleanResult.store (resolution : DependencyID → Option PackageID) (result : CleanResult)
    (node : Option Id × BuilderEntry) : CleanResult :=
  { trees := result.trees ++
      [{ dependencyId := node.2.dependencyId, parent := node.1,
         dependencies :=
           { off := result.depIds.length, len := (keptRows resolution node.2).length } }]
    depIds := result.depIds ++ keptRows resolution node.2 }

def Builder.clean (builder : Builder) : CleanResult :=
  builder.list.nodes.foldl (CleanResult.store builder.resolution) { trees := [], depIds := [] }

inductive Hoisting where
  | unfinished
  | crashed (error : HoistError)
  | finished (result : CleanResult) (lateBoundPeer : Bool)
deriving DecidableEq, Repr

/-- At most `steps` turns of the breadth-first loop, and the end of `hoist`. -/
def fillQueue (lockfile : Lockfile) (detects : Bool) : Nat → Builder → Hoisting
  | steps, builder =>
      match builder.queue with
      | [] =>
          .finished (bindServedPeers lockfile builder).clean builder.lateBoundPeer
      | item :: rest =>
          match steps with
          | 0 => .unfinished
          | steps + 1 =>
              match processSubtree lockfile detects { builder with queue := rest }
                  (some item.treeId) (some item.dependencyId) item.hoistRootId with
              | .error error => .crashed error
              | .ok after => fillQueue lockfile detects steps after

section Turns

variable (lockfile : Lockfile) (detects : Bool) {builder : Builder}

theorem fillQueue_nil (steps : Nat) (done : builder.queue = []) :
    fillQueue lockfile detects steps builder =
      .finished (bindServedPeers lockfile builder).clean builder.lateBoundPeer := by
  rw [fillQueue.eq_def]
  dsimp only
  rw [done]

theorem fillQueue_zero {item : FillItem} {rest : List FillItem}
    (waiting : builder.queue = item :: rest) :
    fillQueue lockfile detects 0 builder = .unfinished := by
  rw [fillQueue.eq_def]
  dsimp only
  rw [waiting]

theorem fillQueue_succ (steps : Nat) {item : FillItem} {rest : List FillItem}
    (waiting : builder.queue = item :: rest) :
    fillQueue lockfile detects (steps + 1) builder =
      match processSubtree lockfile detects { builder with queue := rest }
          (some item.treeId) (some item.dependencyId) item.hoistRootId with
      | .error error => .crashed error
      | .ok after => fillQueue lockfile detects steps after := by
  rw [fillQueue.eq_def]
  dsimp only
  rw [waiting]

end Turns

/-- `Lockfile::hoist::<Resolvable>`, with at most `steps` turns of its loop. -/
def hoist (lockfile : Lockfile) (detects : Bool) (steps : Nat) : Hoisting :=
  match processSubtree lockfile detects (Builder.new lockfile) none none none with
  | .error error => .crashed error
  | .ok builder => fillQueue lockfile detects steps builder

end Bun.Install
